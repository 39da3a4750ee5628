import EntitySearch.Criterion.Check
import EntitySearch.Proofs.Execution
import EntitySearch.Proofs.Placeholders
import EntitySearch.Proofs.TypedOperands
/-!
Integers among the bound values. The condition of a forest binds, besides constants of its own,
exactly the integers of the operands that are compared or listed as they are, in their order. They
are those that 64 bits hold with a sign or without, so some of them are beyond what a page's offset
may be.
-/
namespace EntitySearch
open Sql

namespace Sql

/-- The integer that a value of 64 bits holds. -/
def Value.wide? : Value → Option Int
  | int64 n => some n.toInt
  | uint64 n => some n.toNat
  | _ => none

/-- Databases bind signed numbers of 64 bits, as they do for offsets. -/
def Value.Bindable (v : Value) : Prop :=
  ∀ n, v.wide? = some n →
    -(PageRequest.maxOffset.toNat : Int) - 1 ≤ n ∧ n ≤ PageRequest.maxOffset.toNat

theorem Value.wide?_ofNumber (n : Int) (fits : -0x8000000000000000 ≤ n ∧ n < 0x10000000000000000) :
    (ofNumber (.whole n fits)).wide? = some n := by
  unfold ofNumber
  dsimp only
  split
  next hsigned =>
    have hn := Int64.toInt_ofInt_of_le (n := n) fits.1 hsigned
    simp [wide?, hn]
  next hunsigned =>
    have hn : n.toNat < UInt64.size := by simp only [UInt64.size]; omega
    simp only [wide?, UInt64.toNat_ofNat_of_lt' hn, Option.some.injEq]
    omega

theorem Value.range_of_wide? {v : Value} {n : Int} (h : v.wide? = some n) :
    -0x8000000000000000 ≤ n ∧ n < 0x10000000000000000 := by
  cases v with
  | int64 k =>
    obtain rfl := Option.some.inj h
    have hlow := k.le_toInt
    have hhigh := k.toInt_lt
    omega
  | uint64 k =>
    obtain rfl := Option.some.inj h
    have hhigh := k.toNat_lt
    omega
  | _ => simp [wide?] at h

theorem maxOffset_toNat : PageRequest.maxOffset.toNat = 0x7fffffffffffffff := rfl

/-- No number of 64 bits is too small to be bound. -/
theorem Value.bindable_iff {v : Value} :
    v.Bindable ↔ ∀ n, v.wide? = some n → n ≤ PageRequest.maxOffset.toNat := by
  refine forall_congr' fun n => imp_congr_right fun h => ⟨And.right, fun hn => ⟨?_, hn⟩⟩
  have hrange := range_of_wide? h
  rw [maxOffset_toNat]
  omega

/-- Values among which the numbers of 64 bits are these integers, in their order; other numbers are
0 or 1. -/
structure Carries (values : List Value) (integers : List Int) : Prop where
  wide : values.filterMap Value.wide? = integers
  narrow : ∀ n, .int32 n ∈ values → n = 0 ∨ n = 1

namespace Carries

theorem append {vs ws : List Value} {ms ns : List Int} (hv : Carries vs ms) (hw : Carries ws ns) :
    Carries (vs ++ ws) (ms ++ ns) where
  wide := by rw [List.filterMap_append, hv.wide, hw.wide]
  narrow n hn := (List.mem_append.mp hn).elim (hv.narrow n) (hw.narrow n)

theorem of_texts {vs : List Value} (h : ∀ v ∈ vs, ∃ s, v = .text s) : Carries vs [] where
  wide := by
    rw [List.filterMap_eq_nil_iff]
    intro v hv
    obtain ⟨s, rfl⟩ := h v hv
    rfl
  narrow n hn := by
    obtain ⟨s, hs⟩ := h _ hn
    simp at hs

end Carries

namespace Expression

@[simp] theorem values_parenthesized (e : Expression) :
    e.parenthesized.values = e.fragment.values := by
  simp [parenthesized]

@[simp] theorem values_asLeft (j : Junction) (e : Expression) :
    (e.asLeft j).values = e.fragment.values := by
  unfold asLeft
  split
  · rfl
  · split <;> simp
  · simp

@[simp] theorem values_asRight (e : Expression) : e.asRight.values = e.fragment.values := by
  unfold asRight
  split <;> simp

@[simp] theorem values_join (j : Junction) (a b : Expression) :
    (join j a b).fragment.values = a.fragment.values ++ b.fragment.values := by
  simp [join]

theorem values_joinAll (j : Junction) (es : List Expression) :
    (joinAll j es).fragment.values = es.flatMap fun e => e.fragment.values := by
  cases es with
  | nil => rfl
  | cons e es =>
    rw [joinAll, List.flatMap_cons]
    induction es generalizing e with
    | nil => simp
    | cons e' es ih => rw [List.foldl_cons, ih, values_join, List.flatMap_cons, List.append_assoc]

end Expression

namespace Condition
variable (backend : Backend)

mutual
/-- A condition binds what its tests bind. -/
theorem values_fragment : (c : Condition) →
    (c.fragment backend).values = c.predicates.flatMap fun p => (p.fragment backend).values
  | test p => by simp [fragment, expression]
  | group j parts => by
    rw [fragment, expression, Expression.values_joinAll, values_expressions parts, predicates]
theorem values_expressions : (cs : List Condition) →
    ((expressions backend cs).flatMap fun e => e.fragment.values) =
      (predicatesAll cs).flatMap fun p => (p.fragment backend).values
  | [] => rfl
  | c :: cs => by
    rw [expressions, List.flatMap_cons, values_expressions cs, predicatesAll, List.flatMap_append,
      ← values_fragment c, fragment]
end

end Condition

/-- What a test of a column compares it with. -/
def ColumnTest.values : ColumnTest → List Value
  | compare _ v => [v]
  | within vs | outside vs => vs
  | like pattern => [.text pattern]

theorem values_bindList (vs : List Value) : (bindList vs).values = vs := by
  have hjoined : (Fragment.joined ", " (vs.map fun v => [.bind v])).values = vs := by
    induction vs with
    | nil => rfl
    | cons v vs ih =>
      cases vs with
      | nil => rfl
      | cons w ws => simpa [Fragment.joined] using ih
  simp [bindList, hjoined]

theorem ColumnTest.values_fragment (backend : Backend) (c : Column) (test : ColumnTest) :
    (test.fragment backend c).values = test.values := by
  cases test <;> simp [fragment, values, Column.fragment, values_bindList]

end Sql

/-- The integer that an operand is. -/
def Operand.integer? : Operand → Option Int
  | number (.whole n _) => some n
  | _ => none

/-- Whether numbers are bound as such; other operations take them as texts or not at all. -/
def Operation.bindsNumbers : Operation → Bool
  | equals | notEqual | inList | notInList | excludeIn => true
  | _ => false

namespace Sql

theorem carries_ofOperand? {v : Operand} {x : Value} (h : Value.ofOperand? v = some x) :
    Carries [x] v.integer?.toList := by
  cases v with
  | number n =>
    obtain rfl := Option.some.inj h
    cases n with
    | whole n fits =>
      have hwide := Value.wide?_ofNumber n fits
      refine ⟨by simp [hwide, Operand.integer?], fun m hm => ?_⟩
      rw [← List.mem_singleton.mp hm] at hwide
      simp [Value.wide?] at hwide
    | real x => exact ⟨rfl, by simp [Value.ofNumber]⟩
  | list => simp [Value.ofOperand?] at h
  | _ =>
    obtain rfl := Option.some.inj h
    exact ⟨rfl, by simp⟩

theorem carries_filterMap (items : List Operand) :
    Carries (items.filterMap Value.ofOperand?) (items.filterMap Operand.integer?) := by
  induction items with
  | nil => exact .of_texts (by simp)
  | cons v items ih =>
    cases hv : Value.ofOperand? v with
    | none =>
      have hinteger : v.integer? = none := by
        cases v with
        | list => rfl
        | _ => simp [Value.ofOperand?] at hv
      rwa [List.filterMap_cons_none hv, List.filterMap_cons_none hinteger]
    | some x =>
      have happend := (carries_ofOperand? hv).append ih
      rw [List.filterMap_cons_some hv]
      cases hinteger : v.integer? with
      | none => simpa [hinteger] using happend
      | some n => simpa [hinteger] using happend

theorem values_document (backend : Backend) (c : Column) (path : List String)
    (test : DocumentTest) : ∀ v ∈ (test.fragment backend c path).values, ∃ s, v = .text s := by
  cases test <;> cases backend <;> simp [DocumentTest.fragment, Column.fragment]

end Sql

theorem AttributeType.Reads.carries {type : AttributeType} {v : Operand} {x : Value}
    (h : type.Reads v x) : Carries [x] v.integer?.toList := by
  cases h with
  | member | enumerant | uuid | instant => exact ⟨rfl, by simp⟩
  | verbatim _ hx => exact carries_ofOperand? hx

namespace OwnTest

/-- What a criterion's own test compares with, besides constants. -/
def values : OwnTest → List Value
  | column _ test | noneRelated _ test => test.values
  | _ => []

/-- A criterion's own condition binds what its test compares with; constants, paths and needles add
no integers. -/
theorem carries_condition (o : OwnTest) {ns : List Int} (h : Carries o.values ns)
    (backend : Backend) (table : String) (n : Nat) :
    Carries ((o.condition table n).fragment backend).values ns := by
  have hone : Carries [.int32 1] [] := ⟨rfl, by simp⟩
  rw [Condition.values_fragment]
  cases o with
  | settled truth =>
    obtain rfl := h.wide
    cases truth
    · exact ⟨rfl, by simp [condition, Predicate.fragment]⟩
    · exact ⟨rfl, by simp [condition, Predicate.fragment]⟩
  | column name test =>
    simpa [condition, Predicate.fragment, ColumnTest.values_fragment, values] using h
  | document name path test =>
    obtain rfl := h.wide
    exact .of_texts (by
      simpa [condition, Predicate.fragment] using values_document backend _ path test)
  | anyElement name path needles =>
    obtain rfl := h.wide
    refine .of_texts fun v hv => ?_
    simp only [condition, Condition.predicates_group, List.flatMap_map, Condition.predicates_test,
      List.mem_flatMap, List.mem_singleton] at hv
    obtain ⟨_, ⟨needle, -, rfl⟩, hv⟩ := hv
    exact values_document backend _ path _ v hv
  | noneRelated c test =>
    simpa [condition, Predicate.fragment, Related.fragment, linkFragment, Column.fragment,
      ColumnTest.values_fragment, Collection.related, values] using hone.append h

end OwnTest

namespace Criterion
variable {c : Criterion}

/-- The integers that a criterion sends to the database. -/
def integers (c : Criterion) : List Int :=
  if c.operation.bindsNumbers then
    (c.operand.items?.getD [c.operand]).filterMap Operand.integer?
  else []

theorem integers_of_not_bindsNumbers (h : c.operation.bindsNumbers = false) : c.integers = [] := by
  simp [integers, h]

theorem integers_single (h : c.operation.bindsNumbers = true) (hsingle : c.operand.isList = false) :
    c.integers = c.operand.integer?.toList := by
  have hitems : c.operand.items? = none := by
    cases hoperand : c.operand with
    | list => simp [hoperand, Operand.isList] at hsingle
    | _ => rfl
  rw [integers, if_pos h, hitems]
  cases hinteger : c.operand.integer? <;> simp [hinteger]

theorem carries_equalityValue {p : Spot} {x : Value} (h : c.equalityValue p = .ok x) :
    Carries [x] c.operand.integer?.toList := by
  unfold equalityValue at h
  split at h
  next => exact (typedValue_eq_ok_iff.mp h).carries
  next =>
    split at h
    next y hy =>
      obtain rfl := Except.ok.inj h
      exact carries_ofOperand? hy
    next => simp at h

theorem carries_orderingValue {type : AttributeType} {x : Value}
    (h : c.orderingValue type = .ok x) : Carries [x] [] := by
  unfold orderingValue at h
  split at h
  next =>
    obtain rfl := Except.ok.inj h
    exact ⟨rfl, by simp⟩
  next =>
    obtain ⟨t, -, rfl⟩ := instantOf_eq_ok_iff.mp h
    exact ⟨rfl, by simp⟩
  next =>
    split at h
    next s _ =>
      obtain rfl := Except.ok.inj h
      exact ⟨rfl, by simp⟩
    next => simp at h

theorem carries_listValues {vs : List Value} (hop : c.operation.bindsNumbers = true)
    (h : c.listValues = .ok vs) : Carries vs c.integers := by
  unfold listValues at h
  split at h
  next => simp at h
  next items hitems =>
    obtain rfl : vs = items.filterMap Value.ofOperand? := by
      refine Except.ok.inj (h.symm.trans (mapM_eq_filterMap fun v hv => ?_))
      obtain ⟨x, hx⟩ := exists_mapM_iff.mp ⟨vs, h⟩ v hv
      split at hx
      next y hy => exact ⟨y, hy, rfl⟩
      next => simp at hx
    rw [integers, if_pos hop, hitems]
    exact carries_filterMap items

end Criterion

namespace Scope
variable {s : Scope} {c : Criterion} {f : String → Nat → Condition}

theorem onSpot_eq_ok {build : Spot → Except SearchError (Column → Condition)}
    (h : (s.onSpot c build).condition = .ok f) :
    ∃ p g, build p = .ok g ∧ f = fun table _ => g ⟨table, p.column⟩ := by
  obtain ⟨p, -, h⟩ := bind_eq_ok_iff.mp h
  obtain ⟨g, hg, h⟩ := bind_eq_ok_iff.mp h
  exact ⟨p, g, hg, (Except.ok.inj h).symm⟩

section Carries
variable {ns : List Int}

theorem carries_planColumn {build : Spot → Except SearchError ColumnTest}
    (hbuild : ∀ p test, build p = .ok test → Carries test.values ns)
    (h : (s.planColumn c build).condition = .ok f) :
    ∃ o : OwnTest, f = o.condition ∧ Carries o.values ns := by
  obtain ⟨p, g, hg, rfl⟩ := onSpot_eq_ok h
  obtain ⟨test, htest, hg⟩ := bind_eq_ok_iff.mp hg
  obtain rfl := Except.ok.inj hg
  exact ⟨.column p.column test, rfl, hbuild p test htest⟩

theorem carries_planPattern {pattern : String → String}
    (h : (s.planPattern c pattern).condition = .ok f) :
    ∃ o : OwnTest, f = o.condition ∧ Carries o.values [] := by
  unfold planPattern at h
  split at h
  next => simp [Plan.refuse] at h
  next text _ =>
    apply carries_planColumn _ h
    intro p test htest
    obtain rfl := Except.ok.inj htest
    exact .of_texts (by simp [ColumnTest.values])

theorem carries_planList {test : List Value → ColumnTest} {ifEmpty : Bool}
    (hop : c.operation.bindsNumbers = true) (htest : ∀ vs, (test vs).values = vs)
    (h : (s.planList c test ifEmpty).condition = .ok f) :
    ∃ o : OwnTest, f = o.condition ∧ Carries o.values c.integers := by
  unfold planList at h
  split at h
  next => simp [Plan.refuse] at h
  next values hvalues =>
    have hcarries := Criterion.carries_listValues hop hvalues
    obtain ⟨p, g, hg, rfl⟩ := onSpot_eq_ok h
    obtain rfl := Except.ok.inj hg
    cases values with
    | nil => exact ⟨.settled ifEmpty, rfl, hcarries⟩
    | cons v values =>
      exact ⟨.column p.column (test (v :: values)), rfl, by rwa [OwnTest.values, htest]⟩

theorem carries_planAbsence {test : Except SearchError (Option ColumnTest)}
    (htest : ∀ t, test = .ok t → Carries (t.elim [] ColumnTest.values) ns)
    (h : (s.planAbsence c test).condition = .ok f) :
    ∃ o : OwnTest, f = o.condition ∧ Carries o.values ns := by
  obtain ⟨related, -, h⟩ := bind_eq_ok_iff.mp h
  obtain ⟨test?, htest?, h⟩ := bind_eq_ok_iff.mp h
  obtain rfl := Except.ok.inj h
  cases test? with
  | none => exact ⟨.settled true, rfl, htest none htest?⟩
  | some test => exact ⟨.noneRelated related test, rfl, htest (some test) htest?⟩

theorem carries_planElements (h : (s.planElements c).condition = .ok f) :
    ∃ o : OwnTest, f = o.condition ∧ Carries o.values [] := by
  have hnil : Carries [] [] := .of_texts (by simp)
  obtain ⟨p, -, rfl | ⟨needles, rfl⟩⟩ := planElements_eq_ok h
  · exact ⟨.settled false, rfl, hnil⟩
  · exact ⟨.anyElement p.column (p.path.getD []) needles, rfl, hnil⟩

/-- Whatever its operation, a criterion compares with the integers that it sends. -/
theorem carries_plan (h : (s.plan c).condition = .ok f) :
    ∃ o : OwnTest, f = o.condition ∧ Carries o.values c.integers := by
  rw [plan_eq] at h
  split at h
  case isFalse => simp [Plan.refuse] at h
  case isTrue hshape =>
    have hnone (hop : c.operation.bindsNumbers = false) : c.integers = [] :=
      Criterion.integers_of_not_bindsNumbers hop
    have hone := c.integers_single
    -- equalities bind the operand itself, membership and exclusion the items of its list
    have hmany (vs : List Value) := @Criterion.carries_listValues c vs
    cases hop : c.operation <;> simp only [hop] at h hshape hnone hone hmany
    case greater | less | greaterEquals | lessEquals =>
      rw [hnone rfl]
      apply carries_planColumn _ h
      intro p test htest
      obtain ⟨x, hx, rfl⟩ := map_eq_ok_iff.mp htest
      exact Criterion.carries_orderingValue hx
    case equals | notEqual =>
      rw [hone rfl (by simpa [Operand.hasShape, Operation.shape] using hshape)]
      apply carries_planColumn _ h
      intro p test htest
      obtain ⟨x, hx, rfl⟩ := map_eq_ok_iff.mp htest
      exact Criterion.carries_equalityValue hx
    case like | likeStart | likeEnd =>
      rw [hnone rfl]
      exact carries_planPattern h
    case inList | notInList =>
      exact carries_planList (by rw [hop]; rfl) (fun _ => rfl) h
    case excludeIn =>
      apply carries_planAbsence _ h
      intro t ht
      obtain ⟨vs, hvs, rfl⟩ := map_eq_ok_iff.mp ht
      have hcarries := hmany vs rfl hvs
      cases vs <;> exact hcarries
    case excludeLike =>
      rw [hnone rfl]
      apply carries_planAbsence _ h
      intro t ht
      obtain ⟨text, -, rfl⟩ := map_eq_ok_iff.mp ht
      exact .of_texts (by simp [ColumnTest.values])
    case jsonLike | jsonContains =>
      rw [hnone rfl]
      obtain ⟨p, path, test, -, -, -, rfl⟩ := planDocumentTest_eq_ok h
      exact ⟨.document p.column path test, rfl, .of_texts (by simp [OwnTest.values])⟩
    case jsonArrayContainsAny =>
      rw [hnone rfl]
      exact carries_planElements h

end Carries
end Scope

theorem Selection.values_compose (backend : Backend) (j : Junction) (ts : List (Tree Condition))
    (joins : List Join) : (Selection.mk (Tree.compose j ts) joins).values backend =
      (Tree.nodesAll ts).flatMap fun own => (own.fragment backend).values := by
  cases ts with
  | nil => rfl
  | cons t ts =>
    simp only [values, Tree.compose, Option.elim_some, Condition.values_fragment,
      Condition.predicates_gather, Tree.predicates_conditions, List.flatMap_assoc]

namespace Scope
variable {s : Scope}

theorem Traverses.carries {cs : List Criterion} {ts : List (Tree Condition)} {p p' : Pass}
    (h : s.Traverses cs p ts p') (backend : Backend) :
    Carries ((Tree.nodesAll ts).flatMap fun own => (own.fragment backend).values)
      ((Forest.nodes cs).flatMap Criterion.integers) := by
  induction h with
  | nil => exact .of_texts (by simp [Tree.nodesAll])
  | @cons c cs own allOf anyOf ts p p₁ p₂ p₃ p₄ hown _ _ _ ihAll ihAny ihRest =>
    obtain ⟨-, f, hf, rfl⟩ := leaf_eq_ok_iff.mp hown
    obtain ⟨o, rfl, ho⟩ := carries_plan hf
    have happend := (o.carries_condition ho backend (s.instanceName c p)
      (s.after c p).subqueries).append ((ihAll.append ihAny).append ihRest)
    simpa [Tree.nodesAll, Tree.nodes, Forest.nodes_cons] using happend

/-- The numbers that a compiled forest binds are, besides 0 and 1, the integers that its criteria
send, in their order. Databases can bind them all exactly if none that is sent is greater than the
largest offset; unsigned numbers of 64 bits can be. -/
theorem integers_bound (s : Scope) (forest : Forest) (sel : Selection) (backend : Backend)
    (h : s.compile forest = .ok sel) :
    Carries (sel.values backend) ((Forest.nodes forest).flatMap Criterion.integers) ∧
    (∀ v ∈ sel.values backend, ∀ n, v.wide? = some n →
      -0x8000000000000000 ≤ n ∧ n < 0x10000000000000000) ∧
    ((∀ v ∈ sel.values backend, v.Bindable) ↔
      ∀ c ∈ Forest.nodes forest, ∀ n ∈ c.integers, n ≤ PageRequest.maxOffset.toNat) := by
  obtain ⟨ts, pass, hts, rfl⟩ := compile_eq_ok_iff.mp h
  have hcarries := hts.carries backend
  rw [← Selection.values_compose backend .all ts pass.joins.joins] at hcarries
  refine ⟨hcarries, fun v _ n => Value.range_of_wide?, ?_⟩
  constructor
  · intro hbindable c hc n hn
    have hmem := List.mem_flatMap.mpr ⟨c, hc, hn⟩
    rw [← hcarries.wide] at hmem
    obtain ⟨v, hv, hvn⟩ := List.mem_filterMap.mp hmem
    exact Value.bindable_iff.mp (hbindable v hv) n hvn
  · intro hsent v hv
    refine Value.bindable_iff.mpr fun n hvn => ?_
    have hmem := List.mem_filterMap.mpr ⟨v, hv, hvn⟩
    rw [hcarries.wide] at hmem
    obtain ⟨c, hc, hn⟩ := List.mem_flatMap.mp hmem
    exact hsent c hc n hn

end Scope

def aged (operation : Operation) (operand : Operand) : Criterion :=
  ⟨"age", operation, operand, [], [], none⟩

def agedSome : Forest :=
  [aged .equals (.number (.whole 18 (by decide))),
    aged .inList (.list [.number (.whole 20 (by decide)), .number (.whole (-1) (by decide))])]

/-- Ages within the range are bound in their order. -/
theorem integers_bound_ages : ∃ sel, statusScope.compile agedSome = .ok sel ∧
    (sel.values .postgres).filterMap Value.wide? = [18, 20, -1] ∧
    ∀ v ∈ sel.values .postgres, v.Bindable := by
  obtain ⟨sel, hsel⟩ : ∃ sel, statusScope.compile agedSome = .ok sel := ⟨_, rfl⟩
  obtain ⟨hcarries, -, hbindable⟩ := statusScope.integers_bound _ sel .postgres hsel
  exact ⟨sel, hsel, hcarries.wide.trans (by decide), hbindable.mpr (by decide)⟩

/-- A body that asks for the first number that 64 bits hold only without a sign. -/
def unsignedBody : Json :=
  .array [.object [("key", .text "age"), ("operation", .text "EQUALS"),
    ("value", .number (.whole 0x8000000000000000 (by decide)))]]

/-- The body is accepted, and its number is bound although it is beyond the range. -/
theorem integer_beyond_range : ∃ forest sel, Forest.ofJson unsignedBody = .ok forest ∧
    statusScope.compile forest = .ok sel ∧
    ∀ backend, ∃ v ∈ sel.values backend, v = .uint64 0x8000000000000000 ∧ ¬ v.Bindable := by
  refine ⟨[aged .equals (.number (.whole 0x8000000000000000 (by decide)))], _, rfl, rfl,
    fun backend => ?_⟩
  refine ⟨.uint64 0x8000000000000000, List.mem_singleton_self _, rfl, fun h => ?_⟩
  have hle := (h _ rfl).2
  revert hle
  decide

end EntitySearch
