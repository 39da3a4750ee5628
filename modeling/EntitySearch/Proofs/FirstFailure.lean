import EntitySearch.Proofs.Composition
import EntitySearch.Proofs.Planning
/-!
Where compiling fails. A forest fails with the error of its first criterion, in pre-order, that
fails when it is compiled on its own, and that error names the criterion.
-/
namespace EntitySearch
open Sql

/-- An error that is the sender's and points at a criterion: at its key, or at its operation with
the operand that this takes. -/
def SearchError.Names (c : Criterion) : SearchError → Prop
  | unresolved key _ | wrongType key _ _ => key = c.key
  | wrongShape operation expected => operation = c.operation ∧ expected = c.operation.shape
  | invalid _ | unknownOperation _ | storage _ => False

theorem SearchError.Names.isClientError {c : Criterion} {e : SearchError} (h : e.Names c) :
    e.isClientError = true := by
  cases e with
  | invalid | unresolved | wrongShape | wrongType => rfl
  | unknownOperation | storage => exact h.elim

namespace Criterion

/-- A criterion stripped of its children. -/
def alone (c : Criterion) : Criterion := { c with allOf := [], anyOf := [] }

/-- Whatever error a result has is the criterion's own. -/
def Owns {α : Type} (c : Criterion) (x : Except SearchError α) : Prop :=
  ∀ e, x = .error e → e.Names c

variable {α β : Type} {c : Criterion}

theorem owns_ok (a : α) : c.Owns (.ok a) := by
  intro e h
  simp at h

theorem owns_error {e : SearchError} (h : e.Names c) : c.Owns (α := α) (.error e) := by
  intro e' he
  rwa [← Except.error.inj he]

theorem Owns.bind {x : Except SearchError α} {f : α → Except SearchError β} (hx : c.Owns x)
    (hf : ∀ a, c.Owns (f a)) : c.Owns (x >>= f) := by
  cases x with
  | error e => exact owns_error (hx e rfl)
  | ok a => exact hf a

theorem Owns.map {x : Except SearchError α} (hx : c.Owns x) (f : α → β) :
    c.Owns (x.map f) := by
  cases x with
  | error e => exact owns_error (hx e rfl)
  | ok a => exact owns_ok (f a)

theorem owns_mapM {f : α → Except SearchError β} (hf : ∀ a, c.Owns (f a)) (xs : List α) :
    c.Owns (xs.mapM f) := by
  induction xs with
  | nil => exact owns_ok []
  | cons x xs ih =>
    rw [List.mapM_cons]
    exact (hf x).bind fun y => ih.bind fun ys => owns_ok (y :: ys)

theorem owns_result (l : Lookup α) : c.Owns (l.result c.key) := by
  unfold Lookup.result
  cases l.found with
  | error fault => exact owns_error rfl
  | ok a => exact owns_ok a

section Operands
variable (c)

theorem owns_instantOf (text : String) : c.Owns (c.instantOf text) := by
  unfold instantOf
  split
  · exact owns_ok _
  · exact owns_error rfl

theorem owns_orderingValue (h : c.operation.shape = .scalar) (type : AttributeType) :
    c.Owns (c.orderingValue type) := by
  unfold orderingValue
  split
  · exact owns_ok _
  · exact c.owns_instantOf _
  · split
    · exact owns_ok _
    · exact owns_error ⟨rfl, h.symm⟩

theorem exists_ofOperand? {v : Operand} (h : v.isList = false) :
    ∃ x, Value.ofOperand? v = some x := by
  cases v with
  | list => simp [Operand.isList] at h
  | _ => exact ⟨_, rfl⟩

/-- The error that is always said to be of an equality does not arise, since a single value can
always be bound. -/
theorem owns_typedValue (h : c.operand.isList = false) (type : AttributeType) :
    c.Owns (c.typedValue type) := by
  unfold typedValue
  split
  case h_5 =>
    obtain ⟨x, hx⟩ := exists_ofOperand? h
    rw [hx]
    exact owns_ok x
  case h_3 => exact c.owns_instantOf _
  all_goals
    split
    · exact owns_ok _
    · exact owns_error rfl

theorem owns_equalityValue (h : c.operand.isList = false) (p : Spot) :
    c.Owns (c.equalityValue p) := by
  unfold equalityValue
  split
  · exact c.owns_typedValue h p.type
  · obtain ⟨x, hx⟩ := exists_ofOperand? h
    rw [hx]
    exact owns_ok x

theorem owns_listValues (h : c.operation.shape = .sequence) : c.Owns c.listValues := by
  unfold listValues
  split
  · exact owns_error ⟨rfl, h.symm⟩
  · apply owns_mapM
    intro v
    split
    · exact owns_ok _
    · exact owns_error ⟨rfl, h.symm⟩

theorem owns_textValue (h : c.operation.shape = .text) : c.Owns c.textValue := by
  unfold textValue
  split
  · exact owns_ok _
  · exact owns_error ⟨rfl, h.symm⟩

theorem owns_neededPath (p : Spot) : c.Owns (c.neededPath p) := by
  unfold neededPath
  split
  · exact owns_ok _
  · exact owns_error rfl

end Operands
end Criterion

namespace Scope
open Criterion
variable {s : Scope} {c : Criterion}

theorem owns_onSpot {build : Spot → Except SearchError (Column → Condition)}
    (h : ∀ p, c.Owns (build p)) : c.Owns (s.onSpot c build).condition :=
  (owns_result _).bind fun p => (h p).bind fun _ => owns_ok _

theorem owns_planColumn {build : Spot → Except SearchError ColumnTest}
    (h : ∀ p, c.Owns (build p)) : c.Owns (s.planColumn c build).condition :=
  owns_onSpot fun p => (h p).bind fun _ => owns_ok _

theorem owns_planPattern (h : c.operation.shape = .text) (pattern : String → String) :
    c.Owns (s.planPattern c pattern).condition := by
  have htext := c.owns_textValue h
  unfold planPattern
  split
  next e he => exact owns_error (htext e he)
  next => exact owns_planColumn fun _ => owns_ok _

theorem owns_planList (h : c.operation.shape = .sequence)
    (test : List Value → ColumnTest) (ifEmpty : Bool) :
    c.Owns (s.planList c test ifEmpty).condition := by
  have hlist := c.owns_listValues h
  unfold planList
  split
  next e he => exact owns_error (hlist e he)
  next => exact owns_onSpot fun _ => owns_ok _

theorem owns_planAbsence {test : Except SearchError (Option ColumnTest)}
    (h : c.Owns test) : c.Owns (s.planAbsence c test).condition :=
  (owns_result _).bind fun _ => h.bind fun _ => owns_ok _

theorem owns_planDocumentTest {test : Except SearchError DocumentTest} (h : c.Owns test) :
    c.Owns (s.planDocumentTest c test).condition :=
  owns_onSpot fun p => (c.owns_neededPath p).bind fun _ => h.bind fun _ => owns_ok _

theorem owns_planElements (h : c.operation.shape = .sequence) :
    c.Owns (s.planElements c).condition := by
  apply owns_onSpot
  intro p
  unfold elementTests
  split
  · exact owns_error ⟨rfl, h.symm⟩
  · exact owns_ok _
  · refine (owns_mapM ?_ _).bind fun _ => owns_ok _
    intro v
    split
    · exact owns_ok _
    · exact owns_error ⟨rfl, h.symm⟩

/-- Whatever its operation, a criterion that cannot be planned is itself to blame. -/
theorem owns_plan (s : Scope) (c : Criterion) : c.Owns (s.plan c).condition := by
  rw [plan_eq]
  split
  case isFalse => exact owns_error ⟨rfl, rfl⟩
  case isTrue hshape =>
    cases hop : c.operation with
    | greater | less | greaterEquals | lessEquals =>
      exact owns_planColumn fun p => (c.owns_orderingValue (by rw [hop]; rfl) p.type).map _
    | equals | notEqual =>
      have hsingle : c.operand.isList = false := by
        simpa [hop, Operation.shape, Operand.hasShape] using hshape
      exact owns_planColumn fun p => (c.owns_equalityValue hsingle p).map _
    | like | likeStart | likeEnd => exact owns_planPattern (by rw [hop]; rfl) _
    | inList | notInList => exact owns_planList (by rw [hop]; rfl) _ _
    | excludeIn => exact owns_planAbsence ((c.owns_listValues (by rw [hop]; rfl)).map _)
    | excludeLike => exact owns_planAbsence ((c.owns_textValue (by rw [hop]; rfl)).map _)
    | jsonLike => exact owns_planDocumentTest ((c.owns_textValue (by rw [hop]; rfl)).map _)
    | jsonContains =>
      apply owns_planDocumentTest
      split
      · exact owns_ok _
      · exact owns_error ⟨rfl, by rw [hop]; rfl⟩
    | jsonArrayContainsAny => exact owns_planElements (by rw [hop]; rfl)

/-- No criterion is refused for an operation that is not provided for. -/
theorem plan_ne_unknownOperation (s : Scope) (c : Criterion) (name : String) :
    (s.plan c).condition ≠ .error (.unknownOperation name) :=
  fun h => s.owns_plan c _ h

/-- The error of a criterion that cannot be planned, its children left aside. -/
def fault? (s : Scope) (c : Criterion) : Option SearchError :=
  match (s.plan c).condition with
  | .error e => some e
  | .ok _ => none

theorem fault?_eq_some_iff {e : SearchError} :
    s.fault? c = some e ↔ (s.plan c).condition = .error e := by
  unfold fault?
  cases (s.plan c).condition <;> simp

theorem fault?_eq_none_iff : s.fault? c = none ↔ ∃ f, (s.plan c).condition = .ok f := by
  unfold fault?
  cases (s.plan c).condition <;> simp

/-- The first error of criteria that are planned one after the other. -/
def firstFault? (s : Scope) (cs : List Criterion) : Option SearchError := cs.findSome? s.fault?

theorem leaf_eq_error_iff {pass pass' : Pass} {e : SearchError} :
    s.leaf c pass = (.error e, pass') ↔ s.fault? c = some e ∧ pass' = s.after c pass := by
  rw [leaf_eq, Prod.mk.injEq, fault?_eq_some_iff, eq_comm (a := pass')]
  cases (s.plan c).condition <;> simp [Except.map]

theorem firstFault?_eq_none_iff {cs : List Criterion} :
    s.firstFault? cs = none ↔ ∀ c ∈ cs, ∃ f, (s.plan c).condition = .ok f := by
  simp only [firstFault?, List.findSome?_eq_none_iff, fault?_eq_none_iff]

theorem firstFault?_append (cs ds : List Criterion) :
    s.firstFault? (cs ++ ds) = (s.firstFault? cs).or (s.firstFault? ds) :=
  List.findSome?_append

theorem firstFault?_cons (c : Criterion) (cs : List Criterion) :
    s.firstFault? (c :: cs) = (s.fault? c).or (s.firstFault? cs) := by
  rw [firstFault?, List.findSome?_cons]
  cases s.fault? c <;> rfl

theorem firstFault?_siblings {cs : Forest} {pass pass' : Pass} {conditions : List Condition}
    (h : s.siblings cs pass = (.ok conditions, pass')) :
    s.firstFault? (Forest.nodes cs) = none := by
  obtain ⟨ts, hts, -⟩ := siblings_eq_ok_iff.mp h
  exact firstFault?_eq_none_iff.mpr (exists_traverses_iff.mp ⟨ts, pass', hts⟩)

mutual
theorem firstFault?_criterion : (c : Criterion) → {pass pass' : Pass} → {e : SearchError} →
    s.criterion c pass = (.error e, pass') → s.firstFault? (Forest.nodes [c]) = some e
  | ⟨key, operation, operand, allOf, anyOf, label⟩, pass, pass', e, h => by
    rw [Forest.nodes_cons, Forest.nodes_nil, List.append_nil, firstFault?_cons, firstFault?_append]
    rw [criterion] at h
    split at h
    next e' p₁ hown =>
      obtain ⟨h₁, -⟩ := Prod.mk.inj h
      rw [(leaf_eq_error_iff.mp hown).1, Except.error.inj h₁, Option.some_or]
    next own p₁ hown =>
      obtain ⟨-, f, hf, -⟩ := leaf_eq_ok_iff.mp hown
      rw [fault?_eq_none_iff.mpr ⟨f, hf⟩, Option.none_or]
      split at h
      next e' p₂ hneeded =>
        obtain ⟨h₁, -⟩ := Prod.mk.inj h
        rw [firstFault?_of_siblings allOf hneeded, Except.error.inj h₁, Option.some_or]
      next needed p₂ hneeded =>
        rw [firstFault?_siblings hneeded, Option.none_or]
        split at h
        next e' p₃ hothers =>
          obtain ⟨h₁, -⟩ := Prod.mk.inj h
          rw [firstFault?_of_siblings anyOf hothers, Except.error.inj h₁]
        next => simp at h
theorem firstFault?_of_siblings : (cs : List Criterion) → {pass pass' : Pass} →
    {e : SearchError} → s.siblings cs pass = (.error e, pass') →
    s.firstFault? (Forest.nodes cs) = some e
  | [], pass, pass', e, h => by simp [siblings] at h
  | c :: cs, pass, pass', e, h => by
    rw [← List.singleton_append, Forest.nodes_append, firstFault?_append]
    rw [siblings] at h
    split at h
    next e' p₁ hcriterion =>
      obtain ⟨h₁, -⟩ := Prod.mk.inj h
      rw [firstFault?_criterion c hcriterion, Except.error.inj h₁, Option.some_or]
    next condition p₁ hcriterion =>
      split at h
      next e' p₂ hrest =>
        have hfirst : s.siblings [c] pass = (.ok [condition], p₁) := by
          simp only [siblings, hcriterion]
        obtain ⟨h₁, -⟩ := Prod.mk.inj h
        -- the first one has compiled, so none of its criteria is at fault
        rw [firstFault?_siblings hfirst, firstFault?_of_siblings cs hrest, Except.error.inj h₁,
          Option.none_or]
      next => simp at h
end

theorem compile_eq_error_iff {cs : Forest} {e : SearchError} :
    s.compile cs = .error e ↔ s.firstFault? (Forest.nodes cs) = some e := by
  cases h : s.compile cs with
  | ok sel =>
    rw [firstFault?_eq_none_iff.mpr (exists_compile_iff.mp ⟨sel, h⟩)]
    simp
  | error e' =>
    have hfault : s.firstFault? (Forest.nodes cs) = some e' := by
      unfold compile compose at h
      cases hs : s.siblings cs .empty with
      | mk result pass =>
        cases result with
        | error e'' =>
          simp only [hs, Except.error.injEq] at h
          exact h ▸ firstFault?_of_siblings cs hs
        | ok conditions => cases conditions <;> simp [hs] at h
    simp [hfault]

theorem firstFault?_alone (c : Criterion) :
    s.firstFault? (Forest.nodes [c.alone]) = s.fault? c := by
  have hnodes : Forest.nodes [c.alone] = [c.alone] := rfl
  rw [hnodes, firstFault?_cons]
  exact Option.or_none

theorem exists_compile_alone_iff : (∃ sel, s.compile [c.alone] = .ok sel) ↔ s.fault? c = none := by
  rw [exists_compile_iff, ← firstFault?_eq_none_iff, firstFault?_alone]

/-- A forest compiles exactly if all of its criteria do, each stripped of its children and compiled
with nothing before it. Otherwise its error is that of the first one in pre-order that does not; it
is the sender's, and it gives the whole key of that criterion or its own operation. -/
theorem compile_fails_first (s : Scope) (forest : Forest) :
    ((∃ sel, s.compile forest = .ok sel) ↔
      ∀ c ∈ Forest.nodes forest, ∃ sel, s.compile [c.alone] = .ok sel) ∧
    ∀ e, s.compile forest = .error e ↔
      ∃ before c after, Forest.nodes forest = before ++ c :: after ∧
        (∀ d ∈ before, ∃ sel, s.compile [d.alone] = .ok sel) ∧ s.compile [c.alone] = .error e ∧
        e.Names c ∧ e.isClientError = true := by
  constructor
  · simp only [exists_compile_alone_iff, fault?_eq_none_iff, exists_compile_iff]
  · intro e
    rw [compile_eq_error_iff, firstFault?, List.findSome?_eq_some_iff]
    simp only [exists_compile_alone_iff, compile_eq_error_iff, firstFault?_alone]
    constructor
    · rintro ⟨before, c, after, hnodes, hc, hbefore⟩
      have hnames := s.owns_plan c e (fault?_eq_some_iff.mp hc)
      exact ⟨before, c, after, hnodes, hbefore, hc, hnames, hnames.isClientError⟩
    · rintro ⟨before, c, after, hnodes, hbefore, hc, -⟩
      exact ⟨before, c, after, hnodes, hc, hbefore⟩

end Scope

def totalNot (operand : Operand) : Criterion := ⟨"scores.total", .notEqual, operand, [], [], none⟩

/-- Three criteria fail on their own; the one below the first comes before the others. -/
theorem compile_fails_first_nested :
    let forest : Forest := [{ totalNot (.text "5") with
        allOf := [totalNot (.list [])], anyOf := [⟨"rank", .like, .text "a", [], [], none⟩] },
      ⟨"name->a", .excludeLike, .text "a", [], [], none⟩]
    playerScope.compile forest = .error (.wrongShape .notEqual .scalar) ∧
      ¬ ∀ c ∈ Forest.nodes forest, ∃ sel, playerScope.compile [c.alone] = .ok sel := by
  intro forest
  obtain ⟨hok, herror⟩ := playerScope.compile_fails_first forest
  have h : playerScope.compile forest = .error (.wrongShape .notEqual .scalar) := by
    refine (herror _).mpr ⟨[_], totalNot (.list []), _, rfl, ?_, rfl, ⟨rfl, rfl⟩, rfl⟩
    exact List.forall_mem_singleton.mpr ⟨_, rfl⟩
  refine ⟨h, fun hall => ?_⟩
  obtain ⟨sel, hsel⟩ := hok.mpr hall
  simp [h] at hsel

end EntitySearch
