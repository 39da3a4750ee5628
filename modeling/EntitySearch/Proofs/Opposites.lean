import EntitySearch.Proofs.FirstFailure
import EntitySearch.Proofs.ForestLaws
/-!
Operations in pairs of opposites. Whatever a criterion asks of its key, asking for the opposite
fails for the same reason or gives the negation in three-valued logic, with the same joins made.
-/
namespace EntitySearch
open Sql

namespace Sql
namespace Truth

/-- What is unknown stays so when it is negated. -/
def not : Truth → Truth
  | no => yes
  | unknown => unknown
  | yes => no

@[simp] theorem not_not (a : Truth) : a.not.not = a := by cases a <;> rfl

@[simp] theorem not_ofBool (b : Bool) : (ofBool b).not = ofBool (!b) := by cases b <;> rfl

theorem not_sup (a b : Truth) : (a ⊔ b).not = a.not ⊓ b.not := by
  cases a <;> cases b <;> decide

end Truth

theorem Junction.not_fold_any (xs : List Truth) :
    (any.fold xs).not = all.fold (xs.map Truth.not) := by
  induction xs with
  | nil => rfl
  | cons x xs ih => rw [fold_any_cons, Truth.not_sup, ih, List.map_cons, fold_all_cons]

/-- The comparison that holds of two values exactly if this one does not. -/
def Comparison.opposite : Comparison → Comparison
  | equal => notEqual
  | notEqual => equal
  | less => greaterEqual
  | greater => lessEqual
  | lessEqual => greater
  | greaterEqual => less

theorem Comparison.holds_opposite (op : Comparison) (o : Ordering) :
    op.opposite.holds o = !op.holds o := by
  cases op <;> cases o <;> rfl

/-- Conditions that are each other's negation, whatever the rows are. -/
def Condition.Contrary (A B : Condition) : Prop :=
  ∀ {κ : Type} (e : Engine κ) (db : Tables κ) (a : String → Row κ),
    B.value (Predicate.truth e db a) = (A.value (Predicate.truth e db a)).not ∧
      A.value (Predicate.truth e db a) = (B.value (Predicate.truth e db a)).not

theorem Condition.contrary_ofPredicate {p q : Predicate}
    (h : ∀ {κ : Type} (e : Engine κ) (db : Tables κ) (a : String → Row κ),
      q.truth e db a = (p.truth e db a).not) : (ofPredicate p).Contrary (ofPredicate q) := by
  intro κ e db a
  rw [value_ofPredicate, value_ofPredicate, h, Truth.not_not]
  exact ⟨rfl, rfl⟩

section Tests
variable {κ : Type} (e : Engine κ) (x : Option κ)

theorem Engine.compared_opposite (op : Comparison) (v : Value) :
    e.compared op.opposite v x = (e.compared op v x).not := by
  cases x with
  | none => rfl
  | some x => simp [compared, Comparison.holds_opposite]

theorem ColumnTest.truth_opposite (op : Comparison) (v : Value) :
    (compare op.opposite v).truth e x = ((compare op v).truth e x).not :=
  e.compared_opposite x op v

/-- A value is outside a list exactly if it is not within it, also where NULL leaves that open. -/
theorem ColumnTest.truth_outside (vs : List Value) :
    (outside vs).truth e x = ((within vs).truth e x).not := by
  rw [truth, truth, Junction.not_fold_any, List.map_map]
  congr 1
  exact List.map_congr_left fun v _ => e.compared_opposite x .equal v

end Tests
end Sql

/-- The error with another operation in place of the one that it names. -/
def SearchError.naming (o : Operation) : SearchError → SearchError
  | wrongShape _ expected => wrongShape o expected
  | e => e

theorem SearchError.Names.naming_eq {c : Criterion} {e : SearchError} (h : e.Names c) :
    e.naming c.operation = e := by
  cases e with
  | wrongShape => rw [naming, h.1]
  | _ => rfl

/-- Two attempts, the second one with the operation `o`: both fail with one error, up to the
operation that it names, or both succeed with related results. -/
inductive Parallel (o : Operation) {α β : Type} (R : α → β → Prop) :
    Except SearchError α → Except SearchError β → Prop
  | fails (e : SearchError) : Parallel o R (.error e) (.error (e.naming o))
  | succeeds {a : α} {b : β} : R a b → Parallel o R (.ok a) (.ok b)

namespace Parallel
variable {o : Operation} {α β α' β' : Type} {R : α → β → Prop} {S : α' → β' → Prop}

theorem bind {x : Except SearchError α} {y : Except SearchError β} (h : Parallel o R x y)
    {f : α → Except SearchError α'} {g : β → Except SearchError β'}
    (hfg : ∀ a b, R a b → Parallel o S (f a) (g b)) : Parallel o S (x >>= f) (y >>= g) := by
  cases h with
  | fails e => exact .fails e
  | succeeds hab => exact hfg _ _ hab

theorem map {x : Except SearchError α} {y : Except SearchError β} (h : Parallel o R x y)
    {f : α → α'} {g : β → β'} (hfg : ∀ a b, R a b → S (f a) (g b)) :
    Parallel o S (x.map f) (y.map g) := by
  cases h with
  | fails e => exact .fails e
  | succeeds hab => exact .succeeds (hfg _ _ hab)

theorem mapM {f g : α → Except SearchError β} (h : ∀ a, Parallel o Eq (f a) (g a))
    (xs : List α) : Parallel o Eq (xs.mapM f) (xs.mapM g) := by
  induction xs with
  | nil => exact .succeeds rfl
  | cons x xs ih =>
    rw [List.mapM_cons, List.mapM_cons]
    refine (h x).bind ?_
    rintro y _ rfl
    refine ih.bind ?_
    rintro ys _ rfl
    exact .succeeds rfl

/-- An error that is the criterion's own names no other operation. -/
theorem of_owns {c : Criterion} {x : Except SearchError α} (h : c.Owns x) :
    Parallel c.operation Eq x x := by
  cases x with
  | ok a => exact .succeeds rfl
  | error e =>
    have hfails := Parallel.fails (R := @Eq α) (o := c.operation) e
    rwa [(h e rfl).naming_eq] at hfails

end Parallel

namespace Criterion

/-- The criterion with another operation. -/
def asking (c : Criterion) (o : Operation) : Criterion := { c with operation := o }

variable {c : Criterion}

/-- The operation is told only where an operand is no single value. -/
theorem orderingValue_asking (o o' : Operation) (h : c.operand.isList = false)
    (type : AttributeType) :
    (c.asking o').orderingValue type = (c.asking o).orderingValue type := by
  obtain ⟨key, operation, operand, allOf, anyOf, label⟩ := c
  cases operand with
  | list items => simp [Operand.isList] at h
  | _ => cases type <;> rfl

theorem equalityValue_asking (o o' : Operation) (h : c.operand.isList = false) (p : Spot) :
    (c.asking o').equalityValue p = (c.asking o).equalityValue p := by
  obtain ⟨x, hx⟩ := exists_ofOperand? h
  have hx' (o : Operation) : Value.ofOperand? (c.asking o).operand = some x := hx
  unfold equalityValue
  rw [hx', hx']
  rfl

theorem listValues_asking (c : Criterion) (o o' : Operation) :
    Parallel o' Eq (c.asking o).listValues (c.asking o').listValues := by
  have hitems (o : Operation) : (c.asking o).operand.items? = c.operand.items? := rfl
  unfold listValues
  rw [hitems, hitems]
  cases c.operand.items? with
  | none => exact .fails ((c.asking o).shapeError .sequence)
  | some items =>
    apply Parallel.mapM
    intro v
    cases Value.ofOperand? v with
    | none => exact .fails ((c.asking o).shapeError .sequence)
    | some x => exact .succeeds rfl

end Criterion

/-- The second plan, made with the operation `o`, contradicts the first one: it makes the same
joins and fails for the same reason or gives the contrary condition. -/
structure Plan.Contradicted (o : Operation) (P Q : Plan) : Prop where
  hops_eq : Q.hops = P.hops
  numbered_eq : Q.numbered = P.numbered
  condition : Parallel o (fun f g => ∀ table n, (f table n).Contrary (g table n)) P.condition
    Q.condition

/-- Operations of which one holds where the other one does not. -/
inductive Operation.Opposite : Operation → Operation → Prop
  | equality : Opposite .equals .notEqual
  | above : Opposite .greater .lessEquals
  | below : Opposite .less .greaterEquals
  | membership : Opposite .inList .notInList

theorem Operation.Opposite.shape_eq {o o' : Operation} (h : o.Opposite o') :
    o'.shape = o.shape := by
  cases h <;> rfl

namespace Scope
open Criterion
variable {s : Scope} {c : Criterion} {o o' : Operation}

theorem onSpot_contradicted {build build' : Spot → Except SearchError (Column → Condition)}
    (h : ∀ p, Parallel o' (fun f g => ∀ column, (f column).Contrary (g column)) (build p)
      (build' p)) :
    Plan.Contradicted o' (s.onSpot (c.asking o) build) (s.onSpot (c.asking o') build') := by
  have hresult := Parallel.of_owns (owns_result (c := c.asking o') (s.spot c.key))
  refine ⟨rfl, rfl, hresult.bind ?_⟩
  rintro p _ rfl
  exact (h p).bind fun f g hfg => .succeeds fun table _ => hfg ⟨table, p.column⟩

theorem planColumn_contradicted {value : Spot → Except SearchError Value} {op : Comparison}
    (h : ∀ p, (c.asking o').Owns (value p)) :
    Plan.Contradicted o' (s.planColumn (c.asking o) fun p => (value p).map (.compare op))
      (s.planColumn (c.asking o') fun p => (value p).map (.compare op.opposite)) := by
  apply onSpot_contradicted
  intro p
  have htests : Parallel o'
      (fun t t' : ColumnTest => ∃ v, t = .compare op v ∧ t' = .compare op.opposite v)
      ((value p).map (.compare op)) ((value p).map (.compare op.opposite)) :=
    (Parallel.of_owns (h p)).map fun v v' hv => ⟨v, rfl, by rw [hv]⟩
  refine htests.bind ?_
  rintro _ _ ⟨v, rfl, rfl⟩
  refine .succeeds fun column => Condition.contrary_ofPredicate ?_
  intro κ e db a
  exact ColumnTest.truth_opposite e (a column.table column.name) op v

theorem planOrdering_contradicted (hshape : o'.shape = .scalar) (h : c.operand.isList = false)
    (op : Comparison) :
    Plan.Contradicted o'
      (s.planComparison (c.asking o) (fun p => (c.asking o).orderingValue p.type) op)
      (s.planComparison (c.asking o') (fun p => (c.asking o').orderingValue p.type)
        op.opposite) := by
  unfold planComparison
  simp only [orderingValue_asking o' o h]
  exact planColumn_contradicted fun p => owns_orderingValue (c.asking o') hshape p.type

theorem planEquality_contradicted (h : c.operand.isList = false) (op : Comparison) :
    Plan.Contradicted o' (s.planComparison (c.asking o) (c.asking o).equalityValue op)
      (s.planComparison (c.asking o') (c.asking o').equalityValue op.opposite) := by
  unfold planComparison
  simp only [equalityValue_asking o' o h]
  exact planColumn_contradicted fun p => owns_equalityValue (c.asking o') h p

/-- The empty list is settled one way and the other. -/
theorem planList_contradicted :
    Plan.Contradicted o' (s.planList (c.asking o) .within false)
      (s.planList (c.asking o') .outside true) := by
  have hvalues := c.listValues_asking o o'
  unfold planList
  generalize (c.asking o).listValues = x at hvalues
  generalize (c.asking o').listValues = y at hvalues
  cases hvalues with
  | fails e => exact ⟨rfl, rfl, .fails e⟩
  | @succeeds values _ hsame =>
    obtain rfl := hsame
    apply onSpot_contradicted
    intro p
    refine .succeeds fun column => Condition.contrary_ofPredicate fun e db a => ?_
    cases values with
    | nil => rfl
    | cons v values => exact ColumnTest.truth_outside e (a column.table column.name) (v :: values)

/-- The operand of both has the right shape or of neither. -/
theorem plan_contradicted (h : o.Opposite o') :
    Plan.Contradicted o' (s.plan (c.asking o)) (s.plan (c.asking o')) := by
  rw [plan_eq, plan_eq]
  have hoperand (o : Operation) : (c.asking o).operand = c.operand := rfl
  have hoperation (o : Operation) : (c.asking o).operation = o := rfl
  rw [hoperand, hoperand, hoperation, hoperation, h.shape_eq]
  by_cases hshape : c.operand.hasShape o.shape = true
  case neg =>
    rw [if_neg hshape, if_neg hshape]
    exact ⟨rfl, rfl, .fails ((c.asking o).shapeError o.shape)⟩
  case pos =>
    rw [if_pos hshape, if_pos hshape]
    have hsingle (hscalar : o.shape = .scalar) : c.operand.isList = false := by
      simpa [hscalar, Operand.hasShape] using hshape
    cases h with
    | equality => exact planEquality_contradicted (hsingle rfl) .equal
    | above => exact planOrdering_contradicted rfl (hsingle rfl) .greater
    | below => exact planOrdering_contradicted rfl (hsingle rfl) .less
    | membership => exact planList_contradicted

theorem after_asking (h : Plan.Contradicted o' (s.plan (c.asking o)) (s.plan (c.asking o')))
    (pass : Pass) : s.after (c.asking o') pass = s.after (c.asking o) pass := by
  unfold after
  rw [h.hops_eq, h.numbered_eq]
  rfl

/-- Whatever was compiled before, a criterion and the one with the opposite operation make the same
joins. Either both fail for one reason, each naming its own operation, or their conditions are each
other's negation, also on NULL and for empty lists. -/
theorem opposite_complements (s : Scope) (c : Criterion) {o o' : Operation} (h : o.Opposite o')
    (pass : Pass) :
    let one := s.leaf (c.asking o) pass
    let other := s.leaf (c.asking o') pass
    other.2 = one.2 ∧
      ((∃ e : SearchError, one.1 = .error (e.naming o) ∧ other.1 = .error (e.naming o')) ∨
        ∃ own own', one.1 = .ok own ∧ other.1 = .ok own' ∧ own.Contrary own') := by
  intro one other
  have hplan := plan_contradicted (s := s) (c := c) h
  have hafter := after_asking hplan pass
  have hname : s.instanceName (c.asking o') pass = s.instanceName (c.asking o) pass := by
    unfold instanceName
    rw [hafter, hplan.hops_eq]
    rfl
  have hown : Parallel o' Condition.Contrary one.1 other.1 := by
    show Parallel o' _ (s.leaf (c.asking o) pass).1 (s.leaf (c.asking o') pass).1
    rw [leaf_eq, leaf_eq, hafter, hname]
    exact hplan.condition.map fun f g hfg => hfg _ _
  refine ⟨hafter, ?_⟩
  generalize hx : one.1 = x at hown ⊢
  generalize other.1 = y at hown ⊢
  cases hown with
  | fails e =>
    have hfault := fault?_eq_some_iff.mp (leaf_eq_error_iff.mp (Prod.ext hx rfl)).1
    have hself : e.naming o = e := (s.owns_plan (c.asking o) e hfault).naming_eq
    exact .inl ⟨e, by rw [hself], rfl⟩
  | succeeds hcontrary => exact .inr ⟨_, _, rfl, rfl, hcontrary⟩

end Scope

/-- Scores above 5 and up to 5, after another criterion has made a join; a score that is NULL is
neither. -/
theorem opposite_complements_total :
    Operation.Opposite .greater .lessEquals ∧
      let pass := (playerScope.leaf anyScore .empty).2
      ∃ own own', (playerScope.leaf (ownScore.asking .greater) pass).1 = .ok own ∧
        (playerScope.leaf (ownScore.asking .lessEquals) pass).1 = .ok own' ∧ own.Contrary own' ∧
        own.value (Predicate.truth .texts annScored annScoredRows) = .yes ∧
        own'.value (Predicate.truth .texts annScored annScoredRows) = .no ∧
        own.value (Predicate.truth .texts annScored fun _ => annRow) = .unknown ∧
        own'.value (Predicate.truth .texts annScored fun _ => annRow) = .unknown := by
  refine ⟨.above, ?_⟩
  intro pass
  obtain ⟨-, ⟨e, he, -⟩ | ⟨own, own', hown, hown', hcontrary⟩⟩ :=
    playerScope.opposite_complements ownScore .above pass
  · cases he
  · obtain rfl := Except.ok.inj hown
    have hyes := (hcontrary .texts annScored annScoredRows).1
    have hunknown := (hcontrary .texts annScored fun _ => annRow).1
    exact ⟨_, own', rfl, hown', hcontrary, rfl, hyes, rfl, hunknown⟩

end EntitySearch
