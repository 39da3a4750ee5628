import EntitySearch.Proofs.Exclusion
/-!
Operations on lists. Each of them joins one test for every element by AND or by OR, whether it is
written as a list in SQL, as a sub-query or as a group of tests, so lists can be taken apart, and
the empty list is what nothing joined is.
-/
namespace EntitySearch
open Sql

section Elements
variable {κ : Type} (e : Engine κ) (db : Tables κ) (a : String → Row κ)

theorem Sql.Truth.inf_sup_eq_yes {x y z : Truth} :
    x ⊓ (y ⊔ z) = .yes ↔ x ⊓ y = .yes ∨ x ⊓ z = .yes := by
  cases x <;> cases y <;> cases z <;> decide

theorem Sql.Truth.ofBool_and (x y : Bool) : ofBool (x && y) = ofBool x ⊓ ofBool y := by
  cases x <;> cases y <;> rfl

theorem Sql.Related.counts_iff (r : Related) (row other : Row κ) :
    r.counts e row other = true ↔
      e.linked (other r.key) (row r.owner.name) ⊓ r.test.truth e (other r.column) = .yes :=
  decide_eq_true_iff

namespace Collection
variable (c : Collection) (owner : String) (n : Nat)

theorem counts_nil (row other : Row κ) :
    (c.related owner n (.within [])).counts e row other = false := by
  rw [← Bool.not_eq_true, Related.counts_iff]
  simp [related, ColumnTest.truth]

/-- A row counts against another one if one of the values is found in it. -/
theorem counts_cons (v : Value) (vs : List Value) (row other : Row κ) :
    (c.related owner n (.within (v :: vs))).counts e row other =
      ((c.related owner n (.within [v])).counts e row other ||
        (c.related owner n (.within vs)).counts e row other) := by
  rw [Bool.eq_iff_iff, Bool.or_eq_true]
  simp only [Related.counts_iff, related, ColumnTest.truth, List.map_cons, List.map_nil,
    Junction.fold_any_cons, Junction.fold_singleton,
    Truth.inf_sup_eq_yes]

/-- No related row has one of the values if for each value no related row has it. -/
theorem truth_noneWithin (vs : List Value) :
    Predicate.truth e db a (.noneRelated (c.related owner n (.within vs))) =
      Junction.all.fold (vs.map fun v =>
        Predicate.truth e db a (.noneRelated (c.related owner n (.within [v])))) := by
  induction vs with
  | nil =>
    simp only [Predicate.truth, counts_nil]
    simp [Truth.ofBool, Truth.top_eq]
  | cons v vs ih =>
    rw [List.map_cons, Junction.fold_all_cons, ← ih]
    simp only [Predicate.truth, counts_cons e c owner n v vs, ← Truth.ofBool_and, ← Bool.not_or]
    congr 2
    rw [Bool.eq_iff_iff]
    simp only [Bool.or_eq_true, List.any_eq_true, and_or_left, exists_or]
    rfl

end Collection
end Elements

/-- The criterion with a list for its operand. -/
def Criterion.over (c : Criterion) (items : List Operand) : Criterion :=
  { c with operand := .list items }

/-- The operations on lists and how they join the elements. -/
inductive Operation.Gathers : Operation → Junction → Prop
  | inList : Gathers .inList .any
  | notInList : Gathers .notInList .all
  | excludeIn : Gathers .excludeIn .all
  | anyElement : Gathers .jsonArrayContainsAny .any

/-- Tests for lists that give every element a truth value, if it has any, and join these. -/
def OwnTest.JoinsElements (j : Junction) (o : List Operand → OwnTest) : Prop :=
  ∀ (table : String) (n : Nat) {κ : Type} (e : Engine κ) (db : Tables κ) (a : String → Row κ),
    ∃ g : Operand → Option Truth, ∀ items,
      ((o items).condition table n).value (Predicate.truth e db a) = j.fold (items.filterMap g)

namespace OwnTest

theorem JoinsElements.value_nil {j : Junction} {o : List Operand → OwnTest}
    (h : JoinsElements j o) (table : String) (n : Nat) {κ : Type} (e : Engine κ) (db : Tables κ)
    (a : String → Row κ) :
    ((o []).condition table n).value (Predicate.truth e db a) = j.fold [] := by
  obtain ⟨g, hg⟩ := h table n e db a
  exact hg []

theorem JoinsElements.value_append {j : Junction} {o : List Operand → OwnTest}
    (h : JoinsElements j o) (xs ys : List Operand) (table : String) (n : Nat) {κ : Type}
    (e : Engine κ) (db : Tables κ) (a : String → Row κ) :
    ((o (xs ++ ys)).condition table n).value (Predicate.truth e db a) =
      j.fold [((o xs).condition table n).value (Predicate.truth e db a),
        ((o ys).condition table n).value (Predicate.truth e db a)] := by
  obtain ⟨g, hg⟩ := h table n e db a
  rw [hg, hg, hg, List.filterMap_append]
  cases j <;> simp

/-- The empty list is settled as the test of it would be. -/
theorem joinsElements_membership {j : Junction} (test : List Value → ColumnTest) (ifEmpty : Bool)
    (op : Comparison) (hempty : Truth.ofBool ifEmpty = j.fold [])
    (htest : ∀ (vs : List Value) {κ : Type} (e : Engine κ) (x : Option κ),
      (test vs).truth e x = j.fold (vs.map fun v => e.compared op v x)) (column : String) :
    JoinsElements j fun items =>
      if (items.filterMap Value.ofOperand?).isEmpty then settled ifEmpty
      else .column column (test (items.filterMap Value.ofOperand?)) := by
  intro table n κ e db a
  refine ⟨fun v => (Value.ofOperand? v).map fun x => e.compared op x (a table column), ?_⟩
  intro items
  rw [← List.map_filterMap]
  dsimp only
  cases items.filterMap Value.ofOperand? with
  | nil =>
    rw [List.isEmpty_nil, if_pos rfl, condition, Condition.value_ofPredicate]
    exact hempty
  | cons v vs =>
    rw [List.isEmpty_cons, if_neg Bool.false_ne_true, condition, Condition.value_ofPredicate]
    exact htest (v :: vs) e _

theorem joinsElements_exclusion (r : Collection) :
    JoinsElements .all fun items =>
      (if (items.filterMap Value.ofOperand?).isEmpty then none
        else some (.within (items.filterMap Value.ofOperand?))).elim (settled true)
          (noneRelated r) := by
  intro table n κ e db a
  refine ⟨fun v => (Value.ofOperand? v).map fun x =>
    Predicate.truth e db a (.noneRelated (r.related table n (.within [x]))), ?_⟩
  intro items
  rw [← List.map_filterMap]
  dsimp only
  cases items.filterMap Value.ofOperand? with
  | nil =>
    rw [List.isEmpty_nil, if_pos rfl, Option.elim_none, condition, Condition.value_ofPredicate]
    rfl
  | cons v vs =>
    rw [List.isEmpty_cons, if_neg Bool.false_ne_true, Option.elim_some, condition,
      Condition.value_ofPredicate]
    exact r.truth_noneWithin e db a table n (v :: vs)

theorem joinsElements_anyElement (column : String) (path : List String) :
    JoinsElements .any fun items =>
      if items.isEmpty then settled false
      else .anyElement column path (items.filterMap Operand.text?) := by
  intro table n κ e db a
  refine ⟨fun v => v.text?.map fun needle =>
    e.document (a table column) path (.holdsElement needle), ?_⟩
  intro items
  rw [← List.map_filterMap]
  dsimp only
  cases items with
  | nil =>
    rw [List.isEmpty_nil, if_pos rfl, condition, Condition.value_ofPredicate]
    rfl
  | cons v items =>
    rw [List.isEmpty_cons, if_neg Bool.false_ne_true, value_condition e db, truth]
    simp [subqueryNames_eq, collection?]

end OwnTest

namespace Scope
variable {s : Scope} {c : Criterion}

theorem planElements_eq {items : List Operand} {hops : List Hop} {p : Spot}
    (hitems : c.operand = .list items) (hsingle : ∀ v ∈ items, v.isList = false)
    (hfield : s.spot c.key = ⟨hops, .ok p⟩) :
    s.planElements c = ⟨hops, false, .ok (if items.isEmpty then OwnTest.settled false
      else .anyElement p.column (p.path.getD []) (items.filterMap Operand.text?)).condition⟩ := by
  simp only [planElements, Criterion.elementTests, onSpot, hfield, Lookup.result, Except.mapError,
    hitems, Operand.items?, bind, Except.bind]
  cases items with
  | nil => rfl
  | cons v items =>
    dsimp only
    rw [mapM_eq_filterMap (f := Operand.text?)]
    · rfl
    · intro w hw
      cases w with
      | list => simpa [Operand.isList] using hsingle _ hw
      | _ => exact ⟨_, rfl, rfl⟩

/-- The key of the criterion can be resolved, as its operation needs it. -/
def Resolves (s : Scope) (c : Criterion) : Prop :=
  if c.operation.excludes then ∃ r, (s.collection c.key).found = .ok r
  else ∃ p, (s.spot c.key).found = .ok p

theorem exists_listTest {j : Junction} (hop : c.operation.Gathers j) (hkey : s.Resolves c) :
    ∃ (o : List Operand → OwnTest) (hops : List Hop) (numbered : Bool),
      OwnTest.JoinsElements j o ∧ ∀ items, (∀ v ∈ items, v.isList = false) →
        s.plan (c.over items) = ⟨hops, numbered, .ok (o items).condition⟩ := by
  have hvalues {items : List Operand} (hsingle : ∀ v ∈ items, v.isList = false) :
      (c.over items).listValues = .ok (items.filterMap Value.ofOperand?) :=
    Criterion.listValues_list rfl hsingle
  obtain ⟨key, operation, operand, allOf, anyOf, label⟩ := c
  cases hop with
  | inList =>
    obtain ⟨p, hp⟩ := hkey
    refine ⟨_, (s.spot key).hops, false, OwnTest.joinsElements_membership .within false .equal rfl
      (fun _ _ _ _ => rfl) p.column, fun items hsingle => ?_⟩
    exact (plan_of_shape rfl).trans
      (planList_eq (hvalues hsingle) (congrArg (Lookup.mk (s.spot key).hops) hp))
  | notInList =>
    obtain ⟨p, hp⟩ := hkey
    refine ⟨_, (s.spot key).hops, false,
      OwnTest.joinsElements_membership .outside true .notEqual rfl (fun _ _ _ _ => rfl) p.column,
      fun items hsingle => ?_⟩
    exact (plan_of_shape rfl).trans
      (planList_eq (hvalues hsingle) (congrArg (Lookup.mk (s.spot key).hops) hp))
  | excludeIn =>
    obtain ⟨r, hr⟩ := hkey
    refine ⟨_, (s.collection key).hops, true, OwnTest.joinsElements_exclusion r,
      fun items hsingle => ?_⟩
    let d : Criterion := ⟨key, .excludeIn, .list items, allOf, anyOf, label⟩
    have hplan : s.plan d = s.planAbsence d (d.listValues.map fun vs =>
      if vs.isEmpty then none else some (.within vs)) := plan_of_shape rfl
    have hd : d.listValues = .ok _ := hvalues hsingle
    rw [hd, Except.map] at hplan
    exact hplan.trans (planAbsence_eq (congrArg (Lookup.mk (s.collection key).hops) hr))
  | anyElement =>
    obtain ⟨p, hp⟩ := hkey
    refine ⟨_, (s.spot key).hops, false, OwnTest.joinsElements_anyElement p.column (p.path.getD []),
      fun items hsingle => ?_⟩
    exact (plan_of_shape rfl).trans
      (planElements_eq rfl hsingle (congrArg (Lookup.mk (s.spot key).hops) hp))

theorem leaf_of_plan {hops : List Hop} {numbered : Bool} {f : String → Nat → Condition}
    (h : s.plan c = ⟨hops, numbered, .ok f⟩) (pass : Pass) :
    (s.leaf c pass).1 = .ok (f (s.instanceName c pass) (s.after c pass).subqueries) := by
  rw [leaf_eq, h]
  rfl

/-- On a key that can be resolved, an operation on lists takes the concatenation of two lists for
both of them, joined as the operation joins elements, and the empty list for nothing joined. The
conditions may have been compiled at different times, as long as they test the same instance and
none of their sub-queries takes its name. -/
theorem lists_distribute (s : Scope) (c : Criterion) (j : Junction)
    (hop : c.operation.Gathers j) (hkey : s.Resolves c) (A B : List Operand)
    (hA : ∀ v ∈ A, v.isList = false) (hB : ∀ v ∈ B, v.isList = false) :
    (∀ pass, ∃ own, (s.leaf (c.over []) pass).1 = .ok own ∧
      ∀ {κ : Type} (e : Engine κ) (db : Tables κ) (a : String → Row κ),
        own.value (Predicate.truth e db a) = j.fold []) ∧
    (∀ pass, ∃ both one other, (s.leaf (c.over (A ++ B)) pass).1 = .ok both ∧
      (s.leaf (c.over A) pass).1 = .ok one ∧ (s.leaf (c.over B) pass).1 = .ok other ∧
      ∀ {κ : Type} (e : Engine κ) (db : Tables κ) (a : String → Row κ),
        both.value (Predicate.truth e db a) =
          j.fold [one.value (Predicate.truth e db a), other.value (Predicate.truth e db a)]) ∧
    ∀ p q r both one other, (s.leaf (c.over (A ++ B)) p).1 = .ok both →
      (s.leaf (c.over A) q).1 = .ok one → (s.leaf (c.over B) r).1 = .ok other →
      let table := s.instanceName (c.over (A ++ B)) p
      s.instanceName (c.over A) q = table → s.instanceName (c.over B) r = table →
      table ∉ both.subqueryNames ++ one.subqueryNames ++ other.subqueryNames →
      ∀ {κ : Type} (e : Engine κ) (db : Tables κ) (a : String → Row κ),
        both.value (Predicate.truth e db a) =
          j.fold [one.value (Predicate.truth e db a), other.value (Predicate.truth e db a)] := by
  obtain ⟨o, hops, numbered, ho, hplan⟩ := exists_listTest hop hkey
  have hAB : ∀ v ∈ A ++ B, v.isList = false := List.forall_mem_append.mpr ⟨hA, hB⟩
  have hleaf {items : List Operand} (hitems : ∀ v ∈ items, v.isList = false) :=
    leaf_of_plan (hplan items hitems)
  refine ⟨?_, ?_, ?_⟩
  · intro pass
    exact ⟨_, hleaf (List.forall_mem_nil _) pass, fun e db a => ho.value_nil _ _ e db a⟩
  · intro pass
    -- the plans differ in the condition alone, so the instance and the number are the same
    have hsame {items : List Operand} (hitems : ∀ v ∈ items, v.isList = false) :
        s.after (c.over items) pass = s.after (c.over (A ++ B)) pass ∧
          s.instanceName (c.over items) pass = s.instanceName (c.over (A ++ B)) pass := by
      simp only [instanceName, after, hplan _ hitems, hplan _ hAB]
      exact ⟨rfl, rfl⟩
    refine ⟨_, _, _, hleaf hAB pass, hleaf hA pass, hleaf hB pass, ?_⟩
    intro κ e db a
    rw [(hsame hA).1, (hsame hA).2, (hsame hB).1, (hsame hB).2]
    exact ho.value_append A B _ _ e db a
  · intro p q r both one other hboth hone hother table hq hr hnames κ e db a
    rw [List.mem_append, List.mem_append, not_or, not_or] at hnames
    obtain ⟨⟨hnboth, hnone⟩, hnother⟩ := hnames
    rw [hleaf hAB] at hboth
    rw [hleaf hA, hq] at hone
    rw [hleaf hB, hr] at hother
    obtain rfl := Except.ok.inj hboth
    obtain rfl := Except.ok.inj hone
    obtain rfl := Except.ok.inj hother
    have htruth {items : List Operand} (hitems : ∀ v ∈ items, v.isList = false) (row : Row κ) :
        s.ownTruth e db (c.over items) row =
          ((o items).condition "" 0).value (Predicate.truth e db fun _ => row) := by
      rw [ownTruth, hplan items hitems]
    rw [value_own e db (congrArg Plan.condition (hplan _ hAB)) hnboth,
      value_own e db (congrArg Plan.condition (hplan _ hA)) hnone,
      value_own e db (congrArg Plan.condition (hplan _ hB)) hnother, htruth hAB, htruth hA,
      htruth hB]
    exact ho.value_append A B "" 0 e db _

end Scope

def noTotal : Criterion := ⟨"scores.total", .excludeIn, .list [], [], [], none⟩

/-- Three exclusions compiled one after the other. Ann's only score is 7, so the second one leaves
her out, and so does the first one. -/
theorem lists_distribute_total :
    Operation.Gathers noTotal.operation .all ∧ playerScope.Resolves noTotal ∧
      (∀ v ∈ [Operand.text "7"], v.isList = false) ∧
      (∀ v ∈ [Operand.text "8", .bool true], v.isList = false) ∧
      ∃ both one other p q r,
        playerScope.leaf (noTotal.over ([.text "7"] ++ [.text "8", .bool true])) .empty =
          (.ok both, p) ∧
        playerScope.leaf (noTotal.over [.text "7"]) p = (.ok one, q) ∧
        playerScope.leaf (noTotal.over [.text "8", .bool true]) q = (.ok other, r) ∧
        both.subqueryNames ++ one.subqueryNames ++ other.subqueryNames =
          ["scores_sub1", "scores_sub2", "scores_sub3"] ∧
        one.value (Predicate.truth .texts annScored annScoredRows) = .no ∧
        other.value (Predicate.truth .texts annScored annScoredRows) = .yes ∧
        both.value (Predicate.truth .texts annScored annScoredRows) = .no := by
  have hA : ∀ v ∈ [Operand.text "7"], v.isList = false := by decide
  have hB : ∀ v ∈ [Operand.text "8", .bool true], v.isList = false := by decide
  obtain ⟨-, -, h⟩ := playerScope.lists_distribute noTotal .all .excludeIn ⟨_, rfl⟩ _ _ hA hB
  refine ⟨.excludeIn, ⟨_, rfl⟩, hA, hB, _, _, _, _, _, _, rfl, rfl, rfl, ?_, ?_, ?_, ?_⟩
  · decide
  · rfl
  · rfl
  · exact h _ _ _ _ _ _ rfl rfl rfl rfl rfl (by decide) .texts annScored annScoredRows

end EntitySearch
