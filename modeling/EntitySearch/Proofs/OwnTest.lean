import EntitySearch.Proofs.Composition
import EntitySearch.Proofs.Planning
import EntitySearch.Proofs.Reading
/-!
What one criterion tests, its children left aside. Its condition speaks of one table instance and,
for an exclusion, of the sub-query's table, so its truth is that of a test of one row.
-/
namespace EntitySearch
open Sql

/-- The sub-query over a collection that belongs to an instance, under the `n`th name. -/
def Collection.related (c : Collection) (owner : String) (n : Nat) (test : ColumnTest) : Related :=
  ⟨c.table, s!"{c.relationship.name}_sub{n}", c.relationship.destination,
    ⟨owner, c.relationship.source⟩, c.column, test⟩

/-- What a criterion tests of the table instance that its hops end at. -/
inductive OwnTest
  | settled (truth : Bool)
  | column (name : String) (test : ColumnTest)
  | document (name : String) (path : List String) (test : DocumentTest)
  | anyElement (name : String) (path : List String) (needles : List String)
  | noneRelated (c : Collection) (test : ColumnTest)

namespace OwnTest

def condition : OwnTest → String → Nat → Condition
  | settled truth, _, _ => .ofPredicate (.constant truth)
  | column name test, table, _ => .ofPredicate (.column ⟨table, name⟩ test)
  | document name path test, table, _ => .ofPredicate (.document ⟨table, name⟩ path test)
  | anyElement name path needles, table, _ => .group .any (needles.map fun needle =>
      .test (.document ⟨table, name⟩ path (.holdsElement needle)))
  | noneRelated c test, owner, n => .ofPredicate (.noneRelated (c.related owner n test))

/-- The collection whose rows a test forbids. -/
def collection? : OwnTest → Option Collection
  | noneRelated c _ => some c
  | _ => none

section Truth
variable {κ : Type} (e : Engine κ) (db : Tables κ)

def truth (row : Row κ) : OwnTest → Truth
  | settled truth => .ofBool truth
  | column name test => test.truth e (row name)
  | document name path test => e.document (row name) path test
  | anyElement name path needles => Junction.any.fold (needles.map fun needle =>
      e.document (row name) path (.holdsElement needle))
  | noneRelated c test => .ofBool <| !(db c.table).any fun other =>
      (c.related "" 0 test).counts e row other

/-- The name of an instance, unless a sub-query takes it, is all that the truth depends on. -/
theorem value_condition (o : OwnTest) {a : String → Row κ} {table : String} {n : Nat}
    (h : table ∉ (o.condition table n).subqueryNames) :
    (o.condition table n).value (Predicate.truth e db a) = o.truth e db (a table) := by
  cases o with
  | settled truth => exact Condition.value_ofPredicate _ _
  | column name test => exact Condition.value_ofPredicate _ _
  | document name path test => exact Condition.value_ofPredicate _ _
  | anyElement name path needles =>
    rw [condition, Condition.value_group, List.map_map]
    simp only [Function.comp_def, Condition.value_test]
    rfl
  | noneRelated c test =>
    have hname : table ≠ (c.related table n test).name := by
      simpa [Condition.subqueryNames, condition, Predicate.ownName?] using h
    have hcounts (other : Row κ) :
        (c.related table n test).counts e
            (Function.update a (c.related table n test).name other table)
            (Function.update a (c.related table n test).name other (c.related table n test).name) =
          (c.related "" 0 test).counts e (a table) other := by
      rw [Function.update_of_ne hname, Function.update_self]
      rfl
    rw [condition, Condition.value_ofPredicate, truth, Predicate.truth]
    simp only [show (c.related table n test).owner.table = table from rfl, hcounts]
    rfl

end Truth

/-- The `n`th sub-query has the name of its collection's relationship with the number. -/
theorem subqueryNames_eq (o : OwnTest) (table : String) (n : Nat) :
    (o.condition table n).subqueryNames =
      o.collection?.toList.map fun r => s!"{r.relationship.name}_sub{n}" := by
  cases o with
  | anyElement name path needles =>
    apply List.filterMap_eq_nil_iff.mpr
    intro p hp
    simp only [condition, Condition.predicates_group, List.flatMap_map, List.mem_flatMap,
      Condition.predicates_test, List.mem_singleton] at hp
    obtain ⟨needle, -, rfl⟩ := hp
    rfl
  | _ => rfl

theorem subqueryNames_condition (o : OwnTest) {table x : String} {n : Nat}
    (h : x ∈ (o.condition table n).subqueryNames) :
    ∃ name : String, x = s!"{name}_sub{n}" := by
  rw [subqueryNames_eq] at h
  obtain ⟨r, -, rfl⟩ := List.mem_map.mp h
  exact ⟨r.relationship.name, rfl⟩

end OwnTest

def Operation.excludes : Operation → Bool
  | excludeIn | excludeLike => true
  | _ => false

namespace Scope

/-- A plan that tests the field that a key addresses. -/
structure TestsField (s : Scope) (key : String) (plan : Plan) (o : OwnTest) : Prop where
  found : ∃ p, (s.spot key).found = .ok p
  hops_eq : plan.hops = (s.spot key).hops
  numbered_eq : plan.numbered = false
  collection?_eq : o.collection? = none

/-- A plan that tests for the absence of rows in the collection that a key addresses. -/
structure TestsAbsence (s : Scope) (key : String) (plan : Plan) (o : OwnTest) : Prop where
  found : ∃ r, (s.collection key).found = .ok r ∧ ∀ r' ∈ o.collection?, r' = r
  hops_eq : plan.hops = (s.collection key).hops
  numbered_eq : plan.numbered = true

variable {s : Scope} {c : Criterion} {f : String → Nat → Condition}

theorem testsField_of_onSpot {build : Spot → Except SearchError (Column → Condition)}
    (hbuild : ∀ p g, build p = .ok g → ∃ o : OwnTest, o.collection? = none ∧
      ∀ table n, g ⟨table, p.column⟩ = o.condition table n)
    (h : (s.onSpot c build).condition = .ok f) :
    ∃ o : OwnTest, f = o.condition ∧ s.TestsField c.key (s.onSpot c build) o := by
  obtain ⟨p, hp, h⟩ := bind_eq_ok_iff.mp h
  obtain ⟨g, hg, h⟩ := bind_eq_ok_iff.mp h
  obtain rfl := Except.ok.inj h
  obtain ⟨o, hnone, ho⟩ := hbuild p g hg
  exact ⟨o, funext fun table => funext fun n => ho table n,
    ⟨p, Lookup.result_eq_ok_iff.mp hp⟩, rfl, rfl, hnone⟩

theorem testsField_of_planColumn {build : Spot → Except SearchError ColumnTest}
    (h : (s.planColumn c build).condition = .ok f) :
    ∃ o : OwnTest, f = o.condition ∧ s.TestsField c.key (s.planColumn c build) o := by
  apply testsField_of_onSpot _ h
  intro p g hg
  obtain ⟨test, -, hg⟩ := bind_eq_ok_iff.mp hg
  obtain rfl := Except.ok.inj hg
  exact ⟨.column p.column test, rfl, fun _ _ => rfl⟩

theorem testsField_of_planPattern {pattern : String → String}
    (h : (s.planPattern c pattern).condition = .ok f) :
    ∃ o : OwnTest, f = o.condition ∧ s.TestsField c.key (s.planPattern c pattern) o := by
  unfold planPattern at h ⊢
  split at h
  next => simp [Plan.refuse] at h
  next => exact testsField_of_planColumn h

theorem testsField_of_planList {test : List Value → ColumnTest} {ifEmpty : Bool}
    (h : (s.planList c test ifEmpty).condition = .ok f) :
    ∃ o : OwnTest, f = o.condition ∧ s.TestsField c.key (s.planList c test ifEmpty) o := by
  unfold planList at h ⊢
  split at h
  next => simp [Plan.refuse] at h
  next values _ =>
    apply testsField_of_onSpot _ h
    intro p g hg
    obtain rfl := Except.ok.inj hg
    cases values with
    | nil => exact ⟨.settled ifEmpty, rfl, fun _ _ => rfl⟩
    | cons v values => exact ⟨.column p.column (test (v :: values)), rfl, fun _ _ => rfl⟩

theorem testsAbsence_of_planAbsence {test : Except SearchError (Option ColumnTest)}
    (h : (s.planAbsence c test).condition = .ok f) :
    ∃ o : OwnTest, f = o.condition ∧ s.TestsAbsence c.key (s.planAbsence c test) o := by
  obtain ⟨related, hrelated, h⟩ := bind_eq_ok_iff.mp h
  obtain ⟨test?, -, h⟩ := bind_eq_ok_iff.mp h
  obtain rfl := Except.ok.inj h
  have hfound := Lookup.result_eq_ok_iff.mp hrelated
  have hnumbered : (s.planAbsence c test).numbered = true := by
    simp [planAbsence, hfound, Except.isOk, Except.toBool]
  cases test? with
  | none =>
    exact ⟨.settled true, rfl, ⟨related, hfound, by simp [OwnTest.collection?]⟩, rfl, hnumbered⟩
  | some test =>
    exact ⟨.noneRelated related test, rfl, ⟨related, hfound, by simp [OwnTest.collection?]⟩, rfl,
      hnumbered⟩

/-- A plan for a document tests it at the path of its key. -/
theorem planDocumentTest_eq_ok {test : Except SearchError DocumentTest}
    (h : (s.planDocumentTest c test).condition = .ok f) :
    ∃ p path t, (s.spot c.key).found = .ok p ∧ p.path = some path ∧ test = .ok t ∧
      f = fun table _ => .ofPredicate (.document ⟨table, p.column⟩ path t) := by
  obtain ⟨p, hp, h⟩ := bind_eq_ok_iff.mp h
  obtain ⟨g, hg, h⟩ := bind_eq_ok_iff.mp h
  obtain ⟨path, hpath, hg⟩ := bind_eq_ok_iff.mp hg
  obtain ⟨t, ht, hg⟩ := bind_eq_ok_iff.mp hg
  obtain rfl := Except.ok.inj hg
  obtain rfl := Except.ok.inj h
  refine ⟨p, path, t, Lookup.result_eq_ok_iff.mp hp, ?_, ht, rfl⟩
  unfold Criterion.neededPath at hpath
  split at hpath
  next hsome => rw [hsome, Except.ok.inj hpath]
  next => simp at hpath

theorem testsField_of_planDocumentTest {test : Except SearchError DocumentTest}
    (h : (s.planDocumentTest c test).condition = .ok f) :
    ∃ o : OwnTest, f = o.condition ∧ s.TestsField c.key (s.planDocumentTest c test) o := by
  apply testsField_of_onSpot _ h
  intro p g hg
  obtain ⟨path, -, hg⟩ := bind_eq_ok_iff.mp hg
  obtain ⟨test, -, hg⟩ := bind_eq_ok_iff.mp hg
  obtain rfl := Except.ok.inj hg
  exact ⟨.document p.column path test, rfl, fun _ _ => rfl⟩

/-- A plan for elements tests the array at the path of its key, if it has one. -/
theorem planElements_eq_ok (h : (s.planElements c).condition = .ok f) :
    ∃ p, (s.spot c.key).found = .ok p ∧ (f = (OwnTest.settled false).condition ∨
      ∃ needles, f = (OwnTest.anyElement p.column (p.path.getD []) needles).condition) := by
  obtain ⟨p, hp, h⟩ := bind_eq_ok_iff.mp h
  obtain ⟨g, hg, h⟩ := bind_eq_ok_iff.mp h
  obtain rfl := Except.ok.inj h
  refine ⟨p, Lookup.result_eq_ok_iff.mp hp, ?_⟩
  unfold Criterion.elementTests at hg
  split at hg
  next => simp at hg
  next =>
    obtain rfl := Except.ok.inj hg
    exact .inl rfl
  next =>
    obtain ⟨needles, -, hg⟩ := bind_eq_ok_iff.mp hg
    obtain rfl := Except.ok.inj hg
    exact .inr ⟨needles, rfl⟩

theorem testsField_of_planElements (h : (s.planElements c).condition = .ok f) :
    ∃ o : OwnTest, f = o.condition ∧ s.TestsField c.key (s.planElements c) o := by
  obtain ⟨p, hp, rfl | ⟨needles, rfl⟩⟩ := planElements_eq_ok h
  · exact ⟨.settled false, rfl, ⟨p, hp⟩, rfl, rfl, rfl⟩
  · exact ⟨.anyElement p.column (p.path.getD []) needles, rfl, ⟨p, hp⟩, rfl, rfl, rfl⟩

/-- Whatever its operation, a criterion that compiles has resolved its key and tests the one table
instance that its hops end at. -/
theorem plan_cases (h : (s.plan c).condition = .ok f) :
    ∃ o : OwnTest, f = o.condition ∧
      ((c.operation.excludes = false ∧ s.TestsField c.key (s.plan c) o) ∨
        (c.operation.excludes = true ∧ s.TestsAbsence c.key (s.plan c) o)) := by
  rw [plan_eq] at h ⊢
  split at h
  case isFalse => simp [Plan.refuse] at h
  case isTrue hshape =>
    rw [if_pos hshape]
    clear hshape
    cases hop : c.operation <;> simp only [hop] at h
    case greater | less | greaterEquals | lessEquals | equals | notEqual =>
      exact (testsField_of_planColumn h).imp fun _ => And.imp_right fun h => .inl ⟨rfl, h⟩
    case like | likeStart | likeEnd =>
      exact (testsField_of_planPattern h).imp fun _ => And.imp_right fun h => .inl ⟨rfl, h⟩
    case inList | notInList =>
      exact (testsField_of_planList h).imp fun _ => And.imp_right fun h => .inl ⟨rfl, h⟩
    case excludeIn | excludeLike =>
      exact (testsAbsence_of_planAbsence h).imp fun _ => And.imp_right fun h => .inr ⟨rfl, h⟩
    case jsonLike | jsonContains =>
      exact (testsField_of_planDocumentTest h).imp fun _ => And.imp_right fun h => .inl ⟨rfl, h⟩
    case jsonArrayContainsAny =>
      exact (testsField_of_planElements h).imp fun _ => And.imp_right fun h => .inl ⟨rfl, h⟩

theorem exists_ownTest (h : (s.plan c).condition = .ok f) : ∃ o : OwnTest, f = o.condition :=
  (plan_cases h).imp fun _ => And.left

section OwnTruth
variable {κ : Type} (e : Engine κ) (db : Tables κ)

/-- The truth of a criterion's own condition where the instance that it tests has this row. -/
def ownTruth (s : Scope) (c : Criterion) (row : Row κ) : Truth :=
  match (s.plan c).condition with
  | .error _ => .no
  | .ok f => (f "" 0).value (Predicate.truth e db fun _ => row)

theorem ownTruth_eq {o : OwnTest} (h : (s.plan c).condition = .ok o.condition) (row : Row κ) :
    s.ownTruth e db c row = o.truth e db row := by
  have hempty : "" ∉ (o.condition "" 0).subqueryNames := by
    intro hmem
    obtain ⟨name, hname⟩ := o.subqueryNames_condition hmem
    have hlength := congrArg String.length hname
    have hsub : (toString "_sub").length = 4 := rfl
    simp only [String.length_empty, String.length_append] at hlength
    omega
  rw [ownTruth, h]
  exact o.value_condition e db hempty

theorem value_own {a : String → Row κ} {table : String} {n : Nat}
    (h : (s.plan c).condition = .ok f) (htable : table ∉ (f table n).subqueryNames) :
    (f table n).value (Predicate.truth e db a) = s.ownTruth e db c (a table) := by
  obtain ⟨o, rfl⟩ := exists_ownTest h
  rw [o.value_condition e db htable, ownTruth_eq e db h]

end OwnTruth
end Scope
end EntitySearch
