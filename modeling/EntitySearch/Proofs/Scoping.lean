import EntitySearch.Proofs.Address
/-!
Names in generated statements. Whatever criteria were compiled before and however many of them
failed, conditions and joins refer to table instances that are there, and no name is given twice.
-/
namespace EntitySearch
open Sql

namespace Sql

/-- A reference to a column; `within` is the name of the sub-query that it stands in. -/
structure Reference where
  within : Option String
  column : Column
  deriving DecidableEq, Repr

def Predicate.references : Predicate → List Reference
  | constant _ => []
  | column c _ | document c _ _ => [⟨none, c⟩]
  | noneRelated r => [⟨some r.name, ⟨r.name, r.key⟩⟩, ⟨some r.name, r.owner⟩,
      ⟨some r.name, ⟨r.name, r.column⟩⟩]

def Condition.references (c : Condition) : List Reference :=
  c.predicates.flatMap Predicate.references

end Sql

/-- A criterion's own condition refers to the instance that it tests and, within its sub-query, to
the table of that. -/
theorem OwnTest.references_condition (o : OwnTest) (table : String) (n : Nat) :
    ∀ r ∈ (o.condition table n).references,
      r.column.table = table ∨ r.within = some r.column.table := by
  cases o with
  | settled truth => simp [condition, Condition.references, Predicate.references]
  | column name test => simp [condition, Condition.references, Predicate.references]
  | document name path test => simp [condition, Condition.references, Predicate.references]
  | anyElement name path needles =>
    intro r hr
    simp only [condition, Condition.references, Condition.predicates_group, List.flatMap_map,
      Condition.predicates_test, List.mem_flatMap, List.mem_singleton] at hr
    obtain ⟨p, ⟨needle, -, rfl⟩, hr⟩ := hr
    obtain rfl := List.mem_singleton.mp hr
    exact .inl rfl
  | noneRelated c test =>
    simp [condition, Condition.references, Predicate.references, Collection.related]

namespace Scope
variable {s : Scope} {rs : List Route}

/-- The name that a criterion's sub-query gets in a pass, whether its condition turns out to need
one or not. -/
def subqueryName? (s : Scope) (c : Criterion) (pass : Pass) : Option String :=
  if (s.plan c).numbered then
    (s.collection c.key).found.toOption.map fun r =>
      s!"{r.relationship.name}_sub{pass.subqueries + 1}"
  else none

/-- The names that sub-queries get when criteria are compiled one after the other. -/
def subqueryNames (s : Scope) : List Criterion → Pass → List String
  | [], _ => []
  | c :: cs, pass => (s.subqueryName? c pass).toList ++ subqueryNames s cs (s.leaf c pass).2

theorem subqueryNames_own {c : Criterion} {pass pass' : Pass} {own : Condition}
    (h : s.leaf c pass = (.ok own, pass')) :
    own.subqueryNames ⊆ (s.subqueryName? c pass).toList := by
  obtain ⟨-, f, hf, rfl⟩ := leaf_eq_ok_iff.mp h
  obtain ⟨o, rfl, ⟨-, hfield⟩ | ⟨-, habsence⟩⟩ := plan_cases hf
  · simp [OwnTest.subqueryNames_eq, hfield.collection?_eq]
  · obtain ⟨r, hr, honly⟩ := habsence.found
    rw [OwnTest.subqueryNames_eq]
    cases hcollection : o.collection? with
    | none => simp
    | some r' =>
      obtain rfl := honly r' hcollection
      simp [subqueryName?, after, habsence.numbered_eq, hr, Except.toOption]

theorem subqueries_leaf (c : Criterion) (pass : Pass) :
    (s.leaf c pass).2.subqueries = pass.subqueries + if (s.plan c).numbered then 1 else 0 := rfl

theorem subqueryName?_eq_some {c : Criterion} {pass : Pass} {x : String}
    (h : s.subqueryName? c pass = some x) :
    (s.plan c).numbered = true ∧ ∃ name : String, x = s!"{name}_sub{pass.subqueries + 1}" := by
  unfold subqueryName? at h
  split at h
  next hplan =>
    obtain ⟨r, -, rfl⟩ := Option.map_eq_some_iff.mp h
    exact ⟨hplan, r.relationship.name, rfl⟩
  next => simp at h

/-- The numbers of sub-queries only grow. -/
theorem subqueryNames_numbered (cs : List Criterion) (pass : Pass) :
    (s.subqueryNames cs pass).Nodup ∧ ∀ x ∈ s.subqueryNames cs pass,
      ∃ (name : String) (n : Nat), pass.subqueries < n ∧ x = s!"{name}_sub{n}" := by
  induction cs generalizing pass with
  | nil => simp [subqueryNames]
  | cons c cs ih =>
    obtain ⟨hnodup, hnumbered⟩ := ih (s.leaf c pass).2
    rw [subqueries_leaf] at hnumbered
    rw [subqueryNames]
    cases hname : s.subqueryName? c pass with
    | none =>
      refine ⟨hnodup, fun x hx => ?_⟩
      obtain ⟨name, n, hn, rfl⟩ := hnumbered x hx
      exact ⟨name, n, by omega, rfl⟩
    | some x =>
      obtain ⟨hplan, name, rfl⟩ := subqueryName?_eq_some hname
      rw [if_pos hplan] at hnumbered
      rw [Option.toList_some, List.singleton_append]
      constructor
      · refine List.nodup_cons.mpr ⟨fun hmem => ?_, hnodup⟩
        obtain ⟨name', n, hn, hx⟩ := hnumbered _ hmem
        have := numberedSub_inj hx
        omega
      · intro x hx
        rcases List.mem_cons.mp hx with rfl | hx
        · exact ⟨name, pass.subqueries + 1, by omega, rfl⟩
        · obtain ⟨name', n, hn, rfl⟩ := hnumbered x hx
          exact ⟨name', n, by omega, rfl⟩

theorem names_ofRoutes (root : String) (rs : List Route) :
    (JoinTable.ofRoutes root rs).joins.map Join.name =
      rs.map fun r => Route.name root rs (some r) := by
  rw [JoinTable.joins_ofRoutes, List.map_map]
  rfl

namespace Rooted

/-- The instance that a route goes on from was reached before. -/
theorem parent_before {r : Route} {before after : List Route}
    (h : s.Rooted (before ++ r :: after)) :
    ∀ p ∈ r.parent, p ∈ before := by
  generalize hall : before ++ r :: after = all at h
  induction h generalizing after with
  | nil => simp at hall
  | @snoc rs last _ _ hparent _ ih =>
    rcases List.eq_nil_or_concat after with rfl | ⟨after, x, rfl⟩
    · obtain ⟨rfl, hlast⟩ := List.append_inj' hall rfl
      obtain rfl := List.singleton_inj.mp hlast
      exact hparent
    · have hsplit : (before ++ r :: after) ++ [x] = rs ++ [last] := by simpa using hall
      exact ih (List.append_inj' hsplit rfl).1

/-- A join is made on its own table instance and one that was there before. -/
theorem link_scoped (h : s.Rooted rs) {before after : List Join} {j : Join}
    (hjoins : (JoinTable.ofRoutes s.root.table rs).joins = before ++ j :: after) :
    j.link.1.table ∈ s.root.table :: before.map Join.name ∧ j.link.2.table = j.name := by
  refine ⟨?_, rfl⟩
  rw [JoinTable.joins_ofRoutes] at hjoins
  obtain ⟨first, rest, hrs, rfl, hrest⟩ := List.map_eq_append_iff.mp hjoins
  obtain ⟨r, last, rfl, rfl, -⟩ := List.map_eq_cons_iff.mp hrest
  have hparent := (hrs ▸ h).parent_before
  cases hp : r.parent with
  | none =>
    have hname : (Route.entry s.root.table rs r).join.link.1.table = s.root.table := by
      simp [Route.entry, Join.link, hp, Route.name]
    exact List.mem_cons.mpr (.inl hname)
  | some p =>
    rw [hp] at hparent
    have hname : (Route.entry s.root.table rs r).join.link.1.table =
        Route.name s.root.table rs (some p) := by
      simp [Route.entry, Join.link, hp]
    apply List.mem_cons_of_mem
    rw [List.map_map]
    exact List.mem_map.mpr ⟨p, hparent p rfl, hname.symm⟩

/-- The instance that a route leads to is the root or that of a join. -/
theorem name_scoped {a : Option Route} (ha : ∀ r ∈ a, r ∈ rs) :
    Route.name s.root.table rs a ∈
      s.root.table :: (JoinTable.ofRoutes s.root.table rs).joins.map Join.name := by
  cases a with
  | none => exact List.mem_cons_self
  | some r =>
    apply List.mem_cons_of_mem
    rw [names_ofRoutes]
    exact List.mem_map.mpr ⟨r, ha r rfl, rfl⟩

end Rooted

/-- Criteria compiled one after the other, failing ones included: conditions refer to the root, to
joins made by then and to their own sub-query; a join refers to itself and to the root or an earlier
join; and all names given to joins and to sub-queries are different. -/
theorem leaves_scoped (s : Scope) (cs : List Criterion) :
    let joins := (s.leaves cs .empty).2.joins.joins
    (∀ before c after, cs = before ++ c :: after →
      let pass := (s.leaves before .empty).2
      ∀ own pass', s.leaf c pass = (.ok own, pass') →
        own.subqueryNames ⊆ (s.subqueryName? c pass).toList ∧
        ∀ r ∈ own.references,
          r.column.table ∈ s.root.table :: pass'.joins.joins.map Join.name ∨
            r.within = some r.column.table) ∧
    (∀ before j after, joins = before ++ j :: after →
      j.link.1.table ∈ s.root.table :: before.map Join.name ∧ j.link.2.table = j.name) ∧
    (joins.map Join.name ++ s.subqueryNames cs .empty).Nodup := by
  intro joins
  obtain ⟨hjoins, hrooted⟩ := joins_leaves (s := s) (p := .empty) cs .nil rfl
  refine ⟨?_, ?_, ?_⟩
  · intro before c after _ pass own pass' hown
    refine ⟨subqueryNames_own hown, fun r hr => ?_⟩
    obtain ⟨hpass, hbefore⟩ := joins_leaves (s := s) (p := .empty) before .nil rfl
    obtain ⟨rfl, f, hf, rfl⟩ := leaf_eq_ok_iff.mp hown
    obtain ⟨o, rfl⟩ := exists_ownTest hf
    rcases o.references_condition _ _ r hr with htable | hwithin
    · left
      rw [htable, instanceName_eq hbefore c hpass, joins_after hbefore c hpass]
      exact Rooted.name_scoped (follow_plan hbefore c).2.2
    · exact .inr hwithin
  · intro before j after hsplit
    simp only [joins, hjoins] at hsplit
    exact hrooted.link_scoped hsplit
  · obtain ⟨hnodup, hnumbered⟩ := subqueryNames_numbered (s := s) cs .empty
    simp only [joins, hjoins, names_ofRoutes]
    refine List.nodup_append.mpr ⟨?_, hnodup, ?_⟩
    · exact List.Nodup.map_on (fun _ hr _ _ => Route.name_inj hr) hrooted.nodup
    · rintro _ hx y hy rfl
      obtain ⟨r, -, hr⟩ := List.mem_map.mp hx
      obtain ⟨name, n, -, hn⟩ := hnumbered _ hy
      exact numbered_ne_sub (hr.trans hn)

end Scope

/-- Items with relationships whose names look like the names made from them. -/
def suffixScope : Scope :=
  let part : Entity := ⟨"part", "parts", "id", [⟨"size", "size", .integer⟩], []⟩
  let toPart (name : String) : Relationship := ⟨name, "part", .hasMany, "id", "item_id"⟩
  let item : Entity := ⟨"item", "items", "id", [], [toPart "a", toPart "a_1", toPart "a_sub1"]⟩
  ⟨⟨[item, part]⟩, item⟩

def partAbove (key : String) : Criterion := ⟨key, .greater, .text "5", [], [], none⟩

def noPartNamed (key : String) : Criterion := ⟨key, .excludeLike, .text "x", [], [], none⟩

/-- The second criterion fails for want of an attribute, but its join stays. -/
theorem leaves_scoped_suffixes :
    let before := [noPartNamed "a_sub1.size", partAbove "a_1.weight", partAbove "a.size"]
    let cs := before ++ [noPartNamed "a.size"]
    let names := (suffixScope.leaves cs .empty).2.joins.joins.map Join.name ++
      suffixScope.subqueryNames cs .empty
    names = ["a_1_1", "a_2", "a_sub1_sub1", "a_sub2"] ∧ names.Nodup ∧
      ∃ own pass', suffixScope.leaf (noPartNamed "a.size") (suffixScope.leaves before .empty).2 =
          (.ok own, pass') ∧
        ∀ r ∈ own.references, r.column.table ∈ "items" :: pass'.joins.joins.map Join.name ∨
          r.within = some r.column.table := by
  intro before cs names
  obtain ⟨howns, -, hnodup⟩ := suffixScope.leaves_scoped cs
  exact ⟨by decide, hnodup, _, _, rfl, (howns before _ [] rfl _ _ rfl).2⟩

end EntitySearch
