import EntitySearch.Proofs.Address
import EntitySearch.Proofs.FirstFailure
import EntitySearch.Proofs.ForestLaws
import EntitySearch.Proofs.Shuffle
import Mathlib.Data.Set.Function
/-!
Forests with their siblings in another order. Joins and sub-queries get other numbers; up to these
the selection is the same, and the same rows are selected.
-/
namespace EntitySearch
open Sql

/-- Forests that differ in the order of siblings only, at the top and below any criterion. -/
inductive Forest.Reordered : Forest → Forest → Prop
  | nil : Reordered [] []
  | cons {c : Criterion} {allOf anyOf cs ds : Forest} : Reordered c.allOf allOf →
      Reordered c.anyOf anyOf → Reordered cs ds →
      Reordered (c :: cs) ({ c with allOf := allOf, anyOf := anyOf } :: ds)
  | swap (c d : Criterion) (cs : Forest) : Reordered (c :: d :: cs) (d :: c :: cs)
  | trans {cs ds es : Forest} : Reordered cs ds → Reordered ds es → Reordered cs es

namespace Forest

/-- Each criterion at its place, stripped of its children. -/
def bare (cs : Forest) : List (Tree Criterion) := Tree.mapAll Criterion.alone (trees cs)

theorem bare_cons (c : Criterion) (cs : Forest) :
    bare (c :: cs) = .node c.alone (bare c.allOf) (bare c.anyOf) :: bare cs := by
  obtain ⟨key, operation, operand, allOf, anyOf, label⟩ := c
  rfl

theorem nodesAll_bare (cs : Forest) : Tree.nodesAll (bare cs) = (nodes cs).map Criterion.alone :=
  Tree.nodesAll_mapAll _ _

theorem Reordered.shuffled {cs ds : Forest} (h : Reordered cs ds) :
    Tree.Shuffled (bare cs) (bare ds) := by
  induction h with
  | nil => exact .nil
  | cons _ _ _ ihAll ihAny ihRest =>
    rw [bare_cons, bare_cons]
    exact .cons _ ihAll ihAny ihRest
  | swap c d cs =>
    rw [bare_cons, bare_cons, bare_cons, bare_cons]
    exact .swap _ _ _
  | trans _ _ ih ih' => exact ih.trans ih'

theorem Reordered.refl : (cs : Forest) → Reordered cs cs
  | [] => .nil
  | ⟨_, _, _, allOf, anyOf, _⟩ :: cs => .cons (refl allOf) (refl anyOf) (refl cs)

/-- Any order of a list of siblings is one. -/
theorem Reordered.of_perm {cs ds : Forest} (h : cs.Perm ds) : Reordered cs ds := by
  induction h with
  | nil => exact .nil
  | cons c _ ih =>
    obtain ⟨key, operation, operand, allOf, anyOf, label⟩ := c
    exact .cons (.refl allOf) (.refl anyOf) ih
  | swap c d cs => exact .swap d c cs
  | trans _ _ ih ih' => exact ih.trans ih'

end Forest

namespace Scope
variable {s : Scope} {cs ds : Forest}

theorem plan_alone (c : Criterion) : s.plan c.alone = s.plan c := rfl

theorem routesOf_eq (s : Scope) (cs : Forest) :
    s.routesOf cs = (Tree.nodesAll (Forest.bare cs)).flatMap s.routes := by
  rw [Forest.nodesAll_bare, List.flatMap_map]
  rfl

theorem mem_routesOf_of_reordered (h : Forest.Reordered cs ds) {r : Route} :
    r ∈ s.routesOf cs ↔ r ∈ s.routesOf ds := by
  rw [routesOf_eq, routesOf_eq]
  exact (h.shuffled.perm_nodesAll.flatMap_right s.routes).mem_iff

theorem exists_compile_of_reordered (h : Forest.Reordered cs ds) :
    (∃ sel, s.compile cs = .ok sel) ↔ ∃ sel, s.compile ds = .ok sel := by
  have hplans (cs : Forest) : (∀ c ∈ Forest.nodes cs, ∃ f, (s.plan c).condition = .ok f) ↔
      ∀ c ∈ Tree.nodesAll (Forest.bare cs), ∃ f, (s.plan c).condition = .ok f := by
    simp only [Forest.nodesAll_bare, List.forall_mem_map, plan_alone]
  rw [exists_compile_iff, exists_compile_iff, hplans, hplans]
  exact forall_congr' fun c => by rw [h.shuffled.perm_nodesAll.mem_iff]

section Rows
variable {κ : Type} {e : Engine κ} {db : Tables κ} {row : Row κ} {ρ : Option Route → Row κ}

theorem truth_eq (cs : Forest) : s.truth e db ρ cs =
    Junction.all.fold
      (Tree.formulas (fun c => s.ownTruth e db c (ρ (s.instanceOf c))) (Forest.bare cs)) := by
  rw [Forest.bare, Tree.formulas_mapAll]
  rfl

theorem truth_of_reordered (h : Forest.Reordered cs ds) :
    s.truth e db ρ cs = s.truth e db ρ ds := by
  rw [truth_eq, truth_eq, h.shuffled.fold_formulas]

theorem satisfies_of_reordered (h : Forest.Reordered cs ds) :
    s.Satisfies e db ρ cs row ↔ s.Satisfies e db ρ ds row := by
  constructor
  · rintro ⟨hrow, hfits, htruth⟩
    refine ⟨hrow, fun r hr => hfits r ((mem_routesOf_of_reordered h).mpr hr), ?_⟩
    rwa [← truth_of_reordered h]
  · rintro ⟨hrow, hfits, htruth⟩
    refine ⟨hrow, fun r hr => hfits r ((mem_routesOf_of_reordered h).mp hr), ?_⟩
    rwa [truth_of_reordered h]

theorem selects_of_reordered (h : Forest.Reordered cs ds) {sel sel' : Selection}
    (hcs : s.compile cs = .ok sel) (hds : s.compile ds = .ok sel')
    (hroot : s.root.table ∉ sel.names) (hroot' : s.root.table ∉ sel'.names) :
    sel.Selects e db s.root.table row ↔ sel'.Selects e db s.root.table row := by
  rw [selects_iff hcs hroot, selects_iff hds hroot']
  simp only [satisfies_of_reordered h]

end Rows
end Scope

section Places

/-- The instance at a place among joins made for the routes `rs`. -/
def Route.at (rs : List Route) : Place → Option Route
  | 0 => none
  | n + 1 => rs[n]?

theorem Route.at_place {rs : List Route} {a : Option Route} (ha : ∀ r ∈ a, r ∈ rs) :
    Route.at rs (place rs a) = a := by
  cases a with
  | none => rfl
  | some r =>
    have hlt := List.idxOf_lt_length_of_mem (ha r rfl)
    rw [place, Route.at, List.getElem?_eq_getElem hlt, List.getElem_idxOf]

theorem Route.place_at {rs : List Route} (h : rs.Nodup) {n : Place} (hn : n ≤ rs.length) :
    place rs (Route.at rs n) = n := by
  cases n with
  | zero => rfl
  | succ n =>
    have hlt : n < rs.length := hn
    rw [Route.at, List.getElem?_eq_getElem hlt, place, h.idxOf_getElem n hlt]

theorem Route.place_le {rs : List Route} {a : Option Route} (ha : ∀ r ∈ a, r ∈ rs) :
    place rs a ≤ rs.length := by
  cases a with
  | none => exact Nat.zero_le _
  | some r => exact List.idxOf_lt_length_of_mem (ha r rfl)

theorem Route.mem_of_mem_at {rs : List Route} {n : Place} {r : Route} (h : r ∈ Route.at rs n) :
    r ∈ rs := by
  cases n with
  | zero => simp [Route.at] at h
  | succ n => exact List.mem_of_getElem? h

/-- Where the instance at a place is found among joins made for the routes `rs'`. -/
def Route.move (rs rs' : List Route) (n : Place) : Place := place rs' (Route.at rs n)

theorem Route.injOn_move {rs rs' : List Route} (h : rs.Nodup) (hsub : rs ⊆ rs') :
    Set.InjOn (move rs rs') {n | n ≤ rs.length} := by
  intro m hm n hn hmn
  have hat : Route.at rs m = Route.at rs n := place_inj (fun r hr => hsub (mem_of_mem_at hr)) hmn
  rw [← place_at h hm, hat, place_at h hn]

/-- An entry whose places are renumbered, with the names of these places in another table. -/
def JoinEntry.renumber (root : String) (t : JoinTable) (π : Place → Place) (e : JoinEntry) :
    JoinEntry :=
  { e with join :=
    { e.join with
      id := π e.join.id
      parent := π e.join.parent
      parentName := t.nameAt root (π e.join.parent)
      name := t.nameAt root (π e.join.id) } }

theorem Scope.Rooted.perm_entries {s : Scope} {rs rs' : List Route} (h : s.Rooted rs)
    (hperm : rs.Perm rs') (root : String) :
    ((JoinTable.ofRoutes root rs).entries.map
        (JoinEntry.renumber root (.ofRoutes root rs') (Route.move rs rs'))).Perm
      (JoinTable.ofRoutes root rs').entries := by
  have hentry : ∀ r ∈ rs, JoinEntry.renumber root (.ofRoutes root rs') (Route.move rs rs')
      (Route.entry root rs r) = Route.entry root rs' r := by
    intro r hr
    have hself : ∀ p ∈ some r, p ∈ rs := by simpa using hr
    have hparent := h.parent_mem hr
    have hself' : ∀ p ∈ some r, p ∈ rs' := fun p hp => hperm.subset (hself p hp)
    have hparent' : ∀ p ∈ r.parent, p ∈ rs' := fun p hp => hperm.subset (hparent p hp)
    simp only [JoinEntry.renumber, Route.entry, Route.move, Route.at_place hself,
      Route.at_place hparent, JoinTable.nameAt_ofRoutes hself', JoinTable.nameAt_ofRoutes hparent']
  have hentries : (JoinTable.ofRoutes root rs).entries = rs.map (Route.entry root rs) := rfl
  rw [hentries, List.map_map]
  have hmap := List.map_congr_left hentry
  rw [Function.comp_def, hmap]
  exact hperm.map (Route.entry root rs')

end Places

/-- A test of the instance at a place; `number` is that of its sub-query, 0 where it makes none. -/
structure NumberedTest where
  test : OwnTest
  place : Place
  number : Nat

namespace NumberedTest

def condition (root : String) (joins : List Join) (t : NumberedTest) : Condition :=
  t.test.condition (Join.nameAt root joins t.place) t.number

def renumber (π : Place → Place) (σ : Nat → Nat) (t : NumberedTest) : NumberedTest :=
  ⟨t.test, π t.place, σ t.number⟩

/-- The instance and the sub-query are among those that a pass has made. -/
def Within (p : Pass) (t : NumberedTest) : Prop :=
  t.place ≤ p.joins.size ∧ t.number ≤ p.subqueries

end NumberedTest

namespace Selection

/-- The selection that tests in a tree spell over joins. -/
def ofTests (root : String) (joins : List Join) (ts : List (Tree NumberedTest)) : Selection :=
  ⟨Tree.compose .all (Tree.mapAll (NumberedTest.condition root joins) ts), joins⟩

/-- The value of the condition; without one every row passes. -/
def value {α : Type} [Lattice α] [BoundedOrder α] (v : Predicate → α) (sel : Selection) : α :=
  sel.condition.elim ⊤ (Condition.value v)

theorem value_ofTests {α : Type} [Lattice α] [BoundedOrder α] (v : Predicate → α) (root : String)
    (joins : List Join) (ts : List (Tree NumberedTest)) :
    (ofTests root joins ts).value v =
      Junction.all.fold (Tree.formulas (Condition.value v ∘ NumberedTest.condition root joins) ts) := by
  rw [← Tree.formulas_mapAll, value, ofTests]
  cases h : Tree.mapAll (NumberedTest.condition root joins) ts with
  | nil => rfl
  | cons t us =>
    rw [Tree.compose, Option.elim_some, Condition.value_gather, Tree.map_value_conditions]

end Selection

namespace Scope
variable {s : Scope} {cs ds : Forest}

theorem exists_ownTests (s : Scope) : ∃ own : Criterion → OwnTest, ∀ c f,
    (s.plan c).condition = .ok f → f = (own c).condition := by
  have h (c : Criterion) : ∃ o : OwnTest, ∀ f, (s.plan c).condition = .ok f → f = o.condition := by
    cases hc : (s.plan c).condition with
    | error e => exact ⟨.settled true, by simp⟩
    | ok f =>
      obtain ⟨o, rfl⟩ := exists_ownTest hc
      exact ⟨o, fun g hg => (Except.ok.inj hg).symm⟩
  choose own hown using h
  exact ⟨own, hown⟩

/-- Where no number is taken none is used. -/
theorem condition_of_unnumbered {c : Criterion} {f : String → Nat → Condition}
    (h : (s.plan c).condition = .ok f) (hnumbered : (s.plan c).numbered = false) (table : String)
    (m n : Nat) : f table m = f table n := by
  obtain ⟨o, rfl, ⟨-, hfield⟩ | ⟨-, habsence⟩⟩ := plan_cases h
  · cases o with
    | noneRelated r test =>
      have := hfield.collection?_eq
      simp [OwnTest.collection?] at this
    | _ => rfl
  · simp [habsence.numbered_eq] at hnumbered

/-- How many criteria of a forest take a number for a sub-query. -/
def subqueriesOf (s : Scope) (cs : Forest) : Nat :=
  Tree.count (fun c => (s.plan c).numbered) (Forest.bare cs)

/-- The tests of a forest, each with its instance's place when joins were made for the routes `rs`;
sub-queries are numbered in pre-order, from the one after `n` on. -/
def tests (s : Scope) (own : Criterion → OwnTest) (rs : List Route) (n : Nat) (cs : Forest) :
    List (Tree NumberedTest) :=
  Tree.mapAll (fun x => ⟨own x.1, Route.place rs (s.instanceOf x.1), x.2⟩)
    (Tree.numberAll (fun c => (s.plan c).numbered) n (Forest.bare cs))

theorem tests_cons {own : Criterion → OwnTest} {rs : List Route} {n first : Nat} {c : Criterion}
    (hfirst : first = n + if (s.plan c).numbered then 1 else 0) :
    s.tests own rs n (c :: cs) =
      .node ⟨own c.alone, Route.place rs (s.instanceOf c), if (s.plan c).numbered then first else 0⟩
          (s.tests own rs first c.allOf) (s.tests own rs (first + s.subqueriesOf c.allOf) c.anyOf) ::
        s.tests own rs (first + s.subqueriesOf c.allOf + s.subqueriesOf c.anyOf) cs := by
  have hnext : n + (Tree.node c.alone (Forest.bare c.allOf) (Forest.bare c.anyOf)).nodes.countP
      (fun c => (s.plan c).numbered) =
        first + s.subqueriesOf c.allOf + s.subqueriesOf c.anyOf := by
    rw [Tree.countP_nodes, plan_alone, hfirst, subqueriesOf, subqueriesOf]
    omega
  rw [tests, Forest.bare_cons, Tree.numberAll, hnext, Tree.number, plan_alone, ← hfirst]
  rfl

theorem subqueriesOf_cons (c : Criterion) (cs : Forest) :
    s.subqueriesOf (c :: cs) = (if (s.plan c).numbered then 1 else 0) + s.subqueriesOf c.allOf +
      s.subqueriesOf c.anyOf + s.subqueriesOf cs := by
  rw [subqueriesOf, Forest.bare_cons, Tree.count_cons, Tree.countP_nodes, plan_alone]
  rfl

theorem Traverses.subqueries_eq {ts : List (Tree Condition)} {p p' : Pass}
    (h : s.Traverses cs p ts p') : p'.subqueries = p.subqueries + s.subqueriesOf cs := by
  induction h with
  | nil => rfl
  | @cons c cs own allOf anyOf ts p p₁ p₂ p₃ p₄ hown _ _ _ ihAll ihAny ihRest =>
    obtain ⟨rfl, -⟩ := leaf_eq_ok_iff.mp hown
    have hself : (s.after c p).subqueries =
        p.subqueries + if (s.plan c).numbered then 1 else 0 := rfl
    rw [ihRest, ihAny, ihAll, subqueriesOf_cons, hself]
    omega

/-- The conditions that criteria get themselves are their tests; places keep their names once they
are given. -/
theorem Traverses.eq_tests {own : Criterion → OwnTest}
    (htests : ∀ c f, (s.plan c).condition = .ok f → f = (own c).condition)
    {ts : List (Tree Condition)} {p p' : Pass} (h : s.Traverses cs p ts p') {rs final : List Route}
    (hrs : s.Rooted rs) (hp : p.joins = .ofRoutes s.root.table rs)
    (hfinal : Route.noteAll rs (s.routesOf cs) <+: final) :
    ts = Tree.mapAll
      (NumberedTest.condition s.root.table (JoinTable.ofRoutes s.root.table final).joins)
      (s.tests own final p.subqueries cs) := by
  induction h generalizing rs with
  | nil => rfl
  | @cons c cs own' allOf anyOf ts p p₁ p₂ p₃ p₄ hown hAll hAny _ ihAll ihAny ihRest =>
    obtain ⟨rfl, f, hf, rfl⟩ := leaf_eq_ok_iff.mp hown
    rw [routesOf_cons, Route.noteAll_append, Route.noteAll_append, Route.noteAll_append] at hfinal
    obtain ⟨-, hrs₁, hmem⟩ := follow_plan hrs c
    have hjoins₁ := joins_after hrs c hp
    obtain ⟨hjoins₂, hrs₂⟩ := hAll.joins_eq hrs₁ hjoins₁
    obtain ⟨hjoins₃, hrs₃⟩ := hAny.joins_eq hrs₂ hjoins₂
    have hfinal₃ := (Route.prefix_noteAll _ _).trans hfinal
    have hfinal₂ := (Route.prefix_noteAll _ _).trans hfinal₃
    have hfinal₁ := (Route.prefix_noteAll _ _).trans hfinal₂
    have hname : s.instanceName c p = Join.nameAt s.root.table
        (JoinTable.ofRoutes s.root.table final).joins (Route.place final (s.instanceOf c)) := by
      rw [instanceName_eq hrs c hp, ← JoinTable.nameAt_eq,
        JoinTable.nameAt_ofRoutes fun r hr => hfinal₁.subset (hmem r hr),
        Route.name_of_prefix hfinal₁ hmem]
    have hsubqueries : (s.after c p).subqueries =
        p.subqueries + if (s.plan c).numbered then 1 else 0 := rfl
    have hself : f (s.instanceName c p) (s.after c p).subqueries =
        f (s.instanceName c p) (if (s.plan c).numbered then (s.after c p).subqueries else 0) := by
      split_ifs with hnumbered
      · rfl
      · exact condition_of_unnumbered hf (by simpa using hnumbered) _ _ _
    have hcondition : f = (own c.alone).condition := htests c.alone f hf
    rw [tests_cons hsubqueries, Tree.mapAll, Tree.map, ← hAll.subqueries_eq, ← hAny.subqueries_eq,
      ← ihAll hrs₁ hjoins₁ hfinal₂, ← ihAny hrs₂ hjoins₂ hfinal₃, ← ihRest hrs₃ hjoins₃ hfinal,
      hself, hname, hcondition]
    rfl

/-- A selection spelled by the numbered tests of a forest over joins for its routes. -/
structure SpelledBy (s : Scope) (own : Criterion → OwnTest) (rs : List Route) (cs : Forest)
    (sel : Selection) (p : Pass) : Prop where
  compose_eq : s.compose .all cs .empty = (.ok sel.condition, p)
  joins_eq : p.joins = .ofRoutes s.root.table rs
  subqueries_eq : p.subqueries = s.subqueriesOf cs
  rooted : s.Rooted rs
  mem_iff : ∀ r, r ∈ rs ↔ r ∈ s.routesOf cs
  sel_eq : sel = .ofTests s.root.table p.joins.joins (s.tests own rs 0 cs)

theorem exists_spelledBy {own : Criterion → OwnTest}
    (htests : ∀ c f, (s.plan c).condition = .ok f → f = (own c).condition) {sel : Selection}
    (h : s.compile cs = .ok sel) : ∃ rs p, s.SpelledBy own rs cs sel p := by
  obtain ⟨ts, p, hts, rfl⟩ := compile_eq_ok_iff.mp h
  obtain ⟨hjoins, hrooted⟩ := hts.joins_eq .nil rfl
  have hspelled := hts.eq_tests htests .nil rfl List.prefix_rfl
  refine ⟨_, p, compose_eq_ok_iff.mpr ⟨ts, hts, rfl⟩, hjoins, ?_, hrooted, ?_, ?_⟩
  · rw [hts.subqueries_eq]
    exact Nat.zero_add _
  · exact fun r => by simp [Route.mem_noteAll]
  · rw [Selection.ofTests, hjoins]
    congr 2

end Scope

/-- One pass gives joins and sub-queries other numbers than another one, and that is all. -/
structure Pass.Renumbers (root : String) (p p' : Pass) (π : Place → Place)
    (σ : Equiv.Perm Nat) : Prop where
  root_eq : π 0 = 0
  injOn : Set.InjOn π {n | n ≤ p.joins.size}
  joins : (p.joins.entries.map (JoinEntry.renumber root p'.joins π)).Perm p'.joins.entries
  subqueries_eq : p'.subqueries = p.subqueries
  moves : Tree.MovesWithin σ 0 p.subqueries

namespace Scope
variable {s : Scope} {cs ds : Forest}

theorem instanceOf_mem {rs : List Route} (hmem : ∀ r, r ∈ rs ↔ r ∈ s.routesOf cs) {c : Criterion}
    (hc : c ∈ Tree.nodesAll (Forest.bare cs)) : ∀ r ∈ s.instanceOf c, r ∈ rs := by
  intro r hr
  rw [hmem, routesOf_eq]
  exact List.mem_flatMap.mpr ⟨c, hc, mem_routes_of_mem_instanceOf hr⟩

theorem renumber_tests {own : Criterion → OwnTest} {rs rs' : List Route}
    (hmem : ∀ r, r ∈ rs ↔ r ∈ s.routesOf cs) (σ : Nat → Nat) (n : Nat) :
    Tree.mapAll (NumberedTest.renumber (Route.move rs rs') σ) (s.tests own rs n cs) =
      Tree.mapAll (fun x => ⟨own x.1, Route.place rs' (s.instanceOf x.1), x.2⟩)
        (Tree.mapAll (Prod.map id σ)
          (Tree.numberAll (fun c => (s.plan c).numbered) n (Forest.bare cs))) := by
  rw [tests, Tree.mapAll_mapAll, Tree.mapAll_mapAll]
  apply Tree.mapAll_congr
  rintro ⟨c, x⟩ hx
  have hc : c ∈ Tree.nodesAll (Forest.bare cs) := Tree.fst_mem_of_mem_numberAll _ hx
  simp only [Function.comp_apply, NumberedTest.renumber, Route.move,
    Route.at_place (instanceOf_mem hmem hc), Prod.map_apply, id]

section Spelled
variable {own : Criterion → OwnTest} {rs rs' : List Route} {sel sel' : Selection} {p p' : Pass}

theorem SpelledBy.size_eq (h : s.SpelledBy own rs cs sel p) : p.joins.size = rs.length := by
  rw [h.joins_eq, JoinTable.size_ofRoutes]

theorem SpelledBy.length_joins (h : s.SpelledBy own rs cs sel p) :
    sel.joins.length = rs.length := by
  rw [h.sel_eq, Selection.ofTests, h.joins_eq, JoinTable.joins_ofRoutes, List.length_map]

theorem SpelledBy.within (h : s.SpelledBy own rs cs sel p) :
    ∀ t ∈ Tree.nodesAll (s.tests own rs 0 cs), t.Within p := by
  intro t ht
  rw [tests, Tree.nodesAll_mapAll] at ht
  obtain ⟨⟨c, n⟩, hx, rfl⟩ := List.mem_map.mp ht
  have hc := Tree.fst_mem_of_mem_numberAll _ hx
  refine ⟨?_, ?_⟩
  · rw [h.size_eq]
    exact Route.place_le (instanceOf_mem h.mem_iff hc)
  · by_cases hn : n = 0
    · simp [hn]
    · have := (Tree.numberAll_nodes 0 _ _ hx hn).2
      rw [h.subqueries_eq]
      rwa [Nat.zero_add] at this

theorem SpelledBy.perm_routes (h : Forest.Reordered cs ds) (hcs : s.SpelledBy own rs cs sel p)
    (hds : s.SpelledBy own rs' ds sel' p') : rs.Perm rs' := by
  rw [List.perm_ext_iff_of_nodup hcs.rooted.nodup hds.rooted.nodup]
  intro r
  rw [hcs.mem_iff, hds.mem_iff, mem_routesOf_of_reordered h]

theorem SpelledBy.renumbers (h : Forest.Reordered cs ds) (hcs : s.SpelledBy own rs cs sel p)
    (hds : s.SpelledBy own rs' ds sel' p') {σ : Equiv.Perm Nat}
    (hσ : Tree.MovesWithin σ 0 p.subqueries) :
    p.Renumbers s.root.table p' (Route.move rs rs') σ := by
  have hperm := hcs.perm_routes h hds
  refine ⟨rfl, ?_, ?_, ?_, hσ⟩
  · rw [hcs.size_eq]
    exact Route.injOn_move hcs.rooted.nodup hperm.subset
  · rw [hcs.joins_eq, hds.joins_eq]
    exact hcs.rooted.perm_entries hperm s.root.table
  · rw [hcs.subqueries_eq, hds.subqueries_eq, subqueriesOf, subqueriesOf,
      h.shuffled.count_eq]

end Spelled

/-- Forests that differ in the order of siblings compile alike, with as many joins. The joins of the
one are those of the other, and its condition is equivalent to the other one's, up to the numbers
that joins and sub-queries get; so they select the same rows. -/
theorem reordered_equivalent (s : Scope) (cs ds : Forest) (h : Forest.Reordered cs ds) :
    ((∃ sel, s.compile cs = .ok sel) ↔ ∃ sel, s.compile ds = .ok sel) ∧
    ∀ sel sel', s.compile cs = .ok sel → s.compile ds = .ok sel' →
      sel'.joins.length = sel.joins.length ∧
      (∃ (p p' : Pass) (π : Place → Place) (σ : Equiv.Perm Nat), p.Renumbers s.root.table p' π σ ∧
        s.compose .all cs .empty = (.ok sel.condition, p) ∧ sel.joins = p.joins.joins ∧
        s.compose .all ds .empty = (.ok sel'.condition, p') ∧ sel'.joins = p'.joins.joins ∧
        ∃ ts, (∀ t ∈ Tree.nodesAll ts, t.Within p) ∧
          sel = .ofTests s.root.table sel.joins ts ∧
          ∀ {α : Type} [Lattice α] [BoundedOrder α] (v : Predicate → α), sel'.value v =
            (Selection.ofTests s.root.table sel'.joins
              (Tree.mapAll (NumberedTest.renumber π σ) ts)).value v) ∧
      (s.root.table ∉ sel.names → s.root.table ∉ sel'.names →
        ∀ {κ : Type} (e : Engine κ) (db : Tables κ) (row : Row κ),
          sel.Selects e db s.root.table row ↔ sel'.Selects e db s.root.table row) := by
  refine ⟨exists_compile_of_reordered h, ?_⟩
  intro sel sel' hsel hsel'
  obtain ⟨own, htests⟩ := s.exists_ownTests
  obtain ⟨rs, p, hcs⟩ := exists_spelledBy htests hsel
  obtain ⟨rs', p', hds⟩ := exists_spelledBy htests hsel'
  obtain ⟨σ, hσ, hshuffled⟩ :=
    h.shuffled.exists_renumber (p := fun c => (s.plan c).numbered) 0
  have hmoves : Tree.MovesWithin σ 0 p.subqueries := by
    rw [hcs.subqueries_eq]
    rwa [Nat.zero_add] at hσ
  have hjoins : sel.joins = p.joins.joins := by rw [hcs.sel_eq]; rfl
  have hjoins' : sel'.joins = p'.joins.joins := by rw [hds.sel_eq]; rfl
  refine ⟨?_, ⟨p, p', Route.move rs rs', σ, hcs.renumbers h hds hmoves, hcs.compose_eq, hjoins,
    hds.compose_eq, hjoins', s.tests own rs 0 cs, hcs.within, hjoins ▸ hcs.sel_eq, ?_⟩, ?_⟩
  · rw [hcs.length_joins, hds.length_joins, (hcs.perm_routes h hds).length_eq]
  · intro α _ _ v
    rw [hjoins', renumber_tests hcs.mem_iff, hds.sel_eq, Selection.value_ofTests,
      Selection.value_ofTests, tests]
    exact ((hshuffled.mapAll _).fold_formulas _ .all).symm
  · intro hroot hroot' κ e db row
    exact selects_of_reordered h hsel hsel' hroot hroot'

end Scope

/-- The joins and the two sub-queries get other numbers in the other order. -/
theorem reordered_equivalent_leagues :
    let cs : Forest := [{ totalAbove with allOf := [titleLike, noRelatedTitle] },
      { noRelatedTitle with label := some "own" }]
    let ds : Forest := [{ noRelatedTitle with label := some "own" },
      { totalAbove with allOf := [noRelatedTitle, titleLike] }]
    Forest.Reordered cs ds ∧
      ∃ sel sel', leagueScope.compile cs = .ok sel ∧ leagueScope.compile ds = .ok sel' ∧
        sel.names = ["scores_1", "league_2", "scores_3", "league_sub1", "league_sub2"] ∧
        sel'.names = ["scores_1", "scores_2", "league_3", "league_sub1", "league_sub2"] ∧
        ∀ (db : Tables String) (row : Row String),
          sel.Selects .texts db "players" row ↔ sel'.Selects .texts db "players" row := by
  intro cs ds
  have h : Forest.Reordered cs ds := by
    refine .trans (.swap _ _ _) ?_
    refine .cons (c := { noRelatedTitle with label := some "own" }) (.refl _) (.refl _) ?_
    exact .cons (.of_perm (.swap _ _ _)) (.refl _) .nil
  obtain ⟨-, hpair⟩ := leagueScope.reordered_equivalent cs ds h
  obtain ⟨-, -, hrows⟩ := hpair _ _ rfl rfl
  refine ⟨h, _, _, rfl, rfl, by decide, by decide, ?_⟩
  exact hrows (by decide) (by decide) .texts

end EntitySearch
