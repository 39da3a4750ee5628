import EntitySearch.Proofs.OwnTest
import EntitySearch.Proofs.Route
import Mathlib.Data.List.Perm.Subperm
/-!
The rows that a forest selects, said without names. A compiled forest gives a row to every route
that its criteria ask for; the names that compiling makes up are only a way to write that down, as
long as none of them is the name of the root table.
-/
namespace EntitySearch
open Sql

section Names

theorem Scope.predicates_refine (j : Junction) (own : Condition) (parts : List Condition) :
    (refine j own parts).predicates = own.predicates ++ parts.flatMap Condition.predicates := by
  cases parts <;> simp [refine]

mutual
/-- The composed condition makes the tests of its criteria and no others. -/
theorem Tree.predicates_condition : (t : Tree Condition) →
    t.condition.predicates = t.nodes.flatMap Condition.predicates
  | .node own allOf anyOf => by
    rw [Tree.condition, Tree.nodes, Scope.predicates_refine, Scope.predicates_refine,
      Tree.predicates_conditions allOf, Tree.predicates_conditions anyOf, List.flatMap_cons,
      List.flatMap_append, List.append_assoc]
theorem Tree.predicates_conditions : (ts : List (Tree Condition)) →
    (Tree.conditions ts).flatMap Condition.predicates =
      (Tree.nodesAll ts).flatMap Condition.predicates
  | [] => rfl
  | t :: ts => by
    rw [Tree.conditions, Tree.nodesAll, List.flatMap_cons, List.flatMap_append,
      Tree.predicates_condition t, Tree.predicates_conditions ts]
end

/-- A sub-query's name in a criterion's own condition is a name that the selection gives. -/
theorem Selection.mem_names_of_own {ts : List (Tree Condition)} {j : Junction} {joins : List Join}
    {own : Condition} {x : String} (hown : own ∈ Tree.nodesAll ts) (hx : x ∈ own.subqueryNames) :
    x ∈ (Selection.mk (Tree.compose j ts) joins).names := by
  obtain ⟨p, hp, hname⟩ := List.mem_filterMap.mp hx
  cases ts with
  | nil => simp [Tree.nodesAll] at hown
  | cons t ts =>
    apply List.mem_append_right
    refine List.mem_filterMap.mpr ⟨p, ?_, hname⟩
    rw [Condition.predicates_gather, Tree.predicates_conditions]
    exact List.mem_flatMap.mpr ⟨own, hown, hp⟩

end Names

section Rows
variable {κ : Type} (e : Engine κ) (db : Tables κ) (ρ : Option Route → Row κ)

/-- The row of a route is one of its table and linked to the row that the last hop starts from. -/
def Route.Fits (r : Route) : Prop :=
  ρ (some r) ∈ db r.hop.target.table ∧
    e.linked (ρ r.parent r.hop.relationship.source)
      (ρ (some r) r.hop.relationship.destination) = .yes

/-- The truth of a forest, whose criteria must all hold, where every route has a row. -/
def Scope.truth (s : Scope) (cs : Forest) : Truth :=
  Junction.all.fold
    (Tree.formulas (fun c => s.ownTruth e db c (ρ (s.instanceOf c))) (Forest.trees cs))

theorem Scope.truth_append (s : Scope) (cs ds : Forest) :
    s.truth e db ρ (cs ++ ds) = s.truth e db ρ cs ⊓ s.truth e db ρ ds := by
  rw [truth, truth, truth, Forest.trees_append, Tree.formulas_append, Junction.fold_all_append]

/-- Rows for the root and for the routes of a forest under which the forest holds of a root row. -/
structure Scope.Satisfies (s : Scope) (cs : Forest) (row : Row κ) : Prop where
  root_eq : ρ none = row
  fits : ∀ r ∈ s.routesOf cs, r.Fits e db ρ
  truth_eq : s.truth e db ρ cs = .yes

end Rows

section Agreement
variable {s : Scope} {κ : Type} {e : Engine κ} {db : Tables κ} {ρ ρ' : Option Route → Row κ}

theorem Route.fits_congr {r : Route} (hparent : ρ r.parent = ρ' r.parent)
    (hr : ρ (some r) = ρ' (some r)) : r.Fits e db ρ ↔ r.Fits e db ρ' := by
  rw [Fits, Fits, hparent, hr]

theorem Route.forall_fits_congr {rs : List Route} (hrs : s.Rooted rs)
    (h : ∀ a : Option Route, (∀ r ∈ a, r ∈ rs) → ρ a = ρ' a) :
    (∀ r ∈ rs, r.Fits e db ρ) ↔ ∀ r ∈ rs, r.Fits e db ρ' := by
  apply forall₂_congr
  intro r hr
  exact fits_congr (h r.parent (hrs.parent_mem hr)) (h (some r) (by simpa using hr))

/-- Only the rows of the root and of its own routes make a forest true. -/
theorem Scope.truth_congr {cs : Forest}
    (h : ∀ a : Option Route, (∀ r ∈ a, r ∈ s.routesOf cs) → ρ a = ρ' a) :
    s.truth e db ρ cs = s.truth e db ρ' cs := by
  unfold truth
  rw [Tree.formulas_congr]
  intro c hc
  have hmem : ∀ r ∈ s.instanceOf c, r ∈ s.routesOf cs := fun r hr =>
    List.mem_flatMap.mpr ⟨c, hc, mem_routes_of_mem_instanceOf hr⟩
  rw [h (s.instanceOf c) hmem]

end Agreement

/-- The joins of a selection are found among those of another one under other names. -/
structure Selection.Embeds (sel sel' : Selection) (root : String) (μ : String → String) : Prop where
  root_eq : μ root = root
  joins : ∀ j ∈ sel.joins, ∃ j' ∈ sel'.joins, j'.name = μ j.name ∧ j'.parentName = μ j.parentName ∧
    j'.relationship = j.relationship ∧ j'.table = j.table
  inj : ∀ i ∈ sel.joins, ∀ j ∈ sel.joins, μ i.name = μ j.name → i = j

namespace Scope
variable {s : Scope} {κ : Type} {e : Engine κ} {db : Tables κ}

theorem name_notMem_subqueryNames {c : Criterion} {f : String → Nat → Condition} {table : String}
    {n : Nat} (h : (s.plan c).condition = .ok f)
    (hroot : s.root.table ∉ (f table n).subqueryNames) (rs : List Route) (a : Option Route) :
    Route.name s.root.table rs a ∉ (f table n).subqueryNames := by
  cases a with
  | none => exact hroot
  | some r =>
    obtain ⟨o, rfl⟩ := exists_ownTest h
    intro hmem
    obtain ⟨name, hname⟩ := o.subqueryNames_condition hmem
    exact numbered_ne_sub hname

/-- The conditions that criteria get themselves have the truth of the criteria, each at the row of
the instance that it tests; names do not change any more once they are given. -/
theorem Traverses.formulas_eq {cs : List Criterion} {ts : List (Tree Condition)} {p p' : Pass}
    (h : s.Traverses cs p ts p') {rs final : List Route} (hrs : s.Rooted rs)
    (hp : p.joins = .ofRoutes s.root.table rs)
    (hfinal : Route.noteAll rs (s.routesOf cs) <+: final)
    (hroot : ∀ own ∈ Tree.nodesAll ts, s.root.table ∉ own.subqueryNames) (e : Engine κ)
    (db : Tables κ) (a : String → Row κ) :
    Tree.formulas (Condition.value (Predicate.truth e db a)) ts =
      Tree.formulas (fun c => s.ownTruth e db c (a (Route.name s.root.table final (s.instanceOf c))))
        (Forest.trees cs) := by
  induction h generalizing rs with
  | nil => rfl
  | @cons c cs own allOf anyOf ts p p₁ p₂ p₃ p₄ hown hAll hAny _ ihAll ihAny ihRest =>
    obtain ⟨rfl, f, hf, rfl⟩ := leaf_eq_ok_iff.mp hown
    rw [routesOf_cons, Route.noteAll_append, Route.noteAll_append, Route.noteAll_append] at hfinal
    obtain ⟨-, hrs₁, hmem⟩ := follow_plan hrs c
    have hjoins₁ := joins_after hrs c hp
    obtain ⟨hjoins₂, hrs₂⟩ := hAll.joins_eq hrs₁ hjoins₁
    obtain ⟨hjoins₃, hrs₃⟩ := hAny.joins_eq hrs₂ hjoins₂
    -- every stage's routes are a prefix of the final ones, so the names given at it stay
    have hfinal₃ := (Route.prefix_noteAll _ _).trans hfinal
    have hfinal₂ := (Route.prefix_noteAll _ _).trans hfinal₃
    have hfinal₁ := (Route.prefix_noteAll _ _).trans hfinal₂
    have hname : s.instanceName c p = Route.name s.root.table final (s.instanceOf c) := by
      rw [instanceName_eq hrs c hp, Route.name_of_prefix hfinal₁ hmem]
    have hself : s.root.table ∉ (f (s.instanceName c p) (s.after c p).subqueries).subqueryNames :=
      hroot _ (by simp [Tree.nodesAll, Tree.nodes])
    have htable := name_notMem_subqueryNames hf hself final (s.instanceOf c)
    rw [← hname] at htable
    have howns := value_own e db (a := a) hf htable
    have ihAll' := ihAll hrs₁ hjoins₁ hfinal₂ fun own hmem => hroot own <| by
      simp [Tree.nodesAll, Tree.nodes, hmem]
    have ihAny' := ihAny hrs₂ hjoins₂ hfinal₃ fun own hmem => hroot own <| by
      simp [Tree.nodesAll, Tree.nodes, hmem]
    have ihRest' := ihRest hrs₃ hjoins₃ hfinal fun own hmem => hroot own <| by
      simp [Tree.nodesAll, hmem]
    obtain ⟨key, operation, operand, cAllOf, cAnyOf, label⟩ := c
    rw [Forest.trees, Criterion.tree, Tree.formulas, Tree.formulas, Tree.formula, Tree.formula,
      ihAll', ihAny', ihRest', howns, hname]

/-- A selection made for a forest: one join for every route that its criteria ask for, and a
condition that says of the rows at the routes what the forest says. -/
structure Realizes (s : Scope) (cs : Forest) (sel : Selection) (rs : List Route) : Prop where
  rooted : s.Rooted rs
  mem_iff : ∀ r, r ∈ rs ↔ r ∈ s.routesOf cs
  joins_eq : sel.joins = (JoinTable.ofRoutes s.root.table rs).joins
  holds_iff : s.root.table ∉ sel.names → ∀ {κ : Type} (e : Engine κ) (db : Tables κ)
    (a : String → Row κ),
    sel.Holds e db a ↔ s.truth e db (a ∘ Route.name s.root.table rs) cs = .yes

theorem exists_realizes {cs : Forest} {sel : Selection} (h : s.compile cs = .ok sel) :
    ∃ rs, s.Realizes cs sel rs := by
  obtain ⟨ts, p', hts, rfl⟩ := compile_eq_ok_iff.mp h
  obtain ⟨hjoins, hrooted⟩ := hts.joins_eq .nil rfl
  refine ⟨_, hrooted, fun r => by simp [Route.mem_noteAll], congrArg JoinTable.joins hjoins, ?_⟩
  intro hroot κ e db a
  have hformulas := hts.formulas_eq .nil rfl List.prefix_rfl
    (fun own hown hmem => hroot (Selection.mem_names_of_own hown hmem)) e db a
  rw [truth, Function.comp_def, ← hformulas, Tree.formulas_eq_map]
  cases hc : Tree.compose .all ts with
  | none =>
    obtain rfl := Tree.compose_eq_none_iff.mp hc
    simp [Selection.Holds, Truth.top_eq]
  | some c => simp [Selection.Holds, Tree.value_compose _ hc]

/-- The name among the routes `rs'` of the instance that has a name among the routes `rs`. -/
def rename (s : Scope) (rs rs' : List Route) (x : String) : String :=
  Route.name s.root.table rs' (Route.named s.root.table rs x)

namespace Realizes
variable {cs cs' : Forest} {sel sel' : Selection} {rs rs' : List Route}

theorem mem_joins_iff (h : s.Realizes cs sel rs) {j : Join} :
    j ∈ sel.joins ↔ ∃ r ∈ rs, (Route.entry s.root.table rs r).join = j := by
  rw [h.joins_eq, JoinTable.joins_ofRoutes, List.mem_map]

theorem length_joins (h : s.Realizes cs sel rs) : sel.joins.length = rs.length := by
  rw [h.joins_eq, JoinTable.joins_ofRoutes, List.length_map]

theorem name_ne_root (h : s.Realizes cs sel rs) (hroot : s.root.table ∉ sel.names) :
    ∀ r ∈ rs, Route.name s.root.table rs (some r) ≠ s.root.table := by
  intro r hr hname
  apply hroot
  apply List.mem_append_left
  exact List.mem_map.mpr ⟨_, h.mem_joins_iff.mpr ⟨r, hr, rfl⟩, hname⟩

theorem rename_name (h : s.Realizes cs sel rs) (hroot : s.root.table ∉ sel.names)
    (rs' : List Route) {a : Option Route} (ha : ∀ r ∈ a, r ∈ rs) :
    s.rename rs rs' (Route.name s.root.table rs a) = Route.name s.root.table rs' a := by
  rw [rename, Route.named_name (h.name_ne_root hroot) ha]

/-- A forest that asks for more routes makes the same joins and more. -/
theorem embeds (h : s.Realizes cs sel rs) (hroot : s.root.table ∉ sel.names)
    (h' : s.Realizes cs' sel' rs') (hsub : ∀ r ∈ rs, r ∈ rs') :
    sel.Embeds sel' s.root.table (s.rename rs rs') := by
  have hself {r : Route} (hr : r ∈ rs) : s.rename rs rs' (Route.name s.root.table rs (some r)) =
      Route.name s.root.table rs' (some r) := h.rename_name hroot rs' (by simpa using hr)
  refine ⟨h.rename_name hroot rs' (a := none) (by simp), ?_, ?_⟩
  · intro j hj
    obtain ⟨r, hr, rfl⟩ := h.mem_joins_iff.mp hj
    have hparent := h.rename_name hroot rs' (h.rooted.parent_mem hr)
    exact ⟨_, h'.mem_joins_iff.mpr ⟨r, hsub r hr, rfl⟩, (hself hr).symm, hparent.symm, rfl, rfl⟩
  · intro i hi j hj hij
    obtain ⟨r, hr, rfl⟩ := h.mem_joins_iff.mp hi
    obtain ⟨r', hr', rfl⟩ := h.mem_joins_iff.mp hj
    have hnames := (hself hr).symm.trans (hij.trans (hself hr'))
    rw [Route.name_inj (hsub r hr) hnames]

theorem mem_of_length_eq (h : s.Realizes cs sel rs) (h' : s.Realizes cs' sel' rs')
    (hsub : ∀ r ∈ rs, r ∈ rs') (hlength : sel'.joins.length = sel.joins.length) :
    ∀ r ∈ rs', r ∈ rs := by
  rw [h.length_joins, h'.length_joins] at hlength
  have hperm : rs.Perm rs' :=
    (List.subperm_of_subset h.rooted.nodup hsub).perm_of_length_le hlength.le
  intro r hr
  exact hperm.mem_iff.mpr hr

/-- Rows that agree at the names of joins, renamed, agree at the routes. -/
theorem agree (h : s.Realizes cs sel rs) (hroot : s.root.table ∉ sel.names) {a a' : String → Row κ}
    (hstart : a s.root.table = a' s.root.table)
    (hsame : ∀ j ∈ sel.joins, a' (s.rename rs rs' j.name) = a j.name) (o : Option Route)
    (ho : ∀ r ∈ o, r ∈ rs) :
    (a ∘ Route.name s.root.table rs) o = (a' ∘ Route.name s.root.table rs') o := by
  cases o with
  | none => exact hstart
  | some r =>
    have hj := hsame _ (h.mem_joins_iff.mpr ⟨r, ho r rfl, rfl⟩)
    rw [Function.comp_apply, Function.comp_apply, ← h.rename_name hroot rs' ho]
    exact hj.symm

/-- Joins fit the rows at the names just as the routes do that they were made for. -/
theorem joins_fit_iff (h : s.Realizes cs sel rs) {a : String → Row κ} :
    (∀ j ∈ sel.joins, j.Fits e db a) ↔
      ∀ r ∈ rs, r.Fits e db (a ∘ Route.name s.root.table rs) := by
  constructor
  · intro hfits r hr
    exact hfits _ (h.mem_joins_iff.mpr ⟨r, hr, rfl⟩)
  · intro hfits j hj
    obtain ⟨r, hr, rfl⟩ := h.mem_joins_iff.mp hj
    exact hfits r hr

/-- Naming the rows at the routes makes rows for a selection. -/
theorem satisfies_iff (h : s.Realizes cs sel rs) (hroot : s.root.table ∉ sel.names)
    {a : String → Row κ} {row : Row κ} :
    s.Satisfies e db (a ∘ Route.name s.root.table rs) cs row ↔
      sel.Fits e db a s.root.table row ∧ sel.Holds e db a := by
  have hfits : (∀ r ∈ s.routesOf cs, r.Fits e db (a ∘ Route.name s.root.table rs)) ↔
      ∀ j ∈ sel.joins, j.Fits e db a := by
    simp only [h.joins_fit_iff, h.mem_iff]
  constructor
  · rintro ⟨hrow, hroutes, htruth⟩
    exact ⟨⟨hrow, hfits.mp hroutes⟩, (h.holds_iff hroot e db a).mpr htruth⟩
  · rintro ⟨⟨hrow, hjoins⟩, hholds⟩
    exact ⟨hrow, hfits.mpr hjoins, (h.holds_iff hroot e db a).mp hholds⟩

end Realizes

theorem satisfies_append_iff {cs ds : Forest} {ρ : Option Route → Row κ} {row : Row κ} :
    s.Satisfies e db ρ (cs ++ ds) row ↔
      s.Satisfies e db ρ cs row ∧ s.Satisfies e db ρ ds row := by
  constructor
  · rintro ⟨hrow, hfits, htruth⟩
    rw [routesOf_append] at hfits
    rw [truth_append, Truth.inf_eq_yes] at htruth
    exact ⟨⟨hrow, fun r hr => hfits r (List.mem_append_left _ hr), htruth.1⟩,
      ⟨hrow, fun r hr => hfits r (List.mem_append_right _ hr), htruth.2⟩⟩
  · rintro ⟨⟨hrow, hfits, htruth⟩, ⟨-, hfits', htruth'⟩⟩
    refine ⟨hrow, ?_, ?_⟩
    · rw [routesOf_append]
      intro r hr
      exact (List.mem_append.mp hr).elim (hfits r) (hfits' r)
    · rw [truth_append, Truth.inf_eq_yes]
      exact ⟨htruth, htruth'⟩

/-- Rows that agree at the root and at the routes of a forest satisfy it alike. -/
theorem Satisfies.congr {cs : Forest} {rs : List Route} (hrs : s.Rooted rs)
    (hmem : ∀ r, r ∈ rs ↔ r ∈ s.routesOf cs) {ρ ρ' : Option Route → Row κ} {row : Row κ}
    (h : ∀ a : Option Route, (∀ r ∈ a, r ∈ rs) → ρ a = ρ' a) (hρ : s.Satisfies e db ρ cs row) :
    s.Satisfies e db ρ' cs row := by
  obtain ⟨hrow, hroutes, htruth⟩ := hρ
  refine ⟨?_, ?_, ?_⟩
  · rw [← h none (by simp), hrow]
  · have hfits := (Route.forall_fits_congr hrs h).mp fun r hr => hroutes r ((hmem r).mp hr)
    exact fun r hr => hfits r ((hmem r).mpr hr)
  · rw [← truth_congr fun a ha => h a fun r hr => (hmem r).mpr (ha r hr), htruth]

/-- A root row is selected exactly if rows for the routes make the forest true of it. -/
theorem selects_iff {cs : Forest} {sel : Selection} (h : s.compile cs = .ok sel)
    (hroot : s.root.table ∉ sel.names) {row : Row κ} :
    sel.Selects e db s.root.table row ↔
      row ∈ db s.root.table ∧ ∃ ρ, s.Satisfies e db ρ cs row := by
  obtain ⟨rs, hrs⟩ := exists_realizes h
  apply and_congr_right'
  constructor
  · rintro ⟨a, ha⟩
    exact ⟨_, (hrs.satisfies_iff hroot).mpr ha⟩
  · rintro ⟨ρ, hρ⟩
    refine ⟨fun x => ρ (Route.named s.root.table rs x), (hrs.satisfies_iff hroot).mp ?_⟩
    -- beyond the routes of the forest the rows at the names are not those of `ρ`
    apply hρ.congr hrs.rooted hrs.mem_iff
    intro a ha
    rw [Function.comp_apply, Route.named_name (hrs.name_ne_root hroot) ha]

end Scope
end EntitySearch
