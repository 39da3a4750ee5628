import EntitySearch.Proofs.OwnTest
import EntitySearch.Proofs.Route
import Mathlib.Data.List.Infix
import Mathlib.Data.List.Nodup
/-!
Table instances by their addresses: a label and the names of the relationships from the root. The
joins of a compiled forest are one for each address that its criteria use, in order of first use,
and criteria meet in one instance exactly if they have one address.
-/
namespace EntitySearch
open Sql

/-- The relationships that a key names on the way to the instance that a criterion tests. An
exclusion leaves the last one to its sub-query; a document is found in the root row. -/
def Criterion.path (c : Criterion) : List String :=
  match Key.ofText c.key with
  | .document .. => []
  | .chain segments =>
    if c.operation.excludes then segments.dropLast.dropLast else segments.dropLast

/-- Without relationships an address is that of the root, whatever the label. -/
structure Address where
  label : Option String
  path : List String
  deriving DecidableEq, Repr

namespace Address

/-- The address that the last relationship starts from. -/
def up (a : Address) : Address := ⟨a.label, a.path.dropLast⟩

/-- The place of an instance when the joins were made for the addresses `as` in this order. -/
def place (as : List Address) (a : Address) : Place := if a.path = [] then 0 else as.idxOf a + 1

theorem place_eq_iff {as : List Address} {a b : Address} (ha : a.path ≠ [] → a ∈ as) :
    a.place as = b.place as ↔ a = b ∨ (a.path = [] ∧ b.path = []) := by
  unfold place
  by_cases hpath : a.path = [] <;> by_cases hpath' : b.path = []
  · simp [hpath, hpath']
  · have hne : a ≠ b := fun h => hpath' (h ▸ hpath)
    simp [hpath, hpath', hne]
  · have hne : a ≠ b := fun h => hpath (h ▸ hpath')
    simp [hpath, hpath', hne]
  · simp [hpath, hpath', List.idxOf_inj (ha hpath)]

end Address

namespace Criterion

def address (c : Criterion) : Address := ⟨c.label, c.path⟩

/-- The addresses of the instances other than the root that a criterion's path passes. -/
def addresses (c : Criterion) : List Address := c.path.inits.tail.map (Address.mk c.label)

theorem mem_addresses {c : Criterion} {a : Address} :
    a ∈ c.addresses ↔ a.label = c.label ∧ a.path ≠ [] ∧ a.path <+: c.path := by
  have hinits (names : List String) :
      names ∈ c.path.inits.tail ↔ names ≠ [] ∧ names <+: c.path := by
    rw [← List.mem_inits]
    cases c.path with
    | nil => simp
    | cons name path =>
      rw [List.inits_cons, List.tail_cons, List.mem_cons]
      constructor
      · intro h
        obtain ⟨rest, -, rfl⟩ := List.mem_map.mp h
        exact ⟨List.cons_ne_nil name rest, .inr h⟩
      · rintro ⟨hne, h⟩
        exact h.resolve_left hne
  obtain ⟨label, path⟩ := a
  simp only [addresses, List.mem_map, hinits, Address.mk.injEq]
  constructor
  · rintro ⟨names, h, rfl, rfl⟩
    exact ⟨rfl, h⟩
  · rintro ⟨rfl, h⟩
    exact ⟨path, h, rfl, rfl⟩

end Criterion

/-- The addresses that the criteria of a forest use, in order of first use. -/
def Forest.addresses (forest : Forest) : List Address :=
  ((Forest.nodes forest).flatMap Criterion.addresses).eraseDups

theorem Forest.mem_addresses {forest : Forest} {a : Address} :
    a ∈ addresses forest ↔ ∃ c ∈ Forest.nodes forest,
      a.label = c.label ∧ a.path ≠ [] ∧ a.path <+: c.path := by
  simp only [addresses, List.mem_eraseDups, List.mem_flatMap, Criterion.mem_addresses]

/-- The name of the table instance at a place among joins. -/
def Join.nameAt (root : String) (joins : List Join) : Place → String
  | 0 => root
  | n + 1 => (joins[n]?).elim root Join.name

theorem JoinTable.nameAt_eq (root : String) (t : JoinTable) (place : Place) :
    t.nameAt root place = Join.nameAt root t.joins place := by
  cases place with
  | zero => rfl
  | succ n => cases h : t.entries[n]? <;> simp [nameAt, Join.nameAt, joins, h]

section Walks

def Hop.name (hop : Hop) : String := hop.relationship.name

/-- The entity that a chain of hops ends at. -/
def Hop.reached : Entity → List Hop → Entity
  | e, [] => e
  | _, hop :: hops => reached hop.target hops

@[simp] theorem Hop.reached_concat (e : Entity) (hops : List Hop) (hop : Hop) :
    reached e (hops ++ [hop]) = hop.target := by
  induction hops generalizing e with
  | nil => rfl
  | cons first hops ih => exact ih first.target

/-- A walk that is not cut short makes a hop for every name. -/
theorem Registry.names_walk {g : Registry} {e e' : Entity} {names : List String}
    (h : (g.walk e names).found = .ok e') : (g.walk e names).hops.map Hop.name = names := by
  induction names generalizing e with
  | nil => rfl
  | cons name names ih =>
    rw [walk] at h ⊢
    split at h
    next => simp at h
    next hop hhop =>
      rw [List.map_cons, ih h, Hop.name, Scope.name_of_hop hhop]

namespace Scope
variable {s : Scope}

/-- A chain of registered hops is found again by its names. -/
theorem walk_names {e : Entity} {hops : List Hop} (h : s.Walks e hops) :
    s.registry.walk e (hops.map Hop.name) = ⟨hops, .ok (Hop.reached e hops)⟩ := by
  induction hops generalizing e with
  | nil => rfl
  | cons hop hops ih =>
    obtain ⟨hhop, hw⟩ := h
    have hstep : s.registry.hop e hop.name = .ok hop := hhop
    simp only [List.map_cons, Registry.walk, hstep, ih hw, Hop.reached]

theorem walks_concat {e : Entity} {hops : List Hop} {hop : Hop} :
    s.Walks e (hops ++ [hop]) ↔ s.Walks e hops ∧ s.HasHop (Hop.reached e hops) hop := by
  induction hops generalizing e with
  | nil => simp [Walks, Hop.reached]
  | cons first hops ih => simp [Walks, Hop.reached, ih, and_assoc]

end Scope
end Walks

namespace Route

/-- The hops from the root to an instance. -/
def chain : Option Route → List Hop
  | none => []
  | some r => r.up.reverse ++ [r.hop]

@[simp] theorem chain_extend (label : Option String) (a : Option Route) (hop : Hop) :
    chain (some (extend label a hop)) = chain a ++ [hop] := by
  cases a <;> simp [chain, extend]

theorem chain_eq (r : Route) : chain (some r) = chain r.parent ++ [r.hop] := by
  have h := chain_extend r.label r.parent r.hop
  rwa [extend_parent] at h

theorem chain_ending (label : Option String) (a : Option Route) (hops : List Hop) :
    chain (ending label a hops) = chain a ++ hops := by
  induction hops generalizing a with
  | nil => simp [ending]
  | cons hop hops ih => simp [ending, ih]

theorem chain_ending_none (label : Option String) (hops : List Hop) :
    chain (ending label none hops) = hops :=
  chain_ending label none hops

theorem label_ending {label : Option String} {a : Option Route} (ha : ∀ r ∈ a, r.label = label)
    (hops : List Hop) : ∀ r ∈ ending label a hops, r.label = label := by
  induction hops generalizing a with
  | nil => exact ha
  | cons hop hops ih =>
    apply ih
    intro r hr
    obtain rfl := Option.some.inj hr
    exact label_extend ha hop

theorem label_parent (r : Route) : ∀ p ∈ r.parent, p.label = r.label := by
  obtain ⟨label, up, hop⟩ := r
  cases up <;> simp [parent]

/-- The address of an instance that criteria with a label address. -/
def addressOf (label : Option String) (a : Option Route) : Address :=
  ⟨label, (chain a).map Hop.name⟩

def address (r : Route) : Address := addressOf r.label (some r)

theorem addressOf_parent (r : Route) : addressOf r.label r.parent = r.address.up := by
  simp [address, addressOf, Address.up, chain_eq]

/-- A chain of hops passes the instances at the prefixes of its names. -/
theorem map_address_along {label : Option String} {a : Option Route}
    (ha : ∀ r ∈ a, r.label = label) (hops : List Hop) :
    (along label a hops).map address = ((hops.map Hop.name).inits.tail).map fun names =>
      ⟨label, (chain a).map Hop.name ++ names⟩ := by
  induction hops generalizing a with
  | nil => rfl
  | cons hop hops ih =>
    have hself : ∀ r ∈ some (extend label a hop), r.label = label := by
      intro r hr
      obtain rfl := Option.some.inj hr
      exact label_extend ha hop
    have hinits : (hops.map Hop.name).inits = [] :: (hops.map Hop.name).inits.tail := by
      cases hops <;> simp
    rw [along, List.map_cons, ih hself, List.map_cons, List.inits_cons, List.tail_cons, hinits,
      List.map_cons, List.map_cons, List.map_map]
    simp only [address, addressOf, label_extend ha, chain_extend, List.map_append, List.map_cons,
      List.map_nil, List.append_assoc, List.singleton_append, List.tail_cons, Function.comp_def]

end Route

namespace Scope
variable {s : Scope} {rs : List Route}

theorem reached_chain (a : Option Route) : Hop.reached s.root (Route.chain a) = s.entityAt a := by
  cases a with
  | none => rfl
  | some r => simp [Route.chain, entityAt]

namespace Rooted

theorem walks (h : s.Rooted rs) {a : Option Route} (ha : ∀ r ∈ a, r ∈ rs) :
    s.Walks s.root (Route.chain a) := by
  induction h generalizing a with
  | nil =>
    cases a with
    | none => exact trivial
    | some r => simp at ha
  | snoc _ _ hparent hhop ih =>
    cases a with
    | none => exact trivial
    | some r =>
      rcases List.mem_append.mp (ha r rfl) with hr | hr
      · exact ih (by simpa using hr)
      · obtain rfl := List.mem_singleton.mp hr
        rw [Route.chain_eq, walks_concat, reached_chain]
        exact ⟨ih hparent, hhop⟩

/-- No two routes have one address, since names are looked up in one registry. -/
theorem address_inj (h : s.Rooted rs) {r r' : Route} (hr : r ∈ rs) (hr' : r' ∈ rs)
    (haddress : r.address = r'.address) : r = r' := by
  have hw := walk_names (h.walks (a := some r) (by simpa using hr))
  have hw' := walk_names (h.walks (a := some r') (by simpa using hr'))
  obtain ⟨hlabel, hnames⟩ := Address.mk.inj haddress
  rw [hnames, hw'] at hw
  have hchain : Route.chain (some r') = Route.chain (some r) := congrArg Lookup.hops hw
  obtain ⟨label, up, hop⟩ := r
  obtain ⟨label', up', hop'⟩ := r'
  obtain ⟨hup, hhop⟩ := List.append_inj' hchain rfl
  obtain rfl : label = label' := hlabel
  obtain rfl : up' = up := List.reverse_injective hup
  obtain rfl : hop' = hop := List.singleton_inj.mp hhop
  rfl

theorem place_eq (h : s.Rooted rs) {a : Option Route} (ha : ∀ r ∈ a, r ∈ rs)
    {label : Option String} (hlabel : ∀ r ∈ a, r.label = label) :
    Route.place rs a = (Route.addressOf label a).place (rs.map Route.address) := by
  cases a with
  | none => rfl
  | some r =>
    have hr : r ∈ rs := ha r rfl
    obtain rfl := hlabel r rfl
    have hpath : (Route.addressOf r.label (some r)).path ≠ [] := by
      simp [Route.addressOf, Route.chain]
    have hnodup : (rs.map Route.address).Nodup :=
      List.Nodup.map_on (fun _ hx _ hy hxy => h.address_inj hx hy hxy) h.nodup
    have hlt := List.idxOf_lt_length_of_mem hr
    have hbound : rs.idxOf r < (rs.map Route.address).length := by
      simpa using hlt
    have hget : (rs.map Route.address)[rs.idxOf r] = r.address := by
      simp
    have hidx := hnodup.idxOf_getElem (rs.idxOf r) hbound
    rw [hget] at hidx
    rw [Route.place, Address.place, if_neg hpath, ← hidx]
    rfl

end Rooted

/-- Routes noted in order, each once, have the addresses in order, each once. -/
theorem map_address_noteAll (more : List Route)
    (hinj : ∀ r ∈ more, ∀ r' ∈ more, r.address = r'.address → r = r') :
    (Route.noteAll [] more).map Route.address = (more.map Route.address).eraseDups := by
  induction more using List.reverseRecOn with
  | nil => rfl
  | append_singleton more r ih =>
    have ih := ih fun x hx y hy =>
      hinj x (List.mem_append_left _ hx) y (List.mem_append_left _ hy)
    have hmem : r.address ∈ more.map Route.address ↔ r ∈ more := by
      constructor
      · intro h
        obtain ⟨x, hx, hxr⟩ := List.mem_map.mp h
        rwa [← hinj x (List.mem_append_left _ hx) r (by simp) hxr]
      · exact List.mem_map_of_mem
    rw [Route.noteAll_concat, Route.note, List.map_append, List.eraseDups_append, List.map_singleton, ← ih,
      List.removeAll]
    by_cases hr : r ∈ more
    · rw [if_pos (Route.mem_noteAll.mpr (.inr hr)),
        List.filter_cons_of_neg (by simpa using hmem.mpr hr), List.filter_nil, List.eraseDups_nil,
        List.append_nil]
    · have hnew : r ∉ Route.noteAll [] more := by simpa [Route.mem_noteAll] using hr
      rw [if_neg hnew, List.filter_cons_of_pos (by simpa using mt hmem.mp hr), List.filter_nil,
        List.map_append]
      rfl

section Criteria
variable {c : Criterion} {f : String → Nat → Condition}

theorem names_spot {key : String} {p : Spot} (h : (s.spot key).found = .ok p) :
    (s.spot key).hops.map Hop.name =
      match Key.ofText key with
      | .document .. => []
      | .chain segments => segments.dropLast := by
  unfold spot at h ⊢
  cases hkey : Key.ofText key with
  | document column path => rfl
  | chain segments =>
    simp only [hkey, chainSpot] at h ⊢
    split at h
    next => simp at h
    next hblank =>
      rw [if_neg hblank]
      obtain ⟨e, he, -⟩ := bind_eq_ok_iff.mp h
      exact Registry.names_walk he

theorem names_collection {key : String} {r : Collection} (h : (s.collection key).found = .ok r) :
    (s.collection key).hops.map Hop.name =
      match Key.ofText key with
      | .document .. => []
      | .chain segments => segments.dropLast.dropLast := by
  unfold collection at h ⊢
  cases hkey : Key.ofText key with
  | document column path => rfl
  | chain segments =>
    simp only [hkey] at h ⊢
    split at h
    next => simp at h
    next hblank =>
      rw [if_neg hblank]
      split at h
      next => simp at h
      next hempty =>
        rw [if_neg hempty]
        obtain ⟨e, he, -⟩ := bind_eq_ok_iff.mp h
        exact Registry.names_walk he

/-- The hops of a criterion that compiles are those that its path names. -/
theorem names_plan (h : (s.plan c).condition = .ok f) :
    (s.plan c).hops.map Hop.name = c.path := by
  obtain ⟨o, -, ⟨hop, hfield⟩ | ⟨hop, habsence⟩⟩ := plan_cases h
  · obtain ⟨p, hp⟩ := hfield.found
    rw [hfield.hops_eq, names_spot hp, Criterion.path]
    simp only [hop, Bool.false_eq_true, if_false]
  · obtain ⟨r, hr, -⟩ := habsence.found
    rw [habsence.hops_eq, names_collection hr, Criterion.path]
    simp only [hop, if_true]

theorem map_address_routes (h : (s.plan c).condition = .ok f) :
    (s.routes c).map Route.address = c.addresses := by
  rw [routes, Route.map_address_along (by simp), names_plan h]
  rfl

theorem addressOf_instanceOf (h : (s.plan c).condition = .ok f) :
    Route.addressOf c.label (s.instanceOf c) = c.address := by
  rw [instanceOf, Route.addressOf, Route.chain_ending_none, names_plan h]
  rfl

end Criteria

/-- The place of the instance that a criterion addresses when it is compiled in a pass. -/
def placeOf (s : Scope) (c : Criterion) (pass : Pass) : Place :=
  (pass.joins.follow s.root.table c.label 0 (s.plan c).hops).2

theorem placeOf_eq (h : s.Rooted rs) (c : Criterion) {pass : Pass}
    (hp : pass.joins = .ofRoutes s.root.table rs) :
    s.placeOf c pass = Route.place (Route.noteAll rs (s.routes c)) (s.instanceOf c) := by
  rw [placeOf, hp, (follow_plan h c).1]

end Scope

/-- The join for an address: it makes the last hop of the address, from the instance that the
rest of the address leads to. -/
structure Address.Serves (s : Scope) (as : List Address) (joins : List Join) (a : Address)
    (j : Join) : Prop where
  id_eq : j.id = a.place as
  parent_eq : j.parent = a.up.place as
  parentName_eq : j.parentName = Join.nameAt s.root.table joins j.parent
  hop : ∃ e target, (s.registry.walk s.root a.up.path).found = .ok e ∧
    s.registry.hop e (a.path.getLastD "") = .ok ⟨j.relationship, target⟩ ∧ j.table = target.table

namespace Scope
variable {s : Scope} {rs : List Route}

theorem Rooted.serves (h : s.Rooted rs) {r : Route} (hr : r ∈ rs) :
    Address.Serves s (rs.map Route.address) (JoinTable.ofRoutes s.root.table rs).joins r.address
      (Route.entry s.root.table rs r).join := by
  have hself : ∀ p ∈ some r, p ∈ rs := by simpa using hr
  have hparent := h.parent_mem hr
  refine ⟨h.place_eq hself (by simp), ?_, ?_, s.entityAt r.parent, r.hop.target, ?_, ?_, rfl⟩
  · rw [← Route.addressOf_parent]
    exact h.place_eq hparent (Route.label_parent r)
  · rw [← JoinTable.nameAt_eq]
    exact (JoinTable.nameAt_ofRoutes hparent).symm
  · rw [← Route.addressOf_parent, Route.addressOf, walk_names (h.walks hparent), reached_chain]
  · have hlast : r.address.path.getLastD "" = r.hop.name := by
      rw [Route.address, Route.addressOf, Route.chain_eq, List.map_append, List.map_singleton,
        List.getLastD_concat]
    rw [hlast]
    exact h.hasHop hr

/-- The routes that a forest asks for, each at its first use, have its addresses. -/
theorem map_address_forest {forest : Forest}
    (hplans : ∀ c ∈ Forest.nodes forest, ∃ f, (s.plan c).condition = .ok f)
    (hrooted : s.Rooted (Route.noteAll [] (s.routesOf forest))) :
    (Route.noteAll [] (s.routesOf forest)).map Route.address = Forest.addresses forest := by
  have hmem (r : Route) (hr : r ∈ s.routesOf forest) :
      r ∈ Route.noteAll [] (s.routesOf forest) := Route.mem_noteAll.mpr (.inr hr)
  rw [map_address_noteAll _ fun r hr r' hr' => hrooted.address_inj (hmem r hr) (hmem r' hr'),
    routesOf, List.map_flatMap, Forest.addresses]
  congr 1
  apply List.flatMap_congr
  intro c hc
  obtain ⟨f, hf⟩ := hplans c hc
  exact map_address_routes hf

/-- Where a criterion is compiled among others, its instance has the place and the name that it
keeps. -/
theorem place_visited {forest : Forest} {before after : List Criterion} {c : Criterion}
    (hnodes : Forest.nodes forest = before ++ c :: after) :
    let final := Route.noteAll [] (s.routesOf forest)
    let pass := (s.leaves before .empty).2
    (∀ r ∈ s.instanceOf c, r ∈ final) ∧ s.placeOf c pass = Route.place final (s.instanceOf c) ∧
      s.instanceName c pass = Route.name s.root.table final (s.instanceOf c) := by
  intro final pass
  obtain ⟨hjoins, hrooted⟩ := joins_leaves (s := s) (p := .empty) before .nil rfl
  obtain ⟨-, -, hmem⟩ := follow_plan hrooted c
  have hprefix :
      Route.noteAll (Route.noteAll [] (before.flatMap s.routes)) (s.routes c) <+: final := by
    have hfinal : final = Route.noteAll (Route.noteAll (Route.noteAll []
        (before.flatMap s.routes)) (s.routes c)) (after.flatMap s.routes) := by
      simp only [final, routesOf, hnodes, List.flatMap_append, List.flatMap_cons,
        Route.noteAll_append]
    rw [hfinal]
    exact Route.prefix_noteAll _ _
  refine ⟨fun r hr => hprefix.subset (hmem r hr), ?_, ?_⟩
  · obtain ⟨more, hmore⟩ := hprefix
    rw [placeOf_eq hrooted c hjoins, ← hmore, Route.place_append hmem]
  · rw [instanceName_eq hrooted c hjoins, Route.name_of_prefix hprefix hmem]

theorem Rooted.forall₂_serves (h : s.Rooted rs) :
    let joins := (JoinTable.ofRoutes s.root.table rs).joins
    List.Forall₂ (Address.Serves s (rs.map Route.address) joins) (rs.map Route.address) joins := by
  intro joins
  have hjoins : joins = rs.map fun r => (Route.entry s.root.table rs r).join :=
    JoinTable.joins_ofRoutes
  rw [List.forall₂_map_left_iff]
  nth_rewrite 2 [hjoins]
  rw [List.forall₂_map_right_iff, List.forall₂_same]
  exact fun r hr => h.serves hr

/-- Compiling makes one join for every address that the criteria use, in order of first use. Each
criterion tests the instance at its own address, so two criteria meet in one instance exactly if
their addresses agree or both address the root. -/
theorem compile_addresses (s : Scope) (forest : Forest) (sel : Selection)
    (h : s.compile forest = .ok sel) :
    let as := Forest.addresses forest
    (as.Nodup ∧ ∀ a, a ∈ as ↔ ∃ c ∈ Forest.nodes forest,
      a.label = c.label ∧ a.path ≠ [] ∧ a.path <+: c.path) ∧
    List.Forall₂ (Address.Serves s as sel.joins) as sel.joins ∧
    (∃ ts, sel.condition = Tree.compose .all ts ∧
      (s.leaves (Forest.nodes forest) .empty).1 = (Tree.nodesAll ts).map .ok) ∧
    ∀ before c after, Forest.nodes forest = before ++ c :: after →
      let pass := (s.leaves before .empty).2
      s.placeOf c pass = c.address.place as ∧
      (∃ (o : OwnTest) (n : Nat), (s.leaf c pass).1 =
        .ok (o.condition (Join.nameAt s.root.table sel.joins (s.placeOf c pass)) n)) ∧
      ∀ before' c' after', Forest.nodes forest = before' ++ c' :: after' →
        (s.placeOf c pass = s.placeOf c' (s.leaves before' .empty).2 ↔
          c.address = c'.address ∨ (c.path = [] ∧ c'.path = [])) := by
  intro as
  have hplans := exists_compile_iff.mp ⟨sel, h⟩
  obtain ⟨ts, pass', hts, rfl⟩ := compile_eq_ok_iff.mp h
  obtain ⟨hjoins, hrooted⟩ := hts.joins_eq .nil rfl
  have has := map_address_forest hplans hrooted
  have hplace {before after : List Criterion} {c : Criterion}
      (hnodes : Forest.nodes forest = before ++ c :: after) :
      s.placeOf c (s.leaves before .empty).2 = c.address.place as := by
    obtain ⟨hmem, hplace, -⟩ := place_visited (s := s) hnodes
    obtain ⟨f, hf⟩ := hplans c (by simp [hnodes])
    have hlabel : ∀ r ∈ s.instanceOf c, r.label = c.label := Route.label_ending (by simp) _
    rw [hplace, hrooted.place_eq hmem hlabel, has, addressOf_instanceOf hf]
  refine ⟨⟨?_, fun a => Forest.mem_addresses⟩, ?_, ⟨ts, rfl, by rw [hts.leaves_eq]⟩, ?_⟩
  · show (Forest.addresses forest).Nodup
    rw [← has]
    exact List.Nodup.map_on (fun _ hx _ hy => hrooted.address_inj hx hy) hrooted.nodup
  · have hserves := hrooted.forall₂_serves
    rwa [has, ← hjoins] at hserves
  · intro before c after hnodes pass
    refine ⟨hplace hnodes, ?_, ?_⟩
    · obtain ⟨hmem, hplaced, hname⟩ := place_visited (s := s) hnodes
      obtain ⟨f, hf⟩ := hplans c (by simp [hnodes])
      obtain ⟨o, rfl⟩ := exists_ownTest hf
      refine ⟨o, (s.after c pass).subqueries, ?_⟩
      rw [leaf_eq, hf, hname, hplaced, hjoins, ← JoinTable.nameAt_eq,
        JoinTable.nameAt_ofRoutes hmem]
      rfl
    · intro before' c' after' hnodes'
      rw [hplace hnodes, hplace hnodes']
      apply Address.place_eq_iff
      intro hpath
      exact Forest.mem_addresses.mpr ⟨c, by simp [hnodes], rfl, hpath, List.prefix_rfl⟩

end Scope

/-- Players, their scores and the leagues of these, which lead back to scores. -/
def leagueScope : Scope :=
  let player : Entity := ⟨"player", "players", "id", [⟨"name", "name", .text⟩],
    [⟨"scores", "score", .hasMany, "id", "player_id"⟩]⟩
  let score : Entity := ⟨"score", "player_scores", "id", [⟨"total", "total", .integer⟩],
    [⟨"league", "league", .belongsTo, "league_id", "id"⟩]⟩
  let league : Entity := ⟨"league", "leagues", "id", [⟨"title", "title", .text⟩],
    [⟨"scores", "score", .hasMany, "id", "league_id"⟩]⟩
  ⟨⟨[league, player, score]⟩, player⟩

def totalAbove : Criterion := ⟨"scores.total", .greater, .text "5", [], [], none⟩

def titleLike : Criterion := ⟨"scores.league.title", .like, .text "a", [], [], none⟩

def noRelatedTitle : Criterion := ⟨"scores.league.title", .excludeLike, .text "b", [], [], none⟩

/-- The exclusion belongs to the score that the first criterion tests; a label asks for another. -/
theorem compile_addresses_leagues :
    let forest : Forest := [{ totalAbove with allOf := [titleLike], anyOf := [noRelatedTitle] },
      { totalAbove with label := some "own" }]
    let as : List Address :=
      [⟨none, ["scores"]⟩, ⟨none, ["scores", "league"]⟩, ⟨some "own", ["scores"]⟩]
    ∃ sel, leagueScope.compile forest = .ok sel ∧ Forest.addresses forest = as ∧
      List.Forall₂ (Address.Serves leagueScope as sel.joins) as sel.joins ∧
      leagueScope.placeOf totalAbove .empty =
        leagueScope.placeOf noRelatedTitle
          (leagueScope.leaves [totalAbove, titleLike] .empty).2 := by
  intro forest as
  have has : Forest.addresses forest = as := by decide
  obtain ⟨-, hserves, -, hplaces⟩ := leagueScope.compile_addresses forest _ rfl
  refine ⟨_, rfl, has, has ▸ hserves, ?_⟩
  obtain ⟨-, -, hmeet⟩ := hplaces [] _ _ rfl
  exact (hmeet [_, titleLike] noRelatedTitle _ rfl).mpr (.inl (by decide))

end EntitySearch
