import EntitySearch.Proofs.TypedOperands
/-!
The name of the root table among the names that compiling makes up. Made-up names are those of
relationships with a number at the end, and are all different; but nothing keeps them from being
the root table's name where that looks like one of them.
-/
namespace EntitySearch
open Sql

namespace Scope
variable {s : Scope}

/-- The searched entity and those that it can lead to. -/
def Offers (s : Scope) (e : Entity) : Prop := e = s.root ∨ ∃ name, s.registry.get? name = some e

/-- Some entity has a relationship of this name. -/
def HasRelationship (s : Scope) (name : String) : Prop :=
  ∃ e r, s.Offers e ∧ e.relationship? name = some r

theorem offers_of_leads {e : Entity} {names : List String}
    (h : s.registry.Leads s.root names e) : s.Offers e := by
  generalize hstart : s.root = start at h
  have hoffers : s.Offers start := .inl hstart.symm
  clear hstart
  induction h with
  | nil e => exact hoffers
  | cons _ htarget _ ih => exact ih (.inr ⟨_, htarget⟩)

theorem hasRelationship_of_hasHop {e : Entity} {hop : Hop} (he : s.Offers e)
    (h : s.HasHop e hop) : s.HasRelationship hop.relationship.name :=
  ⟨e, hop.relationship, he, (Registry.hop_eq_ok_iff.mp h).1⟩

theorem hasRelationship_of_collection {key : String} {r : Collection}
    (h : (s.collection key).found = .ok r) : s.HasRelationship r.relationship.name := by
  unfold collection at h
  split at h
  next => simp at h
  next segments _ =>
    dsimp only at h
    split at h
    · simp at h
    · split at h
      · simp at h
      · obtain ⟨e, he, h⟩ := bind_eq_ok_iff.mp h
        obtain ⟨hop, hhop, h⟩ := bind_eq_ok_iff.mp h
        obtain ⟨a, -, h⟩ := bind_eq_ok_iff.mp h
        obtain rfl := Except.ok.inj h
        have hhas : s.HasHop e hop := by rwa [HasHop, name_of_hop hhop]
        exact hasRelationship_of_hasHop (offers_of_leads (Registry.walk_eq_ok_iff.mp he)) hhas

theorem Rooted.hasRelationship {rs : List Route} (h : s.Rooted rs) {r : Route} (hr : r ∈ rs) :
    s.HasRelationship r.hop.relationship.name := by
  have hoffers : s.Offers (s.entityAt r.parent) := by
    cases hparent : r.parent with
    | none => exact .inl rfl
    | some p =>
      have hp := h.hasHop (h.parent_mem hr p hparent)
      exact .inr ⟨_, (Registry.hop_eq_ok_iff.mp hp).2⟩
  exact hasRelationship_of_hasHop hoffers (h.hasHop hr)

/-- Different names of sub-queries, with numbers above `low` and up to `high`. -/
structure Numbers (s : Scope) (low high : Nat) (names : List String) : Prop where
  le : low ≤ high
  nodup : names.Nodup
  spelled : ∀ x ∈ names, ∃ name n, s.HasRelationship name ∧ low < n ∧ n ≤ high ∧
    x = s!"{name}_sub{n}"

theorem Numbers.append {low mid high : Nat} {xs ys : List String} (hx : s.Numbers low mid xs)
    (hy : s.Numbers mid high ys) : s.Numbers low high (xs ++ ys) where
  le := hx.le.trans hy.le
  nodup := by
    refine List.nodup_append.mpr ⟨hx.nodup, hy.nodup, ?_⟩
    rintro x hmem _ hmem' rfl
    obtain ⟨name, m, -, -, hm, rfl⟩ := hx.spelled x hmem
    obtain ⟨name', n, -, hn, -, heq⟩ := hy.spelled _ hmem'
    have := numberedSub_inj heq
    omega
  spelled x hmem := by
    rcases List.mem_append.mp hmem with hmem | hmem
    · obtain ⟨name, n, hname, hlow, hhigh, rfl⟩ := hx.spelled x hmem
      exact ⟨name, n, hname, hlow, hhigh.trans hy.le, rfl⟩
    · obtain ⟨name, n, hname, hlow, hhigh, rfl⟩ := hy.spelled x hmem
      exact ⟨name, n, hname, hx.le.trans_lt hlow, hhigh, rfl⟩

/-- One criterion: a sub-query takes the next number. -/
theorem numbers_leaf {c : Criterion} {p p' : Pass} {own : Condition}
    (h : s.leaf c p = (.ok own, p')) :
    s.Numbers p.subqueries p'.subqueries own.subqueryNames ∧
      p'.subqueries = p.subqueries + if c.operation.excludes then 1 else 0 := by
  obtain ⟨rfl, f, hf, rfl⟩ := leaf_eq_ok_iff.mp h
  obtain ⟨o, rfl, ⟨hop, hfield⟩ | ⟨hop, habsence⟩⟩ := plan_cases hf
  · have hsubqueries : (s.after c p).subqueries = p.subqueries := by
      simp [after, hfield.numbered_eq]
    rw [OwnTest.subqueryNames_eq, hfield.collection?_eq, hsubqueries, hop]
    exact ⟨⟨le_rfl, List.nodup_nil, by simp⟩, rfl⟩
  · obtain ⟨r, hr, honly⟩ := habsence.found
    have hsubqueries : (s.after c p).subqueries = p.subqueries + 1 := by
      simp [after, habsence.numbered_eq]
    rw [OwnTest.subqueryNames_eq, hsubqueries, hop]
    refine ⟨⟨Nat.le_succ _, ?_, ?_⟩, rfl⟩
    · cases o.collection? <;> simp
    · intro x hx
      obtain ⟨r', hr', rfl⟩ := List.mem_map.mp hx
      obtain rfl := honly r' (by simpa using hr')
      exact ⟨_, _, hasRelationship_of_collection hr, Nat.lt_succ_self _, le_rfl, rfl⟩

/-- Criteria one after the other: the numbers go on from pass to pass. -/
theorem Traverses.numbers {cs : List Criterion} {ts : List (Tree Condition)} {p p' : Pass}
    (h : s.Traverses cs p ts p') :
    s.Numbers p.subqueries p'.subqueries
        ((Tree.nodesAll ts).flatMap Condition.subqueryNames) ∧
      p'.subqueries = p.subqueries +
        (Forest.nodes cs).countP fun c => c.operation.excludes := by
  induction h with
  | nil => exact ⟨⟨le_rfl, List.nodup_nil, by simp [Tree.nodesAll]⟩, rfl⟩
  | @cons c cs own allOf anyOf ts p p₁ p₂ p₃ p₄ hown _ _ _ ihAll ihAny ihRest =>
    obtain ⟨hleaf, hcount⟩ := numbers_leaf hown
    have hnumbers := hleaf.append ((ihAll.1.append ihAny.1).append ihRest.1)
    constructor
    · simpa [Tree.nodesAll, Tree.nodes] using hnumbers
    · rw [ihRest.2, ihAny.2, ihAll.2, hcount, Forest.nodes_cons, List.cons_append,
        List.countP_cons, List.countP_append, List.countP_append]
      omega

end Scope

theorem Selection.names_compose (j : Junction) (ts : List (Tree Condition)) (joins : List Join) :
    (Selection.mk (Tree.compose j ts) joins).names =
      joins.map Join.name ++ (Tree.nodesAll ts).flatMap Condition.subqueryNames := by
  cases ts with
  | nil => rfl
  | cons t ts =>
    simp only [names, Tree.compose, Option.elim_some, Condition.subqueryNames,
      Condition.predicates_gather, Tree.predicates_conditions, List.filterMap_flatMap]
    rfl

namespace Scope
variable {s : Scope} {forest : Forest} {sel : Selection}

/-- A name made for a join or a sub-query of a forest. -/
def Makes (s : Scope) (forest : Forest) (sel : Selection) (x : String) : Prop :=
  ∃ name n, s.HasRelationship name ∧ 0 < n ∧
    (n ≤ sel.joins.length ∧ x = s!"{name}_{n}" ∨
      n ≤ (Forest.nodes forest).countP (fun c => c.operation.excludes) ∧ x = s!"{name}_sub{n}")

theorem names_made (h : s.compile forest = .ok sel) :
    sel.names.Nodup ∧ ∀ x ∈ sel.names, s.Makes forest sel x := by
  obtain ⟨ts, pass, hts, rfl⟩ := compile_eq_ok_iff.mp h
  obtain ⟨hjoins, hrooted⟩ := hts.joins_eq .nil rfl
  obtain ⟨hnumbers, hcount⟩ := hts.numbers
  generalize Route.noteAll [] (s.routesOf forest) = rs at hjoins hrooted
  have hnames : pass.joins.joins.map Join.name =
      rs.map fun r => Route.name s.root.table rs (some r) := by
    rw [hjoins, JoinTable.joins_ofRoutes, List.map_map]
    rfl
  have hlength : pass.joins.joins.length = rs.length := by
    rw [hjoins, JoinTable.joins_ofRoutes, List.length_map]
  rw [Selection.names_compose, hnames]
  constructor
  · refine List.nodup_append.mpr ⟨?_, hnumbers.nodup, ?_⟩
    · exact List.Nodup.map_on (fun _ hr _ _ => Route.name_inj hr) hrooted.nodup
    · rintro _ hx y hy rfl
      obtain ⟨r, -, hr⟩ := List.mem_map.mp hx
      obtain ⟨name, n, -, -, -, hn⟩ := hnumbers.spelled _ hy
      exact numbered_ne_sub (hr.trans hn)
  · intro x hx
    rcases List.mem_append.mp hx with hx | hx
    · obtain ⟨r, hr, rfl⟩ := List.mem_map.mp hx
      have hplace := List.idxOf_lt_length_of_mem hr
      rw [← hlength] at hplace
      exact ⟨_, _, hrooted.hasRelationship hr, Nat.succ_pos _, .inl ⟨hplace, rfl⟩⟩
    · obtain ⟨name, n, hname, hlow, hhigh, rfl⟩ := hnumbers.spelled x hx
      rw [hcount, show Pass.empty.subqueries = 0 from rfl, Nat.zero_add] at hhigh
      exact ⟨name, n, hname, (Nat.zero_le _).trans_lt hlow, .inr ⟨hhigh, rfl⟩⟩

end Scope

/-- Wherever the name of the root table stands in a selection, it means the root row: no join has
it, a join goes on from it only where it goes on from the root, and a sub-query's own row does not
take its place. -/
structure Selection.KeepsRoot (sel : Selection) (root : String) : Prop where
  notMem : root ∉ sel.names
  join : ∀ j ∈ sel.joins, j.name ≠ root ∧ (j.parentName = root ↔ j.parent = 0)
  subquery : ∀ condition ∈ sel.condition, ∀ q, .noneRelated q ∈ condition.predicates →
    ∀ {κ : Type} (a : String → Row κ) (other : Row κ), Function.update a q.name other root = a root

namespace Scope
variable {s : Scope} {forest : Forest} {sel : Selection}

theorem keepsRoot_of_notMem (h : s.compile forest = .ok sel) (hroot : s.root.table ∉ sel.names) :
    sel.KeepsRoot s.root.table where
  notMem := hroot
  join j hj := by
    have hname (j : Join) (hj : j ∈ sel.joins) : j.name ≠ s.root.table := fun hsame =>
      hroot (List.mem_append_left _ (List.mem_map.mpr ⟨j, hj, hsame⟩))
    obtain ⟨rs, hrealizes⟩ := exists_realizes h
    have hjoins := hrealizes.joins_eq
    rw [JoinTable.joins_ofRoutes] at hjoins
    refine ⟨hname j hj, ?_⟩
    rw [hjoins] at hj
    obtain ⟨r, hr, rfl⟩ := List.mem_map.mp hj
    cases hparent : r.parent with
    | none => simp [Route.entry, hparent, Route.name, Route.place]
    | some p =>
      have hp := hname (Route.entry s.root.table rs p).join
        (hjoins ▸ List.mem_map.mpr ⟨p, hrealizes.rooted.parent_mem hr p hparent, rfl⟩)
      have hplace : Route.place rs (some p) ≠ 0 := Nat.succ_ne_zero _
      simp only [Route.entry, hparent]
      exact iff_of_false hp hplace
  subquery condition hcondition q hq κ a other := by
    have hname : s.root.table ≠ q.name := by
      intro hsame
      apply hroot
      apply List.mem_append_right
      rw [hcondition, Option.elim_some]
      exact List.mem_filterMap.mpr ⟨_, hq, by rw [hsame]; rfl⟩
    exact Function.update_of_ne hname other a

/-- A name that can be made for a join or a sub-query. -/
def Reserves (s : Scope) (x : String) : Prop :=
  ∃ name n, s.HasRelationship name ∧ 0 < n ∧ (x = s!"{name}_{n}" ∨ x = s!"{name}_sub{n}")

theorem Makes.reserves {x : String} (h : s.Makes forest sel x) : s.Reserves x := by
  obtain ⟨name, n, hname, hn, ⟨-, hx⟩ | ⟨-, hx⟩⟩ := h
  · exact ⟨name, n, hname, hn, .inl hx⟩
  · exact ⟨name, n, hname, hn, .inr hx⟩

section Captures
variable {key name : String} {p : Spot}

theorem exists_hop_of_reads (h : s.Reads key [name] p) :
    ∃ hop : Hop, hop.relationship.name = name ∧ s.spot key = ⟨[hop], .ok p⟩ ∧
      s.collection key = ⟨[], .ok ⟨hop.relationship, hop.target.table, p.column⟩⟩ := by
  have hspot := exists_reads_iff.mp ⟨_, h⟩
  have hnames := h.names
  obtain ⟨last, hkey⟩ : ∃ last, Key.ofText key = .chain [name, last] := by
    cases h with
    | field harrow hsegments => exact ⟨_, Key.ofText_eq_chain_iff.mpr ⟨harrow, hsegments⟩⟩
  obtain ⟨hop, hfield, hcollection⟩ := one_hop hkey hspot
  rw [hfield] at hnames
  exact ⟨hop, (List.cons.inj hnames).1, hfield, hcollection⟩

/-- Matches any text. -/
def anyText (key : String) (operation : Operation) (label : Option String) : Criterion :=
  ⟨key, operation, .text "", [], [], label⟩

/-- Criteria under different labels, each of which joins the relationship again. -/
def joining (key : String) (n : Nat) : Forest :=
  (List.range n).map fun i => anyText key .like (some (String.ofList (List.replicate i 'x')))

/-- Exclusions, each of which takes a number. -/
def excluding (key : String) (n : Nat) : Forest :=
  List.replicate n (anyText key .excludeLike none)

theorem nodes_of_leaves {cs : Forest} (h : ∀ c ∈ cs, c.isLeaf = true) : Forest.nodes cs = cs := by
  induction cs with
  | nil => rfl
  | cons c cs ih =>
    obtain ⟨hc, hcs⟩ := List.forall_mem_cons.mp h
    simp only [Criterion.isLeaf, Bool.and_eq_true, List.isEmpty_iff] at hc
    simp [Forest.nodes_cons, hc.1, hc.2, ih hcs]

theorem nodes_joining (key : String) (n : Nat) : Forest.nodes (joining key n) = joining key n :=
  nodes_of_leaves fun c hc => by
    obtain ⟨i, -, rfl⟩ := List.mem_map.mp hc
    rfl

theorem nodes_excluding (key : String) (n : Nat) :
    Forest.nodes (excluding key n) = excluding key n :=
  nodes_of_leaves fun c hc => by
    obtain rfl := List.eq_of_mem_replicate hc
    rfl

theorem plan_like {hop : Hop} (hspot : s.spot key = ⟨[hop], .ok p⟩) (label : Option String) :
    s.plan (anyText key .like label) =
      ⟨[hop], false, .ok (OwnTest.column p.column (.like (containing ""))).condition⟩ := by
  have hplan : s.plan (anyText key .like label) =
      s.planPattern (anyText key .like label) containing := plan_of_shape rfl
  rw [hplan]
  exact planPattern_eq rfl hspot

theorem plan_excludeLike {r : Collection} (hcollection : s.collection key = ⟨[], .ok r⟩) :
    s.plan (anyText key .excludeLike none) =
      ⟨[], true, .ok (OwnTest.noneRelated r (.like (containing ""))).condition⟩ := by
  have hplan : s.plan (anyText key .excludeLike none) =
      s.planAbsence (anyText key .excludeLike none) (.ok (some (.like (containing "")))) :=
    plan_of_shape rfl
  rw [hplan]
  exact planAbsence_eq hcollection

/-- The routes that the criteria ask for, one a label. -/
theorem routesOf_joining {hop : Hop} (hspot : s.spot key = ⟨[hop], .ok p⟩) (n : Nat) :
    s.routesOf (joining key n) = (List.range n).map fun i =>
      ⟨some (String.ofList (List.replicate i 'x')), [], hop⟩ := by
  rw [routesOf, nodes_joining, joining, List.flatMap_map]
  simp only [routes, plan_like hspot, Route.along, Route.extend, List.map_eq_flatMap]
  rfl

theorem compiles_joining {hop : Hop} (hspot : s.spot key = ⟨[hop], .ok p⟩) (n : Nat) :
    ∃ sel, s.compile (joining key n) = .ok sel := by
  refine exists_compile_iff.mpr fun c hc => ?_
  rw [nodes_joining] at hc
  obtain ⟨i, -, rfl⟩ := List.mem_map.mp hc
  exact ⟨_, congrArg Plan.condition (plan_like hspot _)⟩

theorem nodup_routesOf_joining {hop : Hop} (hspot : s.spot key = ⟨[hop], .ok p⟩) (n : Nat) :
    (s.routesOf (joining key n)).Nodup := by
  rw [routesOf_joining hspot]
  refine List.Nodup.map (fun i j hij => ?_) List.nodup_range
  have hlabel := String.ofList_injective (Option.some.inj (Route.mk.inj hij).1)
  simpa using congrArg List.length hlabel

/-- The last of the joins has the number. -/
theorem captured_by_join (h : s.Reads key [name] p) {n : Nat} (hn : 0 < n) :
    ∃ sel, s.compile (joining key n) = .ok sel ∧ s!"{name}_{n}" ∈ sel.joins.map Join.name := by
  obtain ⟨hop, rfl, hspot, -⟩ := exists_hop_of_reads h
  obtain ⟨sel, hsel⟩ := compiles_joining hspot n
  obtain ⟨rs, hrealizes⟩ := exists_realizes hsel
  -- no two labels share a join, so there are as many joins as labels
  have hlength : rs.length = n := by
    have hperm := (List.perm_ext_iff_of_nodup hrealizes.rooted.nodup
      (nodup_routesOf_joining hspot n)).mpr hrealizes.mem_iff
    rw [hperm.length_eq, routesOf_joining hspot, List.length_map, List.length_range]
  have hlast : n - 1 < rs.length := by omega
  have hmem := (hrealizes.mem_iff _).mp (List.getElem_mem hlast)
  rw [routesOf_joining hspot] at hmem
  obtain ⟨i, -, hr⟩ := List.mem_map.mp hmem
  refine ⟨sel, hsel, ?_⟩
  rw [hrealizes.joins_eq, JoinTable.joins_ofRoutes, List.map_map]
  refine List.mem_map.mpr ⟨rs[n - 1], List.getElem_mem hlast, ?_⟩
  have hplace : Route.place rs (some rs[n - 1]) = n := by
    rw [Route.place, hrealizes.rooted.nodup.idxOf_getElem]
    exact Nat.sub_add_cancel hn
  have hhop : rs[n - 1].hop = hop := by rw [← hr]
  simp only [Function.comp_def, Route.entry, Route.name, hplace, hhop]

theorem subqueries_leaves_replicate {c : Criterion} (h : (s.plan c).numbered = true) (n : Nat)
    (pass : Pass) : (s.leaves (List.replicate n c) pass).2.subqueries = pass.subqueries + n := by
  induction n generalizing pass with
  | zero => rfl
  | succ n ih =>
    rw [List.replicate_succ, leaves_cons, ih]
    simp only [after, h, if_true]
    omega

/-- What a criterion's own condition is depends on the criteria before it. -/
theorem Traverses.mem_nodesAll {cs : List Criterion} {ts : List (Tree Condition)} {q q' : Pass}
    (h : s.Traverses cs q ts q') {before after : List Criterion} {c : Criterion}
    (hnodes : Forest.nodes cs = before ++ c :: after) {own : Condition}
    (hown : (s.leaf c (s.leaves before q).2).1 = .ok own) : own ∈ Tree.nodesAll ts := by
  have hmem : .ok own ∈ (s.leaves (before ++ c :: after) q).1 := by
    rw [leaves_append, leaves_cons, hown]
    exact List.mem_append_right _ List.mem_cons_self
  rw [← hnodes, h.leaves_eq] at hmem
  obtain ⟨own', hown', heq⟩ := List.mem_map.mp hmem
  rwa [← Except.ok.inj heq]

theorem compiles_excluding {r : Collection} (hcollection : s.collection key = ⟨[], .ok r⟩)
    (n : Nat) : ∃ sel, s.compile (excluding key n) = .ok sel := by
  refine exists_compile_iff.mpr fun c hc => ?_
  rw [nodes_excluding] at hc
  obtain rfl := List.eq_of_mem_replicate hc
  exact ⟨_, congrArg Plan.condition (plan_excludeLike hcollection)⟩

/-- After some exclusions a further one has the next number. -/
theorem leaf_after_excluding {r : Collection} (hcollection : s.collection key = ⟨[], .ok r⟩)
    (n : Nat) :
    (s.leaf (anyText key .excludeLike none) (s.leaves (excluding key n) .empty).2).1 =
      .ok ((OwnTest.noneRelated r (.like (containing ""))).condition s.root.table (n + 1)) := by
  have hplan := plan_excludeLike hcollection
  have hnumbered : (s.plan (anyText key .excludeLike none)).numbered = true := by rw [hplan]
  have hcount := subqueries_leaves_replicate hnumbered n .empty
  rw [leaf_of_hops_nil (by rw [hplan]), hplan, after, hplan, excluding, hcount]
  simp [Except.map, Pass.empty]

/-- The last of the exclusions has the number. -/
theorem captured_by_subquery (h : s.Reads key [name] p) {n : Nat} (hn : 0 < n) :
    ∃ sel condition q, s.compile (excluding key n) = .ok sel ∧ sel.condition = some condition ∧
      .noneRelated q ∈ condition.predicates ∧ q.name = s!"{name}_sub{n}" ∧
      q.owner.table = s.root.table := by
  obtain ⟨hop, rfl, -, hcollection⟩ := exists_hop_of_reads h
  obtain ⟨m, rfl⟩ := Nat.exists_eq_succ_of_ne_zero hn.ne'
  obtain ⟨sel, hsel⟩ := compiles_excluding hcollection (m + 1)
  obtain ⟨ts, pass, hts, rfl⟩ := compile_eq_ok_iff.mp hsel
  have hsplit : excluding key (m + 1) = excluding key m ++ [anyText key .excludeLike none] :=
    List.replicate_succ'
  have hmem := hts.mem_nodesAll ((nodes_excluding key (m + 1)).trans hsplit)
    (leaf_after_excluding hcollection m)
  cases ts with
  | nil => simp [Tree.nodesAll] at hmem
  | cons t ts =>
    let r : Collection := ⟨hop.relationship, hop.target.table, p.column⟩
    refine ⟨_, _, r.related s.root.table (m + 1) (.like (containing "")), hsel, rfl, ?_, rfl, rfl⟩
    rw [Condition.predicates_gather, Tree.predicates_conditions]
    exact List.mem_flatMap.mpr ⟨_, hmem, List.mem_singleton_self _⟩

end Captures

/-- Compiling makes up different names, of relationships and numbers. Where the root table's name
is none of them, it means the root row wherever it stands, and so it always does where the name
cannot be made up. Where it can, of a relationship of the searched entity, some forest makes it
up: for a join, or for a sub-query, which then compares its own rows with themselves. -/
theorem keepsRoot_unless_captured (s : Scope) :
    (∀ forest sel, s.compile forest = .ok sel →
      sel.names.Nodup ∧ (∀ x ∈ sel.names, s.Makes forest sel x) ∧
      (s.root.table ∉ sel.names → sel.KeepsRoot s.root.table) ∧
      (¬ s.Reserves s.root.table → sel.KeepsRoot s.root.table)) ∧
    ∀ key name p n, s.Reads key [name] p → 0 < n →
      (s.root.table = s!"{name}_{n}" → ∃ forest sel, s.compile forest = .ok sel ∧
        s.root.table ∈ sel.joins.map Join.name) ∧
      (s.root.table = s!"{name}_sub{n}" → ∃ forest sel condition q, s.compile forest = .ok sel ∧
        sel.condition = some condition ∧ .noneRelated q ∈ condition.predicates ∧
        q.name = s.root.table ∧ q.owner.table = q.name) := by
  refine ⟨fun forest sel h => ?_, fun key name p n hkey hn => ⟨fun hroot => ?_, fun hroot => ?_⟩⟩
  · obtain ⟨hnodup, hmade⟩ := names_made h
    refine ⟨hnodup, hmade, keepsRoot_of_notMem h, fun hreserves => ?_⟩
    exact keepsRoot_of_notMem h fun hmem => hreserves (hmade _ hmem).reserves
  · obtain ⟨sel, hsel, hmem⟩ := captured_by_join hkey hn
    exact ⟨_, sel, hsel, hroot ▸ hmem⟩
  · obtain ⟨sel, condition, q, hsel, hcondition, hq, hname, howner⟩ := captured_by_subquery hkey hn
    exact ⟨_, sel, condition, q, hsel, hcondition, hq, hname.trans hroot.symm,
      howner.trans (hroot.trans hname.symm)⟩

/-- A name without an underscore is not made up. -/
theorem not_reserves_of_notMem {x : String} (h : '_' ∉ x.toList) : ¬ s.Reserves x := by
  rintro ⟨name, n, -, -, rfl | rfl⟩
  · rw [toList_numbered] at h
    simp at h
  · rw [toList_numberedSub] at h
    simp at h

end Scope

/-- Players under a table name of choice, with their scores. -/
def playersIn (table : String) : Scope :=
  let score : Entity := ⟨"score", "player_scores", "id", [⟨"total", "total", .integer⟩], []⟩
  let player : Entity := ⟨"player", table, "id", [],
    [⟨"scores", "score", .hasMany, "id", "player_id"⟩]⟩
  ⟨⟨[player, score]⟩, player⟩

def scored (operation : Operation) : Criterion :=
  ⟨"scores.total", operation, .text "5", [], [], none⟩

theorem reads_scored (table : String) :
    (playersIn table).Reads "scores.total" ["scores"] ⟨"total", .integer, true, none⟩ := by
  obtain ⟨relationships, hreads⟩ := Scope.exists_reads_iff.mpr
    (rfl : ((playersIn table).spot "scores.total").found = .ok ⟨"total", .integer, true, none⟩)
  obtain rfl : ["scores"] = relationships := hreads.names
  exact hreads

/-- A plain name keeps its meaning; a numbered one is taken by the join of that number. -/
theorem keepsRoot_players :
    (∃ sel, (playersIn "players").compile [scored .like, scored .excludeLike] = .ok sel ∧
      sel.names = ["scores_1", "scores_sub1"] ∧ sel.KeepsRoot "players") ∧
    ∃ forest sel, (playersIn "scores_3").compile forest = .ok sel ∧
      "scores_3" ∈ sel.joins.map Join.name := by
  obtain ⟨sel, hsel, hnames⟩ : ∃ sel,
      (playersIn "players").compile [scored .like, scored .excludeLike] = .ok sel ∧
        sel.names = ["scores_1", "scores_sub1"] := ⟨_, rfl, by decide⟩
  obtain ⟨-, -, -, hkeeps⟩ := (playersIn "players").keepsRoot_unless_captured.1 _ sel hsel
  obtain ⟨hjoin, -⟩ := (playersIn "scores_3").keepsRoot_unless_captured.2 "scores.total" "scores" _
    3 (reads_scored "scores_3") (by decide)
  exact ⟨⟨sel, hsel, hnames, hkeeps (Scope.not_reserves_of_notMem (by decide))⟩,
    hjoin (by decide)⟩

/-- A join of the scores, or a sub-query over them, takes the name of a root table that looks like
its own. The sub-query compares the columns of one row then. -/
theorem root_captured :
    (∃ sel, (playersIn "scores_1").compile [scored .like] = .ok sel ∧
      "scores_1" ∈ sel.joins.map Join.name) ∧
    ∃ sel condition q, (playersIn "scores_sub1").compile [scored .excludeLike] = .ok sel ∧
      sel.condition = some condition ∧ .noneRelated q ∈ condition.predicates ∧
      q.name = "scores_sub1" ∧ q.owner = ⟨"scores_sub1", "id"⟩ :=
  ⟨⟨_, rfl, by decide⟩, _, _, _, rfl, rfl, List.mem_singleton_self _, by decide, by decide⟩

end EntitySearch
