import EntitySearch.Proofs.Composition
import EntitySearch.Proofs.Planning
import Mathlib.Data.List.Basic
/-!
Joins by the routes to them. A table instance is reached from the root over hops under a label, and
a table of joins is the list of the routes crossed so far, each where it was first crossed. What
compiling does to joins is said here once for one hop, a chain of hops, a criterion and a forest.
-/
namespace EntitySearch
open Sql

section NumberedNames

/-- Text up to its last underscore can be told from what follows. -/
theorem eq_of_append_underscore {as bs xs ys : List Char} (hx : '_' ∉ xs) (hy : '_' ∉ ys)
    (h : as ++ '_' :: xs = bs ++ '_' :: ys) : xs = ys := by
  obtain ⟨cs, -, hc⟩ | ⟨cs, -, hc⟩ := List.append_eq_append_iff.mp h
  · cases cs with
    | nil => exact (List.cons.inj hc).2
    | cons c cs => exact absurd (by simp [(List.cons.inj hc).2]) hx
  · cases cs with
    | nil => exact (List.cons.inj hc).2.symm
    | cons c cs => exact absurd (by simp [(List.cons.inj hc).2]) hy

theorem underscore_notMem_toDigits (n : Nat) : '_' ∉ Nat.toDigits 10 n := by
  intro h
  have := Nat.isDigit_of_mem_toDigits (by decide) (by decide) h
  exact absurd this (by decide)

theorem toList_numbered (a : String) (n : Nat) :
    (s!"{a}_{n}").toList = a.toList ++ '_' :: Nat.toDigits 10 n := by
  show (a ++ "_" ++ Nat.repr n).toList = _
  simp

theorem toList_numberedSub (a : String) (n : Nat) :
    (s!"{a}_sub{n}").toList = a.toList ++ '_' :: ("sub".toList ++ Nat.toDigits 10 n) := by
  show (a ++ "_sub" ++ Nat.repr n).toList = _
  simp

/-- The number at the end of a join's name is what tells it from other joins. -/
theorem numbered_inj {a b : String} {m n : Nat} (h : s!"{a}_{m}" = s!"{b}_{n}") : m = n := by
  have hlist := congrArg String.toList h
  rw [toList_numbered, toList_numbered] at hlist
  have hdigits := eq_of_append_underscore (underscore_notMem_toDigits m)
    (underscore_notMem_toDigits n) hlist
  rw [← Nat.ofDigitChars_ten_toDigits (n := m), hdigits, Nat.ofDigitChars_ten_toDigits]

theorem underscore_notMem_sub (n : Nat) : '_' ∉ "sub".toList ++ Nat.toDigits 10 n := by
  rw [List.mem_append, not_or]
  exact ⟨by decide, underscore_notMem_toDigits n⟩

/-- The number at the end of a sub-query's name tells it from other sub-queries. -/
theorem numberedSub_inj {a b : String} {m n : Nat} (h : s!"{a}_sub{m}" = s!"{b}_sub{n}") :
    m = n := by
  have hlist := congrArg String.toList h
  rw [toList_numberedSub, toList_numberedSub] at hlist
  have hdigits := List.append_cancel_left <|
    eq_of_append_underscore (underscore_notMem_sub m) (underscore_notMem_sub n) hlist
  rw [← Nat.ofDigitChars_ten_toDigits (n := m), hdigits, Nat.ofDigitChars_ten_toDigits]

/-- No join has the name of a sub-query's table. -/
theorem numbered_ne_sub {a b : String} {m n : Nat} : s!"{a}_{m}" ≠ s!"{b}_sub{n}" := by
  intro h
  have hlist := congrArg String.toList h
  rw [toList_numbered, toList_numberedSub] at hlist
  have hdigits := eq_of_append_underscore (underscore_notMem_toDigits m) (underscore_notMem_sub n) hlist
  have hmem : 's' ∈ Nat.toDigits 10 m := by simp [hdigits]
  exact absurd (Nat.isDigit_of_mem_toDigits (by decide) (by decide) hmem) (by decide)

end NumberedNames

/-- A table instance other than the root: the label of the criteria that address it, the last hop
to it and the hops before that one, the nearest first. -/
structure Route where
  label : Option String
  up : List Hop
  hop : Hop
  deriving DecidableEq

namespace Route

/-- The instance that the last hop starts from; `none` is the root. -/
def parent : Route → Option Route
  | ⟨_, [], _⟩ => none
  | ⟨label, hop :: up, _⟩ => some ⟨label, up, hop⟩

/-- One hop on from the root or from a route. -/
def extend (label : Option String) : Option Route → Hop → Route
  | none, hop => ⟨label, [], hop⟩
  | some r, hop => ⟨r.label, r.hop :: r.up, hop⟩

/-- The routes to the instances that a chain of hops passes. -/
def along (label : Option String) : Option Route → List Hop → List Route
  | _, [] => []
  | a, hop :: hops => extend label a hop :: along label (some (extend label a hop)) hops

/-- Where a chain of hops ends. -/
def ending (label : Option String) : Option Route → List Hop → Option Route
  | a, [] => a
  | a, hop :: hops => ending label (some (extend label a hop)) hops

theorem along_concat (label : Option String) (a : Option Route) (hops : List Hop) (hop : Hop) :
    along label a (hops ++ [hop]) = along label a hops ++ [extend label (ending label a hops) hop] := by
  induction hops generalizing a with
  | nil => rfl
  | cons first hops ih => simp [along, ending, ih]

theorem ending_concat (label : Option String) (a : Option Route) (hops : List Hop) (hop : Hop) :
    ending label a (hops ++ [hop]) = some (extend label (ending label a hops) hop) := by
  induction hops generalizing a with
  | nil => rfl
  | cons first hops ih => simp [ending, ih]

@[simp] theorem parent_extend (label : Option String) (a : Option Route) (hop : Hop) :
    (extend label a hop).parent = a := by
  cases a <;> rfl

@[simp] theorem hop_extend (label : Option String) (a : Option Route) (hop : Hop) :
    (extend label a hop).hop = hop := by
  cases a <;> rfl

theorem label_extend {label : Option String} {a : Option Route} (ha : ∀ r ∈ a, r.label = label)
    (hop : Hop) : (extend label a hop).label = label := by
  cases a with
  | none => rfl
  | some r => exact ha r rfl

theorem extend_parent (r : Route) : extend r.label r.parent r.hop = r := by
  obtain ⟨label, up, hop⟩ := r
  cases up <;> rfl

/-- The place of an instance when the joins were made for the routes `rs` in this order. -/
def place (rs : List Route) : Option Route → Place
  | none => 0
  | some r => rs.idxOf r + 1

def name (root : String) (rs : List Route) : Option Route → String
  | none => root
  | some r => s!"{r.hop.relationship.name}_{place rs (some r)}"

def entry (root : String) (rs : List Route) (r : Route) : JoinEntry :=
  ⟨r.label, ⟨place rs (some r), place rs r.parent, name root rs r.parent, r.hop.relationship,
    r.hop.target.table, name root rs (some r)⟩⟩

/-- Keeps a route where it was first noted. -/
def note (rs : List Route) (r : Route) : List Route := if r ∈ rs then rs else rs ++ [r]

def noteAll (rs : List Route) (more : List Route) : List Route := more.foldl note rs

theorem place_inj {rs : List Route} {a b : Option Route} (ha : ∀ r ∈ a, r ∈ rs)
    (h : place rs a = place rs b) : a = b := by
  cases a with
  | none =>
    cases b with
    | none => rfl
    | some s => simp [place] at h
  | some r =>
    cases b with
    | none => simp [place] at h
    | some s =>
      have hidx : rs.idxOf r = rs.idxOf s := Nat.succ.inj h
      rw [(List.idxOf_inj (ha r rfl)).mp hidx]

theorem place_append {rs : List Route} {a : Option Route} (ha : ∀ r ∈ a, r ∈ rs)
    (more : List Route) : place (rs ++ more) a = place rs a := by
  cases a with
  | none => rfl
  | some r => rw [place, place, List.idxOf_append_of_mem (ha r rfl)]

theorem name_append {rs : List Route} {a : Option Route} (ha : ∀ r ∈ a, r ∈ rs) (root : String)
    (more : List Route) : name root (rs ++ more) a = name root rs a := by
  cases a with
  | none => rfl
  | some r => rw [name, name, place_append ha]

theorem name_of_prefix {rs final : List Route} (h : rs <+: final) {a : Option Route}
    (ha : ∀ r ∈ a, r ∈ rs) (root : String) : name root final a = name root rs a := by
  obtain ⟨more, rfl⟩ := h
  exact name_append ha root more

/-- Joins of different routes have different names. -/
theorem name_inj {root : String} {rs : List Route} {r r' : Route} (hr : r ∈ rs)
    (h : name root rs (some r) = name root rs (some r')) : r = r' := by
  have hplace := numbered_inj h
  exact Option.some.inj (place_inj (by simpa using hr) hplace)

/-- The instance that has a name, the root where no join has it. -/
def named (root : String) (rs : List Route) (x : String) : Option Route :=
  rs.find? fun r => name root rs (some r) == x

theorem named_name {root : String} {rs : List Route}
    (hroot : ∀ r ∈ rs, name root rs (some r) ≠ root) {a : Option Route} (ha : ∀ r ∈ a, r ∈ rs) :
    named root rs (name root rs a) = a := by
  cases a with
  | none =>
    apply List.find?_eq_none.mpr
    intro r hr
    rw [beq_iff_eq]
    exact hroot r hr
  | some r =>
    unfold named
    cases hfind : rs.find? _ with
    | none =>
      have := List.find?_eq_none.mp hfind r (ha r rfl)
      exact absurd (beq_self_eq_true _) this
    | some x =>
      have hname := List.find?_some hfind
      rw [name_inj (List.mem_of_find?_eq_some hfind) (beq_iff_eq.mp hname)]

theorem mem_note {rs : List Route} {r x : Route} : x ∈ note rs r ↔ x ∈ rs ∨ x = r := by
  unfold note
  split
  next h =>
    constructor
    · exact Or.inl
    · rintro (hx | rfl)
      · exact hx
      · exact h
  next => simp

theorem mem_noteAll {rs more : List Route} {x : Route} :
    x ∈ noteAll rs more ↔ x ∈ rs ∨ x ∈ more := by
  induction more generalizing rs with
  | nil => simp [noteAll]
  | cons r more ih =>
    have hmore : x ∈ noteAll (note rs r) more ↔ x ∈ note rs r ∨ x ∈ more := ih
    rw [noteAll, List.foldl_cons, ← noteAll, hmore, mem_note, List.mem_cons, or_assoc]

theorem noteAll_append (rs more others : List Route) :
    noteAll rs (more ++ others) = noteAll (noteAll rs more) others := by
  simp [noteAll]

theorem noteAll_concat (rs more : List Route) (r : Route) :
    noteAll rs (more ++ [r]) = note (noteAll rs more) r :=
  noteAll_append rs more [r]

theorem prefix_note (rs : List Route) (r : Route) : rs <+: note rs r := by
  unfold note
  split
  · exact List.prefix_rfl
  · exact List.prefix_append rs [r]

theorem prefix_noteAll (rs more : List Route) : rs <+: noteAll rs more := by
  induction more generalizing rs with
  | nil => exact List.prefix_rfl
  | cons r more ih => exact (prefix_note rs r).trans (ih (note rs r))

end Route

/-- The joins for routes, in their order. -/
def JoinTable.ofRoutes (root : String) (rs : List Route) : JoinTable := ⟨rs.map (Route.entry root rs)⟩

namespace Scope
variable {s : Scope}

/-- The entity whose rows an instance holds. -/
def entityAt (s : Scope) (a : Option Route) : Entity := a.elim s.root fun r => r.hop.target

/-- The registry has the hop from an entity. -/
def HasHop (s : Scope) (e : Entity) (hop : Hop) : Prop :=
  s.registry.hop e hop.relationship.name = .ok hop

/-- Every route is crossed once, after the route it goes on from, over a registered hop. -/
inductive Rooted (s : Scope) : List Route → Prop
  | nil : Rooted s []
  | snoc {rs : List Route} {r : Route} : Rooted s rs → r ∉ rs → (∀ p ∈ r.parent, p ∈ rs) →
      s.HasHop (s.entityAt r.parent) r.hop → Rooted s (rs ++ [r])

namespace Rooted

theorem nodup {rs : List Route} (h : s.Rooted rs) : rs.Nodup := by
  induction h with
  | nil => exact List.nodup_nil
  | snoc _ hr _ _ ih =>
    rw [List.nodup_append]
    refine ⟨ih, by simp, fun a ha b hb => ?_⟩
    obtain rfl := List.mem_singleton.mp hb
    exact fun hab => hr (hab ▸ ha)

theorem parent_mem {rs : List Route} (h : s.Rooted rs) {r : Route} (hr : r ∈ rs) :
    ∀ p ∈ r.parent, p ∈ rs := by
  induction h with
  | nil => simp at hr
  | snoc _ _ hparent _ ih =>
    intro p hp
    rcases List.mem_append.mp hr with hr | hr
    · exact List.mem_append_left _ (ih hr p hp)
    · obtain rfl := List.mem_singleton.mp hr
      exact List.mem_append_left _ (hparent p hp)

theorem hasHop {rs : List Route} (h : s.Rooted rs) {r : Route} (hr : r ∈ rs) :
    s.HasHop (s.entityAt r.parent) r.hop := by
  induction h with
  | nil => simp at hr
  | snoc _ _ _ hhop ih =>
    rcases List.mem_append.mp hr with hr | hr
    · exact ih hr
    · obtain rfl := List.mem_singleton.mp hr
      exact hhop

theorem note {rs : List Route} (h : s.Rooted rs) {label : Option String} {a : Option Route}
    {hop : Hop} (ha : ∀ r ∈ a, r ∈ rs) (hhop : s.HasHop (s.entityAt a) hop) :
    s.Rooted (Route.note rs (.extend label a hop)) := by
  unfold Route.note
  split
  next => exact h
  next hmem => exact h.snoc hmem (by simpa using ha) (by simpa using hhop)

end Rooted

/-- A route is told by its label, the instance before it and the name of its last relationship. -/
theorem eq_extend_of_hasHop {r : Route} {a : Option Route} {hop : Hop} {label : Option String}
    (hr : s.HasHop (s.entityAt r.parent) r.hop) (ha : s.HasHop (s.entityAt a) hop)
    (hparent : r.parent = a) (hlabel : r.label = label)
    (hname : r.hop.relationship.name = hop.relationship.name) : r = .extend label a hop := by
  have hhop : r.hop = hop := by
    unfold HasHop at hr ha
    rw [hparent, hname] at hr
    exact Except.ok.inj (hr.symm.trans ha)
  rw [← hparent, ← hlabel, ← hhop, Route.extend_parent]

end Scope

namespace JoinTable
variable {s : Scope} {rs : List Route} {root : String}

@[simp] theorem size_ofRoutes : (ofRoutes root rs).size = rs.length := by
  simp [size, ofRoutes]

theorem joins_ofRoutes : (ofRoutes root rs).joins = rs.map fun r => (Route.entry root rs r).join := by
  simp only [joins, ofRoutes, List.map_map, Function.comp_def]

theorem nameAt_ofRoutes {a : Option Route} (ha : ∀ r ∈ a, r ∈ rs) :
    (ofRoutes root rs).nameAt root (Route.place rs a) = Route.name root rs a := by
  cases a with
  | none => rfl
  | some r =>
    have hr : r ∈ rs := ha r rfl
    have hget : rs[rs.idxOf r]? = some r := by
      rw [List.getElem?_eq_getElem (List.idxOf_lt_length_of_mem hr), List.getElem_idxOf]
    simp [nameAt, Route.place, ofRoutes, hget, Route.entry]

/-- A join is found for a route that was crossed before, and only then. -/
theorem find?_ofRoutes (h : s.Rooted rs) {a : Option Route} {hop : Hop} {label : Option String}
    (ha : ∀ r ∈ a, r ∈ rs ∧ r.label = label) (hhop : s.HasHop (s.entityAt a) hop) :
    (ofRoutes root rs).find? (Route.place rs a) hop.relationship.name label =
      if Route.extend label a hop ∈ rs then some (Route.entry root rs (.extend label a hop))
      else none := by
  have hmatch (r : Route) (hr : r ∈ rs) :
      (Route.place rs r.parent = Route.place rs a ∧
        r.hop.relationship.name = hop.relationship.name) ∧ r.label = label ↔
      r = .extend label a hop := by
    constructor
    · rintro ⟨⟨hplace, hname⟩, hlabel⟩
      have hparent := Route.place_inj (h.parent_mem hr) hplace
      exact Scope.eq_extend_of_hasHop (h.hasHop hr) hhop hparent hlabel hname
    · rintro rfl
      rw [Route.parent_extend, Route.hop_extend, Route.label_extend fun r hr => (ha r hr).2]
      exact ⟨⟨rfl, rfl⟩, rfl⟩
  unfold find? ofRoutes
  rw [List.find?_map]
  cases hfind : rs.find? _ with
  | none =>
    rw [if_neg, Option.map_none]
    intro hmem
    have := List.find?_eq_none.mp hfind _ hmem
    simp only [Function.comp_def, Route.entry, Bool.and_eq_true, beq_iff_eq] at this
    exact this ((hmatch _ hmem).mpr rfl)
  | some r =>
    have hr := List.mem_of_find?_eq_some hfind
    have := List.find?_some hfind
    simp only [Function.comp_def, Route.entry, Bool.and_eq_true, beq_iff_eq] at this
    obtain rfl := (hmatch r hr).mp this
    rw [if_pos hr, Option.map_some]

theorem ofRoutes_snoc (h : s.Rooted rs) (r : Route) :
    ofRoutes root (rs ++ [r]) =
      ⟨(ofRoutes root rs).entries ++ [Route.entry root (rs ++ [r]) r]⟩ := by
  have hsame : rs.map (Route.entry root (rs ++ [r])) = rs.map (Route.entry root rs) := by
    apply List.map_congr_left
    intro x hx
    have hself : ∀ y ∈ some x, y ∈ rs := by simpa using hx
    have hparent := h.parent_mem hx
    simp only [Route.entry, Route.place_append hself, Route.place_append hparent,
      Route.name_append hself, Route.name_append hparent]
  simp [ofRoutes, hsame]

/-- One hop notes one route. -/
theorem cross_ofRoutes (h : s.Rooted rs) {a : Option Route} {hop : Hop} {label : Option String}
    (ha : ∀ r ∈ a, r ∈ rs ∧ r.label = label) (hhop : s.HasHop (s.entityAt a) hop) :
    (ofRoutes root rs).cross root label (Route.place rs a) hop =
      (ofRoutes root (Route.note rs (.extend label a hop)),
        Route.place (Route.note rs (.extend label a hop)) (some (.extend label a hop))) := by
  have hmem : ∀ r ∈ a, r ∈ rs := fun r hr => (ha r hr).1
  unfold cross
  rw [find?_ofRoutes h ha hhop]
  by_cases hold : Route.extend label a hop ∈ rs
  · simp only [if_pos hold, Route.note, Route.entry]
  · have hplace : Route.place (rs ++ [Route.extend label a hop])
        (some (.extend label a hop)) = rs.length + 1 := by
      simp [Route.place, List.idxOf_append_of_notMem hold]
    have hname : Route.name root (rs ++ [Route.extend label a hop])
        (some (.extend label a hop)) = s!"{hop.relationship.name}_{rs.length + 1}" := by
      rw [Route.name, hplace, Route.hop_extend]
    have hlabel := Route.label_extend (fun r hr => (ha r hr).2) hop
    simp only [if_neg hold, Route.note, ofRoutes_snoc h, size_ofRoutes, nameAt_ofRoutes hmem,
      Route.entry, hplace, hname, hlabel, Route.parent_extend, Route.hop_extend,
      Route.place_append hmem, Route.name_append hmem]

end JoinTable

theorem Registry.hop_eq_ok_iff {g : Registry} {e : Entity} {name : String} {hop : Hop} :
    g.hop e name = .ok hop ↔
      e.relationship? name = some hop.relationship ∧
        g.get? hop.relationship.target = some hop.target := by
  constructor
  · intro h
    unfold Registry.hop at h
    split at h
    next => simp at h
    next r hr =>
      split at h
      next => simp at h
      next target htarget =>
        obtain rfl := Except.ok.inj h
        exact ⟨hr, htarget⟩
  · rintro ⟨hr, htarget⟩
    simp only [Registry.hop, hr, htarget]

namespace Scope
variable {s : Scope}

/-- A chain of registered hops that starts from an entity. -/
def Walks (s : Scope) : Entity → List Hop → Prop
  | _, [] => True
  | e, hop :: hops => s.HasHop e hop ∧ s.Walks hop.target hops

/-- A chain of hops notes the routes along it. -/
theorem follow_ofRoutes {root : String} {rs : List Route} (h : s.Rooted rs) {a : Option Route}
    {hops : List Hop} {label : Option String} (ha : ∀ r ∈ a, r ∈ rs ∧ r.label = label)
    (hw : s.Walks (s.entityAt a) hops) :
    let rs' := Route.noteAll rs (Route.along label a hops)
    (JoinTable.ofRoutes root rs).follow root label (Route.place rs a) hops =
        (JoinTable.ofRoutes root rs', Route.place rs' (Route.ending label a hops)) ∧
      s.Rooted rs' ∧ ∀ r ∈ Route.ending label a hops, r ∈ rs' ∧ r.label = label := by
  induction hops generalizing rs a with
  | nil => exact ⟨rfl, h, ha⟩
  | cons hop hops ih =>
    obtain ⟨hhop, hw⟩ := hw
    have hmem : ∀ r ∈ a, r ∈ rs := fun r hr => (ha r hr).1
    have hnext : ∀ r ∈ some (Route.extend label a hop),
        r ∈ Route.note rs (.extend label a hop) ∧ r.label = label := by
      intro r hr
      obtain rfl := Option.some.inj hr
      exact ⟨Route.mem_note.mpr (Or.inr rfl), Route.label_extend (fun r hr => (ha r hr).2) hop⟩
    have hw' : s.Walks (s.entityAt (some (Route.extend label a hop))) hops := by
      simpa [entityAt] using hw
    obtain ⟨hfollow, hrest⟩ := ih (h.note hmem hhop) hnext hw'
    refine ⟨?_, hrest⟩
    rw [JoinTable.follow, JoinTable.cross_ofRoutes h ha hhop]
    exact hfollow

theorem name_of_hop {g : Registry} {e : Entity} {name : String} {hop : Hop}
    (h : g.hop e name = .ok hop) : hop.relationship.name = name :=
  Entity.name_of_relationship? (Registry.hop_eq_ok_iff.mp h).1

theorem walks_walk (e : Entity) (names : List String) :
    s.Walks e (s.registry.walk e names).hops := by
  induction names generalizing e with
  | nil => exact trivial
  | cons name names ih =>
    rw [Registry.walk]
    split
    next => exact trivial
    next hop hhop =>
      refine ⟨?_, ih hop.target⟩
      rw [HasHop, name_of_hop hhop]
      exact hhop

theorem walks_spot (key : String) : s.Walks s.root (s.spot key).hops := by
  unfold spot
  split
  next => exact trivial
  next segments _ =>
    unfold chainSpot
    split
    · exact trivial
    · exact walks_walk _ _

theorem walks_collection (key : String) : s.Walks s.root (s.collection key).hops := by
  unfold collection
  split
  next => exact trivial
  next segments _ =>
    dsimp only
    split
    · exact trivial
    · split
      · exact trivial
      · exact walks_walk _ _

/-- A criterion's hops are those of the field or of the collection that its key addresses, or none
where its operand is refused first. -/
theorem plan_hops (c : Criterion) :
    (s.plan c).hops = [] ∨ (s.plan c).hops = (s.spot c.key).hops ∨
      (s.plan c).hops = (s.collection c.key).hops := by
  have hlike (pattern : String → String) : (s.planPattern c pattern).hops = [] ∨
      (s.planPattern c pattern).hops = (s.spot c.key).hops := by
    unfold planPattern
    cases c.textValue
    · exact Or.inl rfl
    · exact Or.inr rfl
  have hmembership (test : List Value → ColumnTest) (ifEmpty : Bool) :
      (s.planList c test ifEmpty).hops = [] ∨
        (s.planList c test ifEmpty).hops = (s.spot c.key).hops := by
    unfold planList
    cases c.listValues
    · exact Or.inl rfl
    · exact Or.inr rfl
  rw [plan_eq]
  by_cases hshape : c.operand.hasShape c.operation.shape = true
  case neg =>
    rw [if_neg hshape]
    exact Or.inl rfl
  case pos =>
    rw [if_pos hshape]
    clear hshape
    cases c.operation with
    | excludeIn | excludeLike => exact Or.inr (Or.inr rfl)
    | like | likeStart | likeEnd => exact (hlike _).imp id Or.inl
    | inList | notInList => exact (hmembership _ _).imp id Or.inl
    | _ => exact Or.inr (Or.inl rfl)

theorem walks_plan (c : Criterion) : s.Walks s.root (s.plan c).hops := by
  rcases s.plan_hops c with h | h | h
  · rw [h]
    exact trivial
  · rw [h]
    exact walks_spot c.key
  · rw [h]
    exact walks_collection c.key

/-- The routes that a criterion asks for, and the instance that it tests. -/
def routes (s : Scope) (c : Criterion) : List Route := Route.along c.label none (s.plan c).hops

def instanceOf (s : Scope) (c : Criterion) : Option Route :=
  Route.ending c.label none (s.plan c).hops

theorem follow_plan {rs : List Route} (h : s.Rooted rs) (c : Criterion) :
    let rs' := Route.noteAll rs (s.routes c)
    (JoinTable.ofRoutes s.root.table rs).follow s.root.table c.label 0 (s.plan c).hops =
        (JoinTable.ofRoutes s.root.table rs', Route.place rs' (s.instanceOf c)) ∧
      s.Rooted rs' ∧ ∀ r ∈ s.instanceOf c, r ∈ rs' := by
  have hstart : ∀ r ∈ (none : Option Route), r ∈ rs ∧ r.label = c.label := by simp
  obtain ⟨hfollow, hrooted, hmem⟩ := follow_ofRoutes h hstart (s.walks_plan c)
  exact ⟨hfollow, hrooted, fun r hr => (hmem r hr).1⟩

theorem joins_after {rs : List Route} (h : s.Rooted rs) (c : Criterion) {pass : Pass}
    (hp : pass.joins = .ofRoutes s.root.table rs) :
    (s.after c pass).joins = .ofRoutes s.root.table (Route.noteAll rs (s.routes c)) := by
  rw [after, hp, (follow_plan h c).1]

theorem instanceName_eq {rs : List Route} (h : s.Rooted rs) (c : Criterion) {pass : Pass}
    (hp : pass.joins = .ofRoutes s.root.table rs) :
    s.instanceName c pass =
      Route.name s.root.table (Route.noteAll rs (s.routes c)) (s.instanceOf c) := by
  rw [instanceName, joins_after h c hp, hp, (follow_plan h c).1,
    JoinTable.nameAt_ofRoutes (follow_plan h c).2.2]

end Scope

namespace Scope
variable {s : Scope}

/-- The routes that the criteria of a forest ask for. -/
def routesOf (s : Scope) (cs : Forest) : List Route := (Forest.nodes cs).flatMap s.routes

theorem routesOf_cons (c : Criterion) (cs : Forest) :
    s.routesOf (c :: cs) = s.routes c ++ (s.routesOf c.allOf ++ s.routesOf c.anyOf) ++
      s.routesOf cs := by
  simp [routesOf, Forest.nodes_cons]

theorem routesOf_append (cs ds : Forest) : s.routesOf (cs ++ ds) = s.routesOf cs ++ s.routesOf ds := by
  rw [routesOf, Forest.nodes_append, List.flatMap_append]
  rfl

theorem mem_routes_of_mem_instanceOf {c : Criterion} {r : Route} (h : r ∈ s.instanceOf c) :
    r ∈ s.routes c := by
  have hmem := (follow_plan Rooted.nil c).2.2 r h
  exact (Route.mem_noteAll.mp hmem).resolve_left List.not_mem_nil

/-- The joins after compiling criteria one after the other are those of the routes that they ask
for, each at its first use. -/
theorem joins_leaves (cs : List Criterion) {p : Pass} {rs : List Route} (hrs : s.Rooted rs)
    (hp : p.joins = .ofRoutes s.root.table rs) :
    let rs' := Route.noteAll rs (cs.flatMap s.routes)
    (s.leaves cs p).2.joins = .ofRoutes s.root.table rs' ∧ s.Rooted rs' := by
  induction cs generalizing rs p with
  | nil => exact ⟨hp, hrs⟩
  | cons c cs ih =>
    have hrest := ih (follow_plan hrs c).2.1 (joins_after hrs c hp)
    simpa only [leaves_cons, List.flatMap_cons, Route.noteAll_append] using hrest

theorem Traverses.joins_eq {cs : List Criterion} {ts : List (Tree Condition)} {p p' : Pass}
    (h : s.Traverses cs p ts p') {rs : List Route} (hrs : s.Rooted rs)
    (hp : p.joins = .ofRoutes s.root.table rs) :
    let rs' := Route.noteAll rs (s.routesOf cs)
    p'.joins = .ofRoutes s.root.table rs' ∧ s.Rooted rs' := by
  have hjoins := joins_leaves (Forest.nodes cs) hrs hp
  rwa [h.leaves_eq] at hjoins

end Scope
end EntitySearch
