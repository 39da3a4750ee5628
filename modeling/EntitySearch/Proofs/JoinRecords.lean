import EntitySearch.Proofs.Resolution
import EntitySearch.Proofs.Scoping
/-!
What a resolver keeps of its joins. They are numbered in their order, each goes on from the root or
an earlier one, and an index leads from what a join is asked for by to its number. Calls, failing
ones included, only add joins; a call that was made before adds none and has the same answer.
-/
namespace EntitySearch
open Sql

/-- What a join is asked for by. -/
structure JoinKey where
  parent : Place
  relationship : String
  label : Option String
  deriving DecidableEq, Hashable

def JoinEntry.key (e : JoinEntry) : JoinKey := ⟨e.join.parent, e.join.relationship.name, e.label⟩

/-- Joins in their order, beside an index from keys to their numbers. -/
structure JoinCache where
  joins : List Join
  index : Std.HashMap JoinKey Place

namespace JoinCache

def empty : JoinCache := ⟨[], ∅⟩

/-- The join for one hop: the one that the index has, or a new one. -/
def cross (root : String) (label : Option String) (c : JoinCache) (place : Place) (hop : Hop) :
    JoinCache × Place :=
  let key : JoinKey := ⟨place, hop.relationship.name, label⟩
  match c.index[key]? with
  | some id => (c, id)
  | none =>
    let id := c.joins.length + 1
    let name := s!"{hop.relationship.name}_{id}"
    let join : Join :=
      ⟨id, place, Join.nameAt root c.joins place, hop.relationship, hop.target.table, name⟩
    (⟨c.joins ++ [join], c.index.insert key id⟩, id)

def follow (root : String) (label : Option String) :
    JoinCache → Place → List Hop → JoinCache × Place
  | c, place, [] => (c, place)
  | c, place, hop :: hops =>
    let (c, place) := c.cross root label place hop
    follow root label c place hops

theorem follow_cons (root : String) (label : Option String) (c : JoinCache) (place : Place)
    (hop : Hop) (hops : List Hop) : c.follow root label place (hop :: hops) =
      (c.cross root label place hop).1.follow root label (c.cross root label place hop).2 hops :=
  rfl

/-- Joins and index are in step with a table of entries, which stands for both. -/
structure Represents (c : JoinCache) (t : JoinTable) : Prop where
  joins_eq : c.joins = t.joins
  index_eq : ∀ key : JoinKey, c.index[key]? =
    (t.entries.find? fun e => e.key = key).map fun e => e.join.id

theorem represents_empty : empty.Represents .empty where
  joins_eq := rfl
  index_eq key := by simp [empty, JoinTable.empty]

end JoinCache

theorem JoinTable.follow_cons (root : String) (label : Option String) (t : JoinTable)
    (place : Place) (hop : Hop) (hops : List Hop) : t.follow root label place (hop :: hops) =
      (t.cross root label place hop).1.follow root label (t.cross root label place hop).2 hops :=
  rfl

theorem JoinTable.find?_eq (t : JoinTable) (place : Place) (relationship : String)
    (label : Option String) : t.find? place relationship label =
      t.entries.find? fun e => e.key = ⟨place, relationship, label⟩ := by
  unfold find?
  congr 1
  funext e
  rw [Bool.eq_iff_iff]
  simp [JoinEntry.key, and_assoc]

namespace JoinCache.Represents
variable {c : JoinCache} {t : JoinTable}

/-- A new entry goes into both. -/
theorem add (h : c.Represents t) (e : JoinEntry) (hnew : t.entries.find? (·.key = e.key) = none) :
    (JoinCache.mk (t.joins ++ [e.join]) (c.index.insert e.key e.join.id)).Represents
      ⟨t.entries ++ [e]⟩ where
  joins_eq := by simp [JoinTable.joins]
  index_eq key := by
    rw [Std.HashMap.getElem?_insert, List.find?_append, h.index_eq]
    by_cases hkey : e.key = key
    · obtain rfl := hkey
      simp [hnew]
    · simp [hkey]

variable (root : String) (label : Option String)

/-- One hop: both find the join or both make it. -/
theorem cross (h : c.Represents t) (place : Place) (hop : Hop) :
    (c.cross root label place hop).1.Represents (t.cross root label place hop).1 ∧
      (c.cross root label place hop).2 = (t.cross root label place hop).2 := by
  have hindex := h.index_eq ⟨place, hop.relationship.name, label⟩
  have hfind := t.find?_eq place hop.relationship.name label
  have hlength : t.joins.length = t.size := List.length_map _
  rw [← hfind] at hindex
  cases hold : t.find? place hop.relationship.name label with
  | some e =>
    rw [hold] at hindex
    simp only [JoinCache.cross, hindex, JoinTable.cross, hold]
    exact ⟨h, rfl⟩
  | none =>
    rw [hold] at hindex hfind
    simp only [JoinCache.cross, hindex, JoinTable.cross, hold, Option.map_none, h.joins_eq,
      hlength, ← JoinTable.nameAt_eq]
    exact ⟨h.add ⟨label, _⟩ hfind.symm, trivial⟩

theorem follow (h : c.Represents t) (place : Place) (hops : List Hop) :
    (c.follow root label place hops).1.Represents (t.follow root label place hops).1 ∧
      (c.follow root label place hops).2 = (t.follow root label place hops).2 := by
  induction hops generalizing c t place with
  | nil => exact ⟨h, rfl⟩
  | cons hop hops ih =>
    obtain ⟨hcross, hplace⟩ := h.cross root label place hop
    rw [JoinCache.follow_cons, JoinTable.follow_cons, hplace]
    exact ih hcross _

end JoinCache.Represents

namespace Resolution

def label : Resolution → Option String
  | field _ label | collection _ label => label

/-- The relationships that a call names, the last one of a collection included. -/
def relationships : Resolution → List String
  | field key _ | collection key _ =>
    match Key.ofText key with
    | .document .. => []
    | .chain segments => segments.dropLast

end Resolution

namespace Scope
variable (s : Scope)

/-- The hops that a call makes. -/
def hopsOf : Resolution → List Hop
  | .field key _ => (s.spot key).hops
  | .collection key _ => (s.collection key).hops

/-- What a call answers: a field or a collection, with the table instance at the end of its hops. -/
def answer (t : JoinTable) : Resolution → Except SearchError (String × (Spot ⊕ Collection))
  | .field key label => (s.resolve key label t).1.map fun (name, p) => (name, .inl p)
  | .collection key label => (s.resolveCollection key label t).1.map fun (name, r) => (name, .inr r)

/-- What a call finds, wherever its hops end. -/
def found : Resolution → Except SearchError (Spot ⊕ Collection)
  | .field key _ => ((s.spot key).result key).map .inl
  | .collection key _ => ((s.collection key).result key).map .inr

/-- What a call answers with a cache. -/
def cachedAnswer (c : JoinCache) (call : Resolution) :
    Except SearchError (String × (Spot ⊕ Collection)) :=
  let (c, place) := c.follow s.root.table call.label 0 (s.hopsOf call)
  (s.found call).map fun x => (Join.nameAt s.root.table c.joins place, x)

/-- The cache after calls in this order, empty at first. -/
def cached (calls : List Resolution) : JoinCache :=
  calls.foldl (fun c call => (c.follow s.root.table call.label 0 (s.hopsOf call)).1) .empty

/-- The entity whose rows the instance at a place holds. -/
inductive Instance (s : Scope) (t : JoinTable) : Place → Entity → Prop
  | root : Instance s t 0 s.root
  | join {e : JoinEntry} {target : Entity} : e ∈ t.entries →
      s.registry.get? e.join.relationship.target = some target → Instance s t e.join.id target

/-- Joins are numbered in their order and go on from the root or an earlier join, over a
relationship of the entity there, to the table of the relationship's target. No two are asked for
by one key. -/
structure Records (s : Scope) (t : JoinTable) : Prop where
  id_eq : ∀ i e, t.entries[i]? = some e → e.join.id = i + 1
  name_eq : ∀ e ∈ t.entries, e.join.name = s!"{e.join.relationship.name}_{e.join.id}"
  parent : ∀ e ∈ t.entries, e.join.parent < e.join.id ∧
    (e.join.parent = 0 → e.join.parentName = s.root.table) ∧
    (e.join.parent ≠ 0 → ∃ e' ∈ t.entries, e'.join.id = e.join.parent ∧ e'.label = e.label ∧
      e.join.parentName = e'.join.name)
  target : ∀ e ∈ t.entries, ∃ origin target, s.Instance t e.join.parent origin ∧
    origin.relationship? e.join.relationship.name = some e.join.relationship ∧
    s.registry.get? e.join.relationship.target = some target ∧ e.join.table = target.table
  keys : (t.entries.map JoinEntry.key).Nodup

variable {s} {rs : List Route}

theorem called_eq (t : JoinTable) (call : Resolution) :
    s.called t call = (t.follow s.root.table call.label 0 (s.hopsOf call)).1 := by
  cases call <;> rfl

/-- The cache is in step with the table after any calls. -/
theorem represents_cached (calls : List Resolution) :
    (s.cached calls).Represents (s.resolved calls) := by
  induction calls using List.reverseRecOn with
  | nil => exact JoinCache.represents_empty
  | append_singleton calls call ih =>
    rw [cached, resolved, List.foldl_append, List.foldl_append, List.foldl_cons, List.foldl_cons,
      called_eq]
    exact (ih.follow s.root.table call.label 0 (s.hopsOf call)).1

/-- The same instance is answered with either. -/
theorem cachedAnswer_eq {c : JoinCache} {t : JoinTable} (h : c.Represents t) (call : Resolution) :
    s.cachedAnswer c call = s.answer t call := by
  obtain ⟨hfollow, hplace⟩ := h.follow s.root.table call.label 0 (s.hopsOf call)
  have hcached : s.cachedAnswer c call = (s.found call).map fun x =>
      ((t.follow s.root.table call.label 0 (s.hopsOf call)).1.nameAt s.root.table
        (t.follow s.root.table call.label 0 (s.hopsOf call)).2, x) := by
    rw [JoinTable.nameAt_eq, ← hfollow.joins_eq, ← hplace]
    rfl
  rw [hcached]
  cases call with
  | field key label =>
    rw [answer, found, resolve]
    cases hresult : (s.spot key).result key <;> simp only [reach, hresult] <;> rfl
  | collection key label =>
    rw [answer, found, resolveCollection]
    cases hresult : (s.collection key).result key <;> simp only [reach, hresult] <;> rfl

section Routes

theorem getElem?_ofRoutes {root : String} {i : Nat} {e : JoinEntry} :
    (JoinTable.ofRoutes root rs).entries[i]? = some e ↔
      ∃ r, rs[i]? = some r ∧ Route.entry root rs r = e := by
  simp [JoinTable.ofRoutes]

theorem Rooted.place_getElem? (h : s.Rooted rs) {i : Nat} {r : Route} (hr : rs[i]? = some r) :
    Route.place rs (some r) = i + 1 := by
  obtain ⟨hi, rfl⟩ := List.getElem?_eq_some_iff.mp hr
  rw [Route.place, h.nodup.idxOf_getElem]

theorem Rooted.place_parent_lt (h : s.Rooted rs) {r : Route} (hr : r ∈ rs) :
    Route.place rs r.parent < Route.place rs (some r) := by
  cases hparent : r.parent with
  | none => exact Nat.succ_pos _
  | some p =>
    -- the parent is among the routes before this one, which is not one of them itself
    obtain ⟨before, after, rfl⟩ := List.append_of_mem hr
    have hp := h.parent_before p hparent
    have hnot : r ∉ before := by
      have hnodup := h.nodup
      rw [List.nodup_append] at hnodup
      exact fun hmem => hnodup.2.2 r hmem r List.mem_cons_self rfl
    have hfirst : (before ++ r :: after).idxOf p < before.length := by
      rw [List.idxOf_append_of_mem hp]
      exact List.idxOf_lt_length_of_mem hp
    have hsecond : before.length ≤ (before ++ r :: after).idxOf r := by
      rw [List.idxOf_append_of_notMem hnot]
      exact Nat.le_add_right _ _
    exact Nat.succ_lt_succ (hfirst.trans_le hsecond)

theorem instance_ofRoutes (h : s.Rooted rs) {a : Option Route} (ha : ∀ r ∈ a, r ∈ rs) :
    s.Instance (.ofRoutes s.root.table rs) (Route.place rs a) (s.entityAt a) := by
  cases a with
  | none => exact .root
  | some r =>
    have hr := ha r rfl
    exact .join (mem_entries_ofRoutes.mpr ⟨r, hr, rfl⟩) (Registry.hop_eq_ok_iff.mp (h.hasHop hr)).2

theorem Rooted.records (h : s.Rooted rs) : s.Records (.ofRoutes s.root.table rs) where
  id_eq i e he := by
    obtain ⟨r, hr, rfl⟩ := getElem?_ofRoutes.mp he
    exact h.place_getElem? hr
  name_eq e he := by
    obtain ⟨r, -, rfl⟩ := mem_entries_ofRoutes.mp he
    rfl
  parent e he := by
    obtain ⟨r, hr, rfl⟩ := mem_entries_ofRoutes.mp he
    refine ⟨h.place_parent_lt hr, ?_⟩
    cases hparent : r.parent with
    | none => simp [Route.entry, hparent, Route.place, Route.name]
    | some p =>
      have hp := h.parent_mem hr p hparent
      simp only [Route.entry, hparent]
      refine ⟨fun hzero => absurd hzero (Nat.succ_ne_zero _), fun _ => ?_⟩
      exact ⟨_, mem_entries_ofRoutes.mpr ⟨p, hp, rfl⟩, rfl, Route.label_parent r p hparent, rfl⟩
  target e he := by
    obtain ⟨r, hr, rfl⟩ := mem_entries_ofRoutes.mp he
    obtain ⟨hrelationship, htarget⟩ := Registry.hop_eq_ok_iff.mp (h.hasHop hr)
    exact ⟨_, _, instance_ofRoutes h (h.parent_mem hr), hrelationship, htarget, rfl⟩
  keys := by
    rw [JoinTable.ofRoutes, List.map_map]
    refine List.Nodup.map_on (fun r hr r' hr' hkey => ?_) h.nodup
    obtain ⟨hplace, hname, hlabel⟩ := JoinKey.mk.inj hkey
    have hparent := Route.place_inj (h.parent_mem hr) hplace
    change r.label = r'.label at hlabel
    rw [eq_extend_of_hasHop (h.hasHop hr) (h.hasHop hr') hparent hlabel hname, Route.extend_parent]

theorem Rooted.entries_append (h : s.Rooted rs) (root : String) (more : List Route) :
    (JoinTable.ofRoutes root (rs ++ more)).entries =
      (JoinTable.ofRoutes root rs).entries ++ more.map (Route.entry root (rs ++ more)) := by
  have hsame : rs.map (Route.entry root (rs ++ more)) = rs.map (Route.entry root rs) := by
    apply List.map_congr_left
    intro r hr
    have hself : ∀ x ∈ some r, x ∈ rs := by simpa using hr
    have hparent := h.parent_mem hr
    simp only [Route.entry, Route.place_append hself, Route.place_append hparent,
      Route.name_append hself, Route.name_append hparent]
  rw [JoinTable.ofRoutes, List.map_append, hsame]
  rfl

theorem walks_hopsOf (call : Resolution) : s.Walks s.root (s.hopsOf call) := by
  cases call with
  | field key label => exact s.walks_spot key
  | collection key label => exact s.walks_collection key

/-- The routes that a call asks for. -/
def asked (s : Scope) (call : Resolution) : List Route :=
  Route.along call.label none (s.hopsOf call)

/-- The instance that a call ends at. -/
def asksFor (s : Scope) (call : Resolution) : Option Route :=
  Route.ending call.label none (s.hopsOf call)

theorem called_ofRoutes (h : s.Rooted rs) (call : Resolution) :
    s.called (.ofRoutes s.root.table rs) call =
        .ofRoutes s.root.table (Route.noteAll rs (s.asked call)) ∧
      s.Rooted (Route.noteAll rs (s.asked call)) ∧
      ∀ r ∈ s.asksFor call, r ∈ Route.noteAll rs (s.asked call) ∧ r.label = call.label := by
  have hstart : ∀ r ∈ (none : Option Route), r ∈ rs ∧ r.label = call.label := by simp
  obtain ⟨hfollow, hrooted, hmem⟩ :=
    @follow_ofRoutes s s.root.table rs h none _ call.label hstart (walks_hopsOf call)
  rw [called_eq]
  exact ⟨congrArg Prod.fst hfollow, hrooted, hmem⟩

theorem calls_ofRoutes (h : s.Rooted rs) (calls : List Resolution) :
    ∃ rs', rs <+: rs' ∧ s.Rooted rs' ∧
      calls.foldl s.called (.ofRoutes s.root.table rs) = .ofRoutes s.root.table rs' := by
  induction calls generalizing rs with
  | nil => exact ⟨rs, List.prefix_rfl, h, rfl⟩
  | cons call calls ih =>
    obtain ⟨hcalled, hrooted, -⟩ := called_ofRoutes h call
    obtain ⟨rs', hprefix, hrooted', hrs'⟩ := ih hrooted
    refine ⟨rs', (Route.prefix_noteAll rs _).trans hprefix, hrooted', ?_⟩
    rw [List.foldl_cons, hcalled, hrs']

theorem answer_ofRoutes (h : s.Rooted rs) (call : Resolution) :
    s.answer (.ofRoutes s.root.table rs) call = (s.found call).map fun x =>
      (Route.name s.root.table (Route.noteAll rs (s.asked call)) (s.asksFor call), x) := by
  cases call with
  | field key label =>
    obtain ⟨hplace, -, -⟩ := place_ofRoutes h (s.walks_spot key) label
    rw [answer, resolve, reach, hplace, found]
    cases (s.spot key).result key <;> rfl
  | collection key label =>
    obtain ⟨hplace, -, -⟩ := place_ofRoutes h (s.walks_collection key) label
    rw [answer, resolveCollection, reach, hplace, found]
    cases (s.collection key).result key <;> rfl

end Routes

theorem length_hops_walk (g : Registry) (e : Entity) (names : List String) :
    (g.walk e names).hops.length ≤ names.length := by
  induction names generalizing e with
  | nil => exact le_rfl
  | cons name names ih =>
    rw [Registry.walk]
    split
    next => exact Nat.zero_le _
    next hop _ => exact Nat.succ_le_succ (ih hop.target)

/-- A call makes at most one hop for every relationship that it names. -/
theorem length_hopsOf (call : Resolution) :
    (s.hopsOf call).length ≤ call.relationships.length := by
  cases call with
  | field key label =>
    rw [hopsOf, spot, Resolution.relationships]
    cases Key.ofText key with
    | document column path => exact le_rfl
    | chain segments =>
      dsimp only [chainSpot]
      split
      · exact Nat.zero_le _
      · exact length_hops_walk _ _ _
  | collection key label =>
    rw [hopsOf, collection, Resolution.relationships]
    cases Key.ofText key with
    | document column path => exact le_rfl
    | chain segments =>
      dsimp only
      split
      · exact Nat.zero_le _
      · split
        · exact Nat.zero_le _
        · refine (length_hops_walk _ _ _).trans ?_
          rw [List.length_dropLast]
          exact Nat.sub_le _ _

end Scope

namespace Route

theorem noteAll_of_subset {rs more : List Route} (h : more ⊆ rs) : noteAll rs more = rs := by
  induction more with
  | nil => rfl
  | cons r more ih =>
    obtain ⟨hr, hmore⟩ := List.cons_subset.mp h
    rw [noteAll, List.foldl_cons, note, if_pos hr]
    exact ih hmore

theorem exists_noteAll (rs more : List Route) :
    ∃ extra, noteAll rs more = rs ++ extra ∧ extra.length ≤ more.length := by
  induction more generalizing rs with
  | nil => exact ⟨[], by simp [noteAll], le_rfl⟩
  | cons r more ih =>
    obtain ⟨extra, hextra, hlength⟩ := ih (note rs r)
    rw [noteAll, List.foldl_cons, ← noteAll, hextra]
    unfold note
    split
    · exact ⟨extra, rfl, hlength.trans (Nat.le_succ _)⟩
    · exact ⟨r :: extra, List.append_assoc .., Nat.succ_le_succ hlength⟩

theorem length_along (label : Option String) (a : Option Route) (hops : List Hop) :
    (along label a hops).length = hops.length := by
  induction hops generalizing a with
  | nil => rfl
  | cons hop hops ih => rw [along, List.length_cons, ih, List.length_cons]

end Route

namespace Scope
variable {s : Scope}

/-- A join is the only one that is asked for by its key. -/
theorem Records.find?_key_eq_some_iff {t : JoinTable} (h : s.Records t) {key : JoinKey}
    {e : JoinEntry} : (t.entries.find? fun e => e.key = key) = some e ↔
      e ∈ t.entries ∧ e.key = key := by
  constructor
  · intro hfind
    exact ⟨List.mem_of_find?_eq_some hfind, by simpa using List.find?_some hfind⟩
  · rintro ⟨he, rfl⟩
    cases hfind : t.entries.find? fun e' => e'.key = e.key with
    | none => simpa using List.find?_eq_none.mp hfind e he
    | some e' =>
      have hkey : e'.key = e.key := by simpa using List.find?_some hfind
      rw [List.inj_on_of_nodup_map h.keys (List.mem_of_find?_eq_some hfind) he hkey]

/-- The index has the keys of the joins and no others. -/
theorem Records.index_eq_some_iff {t : JoinTable} (h : s.Records t) {c : JoinCache}
    (hc : c.Represents t) {key : JoinKey} {id : Place} :
    c.index[key]? = some id ↔ ∃ e ∈ t.entries, e.key = key ∧ e.join.id = id := by
  rw [hc.index_eq, Option.map_eq_some_iff]
  simp only [h.find?_key_eq_some_iff, and_assoc]

/-- Any call, failed or not, adds joins at the end, at most one a relationship. -/
theorem entries_called (s : Scope) (calls : List Resolution) (call : Resolution) :
    ∃ more, (s.called (s.resolved calls) call).entries = (s.resolved calls).entries ++ more ∧
      more.length ≤ call.relationships.length := by
  obtain ⟨rs, hrooted, hrs⟩ := s.exists_routes calls
  obtain ⟨extra, hextra, hlength⟩ := Route.exists_noteAll rs (s.asked call)
  rw [hrs, (called_ofRoutes hrooted call).1, hextra, hrooted.entries_append]
  refine ⟨_, rfl, ?_⟩
  rw [List.length_map]
  rw [asked, Route.length_along] at hlength
  exact hlength.trans (length_hopsOf call)

/-- A call is answered with the root or with a join that it found or made. -/
theorem answer_named {rs : List Route} (hrooted : s.Rooted rs) {call : Resolution} {name : String}
    {x : Spot ⊕ Collection}
    (h : s.answer (.ofRoutes s.root.table rs) call = .ok (name, x)) :
    s.hopsOf call = [] ∧ name = s.root.table ∨
      ∃ e ∈ (s.called (.ofRoutes s.root.table rs) call).entries, e.join.name = name ∧
        e.label = call.label := by
  obtain ⟨hcalled, -, hmem⟩ := called_ofRoutes hrooted call
  rw [answer_ofRoutes hrooted] at h
  obtain ⟨_, -, heq⟩ := map_eq_ok_iff.mp h
  obtain ⟨rfl, rfl⟩ := Prod.mk.inj heq
  have hchain := Route.chain_ending_none call.label (s.hopsOf call)
  cases hending : s.asksFor call with
  | none => exact .inl ⟨hchain.symm.trans (congrArg Route.chain hending), rfl⟩
  | some r =>
    obtain ⟨hr, hlabel⟩ := hmem r hending
    rw [hcalled]
    exact .inr ⟨_, mem_entries_ofRoutes.mpr ⟨r, hr, rfl⟩, rfl, hlabel⟩

/-- A call made before adds nothing and is answered as it was; what it was answered is the root or
the name of a join that is still there. -/
theorem answer_again (s : Scope) (before after : List Resolution) (call : Resolution) :
    let t := s.resolved (before ++ call :: after)
    s.called t call = t ∧ s.answer t call = s.answer (s.resolved before) call ∧
    ∀ name x, s.answer (s.resolved before) call = .ok (name, x) →
      s.hopsOf call = [] ∧ name = s.root.table ∨
      ∃ e ∈ (s.resolved (before ++ [call])).entries, e ∈ t.entries ∧ e.join.name = name ∧
        e.label = call.label := by
  intro t
  obtain ⟨rs, hrooted, hrs⟩ := s.exists_routes before
  obtain ⟨hcalled, hrooted', hmem⟩ := called_ofRoutes hrooted call
  obtain ⟨rs', ⟨more, rfl⟩, hrooted'', hrs'⟩ := calls_ofRoutes hrooted' after
  have hone : s.resolved (before ++ [call]) = s.called (s.resolved before) call := by
    rw [resolved, List.foldl_append]
    rfl
  have ht : t = .ofRoutes s.root.table (Route.noteAll rs (s.asked call) ++ more) := by
    simp only [t]
    rw [resolved, List.foldl_append, ← resolved, hrs, List.foldl_cons, hcalled, hrs']
  have hagain : Route.noteAll (Route.noteAll rs (s.asked call) ++ more) (s.asked call) =
      Route.noteAll rs (s.asked call) ++ more :=
    Route.noteAll_of_subset fun r hr =>
      List.mem_append_left _ (Route.mem_noteAll.mpr (.inr hr))
  refine ⟨?_, ?_, ?_⟩
  · rw [ht, (called_ofRoutes hrooted'' call).1, hagain]
  · rw [ht, hrs, answer_ofRoutes hrooted'', answer_ofRoutes hrooted, hagain,
      Route.name_append fun r hr => (hmem r hr).1]
  · intro name x hok
    rw [hrs] at hok
    rcases answer_named hrooted hok with hroot | ⟨e, he, hname, hlabel⟩
    · exact .inl hroot
    · rw [hone, hrs, ht, hrooted'.entries_append, ← hcalled]
      exact .inr ⟨e, he, List.mem_append_left _ he, hname, hlabel⟩

/-- After any calls, failing ones included, the joins are as they are recorded, the cache has them
beside an index of exactly their keys and answers alike, a further call adds joins at the end, at
most one for every relationship that it names, and a call made before adds nothing and is answered
as it was, with the root or a join that is still there. -/
theorem joins_recorded (s : Scope) (calls : List Resolution) :
    let t := s.resolved calls
    s.Records t ∧
    (s.cached calls).joins = t.joins ∧
    (∀ call, s.cachedAnswer (s.cached calls) call = s.answer t call) ∧
    (∀ key id, (s.cached calls).index[key]? = some id ↔
      ∃ e ∈ t.entries, e.key = key ∧ e.join.id = id) ∧
    (∀ call, ∃ more, (s.called t call).entries = t.entries ++ more ∧
      more.length ≤ call.relationships.length) ∧
    ∀ before call after, calls = before ++ call :: after →
      s.called t call = t ∧ s.answer t call = s.answer (s.resolved before) call ∧
      ∀ name x, s.answer (s.resolved before) call = .ok (name, x) →
        s.hopsOf call = [] ∧ name = s.root.table ∨
        ∃ e ∈ (s.resolved (before ++ [call])).entries, e ∈ t.entries ∧ e.join.name = name ∧
          e.label = call.label := by
  intro t
  obtain ⟨rs, hrooted, hrs⟩ := s.exists_routes calls
  have hrecords : s.Records (s.resolved calls) := by
    rw [hrs]
    exact hrooted.records
  have hcached := represents_cached (s := s) calls
  refine ⟨hrecords, hcached.joins_eq, cachedAnswer_eq hcached,
    fun key id => hrecords.index_eq_some_iff hcached, s.entries_called calls, ?_⟩
  rintro before call after rfl
  exact s.answer_again before after call

end Scope

/-- A call that failed has made a join, which it finds again; another label has a join of its own. -/
theorem joins_recorded_league :
    let calls : List Resolution := [.field "scores.total" none, .field "scores.league.x" none,
      .collection "scores.league.title" (some "own")]
    let t := leagueScope.resolved calls
    t.entries.map (fun e => (e.join.id, e.join.parentName, e.join.name, e.label)) =
        [(1, "players", "scores_1", none), (2, "scores_1", "league_2", none),
          (3, "players", "scores_3", some "own")] ∧
      (leagueScope.cached calls).index[(⟨1, "league", none⟩ : JoinKey)]? = some 2 ∧
      leagueScope.called t (.field "scores.league.x" none) = t ∧
      ∃ x, leagueScope.answer t (.field "scores.total" none) = .ok ("scores_1", x) ∧
        ∃ e ∈ t.entries, e.join.name = "scores_1" := by
  intro calls t
  obtain ⟨-, -, -, hindex, -, hagain⟩ := leagueScope.joins_recorded calls
  refine ⟨by decide, (hindex _ _).mpr (by decide), (hagain [.field "scores.total" none] _ _ rfl).1,
    ?_⟩
  obtain ⟨-, hsame, hvalid⟩ := hagain [] _ _ rfl
  have hfirst : leagueScope.answer (leagueScope.resolved []) (.field "scores.total" none) =
      .ok ("scores_1", .inl ⟨"total", .integer, true, none⟩) := rfl
  rcases hvalid _ _ hfirst with ⟨-, hroot⟩ | ⟨e, -, he, hname, -⟩
  · exact absurd hroot (by decide)
  · exact ⟨_, hsame.trans hfirst, e, he, hname⟩

end EntitySearch
