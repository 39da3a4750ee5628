import EntitySearch.Proofs.KeyGrammar
/-!
Keys resolved one after the other by one resolver. Its joins are always those of some routes, each
noted once, and a chain of names leads from the root to one table instance at most. A key resolves
exactly if it is of the grammar, whatever was resolved before, and then to the field that it spells.
-/
namespace EntitySearch
open Sql

/-- A call of a resolver: for a field, or for a collection and its owner. -/
inductive Resolution
  | field (key : String) (label : Option String)
  | collection (key : String) (label : Option String)
  deriving DecidableEq, Repr

namespace Scope

/-- The joins after a call, which may have failed. -/
def called (s : Scope) (t : JoinTable) : Resolution → JoinTable
  | .field key label => (s.resolve key label t).2
  | .collection key label => (s.resolveCollection key label t).2

/-- The joins after calls in this order, none being there at first. -/
def resolved (s : Scope) (calls : List Resolution) : JoinTable := calls.foldl s.called .empty

variable {s : Scope} {rs : List Route}

section Calls
variable {α : Type} {key : String} {label : Option String} {l : Lookup α} {t : JoinTable}

theorem reach_eq_ok_iff {name : String} {x : α} : (s.reach key label l t).1 = .ok (name, x) ↔
    l.found = .ok x ∧ (s.place label l t).1 = name := by
  have hresult : (s.reach key label l t).1 =
      (l.result key).map fun x => ((s.place label l t).1, x) := rfl
  rw [hresult, map_eq_ok_iff]
  simp only [Lookup.result_eq_ok_iff, Prod.mk.injEq]
  constructor
  · rintro ⟨y, hy, hname, rfl⟩
    exact ⟨hy, hname⟩
  · rintro ⟨hx, hname⟩
    exact ⟨x, hx, hname, rfl⟩

theorem reach_eq_error_iff {e : SearchError} : (s.reach key label l t).1 = .error e ↔
    ∃ fault, l.found = .error fault ∧ e = .unresolved key fault := by
  have hresult : (s.reach key label l t).1 =
      (l.result key).map fun x => ((s.place label l t).1, x) := rfl
  rw [hresult, Lookup.result]
  cases l.found <;> simp [Except.mapError, Except.map, eq_comm]

/-- Without hops there is nothing to join. -/
theorem place_of_hops_nil (h : l.hops = []) : s.place label l t = (s.root.table, t) := by
  rw [place, h]
  rfl

/-- Whatever is found, the joins are made for the routes along the hops. -/
theorem place_ofRoutes (h : s.Rooted rs) (hw : s.Walks s.root l.hops) (label : Option String) :
    let rs' := Route.noteAll rs (Route.along label none l.hops)
    let a := Route.ending label none l.hops
    s.place label l (.ofRoutes s.root.table rs) =
        (Route.name s.root.table rs' a, .ofRoutes s.root.table rs') ∧
      s.Rooted rs' ∧ ∀ r ∈ a, r ∈ rs' ∧ r.label = label := by
  intro rs' a
  have hstart : ∀ r ∈ (none : Option Route), r ∈ rs ∧ r.label = label := by simp
  obtain ⟨hfollow, hrooted, hmem⟩ :=
    @follow_ofRoutes s s.root.table rs h none l.hops label hstart hw
  have hname : (JoinTable.ofRoutes s.root.table rs').nameAt s.root.table (Route.place rs' a) =
      Route.name s.root.table rs' a := JoinTable.nameAt_ofRoutes fun r hr => (hmem r hr).1
  refine ⟨?_, hrooted, hmem⟩
  rw [place, show (0 : Place) = Route.place rs none from rfl, hfollow, ← hname]

end Calls

theorem Rooted.called (h : s.Rooted rs) (call : Resolution) :
    ∃ rs', s.Rooted rs' ∧
      s.called (.ofRoutes s.root.table rs) call = .ofRoutes s.root.table rs' := by
  cases call with
  | field key label =>
    obtain ⟨hplace, hrooted, -⟩ := place_ofRoutes h (s.walks_spot key) label
    exact ⟨_, hrooted, congrArg Prod.snd hplace⟩
  | collection key label =>
    obtain ⟨hplace, hrooted, -⟩ := place_ofRoutes h (s.walks_collection key) label
    exact ⟨_, hrooted, congrArg Prod.snd hplace⟩

/-- Every table of joins that a resolver comes to is that of routes. -/
theorem exists_routes (s : Scope) (calls : List Resolution) :
    ∃ rs, s.Rooted rs ∧ s.resolved calls = .ofRoutes s.root.table rs := by
  induction calls using List.reverseRecOn with
  | nil => exact ⟨[], .nil, rfl⟩
  | append_singleton calls call ih =>
    obtain ⟨rs, hrooted, hrs⟩ := ih
    obtain ⟨rs', hrooted', hrs'⟩ := hrooted.called call
    refine ⟨rs', hrooted', ?_⟩
    rw [resolved, List.foldl_append, ← resolved, hrs]
    exact hrs'

/-- Criteria make the joins of calls, one for each criterion that comes to look up its key. -/
theorem exists_resolved (s : Scope) (cs : List Criterion) :
    ∃ calls, (s.leaves cs .empty).2.joins = s.resolved calls := by
  induction cs using List.reverseRecOn with
  | nil => exact ⟨[], rfl⟩
  | append_singleton cs c ih =>
    obtain ⟨calls, hcalls⟩ := ih
    have hjoins : (s.leaves (cs ++ [c]) .empty).2.joins =
        ((s.resolved calls).follow s.root.table c.label 0 (s.plan c).hops).1 := by
      rw [leaves_append, ← hcalls]
      rfl
    have hlast (call : Resolution) (hcall : s.called (s.resolved calls) call =
        ((s.resolved calls).follow s.root.table c.label 0 (s.plan c).hops).1) :
        (s.leaves (cs ++ [c]) .empty).2.joins = s.resolved (calls ++ [call]) := by
      rw [hjoins, ← hcall, resolved, resolved, List.foldl_append]
      rfl
    rcases s.plan_hops c with h | h | h
    · exact ⟨calls, by rw [hjoins, h]; rfl⟩
    · exact ⟨_, hlast (.field c.key c.label) (by rw [h]; rfl)⟩
    · exact ⟨_, hlast (.collection c.key c.label) (by rw [h]; rfl)⟩

end Scope

/-- The place that joins under a label lead to from the root, over relationships of these names. -/
inductive JoinTable.Reaches (t : JoinTable) (label : Option String) : List String → Place → Prop
  | root : Reaches t label [] 0
  | join {names : List String} {e : JoinEntry} : Reaches t label names e.join.parent →
      e ∈ t.entries → e.label = label →
      Reaches t label (names ++ [e.join.relationship.name]) e.join.id

namespace Scope
variable {s : Scope} {rs : List Route} {label : Option String}

theorem mem_entries_ofRoutes {root : String} {e : JoinEntry} :
    e ∈ (JoinTable.ofRoutes root rs).entries ↔ ∃ r ∈ rs, Route.entry root rs r = e := by
  simp [JoinTable.ofRoutes]

theorem Rooted.reaches (h : s.Rooted rs) {r : Route} (hr : r ∈ rs) :
    (JoinTable.ofRoutes s.root.table rs).Reaches r.label r.address.path
      (Route.place rs (some r)) := by
  obtain ⟨label, up, hop⟩ := r
  -- Along the hops before the last one, whose routes are noted as well.
  induction up generalizing hop with
  | nil => exact .join .root (mem_entries_ofRoutes.mpr ⟨_, hr, rfl⟩) rfl
  | cons hop' up ih =>
    have hparent := ih hop' (h.parent_mem hr _ rfl)
    have hpath : (⟨label, hop' :: up, hop⟩ : Route).address.path =
        (⟨label, up, hop'⟩ : Route).address.path ++ [hop.relationship.name] := by
      simp [Route.address, Route.addressOf, Route.chain, Hop.name]
    rw [hpath]
    exact hparent.join (e := Route.entry s.root.table rs ⟨label, hop' :: up, hop⟩)
      (mem_entries_ofRoutes.mpr ⟨_, hr, rfl⟩) rfl

/-- Names lead to the place of their address only. -/
theorem place_of_reaches {root : String} {names : List String} {q : Place}
    (hq : (JoinTable.ofRoutes root rs).Reaches label names q) :
    ∃ a : Option Route, (∀ r ∈ a, r ∈ rs ∧ r.label = label) ∧
      Route.addressOf label a = ⟨label, names⟩ ∧ q = Route.place rs a := by
  induction hq with
  | root => exact ⟨none, by simp, rfl, rfl⟩
  | @join names e _ he hlabel ih =>
    obtain ⟨r, hr, rfl⟩ := mem_entries_ofRoutes.mp he
    obtain rfl : r.label = label := hlabel
    obtain ⟨a, ha, haddress, hplace⟩ := ih
    obtain rfl : a = r.parent := Route.place_inj (fun x hx => (ha x hx).1) hplace.symm
    refine ⟨some r, by simpa using hr, ?_, rfl⟩
    have hnames : (Route.chain r.parent).map Hop.name = names := congrArg Address.path haddress
    simp [Route.addressOf, Route.chain_eq, hnames, Hop.name, Route.entry]

theorem Rooted.reaches_iff (h : s.Rooted rs) {a : Option Route}
    (ha : ∀ r ∈ a, r ∈ rs ∧ r.label = label) (q : Place) :
    (JoinTable.ofRoutes s.root.table rs).Reaches label (Route.addressOf label a).path q ↔
      q = Route.place rs a := by
  constructor
  · intro hq
    obtain ⟨b, hb, haddress, rfl⟩ := place_of_reaches hq
    rw [h.place_eq (fun r hr => (hb r hr).1) fun r hr => (hb r hr).2, haddress,
      h.place_eq (fun r hr => (ha r hr).1) fun r hr => (ha r hr).2]
    rfl
  · rintro rfl
    cases a with
    | none => exact .root
    | some r =>
      obtain ⟨hr, rfl⟩ := ha r rfl
      exact h.reaches hr

theorem Rooted.leads {rs : List Route} (h : s.Rooted rs) {a : Option Route} (ha : ∀ r ∈ a, r ∈ rs) :
    s.registry.Leads s.root ((Route.chain a).map Hop.name) (s.entityAt a) := by
  rw [← Registry.walk_eq_ok_iff, walk_names (h.walks ha), reached_chain]

/-- Hops lead to the instance of a join, of the table of the entity reached. -/
theorem exists_join_of_hops {rs : List Route} (h : s.Rooted rs) {α : Type} {l : Lookup α}
    (hw : s.Walks s.root l.hops) (hne : l.hops ≠ []) (label : Option String) :
    let after := s.place label l (.ofRoutes s.root.table rs)
    ∃ e j, s.registry.Leads s.root (l.hops.map Hop.name) e ∧
      (⟨label, j⟩ : JoinEntry) ∈ after.2.entries ∧
      (∀ place, after.2.Reaches label (l.hops.map Hop.name) place ↔ place = j.id) ∧
      j.table = e.table ∧ j.name = after.1 := by
  obtain ⟨hplace, hrooted, hmem⟩ := place_ofRoutes h hw label
  have hchain := Route.chain_ending_none label l.hops
  rw [hplace]
  cases hending : Route.ending label none l.hops with
  | none => exact absurd (hchain.symm.trans (congrArg Route.chain hending)) hne
  | some r =>
    rw [hending] at hchain hmem
    obtain ⟨hr, rfl⟩ := hmem r rfl
    have hnames : (Route.chain (some r)).map Hop.name = l.hops.map Hop.name :=
      congrArg (List.map Hop.name) hchain
    rw [← hnames]
    exact ⟨_, _, hrooted.leads fun r hr => (hmem r hr).1, mem_entries_ofRoutes.mpr ⟨r, hr, rfl⟩,
      hrooted.reaches_iff hmem, rfl, rfl⟩

/-- After any earlier calls, failed ones included, a key resolves exactly if it is of the grammar,
to the column that it spells and in the only table instance that its relationships lead to under
the label; a key with an arrow makes no join, and an error names the whole key. -/
theorem resolve_exact (s : Scope) (earlier : List Resolution) (key : String)
    (label : Option String) :
    let before := s.resolved earlier
    let result := (s.resolve key label before).1
    let after := (s.resolve key label before).2
    (∀ p, (∃ name, result = .ok (name, p)) ↔ ∃ relationships, s.Reads key relationships p) ∧
    (∀ name p relationships, result = .ok (name, p) → s.Reads key relationships p →
      (relationships = [] → name = s.root.table) ∧
      (relationships ≠ [] → ∃ e j, s.registry.Leads s.root relationships e ∧
        (⟨label, j⟩ : JoinEntry) ∈ after.entries ∧
        (∀ place, after.Reaches label relationships place ↔ place = j.id) ∧
        j.table = e.table ∧ j.name = name)) ∧
    (Key.arrow.toList <:+: key.toList → after = before) ∧
    ∀ e, result = .error e → ∃ fault, e = .unresolved key fault := by
  intro before result after
  refine ⟨fun p => ⟨?_, ?_⟩, ?_, ?_, ?_⟩
  · rintro ⟨name, hok⟩
    exact exists_reads_iff.mpr (reach_eq_ok_iff.mp hok).1
  · intro hreads
    exact ⟨_, reach_eq_ok_iff.mpr ⟨exists_reads_iff.mp hreads, rfl⟩⟩
  · intro name p relationships hok hreads
    obtain ⟨-, hname⟩ := reach_eq_ok_iff.mp hok
    constructor
    · rintro rfl
      rw [← hname, place_of_hops_nil (List.map_eq_nil_iff.mp hreads.names)]
    · intro hne
      obtain ⟨rs, hrooted, hrs⟩ := s.exists_routes earlier
      have hhops : (s.spot key).hops ≠ [] := fun hnil => hne (by rw [← hreads.names, hnil]; rfl)
      obtain ⟨e, j, hjoin⟩ := exists_join_of_hops hrooted (s.walks_spot key) hhops label
      rw [← hrs, hreads.names] at hjoin
      exact ⟨e, j, hname ▸ hjoin⟩
  · intro harrow
    show (s.place label (s.spot key) before).2 = before
    rw [place_of_hops_nil (hops_of_arrow harrow)]
  · intro e herror
    obtain ⟨fault, -, he⟩ := reach_eq_error_iff.mp herror
    exact ⟨fault, he⟩

end Scope

/-- Only the first arrow cuts a key, and a failed call before has made joins. -/
example : (leagueScope.resolve "name->a->b.c" none
    (leagueScope.resolved [.field "scores.rank" none])).1 =
      .ok ("players", ⟨"name", .text, false, some ["a->b", "c"]⟩) := by decide

end EntitySearch
