import EntitySearch.Proofs.LastHop
import EntitySearch.Proofs.Resolution
/-!
A collection and the field behind it. Asked for a field the resolver goes one join further than for
the collection of the same key, and that join links the rows that a sub-query over the collection
correlates.
-/
namespace EntitySearch
open Sql

/-- A join over the relationship of a collection, from the instance that owns the collection. -/
structure Join.Continues (j : Join) (owner : String) (r : Collection) : Prop where
  parentName_eq : j.parentName = owner
  relationship_eq : j.relationship = r.relationship
  table_eq : j.table = r.table

/-- A sub-query looks in the table of a join and compares the columns that the join links. -/
structure Sql.Related.Correlates (q : Related) (j : Join) : Prop where
  table_eq : q.table = j.table
  owner_eq : q.owner = j.link.1
  key_eq : q.key = j.link.2.name

theorem OwnTest.eq_related_of_mem {o : OwnTest} {table : String} {n : Nat} {q : Related}
    (h : .noneRelated q ∈ (o.condition table n).predicates) :
    ∃ r test, o.collection? = some r ∧ q = r.related table n test := by
  cases o with
  | noneRelated r test =>
    refine ⟨r, test, rfl, ?_⟩
    simpa [condition, Condition.predicates_ofPredicate] using h
  | anyElement name path needles => simp [condition] at h
  | _ => simp [condition] at h

/-- The table with an entry at its end, unless the entry is there. -/
def JoinTable.adding (t : JoinTable) (e : JoinEntry) : JoinTable :=
  if e ∈ t.entries then t else ⟨t.entries ++ [e]⟩

theorem Join.Continues.correlates {j : Join} {owner : String} {r : Collection}
    (h : j.Continues owner r) (n : Nat) (test : ColumnTest) :
    (r.related owner n test).Correlates j := by
  obtain ⟨rfl, hrelationship, htable⟩ := h
  refine ⟨htable.symm, ?_, ?_⟩
  · rw [link, hrelationship]
    rfl
  · rw [link, hrelationship]
    rfl

namespace Scope
variable {s : Scope} {rs : List Route}

theorem Rooted.ofRoutes_note (h : s.Rooted rs) (root : String) (r : Route) :
    JoinTable.ofRoutes root (Route.note rs r) =
      (JoinTable.ofRoutes root rs).adding (Route.entry root (Route.note rs r) r) := by
  unfold JoinTable.adding
  by_cases hr : r ∈ rs
  · have hnote : Route.note rs r = rs := if_pos hr
    rw [hnote, if_pos (mem_entries_ofRoutes.mpr ⟨r, hr, rfl⟩)]
  · have hnote : Route.note rs r = rs ++ [r] := if_neg hr
    have hnew : Route.entry root (rs ++ [r]) r ∉ (JoinTable.ofRoutes root rs).entries := by
      intro hmem
      obtain ⟨r', hr', heq⟩ := mem_entries_ofRoutes.mp hmem
      have hname : Route.name root rs (some r') = Route.name root (rs ++ [r]) (some r) :=
        congrArg (fun e => e.join.name) heq
      rw [← Route.name_append (by simpa using hr') root [r]] at hname
      exact hr (Route.name_inj (List.mem_append_left _ hr') hname ▸ hr')
    rw [hnote, if_neg hnew, JoinTable.ofRoutes_snoc h]

/-- One hop more makes or finds one join more, which goes on from where the other hops end. -/
theorem exists_join_of_concat (h : s.Rooted rs) {α β : Type} {l : Lookup α} {l' : Lookup β}
    {hop : Hop} (hhops : l'.hops = l.hops ++ [hop]) (hw : s.Walks s.root l'.hops)
    (label : Option String) :
    let before := s.place label l (.ofRoutes s.root.table rs)
    let after := s.place label l' (.ofRoutes s.root.table rs)
    ∃ j : Join, after.2 = before.2.adding ⟨label, j⟩ ∧
      (∀ place, after.2.Reaches label (l'.hops.map Hop.name) place ↔ place = j.id) ∧
      j.name = after.1 ∧ j.parentName = before.1 ∧ j.relationship = hop.relationship ∧
      j.table = hop.target.table := by
  have hw' : s.Walks s.root l.hops := (walks_concat.mp (hhops ▸ hw)).1
  obtain ⟨hbefore, hrooted, hmem⟩ := place_ofRoutes h hw' label
  obtain ⟨hafter, hrooted', hmem'⟩ := place_ofRoutes h hw label
  have hpath := congrArg (List.map Hop.name) (Route.chain_ending_none label l'.hops)
  rw [hhops, Route.along_concat, Route.noteAll_concat] at hafter hrooted' hmem'
  rw [Route.ending_concat] at hafter hmem'
  rw [hhops, Route.ending_concat, ← hhops] at hpath
  generalize Route.noteAll rs (Route.along label none l.hops) = rs' at *
  generalize Route.ending label none l.hops = owner at *
  generalize hr : Route.extend label owner hop = r at *
  have hparent : r.parent = owner := by rw [← hr, Route.parent_extend]
  have hhop : r.hop = hop := by rw [← hr, Route.hop_extend]
  obtain ⟨-, rfl⟩ := hmem' r rfl
  rw [hbefore, hafter]
  refine ⟨(Route.entry s.root.table (Route.note rs' r) r).join, hrooted.ofRoutes_note _ r,
    fun place => ?_, rfl, ?_, ?_, ?_⟩
  · rw [← hpath]
    exact hrooted'.reaches_iff hmem' place
  · show Route.name s.root.table (Route.note rs' r) r.parent = Route.name s.root.table rs' owner
    rw [hparent]
    exact Route.name_of_prefix (Route.prefix_note rs' r) (fun x hx => (hmem x hx).1) _
  · rw [← hhop]
    rfl
  · rw [← hhop]
    rfl

/-- The field of a key cannot be resolved exactly if its collection cannot, for the same reason. -/
theorem resolve_eq_error_iff {key : String} {names : List String} {relationship last : String}
    (hkey : Key.ofText key = .chain (names ++ [relationship, last]))
    {label : Option String} {t : JoinTable} {e : SearchError} :
    (s.resolve key label t).1 = .error e ↔ (s.resolveCollection key label t).1 = .error e := by
  rw [resolve, resolveCollection, reach_eq_error_iff, reach_eq_error_iff, spot_of_chain hkey,
    collection_of_chain hkey]
  cases s.crossing names relationship last <;> simp [Except.map]

/-- The sub-query of an exclusion is over the collection of its key, from the collection's owner. -/
theorem eq_related_of_leaf {c : Criterion} {pass : Pass} {condition : Condition} {q : Related}
    (hexcludes : c.operation.excludes = true) (h : (s.leaf c pass).1 = .ok condition)
    (hq : .noneRelated q ∈ condition.predicates) :
    ∃ r n test, (s.collection c.key).found = .ok r ∧
      q = r.related (s.place c.label (s.collection c.key) pass.joins).1 n test := by
  rw [leaf_eq] at h
  obtain ⟨f, hf, rfl⟩ := map_eq_ok_iff.mp h
  obtain ⟨o, rfl, ⟨hfalse, -⟩ | ⟨-, habsence⟩⟩ := plan_cases hf
  · simp [hexcludes] at hfalse
  obtain ⟨r, test, hr, rfl⟩ := OwnTest.eq_related_of_mem hq
  obtain ⟨r', hr', hsame⟩ := habsence.found
  obtain rfl := hsame r hr
  have howner : s.instanceName c pass =
      (s.place c.label (s.collection c.key) pass.joins).1 := by
    rw [instanceName, after, habsence.hops_eq]
    rfl
  exact ⟨r, _, test, hr', by rw [howner]⟩

/-- For a key with a relationship the collection and the field resolve together or fail with one
error. From the same joins, the field's are those of the collection and the join for the last
relationship, made or found, which goes on from the collection's owner; a sub-query over the
collection correlates what this join links. -/
theorem collection_field_agree (s : Scope) (earlier : List Resolution) (key : String)
    (label : Option String) (names : List String) (relationship last : String)
    (harrow : ¬ Key.arrow.toList <:+: key.toList)
    (hsegments : Text.Segmented '.' key (names ++ [relationship, last])) :
    let before := s.resolved earlier
    let field := s.resolve key label before
    let owned := s.resolveCollection key label before
    (∀ e, field.1 = .error e ↔ owned.1 = .error e) ∧
    ∀ owner r, owned.1 = .ok (owner, r) → ∃ name p j, field.1 = .ok (name, p) ∧
      field.2 = owned.2.adding ⟨label, j⟩ ∧
      (∀ place, field.2.Reaches label (names ++ [relationship]) place ↔ place = j.id) ∧
      j.name = name ∧ j.Continues owner r ∧ r.column = p.column ∧
      ∀ c pass condition q, c.key = key → c.label = label → c.operation.excludes = true →
        pass.joins = before → (s.leaf c pass).1 = .ok condition →
        .noneRelated q ∈ condition.predicates → q.Correlates j ∧ q.column = p.column := by
  intro before field owned
  have hkey := Key.ofText_eq_chain_iff.mpr ⟨harrow, hsegments⟩
  refine ⟨fun e => resolve_eq_error_iff hkey, ?_⟩
  intro owner r hok
  obtain ⟨hr, rfl⟩ := reach_eq_ok_iff.mp hok
  obtain ⟨⟨hop, a⟩, hcrossing, hcollection⟩ :=
    map_eq_ok_iff.mp ((collection_of_chain hkey).symm.trans hr)
  obtain ⟨rs, hrooted, hrs⟩ := s.exists_routes earlier
  obtain ⟨hspot, hhops⟩ := hops_of_chain hkey hcrossing
  rw [← hhops] at hspot
  obtain ⟨j, hjoins, hreaches, hname, hparent, hrelationship, htable⟩ :=
    exists_join_of_concat hrooted hspot (s.walks_spot key) label
  rw [← hrs] at hjoins hreaches hname hparent
  have hfound := spot_of_chain (s := s) hkey
  rw [hcrossing] at hfound
  have hnames : (s.spot key).hops.map Hop.name = names ++ [relationship] := by
    rw [names_spot hfound, hkey]
    simp
  rw [hnames] at hreaches
  have hcontinues : j.Continues (s.place label (s.collection key) before).1 r := by
    rw [← hcollection]
    exact ⟨hparent, hrelationship, htable⟩
  have hcolumn : r.column = a.column := by rw [← hcollection]
  refine ⟨_, _, j, reach_eq_ok_iff.mpr ⟨hfound, rfl⟩, hjoins, hreaches, hname, hcontinues,
    hcolumn, ?_⟩
  rintro c pass condition q rfl rfl hexcludes hbefore hcondition hq
  obtain ⟨r', n, test, hr', rfl⟩ := eq_related_of_leaf hexcludes hcondition hq
  obtain rfl : r' = r := Except.ok.inj (hr'.symm.trans hr)
  rw [hbefore]
  exact ⟨hcontinues.correlates n test, hcolumn⟩

end Scope

/-- The score was joined before, and a call that failed has joined the league under a label. -/
theorem collection_field_agree_league :
    let key := "scores.league.title"
    let before := leagueScope.resolved [.field "scores.total" none, .field "scores.league.x" "own"]
    let owned := leagueScope.resolveCollection key none before
    ¬ Key.arrow.toList <:+: key.toList ∧ Text.Segmented '.' key ["scores", "league", "title"] ∧
      ∃ r j, owned.1 = .ok ("scores_1", r) ∧ j.Continues "scores_1" r ∧ j.name = "league_4" ∧
        (leagueScope.resolve key none before).2 = owned.2.adding ⟨none, j⟩ ∧
        ∃ condition q, (leagueScope.leaf noRelatedTitle ⟨before, 0⟩).1 = .ok condition ∧
          .noneRelated q ∈ condition.predicates ∧ q.Correlates j := by
  intro key before owned
  have harrow : ¬ Key.arrow.toList <:+: key.toList := by decide
  have hsegments : Text.Segmented '.' key ["scores", "league", "title"] :=
    ⟨by decide, by decide, rfl⟩
  obtain ⟨-, hfound⟩ := leagueScope.collection_field_agree
    [.field "scores.total" none, .field "scores.league.x" "own"] key none ["scores"] "league"
    "title" harrow hsegments
  obtain ⟨name, p, j, hfield, hjoins, -, hname, hcontinues, -, hcorrelates⟩ :=
    hfound "scores_1" ⟨⟨"league", "league", .belongsTo, "league_id", "id"⟩, "leagues", "title"⟩
      (by decide)
  have hnamed : (leagueScope.resolve key none before).1 =
      .ok ("league_4", ⟨"title", .text, true, none⟩) := by decide
  obtain ⟨hleague, -⟩ := Prod.mk.inj (Except.ok.inj (hfield.symm.trans hnamed))
  refine ⟨harrow, hsegments, _, j, by decide, hcontinues, hname.trans hleague, hjoins, _, _, rfl,
    List.mem_singleton_self _, ?_⟩
  exact (hcorrelates noRelatedTitle _ _ _ rfl rfl rfl rfl rfl (List.mem_singleton_self _)).1

end EntitySearch
