import EntitySearch.Proofs.ForestLaws
import EntitySearch.Proofs.LastHop
/-!
Exclusions. A criterion without children selects the root rows from which its hops lead to a row
that passes its test; an exclusion over one relationship selects exactly the other root rows.
-/
namespace EntitySearch
open Sql

theorem Forest.nodes_leaf {c : Criterion} (h : c.isLeaf = true) : Forest.nodes [c] = [c] := by
  obtain ⟨key, operation, operand, allOf, anyOf, label⟩ := c
  simp only [Criterion.isLeaf, Bool.and_eq_true, List.isEmpty_iff] at h
  obtain ⟨rfl, rfl⟩ := h
  rfl

/-- Tests that hold of the same rows, whatever database they are made in. -/
def OwnTest.Agrees (o o' : OwnTest) : Prop :=
  ∀ {κ : Type} (e : Engine κ) (db : Tables κ) (row : Row κ), o.truth e db row = o'.truth e db row

theorem OwnTest.Agrees.refl (o : OwnTest) : o.Agrees o := fun _ _ _ => rfl

namespace Scope
variable {s : Scope} {c : Criterion}

section Leaves
variable {κ : Type} {e : Engine κ} {db : Tables κ}

theorem truth_leaf (hleaf : c.isLeaf = true) (ρ : Option Route → Row κ) :
    s.truth e db ρ [c] = s.ownTruth e db c (ρ (s.instanceOf c)) := by
  obtain ⟨key, operation, operand, allOf, anyOf, label⟩ := c
  simp only [Criterion.isLeaf, Bool.and_eq_true, List.isEmpty_iff] at hleaf
  obtain ⟨rfl, rfl⟩ := hleaf
  simp [truth, Forest.trees, Criterion.tree, Tree.formulas, Tree.formula]

variable {sel : Selection} {row : Row κ}

theorem selects_leaf_iff (hleaf : c.isLeaf = true) (h : s.compile [c] = .ok sel)
    (hroot : s.root.table ∉ sel.names) (hrow : row ∈ db s.root.table) :
    sel.Selects e db s.root.table row ↔
      ∃ ρ : Option Route → Row κ, ρ none = row ∧ (∀ r ∈ s.routes c, r.Fits e db ρ) ∧
        s.ownTruth e db c (ρ (s.instanceOf c)) = .yes := by
  have hroutes : s.routes c = s.routesOf [c] := by
    rw [routesOf, Forest.nodes_leaf hleaf, List.flatMap_singleton]
  rw [selects_iff h hroot, and_iff_right hrow, hroutes]
  apply exists_congr
  intro ρ
  rw [← truth_leaf hleaf ρ]
  constructor
  · rintro ⟨hbase, hfits, htruth⟩
    exact ⟨hbase, hfits, htruth⟩
  · rintro ⟨hbase, hfits, htruth⟩
    exact ⟨hbase, hfits, htruth⟩

/-- Without hops the root row itself is tested. -/
theorem selects_direct_iff (hleaf : c.isLeaf = true) (h : s.compile [c] = .ok sel)
    (hroot : s.root.table ∉ sel.names) (hrow : row ∈ db s.root.table)
    (hhops : (s.plan c).hops = []) :
    sel.Selects e db s.root.table row ↔ s.ownTruth e db c row = .yes := by
  rw [selects_leaf_iff hleaf h hroot hrow, routes, instanceOf, hhops]
  constructor
  · rintro ⟨ρ, rfl, -, htruth⟩
    exact htruth
  · intro htruth
    exact ⟨fun _ => row, rfl, List.forall_mem_nil _, htruth⟩

/-- After one hop some linked row has to pass the test. -/
theorem selects_hop_iff (hleaf : c.isLeaf = true) (h : s.compile [c] = .ok sel)
    (hroot : s.root.table ∉ sel.names) (hrow : row ∈ db s.root.table) {hop : Hop}
    (hhops : (s.plan c).hops = [hop]) :
    sel.Selects e db s.root.table row ↔
      ∃ other ∈ db hop.target.table,
        e.linked (row hop.relationship.source) (other hop.relationship.destination) = .yes ∧
          s.ownTruth e db c other = .yes := by
  rw [selects_leaf_iff hleaf h hroot hrow, routes, instanceOf, hhops]
  constructor
  · rintro ⟨ρ, rfl, hfits, htruth⟩
    obtain ⟨hmem, hlinked⟩ := hfits _ List.mem_cons_self
    exact ⟨_, hmem, hlinked, htruth⟩
  · rintro ⟨other, hmem, hlinked, htruth⟩
    refine ⟨fun a => a.elim row fun _ => other, rfl, ?_, htruth⟩
    exact List.forall_mem_cons.mpr ⟨⟨hmem, hlinked⟩, List.forall_mem_nil _⟩

end Leaves

/-- Every root row is selected by exactly one of two forests, provided that no name that they give
is that of the root table. -/
def Complementary (s : Scope) (cs ds : Forest) : Prop :=
  ∃ f g, s.compile cs = .ok f ∧ s.compile ds = .ok g ∧
    (s.root.table ∉ f.names → s.root.table ∉ g.names →
      ∀ {κ : Type} (e : Engine κ) (db : Tables κ) (row : Row κ), row ∈ db s.root.table →
        (f.Selects e db s.root.table row ↔ ¬ g.Selects e db s.root.table row))

theorem compile_leaf {f : String → Nat → Condition} (hleaf : c.isLeaf = true)
    (hplan : (s.plan c).condition = .ok f) : ∃ sel, s.compile [c] = .ok sel := by
  apply exists_compile_iff.mpr
  rw [Forest.nodes_leaf hleaf]
  intro d hd
  obtain rfl := List.mem_singleton.mp hd
  exact ⟨f, hplan⟩

/-- One criterion asks for a linked row that passes a test and another one for the absence of such
rows. Linked are the same rows, whether columns are compared in a join or in a sub-query. -/
theorem complementary_of_plans {d : Criterion} {hop : Hop} {column : String} {test : ColumnTest}
    {o o' : OwnTest} (hc : c.isLeaf = true) (hd : d.isLeaf = true)
    (hchops : (s.plan c).hops = [hop]) (hdhops : (s.plan d).hops = [])
    (hcplan : (s.plan c).condition = .ok o.condition) (hctest : o.Agrees (.column column test))
    (hdplan : (s.plan d).condition = .ok o'.condition)
    (hdtest : o'.Agrees (.noneRelated ⟨hop.relationship, hop.target.table, column⟩ test)) :
    s.Complementary [d] [c] := by
  obtain ⟨f, hf⟩ := compile_leaf hd hdplan
  obtain ⟨g, hg⟩ := compile_leaf hc hcplan
  refine ⟨f, g, hf, hg, ?_⟩
  intro hfroot hgroot κ e db row hrow
  rw [selects_direct_iff hd hf hfroot hrow hdhops, selects_hop_iff hc hg hgroot hrow hchops,
    ownTruth_eq e db hdplan, hdtest]
  have hown (other : Row κ) : s.ownTruth e db c other = test.truth e (other column) := by
    rw [ownTruth_eq e db hcplan, hctest]
    rfl
  simp only [hown, OwnTest.truth, Truth.ofBool_eq_yes, Bool.not_eq_true', ← Bool.not_eq_true,
    List.any_eq_true, Related.counts, Collection.related, decide_eq_true_eq, Truth.inf_eq_yes,
    e.linked_comm (row hop.relationship.source)]

section OneHop
variable {key relationship column : String} {p : Spot}

/-- Over one relationship the field and the collection of a key have one column in one table. -/
theorem one_hop (hkey : Key.ofText key = .chain [relationship, column])
    (hspot : (s.spot key).found = .ok p) :
    ∃ hop : Hop, s.spot key = ⟨[hop], .ok p⟩ ∧
      s.collection key = ⟨[], .ok ⟨hop.relationship, hop.target.table, p.column⟩⟩ := by
  have hchain : Key.ofText key = .chain ([] ++ [relationship, column]) := hkey
  obtain ⟨⟨hop, a⟩, hcrossing, rfl⟩ := map_eq_ok_iff.mp ((spot_of_chain hchain).symm.trans hspot)
  obtain ⟨hspotHops, hhops⟩ := hops_of_chain hchain hcrossing
  have hcollection : (s.collection key).found =
      .ok ⟨hop.relationship, hop.target.table, a.column⟩ := by
    rw [collection_of_chain hchain, hcrossing]
    rfl
  refine ⟨hop, ?_, ?_⟩
  · rw [← hspot]
    exact congrArg (Lookup.mk · (s.spot key).found) hspotHops
  · rw [← hcollection]
    exact congrArg (Lookup.mk · (s.collection key).found) hhops

end OneHop

theorem planList_eq {test : List Value → ColumnTest} {ifEmpty : Bool} {values : List Value}
    {hops : List Hop} {p : Spot} (hvalues : c.listValues = .ok values)
    (hfield : s.spot c.key = ⟨hops, .ok p⟩) :
    s.planList c test ifEmpty = ⟨hops, false, .ok (if values.isEmpty then
      OwnTest.settled ifEmpty else .column p.column (test values)).condition⟩ := by
  cases values <;>
    simp only [planList, hvalues, onSpot, hfield, Lookup.result, Except.mapError, bind,
      Except.bind] <;> rfl

theorem planPattern_eq {pattern : String → String} {text : String} {hops : List Hop} {p : Spot}
    (htext : c.textValue = .ok text) (hfield : s.spot c.key = ⟨hops, .ok p⟩) :
    s.planPattern c pattern =
      ⟨hops, false, .ok (OwnTest.column p.column (.like (pattern text))).condition⟩ := by
  simp only [planPattern, htext, planColumn, onSpot, hfield, Lookup.result, Except.mapError, bind,
    Except.bind]
  rfl

theorem planAbsence_eq {test : Option ColumnTest} {hops : List Hop} {r : Collection}
    (hcollection : s.collection c.key = ⟨hops, .ok r⟩) :
    s.planAbsence c (.ok test) =
      ⟨hops, true, .ok (test.elim (OwnTest.settled true) (OwnTest.noneRelated r)).condition⟩ := by
  cases test <;>
    simp only [planAbsence, hcollection, Lookup.result, Except.mapError, bind, Except.bind] <;>
    rfl

end Scope

/-- Where every element can be read, so can the list. -/
theorem mapM_eq_filterMap {α β ε : Type} {g : α → Except ε β} {f : α → Option β} {items : List α}
    (h : ∀ v ∈ items, ∃ x, f v = some x ∧ g v = .ok x) :
    items.mapM g = .ok (items.filterMap f) := by
  induction items with
  | nil => rfl
  | cons v items ih =>
    obtain ⟨⟨x, hx, hg⟩, hrest⟩ := List.forall_mem_cons.mp h
    rw [List.mapM_cons, ih hrest, List.filterMap_cons, hx, hg]
    rfl

/-- A list of single values has a value for every element. -/
theorem Criterion.listValues_list {c : Criterion} {items : List Operand}
    (hitems : c.operand = .list items) (hsingle : ∀ v ∈ items, v.isList = false) :
    c.listValues = .ok (items.filterMap Value.ofOperand?) := by
  rw [listValues, hitems]
  apply mapM_eq_filterMap
  intro v hv
  have hv := hsingle v hv
  cases v <;> first | exact ⟨_, rfl, rfl⟩ | simp [Operand.isList] at hv

namespace Scope

/-- Membership in an empty list agrees with a comparison that no value passes. -/
theorem agrees_within (column : String) (values : List Value) :
    (if values.isEmpty then OwnTest.settled false else .column column (.within values)).Agrees
      (.column column (.within values)) := by
  intro κ e db row
  cases values <;> rfl

theorem agrees_noneWithin (r : Collection) (values : List Value) :
    ((if values.isEmpty then none else some (.within values)).elim (OwnTest.settled true)
      (OwnTest.noneRelated r)).Agrees (.noneRelated r (.within values)) := by
  intro κ e db row
  cases values with
  | nil =>
    have hnone : ((db r.table).any fun other =>
        (r.related "" 0 (.within [])).counts e row other) = false := by
      apply List.any_eq_false.mpr
      intro other _
      simp [Related.counts, Collection.related, ColumnTest.truth]
    simp only [List.isEmpty_nil, if_true, Option.elim_none, OwnTest.truth, hnone, Bool.not_false]
  | cons v values => rfl

/-- Over one relationship an exclusion selects the root rows that the inclusion of the same values
or of the same text does not select. -/
theorem exclusion_complement (s : Scope) (key relationship column : String) (p : Spot)
    (hkey : Key.ofText key = .chain [relationship, column]) (hspot : (s.spot key).found = .ok p)
    (label label' : Option String) (items : List Operand) (hitems : ∀ v ∈ items, v.isList = false)
    (text : String) :
    s.Complementary [⟨key, .excludeIn, .list items, [], [], label⟩]
      [⟨key, .inList, .list items, [], [], label'⟩] ∧
    s.Complementary [⟨key, .excludeLike, .text text, [], [], label⟩]
      [⟨key, .like, .text text, [], [], label'⟩] := by
  obtain ⟨hop, hfield, hcollection⟩ := one_hop hkey hspot
  constructor
  · let c : Criterion := ⟨key, .inList, .list items, [], [], label'⟩
    let d : Criterion := ⟨key, .excludeIn, .list items, [], [], label⟩
    have hvalues : c.listValues = .ok (items.filterMap Value.ofOperand?) :=
      Criterion.listValues_list rfl hitems
    have hdvalues : d.listValues = .ok (items.filterMap Value.ofOperand?) :=
      Criterion.listValues_list rfl hitems
    have hc : s.plan c = s.planList c .within false := plan_of_shape rfl
    have hd : s.plan d = s.planAbsence d (d.listValues.map fun vs =>
      if vs.isEmpty then none else some (.within vs)) := plan_of_shape rfl
    rw [planList_eq hvalues hfield] at hc
    rw [hdvalues, Except.map, planAbsence_eq (c := d) hcollection] at hd
    exact complementary_of_plans rfl rfl (by rw [hc]) (by rw [hd]) (by rw [hc])
      (agrees_within _ _) (by rw [hd]) (agrees_noneWithin _ _)
  · let c : Criterion := ⟨key, .like, .text text, [], [], label'⟩
    let d : Criterion := ⟨key, .excludeLike, .text text, [], [], label⟩
    have htext : c.textValue = .ok text := rfl
    have hc : s.plan c = s.planPattern c containing := plan_of_shape rfl
    have hd : s.plan d = s.planAbsence d (.ok (some (.like (containing text)))) := plan_of_shape rfl
    rw [planPattern_eq htext hfield] at hc
    rw [planAbsence_eq (c := d) hcollection, Option.elim_some] at hd
    exact complementary_of_plans rfl rfl (by rw [hc]) (by rw [hd]) (by rw [hc])
      (OwnTest.Agrees.refl _) (by rw [hd]) (OwnTest.Agrees.refl _)

end Scope

/-- Ann has a score of 7 in one database and none at all in the other. -/
theorem exclusion_complement_ann :
    Key.ofText "scores.total" = .chain ["scores", "total"] ∧
      (playerScope.spot "scores.total").found = .ok ⟨"total", .integer, true, none⟩ ∧
      (∀ v ∈ [Operand.text "7"], v.isList = false) ∧
      ∃ f g,
        playerScope.compile [⟨"scores.total", .excludeIn, .list [.text "7"], [], [], none⟩] =
          .ok f ∧
        playerScope.compile [⟨"scores.total", .inList, .list [.text "7"], [], [], some "s"⟩] =
          .ok g ∧
        g.Selects .texts annScored "players" annRow ∧
        ¬ f.Selects .texts annScored "players" annRow ∧
        f.Selects .texts annUnscored "players" annRow := by
  have hkey : Key.ofText "scores.total" = .chain ["scores", "total"] := by decide
  have hitems : ∀ v ∈ [Operand.text "7"], v.isList = false := List.forall_mem_singleton.mpr rfl
  obtain ⟨⟨f, g, hf, hg, h⟩, -⟩ := playerScope.exclusion_complement "scores.total" "scores" "total"
    ⟨"total", .integer, true, none⟩ hkey rfl none (some "s") [.text "7"] hitems "7"
  have hfroot : playerScope.root.table ∉ f.names := by
    obtain rfl := Except.ok.inj hf
    decide
  have hgroot : playerScope.root.table ∉ g.names := by
    obtain rfl := Except.ok.inj hg
    decide
  have hrows {κ : Type} := @h hfroot hgroot κ
  have hselects : g.Selects .texts annScored "players" annRow := by
    obtain rfl := Except.ok.inj hg
    refine ⟨List.mem_cons_self, annScoredRows, ⟨rfl, ?_⟩, (Selection.holds_some ..).mpr rfl⟩
    exact List.forall_mem_cons.mpr ⟨⟨List.mem_cons_self, rfl⟩, List.forall_mem_nil _⟩
  have hnone : ¬ g.Selects .texts annUnscored "players" annRow := by
    obtain rfl := Except.ok.inj hg
    rintro ⟨-, a, ⟨-, hjoins⟩, -⟩
    exact absurd (hjoins _ List.mem_cons_self).1 List.not_mem_nil
  refine ⟨hkey, rfl, hitems, f, g, hf, hg, hselects, ?_, ?_⟩
  · exact fun hexcluded => (hrows .texts annScored annRow List.mem_cons_self).mp hexcluded hselects
  · exact (hrows .texts annUnscored annRow List.mem_cons_self).mpr hnone

end EntitySearch
