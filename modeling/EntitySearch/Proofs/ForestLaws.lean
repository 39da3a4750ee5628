import EntitySearch.Proofs.Meaning
/-!
How the rows that a forest selects depend on the forest: a criterion added to it narrows them, and
an alternative added to a criterion keeps those for which its joins can be made.
-/
namespace EntitySearch
open Sql

/-- Text columns, an engine for examples. -/
def Sql.Engine.texts : Engine String where
  same x y := x == y
  same_comm _ _ := BEq.comm
  compare
    | x, .text y => Ord.compare x y
    | _, _ => .lt
  like x pattern := x == pattern
  document _ _ _ := .unknown

def Sql.Row.of (cells : List (String × String)) : Row String := fun column => cells.lookup column

/-- Appending a criterion selects no further rows: what the longer forest selects, both parts
select on their own, although they get other joins and other names there. -/
theorem Scope.restriction_narrows (s : Scope) (cs : Forest) (c : Criterion) (sel : Selection)
    (h : s.compile (cs ++ [c]) = .ok sel) :
    ∃ selAll selOne, s.compile cs = .ok selAll ∧ s.compile [c] = .ok selOne ∧
      (s.root.table ∉ sel.names → s.root.table ∉ selAll.names → s.root.table ∉ selOne.names →
        ∀ {κ : Type} (e : Engine κ) (db : Tables κ) (row : Row κ),
          sel.Selects e db s.root.table row →
            selAll.Selects e db s.root.table row ∧ selOne.Selects e db s.root.table row) := by
  have hplans := exists_compile_iff.mp ⟨sel, h⟩
  rw [Forest.nodes_append] at hplans
  obtain ⟨selAll, hAll⟩ := exists_compile_iff.mpr fun d hd =>
    hplans d (List.mem_append_left _ hd)
  obtain ⟨selOne, hOne⟩ := exists_compile_iff.mpr fun d hd =>
    hplans d (List.mem_append_right _ hd)
  refine ⟨selAll, selOne, hAll, hOne, ?_⟩
  intro hroot hrootAll hrootOne κ e db row hrow
  obtain ⟨hmem, ρ, hρ⟩ := (selects_iff h hroot).mp hrow
  obtain ⟨hρAll, hρOne⟩ := satisfies_append_iff.mp hρ
  exact ⟨(selects_iff hAll hrootAll).mpr ⟨hmem, ρ, hρAll⟩,
    (selects_iff hOne hrootOne).mpr ⟨hmem, ρ, hρOne⟩⟩

/-- A score above 5 under a label of its own, so that it has a join of its own. -/
def ownScore : Criterion := ⟨"scores.total", .greater, .text "5", [], [], some "own"⟩

def anyScore : Criterion := ⟨"scores.total", .less, .text "8", [], [], none⟩

def annRow : Row String := .of [("id", "1"), ("name", "Ann")]

/-- Ann has one score, which is 7. -/
def annScored : Tables String
  | "players" => [annRow]
  | "player_scores" => [.of [("player_id", "1"), ("total", "7")]]
  | _ => []

/-- Ann is the root row and her score the row of every join. -/
def annScoredRows (x : String) : Row String :=
  if x = "players" then annRow else .of [("player_id", "1"), ("total", "7")]

theorem exists_selects_ann : ∃ sel, playerScope.compile ([ownScore] ++ [anyScore]) = .ok sel ∧
    playerScope.root.table ∉ sel.names ∧ sel.Selects .texts annScored "players" annRow := by
  refine ⟨_, rfl, by decide, List.mem_cons_self, annScoredRows, ⟨rfl, ?_⟩, ?_⟩
  · exact List.forall_mem_cons.mpr ⟨⟨List.mem_cons_self, rfl⟩,
      List.forall_mem_cons.mpr ⟨⟨List.mem_cons_self, rfl⟩, List.forall_mem_nil _⟩⟩
  · exact (Selection.holds_some ..).mpr rfl

theorem restriction_narrows_ownScore :
    ∃ sel selAll selOne, playerScope.compile ([ownScore] ++ [anyScore]) = .ok sel ∧
      playerScope.compile [ownScore] = .ok selAll ∧ playerScope.compile [anyScore] = .ok selOne ∧
      sel.Selects .texts annScored "players" annRow ∧
      selAll.Selects .texts annScored "players" annRow ∧
      selOne.Selects .texts annScored "players" annRow := by
  obtain ⟨sel, h, hroot, hrow⟩ := exists_selects_ann
  obtain ⟨selAll, selOne, hAll, hOne, hnarrow⟩ :=
    playerScope.restriction_narrows [ownScore] anyScore sel h
  have hrootAll : playerScope.root.table ∉ selAll.names := by
    obtain rfl := Except.ok.inj hAll
    decide
  have hrootOne : playerScope.root.table ∉ selOne.names := by
    obtain rfl := Except.ok.inj hOne
    decide
  have hrows := hnarrow hroot hrootAll hrootOne .texts annScored annRow hrow
  exact ⟨sel, selAll, selOne, h, hAll, hOne, hrow, hrows⟩

/-- One more alternative. -/
def Criterion.withAlternative (d c : Criterion) : Criterion := { d with anyOf := d.anyOf ++ [c] }

section Alternative
variable {s : Scope} {d c : Criterion} {before after : Forest}

theorem Scope.mem_routesOf_withAlternative {r : Route} :
    r ∈ s.routesOf (before ++ d.withAlternative c :: after) ↔
      r ∈ s.routesOf (before ++ d :: after) ∨ r ∈ s.routesOf [c] := by
  have hroutes : s.routes (d.withAlternative c) = s.routes d := rfl
  rw [routesOf_append, routesOf_append, routesOf_cons, routesOf_cons, hroutes,
    show (d.withAlternative c).anyOf = d.anyOf ++ [c] from rfl,
    show (d.withAlternative c).allOf = d.allOf from rfl, routesOf_append]
  simp only [List.mem_append]
  tauto

variable {κ : Type} {e : Engine κ} {db : Tables κ} {ρ : Option Route → Row κ}

theorem Tree.formula_le_withAlternative {β : Type} [Lattice β] [BoundedOrder β]
    {v : Criterion → β} (hv : v (d.withAlternative c) = v d) :
    d.tree.formula v ≤ (d.withAlternative c).tree.formula v := by
  obtain ⟨key, operation, operand, allOf, anyOf, label⟩ := d
  have hanyOf : Forest.trees (anyOf ++ [c]) = Forest.trees anyOf ++ [c.tree] :=
    Forest.trees_append anyOf [c]
  rw [Criterion.withAlternative] at hv ⊢
  rw [Criterion.tree, Criterion.tree, Tree.formula, Tree.formula, hv, hanyOf,
    Tree.formulas_append, Junction.fold_any_append]
  exact sup_le_sup_left le_sup_left _

/-- An alternative never makes a forest less true of the same rows. -/
theorem Scope.truth_le_withAlternative :
    s.truth e db ρ (before ++ d :: after) ≤
      s.truth e db ρ (before ++ d.withAlternative c :: after) := by
  have hd : s.truth e db ρ [d] ≤ s.truth e db ρ [d.withAlternative c] := by
    have hle := Tree.formula_le_withAlternative (d := d) (c := c)
      (v := fun c => s.ownTruth e db c (ρ (s.instanceOf c))) rfl
    simpa [truth, Forest.trees, Tree.formulas] using hle
  rw [← List.singleton_append, ← List.singleton_append (l := after), truth_append, truth_append,
    truth_append, truth_append]
  exact inf_le_inf_left _ (inf_le_inf_right _ hd)

theorem Scope.truth_withAlternative (h : s.truth e db ρ (before ++ d :: after) = .yes) :
    s.truth e db ρ (before ++ d.withAlternative c :: after) = .yes := by
  have hle : Truth.yes ≤ s.truth e db ρ (before ++ d.withAlternative c :: after) := by
    rw [← h]
    exact truth_le_withAlternative
  exact top_le_iff.mp hle

end Alternative

namespace Scope

/-- An alternative keeps a selected row as long as the rows chosen for the joins can be completed
by rows for the joins that it adds; where it adds none, it keeps every selected row. -/
theorem alternative_keeps (s : Scope) (before after : Forest) (d c : Criterion)
    (sel sel' : Selection) (h : s.compile (before ++ d :: after) = .ok sel)
    (h' : s.compile (before ++ d.withAlternative c :: after) = .ok sel')
    (hroot : s.root.table ∉ sel.names) (hroot' : s.root.table ∉ sel'.names) :
    ∃ μ, sel.Embeds sel' s.root.table μ ∧
      ∀ {κ : Type} (e : Engine κ) (db : Tables κ) (row : Row κ), row ∈ db s.root.table →
        (∀ a a', sel.Fits e db a s.root.table row → sel.Holds e db a →
          sel'.Fits e db a' s.root.table row → (∀ j ∈ sel.joins, a' (μ j.name) = a j.name) →
          sel'.Selects e db s.root.table row) ∧
        (sel'.joins.length = sel.joins.length → sel.Selects e db s.root.table row →
          sel'.Selects e db s.root.table row) := by
  obtain ⟨rs, hrs⟩ := exists_realizes h
  obtain ⟨rs', hrs'⟩ := exists_realizes h'
  have hsub : ∀ r ∈ rs, r ∈ rs' := fun r hr =>
    (hrs'.mem_iff r).mpr (mem_routesOf_withAlternative.mpr (Or.inl ((hrs.mem_iff r).mp hr)))
  refine ⟨s.rename rs rs', hrs.embeds hroot hrs' hsub, ?_⟩
  intro κ e db row hrow
  constructor
  · intro a a' hfits hholds hfits' hsame
    have hstart : a s.root.table = a' s.root.table := hfits.root_eq.trans hfits'.root_eq.symm
    have hρ := (hrs.satisfies_iff hroot).mpr ⟨hfits, hholds⟩
    have hρ' := hρ.congr hrs.rooted hrs.mem_iff (hrs.agree hroot hstart hsame)
    have htruth := truth_withAlternative (c := c) hρ'.truth_eq
    exact ⟨hrow, a', hfits', (hrs'.holds_iff hroot' e db a').mpr htruth⟩
  · intro hlength hselects
    obtain ⟨-, ρ, hρ⟩ := (selects_iff h hroot).mp hselects
    have hsup := hrs.mem_of_length_eq hrs' hsub hlength
    have hfits : ∀ r ∈ s.routesOf (before ++ d.withAlternative c :: after), r.Fits e db ρ := by
      intro r hr
      have hr' := hsup r ((hrs'.mem_iff r).mpr hr)
      exact hρ.fits r ((hrs.mem_iff r).mp hr')
    exact (selects_iff h' hroot').mpr
      ⟨hrow, ρ, hρ.root_eq, hfits, truth_withAlternative hρ.truth_eq⟩

end Scope

def namedAnn : Criterion := ⟨"name", .equals, .text "Ann", [], [], none⟩

/-- Ann's score completes the rows that select her by her name. -/
theorem alternative_keeps_ann :
    ∃ sel sel', playerScope.compile [namedAnn] = .ok sel ∧
      playerScope.compile [namedAnn.withAlternative anyScore] = .ok sel' ∧
      sel'.Selects .texts annScored "players" annRow := by
  refine ⟨_, _, rfl, rfl, ?_⟩
  obtain ⟨μ, -, hkeeps⟩ := playerScope.alternative_keeps [] [] namedAnn anyScore _ _ rfl rfl
    (by decide) (by decide)
  apply (hkeeps .texts annScored annRow List.mem_cons_self).1 (fun _ => annRow) annScoredRows
  · exact ⟨rfl, List.forall_mem_nil _⟩
  · exact (Selection.holds_some ..).mpr rfl
  · exact ⟨rfl, List.forall_mem_cons.mpr ⟨⟨List.mem_cons_self, rfl⟩, List.forall_mem_nil _⟩⟩
  · exact List.forall_mem_nil _

/-- Ann has no score. -/
def annUnscored : Tables String
  | "players" => [annRow]
  | _ => []

/-- Players in a table that has the name of a sub-query. -/
def capturedScope : Scope :=
  let player : Entity := ⟨"player", "scores_sub1", "id", [⟨"name", "name", .text⟩],
    [⟨"scores", "score", .hasMany, "id", "player_id"⟩]⟩
  let score : Entity := ⟨"score", "player_scores", "id", [⟨"total", "total", .integer⟩], []⟩
  ⟨⟨[player, score]⟩, player⟩

def annCaptured : Tables String
  | "scores_sub1" => [annRow]
  | "player_scores" => [.of [("player_id", "1"), ("total", "7")]]
  | _ => []

def noScoreOf (total : String) : Criterion :=
  ⟨"scores.total", .excludeIn, .list [.text total], [], [], none⟩

/-- Joins are inner joins, so an alternative that is false for want of a related row takes the
selected row with it. An alternative also moves the numbers of sub-queries on, which matters to
those that take the name of the root table. -/
theorem alternative_loses_ann :
    (∃ sel sel', playerScope.compile [namedAnn] = .ok sel ∧
      playerScope.compile [namedAnn.withAlternative anyScore] = .ok sel' ∧
      sel.Selects .texts annUnscored "players" annRow ∧
      ¬ sel'.Selects .texts annUnscored "players" annRow) ∧
    ∃ sel sel', capturedScope.compile [namedAnn, noScoreOf "7"] = .ok sel ∧
      capturedScope.compile [namedAnn.withAlternative (noScoreOf "8"), noScoreOf "7"] = .ok sel' ∧
      sel.Selects .texts annCaptured "scores_sub1" annRow ∧
      ¬ sel'.Selects .texts annCaptured "scores_sub1" annRow := by
  constructor
  · refine ⟨_, _, rfl, rfl, ?_, ?_⟩
    · exact ⟨List.mem_cons_self, fun _ => annRow, ⟨rfl, List.forall_mem_nil _⟩,
        (Selection.holds_some ..).mpr rfl⟩
    · rintro ⟨-, a, ⟨-, hjoins⟩, -⟩
      have hscore := (hjoins _ List.mem_cons_self).1
      exact absurd hscore List.not_mem_nil
  · refine ⟨_, _, rfl, rfl, ?_, ?_⟩
    · exact ⟨List.mem_cons_self, fun _ => annRow, ⟨rfl, List.forall_mem_nil _⟩,
        (Selection.holds_some ..).mpr rfl⟩
    · rintro ⟨-, a, ⟨hrow, -⟩, hholds⟩
      -- the root row is all that the condition reads of `a`
      have ha : a = Function.update a "scores_sub1" annRow := by
        rw [← hrow, Function.update_eq_self]
      have hyes := hholds _ rfl
      rw [ha] at hyes
      have hno : Truth.no = Truth.yes := hyes
      exact absurd hno (by decide)

end EntitySearch
