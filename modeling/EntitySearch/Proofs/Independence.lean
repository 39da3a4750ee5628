import EntitySearch.Proofs.Address
import EntitySearch.Proofs.ForestLaws
/-!
Forests that share no join. Rows for the joins of one can be chosen whatever rows the joins of the
other have, so that together they select the rows that both select.
-/
namespace EntitySearch
open Sql

/-- The relationship that is joined first on the way to the instance that a criterion tests. -/
def Criterion.firstName? (c : Criterion) : Option String := c.path.head?

/-- No criteria of two forests join the same relationship first under the same label. -/
def Forest.Apart (cs ds : Forest) : Prop :=
  ∀ c ∈ nodes cs, ∀ d ∈ nodes ds, ∀ name,
    c.firstName? = some name → d.firstName? = some name → c.label ≠ d.label

/-- Rows for the routes `rs` and the root from `ρ`, for all other routes from `ρ'`. -/
def Route.splice {α : Type} (rs : List Route) (ρ ρ' : Option Route → α) : Option Route → α
  | none => ρ none
  | some r => if r ∈ rs then ρ (some r) else ρ' (some r)

namespace Scope
variable {s : Scope} {cs ds : Forest}

/-- A route that a forest asks for starts with the label and the first relationship of one of its
criteria. -/
theorem exists_firstName_of_mem_routesOf
    (hplans : ∀ c ∈ Forest.nodes cs, ∃ f, (s.plan c).condition = .ok f) {r : Route}
    (hr : r ∈ s.routesOf cs) :
    ∃ c ∈ Forest.nodes cs, ∃ name,
      c.label = r.label ∧ c.firstName? = some name ∧ r.address.path.head? = some name := by
  obtain ⟨c, hc, hroute⟩ := List.mem_flatMap.mp hr
  obtain ⟨f, hf⟩ := hplans c hc
  have haddress := List.mem_map_of_mem (f := Route.address) hroute
  rw [map_address_routes hf] at haddress
  obtain ⟨hlabel, hne, rest, hrest⟩ := Criterion.mem_addresses.mp haddress
  obtain ⟨name, names, hpath⟩ := List.exists_cons_of_ne_nil hne
  refine ⟨c, hc, name, hlabel.symm, ?_, ?_⟩
  · rw [Criterion.firstName?, ← hrest, hpath]
    rfl
  · rw [hpath]
    rfl

theorem notMem_routesOf_of_apart (h : Forest.Apart cs ds)
    (hcs : ∀ c ∈ Forest.nodes cs, ∃ f, (s.plan c).condition = .ok f)
    (hds : ∀ d ∈ Forest.nodes ds, ∃ f, (s.plan d).condition = .ok f) {r : Route}
    (hr : r ∈ s.routesOf ds) : r ∉ s.routesOf cs := by
  intro hr'
  obtain ⟨d, hd, name, hlabel, hname, hfirst⟩ := exists_firstName_of_mem_routesOf hds hr
  obtain ⟨c, hc, name', hlabel', hname', hfirst'⟩ := exists_firstName_of_mem_routesOf hcs hr'
  obtain rfl : name = name' := Option.some.inj (hfirst.symm.trans hfirst')
  exact h c hc d hd name hname' hname (hlabel'.trans hlabel.symm)

section Rows
variable {κ : Type} {e : Engine κ} {db : Tables κ} {row : Row κ} {sel sel' : Selection}
  {rs rs' : List Route}

/-- Rows that satisfy two forests one by one are spliced into rows that satisfy both, since no
route of the one is a route of the other. -/
theorem exists_satisfies_append_iff (h : s.Realizes cs sel rs) (h' : s.Realizes ds sel' rs')
    (hdisjoint : ∀ r ∈ rs', r ∉ rs) :
    (∃ ρ, s.Satisfies e db ρ (cs ++ ds) row) ↔
      (∃ ρ, s.Satisfies e db ρ cs row) ∧ ∃ ρ, s.Satisfies e db ρ ds row := by
  simp only [satisfies_append_iff]
  constructor
  · rintro ⟨ρ, hcs, hds⟩
    exact ⟨⟨ρ, hcs⟩, ρ, hds⟩
  · rintro ⟨⟨ρ, hcs⟩, ρ', hds⟩
    refine ⟨Route.splice rs ρ ρ', ?_, ?_⟩
    · apply hcs.congr h.rooted h.mem_iff
      intro a ha
      cases a with
      | none => rfl
      | some r => exact (if_pos (ha r rfl)).symm
    · apply hds.congr h'.rooted h'.mem_iff
      intro a ha
      cases a with
      | none => exact hds.root_eq.trans hcs.root_eq.symm
      | some r => exact (if_neg (hdisjoint r (ha r rfl))).symm

end Rows

/-- Forests that compile and share no join compile together, and select together the root rows that
each of them selects. -/
theorem apart_independent (s : Scope) (cs ds : Forest) (f g : Selection)
    (hcs : s.compile cs = .ok f) (hds : s.compile ds = .ok g) (hapart : Forest.Apart cs ds) :
    ∃ both, s.compile (cs ++ ds) = .ok both ∧
      (s.root.table ∉ f.names → s.root.table ∉ g.names → s.root.table ∉ both.names →
        ∀ {κ : Type} (e : Engine κ) (db : Tables κ) (row : Row κ),
          both.Selects e db s.root.table row ↔
            f.Selects e db s.root.table row ∧ g.Selects e db s.root.table row) := by
  have hplans := exists_compile_iff.mp ⟨f, hcs⟩
  have hplans' := exists_compile_iff.mp ⟨g, hds⟩
  obtain ⟨both, hboth⟩ : ∃ both, s.compile (cs ++ ds) = .ok both := by
    rw [exists_compile_iff, Forest.nodes_append]
    exact List.forall_mem_append.mpr ⟨hplans, hplans'⟩
  refine ⟨both, hboth, ?_⟩
  intro hf hg hroot κ e db row
  obtain ⟨rs, hrs⟩ := exists_realizes hcs
  obtain ⟨rs', hrs'⟩ := exists_realizes hds
  have hdisjoint : ∀ r ∈ rs', r ∉ rs := by
    intro r hr hr'
    exact notMem_routesOf_of_apart hapart hplans hplans' ((hrs'.mem_iff r).mp hr)
      ((hrs.mem_iff r).mp hr')
  rw [selects_iff hboth hroot, selects_iff hcs hf, selects_iff hds hg,
    exists_satisfies_append_iff hrs hrs' hdisjoint]
  exact and_and_left

end Scope

/-- A score in a league of this title. -/
def playedIn (title label : String) : Criterion :=
  ⟨"scores.league.title", .equals, .text title, [], [], some label⟩

/-- Ann has one score in either of two leagues. -/
def annPlayed : Tables String
  | "players" => [annRow]
  | "player_scores" => [.of [("player_id", "1"), ("league_id", "r")],
      .of [("player_id", "1"), ("league_id", "b")]]
  | "leagues" => [.of [("id", "r"), ("title", "Reds")], .of [("id", "b"), ("title", "Blues")]]
  | _ => []

/-- Her score in a league, and that league. -/
def annPlayedRows (league title : String) : String → Row String
  | "players" => annRow
  | "scores_1" => .of [("player_id", "1"), ("league_id", league)]
  | _ => .of [("id", league), ("title", title)]

/-- Under two labels the criteria are met by two scores, each with its own league. -/
theorem apart_independent_leagues :
    ∃ f g both, leagueScope.compile [playedIn "Reds" "home"] = .ok f ∧
      leagueScope.compile [playedIn "Blues" "away"] = .ok g ∧
      Forest.Apart [playedIn "Reds" "home"] [playedIn "Blues" "away"] ∧
      leagueScope.compile ([playedIn "Reds" "home"] ++ [playedIn "Blues" "away"]) = .ok both ∧
      both.Selects .texts annPlayed "players" annRow := by
  have hapart : Forest.Apart [playedIn "Reds" "home"] [playedIn "Blues" "away"] := by
    intro c hc d hd name _ _
    obtain rfl := List.mem_singleton.mp (show c ∈ [playedIn "Reds" "home"] from hc)
    obtain rfl := List.mem_singleton.mp (show d ∈ [playedIn "Blues" "away"] from hd)
    decide
  obtain ⟨both, hboth, hrows⟩ := leagueScope.apart_independent _ _ _ _ rfl rfl hapart
  refine ⟨_, _, both, rfl, rfl, hapart, hboth, ?_⟩
  have hroot : leagueScope.root.table ∉ both.names := by
    obtain rfl := Except.ok.inj hboth
    decide
  refine (hrows (by decide) (by decide) hroot .texts annPlayed annRow).mpr ⟨?_, ?_⟩
  · refine ⟨List.mem_cons_self, annPlayedRows "r" "Reds", ⟨rfl, ?_⟩,
      (Selection.holds_some ..).mpr rfl⟩
    exact List.forall_mem_cons.mpr ⟨⟨List.mem_cons_self, rfl⟩,
      List.forall_mem_cons.mpr ⟨⟨List.mem_cons_self, rfl⟩, List.forall_mem_nil _⟩⟩
  · refine ⟨List.mem_cons_self, annPlayedRows "b" "Blues", ⟨rfl, ?_⟩,
      (Selection.holds_some ..).mpr rfl⟩
    exact List.forall_mem_cons.mpr ⟨⟨List.mem_cons_of_mem _ List.mem_cons_self, rfl⟩,
      List.forall_mem_cons.mpr ⟨⟨List.mem_cons_of_mem _ List.mem_cons_self, rfl⟩,
        List.forall_mem_nil _⟩⟩

end EntitySearch
