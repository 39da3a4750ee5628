import EntitySearch.Proofs.Paging
import EntitySearch.Proofs.StatementText
/-!
Pages and their totals. Both are asked for with one statement over the same joins and condition, and
so are about the same rows, however the rows are joined.
-/
namespace EntitySearch
open Sql

/-- What a database is asked. -/
inductive Query
  | count (p : Prepared)
  | fetch (p : Prepared)
  deriving DecidableEq

/-- The answers of a database to what it is asked, in view of all it was asked up to then. -/
structure Script (ρ : Type) where
  count : List Query → Except StorageError UInt64
  fetch : List Query → Except StorageError (List ρ)

/-- A database that answers by a script and keeps what it is asked. -/
def Database.scripted {ρ : Type} (backend : Backend) (script : Script ρ) :
    Database (StateM (List Query)) ρ where
  backend := backend
  count p := do
    modify (· ++ [.count p])
    return script.count (← get)
  fetch p := do
    modify (· ++ [.fetch p])
    return script.fetch (← get)

namespace PageRequest
variable {page size max : UInt64} {r : PageRequest}

/-- The offset of an accepted page is exact: nothing is cut off. -/
theorem offset_of_bounded (h : bounded page size max = .ok { r with sort := [] }) :
    r.page = page ∧ r.size = size ∧ r.offset = page * size ∧
      (page * size).toNat = page.toNat * size.toNat := by
  obtain ⟨-, hreachable, heq⟩ := bounded_eq_ok_iff.mp h
  obtain ⟨rfl, rfl, -⟩ := PageRequest.mk.inj heq
  have hoffset := toNat_offset hreachable
  have hproduct : (r.page * r.size).toNat = r.page.toNat * r.size.toNat := by
    rw [UInt64.toNat_mul, ← hoffset, Nat.mod_eq_of_lt r.offset.toNat_lt]
  exact ⟨rfl, rfl, UInt64.toNat_inj.mp (hoffset.trans hproduct.symm), hproduct⟩

end PageRequest

namespace Database
variable {ρ : Type} {backend : Backend} {script : Script ρ} {earlier : List Query}
  {t : RecordTable} {sel : Selection} {ordering : List ColumnOrder} {r : PageRequest}

/-- The statement that counts. -/
def counting (backend : Backend) (t : RecordTable) (sel : Selection) : Query :=
  .count (((t.countStatement sel).fragment backend).prepare backend)

/-- The statement that fetches. -/
def paging (backend : Backend) (t : RecordTable) (sel : Selection) (ordering : List ColumnOrder)
    (r : PageRequest) : Query :=
  .fetch (((t.pageStatement sel ordering r).fragment backend).prepare backend)

theorem counting_eq : counting backend t sel = .count
    ⟨"SELECT COUNT(*) AS num_items FROM (" ++ t.selectText backend sel ++ ") AS " ++
      quoteName backend "sub_query", sel.values backend⟩ :=
  congrArg Query.count (RecordTable.prepare_count ..)

theorem paging_eq : paging backend t sel ordering r = .fetch
    ⟨t.selectText backend sel ++ orderText backend ordering ++
      limitText backend (sel.values backend).length,
      sel.values backend ++ [.uint64 r.size, .uint64 r.offset]⟩ :=
  congrArg Query.fetch (RecordTable.prepare_page ..)

theorem run_bind {σ α β : Type} {x : StateM σ α} {f : α → StateM σ β} {before after : σ} {a : α}
    (h : x.run before = (a, after)) : (x >>= f).run before = (f a).run after := by
  rw [StateT.run_bind, h]
  rfl

theorem backend_scripted : (scripted backend script).backend = backend := rfl

theorem run_count (p : Prepared) : ((scripted backend script).count p).run earlier =
    (script.count (earlier ++ [.count p]), earlier ++ [.count p]) := rfl

theorem run_fetch (p : Prepared) : ((scripted backend script).fetch p).run earlier =
    (script.fetch (earlier ++ [.fetch p]), earlier ++ [.fetch p]) := rfl

/-- If counting fails nothing else is asked. -/
theorem run_of_count_error {e : StorageError}
    (h : script.count (earlier ++ [counting backend t sel]) = .error e) :
    ((scripted backend script).findAll t sel ordering r).run earlier =
      (.error e, earlier ++ [counting backend t sel]) := by
  rw [counting] at h ⊢
  rw [findAll, run_bind (run_count _)]
  simp only [backend_scripted, h]
  rfl

theorem run_of_count_ok {total : UInt64}
    (h : script.count (earlier ++ [counting backend t sel]) = .ok total) :
    ((scripted backend script).findAll t sel ordering r).run earlier =
      let asked := earlier ++ [counting backend t sel] ++ [paging backend t sel ordering r]
      ((script.fetch asked).map fun content => .of content total r, asked) := by
  rw [counting] at h ⊢
  rw [findAll, run_bind (run_count _)]
  simp only [backend_scripted, h]
  rw [run_bind (run_fetch _), paging]
  cases script.fetch _ <;> rfl

/-- A page is fetched after all its rows are counted, and only if that succeeds; an error of either
statement is passed on. Both statements have the same joins, condition and DISTINCT, and the one
that fetches has an order, a limit and an offset besides. So where rows of the root table differ,
each row that matches is counted once and is on the pages once, whatever it is joined with. -/
theorem findAll_counts_matching (backend : Backend) (script : Script ρ) (earlier : List Query)
    (t : RecordTable) (sel : Selection) (ordering : List ColumnOrder) {page size max : UInt64}
    {r : PageRequest} (h : PageRequest.bounded page size max = .ok { r with sort := [] }) :
    let q := t.selecting sel
    let unpaged : Select := { q with order := ordering }
    let paged : Select := { unpaged with limit := some size, offset := some (page * size) }
    let text := t.selectText backend sel
    let values := sel.values backend
    let counted := earlier ++ [.count
      ⟨"SELECT COUNT(*) AS num_items FROM (" ++ text ++ ") AS " ++ quoteName backend "sub_query",
        values⟩]
    let fetched := counted ++ [.fetch
      ⟨text ++ orderText backend ordering ++ limitText backend values.length,
        values ++ [.uint64 size, .uint64 (page * size)]⟩]
    let out := ((scripted backend script).findAll t sel ordering r).run earlier
    ((∀ e, script.count counted = .error e → out = (.error e, counted)) ∧
      ∀ total, script.count counted = .ok total →
        out = ((script.fetch fetched).map fun content =>
          ⟨content, total, Page.pageCount total size, page, size⟩, fetched)) ∧
    (t.countStatement sel = .count q ∧ t.pageStatement sel ordering r = .rows paged ∧
      (page * size).toNat = page.toNat * size.toNat ∧
      q.joins = sel.joins ∧ q.condition = sel.condition ∧ (q.distinct = true ↔ sel.joins ≠ [])) ∧
    ∀ {κ : Type} [DecidableEq κ] (e : Engine κ) (db : Tables κ),
      ((db t.name).Pairwise fun row row' => ∃ c ∈ t.columns, row c ≠ row' c) →
      (t.matching e db sel).Nodup ∧
      (∀ n, q.Counts e db n ↔ n = (t.matching e db sel).length) ∧
      (∀ rows, unpaged.Yields e db rows ↔ rows.Perm (t.matching e db sel)) ∧
      (∀ rows, paged.Yields e db rows ↔
        ∃ all : List (List (Cell κ)), all.Perm (t.matching e db sel) ∧
          rows = (all.drop (page.toNat * size.toNat)).take size.toNat) ∧
      ∀ (s : Scope) (cs : Forest), s.compile cs = .ok sel → s.root.table = t.name →
        s.root.table ∉ sel.names → ∀ record, record ∈ t.matching e db sel ↔
          ∃ row, sel.Selects e db t.name row ∧ t.record row = record := by
  obtain ⟨rfl, rfl, hoffset, hproduct⟩ := PageRequest.offset_of_bounded h
  intro q unpaged paged text values counted fetched out
  have hcounted : counted = earlier ++ [counting backend t sel] := by rw [counting_eq]
  have hfetched : fetched = counted ++ [paging backend t sel ordering r] := by
    rw [paging_eq, hoffset]
  rw [hfetched, hcounted]
  refine ⟨⟨fun e => run_of_count_error, fun total => run_of_count_ok⟩, ⟨rfl, ?_, hproduct,
    RecordTable.joins_selecting, RecordTable.condition_selecting,
    RecordTable.distinct_selecting⟩, ?_⟩
  · rw [RecordTable.pageStatement, hoffset]
  · intro κ _ e db hdiffer
    have hrecords := RecordTable.records_perm (e := e) (s := sel) hdiffer
    refine ⟨RecordTable.nodup_matching hdiffer, fun n => Select.counts_iff hrecords rfl rfl,
      fun rows => Select.yields_unlimited_iff hrecords rfl rfl ordering, fun rows => ?_, ?_⟩
    · rw [Select.yields_page_iff hrecords, hproduct]
    · intro s cs hcompile htable hroot record
      rw [RecordTable.mem_matching, ← htable]
      constructor
      · rintro ⟨row, hrow, hmatches, hrecord⟩
        exact ⟨row, (Scope.matches_iff_selects hcompile hroot hrow).mp hmatches, hrecord⟩
      · rintro ⟨row, hselects, hrecord⟩
        exact ⟨row, hselects.1,
          (Scope.matches_iff_selects hcompile hroot hselects.1).mpr hselects, hrecord⟩

end Database

def bobRow : Row String := .of [("id", "2"), ("name", "Bob")]

/-- Ann has two scores and Bob has none. -/
def annScoredTwice : Tables String
  | "players" => [annRow, bobRow]
  | "player_scores" =>
    [.of [("player_id", "1"), ("total", "7")], .of [("player_id", "1"), ("total", "9")]]
  | _ => []

def playerTable : RecordTable := ⟨"players", ["id", "name"]⟩

/-- Two scores of Ann's match; she is found twice and counted once. -/
theorem findAll_counts_ann :
    PageRequest.bounded 0 20 100 = .ok { PageRequest.first with sort := [] } ∧
    ((annScoredTwice playerTable.name).Pairwise fun row row' =>
      ∃ c ∈ playerTable.columns, row c ≠ row' c) ∧
    ∃ sel, playerScope.compile [ownScore] = .ok sel ∧
      ((playerTable.selecting sel).found .texts annScoredTwice).length = 2 ∧
      (∀ n, (playerTable.selecting sel).Counts .texts annScoredTwice n ↔ n = 1) ∧
      (∀ rows, (playerTable.selecting sel).Yields .texts annScoredTwice rows ↔
        rows = [playerTable.record annRow]) ∧
      ∃ row, sel.Selects .texts annScoredTwice "players" row ∧
        playerTable.record row = playerTable.record annRow := by
  have hbounded : PageRequest.bounded 0 20 100 = .ok { PageRequest.first with sort := [] } := by
    decide
  have hdiffer : (annScoredTwice playerTable.name).Pairwise fun row row' =>
      ∃ c ∈ playerTable.columns, row c ≠ row' c :=
    List.pairwise_pair.mpr ⟨"id", List.mem_cons_self, by decide⟩
  obtain ⟨sel, hcompile⟩ : ∃ sel, playerScope.compile [ownScore] = .ok sel := ⟨_, rfl⟩
  obtain ⟨-, -, hreads⟩ := Database.findAll_counts_matching .sqlite
    ⟨fun _ => .ok 1, fun _ => .ok [()]⟩ [] playerTable sel [] hbounded
  obtain ⟨-, hcounts, hyields, -, hselects⟩ := hreads .texts annScoredTwice hdiffer
  have hmatching : playerTable.matching .texts annScoredTwice sel =
      [playerTable.record annRow] := by
    obtain rfl := Except.ok.inj hcompile
    rfl
  have hroot : playerScope.root.table ∉ sel.names := by
    obtain rfl := Except.ok.inj hcompile
    decide
  rw [hmatching] at hcounts hyields hselects
  refine ⟨hbounded, hdiffer, sel, hcompile, ?_, hcounts, fun rows => ?_,
    (hselects playerScope [ownScore] hcompile rfl hroot _).mp (List.mem_singleton_self _)⟩
  · obtain rfl := Except.ok.inj hcompile
    rfl
  · exact (hyields rows).trans List.perm_singleton

end EntitySearch
