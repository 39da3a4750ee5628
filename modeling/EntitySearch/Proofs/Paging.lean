import EntitySearch.Params
import EntitySearch.Proofs.SortText
import Mathlib.Order.Interval.Finset.Nat
/-!
Which pages can be asked for, and which rows they are. Page numbers, sizes and offsets are words of
64 bits; what is said of them is said of the numbers that they stand for.
-/
namespace EntitySearch

namespace PageRequest
variable {page size max : UInt64} {r : PageRequest} {issues : List Issue}

/-- Sizes that a page may have. -/
def Sized (size max : UInt64) : Prop := 1 ≤ size.toNat ∧ size.toNat ≤ max.toNat

/-- The offset of a page, computed without bounds, is a signed 64-bit number. -/
def Reachable (page size : UInt64) : Prop := page.toNat * size.toNat ≤ 2 ^ 63 - 1

instance : Decidable (Sized size max) := inferInstanceAs (Decidable (_ ∧ _))

instance : Decidable (Reachable page size) := inferInstanceAs (Decidable (_ ≤ _))

theorem toNat_maxOffset : maxOffset.toNat = 2 ^ 63 - 1 := rfl

theorem not_sized_iff : ¬ Sized size max ↔ size = 0 ∨ max < size := by
  rw [Sized, ← UInt64.toNat_inj, UInt64.lt_iff_toNat_lt, UInt64.toNat_zero]
  omega

theorem not_reachable_iff :
    ¬ Reachable page size ↔ (rowsBefore? page size).all (maxOffset < ·) = true := by
  rw [Reachable, all_rowsBefore?_iff, toNat_maxOffset, Nat.not_le]

/-- What is wrong with the size and the number of a page. -/
def problems (page size max : UInt64) : List Issue :=
  (if Sized size max then [] else [sizeIssue max]) ++
    (if Reachable page size then [] else [pageIssue page size])

theorem problems_eq_nil_iff :
    problems page size max = [] ↔ Sized size max ∧ Reachable page size := by
  simp [problems]

theorem bounded_eq : bounded page size max =
    if (problems page size max).isEmpty then .ok ⟨page, size, []⟩
    else .error (problems page size max) := by
  by_cases hsized : Sized size max <;> by_cases hreachable : Reachable page size <;>
    simp [bounded, problems, ← not_sized_iff, ← not_reachable_iff, hsized, hreachable]

theorem bounded_eq_ok_iff : bounded page size max = .ok r ↔
    Sized size max ∧ Reachable page size ∧ r = ⟨page, size, []⟩ := by
  rw [bounded_eq, ← and_assoc, ← problems_eq_nil_iff]
  cases problems page size max <;> simp [eq_comm]

/-- The offset of a page that can be asked for is not cut off anywhere. -/
theorem rowsBefore?_of_reachable (h : Reachable r.page r.size) :
    rowsBefore? r.page r.size = some r.offset := by
  cases hrows : rowsBefore? r.page r.size with
  | none => exact absurd h (not_reachable_iff.mpr (by rw [hrows]; rfl))
  | some n =>
    have hn : n ≤ maxOffset := by
      rw [UInt64.le_iff_toNat_le, rowsBefore?_eq_some_iff.mp hrows, toNat_maxOffset]
      exact h
    rw [offset, hrows, Option.getD_some]
    exact congrArg some (if_pos hn).symm

theorem toNat_offset (h : Reachable r.page r.size) :
    r.offset.toNat = r.page.toNat * r.size.toNat :=
  rowsBefore?_eq_some_iff.mp (rowsBefore?_of_reachable h)

/-- The positions of the rows of a page among all rows. -/
def window (r : PageRequest) : Finset Nat :=
  Finset.Ico r.offset.toNat (r.offset.toNat + r.size.toNat)

/-- A row is on one page only, that of the quotient. -/
theorem mem_window_iff (hsize : 1 ≤ r.size.toNat) (h : Reachable r.page r.size) {i : Nat} :
    i ∈ r.window ↔ i / r.size.toNat = r.page.toNat := by
  rw [window, Finset.mem_Ico, toNat_offset h, Nat.div_eq_iff hsize]
  omega

theorem offset_mem_window (hsize : 1 ≤ r.size.toNat) : r.offset.toNat ∈ r.window :=
  Finset.mem_Ico.mpr ⟨le_rfl, by omega⟩

end PageRequest

section Parameters
open PageRequest
variable {p : SearchParams} {config : SearchConfig} {r : PageRequest} {issues : List Issue}

namespace SearchParams

/-- The orders asked for: none where there is no sort text. -/
def orders (p : SearchParams) : Except Issue (List SortOrder) :=
  p.sort.elim (.ok []) SortOrder.listOfText

/-- What is wrong with the sort text, the size and the page number, each of which is looked at
whatever is wrong with the others. -/
def problems (p : SearchParams) (config : SearchConfig) : List Issue :=
  (match p.orders with
    | .ok _ => []
    | .error issue => [issue]) ++
    PageRequest.problems (p.page.getD 0) (p.size.getD config.defaultPageSize) config.maxPageSize

theorem checkPage_eq (page size max : UInt64) : checkPage page size max =
    (PageRequest.problems page size max,
      if (PageRequest.problems page size max).isEmpty then some ⟨page, size, []⟩ else none) := by
  rw [checkPage, bounded_eq]
  cases PageRequest.problems page size max <;> rfl

theorem checkSort_of_orders {orders : List SortOrder} (h : p.orders = .ok orders) :
    p.sort.elim ([], []) checkSort = ([], orders) := by
  unfold SearchParams.orders at h
  cases hsort : p.sort with
  | none =>
    rw [hsort] at h
    exact congrArg (Prod.mk []) (Except.ok.inj h)
  | some text =>
    rw [hsort, Option.elim_some] at h
    rw [Option.elim_some, checkSort, h]

theorem checkSort_of_issue {issue : Issue} (h : p.orders = .error issue) :
    p.sort.elim ([], []) checkSort = ([issue], []) ∧ issue.field = "sort" := by
  unfold SearchParams.orders at h
  cases hsort : p.sort with
  | none =>
    rw [hsort] at h
    cases h
  | some text =>
    rw [hsort, Option.elim_some] at h
    rw [Option.elim_some, checkSort, h]
    exact ⟨rfl, SortOrder.field_of_listOfText h⟩

theorem pageRequest_of_orders {orders : List SortOrder} (h : p.orders = .ok orders) :
    p.pageRequest config = if (p.problems config).isEmpty
      then .ok ⟨p.page.getD 0, p.size.getD config.defaultPageSize, orders⟩
      else .error (p.problems config) := by
  simp only [pageRequest, checkSort_of_orders h, checkPage_eq, problems, h, List.nil_append]
  split <;> rfl

theorem pageRequest_of_issue {issue : Issue} (h : p.orders = .error issue) :
    p.pageRequest config = .error (p.problems config) := by
  simp only [pageRequest, (checkSort_of_issue h).1, checkPage_eq, problems, h]
  rfl

theorem pageRequest_eq_ok_iff : p.pageRequest config = .ok r ↔ p.orders = .ok r.sort ∧
    PageRequest.problems (p.page.getD 0) (p.size.getD config.defaultPageSize)
      config.maxPageSize = [] ∧
      r.page = p.page.getD 0 ∧ r.size = p.size.getD config.defaultPageSize := by
  cases h : p.orders with
  | error issue => simp [pageRequest_of_issue h]
  | ok orders =>
    rcases r with ⟨page, size, sort⟩
    rw [pageRequest_of_orders h, problems, h, List.nil_append]
    cases PageRequest.problems _ _ _ with
    | nil => simp [eq_comm, and_comm, and_left_comm]
    | cons issue more => simp

theorem pageRequest_eq_error_iff : p.pageRequest config = .error issues ↔
    issues ≠ [] ∧ issues = p.problems config := by
  have hcases : p.pageRequest config = .error issues ↔ p.problems config ≠ [] ∧
      p.problems config = issues := by
    cases h : p.orders with
    | error issue => simp [pageRequest_of_issue h, problems, h]
    | ok orders =>
      rw [pageRequest_of_orders h]
      cases p.problems config <;> simp
  rw [hcases]
  constructor <;> rintro ⟨hne, rfl⟩ <;> exact ⟨hne, rfl⟩

theorem fields_problems (p : SearchParams) (config : SearchConfig) :
    let size := p.size.getD config.defaultPageSize
    (p.problems config).map Issue.field =
      (if p.orders.isOk then [] else ["sort"]) ++
        (if Sized size config.maxPageSize then [] else ["size"]) ++
        (if Reachable (p.page.getD 0) size then [] else ["page"]) := by
  intro size
  have hsort : (match p.orders with
      | .ok _ => []
      | .error issue => [issue]).map Issue.field = if p.orders.isOk then [] else ["sort"] := by
    cases h : p.orders with
    | ok orders => rfl
    | error issue => exact congrArg (fun field => [field]) (checkSort_of_issue h).2
  rw [problems, PageRequest.problems, List.map_append, List.map_append, hsort, List.append_assoc]
  congr 2
  · split <;> rfl
  · split <;> rfl

/-- A page is asked for exactly if the sort text can be read, the size is one that pages may have
and the offset, computed without bounds, can be bound to a statement. What is asked for is then what
the parameters say, and the offset is exact: no product is cut off and no other page is substituted.
Otherwise each part that cannot be accepted is told of once. -/
theorem pageRequest_exact (p : SearchParams) (config : SearchConfig) :
    let page := p.page.getD 0
    let size := p.size.getD config.defaultPageSize
    (∀ r, p.pageRequest config = .ok r ↔
      p.orders = .ok r.sort ∧ Sized size config.maxPageSize ∧ Reachable page size ∧
        r.page = page ∧ r.size = size) ∧
    (∀ r, p.pageRequest config = .ok r →
      checkPage page size config.maxPageSize = ([], some { r with sort := [] }) ∧
        rowsBefore? page size = some r.offset ∧ r.offset.toNat = page.toNat * size.toNat) ∧
    (∀ issues, p.pageRequest config = .error issues ↔ issues ≠ [] ∧ issues = p.problems config) ∧
    (p.problems config).map Issue.field =
      (if p.orders.isOk then [] else ["sort"]) ++
        (if Sized size config.maxPageSize then [] else ["size"]) ++
        (if Reachable page size then [] else ["page"]) := by
  refine ⟨fun r => ?_, fun r h => ?_, fun issues => pageRequest_eq_error_iff,
    p.fields_problems config⟩
  · rw [pageRequest_eq_ok_iff, problems_eq_nil_iff, and_assoc]
  · obtain ⟨-, hproblems, hpage, hsize⟩ := pageRequest_eq_ok_iff.mp h
    rw [← hpage, ← hsize] at hproblems ⊢
    have hreachable := (problems_eq_nil_iff.mp hproblems).2
    rw [checkPage_eq, hproblems]
    exact ⟨rfl, rowsBefore?_of_reachable hreachable, toNat_offset hreachable⟩

end SearchParams
end Parameters

namespace Page
open PageRequest
variable {total size : UInt64}

theorem toNat_pageCount (hsize : 1 ≤ size.toNat) :
    (pageCount total size).toNat = (total.toNat + size.toNat - 1) / size.toNat := by
  have hle : (total.toNat + size.toNat - 1) / size.toNat ≤ total.toNat := by
    rw [← Nat.lt_succ_iff, Nat.div_lt_iff_lt_mul hsize, Nat.succ_mul]
    have hmul := Nat.le_mul_of_pos_right total.toNat hsize
    omega
  rw [pageCount, Nat.max_eq_left hsize, UInt64.toNat_ofNat_of_lt' (hle.trans_lt total.toNat_lt)]

/-- The pages are those that start before the end. -/
theorem lt_pageCount_iff (hsize : 1 ≤ size.toNat) {page : Nat} :
    page < (pageCount total size).toNat ↔ page * size.toNat < total.toNat := by
  rw [toNat_pageCount hsize, ← Nat.add_one_le_iff, Nat.le_div_iff_mul_le hsize, Nat.succ_mul]
  omega

/-- Every page that is counted can be asked for. -/
theorem reachable_of_lt_pageCount {max page : UInt64} (hsized : Sized size max)
    (htotal : total.toNat ≤ 2 ^ 63 - 1) (hpage : page < pageCount total size) :
    Reachable page size :=
  ((lt_pageCount_iff hsized.1).mp (UInt64.lt_iff_toNat_lt.mp hpage)).le.trans htotal

/-- The pages that are counted are accepted and share the rows out: each row is on one of them, no
row is on two, and none of them is without rows. Every other page that is accepted has no rows. -/
theorem pages_tile {α : Type} (content : List α) {total max : UInt64} {r : PageRequest}
    (hsized : Sized r.size max) (htotal : total.toNat ≤ 2 ^ 63 - 1) :
    let pages := (Page.of content total r).totalPages
    let nth (page : UInt64) : PageRequest := ⟨page, r.size, []⟩
    (∀ page < pages, bounded page r.size max = .ok (nth page)) ∧
    Set.PairwiseDisjoint {page | page < pages} (fun page => (nth page).window) ∧
    (∀ i < total.toNat, ∃ page < pages, i ∈ (nth page).window) ∧
    (∀ page < pages, ∃ i ∈ (nth page).window, i < total.toNat) ∧
    ∀ page ≥ pages, ∀ q, bounded page r.size max = .ok q → ∀ i ∈ q.window, total.toNat ≤ i := by
  intro pages nth
  have hcounted (page : UInt64) : page < pages ↔ page.toNat * r.size.toNat < total.toNat :=
    UInt64.lt_iff_toNat_lt.trans (lt_pageCount_iff hsized.1)
  have hreachable (page : UInt64) (hpage : page < pages) : Reachable page r.size :=
    reachable_of_lt_pageCount hsized htotal hpage
  have hrow (page : UInt64) (hpage : page < pages) (i : Nat) :
      i ∈ (nth page).window ↔ i / r.size.toNat = page.toNat :=
    mem_window_iff (r := nth page) hsized.1 (hreachable page hpage)
  refine ⟨fun page hpage => ?_, fun page hpage other hother hne => ?_, fun i hi => ?_,
    fun page hpage => ?_, fun page hpage q hq i hi => ?_⟩
  · exact bounded_eq_ok_iff.mpr ⟨hsized, hreachable page hpage, rfl⟩
  · refine Finset.disjoint_left.mpr fun i hi hi' => hne (UInt64.toNat_inj.mp ?_)
    rw [← (hrow page hpage i).mp hi, ← (hrow other hother i).mp hi']
  · have hquotient : (UInt64.ofNat (i / r.size.toNat)).toNat = i / r.size.toNat :=
      UInt64.toNat_ofNat_of_lt' ((Nat.div_le_self _ _).trans_lt (hi.trans total.toNat_lt))
    have hpage : UInt64.ofNat (i / r.size.toNat) < pages := by
      rw [hcounted, hquotient]
      exact (Nat.div_mul_le_self _ _).trans_lt hi
    exact ⟨_, hpage, (hrow _ hpage i).mpr hquotient.symm⟩
  · refine ⟨_, offset_mem_window hsized.1, ?_⟩
    rw [toNat_offset (hreachable page hpage)]
    exact (hcounted page).mp hpage
  · obtain ⟨-, hlegal, rfl⟩ := bounded_eq_ok_iff.mp hq
    have hstart : total.toNat ≤ page.toNat * r.size.toNat :=
      not_lt.mp fun hlt => absurd ((hcounted page).mpr hlt) (UInt64.not_lt.mpr hpage)
    rw [window, Finset.mem_Ico, toNat_offset hlegal] at hi
    exact hstart.trans hi.1

/-- The largest total that is promised is a multiple of seven: its last page is accepted, and so is
the page after it, which has no rows. -/
theorem pages_tile_largest :
    let r : PageRequest := ⟨0, 7, []⟩
    Sized r.size 100 ∧ (0x7fffffffffffffff : UInt64).toNat ≤ 2 ^ 63 - 1 ∧
    (of ([] : List Unit) 0x7fffffffffffffff r).totalPages = 1317624576693539401 ∧
    bounded 1317624576693539400 7 100 = .ok ⟨1317624576693539400, 7, []⟩ ∧
    bounded 1317624576693539401 7 100 = .ok ⟨1317624576693539401, 7, []⟩ ∧
    ∀ i ∈ window ⟨1317624576693539401, 7, []⟩, 2 ^ 63 - 1 ≤ i := by
  intro r
  have hsized : Sized r.size 100 := by decide
  have htotal : (0x7fffffffffffffff : UInt64).toNat ≤ 2 ^ 63 - 1 := by decide
  obtain ⟨haccepted, -, -, -, hbeyond⟩ := pages_tile ([] : List Unit) hsized htotal
  have hnext : bounded 1317624576693539401 7 100 = .ok ⟨1317624576693539401, 7, []⟩ := by decide
  exact ⟨hsized, htotal, by decide, haccepted _ (by decide), hnext, hbeyond _ (by decide) _ hnext⟩

/-- Parts that are taken one after the other are what they are taken from, as far as they go. -/
theorem flatMap_take_drop {α : Type} (xs : List α) (size n : Nat) :
    ((List.range n).flatMap fun page => (xs.drop (page * size)).take size) =
      xs.take (n * size) := by
  induction n with
  | zero => rw [Nat.zero_mul, List.take_zero, List.range_zero, List.flatMap_nil]
  | succ n ih =>
    rw [List.range_succ, List.flatMap_append, ih, List.flatMap_singleton, Nat.succ_mul,
      List.take_add]

/-- All pages that are counted are everything, one after the other. -/
theorem flatMap_pages {α : Type} {xs : List α} {max : UInt64}
    {fetched : UInt64 → List α} (hsized : Sized size max) (htotal : total.toNat = xs.length)
    (h : ∀ page < pageCount total size,
      fetched page = (xs.drop (page.toNat * size.toNat)).take size.toNat) :
    ((List.range (pageCount total size).toNat).flatMap fun page => fetched (UInt64.ofNat page)) =
      xs := by
  have hfetched : ∀ page ∈ List.range (pageCount total size).toNat,
      fetched (UInt64.ofNat page) = (xs.drop (page * size.toNat)).take size.toNat := by
    intro page hpage
    have hlt : page < (pageCount total size).toNat := List.mem_range.mp hpage
    have hpage : (UInt64.ofNat page).toNat = page :=
      UInt64.toNat_ofNat_of_lt' (hlt.trans (pageCount total size).toNat_lt)
    rw [h _ (UInt64.lt_iff_toNat_lt.mpr (by rwa [hpage])), hpage]
  have hend : xs.length ≤ (pageCount total size).toNat * size.toNat := by
    rw [← htotal, ← not_lt, ← lt_pageCount_iff hsized.1]
    exact lt_irrefl _
  rw [List.flatMap_congr hfetched, flatMap_take_drop, List.take_of_length_le hend]

end Page

end EntitySearch
