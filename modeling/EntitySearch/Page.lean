import EntitySearch.Issue
import EntitySearch.Sort
/-!
Pages of results.
-/
namespace EntitySearch

/-- A zero-based page number, a page size and an ordering. -/
structure PageRequest where
  page : UInt64
  size : UInt64
  sort : List SortOrder
  deriving DecidableEq, Repr

namespace PageRequest

def defaultSize : UInt64 := 20
def maxSize : UInt64 := 100

/-- The largest offset that can be bound to a statement, a signed 64-bit number. -/
def maxOffset : UInt64 := 0x7fffffffffffffff

def first : PageRequest := ⟨0, defaultSize, []⟩

def sizeIssue (max : UInt64) : Issue := ⟨"size", s!"Page size must be between 1 and {max}"⟩

def pageIssue (page size : UInt64) : Issue :=
  ⟨"page", s!"Page {page} is beyond the last possible page for size {size}"⟩

/-- The number of rows before a page, where 64 bits hold it. -/
def rowsBefore? (page size : UInt64) : Option UInt64 :=
  if page.toNat * size.toNat < UInt64.size then some (page * size) else none

/-- A request within bounds, or everything that is wrong with it. -/
def bounded (page size max : UInt64) : Except (List Issue) PageRequest :=
  let issues :=
    (if size = 0 ∨ max < size then [sizeIssue max] else []) ++
      (if (rowsBefore? page size).all (maxOffset < ·) then [pageIssue page size] else [])
  if issues.isEmpty then .ok ⟨page, size, []⟩ else .error issues

/-- The number of rows before the page, or the largest number that can be bound if that is less. -/
def offset (r : PageRequest) : UInt64 :=
  min ((rowsBefore? r.page r.size).getD 0xffffffffffffffff) maxOffset

theorem rowsBefore?_eq_some_iff {page size n : UInt64} :
    rowsBefore? page size = some n ↔ n.toNat = page.toNat * size.toNat := by
  unfold rowsBefore?
  split
  next hfits =>
    rw [Option.some_inj, ← UInt64.toNat_inj, UInt64.toNat_mul, Nat.mod_eq_of_lt hfits, eq_comm]
  next hexceeds =>
    have hn : n.toNat < UInt64.size := n.toNat_lt_size
    simp only [reduceCtorEq, false_iff]
    omega

theorem rowsBefore?_eq_none_iff {page size : UInt64} :
    rowsBefore? page size = none ↔ UInt64.size ≤ page.toNat * size.toNat := by
  unfold rowsBefore?
  split <;> simp only [reduceCtorEq, true_iff, false_iff] <;> omega

/-- An offset that 64 bits do not hold is too large too. -/
theorem all_rowsBefore?_iff {page size : UInt64} :
    (rowsBefore? page size).all (maxOffset < ·) = true ↔
      maxOffset.toNat < page.toNat * size.toNat := by
  cases h : rowsBefore? page size with
  | some n => simp [UInt64.lt_iff_toNat_lt, rowsBefore?_eq_some_iff.mp h]
  | none =>
    have hexceeds := rowsBefore?_eq_none_iff.mp h
    have hmax : maxOffset.toNat < UInt64.size := maxOffset.toNat_lt_size
    simp only [Option.all_none, true_iff]
    omega

end PageRequest

/-- One page of the results, with the totals over all of them. -/
structure Page (α : Type) where
  content : List α
  totalElements : UInt64
  totalPages : UInt64
  page : UInt64
  size : UInt64
  deriving DecidableEq, Repr

namespace Page
variable {α β : Type}

/-- `total / size`, rounded up. -/
def pageCount (total size : UInt64) : UInt64 :=
  let size := max size.toNat 1
  UInt64.ofNat ((total.toNat + size - 1) / size)

def of (content : List α) (total : UInt64) (r : PageRequest) : Page α :=
  ⟨content, total, pageCount total r.size, r.page, r.size⟩

/-- No content and no totals. -/
def empty (r : PageRequest) : Page α := of [] 0 r

def map (f : α → β) (p : Page α) : Page β := { p with content := p.content.map f }

end Page
end EntitySearch
