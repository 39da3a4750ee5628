import EntitySearch.Json.Shape
import EntitySearch.Page
/-!
Paging and sorting parameters of a request, and the limits that are set on them.
-/
namespace EntitySearch
open Json

structure SearchConfig where
  defaultPageSize : UInt64
  maxPageSize : UInt64
  deriving DecidableEq, Repr

namespace SearchConfig

def standard : SearchConfig := ⟨PageRequest.defaultSize, PageRequest.maxSize⟩

/-- Fields by name, others passed over. -/
def ofMembers : List (String × Json) → SearchConfig → Except ShapeError SearchConfig
  | [], c => .ok c
  | (name, v) :: rest, c =>
    if name = "default_page_size" then do
      let n ← asUInt64 v
      ofMembers rest { c with defaultPageSize := n }
    else if name = "max_page_size" then do
      let n ← asUInt64 v
      ofMembers rest { c with maxPageSize := n }
    else ofMembers rest c

/-- An object or an array of the two sizes; what is missing has its standard value. -/
def ofJson : Json → Except ShapeError SearchConfig
  | .object members => ofMembers members standard
  | .array [] => .ok standard
  | .array [size] => do return { standard with defaultPageSize := ← asUInt64 size }
  | .array (size :: max :: rest) => do
    let c : SearchConfig := ⟨← asUInt64 size, ← asUInt64 max⟩
    if rest.isEmpty then .ok c else .error (tooLong (rest.length + 2))
  | v => .error (.type v "struct SearchConfig")

end SearchConfig

structure SearchParams where
  page : Option UInt64
  size : Option UInt64
  sort : Option String
  deriving DecidableEq, Repr

namespace SearchParams

def absent : SearchParams := ⟨none, none, none⟩

def ofMembers : List (String × Json) → SearchParams → Except ShapeError SearchParams
  | [], p => .ok p
  | (name, v) :: rest, p =>
    if name = "page" then do
      let n ← optional asUInt64 v
      ofMembers rest { p with page := n }
    else if name = "size" then do
      let n ← optional asUInt64 v
      ofMembers rest { p with size := n }
    else if name = "sort" then do
      let s ← optional asText v
      ofMembers rest { p with sort := s }
    else ofMembers rest p

def tooShort (n : Nat) : ShapeError := .length n "struct SearchParams with 3 elements"

/-- An object or an array of page, size and sort. -/
def ofJson : Json → Except ShapeError SearchParams
  | .object members => ofMembers members absent
  | .array [] => .error (tooShort 0)
  | .array [page] => do
    let _ ← optional asUInt64 page
    .error (tooShort 1)
  | .array [page, size] => do
    let _ ← optional asUInt64 page
    let _ ← optional asUInt64 size
    .error (tooShort 2)
  | .array (page :: size :: sort :: rest) => do
    let p : SearchParams := ⟨← optional asUInt64 page, ← optional asUInt64 size, ← optional asText sort⟩
    if rest.isEmpty then .ok p else .error (tooLong (rest.length + 3))
  | v => .error (.type v "struct SearchParams")

/-- The orders of a sort text; none where it is malformed. -/
def checkSort (text : String) : Checked (List SortOrder) :=
  match SortOrder.listOfText text with
  | .ok orders => ([], orders)
  | .error issue => ([issue], [])

def checkPage (page size max : UInt64) : Checked (Option PageRequest) :=
  match PageRequest.bounded page size max with
  | .ok r => ([], some r)
  | .error issues => (issues, none)

/-- The page asked for, or every problem with the sort, the size and the page number. -/
def pageRequest (p : SearchParams) (config : SearchConfig) : Except (List Issue) PageRequest :=
  let sort := p.sort.elim ([], []) checkSort
  let request := checkPage (p.page.getD 0) (p.size.getD config.defaultPageSize) config.maxPageSize
  let issues := sort.1 ++ request.1
  if issues.isEmpty then .ok { request.2.getD .first with sort := sort.2 } else .error issues

end SearchParams
end EntitySearch
