import EntitySearch.Page
import EntitySearch.Sql.Select
/-!
Fetching pages of records from a database.
-/
namespace EntitySearch
open Sql

/-- Where records come from, a page of them at a time. -/
structure Repository (m : Type → Type) (ρ : Type) where
  findAll : Selection → List ColumnOrder → PageRequest → m (Except StorageError (Page ρ))

/-- A database that answers statements with counts and records. -/
structure Database (m : Type → Type) (ρ : Type) where
  backend : Backend
  count : Prepared → m (Except StorageError UInt64)
  fetch : Prepared → m (Except StorageError (List ρ))

/-- The table that records come from, and its columns. -/
structure RecordTable where
  name : String
  columns : List String
  deriving DecidableEq

/-- One column an attribute, in order of the attributes' names. -/
def Entity.recordTable (e : Entity) : RecordTable := ⟨e.table, e.attributes.map Attribute.column⟩

namespace RecordTable
variable (t : RecordTable)

def selecting (s : Selection) : Select :=
  (Select.ofTable t.name (t.columns.map fun c => .column ⟨t.name, c⟩)).restrict s

def countStatement (s : Selection) : Statement := .count (t.selecting s)

def pageStatement (s : Selection) (ordering : List ColumnOrder) (r : PageRequest) : Statement :=
  .rows { t.selecting s with order := ordering, limit := some r.size, offset := some r.offset }

end RecordTable

namespace Database
variable {m : Type → Type} [Monad m] {ρ : Type}

/-- Counts all selected records, then fetches those of the page. -/
def findAll (db : Database m ρ) (t : RecordTable) (s : Selection) (ordering : List ColumnOrder)
    (r : PageRequest) : m (Except StorageError (Page ρ)) := do
  match ← db.count (((t.countStatement s).fragment db.backend).prepare db.backend) with
  | .error e => return .error e
  | .ok total =>
    match ← db.fetch (((t.pageStatement s ordering r).fragment db.backend).prepare db.backend) with
    | .error e => return .error e
    | .ok content => return .ok (.of content total r)

def repository (db : Database m ρ) (t : RecordTable) : Repository m ρ := ⟨db.findAll t⟩

end Database
end EntitySearch
