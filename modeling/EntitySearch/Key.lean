import EntitySearch.Text.Blank
import EntitySearch.Text.Split
/-!
Keys of criteria: a chain of relationships and an attribute between points, or a column of the
searched entity and a path inside its document after an arrow.
-/
namespace EntitySearch

inductive Key
  | chain (segments : List String)
  | document (column : String) (path : List String)
  deriving DecidableEq, Repr

namespace Key

def arrow : String := "->"

/-- Splits a key at its first arrow, and what is left at points. -/
def ofText (s : String) : Key :=
  match Text.cut arrow s with
  | some (column, path) => document column (Text.parts '.' path)
  | none => chain (Text.parts '.' s)

end Key
end EntitySearch
