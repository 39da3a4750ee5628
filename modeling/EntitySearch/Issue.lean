/-!
What is wrong with a request, and where.
-/
namespace EntitySearch

/-- A problem and the place of the input it concerns, such as `[0].and[1].value` or `size`. -/
structure Issue where
  field : String
  message : String
  deriving DecidableEq, Repr

namespace Issue

def missing (field : String) : Issue := ⟨field, "This field is required"⟩

def text (i : Issue) : String := i.field ++ ": " ++ i.message

/-- All problems in one text, one a line. -/
def summary (issues : List Issue) : String :=
  s!"Validation failed with {issues.length} error(s):" ++
    String.join (issues.map fun i => "\n  - " ++ i.text)

end Issue

/-- What checking a part of a request gives: its problems, and its value where there are none. -/
abbrev Checked (α : Type) := List Issue × α

end EntitySearch
