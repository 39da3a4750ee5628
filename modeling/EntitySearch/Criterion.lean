import EntitySearch.Operand
/-!
Search criteria: trees of tests on keys.
-/
namespace EntitySearch

/-- One test with its refinements: the criteria of `allOf` must hold together with it, those of
`anyOf` are alternatives to it and its `allOf`. Criteria with one label share their joins. -/
structure Criterion where
  key : String
  operation : Operation
  operand : Operand
  allOf : List Criterion
  anyOf : List Criterion
  label : Option String

namespace Criterion

def isLeaf (c : Criterion) : Bool := c.allOf.isEmpty && c.anyOf.isEmpty

mutual
/-- The number of criteria in a tree. -/
def size : Criterion → Nat
  | ⟨_, _, _, allOf, anyOf, _⟩ => 1 + sizeAll allOf + sizeAll anyOf
def sizeAll : List Criterion → Nat
  | [] => 0
  | c :: cs => size c + sizeAll cs
end

end Criterion

/-- Criteria that must all hold. -/
abbrev Forest := List Criterion

end EntitySearch
