/-!
Cutting text at separators.
-/
namespace EntitySearch.Text

/-- The parts of `cs` between occurrences of `sep`; there is always at least one. -/
def partsList (sep : Char) : List Char → List (List Char)
  | [] => [[]]
  | c :: cs =>
    if c = sep then [] :: partsList sep cs
    else match partsList sep cs with
      | [] => [[c]]
      | p :: ps => (c :: p) :: ps

def parts (sep : Char) (s : String) : List String :=
  (partsList sep s.toList).map String.ofList

/-- What stands before and after the first occurrence of `mark`. -/
def cutList (mark : List Char) : List Char → Option (List Char × List Char)
  | [] => if mark.isEmpty then some ([], []) else none
  | c :: cs =>
    if mark.isPrefixOf (c :: cs) then some ([], (c :: cs).drop mark.length)
    else (cutList mark cs).map fun (before, after) => (c :: before, after)

def cut (mark : String) (s : String) : Option (String × String) :=
  (cutList mark.toList s.toList).map fun (before, after) =>
    (String.ofList before, String.ofList after)

theorem partsList_ne_nil (sep : Char) (cs : List Char) : partsList sep cs ≠ [] := by
  cases cs with
  | nil => simp [partsList]
  | cons c cs =>
    unfold partsList
    split
    · simp
    · split <;> simp

end EntitySearch.Text
