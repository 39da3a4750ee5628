import EntitySearch.Criterion.Body
import EntitySearch.Issue
import EntitySearch.Json.Reader
import EntitySearch.Text.Blank
/-!
Checking request bodies: every problem is found, each at its place.
-/
namespace EntitySearch

namespace Operand

/-- An element of a list. -/
def checkItem (place : String) : Json → Checked (Option Operand)
  | .null => ([.missing place], none)
  | .text s => ([], some (text s))
  | .number n => ([], some (number n))
  | .bool b => ([], some (bool b))
  | .array _ | .object _ =>
    ([⟨place, "Array elements must be strings, numbers or booleans"⟩], none)

def checkItems (place : String) (i : Nat) : List Json → Checked (List Operand)
  | [] => ([], [])
  | v :: vs =>
    let (issues, item) := checkItem s!"{place}[{i}]" v
    let (more, items) := checkItems place (i + 1) vs
    (issues ++ more, item.toList ++ items)

def check (place : String) : Json → Checked (Option Operand)
  | .array items =>
    let (issues, items) := checkItems place 0 items
    (issues, some (list items))
  | .object _ => ([⟨place, "Objects are not supported as filter values"⟩], none)
  | v => checkItem place v

end Operand

namespace Draft

def checkKey (place : String) : Option String → Checked (Option String)
  | some key => if Text.blank key then ([⟨place, "Key must not be blank"⟩], none) else ([], some key)
  | none => ([.missing place], none)

def checkOperation (place : String) : Option String → Checked (Option Operation)
  | some name =>
    match Operation.ofName? name with
    | some operation => ([], some operation)
    | none => ([⟨place, Operation.unknownName name⟩], none)
  | none => ([.missing place], none)

def checkValue (place : String) : Option Json → Checked (Option Operand)
  | some v => Operand.check place v
  | none => ([.missing place], none)

mutual
/-- Problems of a criterion come before those of its children; the children of a faulty criterion
are checked too. A blank label counts as absent. -/
def check (place : String) : Draft → Checked (Option Criterion)
  | ⟨key, operation, value, allOf, anyOf, label⟩ =>
    let key := checkKey (place ++ ".key") key
    let operation := checkOperation (place ++ ".operation") operation
    let value := checkValue (place ++ ".value") value
    let allOf := checkChildren (place ++ ".and") allOf
    let anyOf := checkChildren (place ++ ".or") anyOf
    (key.1 ++ operation.1 ++ value.1 ++ allOf.1 ++ anyOf.1,
      match key.2, operation.2, value.2 with
      | some key, some operation, some value =>
        some ⟨key, operation, value, allOf.2, anyOf.2, label.filter fun a => !Text.blank a⟩
      | _, _, _ => none)

def checkChildren (place : String) : Option (List Draft) → Checked (List Criterion)
  | none => ([], [])
  | some drafts => checkList place 0 drafts

def checkList (place : String) (i : Nat) : List Draft → Checked (List Criterion)
  | [] => ([], [])
  | d :: ds =>
    let first := check s!"{place}[{i}]" d
    let rest := checkList place (i + 1) ds
    (first.1 ++ rest.1, first.2.toList ++ rest.2)
end

end Draft

namespace Forest

/-- The criteria of a body, or everything that is wrong with it. -/
def ofDrafts (drafts : List Draft) : Except (List Issue) Forest :=
  match Draft.checkList "" 0 drafts with
  | ([], forest) => .ok forest
  | (issues, _) => .error issues

def ofJson (body : Json) : Except (List Issue) Forest :=
  match Draft.ofBody body with
  | .ok drafts => ofDrafts drafts
  | .error e => .error [⟨"body", "Expected an array of filter criteria: " ++ e.message⟩]

def ofText (body : String) : Except (List Issue) Forest :=
  match Json.read? body with
  | some v => ofJson v
  | none => .error [⟨"body", "Invalid JSON: malformed text"⟩]

end Forest
end EntitySearch
