import EntitySearch.Criterion
import EntitySearch.Json.Shape
/-!
Request bodies: JSON decoded into criteria whose fields may still be missing or wrong.
-/
namespace EntitySearch
open Json

/-- A criterion as sent. -/
structure Draft where
  key : Option String
  operation : Option String
  value : Option Json
  allOf : Option (List Draft)
  anyOf : Option (List Draft)
  label : Option String

namespace Draft

def empty : Draft := ⟨none, none, none, none, none, none⟩

/-- What a body of another type is said to be. -/
def nodeType : String := "struct RawFilterNode"

def tooShort (n : Nat) : ShapeError := .length n (nodeType ++ " with 6 elements")

/-- A value that is null counts as absent. -/
def present : Json → Option Json
  | .null => none
  | v => some v

mutual
/-- A criterion is an object, whose fields are read in order of name and others passed over, or an
array of its six fields. -/
def ofJson : Json → Except ShapeError Draft
  | .object members => ofMembers members empty
  | .array items => ofItems items
  | v => .error (.type v nodeType)

def ofMembers : List (String × Json) → Draft → Except ShapeError Draft
  | [], draft => .ok draft
  | (name, v) :: rest, draft =>
    if name = "key" then do
      let key ← optional asText v
      ofMembers rest { draft with key := key }
    else if name = "operation" then do
      let operation ← optional asText v
      ofMembers rest { draft with operation := operation }
    else if name = "value" then
      ofMembers rest { draft with value := present v }
    else if name = "and" then do
      let allOf ← children v
      ofMembers rest { draft with allOf := allOf }
    else if name = "or" then do
      let anyOf ← children v
      ofMembers rest { draft with anyOf := anyOf }
    else if name = "alias" then do
      let label ← optional asText v
      ofMembers rest { draft with label := label }
    else ofMembers rest draft

/-- The first missing field stops the reading; only a missing value is passed over. -/
def ofItems : List Json → Except ShapeError Draft
  | [] => .error (tooShort 0)
  | [key] => do
    let _ ← optional asText key
    .error (tooShort 1)
  | [key, operation] => do
    let _ ← optional asText key
    let _ ← optional asText operation
    .error (tooShort 3)
  | [key, operation, _] => do
    let _ ← optional asText key
    let _ ← optional asText operation
    .error (tooShort 3)
  | [key, operation, _, allOf] => do
    let _ ← optional asText key
    let _ ← optional asText operation
    let _ ← children allOf
    .error (tooShort 4)
  | [key, operation, _, allOf, anyOf] => do
    let _ ← optional asText key
    let _ ← optional asText operation
    let _ ← children allOf
    let _ ← children anyOf
    .error (tooShort 5)
  | key :: operation :: value :: allOf :: anyOf :: label :: rest => do
    let key ← optional asText key
    let operation ← optional asText operation
    let allOf ← children allOf
    let anyOf ← children anyOf
    let label ← optional asText label
    if rest.isEmpty then .ok ⟨key, operation, present value, allOf, anyOf, label⟩
    else .error (tooLong (rest.length + 6))

def children : Json → Except ShapeError (Option (List Draft))
  | .null => .ok none
  | .array items => (ofList items).map some
  | v => .error (.type v "a sequence")

def ofList : List Json → Except ShapeError (List Draft)
  | [] => .ok []
  | v :: vs => do
    let draft ← ofJson v
    let drafts ← ofList vs
    .ok (draft :: drafts)
end

/-- A body is an array of criteria. -/
def ofBody : Json → Except ShapeError (List Draft)
  | .array items => ofList items
  | v => .error (.type v "a sequence")

end Draft
end EntitySearch
