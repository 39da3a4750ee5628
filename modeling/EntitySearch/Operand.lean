import EntitySearch.Instant
import EntitySearch.Json.Writer
import EntitySearch.Operation
/-!
Operands of search criteria.
-/
namespace EntitySearch

inductive Operand
  | text (s : String)
  | number (n : Number)
  | bool (b : Bool)
  | instant (t : Instant)
  | enumerant (name : String)
  | list (items : List Operand)

namespace Operand

/-- The text of a single value. -/
def text? : Operand → Option String
  | text s | enumerant s => some s
  | number n => some n.text
  | bool b => some (if b then "true" else "false")
  | instant t => some t.text
  | list _ => none

def asText? : Operand → Option String
  | text s => some s
  | _ => none

def items? : Operand → Option (List Operand)
  | list items => some items
  | _ => none

def isList : Operand → Bool
  | list _ => true
  | _ => false

def hasShape (v : Operand) : Shape → Bool
  | .scalar => !v.isList
  | .text => v.asText?.isSome
  | .sequence => v.isList

mutual
/-- How an operand travels; a point in time and a member of an enumeration go as text. -/
def toJson : Operand → Json
  | text s | enumerant s => .text s
  | number n => .number n
  | bool b => .bool b
  | instant t => .text t.text
  | list items => .array (toJsonList items)
def toJsonList : List Operand → List Json
  | [] => []
  | v :: vs => toJson v :: toJsonList vs
end

end Operand
end EntitySearch
