import EntitySearch.Json.Writer
/-!
Reading fields of known types out of JSON values, and what is said when a value has another type.
-/
namespace EntitySearch.Json

inductive ShapeError
  | type (found : Json) (wanted : String)
  | range (n : Int) (wanted : String)
  | length (n : Nat) (wanted : String)

def describe : Json → String
  | .null => "null"
  | .bool b => "boolean `" ++ (if b then "true" else "false") ++ "`"
  | .number (.whole n _) => "integer `" ++ toString n ++ "`"
  | .number (.real x) => "floating point `" ++ (Number.real x).text ++ "`"
  | .text s => "string " ++ Text.quoted s
  | .array _ => "sequence"
  | .object _ => "map"

def ShapeError.message : ShapeError → String
  | .type found wanted => "invalid type: " ++ describe found ++ ", expected " ++ wanted
  | .range n wanted => "invalid value: integer `" ++ toString n ++ "`, expected " ++ wanted
  | .length n wanted => "invalid length " ++ toString n ++ ", expected " ++ wanted

def tooLong (n : Nat) : ShapeError := .length n "fewer elements in array"

/-- Null stands for a value that is absent. -/
def optional {α : Type} (read : Json → Except ShapeError α) : Json → Except ShapeError (Option α)
  | .null => .ok none
  | v => (read v).map some

def asText : Json → Except ShapeError String
  | .text s => .ok s
  | v => .error (.type v "a string")

/-- A natural below `2 ^ 64`. -/
def asUInt64 : Json → Except ShapeError UInt64
  | .number (.whole n _) => if 0 ≤ n then .ok (UInt64.ofNat n.toNat) else .error (.range n "u64")
  | v => .error (.type v "u64")

end EntitySearch.Json
