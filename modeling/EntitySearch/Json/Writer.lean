import EntitySearch.Decimal
import EntitySearch.Json
import EntitySearch.Text.Quoted
/-!
Writing JSON text, without white space.
-/
namespace EntitySearch

/-- Doubles are written positionally from `0.00001` up to sixteen digits, always with a point; a
tie goes to the even digit. -/
def Json.decimals : DecimalStyle := ⟨.even, fun lead => -5 ≤ lead && lead < 16, ".0"⟩

def Number.text : Number → String
  | .whole n _ => toString n
  | .real x => x.text Json.decimals

namespace Json

def escape (c : Char) : String :=
  match c.toNat with
  | 8 => "\\b"
  | 9 => "\\t"
  | 10 => "\\n"
  | 12 => "\\f"
  | 13 => "\\r"
  | 34 => "\\\""
  | 92 => "\\\\"
  | n =>
    if n < 0x20 then "\\u00" ++ String.ofList [Text.hexDigit (n / 16), Text.hexDigit (n % 16)]
    else c.toString

def quote (s : String) : String := "\"" ++ String.join (s.toList.map escape) ++ "\""

mutual
def write : Json → String
  | .null => "null"
  | .bool b => if b then "true" else "false"
  | .number n => n.text
  | .text s => quote s
  | .array items => "[" ++ ",".intercalate (writeItems items) ++ "]"
  | .object members => "\x7b" ++ ",".intercalate (writeMembers members) ++ "\x7d"
def writeItems : List Json → List String
  | [] => []
  | v :: vs => write v :: writeItems vs
def writeMembers : List (String × Json) → List String
  | [] => []
  | (name, v) :: rest => (quote name ++ ":" ++ write v) :: writeMembers rest
end

end Json
end EntitySearch
