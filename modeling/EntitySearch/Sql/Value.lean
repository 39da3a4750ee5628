import EntitySearch.Decimal
import EntitySearch.Instant
import EntitySearch.Operand
import EntitySearch.Uuid
/-!
Values bound to SQL statements, and their literals.
-/
namespace EntitySearch

inductive Backend | sqlite | postgres | mysql
  deriving DecidableEq, Repr

namespace Sql

inductive Value
  | text (s : String)
  | bool (b : Bool)
  | int32 (n : Int32)
  | int64 (n : Int64)
  | uint64 (n : UInt64)
  | double (x : Binary64)
  | uuid (u : Uuid)
  | instant (t : Instant)
  deriving DecidableEq

/-- Whole numbers are signed where they fit. -/
def Value.ofNumber : Number → Value
  | .whole n _ => if n < 0x8000000000000000 then int64 (Int64.ofInt n) else uint64 (UInt64.ofNat n.toNat)
  | .real x => double x

/-- The value that stands for a single operand. -/
def Value.ofOperand? : Operand → Option Value
  | .text s | .enumerant s => some (text s)
  | .number n => some (ofNumber n)
  | .bool b => some (bool b)
  | .instant t => some (instant t)
  | .list _ => none

/-- Doubles in literals have no exponent and no point where they are whole; a tie goes away from
zero. -/
def plainDecimals : DecimalStyle := ⟨.away, fun _ => true, ""⟩

/-- Characters that MySQL and PostgreSQL write with a backslash. -/
def escape (c : Char) : String :=
  match c.toNat with
  | 0 => "\\0"
  | 8 => "\\b"
  | 9 => "\\t"
  | 10 => "\\n"
  | 13 => "\\r"
  | 26 => "\\z"
  | 34 => "\\\""
  | 39 => "\\'"
  | 92 => "\\\\"
  | _ => c.toString

def textLiteral (backend : Backend) (s : String) : String :=
  let escaped := String.join (s.toList.map escape)
  match backend with
  | .sqlite => "'" ++ String.join (s.toList.map fun c => if c.toNat = 39 then "''" else c.toString) ++ "'"
  | .mysql => "'" ++ escaped ++ "'"
  | .postgres => (if escaped.toList.contains '\\' then "E'" else "'") ++ escaped ++ "'"

def Value.literal (backend : Backend) : Value → String
  | text s => textLiteral backend s
  | bool b => if b then "TRUE" else "FALSE"
  | int32 n => toString n.toInt
  | int64 n => toString n.toInt
  | uint64 n => toString n.toNat
  | double x => x.text plainDecimals
  | uuid u => "'" ++ u.text ++ "'"
  | instant t => "'" ++ t.dateText ++ " " ++ t.clockText ++ t.fractionText 6 ++ " +00:00'"

end Sql
end EntitySearch
