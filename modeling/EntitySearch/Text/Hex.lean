/-!
Hexadecimal digits.
-/
namespace EntitySearch.Text

/-- The lower-case digit for a number below 16. -/
def hexDigit (n : Nat) : Char := if n < 10 then Char.ofNat (48 + n) else Char.ofNat (87 + n)

/-- The value of a digit in either case. -/
def hexValue? (c : Char) : Option Nat :=
  if '0' ≤ c ∧ c ≤ '9' then some (c.toNat - 48)
  else if 'a' ≤ c ∧ c ≤ 'f' then some (c.toNat - 87)
  else if 'A' ≤ c ∧ c ≤ 'F' then some (c.toNat - 55)
  else none

/-- As few digits as needed. -/
def hex (n : Nat) : String := String.ofList (Nat.toDigits 16 n)

end EntitySearch.Text
