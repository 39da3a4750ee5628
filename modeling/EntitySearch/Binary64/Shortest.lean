import EntitySearch.Binary64
/-!
The shortest decimal that reads back as a given double.
-/
namespace EntitySearch

/-- `digits * 10 ^ exponent`. -/
structure Decimal where
  digits : Nat
  exponent : Int
  deriving DecidableEq, Repr

/-- Which of two equally near neighbours is taken. -/
inductive Tie | even | away
  deriving DecidableEq, Repr

/-- The choice between `c` and `c + 1`. -/
def Tie.choose (c : Nat) : Tie → Nat
  | even => c + c % 2
  | away => c + 1

namespace Decimal

/-- The number of decimal digits of `n`; none for zero. -/
def width (n : Nat) : Nat := if h : n = 0 then 0 else width (n / 10) + 1
  termination_by n
  decreasing_by omega

/-- Moves trailing zeros into the exponent. -/
def strip (digits : Nat) (exponent : Int) : Decimal :=
  if h : digits ≠ 0 ∧ digits % 10 = 0 then strip (digits / 10) (exponent + 1)
  else ⟨digits, exponent⟩
  termination_by digits
  decreasing_by omega

end Decimal

namespace Binary64

/-- The exponent of the leading decimal digit of `num / den`. -/
def leadingPlace (num den : Nat) : Int :=
  if den ≤ num then Decimal.width (num / den) - 1
  else -(Decimal.width ((den + num - 1) / num - 1) : Int)

/-- The reals that round to a double run from `low * unit` to `high * unit`, the double itself
being `4 * mantissa * unit`, with `unit = 2 ^ (exponent - 2)`; the ends belong to it when the
mantissa is even. -/
def low (x : Binary64) : Nat :=
  4 * x.mantissa - if x.mantissa = 0x10000000000000 ∧ 1 < x.scale then 1 else 2

def high (x : Binary64) : Nat := 4 * x.mantissa + 2

/-- The point of the decimal grid `10 ^ place` nearest to `x`, if one rounds to `x`. -/
def onGrid? (tie : Tie) (x : Binary64) (place : Int) : Option Nat :=
  let unit := x.exponent - 2
  let a := Nat.pow 10 place.toNat * Nat.pow 2 (-unit).toNat
  let b := Nat.pow 2 unit.toNat * Nat.pow 10 (-place).toNat
  let inside (c : Nat) : Bool :=
    if x.mantissa % 2 = 0 then x.low * b ≤ c * a && c * a ≤ x.high * b
    else x.low * b < c * a && c * a < x.high * b
  let v := 4 * x.mantissa * b
  let c := v / a
  match inside c, inside (c + 1) with
  | false, false => none
  | true, false => some c
  | false, true => some (c + 1)
  | true, true =>
    let below := v - c * a
    let above := (c + 1) * a - v
    if below < above then some c else if above < below then some (c + 1)
    else some (tie.choose c)

/-- The fewest digits that read back as the magnitude of `x`, nearest to it; 17 always do. -/
def shortest (tie : Tie) (x : Binary64) : Decimal :=
  if x.mantissa = 0 then ⟨0, 0⟩
  else
    let top := leadingPlace x.ratio.1 x.ratio.2
    let attempt (n : Nat) : Option Decimal :=
      let place := top - n
      (x.onGrid? tie place).map fun c => Decimal.strip c place
    ((List.range 17).findSome? attempt).getD ⟨0, 0⟩

end Binary64
end EntitySearch
