/-!
IEEE 754 doubles by their bit patterns, with exact rounding of a ratio of naturals.
-/
namespace EntitySearch

/-- A double, held as its 64 bits. -/
structure Binary64 where
  bits : UInt64
  deriving DecidableEq, Repr

namespace Binary64

def isNegative (x : Binary64) : Bool := 0x8000000000000000 ≤ x.bits.toNat

def neg (x : Binary64) : Binary64 := ⟨x.bits ^^^ 0x8000000000000000⟩

/-- The exponent field. -/
def scale (x : Binary64) : Nat := x.bits.toNat % 0x8000000000000000 / 0x10000000000000

/-- The significand of a finite double: its magnitude is `mantissa * 2 ^ exponent`. -/
def mantissa (x : Binary64) : Nat :=
  x.bits.toNat % 0x10000000000000 + if x.scale = 0 then 0 else 0x10000000000000

def exponent (x : Binary64) : Int := if x.scale = 0 then -1074 else x.scale - 1075

/-- The magnitude of a finite double as numerator and denominator. -/
def ratio (x : Binary64) : Nat × Nat :=
  (x.mantissa * Nat.pow 2 x.exponent.toNat, Nat.pow 2 (-x.exponent).toNat)

/-- `num / den` rounded to a natural; a half goes to the even neighbour. -/
def roundHalfEven (num den : Nat) : Nat :=
  let q := num / den
  let r := num % den
  if 2 * r < den then q else if den < 2 * r then q + 1 else q + q % 2

/-- The exponent of the last place of the doubles around `num / den`. -/
def lastPlace (num den : Nat) : Int :=
  let k : Int := (num.log2 : Int) - den.log2
  let k := if num * Nat.pow 2 (-k).toNat < den * Nat.pow 2 k.toNat then k - 1 else k
  max (k - 52) (-1074)

/-- The double nearest to `num / den`, if that is finite. -/
def ofRatio? (num den : Nat) : Option Binary64 :=
  if num = 0 then some ⟨0⟩
  else
    let e := lastPlace num den
    let m := roundHalfEven (num * Nat.pow 2 (-e).toNat) (den * Nat.pow 2 e.toNat)
    let bits := if m < 0x10000000000000 then m
      else (e + 1075).toNat * 0x10000000000000 + (m - 0x10000000000000)
    if bits < 0x7ff0000000000000 then some ⟨UInt64.ofNat bits⟩ else none

/-- The rounded product of two magnitudes. -/
def mul? (x y : Binary64) : Option Binary64 :=
  ofRatio? (x.ratio.1 * y.ratio.1) (x.ratio.2 * y.ratio.2)

/-- The rounded quotient of two magnitudes. -/
def div? (x y : Binary64) : Option Binary64 :=
  ofRatio? (x.ratio.1 * y.ratio.2) (x.ratio.2 * y.ratio.1)

/-- The double nearest to `10 ^ k`. -/
def tenPow? (k : Nat) : Option Binary64 := ofRatio? (Nat.pow 10 k) 1

/-- The largest power of ten that is a finite double has this exponent. -/
def largestTen : Nat := 308

/-- Divides by `10 ^ k`, by `10 ^ largestTen` at a time where `k` is larger. -/
def shrink? (x : Binary64) (k : Nat) : Option Binary64 :=
  if _h : k ≤ largestTen then (tenPow? k).bind x.div?
  else if x.mantissa = 0 then some x
  else ((tenPow? largestTen).bind x.div?).bind fun y => y.shrink? (k - largestTen)
  termination_by k
  decreasing_by
    have : 0 < largestTen := by decide
    omega

/-- `digits * 10 ^ exponent`, rounded twice: first the digits, then their product with or
quotient by the power of ten. -/
def ofDecimal? (digits : Nat) (exponent : Int) : Option Binary64 := do
  let x ← ofRatio? digits 1
  if exponent < 0 then x.shrink? (-exponent).toNat
  else if exponent ≤ largestTen then x.mul? (← tenPow? exponent.toNat)
  else if x.mantissa = 0 then some x
  else none

end Binary64
end EntitySearch
