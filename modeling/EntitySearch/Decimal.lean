import EntitySearch.Binary64.Shortest
/-!
Writing decimals: positional or with an exponent.
-/
namespace EntitySearch

/-- How doubles are written: which of two equally near decimals is taken, which leading places are
written positionally, and what ends a whole number. -/
structure DecimalStyle where
  tie : Tie
  positional : Int → Bool
  wholeEnd : String

namespace Decimal

def zeros (n : Nat) : String := String.ofList (List.replicate n '0')

/-- The digits with a point where the leading digit stands for `10 ^ lead`. -/
def positionalText (ds : List Char) (lead : Int) (wholeEnd : String) : String :=
  if lead < 0 then "0." ++ zeros (-lead - 1).toNat ++ String.ofList ds
  else if ds.length ≤ lead.toNat + 1 then
    String.ofList ds ++ zeros (lead.toNat + 1 - ds.length) ++ wholeEnd
  else String.ofList (ds.take (lead.toNat + 1)) ++ "." ++ String.ofList (ds.drop (lead.toNat + 1))

/-- One digit before the point, and a signed exponent. -/
def scientificText (ds : List Char) (lead : Int) : String :=
  let head := String.ofList (ds.take 1)
  let tail := if ds.length ≤ 1 then "" else "." ++ String.ofList (ds.drop 1)
  head ++ tail ++ (if lead < 0 then "e-" else "e+") ++ toString lead.natAbs

def text (style : DecimalStyle) (d : Decimal) : String :=
  let ds := (toString d.digits).toList
  let lead := d.exponent + ds.length - 1
  if style.positional lead then positionalText ds lead style.wholeEnd else scientificText ds lead

end Decimal

/-- The text of a double: its shortest decimal, signed also when zero. -/
def Binary64.text (style : DecimalStyle) (x : Binary64) : String :=
  (if x.isNegative then "-" else "") ++ (x.shortest style.tie).text style

end EntitySearch
