import EntitySearch.Instant.Calendar
/-!
Points in time, in universal time, and how they are written.
-/
namespace EntitySearch

/-- Whole seconds since 1970-01-01T00:00:00Z and nanoseconds after them. From `10 ^ 9` up the
nanoseconds lie in the leap second that follows. -/
structure Instant where
  second : Int
  nano : Nat
  nano_lt : nano < 2000000000
  deriving DecidableEq

namespace Instant
open Calendar

/-- The digits of `n`, filled up with zeros on the left. -/
def padded (width n : Nat) : String :=
  let ds := toString n
  String.ofList (List.replicate (width - ds.length) '0') ++ ds

/-- Years outside 0 to 9999 carry a sign. -/
def yearText (y : Int) : String :=
  if 0 ≤ y ∧ y ≤ 9999 then padded 4 y.toNat
  else (if y < 0 then "-" else "+") ++ padded 4 y.natAbs

def date (t : Instant) : Date := Date.ofDays (t.second / 86400)

def dateText (t : Instant) : String :=
  yearText t.date.year ++ "-" ++ padded 2 t.date.month ++ "-" ++ padded 2 t.date.day

/-- Hours, minutes and seconds; a leap second is the sixtieth. -/
def clockText (t : Instant) : String :=
  let s := (t.second % 86400).toNat
  padded 2 (s / 3600) ++ ":" ++ padded 2 (s / 60 % 60) ++ ":" ++
    padded 2 (s % 60 + t.nano / 1000000000)

/-- The first `places` digits of the fraction of the second. -/
def fractionText (t : Instant) (places : Nat) : String :=
  "." ++ padded places (t.nano % 1000000000 / Nat.pow 10 (9 - places))

/-- The fewest digits of 0, 3, 6 and 9 that lose nothing. -/
def fractionPlaces (t : Instant) : Nat :=
  let n := t.nano % 1000000000
  if n = 0 then 0 else if n % 1000000 = 0 then 3 else if n % 1000 = 0 then 6 else 9

/-- The RFC 3339 text with a given number of fraction digits. -/
def textWith (t : Instant) (places : Nat) : String :=
  t.dateText ++ "T" ++ t.clockText ++ (if places = 0 then "" else t.fractionText places) ++ "Z"

def text (t : Instant) : String := t.textWith t.fractionPlaces

end Instant
end EntitySearch
