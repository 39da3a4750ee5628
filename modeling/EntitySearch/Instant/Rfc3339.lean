import EntitySearch.Instant
/-!
Reading RFC 3339 timestamps.
-/
namespace EntitySearch.Instant
open Calendar

def digit? (c : Char) : Option Nat := if c.isDigit then some (c.toNat - 48) else none

/-- A number of exactly `width` digits at the front of the text. -/
def number? : Nat → List Char → Option (Nat × List Char)
  | 0, cs => some (0, cs)
  | _ + 1, [] => none
  | w + 1, c :: cs => do
    let d ← digit? c
    let (n, rest) ← number? w cs
    return (d * Nat.pow 10 w + n, rest)

def mark? (ok : Char → Bool) : List Char → Option (List Char)
  | c :: cs => if ok c then some cs else none
  | [] => none

/-- Nanoseconds from the digits of a fraction, of which the first nine count. -/
def nanoOf (ds : List Char) : Nat :=
  (ds.take 9).foldl (fun n d => n * 10 + (d.toNat - 48)) 0 * Nat.pow 10 (9 - ds.length)

def fraction? : List Char → Option (Nat × List Char)
  | '.' :: cs =>
    let ds := cs.takeWhile Char.isDigit
    if ds.isEmpty then none else some (nanoOf ds, cs.dropWhile Char.isDigit)
  | cs => some (0, cs)

/-- The offset from universal time in minutes. The sign may also be U+2212. -/
def offset? : List Char → Option Int
  | [] => none
  | c :: cs =>
    if c == 'Z' || c == 'z' then if cs.isEmpty then some 0 else none
    else if c == '+' || c == '-' || c == '−' then do
      let (h, cs) ← number? 2 cs
      let cs ← mark? (· == ':') cs
      let (m, cs) ← number? 2 cs
      if cs.isEmpty && h ≤ 23 && m ≤ 59 then
        let n : Int := h * 60 + m
        return if c == '+' then n else -n
      else none
    else none

/-- A date and a time of day at an offset; the second may be the sixtieth. -/
structure Local where
  date : Date
  hour : Nat
  minute : Nat
  second : Nat
  nano : Nat
  offset : Int
  deriving DecidableEq

def Local.valid (l : Local) : Bool :=
  l.date.valid && l.hour ≤ 23 && l.minute ≤ 59 && l.second ≤ 60 && l.nano < 1000000000

/-- The point in time, in universal time. -/
def Local.toInstant? (l : Local) : Option Instant :=
  if h : l.valid = true then
    let leap := l.second = 60
    let second := l.date.toDays * 86400 + (l.hour * 3600 + l.minute * 60 + min l.second 59 : Nat) -
      l.offset * 60
    some ⟨second, l.nano + if leap then 1000000000 else 0, by
      simp only [valid, Bool.and_eq_true, decide_eq_true_eq] at h
      split <;> omega⟩
  else none

def local? (cs : List Char) : Option Local := do
  let (year, cs) ← number? 4 cs
  let cs ← mark? (· == '-') cs
  let (month, cs) ← number? 2 cs
  let cs ← mark? (· == '-') cs
  let (day, cs) ← number? 2 cs
  let cs ← mark? (fun c => c == 'T' || c == 't' || c == ' ') cs
  let (hour, cs) ← number? 2 cs
  let cs ← mark? (· == ':') cs
  let (minute, cs) ← number? 2 cs
  let cs ← mark? (· == ':') cs
  let (second, cs) ← number? 2 cs
  let (nano, cs) ← fraction? cs
  let offset ← offset? cs
  return ⟨⟨year, month, day⟩, hour, minute, second, nano, offset⟩

/-- The instant that an RFC 3339 timestamp names. -/
def read? (s : String) : Option Instant := (local? s.toList).bind Local.toInstant?

end EntitySearch.Instant
