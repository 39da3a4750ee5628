import EntitySearch.Json
import EntitySearch.Text.Hex
/-!
The tokens of JSON text.
-/
namespace EntitySearch.Json
open Text

inductive Token
  | mark (c : Char)
  | text (s : String)
  | scalar (v : Json)

def isSpace (c : Char) : Bool := c == ' ' || c == '\t' || c == '\n' || c == '\r'

def isMark (c : Char) : Bool :=
  c == '[' || c == ']' || c == '\x7b' || c == '\x7d' || c == ',' || c == ':'

def hexUnit? (a b c d : Char) : Option Nat := do
  return (((← hexValue? a) * 16 + (← hexValue? b)) * 16 + (← hexValue? c)) * 16 + (← hexValue? d)

def isHighSurrogate (n : Nat) : Bool := 0xD800 ≤ n && n ≤ 0xDBFF

def isLowSurrogate (n : Nat) : Bool := 0xDC00 ≤ n && n ≤ 0xDFFF

/-- The character of a short escape. -/
def escaped? (c : Char) : Option Char :=
  match c with
  | '"' => some '"'
  | '\\' => some '\\'
  | '/' => some '/'
  | 'b' => some '\x08'
  | 'f' => some '\x0c'
  | 'n' => some '\n'
  | 'r' => some '\r'
  | 't' => some '\t'
  | _ => none

/-- What a string token holds after its opening quote, and what follows its closing one.
`high` is a high surrogate just read, which only a low one may follow. -/
def textBody (high : Option Nat) : List Char → Option (List Char × List Char)
  | [] => none
  | '\\' :: 'u' :: a :: b :: c :: d :: cs =>
    match hexUnit? a b c d, high with
    | none, _ => none
    | some n, some h =>
      if isLowSurrogate n then
        (textBody none cs).map fun (body, rest) =>
          (Char.ofNat (0x10000 + (h - 0xD800) * 0x400 + (n - 0xDC00)) :: body, rest)
      else none
    | some n, none =>
      if isHighSurrogate n then textBody (some n) cs
      else if isLowSurrogate n then none
      else (textBody none cs).map fun (body, rest) => (Char.ofNat n :: body, rest)
  | '\\' :: c :: cs =>
    match high, escaped? c with
    | none, some e => (textBody none cs).map fun (body, rest) => (e :: body, rest)
    | _, _ => none
  | c :: cs =>
    if high.isSome || c.toNat < 0x20 || c == '\\' then none
    else if c == '"' then some ([], cs)
    else (textBody none cs).map fun (body, rest) => (c :: body, rest)

def digitsValue (ds : List Char) : Nat := ds.foldl (fun n d => n * 10 + (d.toNat - 48)) 0

/-- Appends digits to `n` as long as 64 bits hold the result; gives back the digits left over. -/
def absorb (n : Nat) : List Char → Nat × List Char
  | [] => (n, [])
  | d :: ds =>
    let m := n * 10 + (d.toNat - 48)
    if m < 0x10000000000000000 then absorb m ds else (n, d :: ds)

/-- The double for digits before and after the point, scaled by a power of ten. Of the digits
only those count that fit 64 bits together. -/
def real? (negative : Bool) (before after : List Char) (scale : Int) : Option Binary64 :=
  let (n, excess) := absorb 0 before
  let (n, dropped) := absorb n after
  let shift : Int := excess.length - (after.length - dropped.length : Nat)
  (Binary64.ofDecimal? n (shift + scale)).map fun x => if negative then x.neg else x

/-- A number without fraction and exponent. Minus zero is a double. -/
def whole? (negative : Bool) (ds : List Char) : Option Number :=
  let n : Int := digitsValue ds
  if negative then
    if h : 0 < n ∧ n ≤ 0x8000000000000000 then some (.whole (-n) (by omega))
    else (real? true ds [] 0).map .real
  else if h : 0 ≤ n ∧ n < 0x10000000000000000 then some (.whole n (by omega))
  else (real? false ds [] 0).map .real

def span (cs : List Char) : List Char × List Char :=
  (cs.takeWhile Char.isDigit, cs.dropWhile Char.isDigit)

/-- A fraction after the whole digits: its digits, if there is one. -/
def fraction? : List Char → Option (Option (List Char) × List Char)
  | '.' :: cs => if (span cs).1.isEmpty then none else some (some (span cs).1, (span cs).2)
  | cs => some (none, cs)

/-- An exponent: its value, if there is one. -/
def exponent? : List Char → Option (Option Int × List Char)
  | c :: cs =>
    if c == 'e' || c == 'E' then
      let (negative, cs) := match cs with
        | '-' :: cs => (true, cs)
        | '+' :: cs => (false, cs)
        | cs => (false, cs)
      let (ds, rest) := span cs
      if ds.isEmpty then none
      else some (some (if negative then -(digitsValue ds : Int) else digitsValue ds), rest)
    else some (none, c :: cs)
  | [] => some (none, [])

/-- A number at the front of the text. -/
def number? (cs : List Char) : Option (Number × List Char) := do
  let (negative, cs) := match cs with
    | '-' :: cs => (true, cs)
    | cs => (false, cs)
  let (ds, rest) := span cs
  if ds.isEmpty || (ds.head? == some '0' && 1 < ds.length) then none
  let (after, rest) ← fraction? rest
  let (scale, rest) ← exponent? rest
  match after, scale with
  | none, none => return (← whole? negative ds, rest)
  | _, _ => return (.real (← real? negative ds (after.getD []) (scale.getD 0)), rest)

def literal? : List Char → Option (Json × List Char)
  | 'n' :: 'u' :: 'l' :: 'l' :: cs => some (.null, cs)
  | 't' :: 'r' :: 'u' :: 'e' :: cs => some (.bool true, cs)
  | 'f' :: 'a' :: 'l' :: 's' :: 'e' :: cs => some (.bool false, cs)
  | _ => none

/-- The token at the front of the text, which starts with no white space. -/
def token? : List Char → Option (Token × List Char)
  | [] => none
  | c :: cs =>
    if isMark c then some (.mark c, cs)
    else if c == '"' then (textBody none cs).map fun (body, rest) => (.text (String.ofList body), rest)
    else if c == '-' || c.isDigit then (number? (c :: cs)).map fun (n, rest) => (.scalar (.number n), rest)
    else (literal? (c :: cs)).map fun (v, rest) => (.scalar v, rest)

/-- The tokens of a text of at most `n` characters. -/
def tokensWithin : Nat → List Char → Option (List Token)
  | 0, cs => if cs.isEmpty then some [] else none
  | n + 1, cs =>
    match cs.dropWhile isSpace with
    | [] => some []
    | c :: cs => do
      let (t, rest) ← token? (c :: cs)
      return t :: (← tokensWithin n rest)

/-- The tokens of a text; every one takes a character at least, so its length is bound enough. -/
def tokens? (cs : List Char) : Option (List Token) := tokensWithin cs.length cs

end EntitySearch.Json
