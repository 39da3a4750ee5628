import EntitySearch.Params
import EntitySearch.Text.Hex
import EntitySearch.Text.Utf8
/-!
Query strings in the form encoding, and the search parameters in them.
-/
namespace EntitySearch.Http

/-- The parts of a byte sequence between occurrences of `sep`. -/
def byteParts (sep : UInt8) : List UInt8 → List (List UInt8)
  | [] => [[]]
  | b :: bs =>
    if b = sep then [] :: byteParts sep bs
    else match byteParts sep bs with
      | [] => [[b]]
      | p :: ps => (b :: p) :: ps

def plus : UInt8 := 43
def percent : UInt8 := 37
def equals : UInt8 := 61
def ampersand : UInt8 := 38

def hexByte? (a b : UInt8) : Option UInt8 := do
  let a ← Text.hexValue? (Char.ofNat a.toNat)
  let b ← Text.hexValue? (Char.ofNat b.toNat)
  return UInt8.ofNat (a * 16 + b)

/-- A percent sign that no two digits follow stands for itself. -/
def percentDecode : List UInt8 → List UInt8
  | [] => []
  | [a] => [a]
  | [a, b] => [a, b]
  | a :: b :: c :: bs =>
    if a = percent then
      match hexByte? b c with
      | some byte => byte :: percentDecode bs
      | none => a :: percentDecode (b :: c :: bs)
    else a :: percentDecode (b :: c :: bs)

/-- A plus is a space, unless it is itself encoded. -/
def decodeText (bytes : List UInt8) : String :=
  String.ofList (Text.decodeUtf8 (percentDecode (bytes.map fun b => if b = plus then 32 else b)))

/-- The names and values of a query string. -/
def pairs (query : String) : List (String × String) :=
  ((byteParts ampersand query.toUTF8.toList).filter fun p => !p.isEmpty).map fun part =>
    (decodeText (part.takeWhile (· != equals)), decodeText ((part.dropWhile (· != equals)).drop 1))

inductive NumberFault | empty | invalidDigit | tooLarge
  deriving DecidableEq, Repr

def NumberFault.message : NumberFault → String
  | empty => "cannot parse integer from empty string"
  | invalidDigit => "invalid digit found in string"
  | tooLarge => "number too large to fit in target type"

/-- Digits appended to a number below `2 ^ 64`; the first fault from the left counts. -/
def readDigits (n : Nat) : List Char → Except NumberFault UInt64
  | [] => .ok (UInt64.ofNat n)
  | c :: cs =>
    if c.isDigit then
      let m := n * 10 + (c.toNat - 48)
      if m < 0x10000000000000000 then readDigits m cs else .error .tooLarge
    else .error .invalidDigit

/-- A number below `2 ^ 64`, which may carry a plus sign. -/
def readNumber (s : String) : Except NumberFault UInt64 :=
  match s.toList with
  | [] => .error .empty
  | ['+'] => .error .invalidDigit
  | '+' :: cs => readDigits 0 cs
  | cs => readDigits 0 cs

inductive QueryFault
  | number (field : String) (fault : NumberFault)
  | duplicate (field : String)
  deriving DecidableEq, Repr

def QueryFault.message : QueryFault → String
  | number field fault => field ++ ": " ++ fault.message
  | duplicate field => "duplicate field `" ++ field ++ "`"

def readField (name text : String) : Except QueryFault UInt64 :=
  (readNumber text).mapError (.number name)

/-- Parameters by name, others passed over; none may come twice. -/
def readPairs : List (String × String) → SearchParams → Except QueryFault SearchParams
  | [], p => .ok p
  | (name, text) :: rest, p =>
    if name = "page" then
      if p.page.isSome then .error (.duplicate name)
      else do
        let n ← readField name text
        readPairs rest { p with page := some n }
    else if name = "size" then
      if p.size.isSome then .error (.duplicate name)
      else do
        let n ← readField name text
        readPairs rest { p with size := some n }
    else if name = "sort" then
      if p.sort.isSome then .error (.duplicate name)
      else readPairs rest { p with sort := some text }
    else readPairs rest p

def readQuery (query : String) : Except QueryFault SearchParams := readPairs (pairs query) .absent

end EntitySearch.Http
