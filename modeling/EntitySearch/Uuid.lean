import EntitySearch.Text.Hex
/-!
Universally unique identifiers and their spellings.
-/
namespace EntitySearch

structure Uuid where
  bits : BitVec 128
  deriving DecidableEq

namespace Uuid
open Text

/-- The 32 digits, first the most significant. -/
def digits (u : Uuid) : List Char :=
  (List.range 32).map fun i => hexDigit (u.bits.toNat / Nat.pow 16 (31 - i) % 16)

/-- Groups of 8, 4, 4, 4 and 12 digits. -/
def hyphenated (ds : List Char) : List Char :=
  ds.take 8 ++ '-' :: (ds.drop 8).take 4 ++ '-' :: (ds.drop 12).take 4 ++
    '-' :: (ds.drop 16).take 4 ++ '-' :: ds.drop 20

def text (u : Uuid) : String := String.ofList (hyphenated u.digits)

def ofDigits? (ds : List Char) : Option Uuid :=
  if ds.length = 32 then
    (ds.mapM hexValue?).map fun vs => ⟨BitVec.ofNat 128 (vs.foldl (fun n d => n * 16 + d) 0)⟩
  else none

/-- The digits of a hyphenated spelling. -/
def unhyphenated? (cs : List Char) : Option (List Char) :=
  let ds := cs.filter (· != '-')
  if ds.length = 32 && hyphenated ds == cs then some ds else none

/-- Reads 32 digits, or a hyphenated spelling, which may stand in braces or after `urn:uuid:`. -/
def read? (s : String) : Option Uuid :=
  let cs := s.toList
  if cs.length = 32 then ofDigits? cs
  else if cs.length = 36 then (unhyphenated? cs).bind ofDigits?
  else if cs.length = 38 then
    if cs.head? == some '\x7b' && cs.getLast? == some '\x7d' then
      (unhyphenated? (cs.drop 1).dropLast).bind ofDigits?
    else none
  else if cs.length = 45 then
    if (cs.take 9).map Char.toLower == "urn:uuid:".toList then
      (unhyphenated? (cs.drop 9)).bind ofDigits?
    else none
  else none

end Uuid
end EntitySearch
