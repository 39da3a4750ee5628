/-!
Comparing text with a word in ASCII capitals, ignoring case.
-/
namespace EntitySearch.Text

/-- Upper case, where that is ASCII; any other character stands for itself. -/
def capital (c : Char) : List Char :=
  match c.toNat with
  | 0xDF => ['S', 'S']
  | 0x131 => ['I']
  | 0x17F => ['S']
  | 0xFB00 => ['F', 'F']
  | 0xFB01 => ['F', 'I']
  | 0xFB02 => ['F', 'L']
  | 0xFB03 => ['F', 'F', 'I']
  | 0xFB04 => ['F', 'F', 'L']
  | 0xFB05 => ['S', 'T']
  | 0xFB06 => ['S', 'T']
  | _ => [c.toUpper]

/-- The upper case of `s` is `word`. The characters that `capital` leaves alone have no ASCII
upper case, so for a word in ASCII capitals nothing is missed. -/
def spells (word s : String) : Bool := s.toList.flatMap capital == word.toList

end EntitySearch.Text
