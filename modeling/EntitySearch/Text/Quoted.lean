import EntitySearch.Text.Hex
import EntitySearch.Text.Hidden
/-!
Text between double quotes, with everything that would not show written as an escape.
-/
namespace EntitySearch.Text

def escapeHidden (c : Char) : String :=
  match c.toNat with
  | 0 => "\\0"
  | 9 => "\\t"
  | 10 => "\\n"
  | 13 => "\\r"
  | 34 => "\\\""
  | 92 => "\\\\"
  | n => if isHidden c then "\\u\x7b" ++ hex n ++ "\x7d" else c.toString

def quoted (s : String) : String :=
  "\"" ++ String.join (s.toList.map escapeHidden) ++ "\""

end EntitySearch.Text
