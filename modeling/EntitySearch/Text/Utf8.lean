/-!
Decoding UTF-8, with a replacement character for what is not well formed.
-/
namespace EntitySearch.Text

/-- The code bits of a leading byte, and the ranges that the bytes after it must lie in. -/
def leading? (b : Nat) : Option (Nat × List (Nat × Nat)) :=
  let any := (0x80, 0xBF)
  if b < 0x80 then some (b, [])
  else if 0xC2 ≤ b ∧ b ≤ 0xDF then some (b - 0xC0, [any])
  else if b = 0xE0 then some (0, [(0xA0, 0xBF), any])
  else if b = 0xED then some (0xD, [(0x80, 0x9F), any])
  else if 0xE1 ≤ b ∧ b ≤ 0xEF then some (b - 0xE0, [any, any])
  else if b = 0xF0 then some (0, [(0x90, 0xBF), any, any])
  else if 0xF1 ≤ b ∧ b ≤ 0xF3 then some (b - 0xF0, [any, any, any])
  else if b = 0xF4 then some (4, [(0x80, 0x8F), any, any])
  else none

/-- Reads the bytes after a leading one as far as they fit; a sequence cut short has no code. -/
def trailing (code : Nat) : List (Nat × Nat) → List UInt8 → Option Nat × List UInt8
  | [], bytes => (some code, bytes)
  | _ :: _, [] => (none, [])
  | (low, high) :: ranges, b :: bytes =>
    if low ≤ b.toNat ∧ b.toNat ≤ high then trailing (code * 64 + b.toNat % 64) ranges bytes
    else (none, b :: bytes)

theorem length_trailing (code : Nat) (ranges : List (Nat × Nat)) (bytes : List UInt8) :
    (trailing code ranges bytes).2.length ≤ bytes.length := by
  fun_induction trailing code ranges bytes with
  | case1 => exact Nat.le_refl _
  | case2 => exact Nat.le_refl _
  | case3 => simp only [List.length_cons]; omega
  | case4 => exact Nat.le_refl _

/-- The characters of a byte sequence; U+FFFD stands for each longest start of a character that is
not completed, and for each byte that starts none. -/
def decodeUtf8 : List UInt8 → List Char
  | [] => []
  | b :: bytes =>
    match leading? b.toNat with
    | none => '\uFFFD' :: decodeUtf8 bytes
    | some (code, ranges) =>
      let read := trailing code ranges bytes
      read.1.elim '\uFFFD' Char.ofNat :: decodeUtf8 read.2
  termination_by bytes => bytes.length
  decreasing_by
    · simp
    · have := length_trailing code ranges bytes
      simp only [List.length_cons, gt_iff_lt]
      omega

end EntitySearch.Text
