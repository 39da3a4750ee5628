import EntitySearch.Json.Reader
import EntitySearch.Proofs.PathSyntax
/-!
JSON texts of arrays of strings. A string has many spellings, and white space may stand between any
two tokens; each of these texts is read as the array.
-/
namespace EntitySearch.Json

/-- The characters after a backslash, and the ones that they stand for. -/
def shortEscapes : List (Char × Char) :=
  [('"', '"'), ('\\', '\\'), ('/', '/'), ('b', '\x08'), ('f', '\x0c'), ('n', '\n'), ('r', '\r'),
    ('t', '\t')]

/-- How the characters of a string are spelled between its quotes: as they are, by a short escape,
or by the number of a UTF-16 unit or of two that make a pair. -/
inductive Spelling : List Char → List Char → Prop
  | nil : Spelling [] []
  | plain {c : Char} {cs text : List Char} (hc : 0x20 ≤ c.toNat ∧ c ≠ '"' ∧ c ≠ '\\') :
    Spelling cs text → Spelling (c :: cs) (c :: text)
  | short {c e : Char} {cs text : List Char} (he : (e, c) ∈ shortEscapes) :
    Spelling cs text → Spelling (c :: cs) ('\\' :: e :: text)
  | unit {n : Nat} {a b c d : Char} {cs text : List Char} (hn : hexUnit? a b c d = some n)
    (hscalar : n < 0xD800 ∨ 0xE000 ≤ n) :
    Spelling cs text → Spelling (Char.ofNat n :: cs) ('\\' :: 'u' :: a :: b :: c :: d :: text)
  | pair {high low : Nat} {a b c d a' b' c' d' : Char} {cs text : List Char}
    (hhigh : hexUnit? a b c d = some high) (hlow : hexUnit? a' b' c' d' = some low)
    (hpair : 0xD800 ≤ high ∧ high < 0xDC00 ∧ 0xDC00 ≤ low ∧ low < 0xE000) :
    Spelling cs text → Spelling
      (Char.ofNat (0x10000 + (high - 0xD800) * 0x400 + (low - 0xDC00)) :: cs)
      ('\\' :: 'u' :: a :: b :: c :: d :: '\\' :: 'u' :: a' :: b' :: c' :: d' :: text)

/-- White space between tokens. -/
def Spaces (cs : List Char) : Prop := ∀ c ∈ cs, isSpace c = true

/-- What follows a string in the text of an array. -/
inductive MoreItems : List String → List Char → Prop
  | done {before : List Char} (hbefore : Spaces before) : MoreItems [] (before ++ [']'])
  | item {s : String} {ss : List String} {before between spelling text : List Char}
    (hbefore : Spaces before) (hbetween : Spaces between) (hs : Spelling s.toList spelling) :
    MoreItems ss text →
      MoreItems (s :: ss) (before ++ ',' :: (between ++ '"' :: (spelling ++ '"' :: text)))

/-- A text of an array of strings. -/
inductive ArrayText : List String → List Char → Prop
  | mk {s : String} {ss : List String} {between spelling text : List Char}
    (hbetween : Spaces between) (hs : Spelling s.toList spelling) :
    MoreItems ss text → ArrayText (s :: ss) ('[' :: (between ++ '"' :: (spelling ++ '"' :: text)))

theorem MoreItems.exists_concat {ss : List String} {text : List Char} (h : MoreItems ss text) :
    ∃ init, text = init ++ [']'] := by
  induction h with
  | @done before hbefore => exact ⟨before, rfl⟩
  | @item s ss before between spelling text _ _ _ _ ih =>
    obtain ⟨init, rfl⟩ := ih
    exact ⟨before ++ ',' :: (between ++ '"' :: (spelling ++ '"' :: init)), by simp⟩

/-- A text of an array stands between brackets. -/
theorem ArrayText.exists_brackets {ss : List String} {text : List Char} (h : ArrayText ss text) :
    ∃ inner, text = '[' :: (inner ++ [']']) := by
  cases h with
  | @mk s ss between spelling text _ _ hmore =>
    obtain ⟨init, rfl⟩ := hmore.exists_concat
    exact ⟨between ++ '"' :: (spelling ++ '"' :: init), by simp⟩

section Tokens

theorem textBody_of_spelling {cs text : List Char} (h : Spelling cs text) (rest : List Char) :
    textBody none (text ++ '"' :: rest) = some (cs, rest) := by
  induction h with
  | nil => simp [textBody]
  | plain hc _ ih =>
    rw [List.cons_append, Sql.textBody_plain_cons hc, ih]
    rfl
  | @short c e cs text he _ ih =>
    have hall : ∀ p ∈ shortEscapes, escaped? p.1 = some p.2 ∧ p.1 ≠ 'u' := by decide
    obtain ⟨hescaped, hne⟩ := hall (e, c) he
    rw [List.cons_append, List.cons_append, textBody]
    case heq => exact hescaped
    case x_1 => exact fun _ _ _ _ _ hu => absurd hu hne
    rw [ih]
    rfl
  | @unit n a b c d cs text hn hscalar _ ih =>
    have hhigh : isHighSurrogate n = false := by
      simp [isHighSurrogate]
      omega
    have hlow : isLowSurrogate n = false := by
      simp [isLowSurrogate]
      omega
    simp [textBody, hn, hhigh, hlow, ih]
  | @pair high low a b c d a' b' c' d' cs text hhigh hlow hpair _ ih =>
    have hfirst : isHighSurrogate high = true := by
      simp [isHighSurrogate]
      omega
    have hsecond : isLowSurrogate low = true := by
      simp [isLowSurrogate]
      omega
    simp [textBody, hhigh, hlow, hfirst, hsecond, ih]

/-- A text has these tokens, and no more steps than it has characters are needed to find them. -/
def Tokenized (text : List Char) (tokens : List Token) : Prop :=
  ∀ n, text.length ≤ n → tokensWithin n text = some tokens

namespace Tokenized
variable {text rest before : List Char} {tokens : List Token}

theorem nil : Tokenized [] [] := fun n _ => by cases n <;> rfl

/-- One token after white space. -/
theorem cons {c : Char} {t : Token} (h : Tokenized rest tokens) (hbefore : Spaces before)
    (hc : isSpace c = false) (ht : token? (c :: text) = some (t, rest))
    (hlength : rest.length ≤ text.length) : Tokenized (before ++ c :: text) (t :: tokens) := by
  intro n hn
  cases n with
  | zero => simp at hn
  | succ n =>
    have hdrop : (before ++ c :: text).dropWhile isSpace = c :: text := by
      rw [List.dropWhile_append_of_pos hbefore, List.dropWhile_cons_of_neg (by simp [hc])]
    have hrest : tokensWithin n rest = some tokens := by
      apply h
      simp only [List.length_append, List.length_cons] at hn
      omega
    rw [tokensWithin, hdrop]
    simp [ht, hrest]

theorem mark {c : Char} (h : Tokenized rest tokens) (hbefore : Spaces before)
    (hc : isMark c = true) : Tokenized (before ++ c :: rest) (.mark c :: tokens) := by
  have hspace : isSpace c = false := by
    simp only [isMark, Bool.or_eq_true, beq_iff_eq] at hc
    rcases hc with ((((rfl | rfl) | rfl) | rfl) | rfl) | rfl <;> decide
  exact h.cons hbefore hspace (by simp [token?, hc]) le_rfl

theorem string {s : String} {spelling : List Char} (h : Tokenized rest tokens)
    (hbefore : Spaces before) (hs : Spelling s.toList spelling) :
    Tokenized (before ++ '"' :: (spelling ++ '"' :: rest)) (.text s :: tokens) := by
  refine h.cons hbefore (by decide) (by simp [token?, isMark, textBody_of_spelling hs]) ?_
  simp only [List.length_append, List.length_cons]
  omega

end Tokenized

/-- Commas and strings, up to the end of an array. -/
def moreTokens (ss : List String) : List Token :=
  ss.flatMap (fun s => [.mark ',', .text s]) ++ [.mark ']']

theorem MoreItems.tokenized {ss : List String} {text : List Char} (h : MoreItems ss text) :
    Tokenized text (moreTokens ss) := by
  induction h with
  | done hbefore => exact Tokenized.nil.mark hbefore rfl
  | item hbefore hbetween hs _ ih => exact (ih.string hbetween hs).mark hbefore rfl

theorem ArrayText.tokenized {s : String} {ss : List String} {text : List Char}
    (h : ArrayText (s :: ss) text) : Tokenized text (.mark '[' :: .text s :: moreTokens ss) := by
  cases h with
  | mk hbetween hs hmore =>
    have hnothing : Spaces [] := List.forall_mem_nil _
    exact (hmore.tokenized.string hbetween hs).mark hnothing rfl

end Tokens

/-- Each further string goes to the end of the array. -/
theorem foldlM_moreTokens (items : List Json) (ss : List String) :
    (moreTokens ss).foldlM Reading.step (.afterItem items []) =
      some (.done (.array (items ++ ss.map .text))) := by
  induction ss generalizing items with
  | nil => simp [moreTokens, Reading.step, Reading.take]
  | cons s ss ih =>
    have hstep : (moreTokens (s :: ss)).foldlM Reading.step (.afterItem items []) =
        (moreTokens ss).foldlM Reading.step (.afterItem (items ++ [.text s]) []) := rfl
    rw [hstep, ih, List.append_assoc]
    rfl

/-- Every text of an array of strings is read as the array. -/
theorem read?_of_arrayText {ss : List String} {text : String} (h : ArrayText ss text.toList) :
    read? text = some (.array (ss.map .text)) := by
  cases ss with
  | nil => cases h
  | cons s ss =>
    rw [read?, tokens?, h.tokenized _ le_rfl, Option.bind_some, ofTokens?]
    have hfirst : (Token.mark '[' :: .text s :: moreTokens ss).foldlM Reading.step (.value []) =
        (moreTokens ss).foldlM Reading.step (.afterItem [.text s] []) := rfl
    rw [hfirst, foldlM_moreTokens]
    rfl

end EntitySearch.Json
