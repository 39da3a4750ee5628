import EntitySearch.Json.Token
import EntitySearch.Sql.Predicate
import Mathlib.Data.List.DropRight
/-!
The syntax of document paths: array literals of PostgreSQL, and paths after a dollar sign elsewhere.
The text of a path is read back as the keys it was made of exactly where none of them has a
character to which the syntax gives a meaning.
-/
namespace EntitySearch.Sql

/-- What was read off a text, spelled out again: the text to the letter, with nothing but `plain`
keys in it, or less than the text. -/
def Spells (spelling read : List Char) (plain : Prop) : Prop :=
  spelling = read ∧ plain ∨ spelling.length < read.length

namespace Spells
variable {a b read : List Char} {p q : Prop}

theorem length_le (h : Spells a read p) : a.length ≤ read.length := by
  rcases h with ⟨rfl, -⟩ | h
  · exact le_rfl
  · exact h.le

/-- The next character is spelled out too. -/
theorem keep (h : Spells a read p) (c : Char) (hpq : p → q) :
    Spells (a ++ [c]) (read ++ [c]) q := by
  rcases h with ⟨rfl, hp⟩ | h
  · exact .inl ⟨rfl, hpq hp⟩
  · exact .inr (by simpa using h)

/-- The next character is left out. -/
theorem drop (h : Spells a read p) (c : Char) (hlength : b.length ≤ a.length) :
    Spells b (read ++ [c]) q := by
  have hle := h.length_le
  exact .inr (by rw [List.length_append, List.length_singleton]; omega)

theorem imp (h : Spells a read p) (hpq : p → q) : Spells a read q :=
  Or.imp_left (And.imp_right hpq) h

end Spells

/-- What every step keeps a whole run keeps. -/
theorem spells_of_foldlM {σ : Type} {step : σ → Char → Option σ} {spelling : σ → List Char}
    {plain : σ → Prop} (hstep : ∀ {place next read c}, Spells (spelling place) read (plain place) →
      step place c = some next → Spells (spelling next) (read ++ [c]) (plain next))
    {cs read : List Char} {place last : σ} (h : Spells (spelling place) read (plain place))
    (hrun : cs.foldlM step place = some last) :
    Spells (spelling last) (read ++ cs) (plain last) := by
  induction cs generalizing place read with
  | nil =>
    obtain rfl := Option.some.inj hrun
    simpa using h
  | cons c cs ih =>
    rw [List.foldlM_cons] at hrun
    obtain ⟨next, hnext, hrun⟩ := Option.bind_eq_some_iff.mp hrun
    simpa using ih (hstep h hnext) hrun

/-- What may start a name without quotes and what may stand in it, as far as it is read. -/
def Fits (first inside : Char → Bool) (raw : List Char) : Prop :=
  (∀ c ∈ raw.head?, first c = true) ∧ ∀ c ∈ raw, inside c = true

namespace Fits
variable {first inside : Char → Bool} {raw : List Char}

theorem nil : Fits first inside [] := ⟨by simp, by simp⟩

theorem concat {c : Char} (h : Fits first inside raw) (hfirst : raw = [] → first c = true)
    (hinside : inside c = true) : Fits first inside (raw ++ [c]) := by
  refine ⟨?_, List.forall_mem_append.mpr ⟨h.2, List.forall_mem_singleton.mpr hinside⟩⟩
  cases raw with
  | nil => simpa using hfirst
  | cons b raw => exact h.1

theorem of_append {rest : List Char} (h : Fits first inside (raw ++ rest)) :
    Fits first inside raw := by
  refine ⟨?_, (List.forall_mem_append.mp h.2).1⟩
  cases raw with
  | nil => simp
  | cons b raw => exact h.1

/-- A name that fits is read to its end. -/
theorem foldlM {σ : Type} {step : σ → Char → Option σ} {place : List Char → σ}
    (hstep : ∀ {raw c}, Fits first inside (raw ++ [c]) →
      step (place raw) c = some (place (raw ++ [c]))) {cs : List Char}
    (h : Fits first inside (raw ++ cs)) : cs.foldlM step (place raw) = some (place (raw ++ cs)) := by
  induction cs generalizing raw with
  | nil => simp
  | cons c cs ih =>
    rw [List.append_cons] at h ⊢
    rw [List.foldlM_cons, hstep h.of_append]
    exact ih h

end Fits

section Dollar

/-- The key that a text between quotes stands for. -/
def quotedKey? (raw : List Char) : Option (List Char) :=
  match Json.textBody none (raw ++ ['"']) with
  | some (body, []) => some body
  | _ => none

theorem eq_cons_of_map {o : Option (List Char × List Char)} {e : Char} {body rest : List Char}
    (h : (o.map fun (body, rest) => (e :: body, rest)) = some (body, rest)) :
    ∃ b, o = some (b, rest) ∧ body = e :: b := by
  obtain ⟨⟨b, r⟩, ho, he⟩ := Option.map_eq_some_iff.mp h
  obtain ⟨rfl, rfl⟩ := Prod.mk.inj he
  exact ⟨b, ho, rfl⟩

/-- The body of a string is what stands before its closing quote, unless escapes shorten it. -/
theorem textBody_shortens {high : Option Nat} {cs body rest : List Char}
    (h : Json.textBody high cs = some (body, rest)) :
    high = none ∧ cs = body ++ '"' :: rest ∨ body.length + rest.length + 1 < cs.length := by
  fun_induction Json.textBody high cs generalizing body rest with
  | case1 | case2 | case4 | case6 | case9 | case10 => simp at h
  | case5 _ _ _ _ _ _ _ _ ih =>
    right
    rcases ih h with ⟨-, rfl⟩ | ih <;> simp only [List.length_cons, List.length_append] <;> omega
  | case3 _ _ _ _ _ _ _ _ _ ih | case7 _ _ _ _ _ _ _ _ _ ih | case8 _ _ _ _ _ ih =>
    obtain ⟨b, hb, rfl⟩ := eq_cons_of_map h
    right
    rcases ih hb with ⟨-, rfl⟩ | ih <;> simp only [List.length_cons, List.length_append] <;> omega
  | case11 high c cs _ _ hhigh hquote =>
    obtain ⟨rfl, rfl⟩ := Prod.mk.inj (Option.some.inj h)
    simp only [Bool.or_eq_true, not_or, Bool.not_eq_true, Option.isSome_eq_false_iff,
      Option.isNone_iff_eq_none] at hhigh
    exact .inl ⟨hhigh.1.1, by rw [beq_iff_eq.mp hquote]; rfl⟩
  | case12 high c cs _ _ hhigh _ ih =>
    obtain ⟨b, hb, rfl⟩ := eq_cons_of_map h
    simp only [Bool.or_eq_true, not_or, Bool.not_eq_true, Option.isSome_eq_false_iff,
      Option.isNone_iff_eq_none] at hhigh
    rcases ih hb with ⟨-, rfl⟩ | ih
    · exact .inl ⟨hhigh.1.1, rfl⟩
    · right
      simp only [List.length_cons]
      omega

/-- A character that stands for itself in a string. -/
theorem textBody_plain_cons {c : Char} {cs : List Char}
    (h : 0x20 ≤ c.toNat ∧ c ≠ '"' ∧ c ≠ '\\') : Json.textBody none (c :: cs) =
      (Json.textBody none cs).map fun (body, rest) => (c :: body, rest) := by
  obtain ⟨hcontrol, hquote, hescape⟩ := h
  rw [Json.textBody]
  · simp [hquote, hescape, Nat.not_lt.mpr hcontrol]
  · simp [hescape]
  · simp [hescape]

/-- A key without escapes stands for itself. -/
theorem quotedKey?_plain {cs : List Char}
    (h : ∀ c ∈ cs, 0x20 ≤ c.toNat ∧ c ≠ '"' ∧ c ≠ '\\') : quotedKey? cs = some cs := by
  have hbody : Json.textBody none (cs ++ ['"']) = some (cs, []) := by
    induction cs with
    | nil => rfl
    | cons c cs ih =>
      obtain ⟨hc, hcs⟩ := List.forall_mem_cons.mp h
      rw [List.cons_append, textBody_plain_cons hc, ih hcs]
      rfl
  rw [quotedKey?, hbody]

/-- Escapes make a key shorter than its text, and nothing else changes it. -/
theorem quotedKey?_shortens {raw key : List Char} (h : quotedKey? raw = some key) :
    key = raw ∨ key.length < raw.length := by
  unfold quotedKey? at h
  split at h
  case h_2 => simp at h
  case h_1 body hbody =>
    obtain rfl := Option.some.inj h
    rcases textBody_shortens hbody with ⟨-, hraw⟩ | hshort
    · exact .inl (List.append_cancel_right hraw).symm
    · right
      simpa using hshort

/-- A dialect of paths after a dollar sign: the white space that may stand between their parts, the
characters that end them, and the key that a name without quotes stands for. -/
structure DollarSyntax where
  space : Char → Bool
  ends : Char → Bool
  name? : List Char → Option (List Char)
  ends_marks : ends '$' = false ∧ ends '.' = false
  name_shortens : ∀ raw key, name? raw = some key → key = raw ∨ key.length < raw.length

/-- A place in a path, with the keys before it and what has been read of the next one. -/
inductive DollarPlace
  | start
  | after (keys : List (List Char))
  | name (keys : List (List Char)) (raw : List Char)
  | quoted (keys : List (List Char)) (raw : List Char) (escaped : Bool)

/-- Steps to array elements and wildcards do not lead to keys. -/
def DollarPlace.step (d : DollarSyntax) : DollarPlace → Char → Option DollarPlace
  | start, c => if c = '$' then some (after []) else if d.space c then some start else none
  | after keys, c =>
    if c = '.' then some (name keys []) else if d.space c then some (after keys) else none
  | name keys raw, c =>
    if c = '.' then (d.name? raw).map fun key => name (keys ++ [key]) []
    else if c = '[' then none
    else if d.space c then
      if raw.isEmpty then some (name keys [])
      else (d.name? raw).map fun key => after (keys ++ [key])
    else if c = '"' ∧ raw.isEmpty then some (quoted keys [] false)
    else some (name keys (raw ++ [c]))
  | quoted keys raw escaped, c =>
    if escaped then some (quoted keys (raw ++ [c]) false)
    else if c = '"' then (quotedKey? raw).map fun key => after (keys ++ [key])
    else some (quoted keys (raw ++ [c]) (c = '\\'))

def DollarPlace.final? (d : DollarSyntax) : DollarPlace → Option (List (List Char))
  | after keys => some keys
  | name keys raw => (d.name? raw).map fun key => keys ++ [key]
  | _ => none

/-- The keys that a path leads through. -/
def DollarSyntax.keys? (d : DollarSyntax) (cs : List Char) : Option (List (List Char)) :=
  ((cs.takeWhile fun c => !d.ends c).foldlM (DollarPlace.step d) .start).bind (DollarPlace.final? d)

def dollarText (keys : List (List Char)) : List Char := '$' :: keys.flatMap ('.' :: ·)

theorem dollarText_concat (keys : List (List Char)) (key : List Char) :
    dollarText (keys ++ [key]) = dollarText keys ++ '.' :: key := by
  simp [dollarText]

namespace DollarSyntax
variable (d : DollarSyntax)

def inside (c : Char) : Bool := c != '.' && c != '[' && !d.space c

/-- A name without quotes as far as it is read. -/
def Fits (raw : List Char) : Prop := Sql.Fits (· != '"') d.inside raw

/-- A name without quotes that stands for itself. -/
def Names (key : List Char) : Prop := d.Fits key ∧ d.name? key = some key

/-- A key that a path spells as it is. -/
def Plain (key : List Char) : Prop := d.Names key ∧ ∀ c ∈ key, d.ends c = false

end DollarSyntax

namespace DollarPlace
variable {d : DollarSyntax}

def spelling : DollarPlace → List Char
  | start => []
  | after keys => dollarText keys
  | name keys raw | quoted keys raw _ => dollarText keys ++ '.' :: raw

def Plain (d : DollarSyntax) : DollarPlace → Prop
  | start => True
  | after keys => ∀ key ∈ keys, d.Names key
  | name keys raw => (∀ key ∈ keys, d.Names key) ∧ d.Fits raw
  | quoted .. => False

theorem spells_close {keys : List (List Char)} {raw key read : List Char}
    (hkey : d.name? raw = some key)
    (h : Spells (dollarText keys ++ '.' :: raw) read ((∀ k ∈ keys, d.Names k) ∧ d.Fits raw)) :
    Spells (dollarText (keys ++ [key])) read (∀ k ∈ keys ++ [key], d.Names k) := by
  rw [dollarText_concat]
  rcases d.name_shortens raw key hkey with rfl | hshort
  · exact h.imp fun ⟨hkeys, hfits⟩ =>
      List.forall_mem_append.mpr ⟨hkeys, List.forall_mem_singleton.mpr ⟨hfits, hkey⟩⟩
  · have hle := h.length_le
    simp only [List.length_append, List.length_cons] at hle
    exact .inr (by simp only [List.length_append, List.length_cons]; omega)

theorem spells_step_start {next : DollarPlace} {read : List Char} {c : Char}
    (h : Spells [] read True) (hnext : start.step d c = some next) :
    Spells next.spelling (read ++ [c]) (next.Plain d) := by
  simp only [step] at hnext
  split at hnext
  case isTrue hc =>
    obtain rfl := Option.some.inj hnext
    exact hc ▸ h.keep c (by simp [Plain])
  case isFalse =>
    obtain ⟨-, hnext⟩ := Option.ite_none_right_eq_some.mp hnext
    obtain rfl := Option.some.inj hnext
    exact h.drop c le_rfl

theorem spells_step_after {keys : List (List Char)} {next : DollarPlace} {read : List Char}
    {c : Char} (h : Spells (dollarText keys) read (∀ k ∈ keys, d.Names k))
    (hnext : (after keys).step d c = some next) :
    Spells next.spelling (read ++ [c]) (next.Plain d) := by
  simp only [step] at hnext
  split at hnext
  case isTrue hc =>
    obtain rfl := Option.some.inj hnext
    exact hc ▸ h.keep c fun hkeys => ⟨hkeys, Fits.nil⟩
  case isFalse =>
    obtain ⟨-, hnext⟩ := Option.ite_none_right_eq_some.mp hnext
    obtain rfl := Option.some.inj hnext
    exact h.drop c le_rfl

theorem spells_step_name {keys : List (List Char)} {raw : List Char} {next : DollarPlace}
    {read : List Char} {c : Char} (h : Spells (dollarText keys ++ '.' :: raw) read
      ((∀ k ∈ keys, d.Names k) ∧ d.Fits raw)) (hnext : (name keys raw).step d c = some next) :
    Spells next.spelling (read ++ [c]) (next.Plain d) := by
  simp only [step] at hnext
  split at hnext
  case isTrue hc =>
    obtain ⟨key, hkey, rfl⟩ := Option.map_eq_some_iff.mp hnext
    exact hc ▸ (spells_close hkey h).keep c fun hkeys => ⟨hkeys, Fits.nil⟩
  case isFalse hdot =>
  obtain ⟨hbracket, hnext⟩ := Option.ite_none_left_eq_some.mp hnext
  split at hnext
  case isTrue =>
    split at hnext
    case isTrue =>
      obtain rfl := Option.some.inj hnext
      exact h.drop c (by simp [spelling])
    case isFalse =>
      obtain ⟨key, hkey, rfl⟩ := Option.map_eq_some_iff.mp hnext
      exact (spells_close hkey h).drop c le_rfl
  case isFalse hspace =>
  split at hnext
  case isTrue =>
    obtain rfl := Option.some.inj hnext
    exact h.drop c (by simp [spelling])
  case isFalse hquote =>
    obtain rfl := Option.some.inj hnext
    have hfirst (hraw : raw = []) : (c != '"') = true :=
      bne_iff_ne.mpr fun hc => hquote ⟨hc, List.isEmpty_iff.mpr hraw⟩
    have hinside : d.inside c = true := by simp [DollarSyntax.inside, hdot, hbracket, hspace]
    simpa [spelling] using h.keep c fun ⟨hkeys, hraw⟩ => ⟨hkeys, hraw.concat hfirst hinside⟩

theorem spells_step_quoted {keys : List (List Char)} {raw : List Char} {escaped : Bool}
    {next : DollarPlace} {read : List Char} {c : Char}
    (h : Spells (dollarText keys ++ '.' :: raw) read False)
    (hnext : (quoted keys raw escaped).step d c = some next) :
    Spells next.spelling (read ++ [c]) (next.Plain d) := by
  have happend (e : Bool) : Spells (quoted keys (raw ++ [c]) e).spelling (read ++ [c]) False := by
    simpa [spelling] using h.keep c id
  simp only [step] at hnext
  split at hnext
  case isTrue =>
    obtain rfl := Option.some.inj hnext
    exact happend _
  case isFalse =>
  split at hnext
  case isTrue =>
    obtain ⟨key, hkey, rfl⟩ := Option.map_eq_some_iff.mp hnext
    have hlength : key.length ≤ raw.length := by
      rcases quotedKey?_shortens hkey with rfl | hshort
      · exact le_rfl
      · exact hshort.le
    exact h.drop c (by simpa [spelling, dollarText_concat] using hlength)
  case isFalse =>
    obtain rfl := Option.some.inj hnext
    exact happend _

theorem spells_step {place next : DollarPlace} {read : List Char} {c : Char}
    (h : Spells place.spelling read (place.Plain d)) (hnext : place.step d c = some next) :
    Spells next.spelling (read ++ [c]) (next.Plain d) := by
  cases place with
  | start => exact spells_step_start h hnext
  | after keys => exact spells_step_after h hnext
  | name keys raw => exact spells_step_name h hnext
  | quoted keys raw escaped => exact spells_step_quoted h hnext

theorem spells_final {place : DollarPlace} {keys : List (List Char)} {read : List Char}
    (h : Spells place.spelling read (place.Plain d)) (hkeys : place.final? d = some keys) :
    Spells (dollarText keys) read (∀ k ∈ keys, d.Names k) := by
  cases place with
  | start | quoted => simp [final?] at hkeys
  | after keys =>
    obtain rfl := Option.some.inj hkeys
    exact h
  | name keys raw =>
    obtain ⟨key, hkey, rfl⟩ := Option.map_eq_some_iff.mp hkeys
    exact spells_close hkey h

section Names
variable {keys : List (List Char)}

theorem step_name_of_fits {raw : List Char} {c : Char} (h : d.Fits (raw ++ [c])) :
    (name keys raw).step d c = some (name keys (raw ++ [c])) := by
  obtain ⟨hhead, hall⟩ := h
  have hinside : d.inside c = true := hall c (by simp)
  simp only [DollarSyntax.inside, Bool.and_eq_true, bne_iff_ne, Bool.not_eq_true'] at hinside
  obtain ⟨⟨hdot, hbracket⟩, hspace⟩ := hinside
  have hquote : ¬(c = '"' ∧ raw.isEmpty = true) := by
    rintro ⟨rfl, hraw⟩
    rw [List.isEmpty_iff.mp hraw] at hhead
    simp at hhead
  simpa [step, hdot, hbracket, hspace] using hquote

theorem foldlM_names {key : List Char} (h : d.Names key) :
    key.foldlM (step d) (name keys []) = some (name keys key) :=
  Fits.foldlM step_name_of_fits (show d.Fits ([] ++ key) from h.1)

/-- Names are read one after the other. -/
theorem final?_foldlM {key : List Char} {rest : List (List Char)} (hkey : d.Names key)
    (hrest : ∀ k ∈ rest, d.Names k) :
    ((rest.flatMap ('.' :: ·)).foldlM (step d) (name keys key)).bind (final? d) =
      some (keys ++ key :: rest) := by
  induction rest generalizing keys key with
  | nil => simp [final?, hkey.2]
  | cons next rest ih =>
    obtain ⟨hnext, hrest⟩ := List.forall_mem_cons.mp hrest
    have hstep : (name keys key).step d '.' = some (name (keys ++ [key]) []) := by
      simp [step, hkey.2]
    rw [List.flatMap_cons, List.cons_append, List.foldlM_cons, hstep, Option.bind_eq_bind,
      Option.bind_some, List.foldlM_append, foldlM_names hnext, Option.bind_eq_bind,
      Option.bind_some, ih hnext hrest]
    simp

end Names
end DollarPlace

namespace DollarSyntax
variable {d : DollarSyntax} {keys : List (List Char)}

theorem forall_mem_dollarText_iff :
    (∀ c ∈ dollarText keys, d.ends c = false) ↔ ∀ key ∈ keys, ∀ c ∈ key, d.ends c = false := by
  simp only [dollarText, List.forall_mem_cons, List.forall_mem_flatMap, d.ends_marks, true_and]

theorem foldlM_dollarText (h : ∀ key ∈ keys, d.Names key) :
    ((dollarText keys).foldlM (DollarPlace.step d) .start).bind (DollarPlace.final? d) =
      some keys := by
  have hstart : DollarPlace.start.step d '$' = some (.after []) := by simp [DollarPlace.step]
  rw [dollarText, List.foldlM_cons, hstart]
  cases keys with
  | nil => rfl
  | cons key keys =>
    obtain ⟨hkey, hkeys⟩ := List.forall_mem_cons.mp h
    have hdot : (DollarPlace.after []).step d '.' = some (.name [] []) := by
      simp [DollarPlace.step]
    rw [Option.bind_eq_bind, Option.bind_some, List.flatMap_cons, List.cons_append,
      List.foldlM_cons, hdot, Option.bind_eq_bind, Option.bind_some, List.foldlM_append,
      DollarPlace.foldlM_names hkey]
    exact DollarPlace.final?_foldlM hkey hkeys

/-- A path leads through the keys it is made of exactly if all of them are plain. -/
theorem keys?_dollarText_iff :
    d.keys? (dollarText keys) = some keys ↔ ∀ key ∈ keys, d.Plain key := by
  have hread : ((dollarText keys).takeWhile fun c => !d.ends c) = dollarText keys ↔
      ∀ key ∈ keys, ∀ c ∈ key, d.ends c = false := by
    rw [List.takeWhile_eq_self_iff, ← forall_mem_dollarText_iff]
    simp only [Bool.not_eq_true']
  constructor
  · intro h
    obtain ⟨last, hlast, hkeys⟩ := Option.bind_eq_some_iff.mp h
    have hstart : Spells DollarPlace.start.spelling [] (DollarPlace.start.Plain d) :=
      .inl ⟨rfl, trivial⟩
    rcases DollarPlace.spells_final (spells_of_foldlM DollarPlace.spells_step hstart hlast) hkeys
      with ⟨hwhole, hnames⟩ | hshort
    · exact fun key hkey => ⟨hnames key hkey, hread.mp hwhole.symm key hkey⟩
    · rw [List.nil_append] at hshort
      exact absurd hshort (List.takeWhile_prefix _).length_le.not_gt
  · intro h
    rw [keys?, hread.mpr fun key hkey => (h key hkey).2]
    exact foldlM_dollarText fun key hkey => (h key hkey).1

end DollarSyntax
end Dollar

section Array

/-- White space of array literals. -/
def isArraySpace (c : Char) : Bool := c == ' ' || (9 ≤ c.toNat && c.toNat ≤ 13)

def isArrayMark (c : Char) : Bool := "\x7b\x7d,\"\\".toList.contains c

/-- White space at the end of an item does not count, unless it was escaped. -/
def trimItem (marked : List (Char × Bool)) : List (Char × Bool) :=
  marked.rdropWhile fun m => isArraySpace m.1 && !m.2

def isNullItem (marked : List (Char × Bool)) : Bool :=
  marked.all (!·.2) && marked.map (·.1.toLower) == "null".toList

/-- The item that a text without quotes stands for, given with whether each character was
escaped. -/
def bareItem? (marked : List (Char × Bool)) : Option (List Char) :=
  if (trimItem marked).isEmpty || isNullItem (trimItem marked) then none
  else some ((trimItem marked).map Prod.fst)

/-- A place in an array literal, with the items before it and what has been read of the next. -/
inductive ArrayPlace
  | start
  | item (items : List (List Char)) (marked : List (Char × Bool)) (escaped : Bool)
  | quoted (items : List (List Char)) (raw : List Char) (escaped : Bool)
  | after (items : List (List Char)) (last : List Char)
  | closed (items : List (List Char))

/-- Arrays within an array do not make a list. -/
def ArrayPlace.step : ArrayPlace → Char → Option ArrayPlace
  | start, c =>
    if c = '\x7b' then some (item [] [] false) else if isArraySpace c then some start else none
  | item items marked true, c => some (item items (marked ++ [(c, true)]) false)
  | item items marked false, c =>
    if c = ',' then (bareItem? marked).map fun i => item (items ++ [i]) [] false
    else if c = '\x7d' then
      if items.isEmpty ∧ marked.isEmpty then some (closed [])
      else (bareItem? marked).map fun i => closed (items ++ [i])
    else if c = '\\' then some (item items marked true)
    else if c = '"' then if marked.isEmpty then some (quoted items [] false) else none
    else if c = '\x7b' then none
    else if isArraySpace c ∧ marked.isEmpty then some (item items [] false)
    else some (item items (marked ++ [(c, false)]) false)
  | quoted items raw escaped, c =>
    if escaped then some (quoted items (raw ++ [c]) false)
    else if c = '"' then some (after items raw)
    else if c = '\\' then some (quoted items raw true)
    else some (quoted items (raw ++ [c]) false)
  | after items last, c =>
    if c = ',' then some (item (items ++ [last]) [] false)
    else if c = '\x7d' then some (closed (items ++ [last]))
    else if isArraySpace c then some (after items last)
    else none
  | closed items, c => if isArraySpace c then some (closed items) else none

def ArrayPlace.final? : ArrayPlace → Option (List (List Char))
  | closed items => some items
  | _ => none

/-- The items of an array literal. No text has a null character. -/
def arrayItems? (cs : List Char) : Option (List (List Char)) :=
  if '\x00' ∈ cs then none else (cs.foldlM ArrayPlace.step .start).bind ArrayPlace.final?

def arrayText (items : List (List Char)) : List Char :=
  '\x7b' :: [','].intercalate items ++ ['\x7d']

/-- The items before the next one, each with the comma behind it. -/
def arrayHead (items : List (List Char)) : List Char := '\x7b' :: items.flatMap (· ++ [','])

theorem arrayHead_concat (items : List (List Char)) (item : List Char) :
    arrayHead (items ++ [item]) = arrayHead items ++ item ++ [','] := by
  simp [arrayHead]

theorem arrayText_concat (items : List (List Char)) (item : List Char) :
    arrayText (items ++ [item]) = arrayHead items ++ item ++ ['\x7d'] := by
  have hitems : [','].intercalate (items ++ [item]) = items.flatMap (· ++ [',']) ++ item := by
    induction items with
    | nil => simp
    | cons i items ih =>
      obtain ⟨j, rest, hrest⟩ : ∃ j rest, items ++ [item] = j :: rest :=
        List.exists_cons_of_ne_nil (by simp)
      rw [hrest] at ih
      rw [List.cons_append, hrest, List.intercalate_cons_cons, ih]
      simp
  simp [arrayText, arrayHead, hitems]

namespace ArrayPlace

/-- An item without quotes as far as it is read. -/
def Fits (raw : List Char) : Prop := Sql.Fits (!isArraySpace ·) (!isArrayMark ·) raw

/-- An item that stands for itself. -/
def PlainItem (item : List Char) : Prop :=
  Fits item ∧ bareItem? (item.map (·, false)) = some item

def spelling : ArrayPlace → List Char
  | start => []
  | item items marked _ => arrayHead items ++ marked.map Prod.fst
  | quoted items raw _ | after items raw => arrayHead items ++ raw
  | closed items => arrayText items

def Plain : ArrayPlace → Prop
  | start => True
  | item items marked escaped => (∀ i ∈ items, PlainItem i) ∧ escaped = false ∧
    (∀ m ∈ marked, m.2 = false) ∧ Fits (marked.map Prod.fst)
  | quoted .. | after .. => False
  | closed items => ∀ i ∈ items, PlainItem i

theorem bareItem?_shortens {marked : List (Char × Bool)} {i : List Char}
    (h : bareItem? marked = some i) : i = marked.map Prod.fst ∨ i.length < marked.length := by
  obtain ⟨-, h⟩ := Option.ite_none_left_eq_some.mp h
  obtain rfl := Option.some.inj h
  have hkept : trimItem marked <+: marked := List.rdropWhile_prefix _ _
  rcases hkept.length_le.eq_or_lt with hlength | hlength
  · exact .inl (by rw [hkept.eq_of_length hlength])
  · exact .inr (by rwa [List.length_map])

theorem map_unescaped {marked : List (Char × Bool)} (h : ∀ m ∈ marked, m.2 = false) :
    (marked.map Prod.fst).map (·, false) = marked := by
  rw [List.map_map]
  conv_rhs => rw [← List.map_id marked]
  exact List.map_congr_left fun m hm => Prod.ext rfl (h m hm).symm

theorem spelling_item (items : List (List Char)) (i : List Char) :
    (item (items ++ [i]) [] false).spelling = arrayHead items ++ i ++ [','] := by
  simp [spelling, arrayHead_concat]

theorem spells_close {items : List (List Char)} {marked : List (Char × Bool)} {escaped : Bool}
    {i read : List Char} (hi : bareItem? marked = some i)
    (h : Spells (item items marked escaped).spelling read (item items marked escaped).Plain) :
    Spells (arrayHead items ++ i) read (∀ j ∈ items ++ [i], PlainItem j) := by
  rcases bareItem?_shortens hi with rfl | hshort
  · exact h.imp fun ⟨hitems, _, hmarked, hfits⟩ => List.forall_mem_append.mpr
      ⟨hitems, List.forall_mem_singleton.mpr ⟨hfits, by rw [map_unescaped hmarked, hi]⟩⟩
  · have hle := h.length_le
    simp only [spelling, List.length_append, List.length_map] at hle
    exact .inr (by rw [List.length_append]; omega)

theorem spells_step_start {next : ArrayPlace} {read : List Char} {c : Char}
    (h : Spells [] read True) (hnext : start.step c = some next) :
    Spells next.spelling (read ++ [c]) next.Plain := by
  simp only [step] at hnext
  split at hnext
  case isTrue hc =>
    obtain rfl := Option.some.inj hnext
    exact hc ▸ h.keep c fun _ => ⟨by simp, rfl, by simp, Sql.Fits.nil⟩
  case isFalse =>
    obtain ⟨-, hnext⟩ := Option.ite_none_right_eq_some.mp hnext
    obtain rfl := Option.some.inj hnext
    exact h.drop c le_rfl

theorem spells_step_escaped {items : List (List Char)} {marked : List (Char × Bool)}
    {next : ArrayPlace} {read : List Char} {c : Char}
    (h : Spells (item items marked true).spelling read (item items marked true).Plain)
    (hnext : (item items marked true).step c = some next) :
    Spells next.spelling (read ++ [c]) next.Plain := by
  obtain rfl := Option.some.inj hnext
  simpa [spelling] using h.keep c fun ⟨_, hescaped, _⟩ => absurd hescaped (by decide)

theorem spells_step_item {items : List (List Char)} {marked : List (Char × Bool)}
    {next : ArrayPlace} {read : List Char} {c : Char}
    (h : Spells (item items marked false).spelling read (item items marked false).Plain)
    (hnext : (item items marked false).step c = some next) :
    Spells next.spelling (read ++ [c]) next.Plain := by
  simp only [step] at hnext
  split at hnext
  case isTrue hc =>
    obtain ⟨i, hi, rfl⟩ := Option.map_eq_some_iff.mp hnext
    rw [spelling_item, ← hc]
    exact (spells_close hi h).keep c fun hitems => ⟨hitems, rfl, by simp, Sql.Fits.nil⟩
  case isFalse hcomma =>
  split at hnext
  case isTrue hc =>
    split at hnext
    case isTrue hempty =>
      obtain ⟨hitems, hmarked⟩ := hempty
      obtain rfl := Option.some.inj hnext
      obtain rfl := List.isEmpty_iff.mp hitems
      obtain rfl := List.isEmpty_iff.mp hmarked
      exact hc ▸ h.keep c fun _ => by simp [Plain]
    case isFalse =>
      obtain ⟨i, hi, rfl⟩ := Option.map_eq_some_iff.mp hnext
      rw [spelling, arrayText_concat, ← hc]
      exact (spells_close hi h).keep c id
  case isFalse hbrace =>
  split at hnext
  case isTrue =>
    obtain rfl := Option.some.inj hnext
    exact h.drop c le_rfl
  case isFalse hescape =>
  split at hnext
  case isTrue =>
    obtain ⟨hmarked, hnext⟩ := Option.ite_none_right_eq_some.mp hnext
    obtain rfl := Option.some.inj hnext
    exact h.drop c (by simp [spelling])
  case isFalse hquote =>
  obtain ⟨hopen, hnext⟩ := Option.ite_none_left_eq_some.mp hnext
  split at hnext
  case isTrue =>
    obtain rfl := Option.some.inj hnext
    exact h.drop c (by simp [spelling])
  case isFalse hspace =>
    obtain rfl := Option.some.inj hnext
    have hfirst (hraw : marked.map Prod.fst = []) : (!isArraySpace c) = true := by
      rw [Bool.not_eq_true', Bool.eq_false_iff]
      exact fun hc => hspace ⟨hc, List.isEmpty_iff.mpr (List.map_eq_nil_iff.mp hraw)⟩
    have hinside : (!isArrayMark c) = true := by
      simp [isArrayMark, hcomma, hbrace, hescape, hquote, hopen]
    have hkeep := h.keep c fun ⟨hitems, _, hmarked, hfits⟩ =>
      show (item items (marked ++ [(c, false)]) false).Plain from
        ⟨hitems, rfl, List.forall_mem_append.mpr ⟨hmarked, by simp⟩, by
          rw [List.map_append]
          exact hfits.concat hfirst hinside⟩
    simpa [spelling] using hkeep

theorem spells_step_quoted {items : List (List Char)} {raw : List Char} {escaped : Bool}
    {next : ArrayPlace} {read : List Char} {c : Char}
    (h : Spells (arrayHead items ++ raw) read False)
    (hnext : (quoted items raw escaped).step c = some next) :
    Spells next.spelling (read ++ [c]) next.Plain := by
  have happend (e : Bool) : Spells (quoted items (raw ++ [c]) e).spelling (read ++ [c]) False := by
    simpa [spelling] using h.keep c id
  simp only [step] at hnext
  split at hnext
  case isTrue =>
    obtain rfl := Option.some.inj hnext
    exact happend _
  case isFalse =>
  split at hnext
  case isTrue =>
    obtain rfl := Option.some.inj hnext
    exact h.drop c le_rfl
  case isFalse =>
  split at hnext
  case isTrue =>
    obtain rfl := Option.some.inj hnext
    exact h.drop c le_rfl
  case isFalse =>
    obtain rfl := Option.some.inj hnext
    exact happend _

theorem spells_step_after {items : List (List Char)} {last : List Char}
    {next : ArrayPlace} {read : List Char} {c : Char}
    (h : Spells (arrayHead items ++ last) read False)
    (hnext : (after items last).step c = some next) :
    Spells next.spelling (read ++ [c]) next.Plain := by
  simp only [step] at hnext
  split at hnext
  case isTrue hc =>
    obtain rfl := Option.some.inj hnext
    rw [spelling_item, ← hc]
    exact h.keep c False.elim
  case isFalse =>
  split at hnext
  case isTrue hc =>
    obtain rfl := Option.some.inj hnext
    rw [spelling, arrayText_concat, ← hc]
    exact h.keep c False.elim
  case isFalse =>
    obtain ⟨-, hnext⟩ := Option.ite_none_right_eq_some.mp hnext
    obtain rfl := Option.some.inj hnext
    exact h.drop c le_rfl

theorem spells_step {place next : ArrayPlace} {read : List Char} {c : Char}
    (h : Spells place.spelling read place.Plain) (hnext : place.step c = some next) :
    Spells next.spelling (read ++ [c]) next.Plain := by
  cases place with
  | start => exact spells_step_start h hnext
  | item items marked escaped =>
    cases escaped with
    | true => exact spells_step_escaped h hnext
    | false => exact spells_step_item h hnext
  | quoted items raw escaped => exact spells_step_quoted h hnext
  | after items last => exact spells_step_after h hnext
  | closed items =>
    obtain ⟨-, hnext⟩ := Option.ite_none_right_eq_some.mp hnext
    obtain rfl := Option.some.inj hnext
    exact h.drop c le_rfl

theorem step_item_of_fits {items : List (List Char)} {raw : List Char} {c : Char}
    (h : Fits (raw ++ [c])) : (item items (raw.map (·, false)) false).step c =
      some (item items ((raw ++ [c]).map (·, false)) false) := by
  obtain ⟨hhead, hall⟩ := h
  have hmark : isArrayMark c = false := by simpa using hall c (by simp)
  simp only [isArrayMark, List.contains_eq_mem, decide_eq_false_iff_not] at hmark
  have hspace : ¬(isArraySpace c = true ∧ (raw.map (·, false)).isEmpty = true) := by
    rintro ⟨hc, hraw⟩
    rw [List.isEmpty_iff, List.map_eq_nil_iff] at hraw
    simp [hraw, hc] at hhead
  have hmarks : c ≠ ',' ∧ c ≠ '\x7d' ∧ c ≠ '\\' ∧ c ≠ '"' ∧ c ≠ '\x7b' := by
    refine ⟨?_, ?_, ?_, ?_, ?_⟩ <;> rintro rfl <;> simp at hmark
  obtain ⟨hcomma, hclose, hescape, hquote, hopen⟩ := hmarks
  simpa [step, hcomma, hclose, hescape, hquote, hopen] using hspace

theorem PlainItem.foldlM {items : List (List Char)} {i : List Char} (h : PlainItem i) :
    i.foldlM step (item items [] false) = some (item items (i.map (·, false)) false) :=
  Sql.Fits.foldlM step_item_of_fits (show Fits ([] ++ i) from h.1)

theorem PlainItem.ne_nil {i : List Char} (h : PlainItem i) : i ≠ [] := by
  rintro rfl
  simp [PlainItem, bareItem?, trimItem] at h

/-- Plain items are read one after the other. -/
theorem foldlM_items {items rest : List (List Char)} {i : List Char} (hi : PlainItem i)
    (hrest : ∀ j ∈ rest, PlainItem j) :
    ([','].intercalate (i :: rest) ++ ['\x7d']).foldlM step (item items [] false) =
      some (closed (items ++ i :: rest)) := by
  induction rest generalizing items i with
  | nil =>
    rw [List.intercalate_singleton, List.foldlM_append, hi.foldlM]
    simp [step, hi.2, hi.ne_nil]
  | cons j rest ih =>
    obtain ⟨hj, hrest⟩ := List.forall_mem_cons.mp hrest
    have hcomma : (item items (i.map (·, false)) false).step ',' =
        some (item (items ++ [i]) [] false) := by
      simp [step, hi.2]
    rw [List.intercalate_cons_cons, List.append_assoc, List.append_assoc, List.foldlM_append,
      hi.foldlM, Option.bind_eq_bind, Option.bind_some, List.singleton_append, List.foldlM_cons,
      hcomma, Option.bind_eq_bind, Option.bind_some, ih hj hrest]
    simp

theorem foldlM_arrayText {items : List (List Char)} (h : ∀ i ∈ items, PlainItem i) :
    (arrayText items).foldlM step start = some (closed items) := by
  have hstart : start.step '\x7b' = some (item [] [] false) := by simp [step]
  rw [arrayText, List.cons_append, List.foldlM_cons, hstart, Option.bind_eq_bind, Option.bind_some]
  cases items with
  | nil => rfl
  | cons i rest =>
    obtain ⟨hi, hrest⟩ := List.forall_mem_cons.mp h
    exact foldlM_items hi hrest

theorem plainItem_of_foldlM {items : List (List Char)} {last : ArrayPlace}
    (hlast : (arrayText items).foldlM step start = some last) (hitems : last.final? = some items) :
    ∀ i ∈ items, PlainItem i := by
  cases last with
  | closed found =>
    obtain rfl := Option.some.inj hitems
    have hstart : Spells start.spelling [] start.Plain := .inl ⟨rfl, trivial⟩
    rcases spells_of_foldlM spells_step hstart hlast with ⟨-, hplain⟩ | hshort
    · exact hplain
    · exact absurd hshort (lt_irrefl _)
  | _ => simp [final?] at hitems

end ArrayPlace

theorem null_mem_arrayText_iff {items : List (List Char)} :
    '\x00' ∈ arrayText items ↔ ∃ i ∈ items, '\x00' ∈ i := by
  cases items using List.reverseRecOn with
  | nil => decide
  | append_singleton items i =>
    rw [arrayText_concat, arrayHead]
    simp [or_and_right, exists_or]

/-- An array literal lists the items it is made of exactly if all of them are plain. -/
theorem arrayItems?_arrayText_iff {items : List (List Char)} :
    arrayItems? (arrayText items) = some items ↔
      ∀ i ∈ items, ArrayPlace.PlainItem i ∧ '\x00' ∉ i := by
  rw [arrayItems?, Option.ite_none_left_eq_some, null_mem_arrayText_iff, forall₂_and, and_comm]
  push Not
  refine and_congr_left fun _ => ⟨fun h => ?_, fun h => ?_⟩
  · obtain ⟨last, hlast, hitems⟩ := Option.bind_eq_some_iff.mp h
    exact ArrayPlace.plainItem_of_foldlM hlast hitems
  · rw [ArrayPlace.foldlM_arrayText h]
    rfl

end Array
end EntitySearch.Sql
