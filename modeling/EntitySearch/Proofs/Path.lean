import EntitySearch.Proofs.Legality
import Mathlib.Data.List.Lex
/-!
Places in a JSON value. A place is a path of member names and indices from the value down; its text
can be read back, and paths have the order in which a body is gone through.
-/
namespace EntitySearch.Json

inductive Step
  | member (name : String)
  | element (i : Nat)
  deriving DecidableEq, Repr

abbrev Path := List Step

/-- The part of a value that a step leads to. Of two members of one name the later counts. -/
def step? (v : Json) : Step → Option Json
  | .member name =>
    match v with
    | object members => members.reverse.lookup name
    | _ => none
  | .element i =>
    match v with
    | array items => items[i]?
    | _ => none

/-- The part of a value that a path leads to. -/
def at? : Json → Path → Option Json
  | v, [] => some v
  | v, s :: p => (v.step? s).bind fun w => w.at? p

@[simp] theorem at?_nil (v : Json) : v.at? [] = some v := rfl

@[simp] theorem at?_cons (v : Json) (s : Step) (p : Path) :
    v.at? (s :: p) = (v.step? s).bind fun w => w.at? p := rfl

theorem at?_singleton (v : Json) (s : Step) : v.at? [s] = v.step? s := by
  rw [at?_cons]
  cases v.step? s <;> rfl

theorem at?_append (v : Json) (p q : Path) : v.at? (p ++ q) = (v.at? p).bind fun w => w.at? q := by
  induction p generalizing v with
  | nil => rfl
  | cons s p ih => simp only [List.cons_append, at?_cons, ih, Option.bind_assoc]

namespace Step

def text : Step → String
  | member name => "." ++ name
  | element i => s!"[{i}]"

/-- Whether a name can be told from what follows it. -/
def isPlain : Step → Bool
  | member name => name.toList.all fun c => c != '.' && c != '['
  | element _ => true

theorem isPlain_of_mem_fieldNames {name : String} (h : name ∈ fieldNames) :
    (member name).isPlain = true := by
  have hall : fieldNames.all (fun name => (member name).isPlain) = true := by decide
  exact List.all_eq_true.mp hall name h

/-- Members come in the order of a criterion's fields, elements by their indices. -/
def Before : Step → Step → Prop
  | member m, member n => fieldNames.idxOf m < fieldNames.idxOf n
  | element i, element j => i < j
  | _, _ => False

theorem toList_text_member (name : String) : (member name).text.toList = '.' :: name.toList := by
  simp [text]

theorem toList_text_element (i : Nat) :
    (element i).text.toList = '[' :: (Nat.toDigits 10 i ++ [']']) := by
  show ("[" ++ Nat.repr i ++ "]").toList = _
  simp

theorem append_text_element (place : String) (i : Nat) :
    place ++ (element i).text = s!"{place}[{i}]" := by
  show place ++ ("[" ++ Nat.repr i ++ "]") = place ++ "[" ++ Nat.repr i ++ "]"
  simp only [String.append_assoc]

theorem Before.irrefl (s : Step) : ¬ s.Before s := by
  cases s <;> simp [Before]

end Step

namespace Path

/-- The text of a path, such as `[0].and[1].value`. -/
def text : Path → String
  | [] => ""
  | s :: p => s.text ++ text p

/-- Paths read back from the end of their text: the characters of the step that is not complete
yet, and the steps that are. -/
def readFrom : List Char → Option (List Char × Path)
  | [] => some ([], [])
  | c :: cs => do
    let (pending, p) ← readFrom cs
    if c = '.' then return ([], .member (String.ofList pending) :: p)
    else if c = '[' then
      let i := Nat.ofDigitChars 10 pending.dropLast 0
      if pending = Nat.toDigits 10 i ++ [']'] then return ([], .element i :: p) else none
    else return (c :: pending, p)

/-- The path that a text gives. -/
def read? (s : String) : Option Path :=
  match readFrom s.toList with
  | some ([], p) => some p
  | _ => none

theorem readFrom_append {cs rest pending : List Char} {p : Path}
    (h : ∀ c ∈ cs, c ≠ '.' ∧ c ≠ '[') (hrest : readFrom rest = some (pending, p)) :
    readFrom (cs ++ rest) = some (cs ++ pending, p) := by
  induction cs with
  | nil => exact hrest
  | cons c cs ih =>
    obtain ⟨⟨hdot, hbracket⟩, hcs⟩ := List.forall_mem_cons.mp h
    simp [readFrom, ih hcs, hdot, hbracket]

theorem readFrom_step {s : Step} (hs : s.isPlain = true) {rest : List Char} {p : Path}
    (hrest : readFrom rest = some ([], p)) :
    readFrom (s.text.toList ++ rest) = some ([], s :: p) := by
  cases s with
  | member name =>
    have hplain : ∀ c ∈ name.toList, c ≠ '.' ∧ c ≠ '[' := by simpa [Step.isPlain] using hs
    have hname := readFrom_append hplain hrest
    rw [Step.toList_text_member, List.cons_append, readFrom, hname]
    simp
  | element i =>
    have hplain : ∀ c ∈ Nat.toDigits 10 i ++ [']'], c ≠ '.' ∧ c ≠ '[' := by
      intro c hc
      rcases List.mem_append.mp hc with hc | hc
      · have hdigit := Nat.isDigit_of_mem_toDigits (by decide) (by decide) hc
        constructor <;> rintro rfl <;> exact absurd hdigit (by decide)
      · obtain rfl := List.mem_singleton.mp hc
        decide
    have hindex := readFrom_append hplain hrest
    rw [Step.toList_text_element, List.cons_append, readFrom, hindex]
    simp [Nat.ofDigitChars_ten_toDigits]

theorem readFrom_text {p : Path} (h : ∀ s ∈ p, s.isPlain = true) :
    readFrom p.text.toList = some ([], p) := by
  induction p with
  | nil => rfl
  | cons s p ih =>
    obtain ⟨hs, hp⟩ := List.forall_mem_cons.mp h
    rw [text, String.toList_append]
    exact readFrom_step hs (ih hp)

/-- A path of plain names is read back from its text. -/
theorem read?_text {p : Path} (h : ∀ s ∈ p, s.isPlain = true) : read? p.text = some p := by
  rw [read?, readFrom_text h]

example : read? "[0].and[1].value[2]" =
    some [.element 0, .member "and", .element 1, .member "value", .element 2] := by
  decide

/-- The order in which a value is gone through. -/
def Before : Path → Path → Prop := List.Lex Step.Before

theorem before_of_step {s t : Step} (h : s.Before t) (p q : Path) : Before (s :: p) (t :: q) :=
  List.Lex.rel h

theorem before_cons {p q : Path} (h : Before p q) (s : Step) : Before (s :: p) (s :: q) :=
  List.Lex.cons h

theorem Before.irrefl (p : Path) : ¬ Before p p := by
  induction p with
  | nil => exact List.not_lex_nil
  | cons s p ih =>
    intro h
    cases h with
    | rel hs => exact Step.Before.irrefl s hs
    | cons hp => exact ih hp

end Path
end EntitySearch.Json
