/-!
Lists kept in order of name, with one item a name. The order is by code point, which is also
the order of the names' UTF-8 bytes.
-/
namespace EntitySearch.Named
variable {α : Type} (name : α → String)

/-- Puts `x` at its place; an item of the same name gives way to it. -/
def insert (x : α) : List α → List α
  | [] => [x]
  | y :: ys =>
    if name x = name y then x :: ys
    else if name x < name y then x :: y :: ys
    else y :: insert x ys

def find? (n : String) (items : List α) : Option α :=
  items.find? fun x => name x == n

@[simp] theorem find?_nil (n : String) : find? name n ([] : List α) = none := rfl

theorem find?_cons (n : String) (x : α) (xs : List α) :
    find? name n (x :: xs) = if name x = n then some x else find? name n xs := by
  simp only [find?, List.find?_cons]
  by_cases h : name x = n
  · simp [h]
  · simp [h, beq_eq_false_iff_ne.2 h]

/-- Reading after writing. -/
theorem find?_insert (n : String) (x : α) (items : List α) :
    find? name n (insert name x items) = if name x = n then some x else find? name n items := by
  induction items with
  | nil => simp only [insert, find?_cons]
  | cons y ys ih =>
    unfold insert
    by_cases hxy : name x = name y
    · rw [if_pos hxy, find?_cons, find?_cons]
      by_cases hn : name x = n
      · rw [if_pos hn, if_pos hn]
      · rw [if_neg hn, if_neg hn, if_neg (hxy ▸ hn)]
    · rw [if_neg hxy]
      by_cases hlt : name x < name y
      · rw [if_pos hlt, find?_cons]
      · rw [if_neg hlt, find?_cons, ih, find?_cons]
        by_cases hn : name x = n
        · rw [if_pos hn, if_pos hn, if_neg fun h => hxy (hn.trans h.symm)]
        · rw [if_neg hn, if_neg hn]

theorem name_of_find? {n : String} {x : α} {items : List α} (h : find? name n items = some x) :
    name x = n := by
  have := List.find?_some h
  simpa using this

theorem mem_of_find? {n : String} {x : α} {items : List α} (h : find? name n items = some x) :
    x ∈ items :=
  List.mem_of_find?_eq_some h

end EntitySearch.Named
