import EntitySearch.Sql.Value
/-!
SQL text with places for bound values.
-/
namespace EntitySearch.Sql

inductive Piece
  | text (s : String)
  | bind (v : Value)
  deriving DecidableEq

abbrev Fragment := List Piece

/-- A statement as handed to a database. -/
structure Prepared where
  text : String
  values : List Value
  deriving DecidableEq

namespace Fragment

/-- The bound values in order. -/
def values : Fragment → List Value
  | [] => []
  | .text _ :: rest => values rest
  | .bind v :: rest => v :: values rest

def placeholder (backend : Backend) (n : Nat) : String :=
  match backend with
  | .postgres => "$" ++ toString n
  | _ => "?"

/-- The text with placeholders, the first of which has number `n`. -/
def placeholdersFrom (backend : Backend) (n : Nat) : Fragment → String
  | [] => ""
  | .text s :: rest => s ++ placeholdersFrom backend n rest
  | .bind _ :: rest => placeholder backend n ++ placeholdersFrom backend (n + 1) rest

def prepare (backend : Backend) (f : Fragment) : Prepared :=
  ⟨placeholdersFrom backend 1 f, f.values⟩

/-- The text with literals in place of bound values. -/
def inline (backend : Backend) : Fragment → String
  | [] => ""
  | .text s :: rest => s ++ inline backend rest
  | .bind v :: rest => v.literal backend ++ inline backend rest

/-- Fragments one after the other with `sep` between them. -/
def joined (sep : String) : List Fragment → Fragment
  | [] => []
  | [f] => f
  | f :: fs => f ++ .text sep :: joined sep fs

@[simp] theorem values_nil : values [] = [] := rfl
@[simp] theorem values_text (s : String) (f : Fragment) : values (.text s :: f) = values f := rfl
@[simp] theorem values_bind (v : Value) (f : Fragment) :
    values (.bind v :: f) = v :: values f := rfl

@[simp] theorem values_append (f g : Fragment) : values (f ++ g) = values f ++ values g := by
  induction f with
  | nil => rfl
  | cons p f ih => cases p <;> simp [ih]

end Fragment

/-- A name between quotes; a quote inside is doubled. -/
def quoteName (backend : Backend) (name : String) : String :=
  let q := match backend with
    | .mysql => '\x60'
    | _ => '"'
  let body := name.toList.flatMap fun c => if c = q then [q, q] else [c]
  String.ofList (q :: body ++ [q])

end EntitySearch.Sql
