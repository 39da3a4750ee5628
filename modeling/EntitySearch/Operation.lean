/-!
The operations of search criteria.
-/
namespace EntitySearch

/-- The operand an operation takes. -/
inductive Shape | scalar | text | sequence
  deriving DecidableEq, Repr

def Shape.description : Shape → String
  | .scalar => "a single value"
  | .text => "a string"
  | .sequence => "an array"

inductive Operation
  | greater | less | greaterEquals | lessEquals | notEqual | equals
  | like | likeStart | likeEnd
  | inList | notInList
  | excludeIn | excludeLike
  | jsonLike | jsonContains | jsonArrayContainsAny
  deriving DecidableEq, Repr

namespace Operation

def all : List Operation :=
  [greater, less, greaterEquals, lessEquals, notEqual, equals, like, likeStart, likeEnd,
    inList, notInList, excludeIn, excludeLike, jsonLike, jsonContains, jsonArrayContainsAny]

def name : Operation → String
  | greater => "GREATER"
  | less => "LESS"
  | greaterEquals => "GREATER_EQUALS"
  | lessEquals => "LESS_EQUALS"
  | notEqual => "NOT_EQUAL"
  | equals => "EQUALS"
  | like => "LIKE"
  | likeStart => "LIKE_START"
  | likeEnd => "LIKE_END"
  | inList => "IN"
  | notInList => "NOT_IN"
  | excludeIn => "EXCLUDE_IN"
  | excludeLike => "EXCLUDE_LIKE"
  | jsonLike => "JSON_LIKE"
  | jsonContains => "JSON_CONTAINS"
  | jsonArrayContainsAny => "JSON_ARRAY_CONTAINS_ANY_IGNORE_CASE"

def shape : Operation → Shape
  | greater | less | greaterEquals | lessEquals | notEqual | equals | jsonContains => .scalar
  | like | likeStart | likeEnd | excludeLike | jsonLike => .text
  | inList | notInList | excludeIn | jsonArrayContainsAny => .sequence

def ofName? (s : String) : Option Operation := all.find? fun o => o.name == s

/-- What is said of a name that no operation has. -/
def unknownName (s : String) : String := s!"Unknown operation '{s}'"

theorem mem_all (o : Operation) : o ∈ all := by cases o <;> decide

theorem name_injective {o p : Operation} (h : o.name = p.name) : o = p := by
  revert h; cases o <;> cases p <;> decide

theorem ofName?_name (o : Operation) : ofName? o.name = some o := by cases o <;> decide

theorem ofName?_eq_some_iff {s : String} {o : Operation} : ofName? s = some o ↔ o.name = s := by
  constructor
  · intro h
    simpa using List.find?_some h
  · rintro rfl
    exact ofName?_name o

end Operation
end EntitySearch
