import EntitySearch.Leaf
/-!
The plan of every operation. What compiles a criterion tells the kinds of operations apart, and what
serves a kind asks again which operation it is, failing at one of another kind. No criterion gets so
far: each operation has a plan of its own, in which nothing is left to ask.
-/
namespace EntitySearch
open Sql

theorem bind_ok_eq_map {ε α β : Type} (x : Except ε α) (f : α → β) :
    (x >>= fun a => .ok (f a)) = x.map f := by
  cases x <;> rfl

namespace Scope
variable (s : Scope) (c : Criterion)

/-- A comparison of a column with the value that the operand is read as. -/
def planComparison (value : Spot → Except SearchError Value) (op : Comparison) : Plan :=
  s.planColumn c fun p => (value p).map (.compare op)

/-- A comparison of a column with a pattern for the text of the operand. -/
def planPattern (pattern : String → String) : Plan :=
  match c.textValue with
  | .error e => .refuse e
  | .ok text => s.planColumn c fun _ => .ok (.like (pattern text))

/-- A test of a column for the elements of the operand, settled where there are none. -/
def planList (test : List Value → ColumnTest) (ifEmpty : Bool) : Plan :=
  match c.listValues with
  | .error e => .refuse e
  | .ok values => s.onSpot c fun _ =>
    .ok fun column =>
      .ofPredicate (if values.isEmpty then .constant ifEmpty else .column column (test values))

def planDocumentTest (test : Except SearchError DocumentTest) : Plan :=
  s.onSpot c fun p => c.documentTest p test

def planElements : Plan := s.onSpot c c.elementTests

/-- What each operation asks for. -/
def planFor : Operation → Plan
  | .greater => s.planComparison c (fun p => c.orderingValue p.type) .greater
  | .less => s.planComparison c (fun p => c.orderingValue p.type) .less
  | .greaterEquals => s.planComparison c (fun p => c.orderingValue p.type) .greaterEqual
  | .lessEquals => s.planComparison c (fun p => c.orderingValue p.type) .lessEqual
  | .equals => s.planComparison c c.equalityValue .equal
  | .notEqual => s.planComparison c c.equalityValue .notEqual
  | .like => s.planPattern c containing
  | .likeStart => s.planPattern c startingWith
  | .likeEnd => s.planPattern c endingWith
  | .inList => s.planList c .within false
  | .notInList => s.planList c .outside true
  | .excludeIn => s.planAbsence c (c.listValues.map fun vs =>
      if vs.isEmpty then none else some (.within vs))
  | .excludeLike => s.planAbsence c (c.textValue.map fun text => some (.like (containing text)))
  | .jsonLike => s.planDocumentTest c (c.textValue.map .holdsText)
  | .jsonContains => s.planDocumentTest c (match c.operand.text? with
      | some text => .ok (.holdsValue text)
      | none => .error (c.shapeError .scalar))
  | .jsonArrayContainsAny => s.planElements c

variable {s c}

/-- Where the operand has the shape that the operation takes, no function is asked for an operation
that it does not know, and what is left is the operation's own plan. -/
theorem plan_eq : s.plan c =
    if c.operand.hasShape c.operation.shape then s.planFor c c.operation
    else .refuse (c.shapeError c.operation.shape) := by
  unfold plan
  split
  case isFalse => rfl
  case isTrue =>
    cases hop : c.operation with
    | greater | less | greaterEquals | lessEquals =>
      simp only [planOrdering, hop, bind_ok_eq_map]
      rfl
    | equals | notEqual =>
      simp only [planEquality, hop, bind_ok_eq_map]
      rfl
    | like | likeStart | likeEnd =>
      simp only [planLike, Criterion.patternOf, hop]
      rfl
    | inList | notInList =>
      unfold planMembership
      simp only [hop]
      show _ = s.planList c _ _
      unfold planList
      cases c.listValues with
      | error e => rfl
      | ok values => cases values <;> rfl
    | excludeIn =>
      simp only [planExclusion, Criterion.exclusionTest, hop]
      rfl
    | excludeLike =>
      simp only [planExclusion, Criterion.exclusionTest, Criterion.patternOf, hop]
      exact congrArg (s.planAbsence c) (bind_ok_eq_map _ _)
    | jsonLike | jsonContains | jsonArrayContainsAny =>
      simp only [planDocument, hop]
      rfl

theorem plan_of_shape (h : c.operand.hasShape c.operation.shape = true) :
    s.plan c = s.planFor c c.operation := by
  rw [plan_eq, if_pos h]

end Scope
end EntitySearch
