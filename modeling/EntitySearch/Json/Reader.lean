import EntitySearch.Json.Token
/-!
Reading JSON text: a walk over its tokens with a stack of the containers still open.
-/
namespace EntitySearch.Json

/-- An open container with what it holds so far; an object waits for the value of `name`. -/
inductive Frame
  | array (items : List Json)
  | object (members : List (String × Json)) (name : String)

/-- What may come next, under the containers still open. -/
inductive Reading
  | value (stack : List Frame)
  | itemOrEnd (stack : List Frame)
  | nameOrEnd (stack : List Frame)
  | nextName (members : List (String × Json)) (stack : List Frame)
  | colon (members : List (String × Json)) (name : String) (stack : List Frame)
  | afterItem (items : List Json) (stack : List Frame)
  | afterMember (members : List (String × Json)) (stack : List Frame)
  | done (v : Json)

/-- Containers may be nested this deep. -/
def depthLimit : Nat := 127

/-- A value is complete: it goes into the innermost open container. -/
def Reading.take (v : Json) : List Frame → Reading
  | [] => .done v
  | .array items :: stack => .afterItem (items ++ [v]) stack
  | .object members name :: stack => .afterMember (put name v members) stack

/-- One token where a value must come. -/
def Reading.start (stack : List Frame) : Token → Option Reading
  | .text s => some (take (.text s) stack)
  | .scalar v => some (take v stack)
  | .mark c =>
    if stack.length < depthLimit then
      if c == '[' then some (.itemOrEnd stack)
      else if c == '\x7b' then some (.nameOrEnd stack)
      else none
    else none

def Reading.step : Reading → Token → Option Reading
  | .value stack, t => start stack t
  | .itemOrEnd stack, .mark ']' => some (take (.array []) stack)
  | .itemOrEnd stack, t => start (.array [] :: stack) t
  | .nameOrEnd stack, .mark '\x7d' => some (take (.object []) stack)
  | .nameOrEnd stack, .text s => some (.colon [] s stack)
  | .nextName members stack, .text s => some (.colon members s stack)
  | .colon members s stack, .mark ':' => some (.value (.object members s :: stack))
  | .afterItem items stack, .mark ',' => some (.value (.array items :: stack))
  | .afterItem items stack, .mark ']' => some (take (.array items) stack)
  | .afterMember members stack, .mark ',' => some (.nextName members stack)
  | .afterMember members stack, .mark '\x7d' => some (take (.object members) stack)
  | _, _ => none

def ofTokens? (ts : List Token) : Option Json :=
  match ts.foldlM Reading.step (.value []) with
  | some (.done v) => some v
  | _ => none

/-- The value of a JSON text. -/
def read? (s : String) : Option Json := (tokens? s.toList).bind ofTokens?

end EntitySearch.Json
