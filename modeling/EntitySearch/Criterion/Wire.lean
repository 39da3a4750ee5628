import EntitySearch.Criterion
/-!
The JSON form of search criteria. Empty lists and an absent label are left out; the label travels as
`alias`. The name of an operation is made from that of its variant; `Operation.name`, which bodies are
read with, is a table apart from it.
-/
namespace EntitySearch

/-- A word in camel case in capitals, with an underscore before each further capital of it. -/
def Text.screamingSnake (s : String) : String :=
  match s.toList with
  | [] => ""
  | c :: cs =>
    String.ofList (c.toUpper :: cs.flatMap fun d => if d.isUpper then ['_', d] else [d.toUpper])

namespace Operation

def variant : Operation → String
  | greater => "Greater"
  | less => "Less"
  | greaterEquals => "GreaterEquals"
  | lessEquals => "LessEquals"
  | notEqual => "NotEqual"
  | equals => "Equals"
  | like => "Like"
  | likeStart => "LikeStart"
  | likeEnd => "LikeEnd"
  | inList => "In"
  | notInList => "NotIn"
  | excludeIn => "ExcludeIn"
  | excludeLike => "ExcludeLike"
  | jsonLike => "JsonLike"
  | jsonContains => "JsonContains"
  | jsonArrayContainsAny => "JsonArrayContainsAnyIgnoreCase"

def wireName (o : Operation) : String := Text.screamingSnake o.variant

end Operation

namespace Criterion

def member (name : String) : Option Json → List (String × Json)
  | none => []
  | some v => [(name, v)]

def listMember (name : String) : List Json → List (String × Json)
  | [] => []
  | items => [(name, .array items)]

mutual
def toJson : Criterion → Json
  | ⟨key, operation, operand, allOf, anyOf, label⟩ =>
    .object (member "alias" (label.map .text) ++ listMember "and" (toJsonAll allOf) ++
      [("key", .text key), ("operation", .text operation.wireName)] ++
      listMember "or" (toJsonAll anyOf) ++ [("value", operand.toJson)])
def toJsonAll : List Criterion → List Json
  | [] => []
  | c :: cs => toJson c :: toJsonAll cs
end

end Criterion

/-- A forest goes as an array of its criteria. -/
def Forest.toJson (forest : Forest) : Json := .array (Criterion.toJsonAll forest)

end EntitySearch
