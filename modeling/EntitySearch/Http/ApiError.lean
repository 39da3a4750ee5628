import EntitySearch.Json
import EntitySearch.SearchError
/-!
Errors as callers see them: a status and a message without internal detail.
-/
namespace EntitySearch.Http

inductive ApiError
  | badRequest (message : String)
  | validationFailed (details : List String)
  | database (e : StorageError)
  | internal (message : String) (details : Option String)
  deriving DecidableEq, Repr

namespace ApiError

def status : ApiError → Nat
  | badRequest _ => 400
  | validationFailed _ => 422
  | database _ | internal .. => 500

def message : ApiError → String
  | badRequest message | internal message _ => message
  | validationFailed [detail] => detail
  | validationFailed details => "Validation failed: " ++ ", ".intercalate details
  | database _ => "A database error occurred"

def body : ApiError → Json
  | validationFailed details =>
    .object [("details", .array (details.map .text)), ("error", .text "Validation failed")]
  | e => .object [("error", .text e.message)]

def ofIssues (issues : List Issue) : ApiError := validationFailed (issues.map Issue.text)

/-- Errors of the request keep their message. -/
def ofSearchError : SearchError → ApiError
  | .invalid issues => ofIssues issues
  | .storage e => database e
  | .unknownOperation name =>
    internal "Search could not be executed" (some (SearchError.unknownOperation name).message)
  | e => badRequest e.message

end ApiError
end EntitySearch.Http
