import EntitySearch.Criterion.Check
import EntitySearch.Http.ApiError
import EntitySearch.Http.MediaType
import EntitySearch.Http.Query
import EntitySearch.Http.Target
import EntitySearch.Service
/-!
The search route: `POST /search` with criteria in the body, paging and sorting in the query string.
-/
namespace EntitySearch.Http

structure Request where
  method : String
  target : Target
  contentType : Option String
  body : String

inductive Body
  | empty
  | text (s : String)
  | json (v : Json)

structure Response where
  status : Nat
  body : Body

namespace Response

def plain (status : Nat) (text : String) : Response := ⟨status, .text text⟩

def error (e : ApiError) : Response := ⟨e.status, .json e.body⟩

def contentType? (r : Response) : Option String :=
  match r.body with
  | .empty => none
  | .text _ => some "text/plain; charset=utf-8"
  | .json _ => some "application/json"

end Response

namespace Request

/-- The parameters and the body of a request, or the answer to one that has them not well formed. -/
def decode (r : Request) : Except Response (SearchParams × Json) :=
  match readQuery r.target.query with
  | .error fault => .error (.plain 400 ("Failed to deserialize query string: " ++ fault.message))
  | .ok params =>
    if (r.contentType.map MediaType.declaresJson).getD false then
      match Json.read? r.body with
      | some v => .ok (params, v)
      | none => .error (.plain 400 "Failed to parse the request body as JSON: malformed text")
    else .error (.plain 415 "Expected request with `Content-Type: application/json`")

end Request

def pageJson (p : Page Json) : Json :=
  .object [("content", .array p.content), ("page", .uint p.page), ("size", .uint p.size),
    ("totalElements", .uint p.totalElements), ("totalPages", .uint p.totalPages)]

variable {m : Type → Type} [Monad m] {ρ : Type}

/-- Answers a search whose parameters and body could be decoded. -/
def search (s : Resource ρ Json) (repository : Repository m ρ) (config : SearchConfig)
    (params : SearchParams) (body : Json) : m Response :=
  match params.pageRequest config with
  | .error issues => pure (.error (.ofIssues issues))
  | .ok r =>
    match Forest.ofJson body with
    | .error issues => pure (.error (.ofIssues issues))
    | .ok forest => do
      match ← s.findAll repository forest r with
      | .error e => return .error (.ofSearchError e)
      | .ok page => return ⟨200, .json (pageJson page)⟩

/-- Answers any request. -/
def serve (s : Resource ρ Json) (repository : Repository m ρ) (config : SearchConfig)
    (r : Request) : m Response :=
  if r.target.path ≠ "/search" then pure ⟨404, .empty⟩
  else if r.method ≠ "POST" then pure ⟨405, .empty⟩
  else match r.decode with
    | .error response => pure response
    | .ok (params, body) => search s repository config params body

def respond (s : SearchService m ρ Json) (config : SearchConfig) (r : Request) : m Response :=
  serve s.toResource s.repository config r

end EntitySearch.Http
