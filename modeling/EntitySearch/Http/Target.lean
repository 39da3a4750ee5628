import EntitySearch.Text.Split
/-!
Targets of requests: a path and a query, behind a scheme and an authority where the target is
absolute.
-/
namespace EntitySearch.Http

structure Target where
  path : String
  query : String
  deriving DecidableEq, Repr

namespace Target

/-- What follows the authority at the front of a text. -/
def afterAuthority (s : String) : String :=
  String.ofList (s.toList.dropWhile fun c => c != '/' && c != '?' && c != '#')

/-- The text without a scheme and an authority; what neither starts with a slash nor has a scheme
is an authority alone. -/
def relative (s : String) : String :=
  if s.toList.head? == some '/' then s
  else ((Text.cut "://" s).map fun (_, rest) => afterAuthority rest).getD ""

/-- A fragment does not count. The first question mark ends the path. -/
def ofText (s : String) : Target :=
  let s := relative s
  let s := ((Text.cut "#" s).map Prod.fst).getD s
  let (path, query) := (Text.cut "?" s).getD (s, "")
  ⟨path, query⟩

end Target
end EntitySearch.Http
