import EntitySearch.Storage
/-!
Searching: criteria are restricted, compiled and executed.
-/
namespace EntitySearch

/-- What can be searched. `restrict` adds mandatory criteria to those of the caller, or refuses, and
the caller then sees nothing; `present` is how records are shown. -/
structure Resource (ρ δ : Type) where
  registry : Registry
  entity : String
  restrict : Forest → PageRequest → Option Forest
  present : ρ → δ

/-- A resource whose records are in a table of a database. -/
structure SearchService (m : Type → Type) (ρ δ : Type) extends Resource ρ δ where
  database : Database m ρ
  table : RecordTable

/-- What is said of a search that a restriction refuses. -/
def noSearchResult : String := "no search result"

variable {m : Type → Type} [Monad m] {ρ δ : Type}

namespace Resource

/-- What there is to execute for criteria and an ordering. -/
def prepare (s : Resource ρ δ) (forest : Forest) (r : PageRequest) :
    Except SearchError (Selection × List ColumnOrder) := do
  let scope ← Scope.ofEntity? s.registry s.entity
  let selection ← scope.compile forest
  let ordering ← scope.ordering r.sort
  return (selection, ordering)

/-- The repository is asked only after everything that can fail before. -/
def findAll (s : Resource ρ δ) (repository : Repository m ρ) (forest : Forest) (r : PageRequest) :
    m (Except SearchError (Page δ)) := do
  match s.restrict forest r with
  | none => return .ok (.empty r)
  | some forest =>
    match s.prepare forest r with
    | .error e => return .error e
    | .ok (selection, ordering) =>
      match ← repository.findAll selection ordering r with
      | .error e => return .error (.storage e)
      | .ok page => return .ok (page.map s.present)

end Resource

namespace SearchService

def repository (s : SearchService m ρ δ) : Repository m ρ := s.database.repository s.table

def findAll (s : SearchService m ρ δ) (forest : Forest) (r : PageRequest) :
    m (Except SearchError (Page δ)) :=
  s.toResource.findAll s.repository forest r

end SearchService
end EntitySearch
