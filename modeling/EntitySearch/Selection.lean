import EntitySearch.Leaf
/-!
Forests of criteria compiled into one condition over the root table and the joins it refers to.
-/
namespace EntitySearch
open Sql

namespace Scope
variable (s : Scope)

/-- A condition together with the criteria that refine it, if there are any. -/
def refine (j : Junction) (own : Condition) : List Condition → Condition
  | [] => own
  | parts => .gather j [own, .gather j parts]

mutual
/-- `(own and all of allOf) or any of anyOf`; the first failure stops everything. -/
def criterion : Criterion → Pass → Except SearchError Condition × Pass
  | ⟨key, operation, operand, allOf, anyOf, label⟩, pass =>
    match s.leaf ⟨key, operation, operand, allOf, anyOf, label⟩ pass with
    | (.error e, pass) => (.error e, pass)
    | (.ok own, pass) =>
      match siblings allOf pass with
      | (.error e, pass) => (.error e, pass)
      | (.ok needed, pass) =>
        match siblings anyOf pass with
        | (.error e, pass) => (.error e, pass)
        | (.ok others, pass) => (.ok (refine .any (refine .all own needed) others), pass)

/-- The conditions of criteria compiled one after the other. -/
def siblings : List Criterion → Pass → Except SearchError (List Condition) × Pass
  | [], pass => (.ok [], pass)
  | c :: cs, pass =>
    match criterion c pass with
    | (.error e, pass) => (.error e, pass)
    | (.ok condition, pass) =>
      match siblings cs pass with
      | (.error e, pass) => (.error e, pass)
      | (.ok conditions, pass) => (.ok (condition :: conditions), pass)
end

/-- Criteria joined into one condition; no criteria make none. -/
def compose (j : Junction) (cs : List Criterion) (pass : Pass) :
    Except SearchError (Option Condition) × Pass :=
  match s.siblings cs pass with
  | (.error e, pass) => (.error e, pass)
  | (.ok [], pass) => (.ok none, pass)
  | (.ok conditions, pass) => (.ok (some (.gather j conditions)), pass)

end Scope

/-- The root rows that a search selects. -/
structure Selection where
  condition : Option Condition
  joins : List Join

namespace Selection

/-- Every row. -/
def identity : Selection := ⟨none, []⟩

def isIdentity (s : Selection) : Bool := s.condition.isNone

end Selection

namespace Scope

def ofEntity? (g : Registry) (name : String) : Except SearchError Scope :=
  match g.get? name with
  | some root => .ok ⟨g, root⟩
  | none => .error (.unresolved name .unregisteredRoot)

/-- Compiles a forest, whose criteria must all hold. -/
def compile (s : Scope) (forest : Forest) : Except SearchError Selection :=
  match s.compose .all forest .empty with
  | (.error e, _) => .error e
  | (.ok condition, pass) => .ok ⟨condition, pass.joins.joins⟩

end Scope
end EntitySearch
