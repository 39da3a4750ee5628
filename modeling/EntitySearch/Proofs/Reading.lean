import EntitySearch.Proofs.Truth
import EntitySearch.Selection
import Mathlib.Logic.Function.Basic
/-!
How a selection is read over rows. Every table instance of the statement is given one row; joins
and the condition are then judged by the three truth values, and only `yes` counts.
-/
namespace EntitySearch
open Sql

namespace Sql

/-- The value of each column; `none` is NULL. -/
abbrev Row (κ : Type) := String → Option κ

/-- The rows of every table. -/
abbrev Tables (κ : Type) := String → List (Row κ)

/-- What a database makes of values that are not NULL. Documents are left to it altogether. -/
structure Engine (κ : Type) where
  same : κ → κ → Bool
  same_comm : ∀ x y, same x y = same y x
  compare : κ → Value → Ordering
  like : κ → String → Bool
  document : Option κ → List String → DocumentTest → Truth

def Comparison.holds : Comparison → Ordering → Bool
  | equal, o => o.isEq
  | notEqual, o => o.isNe
  | less, o => o.isLT
  | greater, o => o.isGT
  | lessEqual, o => o.isLE
  | greaterEqual, o => o.isGE

variable {κ : Type} (e : Engine κ)

namespace Engine

/-- Two columns set equal. -/
def linked : Option κ → Option κ → Truth
  | some x, some y => .ofBool (e.same x y)
  | _, _ => .unknown

def compared (op : Comparison) (v : Value) : Option κ → Truth
  | some x => .ofBool (op.holds (e.compare x v))
  | none => .unknown

theorem linked_comm (x y : Option κ) : e.linked x y = e.linked y x := by
  cases x <;> cases y <;> simp [linked, e.same_comm]

end Engine

/-- A list of values is as good as one equality for each of them joined by OR, or one inequality
for each joined by AND. -/
def ColumnTest.truth (x : Option κ) : ColumnTest → Truth
  | compare op v => e.compared op v x
  | within vs => Junction.any.fold (vs.map fun v => e.compared .equal v x)
  | outside vs => Junction.all.fold (vs.map fun v => e.compared .notEqual v x)
  | like pattern => x.elim .unknown fun x => .ofBool (e.like x pattern)

/-- A row of another table counts against a row if the linked columns are equal and the test is
passed. -/
def Related.counts (r : Related) (row other : Row κ) : Bool :=
  e.linked (other r.key) (row r.owner.name) ⊓ r.test.truth e (other r.column) = .yes

/-- The truth of a test where `a` gives the row of every table instance by its name. Within a
sub-query its own name stands for the row that is tried. -/
def Predicate.truth (db : Tables κ) (a : String → Row κ) : Predicate → Truth
  | constant truth => .ofBool truth
  | column c test => test.truth e (a c.table c.name)
  | document c path test => e.document (a c.table c.name) path test
  | noneRelated r => .ofBool <| !(db r.table).any fun other =>
      let a := Function.update a r.name other
      r.counts e (a r.owner.table) (a r.name)

namespace Condition

mutual
def predicates : Condition → List Predicate
  | test p => [p]
  | group _ parts => predicatesAll parts
def predicatesAll : List Condition → List Predicate
  | [] => []
  | c :: cs => predicates c ++ predicatesAll cs
end

theorem predicatesAll_eq_flatMap (cs : List Condition) :
    predicatesAll cs = cs.flatMap predicates := by
  induction cs with
  | nil => rfl
  | cons c cs ih => simp [predicatesAll, ih]

@[simp] theorem predicates_group (j : Junction) (parts : List Condition) :
    (group j parts).predicates = parts.flatMap predicates := by
  rw [predicates, predicatesAll_eq_flatMap]

@[simp] theorem predicates_test (p : Predicate) : (test p).predicates = [p] := by
  rw [predicates]

@[simp] theorem predicates_unwrap (c : Condition) : c.unwrap.predicates = c.predicates := by
  unfold unwrap
  split <;> simp

@[simp] theorem predicates_gather (j : Junction) (cs : List Condition) :
    (gather j cs).predicates = cs.flatMap predicates := by
  simp [gather, List.flatMap_map]

@[simp] theorem predicates_ofPredicate (p : Predicate) : (ofPredicate p).predicates = [p] := by
  simp [ofPredicate]

end Condition

/-- The name that a test gives to the table of its sub-query. -/
def Predicate.ownName? : Predicate → Option String
  | noneRelated r => some r.name
  | _ => none

def Condition.subqueryNames (c : Condition) : List String :=
  c.predicates.filterMap Predicate.ownName?

end Sql

variable {κ : Type} (e : Engine κ) (db : Tables κ) (a : String → Row κ)

/-- The row of a join is one of its table and linked to the row that it goes on from. -/
def Join.Fits (j : Join) : Prop :=
  a j.name ∈ db j.table ∧
    e.linked (a j.link.1.table j.link.1.name) (a j.link.2.table j.link.2.name) = .yes

namespace Selection

/-- The names that a selection gives to table instances. -/
def names (s : Selection) : List String :=
  s.joins.map Join.name ++ s.condition.elim [] Condition.subqueryNames

/-- Rows for all table instances that satisfy the joins and hold `row` at the root. -/
structure Fits (s : Selection) (root : String) (row : Row κ) : Prop where
  root_eq : a root = row
  joins : ∀ j ∈ s.joins, j.Fits e db a

def Holds (s : Selection) : Prop := ∀ c ∈ s.condition, c.value (Predicate.truth e db a) = .yes

theorem holds_some {c : Condition} {joins : List Join} :
    (Selection.mk (some c) joins).Holds e db a ↔ c.value (Predicate.truth e db a) = .yes := by
  simp [Holds]

/-- A row of the root table is selected if some rows for the joins make the condition true. -/
def Selects (s : Selection) (root : String) (row : Row κ) : Prop :=
  row ∈ db root ∧ ∃ a, s.Fits e db a root row ∧ s.Holds e db a

end Selection
end EntitySearch
