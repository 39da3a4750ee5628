import EntitySearch.Schema
import EntitySearch.Sql.Predicate
/-!
Inner joins of a statement. Criteria that cross one relationship from one place under one label
share its join.
-/
namespace EntitySearch

/-- A relationship crossed, and the entity it leads to. -/
structure Hop where
  relationship : Relationship
  target : Entity
  deriving DecidableEq

/-- A place is the root (0) or a join, counted from 1. -/
abbrev Place := Nat

structure Join where
  id : Place
  parent : Place
  parentName : String
  relationship : Relationship
  table : String
  name : String
  deriving DecidableEq

/-- The columns that a join sets equal. -/
def Join.link (j : Join) : Sql.Column × Sql.Column :=
  (⟨j.parentName, j.relationship.source⟩, ⟨j.name, j.relationship.destination⟩)

/-- A join and the label it was asked for under. -/
structure JoinEntry where
  label : Option String
  join : Join
  deriving DecidableEq

/-- The joins made so far, in order. -/
structure JoinTable where
  entries : List JoinEntry
  deriving DecidableEq

namespace JoinTable

def empty : JoinTable := ⟨[]⟩

def joins (t : JoinTable) : List Join := t.entries.map JoinEntry.join

def size (t : JoinTable) : Nat := t.entries.length

def find? (t : JoinTable) (parent : Place) (relationship : String) (label : Option String) :
    Option JoinEntry :=
  t.entries.find? fun e =>
    e.join.parent == parent && e.join.relationship.name == relationship && e.label == label

/-- The name of the table instance at a place. -/
def nameAt (root : String) (t : JoinTable) : Place → String
  | 0 => root
  | n + 1 => (t.entries[n]?).elim root fun e => e.join.name

/-- The join for one hop: the one made for it before, or a new one at the end. -/
def cross (root : String) (label : Option String) (t : JoinTable) (place : Place) (hop : Hop) :
    JoinTable × Place :=
  match t.find? place hop.relationship.name label with
  | some e => (t, e.join.id)
  | none =>
    let id := t.size + 1
    let name := s!"{hop.relationship.name}_{id}"
    let join := ⟨id, place, t.nameAt root place, hop.relationship, hop.target.table, name⟩
    (⟨t.entries ++ [⟨label, join⟩]⟩, id)

/-- The joins for a chain of hops, and the place it ends at. -/
def follow (root : String) (label : Option String) :
    JoinTable → Place → List Hop → JoinTable × Place
  | t, place, [] => (t, place)
  | t, place, hop :: hops =>
    let (t, place) := t.cross root label place hop
    follow root label t place hops

end JoinTable
end EntitySearch
