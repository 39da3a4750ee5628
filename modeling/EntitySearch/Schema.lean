import EntitySearch.Named
/-!
Searchable entities: their tables, the attributes a key may name and the relationships it may
cross.
-/
namespace EntitySearch

/-- A type with named members. -/
structure EnumType where
  name : String
  members : List String
  deriving DecidableEq, Repr

/-- The member spelled exactly so. -/
def EnumType.member? (e : EnumType) (text : String) : Option String :=
  e.members.find? (· == text)

inductive AttributeType
  | text | integer | float | boolean | timestamp | uuid | json
  | enum (e : EnumType)
  deriving DecidableEq, Repr

def AttributeType.isEnum : AttributeType → Bool
  | .enum _ => true
  | _ => false

structure Attribute where
  name : String
  column : String
  type : AttributeType
  deriving DecidableEq, Repr

inductive RelationKind | belongsTo | hasOne | hasMany
  deriving DecidableEq, Repr

/-- A way from one entity to another: rows are related when the first one's `source` column
equals the other one's `destination` column. -/
structure Relationship where
  name : String
  target : String
  kind : RelationKind
  source : String
  destination : String
  deriving DecidableEq, Repr

structure Entity where
  name : String
  table : String
  primaryKey : String
  attributes : List Attribute
  relationships : List Relationship
  deriving DecidableEq, Repr

namespace Entity

def new (name table : String) : Entity := ⟨name, table, "id", [], []⟩

def withAttribute (e : Entity) (a : Attribute) : Entity :=
  { e with attributes := Named.insert Attribute.name a e.attributes }

def withRelationship (e : Entity) (r : Relationship) : Entity :=
  { e with relationships := Named.insert Relationship.name r e.relationships }

def attribute? (e : Entity) (name : String) : Option Attribute :=
  Named.find? Attribute.name name e.attributes

def relationship? (e : Entity) (name : String) : Option Relationship :=
  Named.find? Relationship.name name e.relationships

@[simp] theorem attribute?_withAttribute (e : Entity) (a : Attribute) (n : String) :
    (e.withAttribute a).attribute? n = if a.name = n then some a else e.attribute? n :=
  Named.find?_insert ..

@[simp] theorem relationship?_withRelationship (e : Entity) (r : Relationship) (n : String) :
    (e.withRelationship r).relationship? n = if r.name = n then some r else e.relationship? n :=
  Named.find?_insert ..

theorem name_of_relationship? {e : Entity} {n : String} {r : Relationship}
    (h : e.relationship? n = some r) : r.name = n :=
  Named.name_of_find? Relationship.name h

end Entity

/-- The searchable entities, one a name. -/
structure Registry where
  entities : List Entity
  deriving DecidableEq, Repr

namespace Registry

def empty : Registry := ⟨[]⟩

def register (g : Registry) (e : Entity) : Registry := ⟨Named.insert Entity.name e g.entities⟩

def get? (g : Registry) (name : String) : Option Entity := Named.find? Entity.name name g.entities

def size (g : Registry) : Nat := g.entities.length

@[simp] theorem get?_register (g : Registry) (e : Entity) (n : String) :
    (g.register e).get? n = if e.name = n then some e else g.get? n :=
  Named.find?_insert ..

end Registry
end EntitySearch
