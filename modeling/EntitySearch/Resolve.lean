import EntitySearch.Join
import EntitySearch.Key
import EntitySearch.SearchError
/-!
Where keys point. A key is looked up among the registered entities first, which gives the hops to
make and what lies at their end; the joins for the hops are made afterwards.
-/
namespace EntitySearch

/-- The entity that is searched, among the registered ones. -/
structure Scope where
  registry : Registry
  root : Entity

/-- The hops that can be made for a key, and what is found behind them or why nothing is. -/
structure Lookup (α : Type) where
  hops : List Hop
  found : Except KeyFault α

/-- A column of the entity that the hops lead to; `path` leads on inside its document. -/
structure Spot where
  column : String
  type : AttributeType
  traversed : Bool
  path : Option (List String)
  deriving DecidableEq

/-- An attribute of the searched entity itself; its type decides how operands are read. -/
def Spot.isRootAttribute (p : Spot) : Bool := !p.traversed && p.path.isNone

/-- The last relationship of a key, not hopped over, and a column behind it. -/
structure Collection where
  relationship : Relationship
  table : String
  column : String
  deriving DecidableEq

def Entity.find (e : Entity) (name : String) : Except KeyFault Attribute :=
  match e.attribute? name with
  | some a => .ok a
  | none => .error (.noAttribute name e.name)

def Registry.hop (g : Registry) (e : Entity) (name : String) : Except KeyFault Hop :=
  match e.relationship? name with
  | none => .error (.noRelationship name e.name)
  | some r =>
    match g.get? r.target with
    | none => .error (.unregisteredTarget r.name r.target)
    | some target => .ok ⟨r, target⟩

/-- Hops along a chain of relationships, and the entity reached. -/
def Registry.walk (g : Registry) (e : Entity) : List String → Lookup Entity
  | [] => ⟨[], .ok e⟩
  | name :: names =>
    match g.hop e name with
    | .error fault => ⟨[], .error fault⟩
    | .ok hop =>
      let rest := walk g hop.target names
      ⟨hop :: rest.hops, rest.found⟩

namespace Scope
variable (s : Scope)

def documentSpot (column : String) (path : List String) : Except KeyFault Spot :=
  if column.toList.contains '.' then .error .documentOnRelated
  else do
    let a ← s.root.find column
    if path.any Text.blank then .error .emptyDocumentSegment
    else .ok ⟨a.column, a.type, false, some path⟩

/-- The spot at the end of a chain of relationships and an attribute. -/
def chainSpot (segments : List String) : Lookup Spot :=
  if segments.any Text.blank then ⟨[], .error .emptySegment⟩
  else
    let relationships := segments.dropLast
    let walked := s.registry.walk s.root relationships
    ⟨walked.hops, do
      let e ← walked.found
      let a ← e.find (segments.getLastD "")
      .ok ⟨a.column, a.type, !relationships.isEmpty, none⟩⟩

def spot (key : String) : Lookup Spot :=
  match Key.ofText key with
  | .document column path => ⟨[], s.documentSpot column path⟩
  | .chain segments => s.chainSpot segments

/-- The collection that a key addresses: its hops stop short of the last relationship. -/
def collection (key : String) : Lookup Collection :=
  match Key.ofText key with
  | .document .. => ⟨[], .error .excludesDocument⟩
  | .chain segments =>
    let relationships := segments.dropLast
    if segments.any Text.blank then ⟨[], .error .emptySegment⟩
    else if relationships.isEmpty then ⟨[], .error .excludesWithoutRelationship⟩
    else
      let walked := s.registry.walk s.root relationships.dropLast
      ⟨walked.hops, do
        let e ← walked.found
        let hop ← s.registry.hop e (relationships.getLastD "")
        let a ← hop.target.find (segments.getLastD "")
        .ok ⟨hop.relationship, hop.target.table, a.column⟩⟩

/-- The joins for a lookup, and the name of the table instance at the end of its hops. -/
def place {α : Type} (label : Option String) (l : Lookup α) (t : JoinTable) : String × JoinTable :=
  let (t, place) := t.follow s.root.table label 0 l.hops
  (t.nameAt s.root.table place, t)

end Scope

/-- What was found, or that the key cannot be resolved. -/
def Lookup.result {α : Type} (l : Lookup α) (key : String) : Except SearchError α :=
  l.found.mapError (.unresolved key)

namespace Scope
variable (s : Scope)

/-- What a key's lookup found, with the table instance that its hops lead to. The joins for the
hops that can be made are made also where nothing is found. -/
def reach {α : Type} (key : String) (label : Option String) (l : Lookup α) (t : JoinTable) :
    Except SearchError (String × α) × JoinTable :=
  let (name, t) := s.place label l t
  ((l.result key).map fun a => (name, a), t)

/-- Resolves a key to a field of a table instance. -/
def resolve (key : String) (label : Option String) (t : JoinTable) :
    Except SearchError (String × Spot) × JoinTable :=
  s.reach key label (s.spot key) t

/-- Resolves a key to a collection and the table instance that owns it. -/
def resolveCollection (key : String) (label : Option String) (t : JoinTable) :
    Except SearchError (String × Collection) × JoinTable :=
  s.reach key label (s.collection key) t

end Scope
end EntitySearch
