import EntitySearch.Criterion
import EntitySearch.Instant.Rfc3339
import EntitySearch.Resolve
import EntitySearch.Sql.Condition
/-!
Single criteria, without their children: the joins they need and the test they make.
-/
namespace EntitySearch
open Sql

/-- What one criterion asks for: hops to join from the root, a number for a sub-query, and its
condition, given the name of the table instance at the end of the hops and that number. -/
structure Plan where
  hops : List Hop
  numbered : Bool
  condition : Except SearchError (String → Nat → Condition)

def Plan.refuse (e : SearchError) : Plan := ⟨[], false, .error e⟩

namespace Criterion

def shapeError (c : Criterion) (expected : Shape) : SearchError := .wrongShape c.operation expected

/-- The instant that the text of an operand names. -/
def instantOf (c : Criterion) (text : String) : Except SearchError Value :=
  match Instant.read? text with
  | some t => .ok (.instant t)
  | none => .error (.wrongType c.key "RFC 3339 timestamp" text)

/-- Instants are ordered as such, everything else by its text. -/
def orderingValue (c : Criterion) (type : AttributeType) : Except SearchError Value :=
  match type, c.operand with
  | _, .instant t => .ok (.instant t)
  | .timestamp, .text s => c.instantOf s
  | _, v =>
    match v.text? with
    | some s => .ok (.text s)
    | none => .error (c.shapeError .scalar)

/-- The operand as a value of the attribute's type. -/
def typedValue (c : Criterion) (type : AttributeType) : Except SearchError Value :=
  match type, c.operand with
  | .enum e, .text s | .enum e, .enumerant s =>
    match e.member? s with
    | some member => .ok (.text member)
    | none => .error (.wrongType c.key e.name s)
  | .timestamp, .text s => c.instantOf s
  | .uuid, .text s =>
    match Uuid.read? s with
    | some u => .ok (.uuid u)
    | none => .error (.wrongType c.key "UUID" s)
  | _, v =>
    match Value.ofOperand? v with
    | some v => .ok v
    | none => .error (.wrongShape .equals .scalar)

/-- Behind a relationship or inside a document only instants are read by type. -/
def equalityValue (c : Criterion) (p : Spot) : Except SearchError Value :=
  if p.isRootAttribute || p.type = .timestamp then c.typedValue p.type
  else match Value.ofOperand? c.operand with
    | some v => .ok v
    | none => .error (c.shapeError .scalar)

/-- The elements of a list operand. -/
def listValues (c : Criterion) : Except SearchError (List Value) :=
  match c.operand.items? with
  | none => .error (c.shapeError .sequence)
  | some items =>
    items.mapM fun v =>
      match Value.ofOperand? v with
      | some v => .ok v
      | none => .error (c.shapeError .sequence)

def textValue (c : Criterion) : Except SearchError String :=
  match c.operand.asText? with
  | some s => .ok s
  | none => .error (c.shapeError .text)

/-- The path inside a document that the key must have. -/
def neededPath (c : Criterion) (p : Spot) : Except SearchError (List String) :=
  match p.path with
  | some path => .ok path
  | none => .error (.unresolved c.key (.needsDocumentPath c.operation))

/-- What is said of an operation that comes to where it is not provided for. -/
def unsupported (c : Criterion) : SearchError := .unknownOperation c.operation.name

/-- The pattern for a text, literal but for where it may go on. -/
def patternOf (c : Criterion) (text : String) : Except SearchError String :=
  match c.operation with
  | .like | .excludeLike => .ok (containing text)
  | .likeStart => .ok (startingWith text)
  | .likeEnd => .ok (endingWith text)
  | _ => .error c.unsupported

/-- What no related row may pass; with no test nothing is excluded. -/
def exclusionTest (c : Criterion) : Except SearchError (Option ColumnTest) :=
  match c.operation with
  | .excludeIn => c.listValues.map fun vs => if vs.isEmpty then none else some (.within vs)
  | .excludeLike => do
    let text ← c.textValue
    let pattern ← c.patternOf text
    .ok (some (.like pattern))
  | _ => .error c.unsupported

/-- A test of the document at the path of the key. -/
def documentTest (c : Criterion) (p : Spot) (test : Except SearchError DocumentTest) :
    Except SearchError (Column → Condition) := do
  let path ← c.neededPath p
  let test ← test
  .ok fun column => .ofPredicate (.document column path test)

/-- Any element may match; without a path the column itself holds the array. -/
def elementTests (c : Criterion) (p : Spot) : Except SearchError (Column → Condition) :=
  match c.operand.items? with
  | none => .error (c.shapeError .sequence)
  | some [] => .ok fun _ => .ofPredicate (.constant false)
  | some items => do
    let needles ← items.mapM fun v =>
      match v.text? with
      | some s => .ok s
      | none => .error (c.shapeError .sequence)
    .ok fun column => .group .any (needles.map fun needle =>
      .test (.document column (p.path.getD []) (.holdsElement needle)))

end Criterion

namespace Scope
variable (s : Scope) (c : Criterion)

/-- A condition on the spot that the key addresses. -/
def onSpot (build : Spot → Except SearchError (Column → Condition)) : Plan :=
  let l := s.spot c.key
  ⟨l.hops, false, do
    let p ← l.result c.key
    let f ← build p
    .ok fun table _ => f ⟨table, p.column⟩⟩

def planColumn (build : Spot → Except SearchError ColumnTest) : Plan :=
  s.onSpot c fun p => do
    let test ← build p
    .ok fun column => .ofPredicate (.column column test)

def planOrdering : Plan :=
  s.planColumn c fun p => do
    let v ← c.orderingValue p.type
    match c.operation with
    | .greater => .ok (.compare .greater v)
    | .less => .ok (.compare .less v)
    | .greaterEquals => .ok (.compare .greaterEqual v)
    | .lessEquals => .ok (.compare .lessEqual v)
    | _ => .error c.unsupported

def planEquality : Plan :=
  s.planColumn c fun p => do
    let v ← c.equalityValue p
    match c.operation with
    | .equals => .ok (.compare .equal v)
    | .notEqual => .ok (.compare .notEqual v)
    | _ => .error c.unsupported

/-- The operand is read before the key. -/
def planLike : Plan :=
  match c.textValue with
  | .error e => .refuse e
  | .ok text =>
    match c.patternOf text with
    | .error e => .refuse e
    | .ok pattern => s.planColumn c fun _ => .ok (.like pattern)

/-- The operand is read before the key. Membership in an empty list is settled without the
column. -/
def planMembership : Plan :=
  match c.listValues with
  | .error e => .refuse e
  | .ok values => s.onSpot c fun _ =>
    match c.operation, values.isEmpty with
    | .inList, true => .ok fun _ => .ofPredicate (.constant false)
    | .notInList, true => .ok fun _ => .ofPredicate (.constant true)
    | .inList, false => .ok fun column => .ofPredicate (.column column (.within values))
    | .notInList, false => .ok fun column => .ofPredicate (.column column (.outside values))
    | _, _ => .error c.unsupported

/-- The absence of related rows that pass a test. The sub-query takes its number once the key is
resolved. -/
def planAbsence (test : Except SearchError (Option ColumnTest)) : Plan :=
  let l := s.collection c.key
  ⟨l.hops, l.found.isOk, do
    let related ← l.result c.key
    let test ← test
    .ok fun owner n =>
      match test with
      | none => .ofPredicate (.constant true)
      | some test =>
        let r := related.relationship
        .ofPredicate (.noneRelated ⟨related.table, s!"{r.name}_sub{n}", r.destination,
          ⟨owner, r.source⟩, related.column, test⟩)⟩

def planExclusion : Plan := s.planAbsence c c.exclusionTest

def planDocument : Plan :=
  s.onSpot c fun p =>
    match c.operation with
    | .jsonLike => c.documentTest p (c.textValue.map .holdsText)
    | .jsonContains => c.documentTest p (match c.operand.text? with
        | some text => .ok (.holdsValue text)
        | none => .error (c.shapeError .scalar))
    | .jsonArrayContainsAny => c.elementTests p
    | _ => .error c.unsupported

/-- The plan for one criterion, its children left aside. -/
def plan : Plan :=
  if c.operand.hasShape c.operation.shape then
    match c.operation with
    | .greater | .less | .greaterEquals | .lessEquals => s.planOrdering c
    | .equals | .notEqual => s.planEquality c
    | .like | .likeStart | .likeEnd => s.planLike c
    | .inList | .notInList => s.planMembership c
    | .excludeIn | .excludeLike => s.planExclusion c
    | .jsonLike | .jsonContains | .jsonArrayContainsAny => s.planDocument c
  else .refuse (c.shapeError c.operation.shape)

end Scope

/-- What the criteria compiled so far have asked for. -/
structure Pass where
  joins : JoinTable
  subqueries : Nat
  deriving DecidableEq

def Pass.empty : Pass := ⟨.empty, 0⟩

/-- Makes the joins of a plan and gives its condition. A plan that fails keeps its joins. -/
def Scope.carryOut (s : Scope) (label : Option String) (plan : Plan) (pass : Pass) :
    Except SearchError Condition × Pass :=
  let (joins, place) := pass.joins.follow s.root.table label 0 plan.hops
  let subqueries := pass.subqueries + if plan.numbered then 1 else 0
  (plan.condition.map fun f => f (joins.nameAt s.root.table place) subqueries, ⟨joins, subqueries⟩)

/-- Compiles one criterion, its children left aside. -/
def Scope.leaf (s : Scope) (c : Criterion) (pass : Pass) : Except SearchError Condition × Pass :=
  s.carryOut c.label (s.plan c) pass

end EntitySearch
