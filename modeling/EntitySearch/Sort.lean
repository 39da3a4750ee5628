import EntitySearch.Issue
import EntitySearch.Json.Reader
import EntitySearch.Selection
import EntitySearch.Text.Blank
import EntitySearch.Text.Capital
import EntitySearch.Text.Split
/-!
Requested orderings, as text and resolved to columns.
-/
namespace EntitySearch

inductive Direction | ascending | descending
  deriving DecidableEq, Repr

def Direction.keyword : Direction → String
  | ascending => "ASC"
  | descending => "DESC"

/-- Letter case and white space around the word do not count. -/
def Direction.ofText? (s : String) : Option Direction :=
  let word := Text.trim s
  if Text.spells "ASC" word then some .ascending
  else if Text.spells "DESC" word then some .descending
  else none

def Direction.unknown (s : String) : String := s!"Unknown sort direction '{s}'"

structure SortOrder where
  property : String
  direction : Direction
  deriving DecidableEq, Repr

namespace SortOrder

def issue (message : String) : Issue := ⟨"sort", message⟩

def form : String := "Expected [\"property\", \"ASC|DESC\"]"

def ofParts (property : String) (direction : Option String) : Except Issue SortOrder :=
  let property := Text.trim property
  if property.isEmpty then .error (issue "Sort property must not be blank")
  else match direction with
    | none => .ok ⟨property, .ascending⟩
    | some text =>
      match Direction.ofText? text with
      | some d => .ok ⟨property, d⟩
      | none => .error (issue (Direction.unknown text))

/-- A JSON array of a property and perhaps a direction. -/
def ofJsonText (text : String) : Except Issue SortOrder :=
  match Json.read? text with
  | some (.array items) =>
    match items.mapM fun | .text s => some s | _ => none with
    | some [property] => ofParts property none
    | some [property, direction] => ofParts property (some direction)
    | some _ => .error (issue form)
    | none => .error (issue (form ++ ": not an array of strings"))
  | _ => .error (issue (form ++ ": not an array of strings"))

/-- `property` or `property,direction`. -/
def ofEntry (entry : String) : Except Issue SortOrder :=
  match Text.cut "," entry with
  | some (property, direction) => ofParts property (some direction)
  | none => ofParts entry none

/-- Entries between semicolons, blank ones passed over, or one JSON array. -/
def listOfText (text : String) : Except Issue (List SortOrder) :=
  let text := Text.trim text
  if text.isEmpty then .ok []
  else if text.toList.head? == some '[' then (ofJsonText text).map fun o => [o]
  else ((Text.parts ';' text).filter fun entry => !Text.blank entry).mapM ofEntry

end SortOrder

/-- A column to order by. -/
structure ColumnOrder where
  column : Sql.Column
  direction : Direction
  deriving DecidableEq, Repr

/-- The columns for requested orderings, the primary key where none are requested. -/
def Scope.ordering (s : Scope) : List SortOrder → Except SearchError (List ColumnOrder)
  | [] => .ok [⟨⟨s.root.table, s.root.primaryKey⟩, .ascending⟩]
  | orders => orders.mapM fun o =>
    match s.root.attribute? o.property with
    | some a => .ok ⟨⟨s.root.table, a.column⟩, o.direction⟩
    | none => .error (.unresolved o.property (.notSortable o.property s.root.name))

end EntitySearch
