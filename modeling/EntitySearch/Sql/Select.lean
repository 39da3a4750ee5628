import EntitySearch.Selection
import EntitySearch.Sort
/-!
Statements that read rows.
-/
namespace EntitySearch.Sql

/-- What a statement yields for a row. -/
inductive Item
  | one
  | column (c : Column)
  deriving DecidableEq

structure Select where
  distinct : Bool
  items : List Item
  table : Option String
  joins : List Join
  condition : Option Condition
  order : List ColumnOrder
  limit : Option UInt64
  offset : Option UInt64

namespace Select

def ofTable (table : String) (items : List Item) : Select :=
  ⟨false, items, some table, [], none, [], none, none⟩

/-- `1` for the one row there is without a table, if a condition holds. -/
def whether (c : Condition) : Select := ⟨false, [.one], none, [], some c, [], none, none⟩

/-- Adds the joins and the condition of a selection to a statement over the root table. Joins may
repeat root rows, which then count once. -/
def restrict (q : Select) (s : Selection) : Select :=
  { q with
    distinct := q.distinct || !s.joins.isEmpty
    joins := q.joins ++ s.joins
    condition := Option.merge Condition.both q.condition s.condition }

variable (backend : Backend)

def itemFragment : Item → Fragment
  | .one => [.text "1"]
  | .column c => c.fragment backend

def joinFragment (j : Join) : Fragment :=
  .text (" INNER JOIN " ++ quoteName backend j.table ++ " AS " ++ quoteName backend j.name ++
    " ON ") :: linkFragment backend j.link.1 j.link.2

def orderFragment (o : ColumnOrder) : Fragment :=
  o.column.fragment backend ++ [.text (" " ++ o.direction.keyword)]

/-- A clause that may be missing. -/
def clause {α : Type} (word : String) (f : α → Fragment) : Option α → Fragment
  | none => []
  | some a => .text word :: f a

def fragment (q : Select) : Fragment :=
  .text (if q.distinct then "SELECT DISTINCT " else "SELECT ") ::
    Fragment.joined ", " (q.items.map (itemFragment backend)) ++
    clause " FROM " (fun t => [.text (quoteName backend t)]) q.table ++
    q.joins.flatMap (joinFragment backend) ++
    clause " WHERE " (Condition.fragment backend) q.condition ++
    (if q.order.isEmpty then [] else
      .text " ORDER BY " :: Fragment.joined ", " (q.order.map (orderFragment backend))) ++
    clause " LIMIT " (fun n => [.bind (.uint64 n)]) q.limit ++
    clause " OFFSET " (fun n => [.bind (.uint64 n)]) q.offset

end Select

/-- A statement for a database. -/
inductive Statement
  | rows (q : Select)
  | count (q : Select)

def Statement.fragment (backend : Backend) : Statement → Fragment
  | rows q => q.fragment backend
  | count q =>
    .text "SELECT COUNT(*) AS num_items FROM (" :: q.fragment backend ++
      [.text (") AS " ++ quoteName backend "sub_query")]

end EntitySearch.Sql
