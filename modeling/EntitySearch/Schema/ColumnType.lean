import EntitySearch.Schema
/-!
Entities described by the columns of their tables.
-/
namespace EntitySearch

/-- The column types of SQL databases. -/
inductive ColumnType
  | char | string | text | blob
  | tinyInteger | smallInteger | integer | bigInteger
  | tinyUnsigned | smallUnsigned | unsigned | bigUnsigned
  | float | double | decimal | money
  | dateTime | timestamp | timestampWithTimeZone | time | date | year | interval
  | binary | varBinary | bit | varBit | boolean
  | json | jsonBinary | uuid
  | enum (e : EnumType)
  | array | vector | cidr | inet | macAddress | labelTree
  | custom
  deriving DecidableEq

/-- The type that an attribute over such a column has; unless noted it is text. -/
def ColumnType.attributeType : ColumnType → AttributeType
  | .tinyInteger | .smallInteger | .integer | .bigInteger
  | .tinyUnsigned | .smallUnsigned | .unsigned | .bigUnsigned => .integer
  | .float | .double | .decimal | .money => .float
  | .boolean => .boolean
  | .dateTime | .timestamp | .timestampWithTimeZone | .date | .time => .timestamp
  | .uuid => .uuid
  | .json | .jsonBinary => .json
  | .enum e => .enum e
  | _ => .text

/-- A table column with its type. -/
structure TableColumn where
  name : String
  type : ColumnType
  deriving DecidableEq

/-- Every column becomes an attribute of its name. The primary key counts where it is a column. -/
def Entity.ofColumns (name table : String) (primaryKey : Option String)
    (columns : List TableColumn) : Entity :=
  let key := (primaryKey.filter fun k => columns.any fun c => c.name == k).getD "id"
  columns.foldl (fun e c => e.withAttribute ⟨c.name, c.name, c.type.attributeType⟩)
    { Entity.new name table with primaryKey := key }

end EntitySearch
