import EntitySearch.Sql.Fragment
/-!
The elementary tests of a condition and their SQL text.
-/
namespace EntitySearch.Sql

/-- A column of a table instance of the statement. -/
structure Column where
  table : String
  name : String
  deriving DecidableEq, Repr

inductive Comparison | equal | notEqual | less | greater | lessEqual | greaterEqual
  deriving DecidableEq, Repr

def Comparison.symbol : Comparison → String
  | equal => "="
  | notEqual => "<>"
  | less => "<"
  | greater => ">"
  | lessEqual => "<="
  | greaterEqual => ">="

/-- A test of one column. `like` takes a pattern whose escape character is the backslash. -/
inductive ColumnTest
  | compare (op : Comparison) (v : Value)
  | within (vs : List Value)
  | outside (vs : List Value)
  | like (pattern : String)
  deriving DecidableEq

inductive DocumentTest
  | holdsText (needle : String)
  | holdsValue (needle : String)
  | holdsElement (needle : String)
  deriving DecidableEq

/-- A correlated sub-query: rows of `table`, called `name`, whose `key` equals `owner`, and whose
`column` passes a test. -/
structure Related where
  table : String
  name : String
  key : String
  owner : Column
  column : String
  test : ColumnTest
  deriving DecidableEq

/-- `document` tests the JSON document in a column at a path. -/
inductive Predicate
  | constant (truth : Bool)
  | column (c : Column) (test : ColumnTest)
  | document (c : Column) (path : List String) (test : DocumentTest)
  | noneRelated (r : Related)
  deriving DecidableEq

/-- The escape character of patterns. -/
def likeEscape : Char := '\\'

def isWild (c : Char) : Bool := c == '%' || c == '_' || c == likeEscape

/-- Text as a pattern that matches only itself. -/
def escapeLike (s : String) : String :=
  String.ofList (s.toList.flatMap fun c => if isWild c then [likeEscape, c] else [c])

def containing (s : String) : String := "%" ++ escapeLike s ++ "%"
def startingWith (s : String) : String := escapeLike s ++ "%"
def endingWith (s : String) : String := "%" ++ escapeLike s

variable (backend : Backend)

def Column.fragment (c : Column) : Fragment :=
  [.text (quoteName backend c.table ++ "." ++ quoteName backend c.name)]

def bindList (vs : List Value) : Fragment :=
  .text "(" :: Fragment.joined ", " (vs.map fun v => [.bind v]) ++ [.text ")"]

def ColumnTest.fragment (c : Column) : ColumnTest → Fragment
  | compare op v => c.fragment backend ++ [.text (" " ++ op.symbol ++ " "), .bind v]
  | within vs => c.fragment backend ++ .text " IN " :: bindList vs
  | outside vs => c.fragment backend ++ .text " NOT IN " :: bindList vs
  | like pattern =>
    c.fragment backend ++ [.text " LIKE ", .bind (.text pattern), .text " ESCAPE ",
      .text (textLiteral backend likeEscape.toString)]

/-- Two columns set equal. -/
def linkFragment (a b : Column) : Fragment :=
  a.fragment backend ++ .text " = " :: b.fragment backend

/-- A path in a document: `{a,b}` for PostgreSQL, `$.a.b` elsewhere. -/
def pathText (path : List String) : String :=
  match backend with
  | .postgres => "\x7b" ++ ",".intercalate path ++ "\x7d"
  | _ => "$" ++ String.join (path.map fun segment => "." ++ segment)

def DocumentTest.fragment (c : Column) (path : List String) (test : DocumentTest) : Fragment :=
  let column := c.fragment backend
  let path := Piece.bind (.text (pathText backend path))
  let text (s : String) := Piece.bind (.text s)
  match test, backend with
  | holdsText needle, .postgres =>
    .text "(CAST(" :: column ++ [.text " AS jsonb) #>> CAST(", path, .text " AS text[])) ILIKE ",
      text (containing needle), .text " ESCAPE ", text likeEscape.toString]
  | holdsText needle, .mysql =>
    .text "LOWER(JSON_UNQUOTE(JSON_EXTRACT(" :: column ++ [.text ", ", path,
      .text "))) LIKE LOWER(", text (containing needle), .text ") ESCAPE ", text likeEscape.toString]
  | holdsText needle, .sqlite =>
    .text "LOWER(json_extract(" :: column ++ [.text ", ", path, .text ")) LIKE LOWER(",
      text (containing needle), .text ") ESCAPE ", text likeEscape.toString]
  | holdsValue needle, .postgres =>
    .text "(CAST(" :: column ++ [.text " AS jsonb) #> CAST(", path, .text " AS text[])) @> CAST(",
      text (Json.quote needle), .text " AS jsonb)"]
  | holdsValue needle, .mysql =>
    .text "JSON_CONTAINS(" :: column ++ [.text ", ", text (Json.quote needle), .text ", ", path,
      .text ") = 1"]
  | holdsValue needle, .sqlite =>
    .text "EXISTS (SELECT 1 FROM json_each(" :: column ++ [.text ", ", path,
      .text ") WHERE json_each.value = ", text needle, .text ")"]
  | holdsElement needle, .postgres =>
    .text "(CAST(LOWER(CAST(" :: column ++ [.text " AS text)) AS jsonb) #> CAST(", path,
      .text " AS text[])) @> CAST(LOWER(", text (Json.quote needle), .text ") AS jsonb)"]
  | holdsElement needle, .mysql =>
    .text "JSON_CONTAINS(LOWER(" :: column ++ [.text "), LOWER(", text (Json.quote needle),
      .text "), ", path, .text ") = 1"]
  | holdsElement needle, .sqlite =>
    .text "EXISTS (SELECT 1 FROM json_each(" :: column ++ [.text ", ", path,
      .text ") WHERE LOWER(json_each.value) = LOWER(", text needle, .text "))"]

def Related.fragment (r : Related) : Fragment :=
  .text "NOT EXISTS(SELECT " :: .bind (.int32 1) ::
    .text (" FROM " ++ quoteName backend r.table ++ " AS " ++ quoteName backend r.name ++ " WHERE ") ::
    linkFragment backend ⟨r.name, r.key⟩ r.owner ++
    .text " AND " :: r.test.fragment backend ⟨r.name, r.column⟩ ++ [.text ")"]

def Predicate.fragment : Predicate → Fragment
  | constant truth => [.bind (.int32 1), .text " = ", .bind (.int32 (if truth then 1 else 0))]
  | column c test => test.fragment backend c
  | document c path test => test.fragment backend c path
  | noneRelated r => r.fragment backend

end EntitySearch.Sql
