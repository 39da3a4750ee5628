import EntitySearch.Issue
import EntitySearch.Operation
/-!
What a search can fail with.
-/
namespace EntitySearch

/-- Why a key cannot be resolved. -/
inductive KeyFault
  | emptySegment
  | emptyDocumentSegment
  | documentOnRelated
  | noAttribute (name entity : String)
  | noRelationship (name entity : String)
  | unregisteredTarget (relationship target : String)
  | excludesDocument
  | excludesWithoutRelationship
  | needsDocumentPath (operation : Operation)
  | unregisteredRoot
  | notSortable (name entity : String)
  | other (reason : String)
  deriving DecidableEq, Repr

def KeyFault.reason : KeyFault → String
  | emptySegment => "empty path segment"
  | emptyDocumentSegment => "empty JSON path segment"
  | documentOnRelated => "JSON paths are only supported on columns of the searched entity"
  | noAttribute name entity => s!"'{name}' is not an attribute of '{entity}'"
  | noRelationship name entity => s!"'{name}' is not a relationship of '{entity}'"
  | unregisteredTarget relationship target =>
    s!"relationship '{relationship}' targets unregistered entity '{target}'"
  | excludesDocument => "exclusions cannot address a JSON path"
  | excludesWithoutRelationship => "exclusions require a key that traverses a relationship"
  | needsDocumentPath operation => operation.name ++ " requires a `column->path` key"
  | unregisteredRoot => "not a registered entity"
  | notSortable name entity => s!"'{name}' is not a sortable attribute of '{entity}'"
  | other reason => reason

inductive StorageError
  | custom (text : String)
  | recordNotFound (text : String)
  | type (text : String)
  | json (text : String)
  deriving DecidableEq, Repr

def StorageError.message : StorageError → String
  | custom text => "Custom Error: " ++ text
  | recordNotFound text => "RecordNotFound Error: " ++ text
  | type text => "Type Error: " ++ text
  | json text => "Json Error: " ++ text

inductive SearchError
  | invalid (issues : List Issue)
  | unresolved (key : String) (fault : KeyFault)
  | wrongShape (operation : Operation) (expected : Shape)
  | wrongType (key expected value : String)
  | unknownOperation (name : String)
  | storage (e : StorageError)
  deriving DecidableEq, Repr

namespace SearchError

def message : SearchError → String
  | invalid issues => Issue.summary issues
  | unresolved key fault => s!"Cannot resolve field '{key}': " ++ fault.reason
  | wrongShape operation expected =>
    s!"Operation {operation.name} requires {expected.description}"
  | wrongType key expected value => s!"Value '{value}' for '{key}' is not a valid {expected}"
  | unknownOperation name => "Unsupported operation " ++ name
  | storage e => "Storage error: " ++ e.message

/-- The request is at fault: sent again it fails again. -/
def isClientError : SearchError → Bool
  | invalid _ | unresolved .. | wrongShape .. | wrongType .. => true
  | unknownOperation _ | storage _ => false

/-- The message of the error that this one wraps. -/
def cause? : SearchError → Option String
  | invalid issues => some (Issue.summary issues)
  | storage e => some e.message
  | _ => none

end SearchError
end EntitySearch
