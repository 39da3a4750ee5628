import EntitySearch.Binary64
import EntitySearch.Named
/-!
JSON values. Members of an object are kept in order of name, one a name.
-/
namespace EntitySearch

/-- A number: whole where 64 bits hold it, a double otherwise. -/
inductive Number
  | whole (n : Int) (fits : -0x8000000000000000 ≤ n ∧ n < 0x10000000000000000)
  | real (x : Binary64)
  deriving DecidableEq

inductive Json
  | null
  | bool (b : Bool)
  | number (n : Number)
  | text (s : String)
  | array (items : List Json)
  | object (members : List (String × Json))

namespace Number

def ofUInt64 (n : UInt64) : Number :=
  .whole n.toNat (by have := n.toNat_lt; omega)

end Number

namespace Json

def uint (n : UInt64) : Json := .number (.ofUInt64 n)

/-- The value of a member of an object. -/
def get? (name : String) : Json → Option Json
  | .object members => (Named.find? Prod.fst name members).map Prod.snd
  | _ => none

def put (name : String) (value : Json) (members : List (String × Json)) : List (String × Json) :=
  Named.insert Prod.fst (name, value) members

/-- An object from members in any order; of two with one name the later stays. -/
def ofMembers (members : List (String × Json)) : Json :=
  .object (members.foldl (fun kept (name, value) => put name value kept) [])

end Json
end EntitySearch
