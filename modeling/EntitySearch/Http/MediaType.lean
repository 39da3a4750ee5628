/-!
Media types, as far as it takes to tell JSON from others.
-/
namespace EntitySearch.Http

def isTokenChar (c : Char) : Bool := c.isAlphanum || "!#$%&'*+-.^_`|~".toList.contains c

/-- Characters of quoted parameter values. -/
def isQuotedChar (c : Char) : Bool := 31 < c.toNat && c.toNat != 127

/-- A place within the parameters. A quote right after the opening one does not close; a
backslash has no meaning of its own. -/
inductive ParameterPlace | start | name | valueStart | value | quoteStart | quoted | after
  deriving DecidableEq, Repr

namespace ParameterPlace

def step : ParameterPlace → Char → Option ParameterPlace
  | start, c => if c == ' ' then some start else if isTokenChar c then some name else none
  | name, c => if c == '=' then some valueStart else if isTokenChar c then some name else none
  | valueStart, c =>
    if c == '"' then some quoteStart else if isTokenChar c then some value else none
  | value, c => if c == ';' then some start else if isTokenChar c then some value else none
  | quoteStart, c => if isQuotedChar c then some quoted else none
  | quoted, c => if c == '"' then some after else if isQuotedChar c then some quoted else none
  | after, c => if c == ';' then some start else if c == ' ' then some after else none

def final : ParameterPlace → Bool
  | start | valueStart | value | after => true
  | _ => false

end ParameterPlace

def wellFormedParameters (cs : List Char) : Bool :=
  ((cs.foldlM ParameterPlace.step .start).map ParameterPlace.final).getD false

structure MediaType where
  type : String
  subtype : String
  suffix : Option String
  deriving DecidableEq, Repr

namespace MediaType

/-- Cuts a subtype at its last plus sign, unless it starts with that. -/
def cutSuffix (cs : List Char) : List Char × Option (List Char) :=
  let suffix := (cs.reverse.takeWhile (· != '+')).reverse
  if suffix.length + 1 < cs.length then (cs.take (cs.length - suffix.length - 1), some suffix)
  else (cs, none)

/-- Case does not count. What follows the subtype after a semicolon are parameters. -/
def read? (s : String) : Option MediaType :=
  let cs := s.toList.map Char.toLower
  let type := cs.takeWhile isTokenChar
  match type, cs.dropWhile isTokenChar with
  | _ :: _, '/' :: rest =>
    let name := rest.takeWhile isTokenChar
    let made : MediaType :=
      let (subtype, suffix) := cutSuffix name
      ⟨String.ofList type, String.ofList subtype, suffix.map String.ofList⟩
    match name, rest.dropWhile isTokenChar with
    | _, [] => some made
    | _ :: _, ';' :: parameters => if wellFormedParameters parameters then some made else none
    | _, _ => none
  | _, _ => none

def isJson (m : MediaType) : Bool :=
  m.type == "application" && (m.subtype == "json" || m.suffix == some "json")

/-- Header values hold visible ASCII, spaces and tabs. -/
def isHeaderText (s : String) : Bool :=
  s.toList.all fun c => (32 ≤ c.toNat && c.toNat < 127) || c == '\t'

def declaresJson (header : String) : Bool :=
  isHeaderText header && ((read? header).map isJson).getD false

end MediaType
end EntitySearch.Http
