import EntitySearch.Json.Reader
import EntitySearch.Json.Writer
import EntitySearch.Proofs.DocumentPath
import EntitySearch.Proofs.Patterns
import EntitySearch.Proofs.StringArrays
/-!
Tests for an element of an array in a document, without regard to case. What they find depends on
what a database changes to lower case: the elements alone, or the document with all its names.
-/
namespace EntitySearch

namespace LowerCase
variable {lower : Char → Char}

/-- A character that stands for itself in a string still does in lower case. -/
theorem unescaped (h : LowerCase lower) {c : Char} (hc : 0x20 ≤ c.toNat ∧ c ≠ '"' ∧ c ≠ '\\') :
    0x20 ≤ (lower c).toNat ∧ lower c ≠ '"' ∧ lower c ≠ '\\' := by
  have hmarks : ('"').toNat = 34 ∧ ('\\').toNat = 92 := ⟨rfl, rfl⟩
  rcases h.letter c with hsame | hlower | hwide
  · rwa [hsame]
  · have hbounds := isLower_iff.mp hlower
    refine ⟨by omega, ?_, ?_⟩ <;> intro heq <;> rw [heq] at hbounds <;> omega
  · refine ⟨by omega, ?_, ?_⟩ <;> intro heq <;> rw [heq] at hwide <;> omega

theorem hexDigit (h : LowerCase lower) {n : Nat} (hn : n < 16) :
    lower (Text.hexDigit n) = Text.hexDigit n := by
  have hall : ∀ m : Fin 16,
      (Text.hexDigit m).toNat < 128 ∧ (Text.hexDigit m).isUpper = false := by decide
  exact h.fixed _ (hall ⟨n, hn⟩).1 (hall ⟨n, hn⟩).2

end LowerCase

namespace Json
variable {lower : Char → Char}

section Quote

variable {cs text : List Char}

/-- A short escape, also in lower case. -/
theorem Spelling.short_lower (h : LowerCase lower) {c e : Char} (he : (e, c) ∈ shortEscapes)
    (hspelling : Spelling cs text) : Spelling (lower c :: cs) (['\\', e].map lower ++ text) := by
  have hall : ∀ p ∈ shortEscapes, (p.1.toNat < 128 ∧ p.1.isUpper = false) ∧
      p.2.toNat < 128 ∧ p.2.isUpper = false := by decide
  obtain ⟨hletter, hc⟩ := hall (e, c) he
  have hmap : ['\\', e].map lower = ['\\', e] := by
    simp [h.fixed '\\' (by decide) rfl, h.fixed e hletter.1 hletter.2]
  rw [hmap, h.fixed c hc.1 hc.2]
  exact .short he hspelling

/-- The escape of a control character by its number, also in lower case. -/
theorem Spelling.control_lower (h : LowerCase lower) {c : Char} (hc : c.toNat < 0x20)
    (hspelling : Spelling cs text) : Spelling (lower c :: cs)
      (("\\u00" ++ String.ofList [Text.hexDigit (c.toNat / 16),
        Text.hexDigit (c.toNat % 16)]).toList.map lower ++ text) := by
  have hupper : c.isUpper = false := by
    rw [Bool.eq_false_iff]
    intro hupper
    have hbounds := isUpper_iff.mp hupper
    omega
  have hunits : ∀ n : Fin 32, hexUnit? '0' '0' (Text.hexDigit (n / 16)) (Text.hexDigit (n % 16)) =
      some n.val := by decide
  have hlist : ("\\u00" ++ String.ofList [Text.hexDigit (c.toNat / 16),
      Text.hexDigit (c.toNat % 16)]).toList.map lower = ['\\', 'u', '0', '0',
        Text.hexDigit (c.toNat / 16), Text.hexDigit (c.toNat % 16)] := by
    simp [h.hexDigit (show c.toNat / 16 < 16 by omega),
      h.hexDigit (show c.toNat % 16 < 16 by omega), h.fixed '\\' (by decide) rfl,
      h.fixed 'u' (by decide) rfl, h.fixed '0' (by decide) rfl]
  have hunit := hspelling.unit (hunits ⟨c.toNat, hc⟩) (.inl (by omega))
  rw [Char.ofNat_toNat] at hunit
  rw [hlist, h.fixed c (by omega) hupper]
  exact hunit

/-- The escape of a character spells the character, also in lower case. -/
theorem Spelling.escape_lower (h : LowerCase lower) (c : Char) (hspelling : Spelling cs text) :
    Spelling (lower c :: cs) ((escape c).toList.map lower ++ text) := by
  have hchar {n : Nat} (hn : c.toNat = n) : c = Char.ofNat n := by rw [← hn, Char.ofNat_toNat]
  unfold escape
  split
  case h_1 hn => exact hchar hn ▸ hspelling.short_lower h (e := 'b') (by decide)
  case h_2 hn => exact hchar hn ▸ hspelling.short_lower h (e := 't') (by decide)
  case h_3 hn => exact hchar hn ▸ hspelling.short_lower h (e := 'n') (by decide)
  case h_4 hn => exact hchar hn ▸ hspelling.short_lower h (e := 'f') (by decide)
  case h_5 hn => exact hchar hn ▸ hspelling.short_lower h (e := 'r') (by decide)
  case h_6 hn => exact hchar hn ▸ hspelling.short_lower h (e := '"') (by decide)
  case h_7 hn => exact hchar hn ▸ hspelling.short_lower h (e := '\\') (by decide)
  case h_8 hquote hescape =>
    split
    case isTrue hcontrol => exact hspelling.control_lower h hcontrol
    case isFalse hcontrol =>
      have hplain : 0x20 ≤ c.toNat ∧ c ≠ '"' ∧ c ≠ '\\' := by
        refine ⟨by omega, ?_, ?_⟩
        · rintro rfl
          exact hquote rfl
        · rintro rfl
          exact hescape rfl
      have hself : c.toString.toList.map lower ++ text = lower c :: text := by simp
      rw [hself]
      exact .plain (h.unescaped hplain) hspelling

theorem spelling_escapes (h : LowerCase lower) (cs : List Char) :
    Spelling (cs.map lower) (cs.flatMap fun c => (escape c).toList.map lower) := by
  induction cs with
  | nil => exact .nil
  | cons c cs ih =>
    rw [List.flatMap_cons]
    exact ih.escape_lower h c

/-- The JSON text of a string in lower case is the JSON text of the string in lower case. -/
theorem read?_quote (h : LowerCase lower) (s : String) :
    read? ((quote s).map lower) = some (.text (s.map lower)) := by
  let spelling := s.toList.flatMap fun c => (escape c).toList.map lower
  have hchars : ((quote s).map lower).toList = [] ++ '"' :: (spelling ++ '"' :: []) := by
    simp [quote, spelling, String.toList_join, List.map_flatMap, List.flatMap_map,
      h.fixed '"' (by decide) rfl]
  have hspelling : Spelling (s.map lower).toList spelling := by
    rw [String.toList_map]
    exact spelling_escapes h s.toList
  have htokens := Tokenized.nil.string (List.forall_mem_nil _) hspelling _ le_rfl
  rw [read?, tokens?, hchars, htokens]
  rfl

end Quote
section Lowered

/-- The value at a path of names. -/
def select : Json → List String → Option Json
  | v, [] => some v
  | v, name :: path => (v.get? name).bind fun w => select w path

mutual
/-- A value with its texts and the names of its members in lower case. Of members whose names become
one the last stays. -/
def lowered (lower : Char → Char) : Json → Json
  | .text s => .text (s.map lower)
  | .array items => .array (loweredAll lower items)
  | .object members => ofMembers (loweredMembers lower members)
  | v => v
def loweredAll (lower : Char → Char) : List Json → List Json
  | [] => []
  | v :: vs => lowered lower v :: loweredAll lower vs
def loweredMembers (lower : Char → Char) : List (String × Json) → List (String × Json)
  | [] => []
  | (name, v) :: rest => (name.map lower, lowered lower v) :: loweredMembers lower rest
end

theorem loweredAll_eq_map (items : List Json) :
    loweredAll lower items = items.map (lowered lower) := by
  induction items with
  | nil => rfl
  | cons v vs ih => rw [loweredAll, ih, List.map_cons]

theorem loweredMembers_eq_map (members : List (String × Json)) :
    loweredMembers lower members =
      members.map fun m => (m.1.map lower, m.2.lowered lower) := by
  induction members with
  | nil => rfl
  | cons m rest ih => rw [loweredMembers, ih, List.map_cons]

/-- Of members with one name the last is found. -/
theorem get?_ofMembers (name : String) (members : List (String × Json)) :
    (ofMembers members).get? name =
      (members.reverse.find? fun m => m.1 == name).map Prod.snd := by
  rw [ofMembers, get?]
  congr 1
  induction members using List.reverseRecOn with
  | nil => rfl
  | append_singleton members m ih =>
    rw [List.foldl_append, List.foldl_cons, List.foldl_nil]
    change Named.find? Prod.fst name (Named.insert Prod.fst m _) = _
    rw [Named.find?_insert, ih, List.reverse_append, List.reverse_singleton, List.singleton_append,
      List.find?_cons]
    by_cases hm : m.1 = name
    · rw [if_pos hm, beq_iff_eq.mpr hm]
    · rw [if_neg hm, beq_eq_false_iff_ne.mpr hm]

/-- At each step of a path one member alone goes by the name when case does not count, and it is
spelled like that. -/
def OneCased (lower : Char → Char) : List String → Json → Prop
  | [], _ => True
  | name :: path, v => ∃ members w, v = .object members ∧
      members.filter (fun m => m.1.map lower == name) = [(name, w)] ∧ OneCased lower path w

theorem get?_lowered_of_filter {members : List (String × Json)} {name : String} {v : Json}
    (h : members.filter (fun m => m.1.map lower == name) = [(name, v)]) :
    ((object members).lowered lower).get? name = some (v.lowered lower) := by
  have hlast : ((loweredMembers lower members).reverse.filter fun m => m.1 == name) =
      [(name.map lower, v.lowered lower)] := by
    rw [loweredMembers_eq_map, List.filter_reverse, List.filter_map]
    simp only [Function.comp_def, h, List.map_cons, List.map_nil, List.reverse_singleton]
  rw [lowered, get?_ofMembers, ← List.head?_filter, hlast]
  rfl

theorem get?_of_filter {members : List (String × Json)} {name : String} {v : Json}
    (h : members.filter (fun m => m.1.map lower == name) = [(name, v)]) {w : Json}
    (hw : (object members).get? name = some w) : w = v := by
  obtain ⟨m, hm, rfl⟩ := Option.map_eq_some_iff.mp hw
  have hname : m.1 = name := Named.name_of_find? Prod.fst hm
  have hself : (name, v) ∈ members.filter fun m => m.1.map lower == name := by simp [h]
  have hmem : m ∈ members.filter fun m => m.1.map lower == name := by
    refine List.mem_filter.mpr ⟨Named.mem_of_find? Prod.fst hm, ?_⟩
    rw [hname]
    exact (List.mem_filter.mp hself).2
  rw [h, List.mem_singleton] at hmem
  rw [hmem]

theorem select_lowered {path : List String} {v w : Json} (h : v.OneCased lower path)
    (hselect : v.select path = some w) :
    (v.lowered lower).select path = some (w.lowered lower) := by
  induction path generalizing v with
  | nil =>
    obtain rfl := Option.some.inj hselect
    rfl
  | cons name path ih =>
    obtain ⟨members, next, rfl, hone, hnext⟩ := h
    obtain ⟨found, hfound, hselect⟩ := Option.bind_eq_some_iff.mp hselect
    obtain rfl := get?_of_filter hone hfound
    rw [select, get?_lowered_of_filter hone]
    exact ih hnext hselect

theorem get?_lowered {v w : Json} {name : String} (h : LowerCase lower)
    (hget : (v.lowered lower).get? name = some w) :
    name.map lower = name ∧ ∃ u, w = lowered lower u := by
  cases v with
  | object members =>
    rw [lowered, get?_ofMembers, loweredMembers_eq_map] at hget
    obtain ⟨m, hm, rfl⟩ := Option.map_eq_some_iff.mp hget
    obtain ⟨n, -, rfl⟩ := List.mem_map.mp (List.mem_reverse.mp (List.mem_of_find?_eq_some hm))
    have hname : n.1.map lower = name := by simpa using List.find?_some hm
    refine ⟨?_, n.2, rfl⟩
    rw [← hname]
    apply String.toList_inj.mp
    simp [Function.comp_def, h.idempotent]
  | null | bool | number | text | array => simp [lowered, get?] at hget

/-- No member of a value in lower case has a name that lower case changes. -/
theorem select_lowered_eq_none (h : LowerCase lower) {path : List String}
    (hpath : ∃ name ∈ path, name.map lower ≠ name) (v : Json) :
    (v.lowered lower).select path = none := by
  induction path generalizing v with
  | nil => simp at hpath
  | cons name path ih =>
    rw [select]
    cases hget : (v.lowered lower).get? name with
    | none => rfl
    | some w =>
      obtain ⟨hname, u, rfl⟩ := get?_lowered h hget
      obtain ⟨other, hmem, hchanged⟩ := hpath
      rcases List.mem_cons.mp hmem with rfl | hmem
      · exact absurd hname hchanged
      · exact ih ⟨other, hmem, hchanged⟩ u

end Lowered
end Json

namespace Sql

inductive DocumentType | text | jsonb | textArray
  deriving DecidableEq

def DocumentType.name : DocumentType → String
  | text => "text"
  | jsonb => "jsonb"
  | textArray => "text[]"

/-- Terms over the document in a column. -/
inductive DocumentTerm
  | column
  | bound (s : String)
  | lower (t : DocumentTerm)
  | cast (t : DocumentTerm) (type : DocumentType)
  | follow (t path : DocumentTerm)

/-- Tests for an element: by `@>`, by `JSON_CONTAINS`, or among the rows of `json_each`, each in
lower case. -/
inductive ElementTest
  | includes (whole part : DocumentTerm)
  | contains (whole part path : DocumentTerm)
  | someRow (whole path needle : DocumentTerm)

section Fragment
variable (backend : Backend) (c : Column)

def DocumentTerm.fragment : DocumentTerm → Fragment
  | column => c.fragment backend
  | bound s => [.bind (.text s)]
  | lower t => .text "LOWER(" :: t.fragment ++ [.text ")"]
  | cast t type => .text "CAST(" :: t.fragment ++ [.text (" AS " ++ type.name ++ ")")]
  | follow t path => .text "(" :: t.fragment ++ .text " #> " :: path.fragment ++ [.text ")"]

def ElementTest.fragment : ElementTest → Fragment
  | includes whole part => whole.fragment backend c ++ .text " @> " :: part.fragment backend c
  | contains whole part path =>
    .text "JSON_CONTAINS(" :: whole.fragment backend c ++ .text ", " :: part.fragment backend c ++
      .text ", " :: path.fragment backend c ++ [.text ") = 1"]
  | someRow whole path needle =>
    .text "EXISTS (SELECT 1 FROM json_each(" :: whole.fragment backend c ++ .text ", " ::
      path.fragment backend c ++ .text ") WHERE LOWER(json_each.value) = " ::
      needle.fragment backend c ++ [.text ")"]

/-- The test that a database is given for an element. -/
def elementTest (path : List String) (needle : String) : ElementTest :=
  let place := DocumentTerm.bound (pathText backend path)
  let quoted := DocumentTerm.bound (Json.quote needle)
  match backend with
  | .postgres =>
    .includes (.follow (.cast (.lower (.cast .column .text)) .jsonb) (.cast place .textArray))
      (.cast (.lower quoted) .jsonb)
  | .mysql => .contains (.lower .column) (.lower quoted) place
  | .sqlite => .someRow .column place (.lower (.bound needle))

theorem prepare_elementTest (path : List String) (needle : String) :
    ((elementTest backend path needle).fragment backend c).prepare backend =
      ((DocumentTest.holdsElement needle).fragment backend c path).prepare backend := by
  have hvalues : ((elementTest backend path needle).fragment backend c).values =
      ((DocumentTest.holdsElement needle).fragment backend c path).values := by
    cases backend <;> rfl
  have htext : ((elementTest backend path needle).fragment backend c).placeholdersFrom backend 1 =
      ((DocumentTest.holdsElement needle).fragment backend c path).placeholdersFrom backend 1 := by
    apply String.toList_inj.mp
    cases backend <;>
      simp [elementTest, ElementTest.fragment, DocumentTerm.fragment, DocumentTest.fragment,
        Fragment.placeholdersFrom, Column.fragment, DocumentType.name, Fragment.placeholder]
  rw [Fragment.prepare, Fragment.prepare, hvalues, htext]

end Fragment

/-- What a database makes of documents: the characters of its identifiers, lower case, and when one
document contains another. -/
structure DocumentEngine where
  ids : IdentifierChars
  lower : Char → Char
  lowerCase : LowerCase lower
  contains : Json → Json → Bool
  contains_text : ∀ (texts : List String) (s : String),
    contains (.array (texts.map .text)) (.text s) = true ↔ s ∈ texts
  rowText : Json → Option String
  rowText_text : ∀ s, rowText (.text s) = some s

/-- What a term stands for: a text, a document or its text, or a list of keys. -/
inductive Datum
  | text (s : String)
  | document (v : Json)
  | keys (path : List String)

namespace DocumentEngine
variable (e : DocumentEngine) (backend : Backend)

def asDocument : Datum → Option Json
  | .text s => Json.read? s
  | .document v => some v
  | .keys _ => none

def asKeys : Datum → Option (List String)
  | .text s => readPath e.ids backend s
  | .document _ => none
  | .keys path => some path

def cast : DocumentType → Datum → Option Datum
  | .text, x => some x
  | .jsonb, x => (asDocument x).map .document
  | .textArray, x => (e.asKeys backend x).map .keys

def toLower : Datum → Option Datum
  | .text s => some (.text (s.map e.lower))
  | .document v => some (.document (v.lowered e.lower))
  | .keys _ => none

/-- The part of a document at a path. -/
def part (x path : Datum) : Option Json := do
  (← asDocument x).select (← e.asKeys backend path)

variable (doc : Json)

def value : DocumentTerm → Option Datum
  | .column => some (.document doc)
  | .bound s => some (.text s)
  | .lower t => (value t).bind e.toLower
  | .cast t type => (value t).bind (e.cast backend type)
  | .follow t path => do
    let v ← e.part backend (← value t) (← value path)
    return .document v

def documentOf (t : DocumentTerm) : Option Json := (e.value backend doc t).bind asDocument

def partOf (t path : DocumentTerm) : Option Json := do
  e.part backend (← e.value backend doc t) (← e.value backend doc path)

/-- A comparison with what is missing does not hold. -/
def contained : Option Json → Option Json → Bool
  | some v, some w => e.contains v w
  | _, _ => false

/-- The rows of `json_each`. -/
def rows : Json → List Json
  | .array items => items
  | .object members => members.map Prod.snd
  | v => [v]

def rowHolds (s : String) (row : Json) : Bool :=
  (e.rowText row).any fun t => t.map e.lower == s

def holds : ElementTest → Bool
  | .includes whole part =>
    e.contained (e.documentOf backend doc whole) (e.documentOf backend doc part)
  | .contains whole part path =>
    e.contained (e.partOf backend doc whole path) (e.documentOf backend doc part)
  | .someRow whole path needle =>
    match e.partOf backend doc whole path, e.value backend doc needle with
    | some v, some (.text s) => (rows v).any (e.rowHolds s)
    | _, _ => false

variable {doc} {path : List String} {needle : String} {texts : List String}

theorem holds_sqlite (hread : readPath e.ids .sqlite (pathText .sqlite path) = some path)
    (hdoc : doc.select path = some (.array (texts.map .text))) :
    e.holds .sqlite doc (elementTest .sqlite path needle) = true ↔
      ∃ t ∈ texts, t.map e.lower = needle.map e.lower := by
  have hpart : e.partOf .sqlite doc .column (.bound (pathText .sqlite path)) =
      some (.array (texts.map .text)) := by
    simp [partOf, value, part, asDocument, asKeys, hread, hdoc]
  simp only [elementTest, holds, hpart, value, Option.bind_some, toLower, rows]
  simp [rowHolds, e.rowText_text]

/-- The document that PostgreSQL and MySQL search. -/
theorem holds_lowered {backend : Backend} (hbackend : backend ≠ .sqlite)
    (hread : readPath e.ids backend (pathText backend path) = some path) :
    e.holds backend doc (elementTest backend path needle) =
      e.contained ((doc.lowered e.lower).select path) (some (.text (needle.map e.lower))) := by
  have hneedle : Json.read? ((Json.quote needle).map e.lower) = some (.text (needle.map e.lower)) :=
    Json.read?_quote e.lowerCase needle
  cases backend with
  | sqlite => exact absurd rfl hbackend
  | postgres =>
    simp [elementTest, holds, documentOf, value, cast, toLower, part, asDocument, asKeys, hread,
      hneedle]
    cases (doc.lowered e.lower).select path <;> rfl
  | mysql =>
    simp [elementTest, holds, documentOf, partOf, value, toLower, part, asDocument, asKeys,
      hread, hneedle]

end DocumentEngine

/-- The test given to a database for an element of an array of texts. SQLite finds the element that
differs from the operand in case alone. PostgreSQL and MySQL search the document in lower case,
names of members included: they find it if the path is the one way there when case does not count,
and find nothing where the path has a letter that lower case changes. -/
theorem element_found (e : DocumentEngine) (backend : Backend) (c : Column) (path : List String)
    (needle : String) (doc : Json) (texts : List String)
    (hread : readPath e.ids backend (pathText backend path) = some path)
    (hdoc : doc.select path = some (.array (texts.map .text))) :
    ((elementTest backend path needle).fragment backend c).prepare backend =
        ((DocumentTest.holdsElement needle).fragment backend c path).prepare backend ∧
      (backend = .sqlite ∨ doc.OneCased e.lower path →
        (e.holds backend doc (elementTest backend path needle) = true ↔
          ∃ t ∈ texts, t.map e.lower = needle.map e.lower)) ∧
      (backend ≠ .sqlite → (∃ name ∈ path, name.map e.lower ≠ name) →
        e.holds backend doc (elementTest backend path needle) = false) := by
  refine ⟨prepare_elementTest backend c path needle, ?_, ?_⟩
  · intro hcase
    by_cases hbackend : backend = .sqlite
    · subst hbackend
      exact e.holds_sqlite hread hdoc
    · have hone := hcase.resolve_left hbackend
      have hlowered : (Json.array (texts.map .text)).lowered e.lower =
          .array ((texts.map (String.map e.lower)).map .text) := by
        simp [Json.lowered, Json.loweredAll_eq_map, Function.comp_def]
      rw [e.holds_lowered hbackend hread, Json.select_lowered hone hdoc, hlowered,
        DocumentEngine.contained, e.contains_text, List.mem_map]
  · intro hbackend hchanged
    rw [e.holds_lowered hbackend hread, Json.select_lowered_eq_none e.lowerCase hchanged]
    rfl

/-- Lower case of ASCII letters, and arrays that contain texts. -/
def DocumentEngine.ascii : DocumentEngine where
  ids := .ascii
  lower := Char.toLower
  lowerCase := lowerCase_toLower
  contains
    | .array items, .text s => items.any fun v => match v with
      | .text t => t == s
      | _ => false
    | _, _ => false
  contains_text texts s := by simp [List.any_map, Function.comp_def]
  rowText
    | .text s => some s
    | _ => none
  rowText_text _ := rfl

/-- A document with one array under a name. -/
def taggedDocument (name : String) : Json := .object [(name, .array [.text "VIP", .text "Staff"])]

theorem map_toLower_tags : "tags".map Char.toLower = "tags" ∧
    "Tags".map Char.toLower ≠ "Tags" ∧ "VIP".map Char.toLower = "vip".map Char.toLower := by
  simp only [ne_eq, ← String.toList_inj, String.toList_map]
  decide

/-- Case does not count for an element under a name in lower case. -/
theorem element_found_tags :
    DocumentEngine.ascii.holds .postgres (taggedDocument "tags")
      (elementTest .postgres ["tags"] "vip") = true := by
  obtain ⟨-, hfound, -⟩ := element_found .ascii .postgres ⟨"players", "tags"⟩ ["tags"] "vip"
    (taggedDocument "tags") ["VIP", "Staff"] (by decide) rfl
  have hone : (taggedDocument "tags").OneCased Char.toLower ["tags"] :=
    ⟨_, .array [.text "VIP", .text "Staff"], rfl, by simp [map_toLower_tags.1], trivial⟩
  exact (hfound (.inr hone)).mpr ⟨"VIP", by simp, map_toLower_tags.2.2⟩

/-- Under a name with a capital SQLite finds an element, which PostgreSQL and MySQL do not. -/
theorem element_lost :
    (taggedDocument "Tags").select ["Tags"] = some (.array (["VIP", "Staff"].map .text)) ∧
    DocumentEngine.ascii.holds .sqlite (taggedDocument "Tags")
      (elementTest .sqlite ["Tags"] "vip") = true ∧
    DocumentEngine.ascii.holds .postgres (taggedDocument "Tags")
      (elementTest .postgres ["Tags"] "vip") = false ∧
    DocumentEngine.ascii.holds .mysql (taggedDocument "Tags")
      (elementTest .mysql ["Tags"] "vip") = false := by
  have hdoc : (taggedDocument "Tags").select ["Tags"] =
      some (.array (["VIP", "Staff"].map .text)) := rfl
  have hnone : ((taggedDocument "Tags").lowered Char.toLower).select ["Tags"] = none :=
    Json.select_lowered_eq_none lowerCase_toLower ⟨"Tags", by simp, map_toLower_tags.2.1⟩ _
  refine ⟨hdoc, ?_, ?_, ?_⟩
  · exact (DocumentEngine.ascii.holds_sqlite (by decide) hdoc).mpr
      ⟨"VIP", by simp, map_toLower_tags.2.2⟩
  · rw [DocumentEngine.ascii.holds_lowered (by decide) (by decide)]
    exact congrArg (DocumentEngine.ascii.contained · _) hnone
  · rw [DocumentEngine.ascii.holds_lowered (by decide) (by decide)]
    exact congrArg (DocumentEngine.ascii.contained · _) hnone

end Sql
end EntitySearch
