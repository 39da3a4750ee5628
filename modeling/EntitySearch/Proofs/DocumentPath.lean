import EntitySearch.Proofs.KeyGrammar
import EntitySearch.Proofs.LetterCase
import EntitySearch.Proofs.PathSyntax
/-!
Document paths of keys. What the bound text of a path leads to, and when two paths have one text.
-/
namespace EntitySearch
namespace Sql

/-- The characters that identifiers start with and those that may follow; which characters beyond
ASCII are among them is left open. -/
structure IdentifierChars where
  first : Char → Bool
  later : Char → Bool
  first_ascii : ∀ c, c.toNat < 128 → first c = (c.isAlpha || c == '$' || c == '_')
  later_ascii : ∀ c, c.toNat < 128 → later c = (c.isAlphanum || c == '$' || c == '_')

namespace IdentifierChars
variable (ids : IdentifierChars)

def isIdentifier : List Char → Bool
  | [] => false
  | c :: cs => ids.first c && cs.all ids.later

/-- No character beyond ASCII. -/
def ascii : IdentifierChars where
  first c := c.isAlpha || c == '$' || c == '_'
  later c := c.isAlphanum || c == '$' || c == '_'
  first_ascii _ _ := rfl
  later_ascii _ _ := rfl

variable {ids}

theorem mem_of_isIdentifier {cs : List Char} (h : ids.isIdentifier cs = true) {c : Char}
    (hc : c ∈ cs) : ids.first c = true ∨ ids.later c = true := by
  cases cs with
  | nil => simp at hc
  | cons d ds =>
    obtain ⟨hfirst, hlater⟩ := Bool.and_eq_true_iff.mp h
    rcases List.mem_cons.mp hc with rfl | hc
    · exact .inl hfirst
    · exact .inr (List.all_eq_true.mp hlater c hc)

/-- An ASCII character of an identifier is a letter, a digit, a dollar sign or an underscore. -/
theorem word_of_isIdentifier {cs : List Char} (h : ids.isIdentifier cs = true) {c : Char}
    (hc : c ∈ cs) (hascii : c.toNat < 128) : (c.isAlphanum || c == '$' || c == '_') = true := by
  rcases mem_of_isIdentifier h hc with hfirst | hlater
  · rw [ids.first_ascii c hascii] at hfirst
    simp only [Char.isAlphanum, Bool.or_eq_true] at hfirst ⊢
    tauto
  · rwa [ids.later_ascii c hascii] at hlater

theorem le_toNat_of_isAlphanum {c : Char} (h : c.isAlphanum = true) : 0x20 ≤ c.toNat := by
  have hcases : (c.isUpper || c.isLower || c.isDigit) = true := h
  have hzero : ('0').toNat = 48 := rfl
  simp only [Bool.or_eq_true, isUpper_iff, isLower_iff, Char.isDigit_iff_toNat] at hcases
  omega

theorem le_toNat_of_isIdentifier {cs : List Char} (h : ids.isIdentifier cs = true) {c : Char}
    (hc : c ∈ cs) : 0x20 ≤ c.toNat := by
  rcases lt_or_ge c.toNat 128 with hascii | hwide
  · have hword := word_of_isIdentifier h hc hascii
    simp only [Bool.or_eq_true, beq_iff_eq] at hword
    obtain (hword | rfl) | rfl := hword
    · exact le_toNat_of_isAlphanum hword
    · decide
    · decide
  · omega

end IdentifierChars

/-- Names run up to the next point or bracket; a path ends at a null character. -/
def sqlitePaths : DollarSyntax where
  space _ := false
  ends c := c == '\x00'
  name? raw := if raw.isEmpty then none else some raw
  ends_marks := by decide
  name_shortens raw key h := by
    obtain ⟨-, h⟩ := Option.ite_none_left_eq_some.mp h
    exact .inl (Option.some.inj h).symm

/-- Names are identifiers, which may have the escapes of JSON. -/
def mysqlPaths (ids : IdentifierChars) : DollarSyntax where
  space := Json.isSpace
  ends _ := false
  name? raw := (quotedKey? raw).filter ids.isIdentifier
  ends_marks := ⟨rfl, rfl⟩
  name_shortens _ _ h := quotedKey?_shortens (Option.filter_eq_some_iff.mp h).1

def keysOf? (ids : IdentifierChars) : Backend → List Char → Option (List (List Char))
  | .postgres => arrayItems?
  | .sqlite => sqlitePaths.keys?
  | .mysql => (mysqlPaths ids).keys?

/-- The keys that a bound path leads through, as its database reads it. -/
def readPath (ids : IdentifierChars) (backend : Backend) (text : String) : Option (List String) :=
  (keysOf? ids backend text.toList).map (List.map String.ofList)

/-- The segments that a path spells as they are. -/
def PlainSegment (ids : IdentifierChars) (backend : Backend) (segment : String) : Prop :=
  let cs := segment.toList
  match backend with
  | .postgres => cs ≠ [] ∧ (∀ c ∈ cs.head?, isArraySpace c = false) ∧
      (∀ c ∈ cs.getLast?, isArraySpace c = false) ∧
      (∀ c ∈ cs, isArrayMark c = false ∧ c ≠ '\x00') ∧ cs.map Char.toLower ≠ "null".toList
  | .sqlite => cs ≠ [] ∧ (∀ c ∈ cs.head?, c ≠ '"') ∧
      ∀ c ∈ cs, c ≠ '.' ∧ c ≠ '[' ∧ c ≠ '\x00'
  | .mysql => ids.isIdentifier cs = true

section Plain
variable {ids : IdentifierChars} {segment : String}

theorem plainSegment_sqlite_iff :
    PlainSegment ids .sqlite segment ↔ sqlitePaths.Plain segment.toList := by
  simp only [PlainSegment, DollarSyntax.Plain, DollarSyntax.Names, DollarSyntax.Fits, Fits,
    DollarSyntax.inside, sqlitePaths, List.isEmpty_iff, Option.ite_none_left_eq_some, and_true,
    beq_eq_false_iff_ne, bne_iff_ne, Bool.and_eq_true, Bool.not_false, forall₂_and]
  tauto

theorem plainSegment_mysql_iff :
    PlainSegment ids .mysql segment ↔ (mysqlPaths ids).Plain segment.toList := by
  constructor
  · intro h
    have hne {c : Char} (hc : c ∈ segment.toList) {d : Char} (hd : d.toNat < 128)
        (hword : (d.isAlphanum || d == '$' || d == '_') = false) : c ≠ d := by
      rintro rfl
      simp [IdentifierChars.word_of_isIdentifier h hc hd] at hword
    have hspace {c : Char} (hc : c ∈ segment.toList) : Json.isSpace c = false := by
      simp only [Json.isSpace, Bool.or_eq_false_iff, beq_eq_false_iff_ne]
      exact ⟨⟨⟨hne hc (by decide) (by decide), hne hc (by decide) (by decide)⟩,
        hne hc (by decide) (by decide)⟩, hne hc (by decide) (by decide)⟩
    have hinside {c : Char} (hc : c ∈ segment.toList) : (mysqlPaths ids).inside c = true := by
      simp only [DollarSyntax.inside, Bool.and_eq_true, bne_iff_ne, Bool.not_eq_true']
      exact ⟨⟨hne hc (by decide) (by decide), hne hc (by decide) (by decide)⟩, hspace hc⟩
    have hkey : quotedKey? segment.toList = some segment.toList :=
      quotedKey?_plain fun c hc => ⟨IdentifierChars.le_toNat_of_isIdentifier h hc,
        hne hc (by decide) (by decide), hne hc (by decide) (by decide)⟩
    refine ⟨⟨⟨fun c hhead => ?_, fun c hc => hinside hc⟩,
      Option.filter_eq_some_iff.mpr ⟨hkey, h⟩⟩, fun _ _ => rfl⟩
    exact bne_iff_ne.mpr (hne (List.mem_of_mem_head? hhead) (by decide) (by decide))
  · exact fun h => (Option.filter_eq_some_iff.mp h.1.2).2

theorem trimItem_map {cs : List Char} :
    trimItem (cs.map (·, false)) = (cs.rdropWhile isArraySpace).map (·, false) := by
  simp [trimItem, List.rdropWhile, ← List.map_reverse, List.dropWhile_map, Function.comp_def]

theorem isNullItem_map {cs : List Char} :
    isNullItem (cs.map (·, false)) = (cs.map Char.toLower == "null".toList) := by
  simp [isNullItem, Function.comp_def]

theorem bareItem?_plain_iff {cs : List Char} : bareItem? (cs.map (·, false)) = some cs ↔
    cs ≠ [] ∧ (∀ c ∈ cs.getLast?, isArraySpace c = false) ∧
      cs.map Char.toLower ≠ "null".toList := by
  have htrim : cs.rdropWhile isArraySpace = cs ↔ ∀ c ∈ cs.getLast?, isArraySpace c = false := by
    rw [List.rdropWhile_eq_self_iff]
    cases cs using List.reverseRecOn <;> simp
  rw [bareItem?, trimItem_map, isNullItem_map, Option.ite_none_left_eq_some]
  constructor
  · rintro ⟨hnot, hsame⟩
    have hself : cs.rdropWhile isArraySpace = cs := by
      simpa [Function.comp_def] using hsame
    rw [hself] at hnot
    simp only [List.isEmpty_iff, Bool.or_eq_true, List.map_eq_nil_iff, beq_iff_eq, not_or] at hnot
    exact ⟨hnot.1, htrim.mp hself, hnot.2⟩
  · rintro ⟨hempty, hlast, hnull⟩
    rw [htrim.mpr hlast]
    simpa [hempty, Function.comp_def] using hnull

theorem plainSegment_postgres_iff : PlainSegment ids .postgres segment ↔
    ArrayPlace.PlainItem segment.toList ∧ '\x00' ∉ segment.toList := by
  have hnull : (∀ c ∈ segment.toList, c ≠ '\x00') ↔ '\x00' ∉ segment.toList :=
    ⟨fun h hmem => h _ hmem rfl, fun h c hc hzero => h (hzero ▸ hc)⟩
  rw [ArrayPlace.PlainItem, bareItem?_plain_iff, ← hnull]
  simp only [PlainSegment, ArrayPlace.Fits, Fits, Bool.not_eq_true', forall₂_and]
  tauto

end Plain

section Text
variable {path : List String}

theorem toList_pathText_postgres :
    (pathText .postgres path).toList = arrayText (path.map String.toList) := by
  simp [pathText, arrayText, String.toList_intercalate]

theorem toList_pathText {backend : Backend} (h : backend ≠ .postgres) :
    (pathText backend path).toList = dollarText (path.map String.toList) := by
  cases backend with
  | postgres => exact absurd rfl h
  | sqlite | mysql =>
    simp [pathText, dollarText, String.toList_join, List.flatMap_map]

end Text

theorem map_ofList_eq_iff {keys : List (List Char)} {path : List String} :
    keys.map String.ofList = path ↔ keys = path.map String.toList := by
  constructor
  · rintro rfl
    simp [Function.comp_def]
  · rintro rfl
    simp [Function.comp_def]

/-- The text of a path leads through the keys it was made of exactly if all of them are plain. -/
theorem readPath_pathText_iff (ids : IdentifierChars) (backend : Backend) (path : List String) :
    readPath ids backend (pathText backend path) = some path ↔
      ∀ segment ∈ path, PlainSegment ids backend segment := by
  rw [readPath, Option.map_eq_some_iff]
  simp only [map_ofList_eq_iff, exists_eq_right]
  cases backend with
  | postgres =>
    rw [toList_pathText_postgres, keysOf?, arrayItems?_arrayText_iff, List.forall_mem_map]
    simp only [plainSegment_postgres_iff]
  | sqlite =>
    rw [toList_pathText (by decide), keysOf?, DollarSyntax.keys?_dollarText_iff,
      List.forall_mem_map]
    simp only [plainSegment_sqlite_iff]
  | mysql =>
    rw [toList_pathText (by decide), keysOf?, DollarSyntax.keys?_dollarText_iff,
      List.forall_mem_map]
    simp only [plainSegment_mysql_iff]

end Sql

namespace Sql

/-- What stands between the keys of a path. -/
def separator : Backend → Char
  | .postgres => ','
  | _ => '.'

theorem flatMap_dot {keys : List (List Char)} (h : keys ≠ []) :
    keys.flatMap ('.' :: ·) = '.' :: ['.'].intercalate keys := by
  obtain ⟨key, keys, rfl⟩ := List.exists_cons_of_ne_nil h
  clear h
  induction keys generalizing key with
  | nil => simp
  | cons next keys ih =>
    rw [List.flatMap_cons, ih, List.intercalate_cons_cons]
    simp

/-- What stands before the keys of a path and behind them. -/
theorem exists_toList_pathText (backend : Backend) : ∃ front back : List Char,
    ∀ path : List String, path ≠ [] → (pathText backend path).toList =
      front ++ [separator backend].intercalate (path.map String.toList) ++ back := by
  cases backend with
  | postgres => exact ⟨['\x7b'], ['\x7d'], fun path _ => toList_pathText_postgres⟩
  | sqlite | mysql =>
    refine ⟨['$', '.'], [], fun path hpath => ?_⟩
    rw [toList_pathText (by decide), dollarText, flatMap_dot (by simpa using hpath)]
    simp [separator]

/-- Paths whose keys do not have the separator can be told apart by their texts. -/
theorem pathText_injective {backend : Backend} {path path' : List String} (hpath : path ≠ [])
    (hpath' : path' ≠ []) (h : ∀ segment ∈ path ++ path', separator backend ∉ segment.toList)
    (htext : pathText backend path = pathText backend path') : path = path' := by
  obtain ⟨front, back, hshape⟩ := exists_toList_pathText backend
  have hkeys : [separator backend].intercalate (path.map String.toList) =
      [separator backend].intercalate (path'.map String.toList) := by
    have hboth := congrArg String.toList htext
    rw [hshape path hpath, hshape path' hpath'] at hboth
    exact List.append_cancel_left (List.append_cancel_right hboth)
  obtain ⟨hsep, hsep'⟩ := List.forall_mem_append.mp h
  have hsplit := congrArg (List.splitOn (separator backend)) hkeys
  rw [List.splitOn_intercalate _ (List.forall_mem_map.mpr hsep) (by simpa using hpath),
    List.splitOn_intercalate _ (List.forall_mem_map.mpr hsep') (by simpa using hpath')] at hsplit
  exact List.map_injective_iff.mpr (fun _ _ => String.toList_inj.mp) hsplit

end Sql

open Sql

/-- The operations on documents. -/
def Operation.readsDocument : Operation → Bool
  | jsonLike | jsonContains | jsonArrayContainsAny => true
  | _ => false

namespace Sql

/-- A test of the document at a path, in one column of the table instance `table`. -/
def Predicate.TestsAt (table column : String) (path : List String) (q : Predicate) : Prop :=
  q = .constant false ∨ ∃ test, q = .document ⟨table, column⟩ path test

theorem pathText_mem_values (backend : Backend) (c : Column) (path : List String)
    (test : DocumentTest) :
    .text (pathText backend path) ∈ (test.fragment backend c path).values := by
  cases test <;> cases backend <;> simp [DocumentTest.fragment, Column.fragment]

end Sql

namespace Scope
variable {s : Scope} {c : Criterion} {f : String → Nat → Condition} {p : Spot} {path : List String}

/-- The path of a spot is what its key has after the arrow, cut at points. -/
theorem path_of_spot {key : String} (hspot : (s.spot key).found = .ok p)
    (hpath : p.path = some path) : ∃ text, path = Text.parts '.' text := by
  obtain ⟨relationships, hreads⟩ := exists_reads_iff.mpr hspot
  cases hreads with
  | field => cases hpath
  | document _ _ _ hsegments _ =>
    obtain rfl := Option.some.inj hpath
    exact ⟨_, (Text.parts_eq_iff.mpr hsegments).symm⟩

theorem testsAt_of_planDocumentTest {test : Except SearchError DocumentTest}
    (hspot : (s.spot c.key).found = .ok p) (hpath : p.path = some path)
    (h : (s.planDocumentTest c test).condition = .ok f) (table : String) (n : Nat) :
    ∀ q ∈ (f table n).predicates, q.TestsAt table p.column path := by
  obtain ⟨p', path', t, hspot', hpath', -, rfl⟩ := planDocumentTest_eq_ok h
  obtain rfl := Except.ok.inj (hspot'.symm.trans hspot)
  obtain rfl := Option.some.inj (hpath'.symm.trans hpath)
  simp [Predicate.TestsAt]

theorem testsAt_of_planElements (hspot : (s.spot c.key).found = .ok p) (hpath : p.path = some path)
    (h : (s.planElements c).condition = .ok f) (table : String) (n : Nat) :
    ∀ q ∈ (f table n).predicates, q.TestsAt table p.column path := by
  obtain ⟨found, hfound, rfl | ⟨needles, rfl⟩⟩ := planElements_eq_ok h
  · simp [OwnTest.condition, Predicate.TestsAt]
  · obtain rfl := Except.ok.inj (hfound.symm.trans hspot)
    intro q hq
    simp only [OwnTest.condition, Condition.predicates_group, List.flatMap_map,
      Condition.predicates_test, List.mem_flatMap, List.mem_singleton] at hq
    obtain ⟨needle, -, rfl⟩ := hq
    exact .inr ⟨.holdsElement needle, by rw [hpath]; rfl⟩

/-- An operation on documents tests the document at the path of its key. -/
theorem testsAt_of_plan (hop : c.operation.readsDocument = true)
    (hspot : (s.spot c.key).found = .ok p) (hpath : p.path = some path)
    (h : (s.plan c).condition = .ok f) (table : String) (n : Nat) :
    ∀ q ∈ (f table n).predicates, q.TestsAt table p.column path := by
  rw [plan_eq] at h
  split at h
  case isFalse => simp [Plan.refuse] at h
  case isTrue =>
    cases hcase : c.operation <;> simp only [hcase, Operation.readsDocument, Bool.false_eq_true]
      at hop h
    case jsonLike | jsonContains => exact testsAt_of_planDocumentTest hspot hpath h table n
    case jsonArrayContainsAny => exact testsAt_of_planElements hspot hpath h table n

/-- The text that a document operation binds for the path of its key leads through the segments of
the path exactly if all of them are plain. Other paths have other texts, save that PostgreSQL takes
a comma for the end of a segment. -/
theorem document_path_read (s : Scope) (key : String) (p : Spot) (path : List String)
    (hspot : (s.spot key).found = .ok p) (hpath : p.path = some path) (ids : IdentifierChars)
    (backend : Backend) :
    (∀ (c : Criterion) (pass pass' : Pass) (own : Condition), c.key = key →
      c.operation.readsDocument = true → s.leaf c pass = (.ok own, pass') →
      ∀ q ∈ own.predicates, q = .constant false ∨
        ∃ table test, q = .document ⟨table, p.column⟩ path test ∧
          .text (pathText backend path) ∈ (q.fragment backend).values) ∧
    (readPath ids backend (pathText backend path) = some path ↔
      ∀ segment ∈ path, PlainSegment ids backend segment) ∧
    ∀ key' p' path', (s.spot key').found = .ok p' → p'.path = some path' →
      pathText backend path = pathText backend path' →
      path = path' ∨ backend = .postgres ∧ ∃ segment ∈ path ++ path', ',' ∈ segment.toList := by
  refine ⟨?_, readPath_pathText_iff ids backend path, ?_⟩
  · rintro c pass pass' own rfl hop h q hq
    obtain ⟨-, f, hf, rfl⟩ := leaf_eq_ok_iff.mp h
    rcases testsAt_of_plan hop hspot hpath hf _ _ q hq with rfl | ⟨test, rfl⟩
    · exact .inl rfl
    · exact .inr ⟨_, test, rfl, pathText_mem_values backend _ path test⟩
  · intro key' p' path' hspot' hpath' htext
    obtain ⟨text, rfl⟩ := path_of_spot hspot hpath
    obtain ⟨text', rfl⟩ := path_of_spot hspot' hpath'
    rw [or_iff_not_imp_right, not_and]
    push Not
    intro hcomma
    refine pathText_injective (Text.parts_ne_nil '.' text) (Text.parts_ne_nil '.' text') ?_ htext
    intro segment hsegment
    cases backend with
    | postgres => exact hcomma rfl segment hsegment
    | sqlite | mysql =>
      rcases List.mem_append.mp hsegment with hsegment | hsegment <;>
        exact Text.notMem_of_mem_parts hsegment

end Scope

/-- A nickname, two keys down. -/
theorem document_path_read_nickname :
    readPath .ascii .postgres (pathText .postgres ["name", "nick name"]) =
        some ["name", "nick name"] ∧
      ∃ q, (playerScope.leaf ⟨"tags->name.nick name", .jsonLike, .text "Ann", [], [], none⟩
          .empty).1 = .ok (.ofPredicate q) ∧
        .text "\x7bname,nick name\x7d" ∈ (q.fragment .postgres).values := by
  obtain ⟨hbinds, hreads, -⟩ := playerScope.document_path_read "tags->name.nick name"
    ⟨"tags", .json, false, some ["name", "nick name"]⟩ ["name", "nick name"] rfl rfl .ascii
    .postgres
  refine ⟨hreads.mpr (by simp [PlainSegment, isArraySpace, isArrayMark]), ?_⟩
  let q : Predicate := .document ⟨"players", "tags"⟩ ["name", "nick name"] (.holdsText "Ann")
  refine ⟨q, rfl, ?_⟩
  rcases hbinds ⟨"tags->name.nick name", .jsonLike, .text "Ann", [], [], none⟩ .empty .empty
    (.ofPredicate q) rfl rfl rfl q (by simp) with hconstant | ⟨_, _, -, hvalues⟩
  · simp [q] at hconstant
  · exact hvalues

/-- A comma ends a segment for PostgreSQL, and quotes take in a point elsewhere. -/
theorem document_path_misread :
    (∃ p q, (playerScope.spot "tags->a,b").found = .ok p ∧ p.path = some ["a,b"] ∧
      (playerScope.spot "tags->a.b").found = .ok q ∧ q.path = some ["a", "b"]) ∧
    pathText .postgres ["a,b"] = pathText .postgres ["a", "b"] ∧
    readPath .ascii .postgres (pathText .postgres ["a,b"]) = some ["a", "b"] ∧
    (∃ p, (playerScope.spot "tags->\"a.b\"").found = .ok p ∧ p.path = some ["\"a", "b\""]) ∧
    readPath .ascii .sqlite (pathText .sqlite ["\"a", "b\""]) = some ["a.b"] ∧
    readPath .ascii .mysql (pathText .mysql ["\"a", "b\""]) = some ["a.b"] :=
  ⟨⟨_, _, rfl, rfl, rfl, rfl⟩, rfl, by decide, ⟨_, rfl, rfl⟩, by decide, by decide⟩

end EntitySearch
