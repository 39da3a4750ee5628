import EntitySearch.Proofs.Exclusion
import EntitySearch.Proofs.LetterCase
import Mathlib.Data.List.Infix
/-!
Matching of patterns. The patterns bound for the text of an operand take that text literally: they
match the texts that contain it, start with it or end with it, and in lower case those that do so
in lower case.
-/
namespace EntitySearch

namespace Sql

/-- What one place of a pattern takes of a text. -/
inductive Wildcard
  | sequence
  | one
  | literal (c : Char)
  deriving DecidableEq, Repr

/-- The places of a pattern. The character after an escape stands for itself, and a pattern that
ends in an escape is none; `escaped` tells that an escape has just been read. -/
def wildcards? (escape : Char) (escaped : Bool) : List Char → Option (List Wildcard)
  | [] => if escaped then none else some []
  | c :: cs =>
    if escaped then (wildcards? escape false cs).map (.literal c :: ·)
    else if c = escape then wildcards? escape true cs
    else
      (wildcards? escape false cs).map
        ((if c = '%' then .sequence else if c = '_' then .one else .literal c) :: ·)

/-- Whether the places take a whole text; a sequence may take any part of it. -/
def Wildcard.fits : List Wildcard → List Char → Bool
  | [], t => t.isEmpty
  | .sequence :: ws, t => t.tails.any (fits ws)
  | .one :: ws, t =>
    match t with
    | [] => false
    | _ :: t => fits ws t
  | .literal c :: ws, t =>
    match t with
    | [] => false
    | d :: t => c == d && fits ws t

/-- `text LIKE pattern ESCAPE escape`. -/
def matchesPattern (escape : Char) (pattern text : String) : Bool :=
  (wildcards? escape false pattern.toList).any fun ws => Wildcard.fits ws text.toList

namespace Wildcard

theorem fits_sequence_iff {ws : List Wildcard} {t : List Char} :
    fits (.sequence :: ws) t = true ↔ ∃ r, r <:+ t ∧ fits ws r = true := by
  simp [fits]

theorem fits_literals_iff {v : List Char} {ws : List Wildcard} {t : List Char} :
    fits (v.map .literal ++ ws) t = true ↔ ∃ r, t = v ++ r ∧ fits ws r = true := by
  induction v generalizing t with
  | nil => simp
  | cons c v ih =>
    cases t with
    | nil => simp [fits]
    | cons d t =>
      simp only [List.map_cons, List.cons_append, fits, Bool.and_eq_true, beq_iff_eq, ih,
        List.cons.injEq]
      constructor
      · rintro ⟨rfl, r, rfl, hr⟩
        exact ⟨r, ⟨rfl, rfl⟩, hr⟩
      · rintro ⟨r, ⟨rfl, rfl⟩, hr⟩
        exact ⟨rfl, r, rfl, hr⟩

theorem fits_prefix_iff {v t : List Char} :
    fits (v.map .literal ++ [.sequence]) t = true ↔ v <+: t := by
  rw [fits_literals_iff]
  constructor
  · rintro ⟨r, rfl, -⟩
    exact List.prefix_append v r
  · rintro ⟨r, rfl⟩
    exact ⟨r, rfl, fits_sequence_iff.mpr ⟨[], List.nil_suffix, rfl⟩⟩

theorem fits_suffix_iff {v t : List Char} :
    fits (.sequence :: v.map .literal) t = true ↔ v <:+ t := by
  have hwhole (r : List Char) : fits (v.map .literal) r = true ↔ r = v := by
    rw [← List.append_nil (v.map Wildcard.literal), fits_literals_iff]
    simp [fits]
  rw [fits_sequence_iff]
  simp only [hwhole, exists_eq_right]

theorem fits_infix_iff {v t : List Char} :
    fits (.sequence :: (v.map .literal ++ [.sequence])) t = true ↔ v <:+: t := by
  rw [fits_sequence_iff, List.infix_iff_prefix_suffix]
  simp only [fits_prefix_iff, and_comm]

end Wildcard

section Read
variable (cs : List Char)

theorem wildcards?_escaped (d : Char) : wildcards? likeEscape false (likeEscape :: d :: cs) =
    (wildcards? likeEscape false cs).map (.literal d :: ·) := by
  simp [wildcards?]

theorem wildcards?_percent : wildcards? likeEscape false ('%' :: cs) =
    (wildcards? likeEscape false cs).map (.sequence :: ·) := by
  simp [wildcards?, likeEscape]

theorem wildcards?_tame {c : Char} (h : isWild c = false) :
    wildcards? likeEscape false (c :: cs) =
      (wildcards? likeEscape false cs).map (.literal c :: ·) := by
  simp only [isWild, Bool.or_eq_false_iff, beq_eq_false_iff_ne] at h
  obtain ⟨⟨hpercent, hunderscore⟩, hescape⟩ := h
  simp [wildcards?, hpercent, hunderscore, hescape]

/-- Escaped text is read as the text itself, whatever follows it. -/
theorem wildcards?_escapeLike (v : String) :
    wildcards? likeEscape false ((escapeLike v).toList ++ cs) =
      (wildcards? likeEscape false cs).map (v.toList.map .literal ++ ·) := by
  rw [escapeLike, String.toList_ofList]
  induction v.toList with
  | nil => simp
  | cons d ds ih =>
    rw [List.flatMap_cons, List.append_assoc]
    cases hwild : isWild d with
    | true => simp [wildcards?_escaped, ih, Function.comp_def]
    | false => simp [wildcards?_tame _ hwild, ih, Function.comp_def]

end Read

section Literal
variable (v : String)

theorem toList_containing : (containing v).toList = '%' :: ((escapeLike v).toList ++ ['%']) := by
  simp [containing]

theorem toList_startingWith : (startingWith v).toList = (escapeLike v).toList ++ ['%'] := by
  simp [startingWith]

theorem toList_endingWith : (endingWith v).toList = '%' :: ((escapeLike v).toList ++ []) := by
  simp [endingWith]

theorem wildcards?_containing : wildcards? likeEscape false (containing v).toList =
    some (.sequence :: (v.toList.map .literal ++ [.sequence])) := by
  rw [toList_containing, wildcards?_percent, wildcards?_escapeLike]
  rfl

theorem wildcards?_startingWith : wildcards? likeEscape false (startingWith v).toList =
    some (v.toList.map .literal ++ [.sequence]) := by
  rw [toList_startingWith, wildcards?_escapeLike]
  rfl

theorem wildcards?_endingWith : wildcards? likeEscape false (endingWith v).toList =
    some (.sequence :: v.toList.map .literal) := by
  rw [toList_endingWith, wildcards?_percent, wildcards?_escapeLike]
  simp [wildcards?]

end Literal

/-- Lower case that leaves the characters of patterns alone and turns no other into one. -/
structure KeepsWild (lower : Char → Char) : Prop where
  fixed : ∀ c, isWild c = true → lower c = c
  tame : ∀ c, isWild (lower c) = true → isWild c = true

theorem ascii_of_isWild {c : Char} (h : isWild c = true) :
    c.toNat < 128 ∧ c.isUpper = false ∧ c.isLower = false := by
  simp only [isWild, Bool.or_eq_true, beq_iff_eq] at h
  obtain (rfl | rfl) | rfl := h <;> decide

/-- The characters of patterns are no letters. -/
theorem keepsWild_of_lowerCase {lower : Char → Char} (h : LowerCase lower) : KeepsWild lower where
  fixed c hc := h.fixed c (ascii_of_isWild hc).1 (ascii_of_isWild hc).2.1
  tame c hc := by
    obtain ⟨hascii, -, hnone⟩ := ascii_of_isWild hc
    rcases h.letter c with hsame | hsmall | hwide
    · rwa [hsame] at hc
    · simp [hnone] at hsmall
    · omega

theorem KeepsWild.isWild_lower {lower : Char → Char} (h : KeepsWild lower) (c : Char) :
    isWild (lower c) = isWild c := by
  cases hwild : isWild c with
  | true => rw [h.fixed c hwild, hwild]
  | false => exact Bool.eq_false_iff.mpr fun hlower => by simp [h.tame c hlower] at hwild

/-- Escaping commutes with lower case. -/
theorem KeepsWild.map_containing {lower : Char → Char} (h : KeepsWild lower) (v : String) :
    (containing v).map lower = containing (v.map lower) := by
  have hescape (c : Char) : (if isWild c then [likeEscape, c] else [c]).map lower =
      if isWild (lower c) then [likeEscape, lower c] else [lower c] := by
    rw [h.isWild_lower]
    cases hwild : isWild c with
    | true => simp [h.fixed likeEscape rfl]
    | false => simp
  apply String.toList_inj.mp
  simp only [containing, escapeLike, String.toList_map, String.toList_append,
    String.toList_ofList, List.map_append, List.map_flatMap, List.flatMap_map, hescape]
  simp [h.fixed '%' rfl]

section Matches
variable {v t : String}

theorem matchesPattern_containing :
    matchesPattern likeEscape (containing v) t = true ↔ v.toList <:+: t.toList := by
  rw [matchesPattern, wildcards?_containing, Option.any_some, Wildcard.fits_infix_iff]

theorem matchesPattern_startingWith :
    matchesPattern likeEscape (startingWith v) t = true ↔ v.toList <+: t.toList := by
  rw [matchesPattern, wildcards?_startingWith, Option.any_some, Wildcard.fits_prefix_iff]

theorem matchesPattern_endingWith :
    matchesPattern likeEscape (endingWith v) t = true ↔ v.toList <:+ t.toList := by
  rw [matchesPattern, wildcards?_endingWith, Option.any_some, Wildcard.fits_suffix_iff]

end Matches

/-- The clause of a statement that compares a column with a pattern, the escape written out. -/
def likeClause (backend : Backend) (column : Column) (pattern : String) : Fragment :=
  column.fragment backend ++ [.text " LIKE ", .bind (.text pattern), .text " ESCAPE ",
    .text (Value.literal backend (.text likeEscape.toString))]

/-- A test that compares one column with one pattern, which is all the text that it binds. -/
def Predicate.Compares (q : Predicate) (pattern : String) : Prop :=
  ∃ column : Column, ∀ backend, likeClause backend column pattern <:+: q.fragment backend ∧
    ∀ text, .text text ∈ (q.fragment backend).values → text = pattern

theorem Predicate.compares_column (column : Column) (pattern : String) :
    (Predicate.column column (.like pattern)).Compares pattern := by
  refine ⟨column, fun backend => ⟨List.infix_rfl, fun text htext => ?_⟩⟩
  simpa [fragment, ColumnTest.fragment, Column.fragment] using htext

theorem Predicate.compares_noneRelated {r : Related} {pattern : String}
    (h : r.test = .like pattern) : (Predicate.noneRelated r).Compares pattern := by
  refine ⟨⟨r.name, r.column⟩, fun backend => ⟨?_, fun text htext => ?_⟩⟩
  · simp only [fragment, Related.fragment, h]
    exact ((List.suffix_cons _ _).trans (List.suffix_append _ _)).isInfix.trans
      (List.prefix_append _ _).isInfix
  · simpa [fragment, Related.fragment, h, ColumnTest.fragment, Column.fragment, linkFragment]
      using htext

end Sql

open Sql

/-- How the text of an operand lies in the texts that an operation asks for. -/
def Operation.Finds : Operation → List Char → List Char → Prop
  | likeStart, v, t => v <+: t
  | likeEnd, v, t => v <:+ t
  | _, v, t => v <:+: t

namespace Scope
variable {s : Scope} {c : Criterion} {f : String → Nat → Condition} {v : String}

theorem planPattern_compares {pattern : String → String} (htext : c.textValue = .ok v)
    (h : (s.planPattern c pattern).condition = .ok f) (table : String) (n : Nat) :
    ∃ q, f table n = .ofPredicate q ∧ q.Compares (pattern v) := by
  simp only [planPattern, htext] at h
  obtain ⟨p, -, h⟩ := bind_eq_ok_iff.mp h
  obtain rfl := Except.ok.inj h
  exact ⟨_, rfl, Predicate.compares_column ⟨table, p.column⟩ (pattern v)⟩

theorem planAbsence_compares {pattern : String}
    (h : (s.planAbsence c (.ok (some (.like pattern)))).condition = .ok f) (table : String)
    (n : Nat) : ∃ q, f table n = .ofPredicate q ∧ q.Compares pattern := by
  obtain ⟨r, -, h⟩ := bind_eq_ok_iff.mp h
  obtain rfl := Except.ok.inj h
  exact ⟨_, rfl, Predicate.compares_noneRelated rfl⟩

/-- The text of an operand is found literally: the pattern bound for it, which never ends in an
escape, matches the texts that contain it, start with it or end with it. In a document it is found
in lower case. -/
theorem operand_found (s : Scope) (c : Criterion) (v : String) (hv : c.operand = .text v)
    (pass pass' : Pass) (own : Condition) (h : s.leaf c pass = (.ok own, pass')) :
    (c.operation ∈ [.like, .likeStart, .likeEnd, .excludeLike] →
      ∃ q pattern, own = .ofPredicate q ∧ q.Compares pattern ∧
        (wildcards? likeEscape false pattern.toList).isSome = true ∧
        ∀ t : String, matchesPattern likeEscape pattern t = true ↔
          c.operation.Finds v.toList t.toList) ∧
    (c.operation = .jsonLike →
      ∃ q path pattern, own = .ofPredicate q ∧
        (∀ backend, (q.fragment backend).values =
          [.text (pathText backend path), .text pattern, .text likeEscape.toString]) ∧
        (wildcards? likeEscape false pattern.toList).isSome = true ∧
        ∀ lower, KeepsWild lower →
          (wildcards? likeEscape false (pattern.map lower).toList).isSome = true ∧
          ∀ t : String, matchesPattern likeEscape (pattern.map lower) (t.map lower) = true ↔
            (v.map lower).toList <:+: (t.map lower).toList) := by
  obtain ⟨-, f, hf, rfl⟩ := leaf_eq_ok_iff.mp h
  have htext : c.textValue = .ok v := by rw [Criterion.textValue, hv]; rfl
  have hshape : c.operand.hasShape c.operation.shape = true := by
    by_contra hshape
    rw [plan_eq, if_neg hshape] at hf
    cases hf
  rw [plan_of_shape hshape] at hf
  constructor
  · intro hop
    simp only [List.mem_cons, List.not_mem_nil, or_false] at hop
    rcases hop with hop | hop | hop | hop <;>
      simp only [planFor, hop] at hf ⊢
    case inl =>
      obtain ⟨q, hq, hcompares⟩ := planPattern_compares htext hf _ _
      exact ⟨q, _, hq, hcompares, by rw [wildcards?_containing]; rfl,
        fun t => matchesPattern_containing⟩
    case inr.inl =>
      obtain ⟨q, hq, hcompares⟩ := planPattern_compares htext hf _ _
      exact ⟨q, _, hq, hcompares, by rw [wildcards?_startingWith]; rfl,
        fun t => matchesPattern_startingWith⟩
    case inr.inr.inl =>
      obtain ⟨q, hq, hcompares⟩ := planPattern_compares htext hf _ _
      exact ⟨q, _, hq, hcompares, by rw [wildcards?_endingWith]; rfl,
        fun t => matchesPattern_endingWith⟩
    case inr.inr.inr =>
      rw [htext] at hf
      obtain ⟨q, hq, hcompares⟩ := planAbsence_compares hf _ _
      exact ⟨q, _, hq, hcompares, by rw [wildcards?_containing]; rfl,
        fun t => matchesPattern_containing⟩
  · intro hop
    simp only [planFor, hop, htext] at hf
    obtain ⟨p, path, test, -, -, htest, rfl⟩ := planDocumentTest_eq_ok hf
    obtain rfl := Except.ok.inj htest
    refine ⟨_, path, containing v, rfl, ?_, by rw [wildcards?_containing]; rfl, ?_⟩
    · intro backend
      cases backend <;> rfl
    · intro lower hlower
      rw [hlower.map_containing]
      exact ⟨by rw [wildcards?_containing]; rfl, fun t => matchesPattern_containing⟩

end Scope

/-- A name that holds every character of patterns, and a document that holds a letter beside one. -/
theorem operand_found_discount :
    (∃ q pattern, (playerScope.leaf ⟨"name", .like, .text "50%_\\", [], [], none⟩ .empty).1 =
        .ok (.ofPredicate q) ∧ q.Compares pattern ∧
      matchesPattern likeEscape pattern "at 50%_\\ off" = true ∧
      matchesPattern likeEscape pattern "at 50x_\\ off" = false) ∧
    ∃ q path pattern,
      (playerScope.leaf ⟨"name->title", .jsonLike, .text "A%", [], [], none⟩ .empty).1 =
        .ok (.ofPredicate q) ∧
      (q.fragment .mysql).values =
        [.text (pathText .mysql path), .text pattern, .text likeEscape.toString] ∧
      matchesPattern likeEscape (pattern.map Char.toLower) ("ba%".map Char.toLower) = true := by
  constructor
  · obtain ⟨q, pattern, hq, hcompares, -, hmatches⟩ := (playerScope.operand_found
      ⟨"name", .like, .text "50%_\\", [], [], none⟩ _ rfl .empty _ _ rfl).1 (by decide)
    refine ⟨q, pattern, congrArg _ hq, hcompares, (hmatches _).mpr ?_,
      Bool.eq_false_iff.mpr fun h => ?_⟩
    · show _ <:+: _
      decide
    · revert h
      rw [hmatches]
      show ¬ _ <:+: _
      decide
  · obtain ⟨q, path, pattern, hq, hvalues, -, hmatches⟩ := (playerScope.operand_found
      ⟨"name->title", .jsonLike, .text "A%", [], [], none⟩ _ rfl .empty _ _ rfl).2 rfl
    have hfound := (hmatches _ (keepsWild_of_lowerCase lowerCase_toLower)).2 "ba%"
    exact ⟨q, path, pattern, congrArg _ hq, hvalues .mysql,
      hfound.mpr (by simp only [String.toList_map]; decide)⟩

end EntitySearch
