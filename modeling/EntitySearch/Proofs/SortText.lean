import EntitySearch.Proofs.Execution
import EntitySearch.Proofs.Splitting
import EntitySearch.Proofs.StringArrays
/-!
Texts that ask for an order: entries between semicolons, or one JSON array. What may be written is
described apart from how it is read, and every text that is written so is read as it was meant.
-/
namespace EntitySearch

namespace Text

/-- Nothing but white space. -/
def Blanks (cs : List Char) : Prop := ∀ c ∈ cs, isBlank c = true

/-- A text with white space before and after it. -/
def Padded (core text : List Char) : Prop :=
  ∃ before after, Blanks before ∧ Blanks after ∧ text = before ++ core ++ after

section Trimming
variable {cs ds core text after : List Char} {c : Char}

theorem trimList_eq (cs : List Char) :
    trimList cs = (cs.dropWhile isBlank).rdropWhile isBlank := rfl

theorem toList_trim (s : String) : (trim s).toList = trimList s.toList := String.toList_ofList

theorem Blanks.dropWhile (h : Blanks cs) : cs.dropWhile isBlank = [] :=
  List.dropWhile_eq_nil_iff.mpr h

theorem Blanks.rdropWhile (h : Blanks cs) : cs.rdropWhile isBlank = [] :=
  List.rdropWhile_eq_nil_iff.mpr h

/-- What is dropped in front stops at the first character that is not blank. -/
theorem dropWhile_append_cons (hc : isBlank c = false) :
    (cs ++ c :: ds).dropWhile isBlank = cs.dropWhile isBlank ++ c :: ds := by
  rw [List.dropWhile_append]
  split
  next h => rw [List.isEmpty_iff.mp h, List.dropWhile_cons_of_neg (by simp [hc]), List.nil_append]
  next => rfl

theorem rdropWhile_append_cons (hc : isBlank c = false) :
    (cs ++ c :: ds).rdropWhile isBlank = cs ++ c :: ds.rdropWhile isBlank := by
  simp [List.rdropWhile, dropWhile_append_cons hc]

theorem rdropWhile_append (hafter : Blanks after) :
    (cs ++ after).rdropWhile isBlank = cs.rdropWhile isBlank := by
  have hreverse : ∀ c ∈ after.reverse, isBlank c = true := fun c hc => hafter c (by simpa using hc)
  rw [List.rdropWhile, List.reverse_append, List.dropWhile_append_of_pos hreverse]
  rfl

theorem trimList_append (hafter : Blanks after) : trimList (cs ++ after) = trimList cs := by
  rw [trimList_eq, trimList_eq, List.dropWhile_append]
  split
  next h => rw [List.isEmpty_iff.mp h, hafter.dropWhile]
  next => exact rdropWhile_append hafter

theorem dropWhile_trimList (cs : List Char) : (trimList cs).dropWhile isBlank = trimList cs := by
  obtain ⟨rest, hrest⟩ := List.rdropWhile_prefix isBlank (l := cs.dropWhile isBlank)
  rw [← trimList_eq] at hrest
  cases htrim : trimList cs with
  | nil => rfl
  | cons c ds =>
    -- the first character that was left in front is still the first one
    have hdropped := List.dropWhile_idempotent isBlank cs
    rw [← hrest, htrim, List.cons_append, List.dropWhile_eq_self_iff] at hdropped
    rw [List.dropWhile_eq_self_iff]
    exact fun _ => hdropped (Nat.succ_pos _)

theorem rdropWhile_trimList (cs : List Char) : (trimList cs).rdropWhile isBlank = trimList cs :=
  List.rdropWhile_idempotent isBlank _

theorem trimList_trimList (cs : List Char) : trimList (trimList cs) = trimList cs := by
  rw [trimList_eq (trimList cs), dropWhile_trimList, rdropWhile_trimList]

namespace Padded

theorem refl (cs : List Char) : Padded cs cs :=
  ⟨[], [], List.forall_mem_nil _, List.forall_mem_nil _, by simp⟩

theorem trimList_eq (h : Padded core text) : trimList text = trimList core := by
  obtain ⟨before, after, hbefore, hafter, rfl⟩ := h
  rw [trimList_append hafter, Text.trimList_eq, List.dropWhile_append_of_pos hbefore]
  rfl

/-- White space in front can be dropped. -/
theorem dropWhile (h : Padded core text) (hcore : core.dropWhile isBlank = core) :
    Padded core (text.dropWhile isBlank) := by
  obtain ⟨before, after, hbefore, hafter, rfl⟩ := h
  rw [List.append_assoc, List.dropWhile_append_of_pos hbefore, List.dropWhile_append, hcore]
  split
  next hnil =>
    rw [List.isEmpty_iff.mp hnil, hafter.dropWhile]
    exact ⟨[], [], by simp [Blanks], by simp [Blanks], rfl⟩
  next => exact ⟨[], after, by simp [Blanks], hafter, rfl⟩

theorem rdropWhile (h : Padded core text) (hcore : core.rdropWhile isBlank = core) :
    Padded core (text.rdropWhile isBlank) := by
  obtain ⟨before, after, hbefore, hafter, rfl⟩ := h
  have hreverse : core.reverse.dropWhile isBlank = core.reverse :=
    List.reverse_eq_iff.mp hcore
  rw [rdropWhile_append hafter, List.rdropWhile, List.reverse_append, List.dropWhile_append,
    hreverse]
  split
  next hnil =>
    have hdropped : before.reverse.dropWhile isBlank = [] :=
      Blanks.dropWhile fun c hc => hbefore c (by simpa using hc)
    rw [hdropped]
    exact ⟨[], [], by simp [Blanks], by simp [Blanks], by simpa using hnil⟩
  next => exact ⟨before, [], hbefore, by simp [Blanks], by simp⟩

theorem notMem (h : Padded core text) (hcore : c ∉ core) (hc : isBlank c = false) : c ∉ text := by
  obtain ⟨before, after, hbefore, hafter, rfl⟩ := h
  have hblanks {cs : List Char} (hcs : Blanks cs) : c ∉ cs := by
    intro hmem
    rw [hcs c hmem] at hc
    cases hc
  simp [hblanks hbefore, hblanks hafter, hcore]

end Padded
end Trimming

section Cutting
variable {sep : Char} {cs ds : List Char}

theorem partsList_of_notMem (h : sep ∉ cs) : partsList sep cs = [cs] := by
  induction cs with
  | nil => rfl
  | cons c cs ih =>
    obtain ⟨hc, hcs⟩ := List.ne_and_not_mem_of_not_mem_cons h
    rw [partsList, if_neg (Ne.symm hc), ih hcs]

theorem partsList_append (h : sep ∉ cs) :
    partsList sep (cs ++ sep :: ds) = cs :: partsList sep ds := by
  induction cs with
  | nil => simp [partsList]
  | cons c cs ih =>
    obtain ⟨hc, hcs⟩ := List.ne_and_not_mem_of_not_mem_cons h
    rw [List.cons_append, partsList, if_neg (Ne.symm hc), ih hcs]

theorem cutList_append (h : sep ∉ cs) : cutList [sep] (cs ++ sep :: ds) = some (cs, ds) := by
  induction cs with
  | nil => simp [cutList]
  | cons c cs ih =>
    obtain ⟨hc, hcs⟩ := List.ne_and_not_mem_of_not_mem_cons h
    simp [cutList, hc, ih hcs]

end Cutting

section Case
variable {c : Char} {word : List Char}

/-- In any letter case. -/
def InAnyCase (keyword : String) (word : List Char) : Prop := word.map Char.toUpper = keyword.toList

instance (keyword : String) : Decidable (InAnyCase keyword word) :=
  inferInstanceAs (Decidable (_ = _))

theorem bounds_of_toUpper (h : 65 ≤ c.toUpper.toNat ∧ c.toUpper.toNat ≤ 90) :
    65 ≤ c.toNat ∧ c.toNat ≤ 122 := by
  unfold Char.toUpper at h
  split at h
  next hlower =>
    simp only [UInt32.le_iff_toNat_le, Char.toNat_val] at hlower
    exact ⟨Nat.le_trans (by decide) hlower.1, hlower.2⟩
  next => omega

theorem isBlank_of_letter (h : 65 ≤ c.toNat ∧ c.toNat ≤ 122) : isBlank c = false := by
  simp [isBlank]
  omega

theorem capital_of_letter (h : c.toNat ≤ 122) : capital c = [c.toUpper] := by
  unfold capital
  split <;> first | omega | rfl

end Case
end Text

namespace Direction
open Text
variable {d : Direction} {word : List Char}

theorem letters_of_inAnyCase (h : InAnyCase d.keyword word) {c : Char} (hc : c ∈ word) :
    65 ≤ c.toNat ∧ c.toNat ≤ 122 := by
  have hkeyword : ∀ d : Direction, ∀ k ∈ d.keyword.toList, 65 ≤ k.toNat ∧ k.toNat ≤ 90 := by
    intro d
    cases d <;> simp [Direction.keyword]
  have hmem : c.toUpper ∈ d.keyword.toList := h ▸ List.mem_map_of_mem hc
  exact bounds_of_toUpper (hkeyword d _ hmem)

theorem trimmed_of_inAnyCase (h : InAnyCase d.keyword word) :
    word.dropWhile isBlank = word ∧ word.rdropWhile isBlank = word := by
  have hsolid {c : Char} (hc : c ∈ word) : ¬ isBlank c = true := by
    simp [isBlank_of_letter (letters_of_inAnyCase h hc)]
  constructor
  · exact List.dropWhile_eq_self_iff.mpr fun hpos => hsolid (List.getElem_mem hpos)
  · exact List.rdropWhile_eq_self_iff.mpr fun hne => hsolid (List.getLast_mem hne)

/-- A word is read in any letter case. -/
theorem ofText?_of_inAnyCase (h : InAnyCase d.keyword word) {text : List Char}
    (htext : Padded word text) : ofText? (String.ofList text) = some d := by
  obtain ⟨hfront, hback⟩ := trimmed_of_inAnyCase h
  have htrim : (trim (String.ofList text)).toList = word := by
    rw [toList_trim, String.toList_ofList, htext.trimList_eq, trimList_eq, hfront, hback]
  have hcapitals : word.flatMap capital = d.keyword.toList := by
    rw [← show word.map Char.toUpper = d.keyword.toList from h, List.map_eq_flatMap]
    exact List.flatMap_congr fun c hc => capital_of_letter (letters_of_inAnyCase h hc).2
  have hspells (keyword : String) : spells keyword (trim (String.ofList text)) =
      (d.keyword.toList == keyword.toList) := by
    rw [spells, htrim, hcapitals]
  simp only [ofText?, hspells]
  cases d <;> rfl

end Direction

namespace SortOrder
open Text

/-- Properties that entries can name: a comma or a semicolon would end them. -/
structure Plain (o : SortOrder) : Prop where
  ne_empty : o.property ≠ ""
  trimmed : trim o.property = o.property
  no_comma : ',' ∉ o.property.toList
  no_semicolon : ';' ∉ o.property.toList

/-- How an order may be written as an entry: its property, a comma and its direction, or, if it is
ascending, its property alone. -/
inductive EntryText (o : SortOrder) : List Char → Prop
  | alone {property : List Char} (hdirection : o.direction = .ascending)
    (hproperty : Padded o.property.toList property) : EntryText o property
  | directed {property word direction : List Char} (hproperty : Padded o.property.toList property)
    (hword : InAnyCase o.direction.keyword word) (hdirection : Padded word direction) :
    EntryText o (property ++ ',' :: direction)

/-- How a list of orders may be written: as entries between semicolons, blank ones among them. White
space around the whole text is white space around its first entry and its last one. -/
inductive Entries : List SortOrder → List Char → Prop
  | none {blank : List Char} (hblank : Blanks blank) : Entries [] blank
  | last {o : SortOrder} {entry : List Char} (hentry : EntryText o entry) : Entries [o] entry
  | skip {orders : List SortOrder} {blank text : List Char} (hblank : Blanks blank) :
    Entries orders text → Entries orders (blank ++ ';' :: text)
  | next {o : SortOrder} {orders : List SortOrder} {entry text : List Char}
    (hentry : EntryText o entry) :
    Entries orders text → Entries (o :: orders) (entry ++ ';' :: text)

variable {o : SortOrder} {orders : List SortOrder} {entry cs : List Char}

theorem Plain.front (ho : o.Plain) : o.property.toList.dropWhile isBlank = o.property.toList := by
  rw [← ho.trimmed, toList_trim, dropWhile_trimList]

theorem Plain.back (ho : o.Plain) : o.property.toList.rdropWhile isBlank = o.property.toList := by
  rw [← ho.trimmed, toList_trim, rdropWhile_trimList]

theorem Plain.not_blanks (ho : o.Plain) : ¬ Blanks o.property.toList := by
  intro hblanks
  apply ho.ne_empty
  apply String.toList_injective
  rw [← ho.front, hblanks.dropWhile]
  rfl

section Parts
variable {name : String} {property : List Char} (hne : name ≠ "") (htrimmed : trim name = name)
  (hproperty : Padded name.toList property)
include htrimmed hproperty

/-- A property is read without the white space around it. -/
theorem trim_of_padded : trim (String.ofList property) = name := by
  rw [← htrimmed]
  apply String.toList_injective
  rw [toList_trim, toList_trim, String.toList_ofList, hproperty.trimList_eq]

include hne

theorem ofParts_alone : ofParts (String.ofList property) none = .ok ⟨name, .ascending⟩ := by
  simp [ofParts, trim_of_padded htrimmed hproperty, hne]

theorem ofParts_directed {text : String} {d : Direction} (hd : Direction.ofText? text = some d) :
    ofParts (String.ofList property) (some text) = .ok ⟨name, d⟩ := by
  simp [ofParts, trim_of_padded htrimmed hproperty, hne, hd]

end Parts

namespace EntryText

theorem dropWhile (ho : o.Plain) (h : EntryText o entry) :
    EntryText o (entry.dropWhile isBlank) := by
  cases h with
  | alone hdirection hproperty => exact .alone hdirection (hproperty.dropWhile ho.front)
  | directed hproperty hword hdirection =>
    rw [dropWhile_append_cons (by decide)]
    exact .directed (hproperty.dropWhile ho.front) hword hdirection

theorem rdropWhile (ho : o.Plain) (h : EntryText o entry) :
    EntryText o (entry.rdropWhile isBlank) := by
  cases h with
  | alone hdirection hproperty => exact .alone hdirection (hproperty.rdropWhile ho.back)
  | directed hproperty hword hdirection =>
    rw [rdropWhile_append_cons (by decide)]
    exact .directed hproperty hword (hdirection.rdropWhile (Direction.trimmed_of_inAnyCase hword).2)

theorem no_semicolon (ho : o.Plain) (h : EntryText o entry) : ';' ∉ entry := by
  cases h with
  | alone _ hproperty => exact hproperty.notMem ho.no_semicolon (by decide)
  | directed hproperty hword hdirection =>
    have hletter : ';' ∉ _ := fun hc => absurd (Direction.letters_of_inAnyCase hword hc) (by decide)
    have hfirst := hproperty.notMem ho.no_semicolon (by decide)
    have hsecond := hdirection.notMem hletter (by decide)
    simp [hfirst, hsecond]

theorem subset (h : EntryText o entry) : o.property.toList ⊆ entry := by
  cases h with
  | alone _ hproperty =>
    obtain ⟨before, after, -, -, rfl⟩ := hproperty
    intro c hc
    simp [hc]
  | directed hproperty _ _ =>
    obtain ⟨before, after, -, -, rfl⟩ := hproperty
    intro c hc
    simp [hc]

theorem not_blank (ho : o.Plain) (h : EntryText o entry) : blank (String.ofList entry) = false := by
  rw [Bool.eq_false_iff]
  intro hblank
  rw [blank, String.toList_ofList, List.all_eq_true] at hblank
  exact ho.not_blanks fun c hc => hblank c (h.subset hc)

theorem ofEntry_eq (ho : o.Plain) (h : EntryText o entry) :
    ofEntry (String.ofList entry) = .ok o := by
  cases h with
  | alone hdirection hproperty =>
    have hcut : cut "," (String.ofList entry) = none := by
      have hcomma : ',' ∉ (String.ofList entry).toList := by
        rw [String.toList_ofList]
        exact hproperty.notMem ho.no_comma (by decide)
      exact cut_eq_none_iff.mpr ((List.singleton_infix_iff _ _).not.mpr hcomma)
    rw [ofEntry, hcut]
    rw [ofParts_alone ho.ne_empty ho.trimmed hproperty, ← hdirection]
  | @directed property word direction hproperty hword hdirection =>
    have hcut : cut "," (String.ofList (property ++ ',' :: direction)) =
        some (String.ofList property, String.ofList direction) := by
      have hcomma : cutList [','] (property ++ ',' :: direction) = some (property, direction) :=
        cutList_append (hproperty.notMem ho.no_comma (by decide))
      rw [cut, String.toList_ofList (l := property ++ ',' :: direction)]
      exact congrArg (Option.map _) hcomma
    rw [ofEntry, hcut]
    have hread := Direction.ofText?_of_inAnyCase hword hdirection
    exact ofParts_directed ho.ne_empty ho.trimmed hproperty hread

end EntryText

namespace Entries

theorem dropWhile (ho : ∀ o ∈ orders, o.Plain) (h : Entries orders cs) :
    Entries orders (cs.dropWhile isBlank) := by
  cases h with
  | none hblank =>
    rw [hblank.dropWhile]
    exact .none (by simp [Blanks])
  | last hentry => exact .last (hentry.dropWhile (ho _ List.mem_cons_self))
  | skip hblank htext =>
    rw [dropWhile_append_cons (by decide), hblank.dropWhile]
    exact .skip (by simp [Blanks]) htext
  | next hentry htext =>
    rw [dropWhile_append_cons (by decide)]
    exact .next (hentry.dropWhile (ho _ List.mem_cons_self)) htext

theorem rdropWhile (ho : ∀ o ∈ orders, o.Plain) (h : Entries orders cs) :
    Entries orders (cs.rdropWhile isBlank) := by
  induction h with
  | none hblank =>
    rw [hblank.rdropWhile]
    exact .none (by simp [Blanks])
  | last hentry => exact .last (hentry.rdropWhile (ho _ List.mem_cons_self))
  | skip hblank _ ih =>
    rw [rdropWhile_append_cons (by decide)]
    exact .skip hblank (ih ho)
  | next hentry _ ih =>
    rw [rdropWhile_append_cons (by decide)]
    exact .next hentry (ih fun o hmem => ho o (List.mem_cons_of_mem _ hmem))

/-- White space around the whole text makes no difference to what it lists. -/
theorem trimList (ho : ∀ o ∈ orders, o.Plain) (h : Entries orders cs) :
    Entries orders (Text.trimList cs) :=
  (h.dropWhile ho).rdropWhile ho

end Entries

/-- The orders of the entries that are not blank. -/
def readEntries (cs : List Char) : Except Issue (List SortOrder) :=
  (((partsList ';' cs).map String.ofList).filter fun entry => !Text.blank entry).mapM ofEntry

theorem readEntries_of_entries (ho : ∀ o ∈ orders, o.Plain) (h : Entries orders cs) :
    readEntries cs = .ok orders := by
  have hblanks {cs : List Char} (h : Blanks cs) : blank (String.ofList cs) = true := by
    rw [blank, String.toList_ofList]
    exact List.all_eq_true.mpr h
  have hsemicolon {cs : List Char} (h : Blanks cs) : ';' ∉ cs :=
    fun hmem => absurd (h _ hmem) (by decide)
  induction h with
  | none hblank =>
    rw [readEntries, partsList_of_notMem (hsemicolon hblank)]
    simp [hblanks hblank]
    rfl
  | last hentry =>
    have hplain := ho _ List.mem_cons_self
    rw [readEntries, partsList_of_notMem (hentry.no_semicolon hplain)]
    simp [hentry.not_blank hplain, hentry.ofEntry_eq hplain]
  | skip hblank _ ih =>
    have hrest := ih ho
    rw [readEntries] at hrest
    rw [readEntries, partsList_append (hsemicolon hblank)]
    simpa [hblanks hblank] using hrest
  | next hentry _ ih =>
    have hplain := ho _ List.mem_cons_self
    have hrest := ih fun o hmem => ho o (List.mem_cons_of_mem _ hmem)
    rw [readEntries] at hrest
    rw [readEntries, partsList_append (hentry.no_semicolon hplain)]
    simp [hentry.not_blank hplain, hentry.ofEntry_eq hplain, hrest]
    rfl

section Forms
variable {text : String}

theorem listOfText_of_empty (h : trim text = "") : listOfText text = .ok [] := by
  simp [listOfText, h]

theorem listOfText_of_bracket (h : (trim text).toList.head? = some '[') :
    listOfText text = (ofJsonText (trim text)).map fun o => [o] := by
  have hempty : trim text ≠ "" := by
    rintro heq
    rw [heq] at h
    cases h
  simp [listOfText, h, hempty]

theorem listOfText_eq_readEntries (hempty : trim text ≠ "")
    (hbracket : (trim text).toList.head? ≠ some '[') :
    listOfText text = readEntries (trim text).toList := by
  simp [listOfText, hempty, hbracket, readEntries, parts]

theorem listOfText_of_entries (ho : ∀ o ∈ orders, o.Plain) (h : Entries orders text.toList)
    (hbracket : (trim text).toList.head? ≠ some '[') : listOfText text = .ok orders := by
  have hread : readEntries (trim text).toList = .ok orders := by
    rw [toList_trim]
    exact readEntries_of_entries ho (h.trimList ho)
  by_cases hempty : trim text = ""
  · rw [hempty] at hread
    obtain rfl := Except.ok.inj hread
    exact listOfText_of_empty hempty
  · rw [listOfText_eq_readEntries hempty hbracket, hread]

end Forms

section Array
variable {array : List Char} {strings : List String}

theorem trimList_of_arrayText (h : Json.ArrayText strings array) : trimList array = array := by
  obtain ⟨inner, rfl⟩ := h.exists_brackets
  rw [trimList_eq, List.dropWhile_cons_of_neg (by decide), ← List.cons_append,
    rdropWhile_append_cons (by decide), List.rdropWhile_nil]

/-- A text of an array is read as JSON, whatever its strings are. -/
theorem listOfText_of_arrayText {text : String} (h : Json.ArrayText strings array)
    (htext : Padded array text.toList) :
    listOfText text = (ofJsonText (String.ofList array)).map fun o => [o] := by
  have htrim : trim text = String.ofList array := by
    rw [trim, htext.trimList_eq, trimList_of_arrayText h]
  obtain ⟨inner, rfl⟩ := h.exists_brackets
  rw [listOfText_of_bracket (by rw [htrim, String.toList_ofList]; rfl), htrim]

theorem ofJsonText_of_arrayText (h : Json.ArrayText strings array) :
    ofJsonText (String.ofList array) = match strings with
      | [property] => ofParts property none
      | [property, direction] => ofParts property (some direction)
      | _ => .error (issue form) := by
  have hread : Json.read? (String.ofList array) = some (.array (strings.map .text)) :=
    Json.read?_of_arrayText (by rwa [String.toList_ofList])
  have hitems (read : Json → Option String) (htext : ∀ s, read (.text s) = some s) :
      (strings.map Json.text).mapM read = some strings := by
    clear hread h
    induction strings with
    | nil => rfl
    | cons s ss ih => simp [htext, ih]
  simp only [ofJsonText, hread]
  rw [hitems _ fun _ => rfl]
  rcases strings with _ | ⟨property, _ | ⟨direction, _ | ⟨more, rest⟩⟩⟩ <;> rfl

variable {text : String} {o : SortOrder}

theorem listOfText_of_directedArray (hne : o.property ≠ "")
    (htrimmed : trim o.property = o.property) {word : String}
    (hword : InAnyCase o.direction.keyword word.toList)
    (harray : Json.ArrayText [o.property, word] array) (htext : Padded array text.toList) :
    listOfText text = .ok [o] := by
  have hread : Direction.ofText? word = some o.direction := by
    rw [← String.ofList_toList (s := word)]
    exact Direction.ofText?_of_inAnyCase hword (.refl _)
  have horder := ofParts_directed hne htrimmed (.refl o.property.toList) hread
  rw [String.ofList_toList] at horder
  rw [listOfText_of_arrayText harray htext, ofJsonText_of_arrayText harray]
  simp only [horder]
  rfl

theorem listOfText_of_soleArray (hne : o.property ≠ "") (htrimmed : trim o.property = o.property)
    (hascending : o.direction = .ascending) (harray : Json.ArrayText [o.property] array)
    (htext : Padded array text.toList) : listOfText text = .ok [o] := by
  have horder := ofParts_alone hne htrimmed (.refl o.property.toList)
  rw [String.ofList_toList, ← hascending] at horder
  rw [listOfText_of_arrayText harray htext, ofJsonText_of_arrayText harray]
  simp only [horder]
  rfl

end Array

/-- What comes of reading: an order whose property is there, without white space around it, or a
problem of the sort text. -/
inductive Sound : Except Issue SortOrder → Prop
  | order {o : SortOrder} (hproperty : blank o.property = false)
      (htrimmed : trim o.property = o.property) : Sound (.ok o)
  | problem (message : String) : Sound (.error (issue message))

theorem sound_ofParts (property : String) (direction : Option String) :
    Sound (ofParts property direction) := by
  by_cases hempty : trim property = ""
  · simpa [ofParts, hempty] using Sound.problem _
  · have hsound (d : Direction) : Sound (.ok ⟨trim property, d⟩) := by
      have htrimmed : trimList (trim property).toList = (trim property).toList := by
        rw [toList_trim, trimList_trimList]
      refine .order ?_ (String.toList_injective (by rw [toList_trim, htrimmed]))
      rw [Bool.eq_false_iff]
      intro hblank
      have hblanks : Blanks (trim property).toList := List.all_eq_true.mp hblank
      apply hempty
      apply String.toList_injective
      rw [← htrimmed, trimList_eq, hblanks.dropWhile]
      rfl
    cases direction with
    | none => simpa [ofParts, hempty] using hsound .ascending
    | some text =>
      cases hread : Direction.ofText? text with
      | none => simpa [ofParts, hempty, hread] using Sound.problem _
      | some d => simpa [ofParts, hempty, hread] using hsound d

theorem sound_ofEntry (entry : String) : Sound (ofEntry entry) := by
  unfold ofEntry
  split <;> exact sound_ofParts ..

theorem sound_ofJsonText (text : String) : Sound (ofJsonText text) := by
  unfold ofJsonText
  split
  case h_1 items _ =>
    split
    case h_1 property _ => exact sound_ofParts property none
    case h_2 property direction _ => exact sound_ofParts property (some direction)
    case h_3 => exact .problem _
    case h_4 => exact .problem _
  case h_2 => exact .problem _

theorem listOfText_cases (text : String) : listOfText text = .ok [] ∨
    listOfText text = (ofJsonText (trim text)).map (fun o => [o]) ∨
    listOfText text = readEntries (trim text).toList := by
  by_cases hempty : trim text = ""
  · exact .inl (listOfText_of_empty hempty)
  · by_cases hbracket : (trim text).toList.head? = some '['
    · exact .inr (.inl (listOfText_of_bracket hbracket))
    · exact .inr (.inr (listOfText_eq_readEntries hempty hbracket))

theorem sound_of_mem_listOfText {text : String} (h : listOfText text = .ok orders)
    (ho : o ∈ orders) : Sound (.ok o) := by
  rcases listOfText_cases text with hnone | harray | hentries
  · obtain rfl := Except.ok.inj (hnone.symm.trans h)
    cases ho
  · rw [harray] at h
    have hsound := sound_ofJsonText (trim text)
    cases hread : ofJsonText (trim text) with
    | error issue =>
      rw [hread] at h
      cases h
    | ok o' =>
      rw [hread] at h hsound
      obtain rfl := Except.ok.inj h
      exact List.mem_singleton.mp ho ▸ hsound
  · rw [hentries] at h
    obtain ⟨entry, -, hentry⟩ := exists_of_mem_mapM h ho
    exact hentry ▸ sound_ofEntry entry

theorem sound_of_listOfText_error {text : String} {issue : Issue}
    (h : listOfText text = .error issue) : Sound (.error issue) := by
  rcases listOfText_cases text with hnone | harray | hentries
  · cases hnone.symm.trans h
  · rw [harray] at h
    have hsound := sound_ofJsonText (trim text)
    cases hread : ofJsonText (trim text) with
    | error issue' =>
      rw [hread] at h hsound
      exact Except.error.inj h ▸ hsound
    | ok o =>
      rw [hread] at h
      cases h
  · rw [hentries] at h
    obtain ⟨entry, -, hentry⟩ := exists_of_mapM_eq_error h
    exact hentry ▸ sound_ofEntry entry

/-- Whatever is wrong with a sort text is told of the same field. -/
theorem field_of_listOfText {text : String} {issue : Issue} (h : listOfText text = .error issue) :
    issue.field = "sort" := by
  cases sound_of_listOfText_error h
  rfl

/-- Entries are read as the orders that they were written for, unless the text is taken for JSON; so
is a JSON array of one order, whose property may have any characters. Whatever the text is, the
properties read off it are there and have no white space around them. -/
theorem listOfText_written :
    (∀ (orders : List SortOrder) (text : String), (∀ o ∈ orders, o.Plain) →
      Entries orders text.toList → (trim text).toList.head? ≠ some '[' →
        listOfText text = .ok orders) ∧
    (∀ (o : SortOrder) (array : List Char) (text : String), o.property ≠ "" →
      trim o.property = o.property → Padded array text.toList →
        (∀ word : String, InAnyCase o.direction.keyword word.toList →
          Json.ArrayText [o.property, word] array → listOfText text = .ok [o]) ∧
        (o.direction = .ascending → Json.ArrayText [o.property] array →
          listOfText text = .ok [o])) ∧
    ∀ (text : String) (orders : List SortOrder), listOfText text = .ok orders →
      ∀ o ∈ orders, blank o.property = false ∧ trim o.property = o.property := by
  refine ⟨fun orders text => listOfText_of_entries, fun o array text hne htrimmed htext => ⟨?_, ?_⟩,
    fun text orders h o ho => ?_⟩
  · intro word hword harray
    exact listOfText_of_directedArray hne htrimmed hword harray htext
  · intro hascending harray
    exact listOfText_of_soleArray hne htrimmed hascending harray htext
  · cases sound_of_mem_listOfText h ho with
    | order hproperty htrimmed => exact ⟨hproperty, htrimmed⟩

def byNameThenAge : List SortOrder := [⟨"name", .descending⟩, ⟨"age", .ascending⟩]

/-- Two entries and a blank one, and an array whose property has separators and a quote. -/
theorem listOfText_written_byNameThenAge :
    (∀ o ∈ byNameThenAge, o.Plain) ∧ Entries byNameThenAge " name ,dEsC;\t;age ".toList ∧
    (trim " name ,dEsC;\t;age ").toList.head? ≠ some '[' ∧
    listOfText " name ,dEsC;\t;age " = .ok byNameThenAge ∧
    trim "a,\"b;" = "a,\"b;" ∧
    InAnyCase Direction.descending.keyword "Desc".toList ∧
    Json.ArrayText ["a,\"b;", "Desc"] "[\"a,\\\"\\u0062;\", \"Desc\"]".toList ∧
    listOfText " [\"a,\\\"\\u0062;\", \"Desc\"]" = .ok [⟨"a,\"b;", .descending⟩] := by
  obtain ⟨hentries, harrays, -⟩ := listOfText_written
  have hplain : ∀ o ∈ byNameThenAge, o.Plain := by
    intro o ho
    rcases List.mem_pair.mp ho with rfl | rfl <;> exact ⟨by decide, by decide, by decide, by decide⟩
  have htext : Entries byNameThenAge " name ,dEsC;\t;age ".toList := by
    have hname : Padded "name".toList " name ".toList :=
      ⟨[' '], [' '], by simp [Blanks, isBlank], by simp [Blanks, isBlank], by decide⟩
    have hage : Padded "age".toList "age ".toList :=
      ⟨[], [' '], by simp [Blanks], by simp [Blanks, isBlank], by decide⟩
    have hsplit : " name ,dEsC;\t;age ".toList =
        (" name ".toList ++ ',' :: "dEsC".toList) ++ ';' :: (['\t'] ++ ';' :: "age ".toList) := by
      decide
    rw [hsplit]
    exact .next (.directed hname (by decide) (.refl _))
      (.skip (by simp [Blanks, isBlank]) (.last (.alone rfl hage)))
  have hbracket : (trim " name ,dEsC;\t;age ").toList.head? ≠ some '[' := by decide
  have htrimmed : trim "a,\"b;" = "a,\"b;" := by decide
  have hword : InAnyCase Direction.descending.keyword "Desc".toList := by decide
  have harray : Json.ArrayText ["a,\"b;", "Desc"] "[\"a,\\\"\\u0062;\", \"Desc\"]".toList := by
    have hproperty : Json.Spelling ['a', ',', '"', 'b', ';']
        ['a', ',', '\\', '"', '\\', 'u', '0', '0', '6', '2', ';'] :=
      .plain (by decide) (.plain (by decide) (.short (by decide) (.unit (n := 98) (by decide)
        (by decide) (.plain (by decide) .nil))))
    have hdirection : Json.Spelling ['D', 'e', 's', 'c'] ['D', 'e', 's', 'c'] :=
      .plain (by decide) (.plain (by decide) (.plain (by decide) (.plain (by decide) .nil)))
    have hsplit : "[\"a,\\\"\\u0062;\", \"Desc\"]".toList =
        '[' :: ([] ++ '"' :: (['a', ',', '\\', '"', '\\', 'u', '0', '0', '6', '2', ';'] ++ '"' ::
          ([] ++ ',' :: ([' '] ++ '"' :: (['D', 'e', 's', 'c'] ++ '"' :: ([] ++ [']'])))))) := by
      decide
    rw [hsplit]
    exact .mk (by simp [Json.Spaces]) (by exact hproperty) (.item (by simp [Json.Spaces])
      (by simp [Json.Spaces, Json.isSpace]) (by exact hdirection) (.done (by simp [Json.Spaces])))
  have hpadded : Padded "[\"a,\\\"\\u0062;\", \"Desc\"]".toList
      " [\"a,\\\"\\u0062;\", \"Desc\"]".toList :=
    ⟨[' '], [], by simp [Blanks, isBlank], by simp [Blanks], by decide⟩
  exact ⟨hplain, htext, hbracket, hentries _ _ hplain htext hbracket, htrimmed, hword, harray,
    (harrays ⟨"a,\"b;", .descending⟩ _ _ (by decide) htrimmed hpadded).1 "Desc" hword harray⟩

end SortOrder
end EntitySearch
