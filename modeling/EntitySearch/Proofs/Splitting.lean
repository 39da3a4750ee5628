import EntitySearch.Text.Split
import Mathlib.Data.List.Infix
/-!
What cutting a text gives, told by the occurrences of the separator or of the mark in it.
-/
namespace EntitySearch.Text

/-- The segments stand between the occurrences of `sep` in `text`. -/
structure Segmented (sep : Char) (text : String) (segments : List String) : Prop where
  ne_nil : segments ≠ []
  notMem : ∀ segment ∈ segments, sep ∉ segment.toList
  text_eq : text = (String.singleton sep).intercalate segments

/-- No part of a text that was cut at a separator has it. -/
theorem notMem_of_mem_partsList {sep : Char} {cs part : List Char}
    (h : part ∈ partsList sep cs) : sep ∉ part := by
  induction cs generalizing part with
  | nil =>
    obtain rfl := List.mem_singleton.mp h
    exact List.not_mem_nil
  | cons c cs ih =>
    rw [partsList] at h
    split at h
    case isTrue =>
      rcases List.mem_cons.mp h with rfl | h
      · exact List.not_mem_nil
      · exact ih h
    case isFalse hc =>
      obtain ⟨first, rest, hparts⟩ := List.exists_cons_of_ne_nil (partsList_ne_nil sep cs)
      rw [hparts] at h ih
      rcases List.mem_cons.mp h with rfl | h
      · exact List.not_mem_cons_of_ne_of_not_mem (Ne.symm hc) (ih List.mem_cons_self)
      · exact ih (List.mem_cons_of_mem first h)

theorem notMem_of_mem_parts {sep : Char} {text part : String} (h : part ∈ parts sep text) :
    sep ∉ part.toList := by
  obtain ⟨cs, hcs, rfl⟩ := List.mem_map.mp h
  rw [String.toList_ofList]
  exact notMem_of_mem_partsList hcs

theorem parts_ne_nil (sep : Char) (text : String) : parts sep text ≠ [] := by
  simpa [parts] using partsList_ne_nil sep text.toList

theorem partsList_eq_splitOn (sep : Char) (cs : List Char) : partsList sep cs = cs.splitOn sep := by
  induction cs with
  | nil => simp [partsList]
  | cons c cs ih =>
    rw [partsList, ih, List.splitOn_cons_eq_if_modifyHead]
    cases h : List.splitOn sep cs with
    | nil => exact absurd (ih.trans h) (partsList_ne_nil sep cs)
    | cons p ps => simp

theorem map_toList_parts (sep : Char) (text : String) :
    (parts sep text).map String.toList = text.toList.splitOn sep := by
  simp [parts, partsList_eq_splitOn, Function.comp_def]

theorem parts_eq_iff {sep : Char} {text : String} {segments : List String} :
    parts sep text = segments ↔ Segmented sep text segments := by
  constructor
  · rintro rfl
    refine ⟨parts_ne_nil sep text, fun segment => notMem_of_mem_parts, ?_⟩
    apply String.toList_injective
    rw [String.toList_intercalate, map_toList_parts, String.toList_singleton,
      List.intercalate_splitOn]
  · rintro ⟨hne, hfree, rfl⟩
    apply List.map_injective_iff.mpr fun _ _ => String.toList_injective
    rw [map_toList_parts, String.toList_intercalate, String.toList_singleton]
    apply List.splitOn_intercalate
    · intro l hl
      obtain ⟨segment, hsegment, rfl⟩ := List.mem_map.mp hl
      exact hfree segment hsegment
    · simpa using hne

/-- What stands on the two sides of the first occurrence of `mark` in `text`. -/
structure CutAtFirst (mark text before after : String) : Prop where
  text_eq : text = before ++ mark ++ after
  first : ∀ before' after', text = before' ++ mark ++ after' → before.length ≤ before'.length

section Cut
variable {mark cs before after : List Char}

theorem cutList_eq_none_iff : cutList mark cs = none ↔ ¬ mark <:+: cs := by
  induction cs with
  | nil => simp [cutList]
  | cons c cs ih =>
    rw [cutList, List.infix_cons_iff, not_or, ← ih, ← List.isPrefixOf_iff_prefix]
    split
    next h => simp [h]
    next h => simp [h]

theorem eq_append_of_cutList (h : cutList mark cs = some (before, after)) :
    cs = before ++ mark ++ after := by
  induction cs generalizing before with
  | nil => simp_all [cutList]
  | cons c cs ih =>
    rw [cutList] at h
    split at h
    next hprefix =>
      obtain ⟨rfl, rfl⟩ := Prod.mk.inj (Option.some.inj h)
      exact (List.prefix_iff_eq_append.mp (List.isPrefixOf_iff_prefix.mp hprefix)).symm
    next =>
      obtain ⟨⟨first, rest⟩, hrest, heq⟩ := Option.map_eq_some_iff.mp h
      obtain ⟨rfl, rfl⟩ := Prod.mk.inj heq
      rw [ih hrest]
      rfl

/-- No occurrence starts before the one that is cut at. -/
theorem length_le_of_cutList (h : cutList mark cs = some (before, after))
    {before' after' : List Char} (h' : cs = before' ++ mark ++ after') :
    before.length ≤ before'.length := by
  induction cs generalizing before before' with
  | nil =>
    rw [cutList] at h
    split at h
    · obtain ⟨rfl, -⟩ := Prod.mk.inj (Option.some.inj h)
      exact Nat.zero_le _
    · cases h
  | cons c cs ih =>
    rw [cutList] at h
    split at h
    next =>
      obtain ⟨rfl, -⟩ := Prod.mk.inj (Option.some.inj h)
      exact Nat.zero_le _
    next hprefix =>
      obtain ⟨⟨first, rest⟩, hrest, heq⟩ := Option.map_eq_some_iff.mp h
      obtain ⟨rfl, rfl⟩ := Prod.mk.inj heq
      cases before' with
      | nil =>
        refine absurd (List.isPrefixOf_iff_prefix.mpr ?_) hprefix
        exact ⟨after', by simpa using h'.symm⟩
      | cons d before' =>
        have htail : cs = before' ++ mark ++ after' := (List.cons.inj h').2
        exact Nat.succ_le_succ (ih hrest htail)

end Cut

variable {mark text before after : String}

theorem cut_eq_none_iff : cut mark text = none ↔ ¬ mark.toList <:+: text.toList := by
  rw [cut, Option.map_eq_none_iff, cutList_eq_none_iff]

theorem cutAtFirst_of_cut (h : cut mark text = some (before, after)) :
    CutAtFirst mark text before after := by
  obtain ⟨⟨bs, as⟩, hcut, heq⟩ := Option.map_eq_some_iff.mp h
  obtain ⟨rfl, rfl⟩ := Prod.mk.inj heq
  constructor
  · apply String.toList_injective
    simpa using eq_append_of_cutList hcut
  · intro before' after' htext
    have hlist := congrArg String.toList htext
    rw [String.toList_append, String.toList_append] at hlist
    simpa [← String.length_toList] using length_le_of_cutList hcut hlist

theorem cut_eq_some_iff : cut mark text = some (before, after) ↔ CutAtFirst mark text before after := by
  refine ⟨cutAtFirst_of_cut, fun h => ?_⟩
  cases hcut : cut mark text with
  | none =>
    refine absurd ?_ (cut_eq_none_iff.mp hcut)
    exact ⟨before.toList, after.toList, by simp [h.text_eq]⟩
  | some both =>
    obtain ⟨before', after'⟩ := both
    have h' := cutAtFirst_of_cut hcut
    have hlength : before.length = before'.length :=
      Nat.le_antisymm (h.first _ _ h'.text_eq) (h'.first _ _ h.text_eq)
    have hlist := congrArg String.toList (h.text_eq.symm.trans h'.text_eq)
    simp only [String.toList_append, List.append_assoc] at hlist
    obtain ⟨hbefore, hrest⟩ := List.append_inj hlist (by simpa [String.length_toList] using hlength)
    rw [String.toList_injective hbefore, String.toList_injective (List.append_cancel_left hrest)]

end EntitySearch.Text
