/-!
Letters of ASCII and lower case. What a database makes of other letters is left to it.
-/
namespace EntitySearch

theorem isUpper_iff {c : Char} : c.isUpper = true ↔ 65 ≤ c.toNat ∧ c.toNat ≤ 90 := by
  show decide ('A'.val ≤ c.val ∧ c.val ≤ 'Z'.val) = true ↔ _
  simp [UInt32.le_iff_toNat_le, ← Char.toNat_val]

theorem isLower_iff {c : Char} : c.isLower = true ↔ 97 ≤ c.toNat ∧ c.toNat ≤ 122 := by
  show (decide ('a'.val ≤ c.val) && decide (c.val ≤ 'z'.val)) = true ↔ _
  simp [UInt32.le_iff_toNat_le, ← Char.toNat_val]

/-- Letters are changed to lower case, and nothing else is changed. -/
structure LowerCase (lower : Char → Char) : Prop where
  fixed : ∀ c, c.toNat < 128 → c.isUpper = false → lower c = c
  letter : ∀ c, lower c = c ∨ (lower c).isLower = true ∨ 128 ≤ (lower c).toNat
  idempotent : ∀ c, lower (lower c) = lower c

/-- Only capitals have another letter in lower case, a small one. -/
theorem toLower_cases (c : Char) :
    c.isUpper = false ∧ c.toLower = c ∨ c.isUpper = true ∧ c.toLower.isLower = true := by
  have hbounds : 'A'.val ≤ c.val ∧ c.val ≤ 'Z'.val ↔ c.isUpper = true := decide_eq_true_iff.symm
  unfold Char.toLower
  split
  next h =>
    have hupper := isUpper_iff.mp (hbounds.mp h)
    refine .inr ⟨hbounds.mp h, isLower_iff.mpr ?_⟩
    show 97 ≤ (c.val + 32).toNat ∧ (c.val + 32).toNat ≤ 122
    rw [UInt32.toNat_add, Char.toNat_val]
    simp
    omega
  next h => exact .inl ⟨Bool.eq_false_iff.mpr (h ∘ hbounds.mpr), rfl⟩

/-- Lower case of ASCII letters alone. -/
theorem lowerCase_toLower : LowerCase Char.toLower where
  fixed c _ hupper := by
    obtain ⟨-, hsame⟩ | ⟨hcapital, -⟩ := toLower_cases c
    · exact hsame
    · simp [hupper] at hcapital
  letter c := by
    obtain ⟨-, hsame⟩ | ⟨-, hsmall⟩ := toLower_cases c
    · exact .inl hsame
    · exact .inr (.inl hsmall)
  idempotent c := by
    obtain ⟨-, hsame⟩ | ⟨-, hsmall⟩ := toLower_cases c
    · rw [hsame, hsame]
    · -- a small letter is no capital
      obtain ⟨-, hsame⟩ | ⟨hcapital, -⟩ := toLower_cases c.toLower
      · exact hsame
      · have hsmall := isLower_iff.mp hsmall
        have hcapital := isUpper_iff.mp hcapital
        omega

end EntitySearch
