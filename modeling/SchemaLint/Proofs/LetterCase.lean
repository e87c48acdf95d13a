import SchemaLint.Naming.Case

namespace SchemaLint

namespace Naming

/-!
# Letters and their cases

Capitals, small letters and digits are three intervals of code points, and a change of case
moves a letter by the distance between two of them.  What the conversions of names rely on
follows by arithmetic: the two changes undo each other on letters, and a character that is no
letter stays as it is.
-/

section CodePoints

variable {c : Char}

theorem isUpper_iff : c.isUpper = true ↔ 65 ≤ c.toNat ∧ c.toNat ≤ 90 := by
  show decide ('A'.val ≤ c.val ∧ c.val ≤ 'Z'.val) = true ↔ _
  rw [decide_eq_true_eq, UInt32.le_iff_toNat_le, UInt32.le_iff_toNat_le]
  rfl

theorem isLower_iff : c.isLower = true ↔ 97 ≤ c.toNat ∧ c.toNat ≤ 122 := by
  show (decide ('a'.val ≤ c.val) && decide (c.val ≤ 'z'.val)) = true ↔ _
  rw [Bool.and_eq_true, decide_eq_true_eq, decide_eq_true_eq, UInt32.le_iff_toNat_le,
    UInt32.le_iff_toNat_le]
  rfl

theorem isAlpha_eq (c : Char) : c.isAlpha = (c.isUpper || c.isLower) := rfl

theorem isAlpha_of_isUpper (h : c.isUpper = true) : c.isAlpha = true := by
  rw [isAlpha_eq, h, Bool.true_or]

theorem isAlpha_of_isLower (h : c.isLower = true) : c.isAlpha = true := by
  rw [isAlpha_eq, h, Bool.or_true]

theorem toLower_of_not_isUpper (h : ¬ c.isUpper = true) : c.toLower = c :=
  dif_neg fun hrange => h (decide_eq_true hrange)

theorem toUpper_of_not_isLower (h : ¬ c.isLower = true) : c.toUpper = c :=
  dif_neg fun hrange => h (isLower_iff.2 hrange)

theorem toNat_toLower_of_isUpper (h : c.isUpper = true) : c.toLower.toNat = c.toNat + 32 := by
  have hrange : 'A'.val ≤ c.val ∧ c.val ≤ 'Z'.val := isUpper_iff.1 h
  have hmoved : c.toLower.val = c.val + ('a'.val - 'A'.val) := by
    delta Char.toLower
    rw [dif_pos hrange]
  have hdistance : ('a'.val - 'A'.val).toNat = 32 := rfl
  obtain ⟨-, hlast⟩ := isUpper_iff.1 h
  rw [← Char.toNat_val, hmoved, UInt32.toNat_add, hdistance, Char.toNat_val]
  omega

/-- Raising adds a distance that wraps around. -/
theorem toNat_toUpper_of_isLower (h : c.isLower = true) : c.toUpper.toNat + 32 = c.toNat := by
  have hrange : 'a'.val ≤ c.val ∧ c.val ≤ 'z'.val := isLower_iff.1 h
  have hmoved : c.toUpper.val = c.val + ('A'.val - 'a'.val) := by
    delta Char.toUpper
    rw [dif_pos hrange]
  have hdistance : ('A'.val - 'a'.val).toNat = 4294967264 := rfl
  obtain ⟨hfirst, hlast⟩ := isLower_iff.1 h
  rw [← Char.toNat_val, hmoved, UInt32.toNat_add, hdistance, Char.toNat_val]
  omega

theorem not_isLower_of_isUpper (h : c.isUpper = true) : ¬ c.isLower = true := by
  rw [isUpper_iff] at h
  rw [isLower_iff]
  omega

theorem not_isAlpha_of_isDigit (h : c.isDigit = true) : ¬ c.isAlpha = true := by
  have hdigit : 48 ≤ c.toNat ∧ c.toNat ≤ 57 := Char.isDigit_iff_toNat.1 h
  rw [isAlpha_eq, Bool.or_eq_true, isUpper_iff, isLower_iff]
  omega

end CodePoints

/-!
## Changes of case
-/

theorem isLower_toLower (c : Char) : c.toLower.isLower = c.isAlpha := by
  by_cases hupper : c.isUpper = true
  · have hmoved := toNat_toLower_of_isUpper hupper
    have hlower : c.toLower.isLower = true := by
      rw [isUpper_iff] at hupper
      rw [isLower_iff]
      omega
    rw [hlower, isAlpha_of_isUpper hupper]
  · rw [toLower_of_not_isUpper hupper, isAlpha_eq, Bool.eq_false_iff.2 hupper, Bool.false_or]

theorem isUpper_toUpper (c : Char) : c.toUpper.isUpper = c.isAlpha := by
  by_cases hlower : c.isLower = true
  · have hmoved := toNat_toUpper_of_isLower hlower
    have hupper : c.toUpper.isUpper = true := by
      rw [isLower_iff] at hlower
      rw [isUpper_iff]
      omega
    rw [hupper, isAlpha_of_isLower hlower]
  · rw [toUpper_of_not_isLower hlower, isAlpha_eq, Bool.eq_false_iff.2 hlower, Bool.or_false]

theorem isLower_toUpper (c : Char) : c.toUpper.isLower = false := by
  rw [Bool.eq_false_iff]
  by_cases hlower : c.isLower = true
  · refine not_isLower_of_isUpper ?_
    rw [isUpper_toUpper, isAlpha_of_isLower hlower]
  · rw [toUpper_of_not_isLower hlower]
    exact hlower

theorem toLower_toLower (c : Char) : c.toLower.toLower = c.toLower := by
  by_cases hupper : c.isUpper = true
  · refine toLower_of_not_isUpper fun hagain => not_isLower_of_isUpper hagain ?_
    rw [isLower_toLower, isAlpha_of_isUpper hupper]
  · rw [toLower_of_not_isUpper hupper, toLower_of_not_isUpper hupper]

theorem toLower_toUpper (c : Char) : c.toUpper.toLower = c.toLower := by
  by_cases hlower : c.isLower = true
  · have hraised : c.toUpper.isUpper = true := by rw [isUpper_toUpper, isAlpha_of_isLower hlower]
    have hsmall : c.toLower = c :=
      toLower_of_not_isUpper fun hupper => not_isLower_of_isUpper hupper hlower
    rw [hsmall, ← Char.toNat_inj, toNat_toLower_of_isUpper hraised,
      toNat_toUpper_of_isLower hlower]
  · rw [toUpper_of_not_isLower hlower]

theorem toUpper_toLower (c : Char) : c.toLower.toUpper = c.toUpper := by
  by_cases hupper : c.isUpper = true
  · have hlowered : c.toLower.isLower = true := by
      rw [isLower_toLower, isAlpha_of_isUpper hupper]
    have hback := toNat_toUpper_of_isLower hlowered
    rw [toNat_toLower_of_isUpper hupper] at hback
    rw [toUpper_of_not_isLower (not_isLower_of_isUpper hupper), ← Char.toNat_inj]
    omega
  · rw [toLower_of_not_isUpper hupper]

theorem isAlpha_toUpper (c : Char) : c.toUpper.isAlpha = c.isAlpha := by
  rw [isAlpha_eq, isLower_toUpper, Bool.or_false, isUpper_toUpper]

theorem isAlpha_toLower (c : Char) : c.toLower.isAlpha = c.isAlpha := by
  rw [← isAlpha_toUpper, toUpper_toLower, isAlpha_toUpper]

theorem isDigit_toUpper (c : Char) : c.toUpper.isDigit = c.isDigit := by
  by_cases hlower : c.isLower = true
  · have hletter : c.isAlpha = true := isAlpha_of_isLower hlower
    have hraised : c.toUpper.isAlpha = true := by rw [isAlpha_toUpper, hletter]
    rw [Bool.eq_false_iff.2 fun hdigit => not_isAlpha_of_isDigit hdigit hletter,
      Bool.eq_false_iff.2 fun hdigit => not_isAlpha_of_isDigit hdigit hraised]
  · rw [toUpper_of_not_isLower hlower]

theorem isDigit_toLower (c : Char) : c.toLower.isDigit = c.isDigit := by
  rw [← isDigit_toUpper, toUpper_toLower, isDigit_toUpper]

theorem isAlphanum_toUpper (c : Char) : c.toUpper.isAlphanum = c.isAlphanum := by
  rw [Char.isAlphanum, Char.isAlphanum, isAlpha_toUpper, isDigit_toUpper]

theorem isAlphanum_toLower (c : Char) : c.toLower.isAlphanum = c.isAlphanum := by
  rw [Char.isAlphanum, Char.isAlphanum, isAlpha_toLower, isDigit_toLower]

/-- Lowering makes no underscore. -/
theorem toLower_eq_underscore_iff {c : Char} : c.toLower = '_' ↔ c = '_' := by
  by_cases hupper : c.isUpper = true
  · -- A capital is no underscore, and neither is the small letter it becomes.
    have hletter : c.toLower.isLower = true := by
      rw [isLower_toLower, isAlpha_of_isUpper hupper]
    constructor
    · intro hlowered
      rw [hlowered] at hletter
      exact absurd hletter (by decide)
    · rintro rfl
      exact absurd hupper (by decide)
  · rw [toLower_of_not_isUpper hupper]

/-- Raising makes no underscore. -/
theorem toUpper_eq_underscore_iff {c : Char} : c.toUpper = '_' ↔ c = '_' := by
  rw [← @toLower_eq_underscore_iff c.toUpper, toLower_toUpper, toLower_eq_underscore_iff]

theorem toLower_beq_underscore (c : Char) : (c.toLower == '_') = (c == '_') := by
  rw [Bool.eq_iff_iff, beq_iff_eq, beq_iff_eq, toLower_eq_underscore_iff]

theorem toUpper_beq_underscore (c : Char) : (c.toUpper == '_') = (c == '_') := by
  rw [Bool.eq_iff_iff, beq_iff_eq, beq_iff_eq, toUpper_eq_underscore_iff]

end Naming

end SchemaLint
