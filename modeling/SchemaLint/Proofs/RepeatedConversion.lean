import Mathlib.Data.List.Chain
import SchemaLint.Proofs.LetterCase

namespace SchemaLint

namespace Naming

/-!
# Converting a name that is converted already

A capital behind a digit starts a word, and in a name without small letters nothing else
does.  So the conversion to `UPPER_SNAKE_CASE` is NOT idempotent, and it does not leave every
accepted name alone: `v2a` becomes `V2A`, which is accepted, and `V2A` becomes `V2_A`.

It is shown that a digit directly before a letter is the only reason, and that a second
conversion takes all of them apart.
-/

/-- No digit stands directly before a character that passes a test. -/
def NoDigitBefore (test : Char → Bool) (name : List Char) : Prop :=
  name.IsChain fun first second => ¬ (first.isDigit = true ∧ test second = true)

instance (test : Char → Bool) : DecidablePred (NoDigitBefore test) :=
  fun name => inferInstanceAs (Decidable (name.IsChain _))

theorem noDigitBefore_cons_cons {test : Char → Bool} {first second : Char} {rest : List Char} :
    NoDigitBefore test (first :: second :: rest) ↔
      ¬ (first.isDigit = true ∧ test second = true) ∧ NoDigitBefore test (second :: rest) :=
  List.isChain_cons_cons

theorem noDigitBefore_of_forall_eq_false {test : Char → Bool} {name : List Char}
    (h : ∀ c ∈ name, test c = false) : NoDigitBefore test name := by
  refine (List.isChain_isInfix name).imp fun first second hpair hdigit => ?_
  have hsecond : second ∈ name := hpair.subset (by simp)
  exact Bool.false_ne_true ((h second hsecond).symm.trans hdigit.2)

/-!
## Names without small letters
-/

theorem isLower_eq_false_of_mem_toUpperSnake {name : List Char} {c : Char}
    (h : c ∈ toUpperSnake name) : c.isLower = false := by
  obtain ⟨lowered, -, rfl⟩ := List.mem_map.1 h
  exact isLower_toUpper lowered

theorem isLower_eq_false_of_isUpperSnake {name : List Char} (h : isUpperSnake name = true)
    {c : Char} (hc : c ∈ name) : c.isLower = false := by
  simp only [isUpperSnake, Bool.and_eq_true, List.all_eq_true, Bool.or_eq_true, beq_iff_eq] at h
  obtain ⟨⟨-, hall⟩, -⟩ := h
  rw [Bool.eq_false_iff]
  intro hlower
  rcases hall c hc with (hupper | hdigit) | rfl
  · exact not_isLower_of_isUpper hupper hlower
  · exact not_isAlpha_of_isDigit hdigit (isAlpha_of_isLower hlower)
  · exact absurd hlower (by decide)

/-- Without small letters around, a word starts behind a digit only. -/
theorem startsWord_eq_isDigit {previous : Char} {rest : List Char}
    (hprevious : previous.isLower = false) (hrest : ∀ c ∈ rest, c.isLower = false) :
    startsWord previous rest = previous.isDigit := by
  have hnext : startsWith Char.isLower rest = false := by
    cases rest with
    | nil => rfl
    | cons c rest => exact hrest c List.mem_cons_self
  rw [startsWord, hprevious, hnext, Bool.and_false, Bool.or_false, Bool.false_or]

theorem map_toUpper_lowerWords {previous : Char} {rest : List Char}
    (hlower : ∀ c ∈ previous :: rest, c.isLower = false)
    (hdigits : NoDigitBefore Char.isUpper (previous :: rest)) :
    (lowerWords previous rest).map Char.toUpper = rest := by
  induction rest generalizing previous with
  | nil => rfl
  | cons c rest ih =>
      obtain ⟨hprevious, hlower⟩ := List.forall_mem_cons.1 hlower
      obtain ⟨hc, hrest⟩ := List.forall_mem_cons.1 hlower
      obtain ⟨hapart, hdigits⟩ := noDigitBefore_cons_cons.1 hdigits
      have hword : ¬ (c.isUpper && startsWord previous rest) = true := by
        rw [startsWord_eq_isDigit hprevious hrest, Bool.and_eq_true, and_comm]
        exact hapart
      rw [lowerWords, if_neg hword, List.map_cons, ih hlower hdigits,
        toUpper_toLower, toUpper_of_not_isLower (by simp [hc])]

theorem toUpperSnake_eq_self {name : List Char} (hlower : ∀ c ∈ name, c.isLower = false)
    (hdigits : NoDigitBefore Char.isUpper name) : toUpperSnake name = name := by
  cases name with
  | nil => rfl
  | cons c rest =>
      have hc : ¬ c.isLower = true := by simp [hlower c List.mem_cons_self]
      rw [toUpperSnake, toLowerSnake, List.map_cons, map_toUpper_lowerWords hlower hdigits,
        toUpper_toLower, toUpper_of_not_isLower hc]

/-!
## Digits in a converted name
-/

/-- In the result a digit stands before a letter exactly where it stood before a small letter:
a capital behind a digit has been parted from it. -/
theorem noDigitBefore_lowerWords (previous : Char) (rest : List Char) :
    NoDigitBefore Char.isUpper (previous.toUpper :: (lowerWords previous rest).map Char.toUpper) ↔
      NoDigitBefore Char.isLower (previous :: rest) := by
  induction rest generalizing previous with
  | nil => exact ⟨fun _ => .singleton _, fun _ => .singleton _⟩
  | cons c rest ih =>
      rw [lowerWords]
      split
      · next hword =>
        obtain ⟨hupper, -⟩ := Bool.and_eq_true_iff.1 hword
        -- The new underscore is neither a digit nor a letter.
        have hc : c.isLower = false := by
          simpa using not_isLower_of_isUpper hupper
        rw [List.map_cons, List.map_cons, noDigitBefore_cons_cons, noDigitBefore_cons_cons,
          noDigitBefore_cons_cons, toUpper_toLower, ih, hc]
        simp [show Char.toUpper '_' = '_' by decide]
      · next hword =>
        -- Behind a digit every capital starts a word, so here only small letters are left.
        have hletter : previous.isDigit = true → c.isAlpha = c.isLower := by
          intro hdigit
          have hupper : c.isUpper = false := by
            rw [Bool.eq_false_iff]
            intro hupper
            exact hword (by simp [startsWord, hupper, hdigit])
          rw [isAlpha_eq, hupper, Bool.false_or]
        rw [List.map_cons, noDigitBefore_cons_cons, noDigitBefore_cons_cons,
          toUpper_toLower, ih, isDigit_toUpper, isUpper_toUpper]
        exact and_congr_left' (not_congr (and_congr_right fun hdigit => by rw [hletter hdigit]))

theorem noDigitBefore_toUpperSnake_iff {name : List Char} :
    NoDigitBefore Char.isUpper (toUpperSnake name) ↔ NoDigitBefore Char.isLower name := by
  cases name with
  | nil => exact ⟨fun _ => .nil, fun _ => .nil⟩
  | cons c rest =>
      rw [toUpperSnake, toLowerSnake, List.map_cons, toUpper_toLower]
      exact noDigitBefore_lowerWords c rest

/-- A name without small letters is left alone if it has no digit before a letter. -/
theorem toUpperSnake_eq_self_iff {name : List Char} (hlower : ∀ c ∈ name, c.isLower = false) :
    toUpperSnake name = name ↔ NoDigitBefore Char.isUpper name := by
  constructor
  · intro hsame
    rw [← hsame, noDigitBefore_toUpperSnake_iff]
    exact noDigitBefore_of_forall_eq_false hlower
  · exact toUpperSnake_eq_self hlower

/-- An accepted name is left alone exactly if it has no digit directly before a capital.  A
second conversion changes nothing exactly if the name has no digit directly before a small
letter, and a third one never changes anything. -/
theorem toUpperSnake_again (name : List Char) :
    (isUpperSnake name = true →
      (toUpperSnake name = name ↔ NoDigitBefore Char.isUpper name)) ∧
    (toUpperSnake (toUpperSnake name) = toUpperSnake name ↔ NoDigitBefore Char.isLower name) ∧
    toUpperSnake (toUpperSnake (toUpperSnake name)) = toUpperSnake (toUpperSnake name) := by
  refine ⟨?_, ?_, ?_⟩
  · intro haccepted
    exact toUpperSnake_eq_self_iff fun _ => isLower_eq_false_of_isUpperSnake haccepted
  · rw [toUpperSnake_eq_self_iff fun _ => isLower_eq_false_of_mem_toUpperSnake,
      noDigitBefore_toUpperSnake_iff]
  · rw [toUpperSnake_eq_self_iff fun _ => isLower_eq_false_of_mem_toUpperSnake,
      noDigitBefore_toUpperSnake_iff]
    exact noDigitBefore_of_forall_eq_false fun _ => isLower_eq_false_of_mem_toUpperSnake

/-- Digits at the end of a word, or before an underscore, do no harm. -/
theorem toUpperSnake_again_stateV2Beta :
    isUpperSnake "STATE_V2_BETA3".toList = true ∧
      NoDigitBefore Char.isUpper "STATE_V2_BETA3".toList ∧
      toUpperSnake "STATE_V2_BETA3".toList = "STATE_V2_BETA3".toList := by
  have haccepted : isUpperSnake "STATE_V2_BETA3".toList = true := by decide +kernel
  have hdigits : NoDigitBefore Char.isUpper "STATE_V2_BETA3".toList := by decide +kernel
  exact ⟨haccepted, hdigits, ((toUpperSnake_again _).1 haccepted).2 hdigits⟩

/-- An accepted name can be parted behind a digit, and a second conversion can do what the
first one did not. -/
theorem toUpperSnake_parts_accepted_name :
    isUpperSnake "V2A".toList = true ∧ toUpperSnake "V2A".toList ≠ "V2A".toList ∧
      toUpperSnake (toUpperSnake "v2a_".toList) ≠ toUpperSnake "v2a_".toList := by
  decide +kernel

end Naming

end SchemaLint
