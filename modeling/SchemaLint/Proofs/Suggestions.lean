import Mathlib.Data.List.Infix
import SchemaLint.Proofs.LetterCase

namespace SchemaLint

namespace Naming

/-!
# Names that a conversion repairs

A naming rule suggests the converted name.  The suggestion need not be accepted: the
conversions put an underscore between words and change letters, but they repair nothing
else.  It is shown for which names the suggestion is accepted.

Underscores are set only between a letter or digit and a letter, so converting to a snake
form neither makes nor removes two underscores in a row, one in front or one at the end.
Converting to the camel form removes all of them.
-/

/-- The names with an acceptable snake form. -/
structure SnakeReady (name : List Char) : Prop where
  letter_first : ∃ c, name.head? = some c ∧ c.isAlpha = true
  characters : ∀ c ∈ name, c.isAlphanum = true ∨ c = '_'
  not_doubled : ¬ ['_', '_'] <:+: name
  not_trailing : ¬ ['_'] <:+ name

/-- The names with an acceptable camel form. -/
structure CamelReady (name : List Char) : Prop where
  letter_first : ∃ c, name.find? (fun c => c ≠ '_') = some c ∧ c.isAlpha = true
  characters : ∀ c ∈ name, c.isAlphanum = true ∨ c = '_'

/-!
## Underscores
-/

/-- No word starts behind an underscore. -/
theorem ne_underscore_of_startsWord {previous : Char} {rest : List Char}
    (h : startsWord previous rest = true) : previous ≠ '_' := by
  rintro rfl
  exact absurd h (by simp [startsWord])

theorem wellSeparated_cons_cons (first second : Char) (rest : List Char) :
    wellSeparated (first :: second :: rest) =
      (!(first == '_' && second == '_') && wellSeparated (second :: rest)) := by
  by_cases hfirst : first = '_'
  · by_cases hsecond : second = '_'
    · simp [wellSeparated, hfirst, hsecond]
    · simp [wellSeparated, hfirst, hsecond]
  · simp [wellSeparated, hfirst]

theorem wellSeparated_iff {name : List Char} :
    wellSeparated name = true ↔ ¬ ['_', '_'] <:+: name ∧ ¬ ['_'] <:+ name := by
  induction name with
  | nil => simp [wellSeparated]
  | cons first rest ih =>
      cases rest with
      | nil =>
          by_cases hfirst : first = '_'
          · simp [wellSeparated, hfirst]
          · simp [wellSeparated, hfirst, Ne.symm hfirst, List.suffix_cons_iff, List.infix_cons_iff]
      | cons second rest =>
          have hdoubled : ['_', '_'] <:+: first :: second :: rest ↔
              (first = '_' ∧ second = '_') ∨ ['_', '_'] <:+: second :: rest := by
            rw [List.infix_cons_iff, List.cons_prefix_cons, List.cons_prefix_cons]
            simp [eq_comm]
          have htrailing : ['_'] <:+ first :: second :: rest ↔ ['_'] <:+ second :: rest := by
            rw [List.suffix_cons_iff]
            simp
          have hapart : (!(first == '_' && second == '_')) = true ↔
              ¬ (first = '_' ∧ second = '_') := by
            rw [Bool.not_eq_true', ← Bool.not_eq_true, Bool.and_eq_true, beq_iff_eq, beq_iff_eq]
          rw [wellSeparated_cons_cons, Bool.and_eq_true, ih, hdoubled, htrailing, hapart, not_or,
            and_assoc]

theorem wellSeparated_map {change : Char → Char} (hchange : ∀ c, change c = '_' ↔ c = '_')
    (name : List Char) : wellSeparated (name.map change) = wellSeparated name := by
  have hsame : ∀ c, (change c == '_') = (c == '_') := by
    intro c
    rw [Bool.eq_iff_iff, beq_iff_eq, beq_iff_eq, hchange]
  induction name with
  | nil => rfl
  | cons first rest ih =>
      cases rest with
      | nil =>
          by_cases hfirst : first = '_'
          · rw [List.map_singleton, (hchange first).2 hfirst, hfirst]
          · have hchanged : change first ≠ '_' := mt (hchange first).1 hfirst
            simp [wellSeparated, hfirst, hchanged]
      | cons second rest =>
          rw [List.map_cons, List.map_cons, wellSeparated_cons_cons, wellSeparated_cons_cons,
            hsame, hsame, ← List.map_cons, ih]

/-- Setting underscores between words does not change how underscores are separated.  The
induction carries the character before the rest, since that decides whether a word starts. -/
theorem wellSeparated_lowerWords (previous : Char) (rest : List Char) :
    wellSeparated (previous.toLower :: lowerWords previous rest) =
      wellSeparated (previous :: rest) := by
  induction rest generalizing previous with
  | nil => exact wellSeparated_map (fun _ => toLower_eq_underscore_iff) [previous]
  | cons c rest ih =>
      rw [lowerWords, wellSeparated_cons_cons previous c]
      split
      · next hword =>
        obtain ⟨hupper, hstarts⟩ := Bool.and_eq_true_iff.1 hword
        -- The new underscore stands between two characters that are none.
        have hprevious : (previous == '_') = false := by
          simpa using ne_underscore_of_startsWord hstarts
        have hc : (c == '_') = false := by
          rw [beq_eq_false_iff_ne]
          rintro rfl
          exact absurd hupper (by decide)
        rw [wellSeparated_cons_cons, wellSeparated_cons_cons, ih, toLower_beq_underscore,
          toLower_beq_underscore, hprevious, hc]
        simp
      · rw [wellSeparated_cons_cons, ih, toLower_beq_underscore, toLower_beq_underscore]

theorem wellSeparated_toLowerSnake (name : List Char) :
    wellSeparated (toLowerSnake name) = wellSeparated name := by
  cases name with
  | nil => rfl
  | cons c rest => exact wellSeparated_lowerWords c rest

theorem wellSeparated_toUpperSnake (name : List Char) :
    wellSeparated (toUpperSnake name) = wellSeparated name := by
  rw [toUpperSnake, wellSeparated_map fun _ => toUpper_eq_underscore_iff,
    wellSeparated_toLowerSnake]

/-!
## All characters
-/

theorem all_lowerWords {test : Char → Bool} (htest : test '_' = true) (previous : Char)
    (rest : List Char) :
    (lowerWords previous rest).all test = rest.all fun c => test c.toLower := by
  induction rest generalizing previous with
  | nil => rfl
  | cons c rest ih =>
      rw [lowerWords]
      split
      · rw [List.all_cons, List.all_cons, List.all_cons, ih, htest, Bool.true_and]
      · rw [List.all_cons, List.all_cons, ih]

theorem all_toLowerSnake {test : Char → Bool} (htest : test '_' = true) (name : List Char) :
    (toLowerSnake name).all test = name.all fun c => test c.toLower := by
  cases name with
  | nil => rfl
  | cons c rest => rw [toLowerSnake, List.all_cons, List.all_cons, all_lowerWords htest]

/-- Lowered, the characters of a name are those of the convention. -/
theorem all_lower_toLowerSnake (name : List Char) :
    (toLowerSnake name).all (fun c => c.isLower || c.isDigit || c == '_') =
      name.all fun c => c.isAlphanum || c == '_' := by
  rw [all_toLowerSnake (by rfl)]
  simp only [isLower_toLower, isDigit_toLower, toLower_beq_underscore, Char.isAlphanum]

theorem all_upper_toUpperSnake (name : List Char) :
    (toUpperSnake name).all (fun c => c.isUpper || c.isDigit || c == '_') =
      name.all fun c => c.isAlphanum || c == '_' := by
  rw [toUpperSnake, List.all_map, all_toLowerSnake (by rfl)]
  simp only [Function.comp_def, toUpper_toLower, isUpper_toUpper, isDigit_toUpper,
    toUpper_beq_underscore, Char.isAlphanum]

theorem all_isAlphanum_joinWords (atStart : Bool) (text : List Char) :
    (joinWords atStart text).all Char.isAlphanum =
      text.all fun c => c.isAlphanum || c == '_' := by
  induction text generalizing atStart with
  | nil => rfl
  | cons c text ih =>
      rw [joinWords, List.all_cons]
      split
      · next hc =>
        rw [ih, hc]
        rfl
      · next hc =>
        have hfirst : (if atStart then c.toUpper else c).isAlphanum = c.isAlphanum := by
          split
          · exact isAlphanum_toUpper c
          · rfl
        rw [List.all_cons, hfirst, ih, beq_eq_false_iff_ne.2 hc, Bool.or_false]

theorem all_isAlphanum_toUpperCamel (name : List Char) :
    (toUpperCamel name).all Char.isAlphanum = name.all fun c => c.isAlphanum || c == '_' := by
  rw [toUpperCamel, all_isAlphanum_joinWords, all_toLowerSnake (by rfl)]
  simp only [isAlphanum_toLower, toLower_beq_underscore]

/-!
## The first character
-/

theorem startsWith_eq_any (test : Char → Bool) (name : List Char) :
    startsWith test name = name.head?.any test := by
  cases name with
  | nil => rfl
  | cons c rest => rfl

theorem head?_toLowerSnake (name : List Char) :
    (toLowerSnake name).head? = name.head?.map Char.toLower := by
  cases name with
  | nil => rfl
  | cons c rest => rfl

theorem startsWith_isLower_toLowerSnake (name : List Char) :
    startsWith Char.isLower (toLowerSnake name) = name.head?.any Char.isAlpha := by
  rw [startsWith_eq_any, head?_toLowerSnake, Option.any_map]
  simp only [isLower_toLower]

theorem startsWith_isUpper_toUpperSnake (name : List Char) :
    startsWith Char.isUpper (toUpperSnake name) = name.head?.any Char.isAlpha := by
  rw [startsWith_eq_any, toUpperSnake, List.head?_map, head?_toLowerSnake, Option.any_map,
    Option.any_map]
  simp only [isUpper_toUpper, isAlpha_toLower]

theorem find?_toLower_cons {lowered rest : List Char}
    (h : lowered.find? (fun c => c ≠ '_') = (rest.find? fun c => c ≠ '_').map Char.toLower)
    (c : Char) :
    (c.toLower :: lowered).find? (fun c => c ≠ '_') =
      ((c :: rest).find? fun c => c ≠ '_').map Char.toLower := by
  by_cases hc : c = '_'
  · have hlowered : c.toLower = '_' := toLower_eq_underscore_iff.2 hc
    rw [List.find?_cons_of_neg (by simpa using hlowered),
      List.find?_cons_of_neg (by simpa using hc), h]
  · have hlowered : c.toLower ≠ '_' := mt toLower_eq_underscore_iff.1 hc
    rw [List.find?_cons_of_pos (by simpa using hlowered),
      List.find?_cons_of_pos (by simpa using hc), Option.map_some]

theorem find?_lowerWords (previous : Char) (rest : List Char) :
    (lowerWords previous rest).find? (fun c => c ≠ '_') =
      (rest.find? fun c => c ≠ '_').map Char.toLower := by
  induction rest generalizing previous with
  | nil => rfl
  | cons c rest ih =>
      rw [lowerWords]
      split
      · -- An underscore that has been set is passed over like any other.
        rw [List.find?_cons_of_neg (by simp)]
        exact find?_toLower_cons (ih c) c
      · exact find?_toLower_cons (ih c) c

theorem find?_toLowerSnake (name : List Char) :
    (toLowerSnake name).find? (fun c => c ≠ '_') =
      (name.find? fun c => c ≠ '_').map Char.toLower := by
  cases name with
  | nil => rfl
  | cons c rest => exact find?_toLower_cons (find?_lowerWords c rest) c

theorem head?_joinWords (text : List Char) :
    (joinWords true text).head? = (text.find? fun c => c ≠ '_').map Char.toUpper := by
  induction text with
  | nil => rfl
  | cons c text ih =>
      rw [joinWords]
      by_cases hc : c = '_'
      · rw [if_pos hc, ih, List.find?_cons_of_neg (by simpa using hc)]
      · rw [if_neg hc, List.find?_cons_of_pos (by simpa using hc)]
        rfl

theorem startsWith_isUpper_toUpperCamel (name : List Char) :
    startsWith Char.isUpper (toUpperCamel name) =
      (name.find? fun c => c ≠ '_').any Char.isAlpha := by
  rw [startsWith_eq_any, toUpperCamel, head?_joinWords, find?_toLowerSnake, Option.any_map,
    Option.any_map]
  simp only [isUpper_toUpper, isAlpha_toLower]

/-!
## Accepted suggestions
-/

theorem snakeReady_iff {name : List Char} :
    SnakeReady name ↔
      (name.head?.any Char.isAlpha && name.all (fun c => c.isAlphanum || c == '_') &&
        wellSeparated name) = true := by
  rw [Bool.and_eq_true, Bool.and_eq_true, Option.any_eq_true, List.all_eq_true, wellSeparated_iff]
  simp only [Bool.or_eq_true, beq_iff_eq]
  constructor
  · rintro ⟨hfirst, hchars, hdoubled, htrailing⟩
    exact ⟨⟨hfirst, hchars⟩, hdoubled, htrailing⟩
  · rintro ⟨⟨hfirst, hchars⟩, hdoubled, htrailing⟩
    exact ⟨hfirst, hchars, hdoubled, htrailing⟩

theorem camelReady_iff {name : List Char} :
    CamelReady name ↔
      ((name.find? fun c => c ≠ '_').any Char.isAlpha &&
        name.all fun c => c.isAlphanum || c == '_') = true := by
  rw [Bool.and_eq_true, Option.any_eq_true, List.all_eq_true]
  simp only [Bool.or_eq_true, beq_iff_eq]
  constructor
  · rintro ⟨hfirst, hchars⟩
    exact ⟨hfirst, hchars⟩
  · rintro ⟨hfirst, hchars⟩
    exact ⟨hfirst, hchars⟩

instance : DecidablePred SnakeReady := fun _ => decidable_of_iff _ snakeReady_iff.symm

instance : DecidablePred CamelReady := fun _ => decidable_of_iff _ camelReady_iff.symm

/-- The suggestion of a naming rule satisfies the rule that made it exactly for names whose
underscores and characters need no repair.  The two snake forms ask for the same names; the
camel form does not mind underscores. -/
theorem accepts_conversion_iff (name : List Char) :
    (isLowerSnake (toLowerSnake name) = true ↔ SnakeReady name) ∧
    (isUpperSnake (toUpperSnake name) = true ↔ SnakeReady name) ∧
    (isUpperCamel (toUpperCamel name) = true ↔ CamelReady name) := by
  refine ⟨?_, ?_, ?_⟩
  · rw [snakeReady_iff, isLowerSnake, startsWith_isLower_toLowerSnake, all_lower_toLowerSnake,
      wellSeparated_toLowerSnake]
  · rw [snakeReady_iff, isUpperSnake, startsWith_isUpper_toUpperSnake, all_upper_toUpperSnake,
      wellSeparated_toUpperSnake]
  · rw [camelReady_iff, isUpperCamel, startsWith_isUpper_toUpperCamel,
      all_isAlphanum_toUpperCamel]

/-- Doubled underscores stay in a snake form and go from the camel form. -/
example :
    SnakeReady "HTTPServer2_Go".toList ∧ ¬ SnakeReady "list__books_".toList ∧
      CamelReady "list__books_".toList ∧ ¬ CamelReady "_2nd".toList := by
  decide +kernel

end Naming

end SchemaLint
