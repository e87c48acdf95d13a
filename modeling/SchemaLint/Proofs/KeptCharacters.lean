import SchemaLint.Proofs.LetterCase

namespace SchemaLint

namespace Naming

/-!
# What a conversion keeps

A suggested name is the old name with other letter cases and other underscores.  Both names
are compared after their underscores have been taken out and their letters lowered: what is
left is the same, character by character and in the same order.  This holds for every text,
also for one that is no identifier and whose suggestion is accepted by no rule.
-/

/-- The characters of a name in order, without the underscores and with small letters. -/
def bareName (name : List Char) : List Char :=
  (name.filter fun c => c ≠ '_').map Char.toLower

theorem bareName_cons_underscore (rest : List Char) : bareName ('_' :: rest) = bareName rest :=
  rfl

theorem bareName_cons_of_ne {c : Char} (h : c ≠ '_') (rest : List Char) :
    bareName (c :: rest) = c.toLower :: bareName rest := by
  rw [bareName, List.filter_cons_of_pos (by simpa using h), List.map_cons, bareName]

/-- Only the small form of a character counts.  It also decides whether the character is an
underscore. -/
theorem bareName_cons_congr {c d : Char} {left right : List Char} (hhead : c.toLower = d.toLower)
    (htail : bareName left = bareName right) : bareName (c :: left) = bareName (d :: right) := by
  have hsame : c = '_' ↔ d = '_' := by
    rw [← toLower_eq_underscore_iff, hhead, toLower_eq_underscore_iff]
  by_cases hc : c = '_'
  · rw [hc, hsame.1 hc, bareName_cons_underscore, bareName_cons_underscore, htail]
  · rw [bareName_cons_of_ne hc, bareName_cons_of_ne (mt hsame.2 hc), hhead, htail]

/-- What is set between words is underscores. -/
theorem bareName_lowerWords (previous : Char) (rest : List Char) :
    bareName (lowerWords previous rest) = bareName rest := by
  induction rest generalizing previous with
  | nil => rfl
  | cons c rest ih =>
      have hlowered : bareName (c.toLower :: lowerWords c rest) = bareName (c :: rest) :=
        bareName_cons_congr (toLower_toLower c) (ih c)
      rw [lowerWords]
      split
      · rw [bareName_cons_underscore, hlowered]
      · exact hlowered

theorem bareName_toLowerSnake (name : List Char) :
    bareName (toLowerSnake name) = bareName name := by
  cases name with
  | nil => rfl
  | cons c rest =>
      exact bareName_cons_congr (toLower_toLower c) (bareName_lowerWords c rest)

theorem bareName_map_toUpper (name : List Char) :
    bareName (name.map Char.toUpper) = bareName name := by
  induction name with
  | nil => rfl
  | cons c rest ih => exact bareName_cons_congr (toLower_toUpper c) ih

/-- What is left out between words is underscores. -/
theorem bareName_joinWords (atStart : Bool) (text : List Char) :
    bareName (joinWords atStart text) = bareName text := by
  induction text generalizing atStart with
  | nil => rfl
  | cons c text ih =>
      rw [joinWords]
      split
      · next hc => rw [ih, hc, bareName_cons_underscore]
      · -- Whether a word starts here decides the case of the character and nothing else.
        have hcase : (if atStart then c.toUpper else c).toLower = c.toLower := by
          split
          · exact toLower_toUpper c
          · rfl
        exact bareName_cons_congr hcase (ih false)

/-- A suggestion changes letter cases and underscores only: no other character of the name is
lost, added, doubled or moved. -/
theorem bareName_conversion (name : List Char) :
    bareName (toLowerSnake name) = bareName name ∧
    bareName (toUpperSnake name) = bareName name ∧
    bareName (toUpperCamel name) = bareName name := by
  refine ⟨bareName_toLowerSnake name, ?_, ?_⟩
  · rw [toUpperSnake, bareName_map_toUpper, bareName_toLowerSnake]
  · rw [toUpperCamel, bareName_joinWords, bareName_toLowerSnake]

/-- Words of one character, runs of underscores and letters without a case. -/
example :
    toUpperCamel "__aB__ÄcD_".toList = "ABÄcD".toList ∧
      bareName "__aB__ÄcD_".toList = "abÄcd".toList := by
  decide +kernel

end Naming

end SchemaLint
