namespace SchemaLint
namespace Text

/-!
# Cutting text at a mark

A mark is a fixed run of characters.  `cut?` finds its first occurrence and gives
the text on both sides; `pieces` cuts at every occurrence, from left to right and
without overlap, so that between `n` marks there are `n + 1` pieces.
-/

/-- The text before and after the first occurrence of `mark`. -/
def cut? (mark : List Char) : List Char → Option (List Char × List Char)
  | [] => if mark.isEmpty then some ([], []) else none
  | c :: text =>
    if mark.isPrefixOf (c :: text) then some ([], (c :: text).drop mark.length)
    else (cut? mark text).map fun sides => (c :: sides.1, sides.2)

theorem eq_append_of_cut? {mark text before after : List Char}
    (h : cut? mark text = some (before, after)) : text = before ++ (mark ++ after) := by
  induction text generalizing before with
  | nil =>
    simp only [cut?] at h
    split at h
    · rename_i hmark
      simp_all
    · simp at h
  | cons c text ih =>
    simp only [cut?] at h
    split at h
    · rename_i hmark
      obtain ⟨rest, hrest⟩ := List.isPrefixOf_iff_prefix.mp hmark
      simp only [Option.some.injEq, Prod.mk.injEq] at h
      obtain ⟨rfl, rfl⟩ := h
      simp [← hrest]
    · obtain ⟨sides, hsides, heq⟩ := Option.map_eq_some_iff.mp h
      simp only [Prod.mk.injEq] at heq
      obtain ⟨rfl, rfl⟩ := heq
      simp [ih hsides]

/-- The rest after a mark is shorter by the mark at least. -/
theorem length_after_of_cut? {mark text before after : List Char}
    (h : cut? mark text = some (before, after)) :
    after.length + mark.length ≤ text.length := by
  have := congrArg List.length (eq_append_of_cut? h)
  simp only [List.length_append] at this
  omega

/-- The pieces of the text between the occurrences of `mark`.  An empty mark
divides nothing. -/
def pieces (mark text : List Char) : List (List Char) :=
  match cut? mark text with
  | none => [text]
  | some (before, after) =>
    if after.length < text.length then before :: pieces mark after else [text]
termination_by text.length

end Text
end SchemaLint
