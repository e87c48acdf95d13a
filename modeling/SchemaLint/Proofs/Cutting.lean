import Mathlib.Data.List.DropRight
import Mathlib.Data.List.Infix
import SchemaLint.Text.Blank
import SchemaLint.Text.Search

namespace SchemaLint
namespace Text

/-!
# Laws of cutting and trimming

Searching a text for a mark always finds the first occurrence.  Which text may stand
in front of it is simplest for marks whose occurrences cannot overlap: then a text is
cut at a mark exactly when the part before it does not hold the mark, and a text has
one way only of being split into pieces.

The second half treats blanks: what trimming takes away, and what the first word of a
text is.
-/

/-- No proper part of the mark both starts and ends it. -/
def Borderless (mark : List Char) : Prop :=
  mark ≠ [] ∧ ∀ border ∈ mark.inits, border ≠ [] → border <:+ mark → border = mark

instance (mark : List Char) : Decidable (Borderless mark) :=
  inferInstanceAs (Decidable (_ ∧ _))

theorem cut?_eq_none_iff {mark text : List Char} : cut? mark text = none ↔ ¬ mark <:+: text := by
  induction text with
  | nil => simp [cut?]
  | cons c text ih =>
      rw [cut?, List.infix_cons_iff, ← List.isPrefixOf_iff_prefix]
      by_cases hstart : mark.isPrefixOf (c :: text) = true
      · simp [hstart]
      · simp [hstart, ih]

/-- Nothing stands before the first occurrence that holds the mark. -/
theorem not_infix_of_cut? {mark text before after : List Char} (hmark : mark ≠ [])
    (h : cut? mark text = some (before, after)) : ¬ mark <:+: before := by
  induction text generalizing before with
  | nil =>
      rw [cut?, if_neg (by simpa using hmark)] at h
      simp at h
  | cons c text ih =>
      have htext := eq_append_of_cut? h
      rw [cut?] at h
      split at h
      · obtain ⟨rfl, -⟩ := Prod.mk.inj (Option.some.inj h)
        simpa using hmark
      · next hstart =>
        obtain ⟨⟨before, after⟩, hrest, hsides⟩ := Option.map_eq_some_iff.1 h
        obtain ⟨rfl, rfl⟩ := Prod.mk.inj hsides
        rw [List.infix_cons_iff]
        rintro (hstarts | hinside)
        · apply hstart
          rw [List.isPrefixOf_iff_prefix, htext]
          exact hstarts.trans (List.prefix_append _ _)
        · exact ih hrest hinside

/-- An occurrence that starts before a mark and reaches into it would give the mark a
border. -/
theorem not_prefix_append_of_borderless {mark : List Char} (hmark : Borderless mark)
    {before : List Char} (hne : before ≠ []) (hbefore : ¬ mark <+: before) (after : List Char) :
    ¬ mark <+: before ++ (mark ++ after) := by
  intro hstarts
  by_cases hlength : mark.length ≤ before.length
  · exact hbefore (List.prefix_of_prefix_length_le hstarts (List.prefix_append _ _) hlength)
  · have hstart : before <+: mark :=
      List.prefix_of_prefix_length_le (List.prefix_append _ _) hstarts (by omega)
    obtain ⟨border, hborder⟩ := hstart
    have hborderLength : before.length + border.length = mark.length := by
      rw [← List.length_append, hborder]
    have hpositive : 0 < before.length := List.length_pos_iff.2 hne
    -- What is left of the mark after `before` ends it and, by the occurrence, starts it.
    rw [← hborder, List.prefix_append_right_inj, hborder] at hstarts
    have hinit : border <+: mark :=
      List.prefix_of_prefix_length_le hstarts (List.prefix_append _ _) (by omega)
    have hwhole := hmark.2 border ((List.mem_inits _ _).2 hinit)
      (by rintro rfl; simp at hborderLength; omega) ⟨before, hborder⟩
    rw [hwhole] at hborderLength
    omega

theorem cut?_append {mark before : List Char} (hmark : Borderless mark)
    (hbefore : ¬ mark <:+: before) (after : List Char) :
    cut? mark (before ++ (mark ++ after)) = some (before, after) := by
  induction before with
  | nil =>
      obtain ⟨c, rest, rfl⟩ := List.exists_cons_of_ne_nil hmark.1
      have hstart : (c :: rest).isPrefixOf ((c :: rest) ++ after) = true :=
        List.isPrefixOf_iff_prefix.2 (List.prefix_append _ _)
      simp only [List.nil_append, List.cons_append] at hstart ⊢
      simp [cut?, hstart]
  | cons c before ih =>
      rw [List.infix_cons_iff, not_or] at hbefore
      have hstart := not_prefix_append_of_borderless hmark (List.cons_ne_nil c before)
        hbefore.1 after
      rw [← List.isPrefixOf_iff_prefix] at hstart
      rw [List.cons_append] at hstart ⊢
      rw [cut?, if_neg hstart, ih hbefore.2]
      rfl

/-- A mark can have borders where the part before it does not have its first character. -/
theorem cut?_append_of_not_mem {c : Char} {mark before : List Char} (hbefore : c ∉ before)
    (after : List Char) :
    cut? (c :: mark) (before ++ ((c :: mark) ++ after)) = some (before, after) := by
  induction before with
  | nil =>
      have hstart : (c :: mark).isPrefixOf (c :: (mark ++ after)) = true :=
        List.isPrefixOf_iff_prefix.2 (List.prefix_append (c :: mark) after)
      simp [cut?, hstart]
  | cons first before ih =>
      rw [List.mem_cons, not_or] at hbefore
      have hstart :
          ¬ (c :: mark).isPrefixOf (first :: (before ++ ((c :: mark) ++ after))) = true := by
        rw [List.isPrefixOf_iff_prefix, List.cons_prefix_cons]
        exact fun hstarts => hbefore.1 hstarts.1
      rw [List.cons_append, cut?, if_neg hstart, ih hbefore.2]
      rfl

/-- A text is cut at a mark without borders wherever the part before it does not hold
the mark. -/
theorem cut?_eq_some_iff {mark text before after : List Char} (hmark : Borderless mark) :
    cut? mark text = some (before, after) ↔
      text = before ++ (mark ++ after) ∧ ¬ mark <:+: before := by
  constructor
  · intro h
    exact ⟨eq_append_of_cut? h, not_infix_of_cut? hmark.1 h⟩
  · rintro ⟨rfl, hbefore⟩
    exact cut?_append hmark hbefore after

/-- There is one way only to cut at the first occurrence. -/
theorem cut_unique {mark before after before' after' : List Char} (hmark : Borderless mark)
    (hbefore : ¬ mark <:+: before) (hbefore' : ¬ mark <:+: before')
    (h : before ++ (mark ++ after) = before' ++ (mark ++ after')) :
    before = before' ∧ after = after' := by
  have hcut := cut?_append hmark hbefore after
  rw [h, cut?_append hmark hbefore' after'] at hcut
  obtain ⟨rfl, rfl⟩ := Prod.mk.inj (Option.some.inj hcut)
  exact ⟨rfl, rfl⟩

/-!
## Occurrences at a character

A mark that does not have a character never reaches over it.  A mark that has it at its
end only can reach up to it, and no further.
-/

theorem prefix_append_cons_iff {mark left right : List Char} {c : Char} (hc : c ∉ mark) :
    mark <+: left ++ c :: right ↔ mark <+: left := by
  induction left generalizing mark with
  | nil =>
      cases mark with
      | nil => simp
      | cons first mark =>
          have hfirst : first ≠ c := fun hsame => hc (hsame ▸ List.mem_cons_self)
          simp [List.cons_prefix_cons, hfirst]
  | cons a left ih =>
      cases mark with
      | nil => simp
      | cons first mark =>
          have hmark : c ∉ mark := fun hmem => hc (List.mem_cons_of_mem _ hmem)
          rw [List.cons_append, List.cons_prefix_cons, List.cons_prefix_cons, ih hmark]

/-- An occurrence does not reach over a character that the mark does not have. -/
theorem infix_append_cons_iff {mark left right : List Char} {c : Char} (hc : c ∉ mark) :
    mark <:+: left ++ c :: right ↔ mark <:+: left ∨ mark <:+: right := by
  induction left with
  | nil =>
      have hstart : mark <+: [] ++ c :: right ↔ mark <+: [] := prefix_append_cons_iff hc
      rw [List.nil_append] at hstart ⊢
      rw [List.infix_cons_iff, hstart, List.prefix_nil, List.infix_nil]
  | cons a left ih =>
      have hstart : mark <+: (a :: left) ++ c :: right ↔ mark <+: a :: left :=
        prefix_append_cons_iff hc
      rw [List.cons_append] at hstart ⊢
      rw [List.infix_cons_iff, hstart, ih, List.infix_cons_iff, or_assoc]

theorem concat_prefix_append_cons_iff {word left right : List Char} {c : Char} (hword : c ∉ word)
    (hleft : c ∉ left) : word ++ [c] <+: left ++ c :: right ↔ word = left := by
  induction left generalizing word with
  | nil =>
      cases word with
      | nil => simp
      | cons first word =>
          have hfirst : first ≠ c := fun hsame => hword (hsame ▸ List.mem_cons_self)
          simp [List.cons_prefix_cons, hfirst]
  | cons a left ih =>
      rw [List.mem_cons, not_or] at hleft
      cases word with
      | nil => simp [List.cons_prefix_cons, hleft.1]
      | cons first word =>
          rw [List.mem_cons, not_or] at hword
          rw [List.cons_append, List.cons_append, List.cons_prefix_cons, ih hword.2 hleft.2,
            List.cons.injEq]

/-- Where the last character of a mark stands nowhere else in it, the mark occurs around
such a character or behind it. -/
theorem concat_infix_append_cons_iff {word left right : List Char} {c : Char} (hword : c ∉ word)
    (hleft : c ∉ left) :
    word ++ [c] <:+: left ++ c :: right ↔ word <:+ left ∨ word ++ [c] <:+: right := by
  induction left with
  | nil =>
      have hstart : word ++ [c] <+: [] ++ c :: right ↔ word = [] :=
        concat_prefix_append_cons_iff hword hleft
      rw [List.nil_append] at hstart ⊢
      rw [List.infix_cons_iff, hstart, List.suffix_nil]
  | cons a left ih =>
      have hstart : word ++ [c] <+: (a :: left) ++ c :: right ↔ word = a :: left :=
        concat_prefix_append_cons_iff hword hleft
      rw [List.mem_cons, not_or] at hleft
      rw [List.cons_append] at hstart ⊢
      rw [List.infix_cons_iff, hstart, ih hleft.2, List.suffix_cons_iff, or_assoc]

/-- Where a character does not stand in the second part of a text, the text behind the
character goes on through that part. -/
theorem exists_between {left right first second : List Char} {c : Char} (hc : c ∉ second)
    (h : left ++ c :: right = first ++ second) :
    ∃ between, first = left ++ c :: between ∧ right = between ++ second := by
  rcases List.append_eq_append_iff.1 h with ⟨behind, rfl, hright⟩ | ⟨behind, rfl, rfl⟩
  · cases behind with
    | nil =>
        rw [List.nil_append] at hright
        exact absurd (hright ▸ List.mem_cons_self) hc
    | cons a between =>
        obtain ⟨rfl, rfl⟩ := List.cons.inj hright
        exact ⟨between, rfl, rfl⟩
  · exact absurd (List.mem_append_right _ List.mem_cons_self) hc

/-- A text starts with another if it is that text with more behind it. -/
theorem toList_prefix_iff {left right : String} :
    left.toList <+: right.toList ↔ ∃ rest, right = left ++ rest := by
  constructor
  · rintro ⟨rest, hrest⟩
    refine ⟨String.ofList rest, String.toList_inj.1 ?_⟩
    rw [String.toList_append, String.toList_ofList, hrest]
  · rintro ⟨rest, rfl⟩
    rw [String.toList_append]
    exact List.prefix_append _ _

/-!
## Pieces
-/

theorem pieces_of_cut? {mark text before after : List Char} (hmark : mark ≠ [])
    (h : cut? mark text = some (before, after)) :
    pieces mark text = before :: pieces mark after := by
  have hlength := length_after_of_cut? h
  have hpositive : 0 < mark.length := List.length_pos_iff.2 hmark
  rw [pieces, h]
  exact if_pos (by omega)

theorem pieces_of_unmarked {mark text : List Char} (h : ¬ mark <:+: text) :
    pieces mark text = [text] := by
  rw [pieces, cut?_eq_none_iff.2 h]

/-- A text either does not hold the mark or goes on after its first occurrence. -/
@[elab_as_elim]
theorem cutInduction {mark : List Char} (hmark : mark ≠ []) {motive : List Char → Prop}
    (plain : ∀ text, ¬ mark <:+: text → motive text)
    (cut : ∀ text before after, cut? mark text = some (before, after) → motive after →
      motive text)
    (text : List Char) : motive text := by
  cases hcut : cut? mark text with
  | none => exact plain text (cut?_eq_none_iff.1 hcut)
  | some sides =>
      obtain ⟨before, after⟩ := sides
      have hlength := length_after_of_cut? hcut
      have hpositive : 0 < mark.length := List.length_pos_iff.2 hmark
      exact cut text before after hcut (cutInduction hmark plain cut after)
termination_by text.length

theorem pieces_ne_nil (mark text : List Char) : pieces mark text ≠ [] := by
  rw [pieces]
  split
  · simp
  · split <;> simp

/-- Joined by the mark, the pieces give the text back. -/
theorem intercalate_pieces {mark : List Char} (hmark : mark ≠ []) (text : List Char) :
    mark.intercalate (pieces mark text) = text := by
  induction text using cutInduction hmark with
  | plain text hplain => rw [pieces_of_unmarked hplain, List.intercalate_singleton]
  | cut text before after hcut ih =>
      obtain ⟨piece, rest, hpieces⟩ := List.exists_cons_of_ne_nil (pieces_ne_nil mark after)
      rw [pieces_of_cut? hmark hcut, hpieces, List.intercalate_cons_cons, ← hpieces, ih,
        eq_append_of_cut? hcut, List.append_assoc]

theorem not_infix_of_mem_pieces {mark : List Char} (hmark : mark ≠ []) {text piece : List Char}
    (h : piece ∈ pieces mark text) : ¬ mark <:+: piece := by
  induction text using cutInduction hmark with
  | plain text hplain =>
      rw [pieces_of_unmarked hplain, List.mem_singleton] at h
      exact h ▸ hplain
  | cut text before after hcut ih =>
      rw [pieces_of_cut? hmark hcut, List.mem_cons] at h
      rcases h with rfl | h
      · exact not_infix_of_cut? hmark hcut
      · exact ih h

/-- Splitting undoes joining, as long as each part is cut off by the mark behind it. -/
theorem pieces_intercalate_of_cut? {mark : List Char} (hmark : mark ≠ [])
    {parts : List (List Char)} (hne : parts ≠ [])
    (hparts : ∀ part ∈ parts, ∀ after, cut? mark (part ++ (mark ++ after)) = some (part, after)) :
    pieces mark (mark.intercalate parts) = parts := by
  induction parts with
  | nil => exact absurd rfl hne
  | cons part rest ih =>
      have hpart := hparts part List.mem_cons_self
      cases rest with
      | nil =>
          rw [List.intercalate_singleton]
          exact pieces_of_unmarked (not_infix_of_cut? hmark (hpart []))
      | cons next rest =>
          have hrest := ih (List.cons_ne_nil next rest) fun later hlater =>
            hparts later (List.mem_cons_of_mem _ hlater)
          rw [List.intercalate_cons_cons, List.append_assoc, pieces_of_cut? hmark (hpart _), hrest]

theorem pieces_intercalate {mark : List Char} (hmark : Borderless mark)
    {parts : List (List Char)} (hne : parts ≠ []) (hparts : ∀ part ∈ parts, ¬ mark <:+: part) :
    pieces mark (mark.intercalate parts) = parts :=
  pieces_intercalate_of_cut? hmark.1 hne fun part hpart => cut?_append hmark (hparts part hpart)

/-- Parts that do not have the first character of the mark can be joined by any mark. -/
theorem pieces_intercalate_of_not_mem {c : Char} {mark : List Char} {parts : List (List Char)}
    (hne : parts ≠ []) (hparts : ∀ part ∈ parts, c ∉ part) :
    pieces (c :: mark) ((c :: mark).intercalate parts) = parts :=
  pieces_intercalate_of_cut? (List.cons_ne_nil c mark) hne fun part hpart =>
    cut?_append_of_not_mem (hparts part hpart)

theorem intercalate_append (mark : List Char) {left right : List (List Char)} (hleft : left ≠ [])
    (hright : right ≠ []) :
    mark.intercalate (left ++ right) =
      mark.intercalate left ++ (mark ++ mark.intercalate right) := by
  induction left with
  | nil => exact absurd rfl hleft
  | cons part left ih =>
      cases left with
      | nil =>
          rw [List.singleton_append, List.intercalate_cons_of_ne_nil hright,
            List.intercalate_singleton, List.append_assoc]
      | cons next left =>
          rw [List.cons_append, List.intercalate_cons_of_ne_nil (by simp),
            ih (List.cons_ne_nil next left), List.intercalate_cons_cons]
          simp only [List.append_assoc]

/-- Every character of a text stands in a mark or in a piece. -/
theorem mem_mark_or_mem_pieces {mark : List Char} (hmark : mark ≠ []) {text : List Char}
    {c : Char} (h : c ∈ text) : c ∈ mark ∨ ∃ piece ∈ pieces mark text, c ∈ piece := by
  induction text using cutInduction hmark with
  | plain text hplain =>
      rw [pieces_of_unmarked hplain]
      exact .inr ⟨text, List.mem_singleton_self _, h⟩
  | cut text before after hcut ih =>
      rw [eq_append_of_cut? hcut, List.mem_append, List.mem_append] at h
      rw [pieces_of_cut? hmark hcut]
      rcases h with h | h | h
      · exact .inr ⟨before, List.mem_cons_self, h⟩
      · exact .inl h
      · refine (ih h).imp_right ?_
        rintro ⟨piece, hpiece, h⟩
        exact ⟨piece, List.mem_cons_of_mem _ hpiece, h⟩

/-!
## Splitting from left to right
-/

/-- No mark starts inside `before` when a mark and `after` stand behind it. -/
def FirstMark (mark before after : List Char) : Prop :=
  ∀ skipped rest, before = skipped ++ rest → rest ≠ [] → ¬ mark <+: rest ++ (mark ++ after)

theorem firstMark_of_cut? {mark text before after : List Char}
    (h : cut? mark text = some (before, after)) : FirstMark mark before after := by
  induction text generalizing before with
  | nil =>
      obtain ⟨rfl, -⟩ := List.append_eq_nil_iff.1 (eq_append_of_cut? h).symm
      intro skipped rest hrest hne
      exact absurd (List.append_eq_nil_iff.1 hrest.symm).2 hne
  | cons c text ih =>
      have htext := eq_append_of_cut? h
      intro skipped rest hrest hne
      rw [cut?] at h
      split at h
      · obtain ⟨rfl, -⟩ := Prod.mk.inj (Option.some.inj h)
        exact absurd (List.append_eq_nil_iff.1 hrest.symm).2 hne
      · next hstart =>
        obtain ⟨⟨before, after⟩, hcut, hsides⟩ := Option.map_eq_some_iff.1 h
        obtain ⟨rfl, rfl⟩ := Prod.mk.inj hsides
        cases skipped with
        | nil =>
            rw [List.nil_append] at hrest
            rwa [← hrest, ← htext, ← List.isPrefixOf_iff_prefix]
        | cons first skipped =>
            obtain ⟨-, hbefore⟩ := List.cons.inj hrest
            exact ih hcut skipped rest hbefore hne

/-- Of two marks in a text the later one is not the first. -/
theorem FirstMark.eq_nil {mark before more after later : List Char}
    (h : FirstMark mark (before ++ more) later)
    (htext : mark ++ after = more ++ (mark ++ later)) : more = [] := by
  by_contra hne
  exact h before more rfl hne (htext ▸ List.prefix_append _ _)

/-- Searching for a mark finds the first one, whether its occurrences overlap or not. -/
theorem cut?_eq_some_iff_firstMark {mark text before after : List Char} :
    cut? mark text = some (before, after) ↔
      text = before ++ (mark ++ after) ∧ FirstMark mark before after := by
  constructor
  · intro h
    exact ⟨eq_append_of_cut? h, firstMark_of_cut? h⟩
  · rintro ⟨rfl, hfirst⟩
    cases hcut : cut? mark (before ++ (mark ++ after)) with
    | none =>
        exact absurd ⟨before, after, List.append_assoc _ _ _⟩ (cut?_eq_none_iff.1 hcut)
    | some sides =>
        obtain ⟨found, rest⟩ := sides
        have hfound := firstMark_of_cut? hcut
        have htext := eq_append_of_cut? hcut
        have hbefore : before = found := by
          rcases List.append_eq_append_iff.1 htext with ⟨more, rfl, hmore⟩ | ⟨more, rfl, hmore⟩
          · rw [hfound.eq_nil hmore, List.append_nil]
          · rw [hfirst.eq_nil hmore, List.append_nil]
        subst hbefore
        have hafter := List.append_cancel_left (List.append_cancel_left htext)
        rw [hafter]

/-- The text is split at its marks from left to right: at the first mark, and behind it in
the same way.  A mark that overlaps the one before it does not count. -/
inductive Splits (mark : List Char) : List Char → List (List Char) → Prop where
  | last {text : List Char} (hplain : ¬ mark <:+: text) : Splits mark text [text]
  | cut {before after : List Char} {rest : List (List Char)}
      (hfirst : FirstMark mark before after) (hrest : Splits mark after rest) :
      Splits mark (before ++ (mark ++ after)) (before :: rest)

theorem splits_iff {mark : List Char} (hmark : mark ≠ []) {text : List Char}
    {parts : List (List Char)} : Splits mark text parts ↔ parts = pieces mark text := by
  constructor
  · intro hsplits
    induction hsplits with
    | last hplain => exact (pieces_of_unmarked hplain).symm
    | cut hfirst _ ih =>
        rw [pieces_of_cut? hmark (cut?_eq_some_iff_firstMark.2 ⟨rfl, hfirst⟩), ih]
  · rintro rfl
    induction text using cutInduction hmark with
    | plain text hplain =>
        rw [pieces_of_unmarked hplain]
        exact .last hplain
    | cut text before after hcut ih =>
        obtain ⟨rfl, hfirst⟩ := cut?_eq_some_iff_firstMark.1 hcut
        rw [pieces_of_cut? hmark hcut]
        exact .cut hfirst ih

/-!
## Blanks
-/

/-- A text of blanks only. -/
def Blanks (text : List Char) : Prop := ∀ c ∈ text, isBlank c = true

/-- What may follow a word: the end of the text, or a blank and then anything. -/
def EndsWord (text : List Char) : Prop := text = [] ∨ ∃ c rest, text = c :: rest ∧ isBlank c = true

/-- Trimming on the right takes away blanks only. -/
theorem exists_blanks_trimRight (text : List Char) :
    ∃ blanks, Blanks blanks ∧ text = trimRight text ++ blanks :=
  ⟨text.rtakeWhile isBlank, fun _ hmem => List.mem_rtakeWhile_imp hmem,
    List.rdropWhile_append_rtakeWhile.symm⟩

/-- A start of a text that has been trimmed on the left needs no more trimming there. -/
theorem trimLeft_of_prefix_trimLeft {start text : List Char} (h : start <+: trimLeft text) :
    trimLeft start = start := by
  cases start with
  | nil => rfl
  | cons c rest =>
      obtain ⟨tail, htail⟩ := h
      have hhead := List.head?_dropWhile_not isBlank text
      rw [← trimLeft, ← htail] at hhead
      exact List.dropWhile_cons_of_neg (by simpa using hhead)

theorem trim_prefix_trimLeft (text : List Char) : trim text <+: trimLeft text :=
  List.rdropWhile_prefix isBlank (trimLeft text)

theorem mem_of_mem_trim {text : List Char} {c : Char} (h : c ∈ trim text) : c ∈ text := by
  have hleft := (trim_prefix_trimLeft text).subset h
  exact (List.dropWhile_sublist isBlank).subset hleft

theorem trim_trim (text : List Char) : trim (trim text) = trim text := by
  have hleft := trimLeft_of_prefix_trimLeft (trim_prefix_trimLeft text)
  rw [trim, hleft]
  exact List.rdropWhile_idempotent isBlank (trimLeft text)

/-- A start of a trimmed text is trimmed on the right alone. -/
theorem trim_of_prefix_trim {start text : List Char} (h : start <+: trim text) :
    trim start = trimRight start := by
  rw [trim, trimLeft_of_prefix_trimLeft (h.trans (trim_prefix_trimLeft text))]

/-- A text without blanks needs no trimming. -/
theorem trim_of_no_blank {text : List Char} (h : ∀ c ∈ text, isBlank c = false) :
    trim text = text := by
  have hleft : trimLeft text = text := by
    cases text with
    | nil => rfl
    | cons c rest => exact List.dropWhile_cons_of_neg (by simp [h c List.mem_cons_self])
  rw [trim, hleft]
  refine List.rdropWhile_eq_self_iff.2 fun hne => ?_
  simp [h _ (List.getLast_mem hne)]

theorem not_isBlank_of_trimLeft {c : Char} {rest : List Char}
    (h : trimLeft (c :: rest) = c :: rest) : ¬ isBlank c = true := by
  intro hblank
  rw [trimLeft, List.dropWhile_cons_of_pos hblank] at h
  have hlength := congrArg List.length h
  have hshorter := List.length_dropWhile_le isBlank rest
  rw [List.length_cons] at hlength
  omega

/-- Blanks behind a trimmed text are trimmed away. -/
theorem trim_append_blanks {text blanks : List Char} (hne : text ≠ []) (htrim : trim text = text)
    (hblanks : Blanks blanks) : trim (text ++ blanks) = text := by
  have hright : trimRight text = text := by
    rw [← htrim]
    exact List.rdropWhile_idempotent isBlank (trimLeft text)
  have hleft : trimLeft (text ++ blanks) = text ++ blanks := by
    obtain ⟨c, rest, rfl⟩ := List.exists_cons_of_ne_nil hne
    have hstarts := trim_prefix_trimLeft (c :: rest)
    rw [htrim] at hstarts
    exact List.dropWhile_cons_of_neg (not_isBlank_of_trimLeft (trimLeft_of_prefix_trimLeft hstarts))
  have hbehind : ∀ c ∈ blanks.reverse, isBlank c = true := by
    intro c hmem
    exact hblanks c (List.mem_reverse.1 hmem)
  rw [trim, hleft, trimRight, List.reverse_append, List.dropWhile_append_of_pos hbehind]
  exact hright

/-- The first word of a text stands behind blanks and in front of a blank or the end. -/
theorem firstWord_eq_iff {word text : List Char} (hne : word ≠ [])
    (hword : ∀ c ∈ word, isBlank c = false) :
    firstWord text = word ↔
      ∃ blanks tail, text = blanks ++ (word ++ tail) ∧ Blanks blanks ∧ EndsWord tail := by
  have hinside : ∀ c ∈ word, (!isBlank c) = true := by
    intro c hmem
    rw [hword c hmem]
    rfl
  constructor
  · intro hfirst
    refine ⟨text.takeWhile isBlank, (trimLeft text).dropWhile fun c => !isBlank c, ?_, ?_, ?_⟩
    · rw [← hfirst, firstWord, List.takeWhile_append_dropWhile, trimLeft,
        List.takeWhile_append_dropWhile]
    · intro c hmem
      exact List.mem_takeWhile_imp hmem
    · have hhead := List.head?_dropWhile_not (fun c => !isBlank c) (trimLeft text)
      cases htail : (trimLeft text).dropWhile fun c => !isBlank c with
      | nil => exact .inl rfl
      | cons c rest =>
          rw [htail] at hhead
          exact .inr ⟨c, rest, rfl, by simpa using hhead⟩
  · rintro ⟨blanks, tail, rfl, hblanks, htail⟩
    have htrim : trimLeft (blanks ++ (word ++ tail)) = word ++ tail := by
      obtain ⟨c, rest, rfl⟩ := List.exists_cons_of_ne_nil hne
      rw [trimLeft, List.dropWhile_append_of_pos hblanks, List.cons_append]
      exact List.dropWhile_cons_of_neg (by simp [hword c List.mem_cons_self])
    have hend : tail.takeWhile (fun c => !isBlank c) = [] := by
      rcases htail with rfl | ⟨c, rest, rfl, hblank⟩
      · rfl
      · exact List.takeWhile_cons_of_neg (by simp [hblank])
    rw [firstWord, htrim, List.takeWhile_append_of_pos hinside, hend, List.append_nil]

end Text
end SchemaLint
