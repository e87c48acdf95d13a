import SchemaLint.Proofs.SegmentOrder

namespace SchemaLint
namespace RuleName

/-!
# Rule names are joined segments

A text is checked by splitting it at `::` and looking at the parts from left to right.
The texts that pass are the joins of segments, and splitting and joining undo each other
for them, so that a name and its segments determine each other.

For other texts the split is not the only way of reading them: in `a:::b` a separator
starts at two places, and only the first one counts, which leaves `:b` behind.  What is
wrong with a text is therefore said with respect to the split from left to right, and the
first part that is no segment decides.
-/

theorem ofString_eq_ok_iff {text : String} {name : RuleName} :
    ofString text = .ok name ↔ name.text = text := by
  unfold ofString
  split
  · next hvalid =>
    rw [Except.ok.injEq]
    constructor
    · rintro rfl
      rfl
    · rintro rfl
      rfl
  · next fault hfault =>
    simp only [reduceCtorEq, false_iff]
    rintro rfl
    rw [name.valid] at hfault
    cases hfault

theorem ofString_eq_error_iff {text : String} {error : NameError} :
    ofString text = .error error ↔ check text = .error error := by
  unfold ofString
  split
  · next hvalid => simp [hvalid]
  · next fault hfault => simp [hfault]

/-!
## Splitting and joining
-/

theorem map_toList_segments (name : RuleName) : name.segments.map String.toList = name.parts := by
  rw [segments, List.map_map]
  exact List.map_id'' (fun _ => String.toList_ofList) _

/-- Joined by the separator, the segments of a name give it back. -/
theorem intercalate_segments (name : RuleName) : "::".intercalate name.segments = name.text := by
  apply String.toList_inj.1
  rw [String.toList_intercalate, map_toList_segments]
  exact name.intercalate_parts

theorem isSegment_of_mem_segments {name : RuleName} {segment : String}
    (h : segment ∈ name.segments) : IsSegment segment.toList := by
  have hpart : segment.toList ∈ name.parts := by
    rw [← map_toList_segments]
    exact List.mem_map_of_mem h
  exact isSegment_of_mem_parts hpart

/-- Segments joined by the separator make a name that has these segments. -/
theorem exists_ofString_intercalate {segments : List String} (hne : segments ≠ [])
    (hsegments : ∀ segment ∈ segments, IsSegment segment.toList) :
    ∃ name, ofString ("::".intercalate segments) = .ok name ∧ name.segments = segments := by
  have hparts : ∀ part ∈ segments.map String.toList, IsSegment part := by
    intro part hpart
    obtain ⟨segment, hsegment, rfl⟩ := List.mem_map.1 hpart
    exact hsegments segment hsegment
  have hpartsNe : segments.map String.toList ≠ [] := by
    simpa using hne
  have htext : ("::".intercalate segments).toList =
      separator.intercalate (segments.map String.toList) := String.toList_intercalate
  have hvalid := check_intercalate hparts hpartsNe
  rw [← htext, String.ofList_toList] at hvalid
  refine ⟨⟨_, hvalid⟩, ofString_eq_ok_iff.2 rfl, ?_⟩
  rw [RuleName.segments, htext, pieces_intercalate_segments hparts hpartsNe, List.map_map]
  exact List.map_id'' (fun _ => String.ofList_toList) _

/-!
## What is wrong with other texts
-/

/-- The error is what is wrong with a part of the split of `name`: the part is empty, or has
a first character that no segment has. -/
inductive PartFault (name : String) : List Char → NameError → Prop where
  | empty : PartFault name [] (.emptySegment name)
  | character {before after : List Char} {c : Char}
      (hbefore : ∀ earlier ∈ before, isSegmentChar earlier = true)
      (hc : isSegmentChar c = false) :
      PartFault name (before ++ c :: after) (.invalidCharacter name c)

theorem isSegment_or_partFault (name : String) (part : List Char) :
    IsSegment part ∨ ∃ error, PartFault name part error := by
  by_cases hempty : part = []
  · right
    rw [hempty]
    exact ⟨_, .empty⟩
  · cases hfind : part.find? fun c => !isSegmentChar c with
    | none =>
        left
        refine ⟨hempty, fun c hc => ?_⟩
        simpa using List.find?_eq_none.1 hfind c hc
    | some c =>
        right
        obtain ⟨hc, before, after, rfl, hbefore⟩ := List.find?_eq_some_iff_append.1 hfind
        exact ⟨_, .character (by simpa using hbefore) (by simpa using hc)⟩

theorem checkSegments_cons_of_isSegment {name : String} {part : List Char}
    (h : IsSegment part) (rest : List (List Char)) :
    checkSegments name (part :: rest) = checkSegments name rest := by
  have hfind : (part.find? fun c => !isSegmentChar c) = none := by
    rw [List.find?_eq_none]
    intro c hc
    simp [h.2 c hc]
  have hne : part.isEmpty = false := by
    simpa using h.1
  rw [checkSegments, hne, hfind]
  rfl

theorem checkSegments_cons_of_partFault {name : String} {part : List Char} {error : NameError}
    (h : PartFault name part error) (rest : List (List Char)) :
    checkSegments name (part :: rest) = .error error := by
  cases h with
  | empty => rfl
  | @character before after c hbefore hc =>
      have hfind : ((before ++ c :: after).find? fun c => !isSegmentChar c) = some c := by
        rw [List.find?_eq_some_iff_append]
        refine ⟨by simp [hc], before, after, rfl, fun earlier hearlier => ?_⟩
        simp [hbefore earlier hearlier]
      have hne : (before ++ c :: after).isEmpty = false := by
        simp
      rw [checkSegments, hne, hfind]
      rfl

/-- Checking ends at the first part that is no segment. -/
theorem checkSegments_eq_error_iff {name : String} {parts : List (List Char)}
    {error : NameError} :
    checkSegments name parts = .error error ↔
      ∃ before part after, parts = before ++ part :: after ∧
        (∀ earlier ∈ before, IsSegment earlier) ∧ PartFault name part error := by
  constructor
  · intro hcheck
    induction parts with
    | nil => simp [checkSegments] at hcheck
    | cons part rest ih =>
        rcases isSegment_or_partFault name part with hsegment | ⟨fault, hfault⟩
        · rw [checkSegments_cons_of_isSegment hsegment] at hcheck
          obtain ⟨before, bad, after, rfl, hbefore, hbad⟩ := ih hcheck
          refine ⟨part :: before, bad, after, rfl, ?_, hbad⟩
          exact List.forall_mem_cons.2 ⟨hsegment, hbefore⟩
        · rw [checkSegments_cons_of_partFault hfault, Except.error.injEq] at hcheck
          subst hcheck
          exact ⟨[], part, rest, rfl, by simp, hfault⟩
  · rintro ⟨before, part, after, rfl, hbefore, hpart⟩
    induction before with
    | nil => exact checkSegments_cons_of_partFault hpart after
    | cons first before ih =>
        obtain ⟨hfirst, hrest⟩ := List.forall_mem_cons.1 hbefore
        rw [List.cons_append, checkSegments_cons_of_isSegment hfirst]
        exact ih hrest

theorem check_eq_checkSegments {text : String} (hne : text ≠ "") :
    check text = checkSegments text (Text.pieces separator text.toList) := by
  rw [check]
  split
  · next hempty => exact absurd (String.toList_eq_nil_iff.1 hempty) hne
  · rfl

/-- The rule names are the joins of one or more segments, and a name and its segments
determine each other.  What is wrong with any other text is what is wrong with the first
part that is no segment, where the text is split from left to right. -/
theorem ofString_iff_joined_segments :
    (∀ text : String, (∃ name, ofString text = .ok name) ↔
      ∃ segments : List String, segments ≠ [] ∧
        (∀ segment ∈ segments, IsSegment segment.toList) ∧ text = "::".intercalate segments) ∧
    (∀ segments : List String, segments ≠ [] →
      (∀ segment ∈ segments, IsSegment segment.toList) →
      ∃ name, ofString ("::".intercalate segments) = .ok name ∧ name.segments = segments) ∧
    (∀ (text : String) (name : RuleName), ofString text = .ok name →
      "::".intercalate name.segments = text) ∧
    (∀ (text : String) (error : NameError), text ≠ "" →
      (ofString text = .error error ↔
        ∃ before part after, Text.Splits separator text.toList (before ++ part :: after) ∧
          (∀ earlier ∈ before, IsSegment earlier) ∧ PartFault text part error)) ∧
    ofString "" = .error .empty := by
  refine ⟨?_, ?_, ?_, ?_, rfl⟩
  · intro text
    constructor
    · rintro ⟨name, hname⟩
      obtain rfl := ofString_eq_ok_iff.1 hname
      refine ⟨name.segments, ?_, fun _ => isSegment_of_mem_segments, name.intercalate_segments.symm⟩
      simpa [segments] using Text.pieces_ne_nil separator name.text.toList
    · rintro ⟨segments, hne, hsegments, rfl⟩
      obtain ⟨name, hname, -⟩ := exists_ofString_intercalate hne hsegments
      exact ⟨name, hname⟩
  · intro segments hne hsegments
    exact exists_ofString_intercalate hne hsegments
  · intro text name hname
    rw [← ofString_eq_ok_iff.1 hname]
    exact name.intercalate_segments
  · intro text error hne
    have hseparator : separator ≠ [] := by decide
    rw [ofString_eq_error_iff, check_eq_checkSegments hne, checkSegments_eq_error_iff]
    refine exists_congr fun before => exists_congr fun part => exists_congr fun after => ?_
    rw [Text.splits_iff hseparator, eq_comm]

/-- Of three colons the first two divide and the third is a bad character; four divide
twice. -/
example :
    check "a:b" = .error (.invalidCharacter "a:b" ':') ∧
      check "a:::b" = .error (.invalidCharacter "a:::b" ':') ∧
      check "a::::b" = .error (.emptySegment "a::::b") := by
  decide +kernel

end RuleName
end SchemaLint
