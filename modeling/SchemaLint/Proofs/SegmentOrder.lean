import SchemaLint.Proofs.RuleNames

namespace SchemaLint
namespace RuleName

/-!
# Namespaces are initial segments

Whether a namespace is around a name is tested on raw text: the name has to start with
the namespace, and either to end there or to go on with a separator.  Names are joined
from segments, and a segment is not empty and has no colon.  Therefore a separator that
stands in a name always stands between two of its segments, and the texts around a name
are exactly the joins of its first few segments, the empty text being the join of none.

For texts that are not names this fails: both `a` and `a:` are around `a:::b`, and neither
of them is around the other.
-/

/-- The segments of a name as lists of characters. -/
def parts (name : RuleName) : List (List Char) := Text.pieces separator name.text.toList

theorem intercalate_parts (name : RuleName) :
    separator.intercalate name.parts = name.text.toList :=
  Text.intercalate_pieces (by decide) name.text.toList

/-- A text that can stand between two separators. -/
def IsSegment (segment : List Char) : Prop :=
  segment ≠ [] ∧ ∀ c ∈ segment, isSegmentChar c = true

theorem IsSegment.colon_not_mem {segment : List Char} (h : IsSegment segment) : ':' ∉ segment :=
  colon_not_mem_of_isSegmentChar h.2

theorem isSegment_of_mem_parts {name : RuleName} {segment : List Char}
    (h : segment ∈ name.parts) : IsSegment segment :=
  (check_eq_ok_iff.1 name.check_ofList_toList).2 segment h

theorem segments_prefix_iff {outer inner : RuleName} :
    outer.segments <+: inner.segments ↔ outer.parts <+: inner.parts :=
  List.prefix_map_iff_of_injective fun _ _ hsame => String.ofList_injective hsame

/-!
## Joined segments
-/

section Join

variable {segments : List (List Char)} (hsegments : ∀ segment ∈ segments, IsSegment segment)

include hsegments

theorem pieces_intercalate_segments (hne : segments ≠ []) :
    Text.pieces separator (separator.intercalate segments) = segments :=
  Text.pieces_intercalate_of_not_mem hne fun segment hsegment =>
    (hsegments segment hsegment).colon_not_mem

/-- Joined segments make a name. -/
theorem check_intercalate (hne : segments ≠ []) :
    check (String.ofList (separator.intercalate segments)) = .ok () := by
  have hpieces := pieces_intercalate_segments hsegments hne
  rw [check_eq_ok_iff, hpieces]
  refine ⟨?_, hsegments⟩
  intro hempty
  -- The empty text has one piece, which is empty and therefore no segment.
  rw [hempty, Text.pieces_of_unmarked (by decide)] at hpieces
  exact (hsegments [] (hpieces ▸ List.mem_singleton_self [])).1 rfl

/-- Joined segments never start with a colon. -/
theorem intercalate_ne_colon_cons (tail : List Char) :
    separator.intercalate segments ≠ ':' :: tail := by
  intro hcolon
  cases segments with
  | nil => simp [List.intercalate_nil] at hcolon
  | cons segment rest =>
      have hsegment := hsegments segment List.mem_cons_self
      obtain ⟨c, more, rfl⟩ := List.exists_cons_of_ne_nil hsegment.1
      have hc : c = ':' := by
        cases rest with
        | nil =>
            rw [List.intercalate_singleton] at hcolon
            exact (List.cons.inj hcolon).1
        | cons next rest =>
            rw [List.intercalate_cons_cons] at hcolon
            exact (List.cons.inj hcolon).1
      exact hsegment.colon_not_mem (hc ▸ List.mem_cons_self)

end Join

/-- Where two separators stand in one text, they are the same, or overlap in one colon, or
the second stands behind the first. -/
theorem separator_append_cases {left more right : List Char}
    (h : separator ++ left = more ++ (separator ++ right)) :
    more = [] ∨ left = ':' :: right ∨
      ∃ deeper, more = separator ++ deeper ∧ left = deeper ++ (separator ++ right) := by
  match more with
  | [] => exact .inl rfl
  | [_] =>
      have hleft : ':' :: left = ':' :: ':' :: right := (List.cons.inj h).2
      exact .inr (.inl (List.cons.inj hleft).2)
  | _ :: _ :: deeper =>
      obtain ⟨rfl, htail⟩ := List.cons.inj h
      obtain ⟨rfl, hleft⟩ := List.cons.inj htail
      exact .inr (.inr ⟨deeper, rfl, hleft⟩)

/-- A separator stands between two segments only.  The induction is on the segments: a
scope that does not end with the first segment goes on behind the separator after it. -/
theorem exists_initial_of_separator {segments : List (List Char)}
    (hsegments : ∀ segment ∈ segments, IsSegment segment) {scope rest : List Char}
    (hscope : scope ≠ []) (h : separator.intercalate segments = scope ++ (separator ++ rest)) :
    ∃ outer, outer <+: segments ∧ scope = separator.intercalate outer := by
  induction segments generalizing scope with
  | nil =>
      rw [List.intercalate_nil] at h
      exact absurd (List.append_eq_nil_iff.1 h.symm).1 hscope
  | cons segment later ih =>
      have hplain := (hsegments segment List.mem_cons_self).colon_not_mem
      have hlater : ∀ other ∈ later, IsSegment other := fun other hother =>
        hsegments other (List.mem_cons_of_mem _ hother)
      have hfirst : ∃ outer, outer <+: segment :: later ∧ segment = separator.intercalate outer :=
        ⟨[segment], List.prefix_append [segment] later, List.intercalate_singleton.symm⟩
      cases later with
      | nil =>
          rw [List.intercalate_singleton] at h
          refine absurd ?_ hplain
          rw [h]
          simp [separator]
      | cons next later =>
          rw [List.intercalate_cons_cons, List.append_assoc] at h
          rcases List.append_eq_append_iff.1 h with ⟨more, rfl, hmore⟩ | ⟨more, rfl, hmore⟩
          · rcases separator_append_cases hmore with rfl | hoverlap | ⟨deeper, rfl, hdeeper⟩
            · rwa [List.append_nil]
            · -- Three colons in a row would leave one for the start of a segment.
              exact absurd hoverlap (intercalate_ne_colon_cons hlater rest)
            · have hne : deeper ≠ [] := by
                rintro rfl
                exact intercalate_ne_colon_cons hlater _ hdeeper
              obtain ⟨outer, houter, rfl⟩ := ih hlater hne hdeeper
              have hjoined : outer ≠ [] := by
                rintro rfl
                exact hne List.intercalate_nil
              refine ⟨segment :: outer, List.cons_prefix_cons.2 ⟨rfl, houter⟩, ?_⟩
              rw [List.intercalate_cons_of_ne_nil hjoined, List.append_assoc]
          · -- A separator inside the first segment would put a colon into it.
            cases more with
            | nil =>
                rw [List.append_nil] at hfirst ⊢
                exact hfirst
            | cons c more =>
                obtain ⟨rfl, -⟩ := List.cons.inj hmore
                simp at hplain

/-- Some segments and then some more: the join of the first is around the join of all. -/
theorem around_of_initial {outer inner : List (List Char)} (h : outer <+: inner)
    {scope name : String} (hscope : scope.toList = separator.intercalate outer)
    (hname : name.toList = separator.intercalate inner) : Around scope name := by
  obtain ⟨more, rfl⟩ := h
  by_cases houter : outer = []
  · left
    rw [houter, List.intercalate_nil] at hscope
    exact String.toList_inj.1 hscope
  · right
    rw [within_iff, hscope, hname]
    by_cases hmore : more = []
    · exact ⟨[], by rw [hmore, List.append_nil, List.append_nil], .inl rfl⟩
    · exact ⟨_, (Text.intercalate_append separator houter hmore).symm,
        .inr (List.prefix_append _ _)⟩

/-- The texts around a name are the joins of its first few segments. -/
theorem around_iff_exists_initial {scope : String} {name : RuleName} :
    Around scope name.text ↔
      ∃ outer, outer <+: name.parts ∧ scope.toList = separator.intercalate outer := by
  constructor
  · rintro (rfl | hwithin)
    · exact ⟨[], List.nil_prefix, List.intercalate_nil.symm⟩
    · obtain ⟨rest, hrest, hends⟩ := within_iff.1 hwithin
      rw [← intercalate_parts] at hrest
      rcases hends with rfl | ⟨rest, rfl⟩
      · exact ⟨name.parts, List.prefix_rfl, by rw [← hrest, List.append_nil]⟩
      · by_cases hscope : scope.toList = []
        · exact ⟨[], List.nil_prefix, hscope⟩
        · exact exists_initial_of_separator (fun _ => isSegment_of_mem_parts) hscope hrest.symm
  · rintro ⟨outer, houter, hscope⟩
    exact around_of_initial houter hscope name.intercalate_parts.symm

/-!
## The order of namespaces
-/

/-- A text around a name is empty or a name itself, and then its segments come first. -/
theorem around_iff_segments {scope : String} {name : RuleName} :
    Around scope name.text ↔
      scope = "" ∨ ∃ outer : RuleName, outer.text = scope ∧ outer.segments <+: name.segments := by
  rw [around_iff_exists_initial]
  constructor
  · rintro ⟨initial, hinitial, hscope⟩
    have hsegments : ∀ segment ∈ initial, IsSegment segment := fun segment hsegment =>
      isSegment_of_mem_parts (hinitial.subset hsegment)
    obtain rfl : String.ofList (separator.intercalate initial) = scope := by
      rw [← hscope, String.ofList_toList]
    by_cases hne : initial = []
    · left
      rw [hne, List.intercalate_nil]
    · right
      -- The join of these segments is a name, and splitting it gives them back.
      refine ⟨⟨_, check_intercalate hsegments hne⟩, rfl, segments_prefix_iff.2 ?_⟩
      rw [parts, String.toList_ofList, pieces_intercalate_segments hsegments hne]
      exact hinitial
  · rintro (rfl | ⟨outer, rfl, houter⟩)
    · exact ⟨[], List.nil_prefix, List.intercalate_nil.symm⟩
    · exact ⟨outer.parts, segments_prefix_iff.1 houter, outer.intercalate_parts.symm⟩

theorem Around.refl (text : String) : Around text text := .inr (.inl rfl)

theorem Around.trans {outer middle inner : String} (houter : Around outer middle)
    (hinner : Around middle inner) : Around outer inner := by
  rcases houter with rfl | rfl | ⟨rest, rfl⟩
  · exact .inl rfl
  · exact hinner
  · rcases hinner with hempty | rfl | ⟨more, rfl⟩
    · simp at hempty
    · exact .inr (.inr ⟨rest, rfl⟩)
    · exact .inr (.inr ⟨rest ++ "::" ++ more, by simp only [String.append_assoc]⟩)

theorem Around.antisymm {left right : String} (hleft : Around left right)
    (hright : Around right left) : left = right :=
  eq_of_prefix_of_utf8ByteSize_eq hleft.toList_prefix
    (Nat.le_antisymm hleft.utf8ByteSize_le hright.utf8ByteSize_le)

/-- Two texts around one name are joins of initial parts of one list, so one of them is
around the other. -/
theorem Around.comparable {left right : String} {name : RuleName}
    (hleft : Around left name.text) (hright : Around right name.text) :
    Around left right ∨ Around right left := by
  obtain ⟨outer, houter, hjoin⟩ := around_iff_exists_initial.1 hleft
  obtain ⟨other, hother, hothers⟩ := around_iff_exists_initial.1 hright
  rcases List.prefix_or_prefix_of_prefix houter hother with h | h
  · exact .inl (around_of_initial h hjoin hothers)
  · exact .inr (around_of_initial h hothers hjoin)

/-- The test on raw text compares segments: it accepts the empty text and the names whose
segments come first in the name, and no other text.  It is an order on texts, and the
texts that it accepts for one name are a chain. -/
theorem encloses_iff_initial_segments :
    (∀ (scope : String) (name : RuleName), encloses scope name.text = true ↔
      scope = "" ∨ ∃ outer : RuleName, outer.text = scope ∧ outer.segments <+: name.segments) ∧
    (∀ text, encloses text text = true) ∧
    (∀ outer middle inner, encloses outer middle = true → encloses middle inner = true →
      encloses outer inner = true) ∧
    (∀ left right, encloses left right = true → encloses right left = true → left = right) ∧
    ∀ (name : RuleName) (left right : String),
      encloses left name.text = true → encloses right name.text = true →
      encloses left right = true ∨ encloses right left = true := by
  simp only [encloses_iff_around]
  refine ⟨fun scope name => around_iff_segments, Around.refl, ?_, ?_, ?_⟩
  · intro outer middle inner houter hinner
    exact houter.trans hinner
  · intro left right hleft hright
    exact hleft.antisymm hright
  · intro name left right hleft hright
    exact hleft.comparable hright

/-- A name of three segments. -/
def httpBody : RuleName := ⟨"core::0135::http-body", by decide +kernel⟩

/-- Its first segments are around it and around each other; a part of a segment is not. -/
theorem encloses_iff_initial_segments_httpBody :
    httpBody.segments = ["core", "0135", "http-body"] ∧
      encloses "core" httpBody.text = true ∧ encloses "core::0135" httpBody.text = true ∧
      (encloses "core" "core::0135" = true ∨ encloses "core::0135" "core" = true) ∧
      ¬ ∃ outer : RuleName, outer.text = "core::013" ∧ outer.segments <+: httpBody.segments := by
  have hfirst : encloses "core" httpBody.text = true := by decide +kernel
  have hsecond : encloses "core::0135" httpBody.text = true := by decide +kernel
  have hpart : ¬ encloses "core::013" httpBody.text = true := by decide +kernel
  obtain ⟨hprefixes, -, -, -, hchain⟩ := encloses_iff_initial_segments
  refine ⟨by decide +kernel, hfirst, hsecond, hchain httpBody _ _ hfirst hsecond, ?_⟩
  intro hinitial
  exact hpart ((hprefixes _ _).2 (.inr hinitial))

/-- Around a text that is not a name two texts need not be comparable. -/
example :
    encloses "a" "a:::b" = true ∧ encloses "a:" "a:::b" = true ∧
      encloses "a" "a:" = false ∧ encloses "a:" "a" = false := by
  decide +kernel

end RuleName
end SchemaLint
