import SchemaLint.Proofs.Cutting
import SchemaLint.RuleName

namespace SchemaLint
namespace RuleName

/-!
# The text of rule names

What checking a name accepts, said about its segments, and what that means for the
characters of a name: a name holds no blank and no character that could be taken for
the syntax around it.

The test by which names enclose each other is compared with the relation it decides;
what the relation means for segments is not said here.
-/

theorem checkSegments_eq_ok_iff {name : String} {segments : List (List Char)} :
    checkSegments name segments = .ok () ↔
      ∀ segment ∈ segments, segment ≠ [] ∧ ∀ c ∈ segment, isSegmentChar c = true := by
  induction segments with
  | nil => simp [checkSegments]
  | cons segment rest ih =>
      rw [checkSegments, List.forall_mem_cons]
      by_cases hempty : segment.isEmpty = true
      · simp_all
      · rw [if_neg hempty]
        cases hfind : segment.find? fun c => !isSegmentChar c with
        | some c =>
            have hc := List.find?_some hfind
            have hmem := List.mem_of_find?_eq_some hfind
            simp only [reduceCtorEq, false_iff]
            rintro ⟨⟨-, hall⟩, -⟩
            simp [hall c hmem] at hc
        | none =>
            rw [List.find?_eq_none] at hfind
            simp_all

/-- A text is a rule name when it is not empty and all its segments are runs of segment
characters. -/
theorem check_eq_ok_iff {text : List Char} :
    check (String.ofList text) = .ok () ↔
      text ≠ [] ∧ ∀ segment ∈ Text.pieces separator text,
        segment ≠ [] ∧ ∀ c ∈ segment, isSegmentChar c = true := by
  rw [check, String.toList_ofList]
  cases text with
  | nil => simp
  | cons c text => simp [checkSegments_eq_ok_iff]

theorem check_ofList_toList (name : RuleName) :
    check (String.ofList name.text.toList) = .ok () := by
  rw [String.ofList_toList]
  exact name.valid

theorem checkScope_eq_error_iff {scope : String} {fault : NameError} :
    checkScope scope = .error fault ↔ scope ≠ "" ∧ check scope = .error fault := by
  rw [checkScope]
  by_cases hempty : scope = ""
  · simp [hempty]
  · simp [hempty]

/-- Segment characters lie between the hyphen and the small letter z. -/
theorem bounds_of_isSegmentChar {c : Char} (h : isSegmentChar c = true) :
    45 ≤ c.toNat ∧ c.toNat ≤ 122 := by
  delta isSegmentChar Char.isAlphanum Char.isAlpha Char.isUpper Char.isLower Char.isDigit at h
  simp only [Bool.or_eq_true, Bool.and_eq_true, decide_eq_true_eq, beq_iff_eq,
    UInt32.le_iff_toNat_le, ge_iff_le] at h
  change ((((65 ≤ c.toNat ∧ c.toNat ≤ 90) ∨ (97 ≤ c.toNat ∧ c.toNat ≤ 122)) ∨
    (48 ≤ c.toNat ∧ c.toNat ≤ 57)) ∨ c = '_') ∨ c = '-' at h
  rcases h with (((hupper | hlower) | hdigit) | rfl) | rfl
  · omega
  · omega
  · omega
  · decide
  · decide

theorem colon_not_mem_of_isSegmentChar {segment : List Char}
    (h : ∀ c ∈ segment, isSegmentChar c = true) : ':' ∉ segment := by
  intro hmem
  have hcolon := h ':' hmem
  revert hcolon
  decide

/-- The characters of a rule name. -/
theorem char_of_check {text : List Char} (h : check (String.ofList text) = .ok ()) {c : Char}
    (hmem : c ∈ text) : isSegmentChar c = true ∨ c = ':' := by
  have hsegments := (check_eq_ok_iff.1 h).2
  have hseparator : separator ≠ [] := by decide
  rcases Text.mem_mark_or_mem_pieces hseparator hmem with hmark | ⟨segment, hsegment, hmem⟩
  · right
    simpa [separator] using hmark
  · left
    exact (hsegments segment hsegment).2 c hmem

theorem not_isBlank_of_check {text : List Char} (h : check (String.ofList text) = .ok ())
    {c : Char} (hmem : c ∈ text) : Text.isBlank c = false := by
  rcases char_of_check h hmem with hsegment | rfl
  · have hbounds := bounds_of_isSegmentChar hsegment
    simp [Text.isBlank]
    omega
  · decide

/-- A rule name never holds the sign that separates it from a state. -/
theorem equals_not_mem_of_check {text : List Char} (h : check (String.ofList text) = .ok ()) :
    '=' ∉ text := by
  intro hmem
  rcases char_of_check h hmem with hsegment | hcolon
  · revert hsegment
    decide
  · revert hcolon
    decide

/-- The name is the scope, or goes on after it with a separator. -/
def Within (scope name : String) : Prop :=
  name = scope ∨ ∃ rest, name = scope ++ "::" ++ rest

theorem within_iff {scope name : String} :
    Within scope name ↔
      ∃ rest, scope.toList ++ rest = name.toList ∧ (rest = [] ∨ separator <+: rest) := by
  have hseparator : ("::" : String).toList = separator := rfl
  constructor
  · rintro (rfl | ⟨rest, rfl⟩)
    · exact ⟨[], List.append_nil _, .inl rfl⟩
    · refine ⟨separator ++ rest.toList, ?_, .inr (List.prefix_append _ _)⟩
      rw [String.toList_append, String.toList_append, hseparator, List.append_assoc]
  · rintro ⟨rest, hname, rfl | ⟨rest, rfl⟩⟩
    · rw [List.append_nil] at hname
      exact .inl (String.toList_inj.1 hname.symm)
    · refine .inr ⟨String.ofList rest, String.toList_inj.1 ?_⟩
      rw [String.toList_append, String.toList_append, hseparator, String.toList_ofList,
        List.append_assoc, hname]

/-- The test on raw text decides the relation, except that the empty text encloses
everything. -/
theorem encloses_iff {scope name : String} :
    encloses scope name = true ↔ scope = "" ∨ Within scope name := by
  rw [encloses, Bool.or_eq_true, String.isEmpty_iff, within_iff]
  refine or_congr_right ?_
  cases hrest : scope.toList.isPrefixOf? name.toList with
  | none =>
      simp only [Bool.false_eq_true, false_iff]
      rintro ⟨rest, hname, -⟩
      rw [List.isPrefixOf?_eq_some_iff_append_eq.2 hname] at hrest
      simp at hrest
  | some rest =>
      have hname := List.append_eq_of_isPrefixOf?_eq_some hrest
      simp only [Bool.or_eq_true, List.isEmpty_iff, List.isPrefixOf_iff_prefix]
      constructor
      · intro hends
        exact ⟨rest, hname, hends⟩
      · rintro ⟨other, hother, hends⟩
        rwa [← List.append_cancel_left (hother.trans hname.symm)]

/-- The scope is a namespace around the name.  The empty text is around every name. -/
def Around (scope name : String) : Prop := scope = "" ∨ Within scope name

theorem encloses_iff_around {scope name : String} :
    encloses scope name = true ↔ Around scope name :=
  encloses_iff

instance (scope name : String) : Decidable (Around scope name) :=
  decidable_of_iff _ encloses_iff_around

theorem Around.toList_prefix {scope name : String} (h : Around scope name) :
    scope.toList <+: name.toList := by
  rcases h with rfl | hwithin
  · exact List.nil_prefix
  · obtain ⟨rest, hname, -⟩ := within_iff.1 hwithin
    exact ⟨rest, hname⟩

theorem Around.utf8ByteSize_le {scope name : String} (h : Around scope name) :
    scope.utf8ByteSize ≤ name.utf8ByteSize := by
  obtain ⟨rest, rfl⟩ := Text.toList_prefix_iff.1 h.toList_prefix
  rw [String.utf8ByteSize_append]
  exact Nat.le_add_right _ _

theorem eq_of_prefix_of_utf8ByteSize_eq {left right : String}
    (h : left.toList <+: right.toList) (hsize : left.utf8ByteSize = right.utf8ByteSize) :
    left = right := by
  obtain ⟨rest, rfl⟩ := Text.toList_prefix_iff.1 h
  have hnone : rest = "" := by
    rw [String.utf8ByteSize_append] at hsize
    apply String.utf8ByteSize_eq_zero_iff.1
    omega
  rw [hnone, String.append_empty]

/-- Of the namespaces around a name no two are equally long. -/
theorem Around.eq_of_utf8ByteSize_eq {left right name : String} (hleft : Around left name)
    (hright : Around right name) (hsize : left.utf8ByteSize = right.utf8ByteSize) :
    left = right := by
  rcases List.prefix_or_prefix_of_prefix hleft.toList_prefix hright.toList_prefix with h | h
  · exact eq_of_prefix_of_utf8ByteSize_eq h hsize
  · exact (eq_of_prefix_of_utf8ByteSize_eq h hsize.symm).symm

end RuleName
end SchemaLint
