import SchemaLint.Proofs.CommentScope

namespace SchemaLint
namespace Directive

/-!
# Switching off a rule by its name

The simplest comment about a rule is one block with the name of the rule in it.  Names
and marks are made of the same characters, so it has to be asked for which names the
block is read as it is meant.  No name closes the block, holds the sign behind it or
needs trimming.  A name can hold the mark that stands before each further rule of a
block, and then the block is cut inside the name: the mark ends in a colon, so this
happens exactly where a segment that is not the last ends in the word of the mark.

Nothing is said about names that are written with blanks or with free text behind them.
-/

/-- The mark before each further rule of a block, without its colon. -/
def ruleWord : List Char := "api-linter".toList

/-- The comment that asks for one name to be switched off. -/
def commentFor (name : String) : String := "(-- api-linter: " ++ name ++ "=disabled --)"

/-- A segment of the name in front of another one ends like a mark. -/
def Collides (name : RuleName) : Prop :=
  ∃ segment ∈ name.segments.dropLast, ruleWord <:+ segment.toList

instance : DecidablePred Collides := fun _ => inferInstanceAs (Decidable (∃ _ ∈ _, _))

/-!
## Names that hold the mark
-/

theorem ruleMark_eq : ruleMark = ruleWord ++ [':'] := by decide

theorem colon_not_mem_ruleWord : ':' ∉ ruleWord := by decide

/-- Between two segments stand two colons, and the mark can only end at the first. -/
theorem ruleMark_infix_intercalate_iff {segments : List (List Char)}
    (hsegments : ∀ segment ∈ segments, ':' ∉ segment) :
    ruleMark <:+: RuleName.separator.intercalate segments ↔
      ∃ segment ∈ segments.dropLast, ruleWord <:+ segment := by
  rw [ruleMark_eq]
  induction segments with
  | nil => decide
  | cons segment rest ih =>
      have hsegment := hsegments segment List.mem_cons_self
      cases rest with
      | nil =>
          have hplain : ¬ ruleWord ++ [':'] <:+: segment := fun hmark =>
            hsegment (hmark.subset (List.mem_append_right _ (List.mem_singleton_self ':')))
          simp [List.intercalate_singleton, hplain]
      | cons next rest =>
          have hrest := ih fun later hlater => hsegments later (List.mem_cons_of_mem _ hlater)
          -- Nothing stands between the two colons, so the word cannot end at the second.
          have hsecond : ruleWord ++ [':'] <:+:
                [] ++ ':' :: RuleName.separator.intercalate (next :: rest) ↔ _ :=
            Text.concat_infix_append_cons_iff colon_not_mem_ruleWord List.not_mem_nil
          have hword : ¬ ruleWord <:+ [] := by decide
          have hjoin : RuleName.separator.intercalate (segment :: next :: rest) =
              segment ++ ':' :: ([] ++ ':' :: RuleName.separator.intercalate (next :: rest)) := by
            rw [List.intercalate_cons_cons]
            simp [RuleName.separator]
          rw [hjoin, Text.concat_infix_append_cons_iff colon_not_mem_ruleWord hsegment, hsecond,
            hrest, List.dropLast_cons_cons, List.exists_mem_cons_iff]
          simp only [hword, false_or]

/-- A name holds the mark exactly when one of its segments collides with it. -/
theorem ruleMark_infix_iff_collides {name : RuleName} :
    ruleMark <:+: name.text.toList ↔ Collides name := by
  have hsegments := (RuleName.check_eq_ok_iff.1 name.check_ofList_toList).2
  have hseparator : RuleName.separator ≠ [] := by decide
  have hmark := ruleMark_infix_intercalate_iff fun segment hsegment =>
    RuleName.colon_not_mem_of_isSegmentChar (hsegments segment hsegment).2
  rw [Text.intercalate_pieces hseparator] at hmark
  rw [hmark, Collides, RuleName.segments, ← List.map_dropLast]
  simp only [List.mem_map, exists_exists_and_eq_and, String.toList_ofList]

/-!
## Reading the block
-/

/-- The inside of the block for a name. -/
def bodyFor (name : List Char) : List Char := ' ' :: (name ++ '=' :: (stateWord ++ [' ']))

theorem commentFor_toList (name : String) :
    (commentFor name).toList = [] ++ (openMark ++ (bodyFor name.toList ++ (closeMark ++ []))) := by
  have hbefore : "(-- api-linter: ".toList = openMark ++ [' '] := by decide
  have hbehind : "=disabled --)".toList = '=' :: (stateWord ++ ([' '] ++ closeMark)) := by decide
  unfold commentFor
  rw [String.toList_append, String.toList_append, hbefore, hbehind]
  simp [bodyFor]

theorem ruleMark_infix_blank_cons_iff {text : List Char} :
    ruleMark <:+: ' ' :: text ↔ ruleMark <:+: text := by
  have hblank : ' ' ∉ ruleMark := by decide
  have hempty : ¬ ruleMark <:+: [] := by decide
  have hstart : ruleMark <:+: [] ++ ' ' :: text ↔ _ := Text.infix_append_cons_iff hblank
  rw [List.nil_append] at hstart
  rw [hstart, or_iff_right hempty]

section Name

variable {name : List Char} (hname : RuleName.check (String.ofList name) = .ok ())

include hname

/-- A name never closes the block it stands in. -/
theorem bodyFor_closed : ¬ closeMark <:+: bodyFor name := by
  intro hmark
  have hmem : ')' ∈ bodyFor name := hmark.subset (by decide)
  have hword : ')' ∉ '=' :: (stateWord ++ [' ']) := by decide
  rw [bodyFor, List.mem_cons, List.mem_append] at hmem
  rcases hmem with hblank | hinside | hbehind
  · revert hblank
    decide
  · rcases RuleName.char_of_check hname hinside with hsegment | hcolon
    · revert hsegment
      decide
    · revert hcolon
      decide
  · exact hword hbehind

/-- The block asks for the name and nothing else. -/
theorem asks_bodyFor : Asks name (bodyFor name) := by
  have hblank : ∀ c ∈ name ++ '=' :: stateWord, Text.isBlank c = false := by
    intro c hmem
    rcases List.mem_append.1 hmem with hinside | hbehind
    · exact RuleName.not_isBlank_of_check hname hinside
    · rcases List.mem_cons.1 hbehind with rfl | hword
      · decide
      · exact not_isBlank_of_mem_stateWord c hword
  have hbehind : Text.Blanks [' '] := by
    intro c hmem
    rw [List.mem_singleton.1 hmem]
    decide
  have htrim : Text.trim (bodyFor name) = name ++ '=' :: stateWord :=
    calc
      Text.trim (bodyFor name) = Text.trim ((name ++ '=' :: stateWord) ++ [' ']) := by
        rw [bodyFor, Text.trim, Text.trimLeft, List.dropWhile_cons_of_pos (by decide),
          Text.trim, Text.trimLeft, List.append_assoc, List.cons_append]
      _ = name ++ '=' :: stateWord :=
        Text.trim_append_blanks (by simp) (Text.trim_of_no_blank hblank) hbehind
  refine ⟨[], [], [], ?_, by simp [Text.Blanks], by simp [Text.Blanks], .inl rfl⟩
  rw [htrim, List.nil_append, List.nil_append, List.append_nil]

/-- A name without the mark stands in the block as one piece. -/
theorem readText_bodyFor_of_plain (hplain : ¬ ruleMark <:+: name) :
    readText ([] ++ (openMark ++ (bodyFor name ++ (closeMark ++ [])))) =
      .ok [⟨String.ofList name⟩] := by
  have hinside : ¬ ruleMark <:+: bodyFor name := by
    have hequals : '=' ∉ ruleMark := by decide
    have hword : ¬ ruleMark <:+: stateWord ++ [' '] := by decide
    rw [bodyFor, ruleMark_infix_blank_cons_iff, Text.infix_append_cons_iff hequals, not_or]
    exact ⟨hplain, hword⟩
  let body : Body :=
    { pieces := [bodyFor name]
      nonempty := List.cons_ne_nil _ _
      plain := by simpa using hinside
      closed := by simpa [List.intercalate_singleton] using bodyFor_closed hname }
  have hopen : ¬ openMark <:+: [] := by decide
  have hgives : List.Forall₂ Gives (Layout.block [] hopen body (.plain [] hopen)).pieces
      [⟨String.ofList name⟩] := .cons ⟨name, rfl, hname, asks_bodyFor hname⟩ .nil
  have hread := readText_layout hgives
  rwa [Layout.text, Layout.text, Body.text, List.intercalate_singleton] at hread

/-- A name with the mark is cut at it, and the piece in front of the mark asks for
nothing. -/
theorem readText_bodyFor_of_marked (hmarked : ruleMark <:+: name) :
    readText ([] ++ (openMark ++ (bodyFor name ++ (closeMark ++ [])))) =
      .error (.malformed (blockText (bodyFor name))) := by
  obtain ⟨before, after, hcut⟩ : ∃ before after,
      Text.cut? ruleMark name = some (before, after) := by
    cases hcut : Text.cut? ruleMark name with
    | none => exact absurd hmarked (Text.cut?_eq_none_iff.1 hcut)
    | some sides => exact ⟨sides.1, sides.2, rfl⟩
  obtain ⟨hsplit, hbefore⟩ := (Text.cut?_eq_some_iff borderless_ruleMark).1 hcut
  have hstart : ¬ ruleMark <:+: ' ' :: before := by
    rwa [ruleMark_infix_blank_cons_iff]
  have hbody : bodyFor name =
      (' ' :: before) ++ (ruleMark ++ (after ++ '=' :: (stateWord ++ [' ']))) := by
    rw [bodyFor, hsplit]
    simp
  have hpieces := Text.pieces_of_cut? borderless_ruleMark.1
    (Text.cut?_append borderless_ruleMark hstart (after ++ '=' :: (stateWord ++ [' '])))
  rw [← hbody] at hpieces
  -- The sign stands behind the name, so it is not in front of the mark.
  have hequals : '=' ∉ ' ' :: before := by
    intro hmem
    apply RuleName.equals_not_mem_of_check hname
    rw [hsplit]
    exact List.mem_append_left _ ((List.mem_cons.1 hmem).resolve_left (by decide))
  have hfault : PieceFault (blockText (bodyFor name)) (' ' :: before)
      (.malformed (blockText (bodyFor name))) := by
    refine .malformed ?_
    rintro scope ⟨-, -, -, left, right, tail, hpiece, -⟩
    refine hequals (Text.mem_of_mem_trim ?_)
    rw [hpiece]
    simp
  obtain ⟨body, hinside⟩ := Body.exists_of_closed (bodyFor_closed hname)
  have hopen : ¬ openMark <:+: [] := by decide
  rw [← hinside, readText_of_block hopen, ← body.pieces_text, hinside, hpieces]
  have hnone : ∀ piece ∈ ([] : List (List Char)), ∃ directive, Gives piece directive := by simp
  have hfirst := readPieces_of_fault hnone hfault
    (Text.pieces ruleMark (after ++ '=' :: (stateWord ++ [' '])))
  rw [List.nil_append] at hfirst
  rw [hfirst]

end Name

/-- The comment for a name is read as one directive with that name, which switches off the
name and what lies below it, unless the name collides with the mark: then the whole
comment is refused. -/
theorem readAll_commentFor (name : RuleName) :
    readAll (commentFor name.text) =
        (if Collides name then .error (.malformed (commentFor name.text))
          else .ok [⟨name.text⟩]) ∧
      ∀ rule, SwitchesOff (commentFor name.text) rule ↔
        ¬ Collides name ∧ RuleName.Within name.text rule := by
  have hvalid : RuleName.check (String.ofList name.text.toList) = .ok () := by
    rw [String.ofList_toList]
    exact name.valid
  have hblock : blockText (bodyFor name.text.toList) = commentFor name.text := by
    apply String.toList_inj.1
    rw [blockText, String.toList_ofList, commentFor_toList]
    simp
  have hread : readAll (commentFor name.text) =
      (if Collides name then .error (.malformed (commentFor name.text))
        else .ok [⟨name.text⟩]) := by
    rw [readAll, commentFor_toList]
    split
    · next hcollides =>
      rw [readText_bodyFor_of_marked hvalid (ruleMark_infix_iff_collides.2 hcollides), hblock]
    · next hplain =>
      rw [readText_bodyFor_of_plain hvalid (mt ruleMark_infix_iff_collides.1 hplain),
        String.ofList_toList]
  refine ⟨hread, fun rule => ?_⟩
  by_cases hcollides : Collides name
  · rw [if_pos hcollides] at hread
    simp only [hcollides, not_true, false_and, iff_false]
    rintro ⟨directives, directive, hok, -⟩
    simp [hread] at hok
  · rw [if_neg hcollides] at hread
    simp only [hcollides, not_false_iff, true_and]
    constructor
    · rintro ⟨directives, directive, hok, hmem, hwithin⟩
      obtain rfl := Except.ok.inj (hread.symm.trans hok)
      obtain rfl := List.mem_singleton.1 hmem
      exact hwithin
    · intro hwithin
      exact ⟨_, _, hread, List.mem_singleton_self _, hwithin⟩

/-- The comment for a rule name can be refused. -/
theorem commentFor_marked_name_refused :
    RuleName.check "api-linter::x" = .ok () ∧
      readAll (commentFor "api-linter::x") =
        .error (.malformed (commentFor "api-linter::x")) := by
  decide +kernel

/-- In the last segment the word does no harm, since no colon follows it. -/
example : readAll (commentFor "x::api-linter") = .ok [⟨"x::api-linter"⟩] := by decide +kernel

end Directive
end SchemaLint
