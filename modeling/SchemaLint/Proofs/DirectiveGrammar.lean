import Mathlib.Data.List.Forall2
import SchemaLint.Directive
import SchemaLint.Proofs.RuleNames

namespace SchemaLint
namespace Directive

/-!
# The grammar of comments

A comment is plain text with blocks in it, and a block is a list of pieces.  This is
written down here as a grammar that knows nothing of searching, splitting or trimming
step by step, and reading a comment is shown to follow it: a comment is read exactly
when the grammar derives it, with the directives in textual order, and otherwise the
leftmost faulty block decides the error.

The marks have no borders, which is why a comment has one derivation at most.
-/

/-!
## Pieces
-/

/-- The piece, once trimmed, is the name, an equals sign and the word for the state.
Blanks may stand around the sign, and free text behind a blank at the end. -/
def Asks (name piece : List Char) : Prop :=
  ∃ left right tail,
    Text.trim piece = name ++ (left ++ '=' :: (right ++ (stateWord ++ tail))) ∧
      Text.Blanks left ∧ Text.Blanks right ∧ Text.EndsWord tail

/-- The piece asks for this directive, whose scope is a rule name. -/
def Gives (piece : List Char) (directive : Directive) : Prop :=
  ∃ name, directive = ⟨String.ofList name⟩ ∧ RuleName.check (String.ofList name) = .ok () ∧
    Asks name piece

/-- The piece has the shape of a directive, with this text in the place of the name. -/
def Shaped (name piece : List Char) : Prop :=
  name ≠ [] ∧ '=' ∉ name ∧ Text.trim name = name ∧ Asks name piece

/-- What is wrong with a piece of the block with this text: it has not the shape of a
directive, or what stands in the place of the name is none. -/
inductive PieceFault (block : String) (piece : List Char) : DirectiveError → Prop where
  | malformed (hshape : ∀ name, ¬ Shaped name piece) : PieceFault block piece (.malformed block)
  | invalidName {name : List Char} (hshape : Shaped name piece)
      (hname : RuleName.check (String.ofList name) ≠ .ok ()) :
      PieceFault block piece (.invalidName block)

theorem borderless_equals : Text.Borderless ['='] := by decide

theorem stateWord_ne_nil : stateWord ≠ [] := by decide

theorem not_isBlank_of_mem_stateWord : ∀ c ∈ stateWord, Text.isBlank c = false := by
  have hletters : (stateWord.all fun c => !Text.isBlank c) = true := by decide
  intro c hmem
  simpa using List.all_eq_true.1 hletters c hmem

theorem equals_not_mem_of_blanks {blanks : List Char} (h : Text.Blanks blanks) :
    '=' ∉ blanks := by
  intro hmem
  have hblank := h _ hmem
  revert hblank
  decide

/-- A name allows nothing but the shape itself to go wrong. -/
theorem shaped_of_check {name piece : List Char}
    (hname : RuleName.check (String.ofList name) = .ok ()) (hasks : Asks name piece) :
    Shaped name piece :=
  ⟨(RuleName.check_eq_ok_iff.1 hname).1, RuleName.equals_not_mem_of_check hname,
    Text.trim_of_no_blank fun _ hmem => RuleName.not_isBlank_of_check hname hmem, hasks⟩

theorem readPiece_of_shaped {name piece : List Char} (h : Shaped name piece) (block : String) :
    readPiece block piece =
      match RuleName.check (String.ofList name) with
      | .ok () => .ok ⟨String.ofList name⟩
      | .error _ => .error (.invalidName block) := by
  obtain ⟨hne, hequals, htrim, left, right, tail, hpiece, hleft, hright, htail⟩ := h
  -- Neither the name nor the blanks behind it hold the sign, so the cut is at this one.
  have hplain : ¬ ['='] <:+: name ++ left := by
    rw [List.singleton_infix_iff, List.mem_append, not_or]
    exact ⟨hequals, equals_not_mem_of_blanks hleft⟩
  have hcut : Text.cut? ['='] (Text.trim piece) =
      some (name ++ left, right ++ (stateWord ++ tail)) := by
    rw [hpiece, ← List.append_assoc]
    exact Text.cut?_append borderless_equals hplain _
  have hscope : Text.trim (name ++ left) = name := Text.trim_append_blanks hne htrim hleft
  have hword : Text.firstWord (right ++ (stateWord ++ tail)) = stateWord :=
    (Text.firstWord_eq_iff stateWord_ne_nil not_isBlank_of_mem_stateWord).2
      ⟨right, tail, rfl, hright, htail⟩
  simp only [readPiece, hcut, hscope, hword]
  refine (if_neg (by simp [hne])).trans ?_
  cases RuleName.check (String.ofList name) <;> rfl

/-- A piece without the shape of a directive is malformed. -/
theorem readPiece_of_not_shaped {piece : List Char} (h : ∀ name, ¬ Shaped name piece)
    (block : String) : readPiece block piece = .error (.malformed block) := by
  unfold readPiece
  cases hcut : Text.cut? ['='] (Text.trim piece) with
  | none => rfl
  | some sides =>
      obtain ⟨left, right⟩ := sides
      obtain ⟨hpiece, hplain⟩ := (Text.cut?_eq_some_iff borderless_equals).1 hcut
      rw [List.singleton_infix_iff] at hplain
      by_cases hfault : Text.firstWord right ≠ stateWord ∨ Text.trim left = []
      · simp [hfault]
      · obtain ⟨hword, hscope⟩ : Text.firstWord right = stateWord ∧ Text.trim left ≠ [] := by
          simpa using hfault
        -- Otherwise the part before the sign, once trimmed, would be a name for the shape.
        exfalso
        obtain ⟨blanks, tail, hright, hblanks, htail⟩ :=
          (Text.firstWord_eq_iff stateWord_ne_nil not_isBlank_of_mem_stateWord).1 hword
        have htrim : Text.trim left = Text.trimRight left :=
          Text.trim_of_prefix_trim ⟨_, hpiece.symm⟩
        obtain ⟨behind, hbehind, hleft⟩ := Text.exists_blanks_trimRight left
        rw [← htrim] at hleft
        refine h (Text.trim left) ⟨hscope, ?_, Text.trim_trim left, behind, blanks, tail, ?_,
          hbehind, hblanks, htail⟩
        · intro hmem
          apply hplain
          rw [hleft]
          exact List.mem_append_left _ hmem
        · calc
            Text.trim piece = left ++ '=' :: right := hpiece
            _ = (Text.trim left ++ behind) ++ '=' :: right := by rw [← hleft]
            _ = Text.trim left ++ (behind ++ '=' :: (blanks ++ (stateWord ++ tail))) := by
              rw [List.append_assoc, hright]

theorem readPiece_eq_ok_iff {block : String} {piece : List Char} {directive : Directive} :
    readPiece block piece = .ok directive ↔ Gives piece directive := by
  constructor
  · intro hread
    by_cases hshaped : ∃ name, Shaped name piece
    · obtain ⟨name, hname⟩ := hshaped
      rw [readPiece_of_shaped hname] at hread
      cases hcheck : RuleName.check (String.ofList name) with
      | error fault => simp [hcheck] at hread
      | ok _ =>
          rw [hcheck] at hread
          exact ⟨name, (Except.ok.inj hread).symm, hcheck, hname.2.2.2⟩
    · rw [readPiece_of_not_shaped (not_exists.1 hshaped)] at hread
      simp at hread
  · rintro ⟨name, rfl, hcheck, hasks⟩
    rw [readPiece_of_shaped (shaped_of_check hcheck hasks), hcheck]

theorem readPiece_eq_error_iff {block : String} {piece : List Char} {fault : DirectiveError} :
    readPiece block piece = .error fault ↔ PieceFault block piece fault := by
  constructor
  · intro hread
    by_cases hshaped : ∃ name, Shaped name piece
    · obtain ⟨name, hname⟩ := hshaped
      rw [readPiece_of_shaped hname] at hread
      cases hcheck : RuleName.check (String.ofList name) with
      | error nameFault =>
          rw [hcheck] at hread
          obtain rfl := Except.error.inj hread
          exact .invalidName hname (by simp [hcheck])
      | ok _ => simp [hcheck] at hread
    · rw [readPiece_of_not_shaped (not_exists.1 hshaped)] at hread
      obtain rfl := Except.error.inj hread
      exact .malformed (not_exists.1 hshaped)
  · intro hfault
    cases hfault with
    | malformed hshape => exact readPiece_of_not_shaped hshape block
    | invalidName hshape hname =>
        rw [readPiece_of_shaped hshape]
        cases hcheck : RuleName.check (String.ofList _) with
        | error nameFault => rfl
        | ok _ => exact absurd hcheck hname

theorem readPieces_eq_ok_iff {block : String} {pieces : List (List Char)}
    {directives : List Directive} :
    readPieces block pieces = .ok directives ↔ List.Forall₂ Gives pieces directives := by
  induction pieces generalizing directives with
  | nil => simp [readPieces, eq_comm]
  | cons piece rest ih =>
      rw [List.forall₂_cons_left_iff, readPieces]
      cases hpiece : readPiece block piece with
      | error fault =>
          simp only [reduceCtorEq, false_iff]
          rintro ⟨directive, more, hgives, -, -⟩
          rw [readPiece_eq_ok_iff.2 hgives] at hpiece
          simp at hpiece
      | ok directive =>
          cases hrest : readPieces block rest with
          | error fault =>
              simp only [reduceCtorEq, false_iff]
              rintro ⟨directive, more, -, hmore, -⟩
              rw [ih.2 hmore] at hrest
              simp at hrest
          | ok more =>
              constructor
              · intro hread
                exact ⟨directive, more, readPiece_eq_ok_iff.1 hpiece, ih.1 hrest,
                  (Except.ok.inj hread).symm⟩
              · rintro ⟨directive', more', hgives, hmore, rfl⟩
                rw [readPiece_eq_ok_iff.2 hgives] at hpiece
                rw [ih.2 hmore] at hrest
                rw [Except.ok.inj hpiece, Except.ok.inj hrest]

/-- A faulty piece decides if none before it is faulty. -/
theorem readPieces_of_fault {block : String} {good : List (List Char)} {bad : List Char}
    {fault : DirectiveError} (hgood : ∀ piece ∈ good, ∃ directive, Gives piece directive)
    (hbad : PieceFault block bad fault) (rest : List (List Char)) :
    readPieces block (good ++ bad :: rest) = .error fault := by
  induction good with
  | nil => rw [List.nil_append, readPieces, readPiece_eq_error_iff.2 hbad]
  | cons piece good ih =>
      obtain ⟨⟨directive, hgives⟩, hgood⟩ := List.forall_mem_cons.1 hgood
      rw [List.cons_append, readPieces, readPiece_eq_ok_iff.2 hgives, ih hgood]

theorem exists_fault_of_readPieces {block : String} {pieces : List (List Char)}
    {fault : DirectiveError} (h : readPieces block pieces = .error fault) :
    ∃ good bad rest, pieces = good ++ bad :: rest ∧
      (∀ piece ∈ good, ∃ directive, Gives piece directive) ∧ PieceFault block bad fault := by
  induction pieces with
  | nil => simp [readPieces] at h
  | cons piece rest ih =>
      rw [readPieces] at h
      cases hpiece : readPiece block piece with
      | error found =>
          rw [hpiece] at h
          obtain rfl := Except.error.inj h
          exact ⟨[], piece, rest, rfl, by simp, readPiece_eq_error_iff.1 hpiece⟩
      | ok directive =>
          rw [hpiece] at h
          cases hrest : readPieces block rest with
          | error found =>
              rw [hrest] at h
              obtain rfl := Except.error.inj h
              obtain ⟨good, bad, others, rfl, hgood, hbad⟩ := ih hrest
              refine ⟨piece :: good, bad, others, rfl, ?_, hbad⟩
              exact List.forall_mem_cons.2 ⟨⟨directive, readPiece_eq_ok_iff.1 hpiece⟩, hgood⟩
          | ok more => simp [hrest] at h

/-!
## Comments
-/

/-- The inside of a block: pieces joined by the mark that stands before each further
rule. -/
structure Body where
  pieces : List (List Char)
  nonempty : pieces ≠ []
  plain : ∀ piece ∈ pieces, ¬ ruleMark <:+: piece
  closed : ¬ closeMark <:+: ruleMark.intercalate pieces

namespace Body

/-- The text of the inside of a block. -/
def text (body : Body) : List Char := ruleMark.intercalate body.pieces

end Body

/-- A comment: plain text, or plain text, a block and a comment after it. -/
inductive Layout where
  | plain (text : List Char) (htext : ¬ openMark <:+: text)
  | block (before : List Char) (hbefore : ¬ openMark <:+: before) (body : Body) (rest : Layout)

namespace Layout

/-- The text of a comment. -/
def text : Layout → List Char
  | plain text _ => text
  | block before _ body rest => before ++ (openMark ++ (body.text ++ (closeMark ++ rest.text)))

/-- The pieces of all blocks of a comment in textual order. -/
def pieces : Layout → List (List Char)
  | plain _ _ => []
  | block _ _ body rest => body.pieces ++ rest.pieces

end Layout

theorem borderless_openMark : Text.Borderless openMark := by decide

theorem borderless_closeMark : Text.Borderless closeMark := by decide

theorem borderless_ruleMark : Text.Borderless ruleMark := by decide

namespace Body

theorem text_closed (body : Body) : ¬ closeMark <:+: body.text := body.closed

theorem pieces_text (body : Body) : Text.pieces ruleMark body.text = body.pieces :=
  Text.pieces_intercalate borderless_ruleMark body.nonempty body.plain

theorem text_injective {left right : Body} (h : left.text = right.text) : left = right := by
  have hpieces : left.pieces = right.pieces := by
    rw [← left.pieces_text, h, right.pieces_text]
  cases left
  cases right
  simpa using hpieces

/-- Every text that does not close a block is the inside of one. -/
theorem exists_of_closed {text : List Char} (h : ¬ closeMark <:+: text) :
    ∃ body : Body, body.text = text := by
  have hmark : ruleMark ≠ [] := borderless_ruleMark.1
  have hjoin := Text.intercalate_pieces hmark text
  exact ⟨⟨Text.pieces ruleMark text, Text.pieces_ne_nil ruleMark text,
    fun _ hmem => Text.not_infix_of_mem_pieces hmark hmem, by rwa [hjoin]⟩, hjoin⟩

end Body

/-- A comment has one layout only. -/
theorem Layout.text_injective {left right : Layout} (h : left.text = right.text) :
    left = right := by
  have hinfix : ∀ before after : List Char, openMark <:+: before ++ (openMark ++ after) :=
    fun before after => ⟨before, after, by rw [List.append_assoc]⟩
  induction left generalizing right with
  | plain text htext =>
      cases right with
      | plain text' htext' => simpa [Layout.text] using h
      | block before hbefore body rest =>
          simp only [Layout.text] at h
          exact absurd (h ▸ hinfix _ _) htext
  | block before hbefore body rest ih =>
      cases right with
      | plain text htext =>
          simp only [Layout.text] at h
          exact absurd (h ▸ hinfix _ _) htext
      | block before' hbefore' body' rest' =>
          -- Both sides open and close their first block in the same places.
          simp only [Layout.text] at h
          obtain ⟨rfl, hafter⟩ := Text.cut_unique borderless_openMark hbefore hbefore' h
          obtain ⟨hbody, hrest⟩ :=
            Text.cut_unique borderless_closeMark body.text_closed body'.text_closed hafter
          obtain rfl := Body.text_injective hbody
          obtain rfl := ih hrest
          rfl

/-!
## Reading comments
-/

theorem readText_of_plain {comment : List Char} (h : ¬ openMark <:+: comment) :
    readText comment = .ok [] := by
  rw [readText]
  split
  · rfl
  · next hcut => simp [Text.cut?_eq_none_iff.2 h] at hcut

theorem readText_of_unclosed {before rest : List Char} (hbefore : ¬ openMark <:+: before)
    (hrest : ¬ closeMark <:+: rest) :
    readText (before ++ (openMark ++ rest)) =
      .error (.unterminated (String.ofList (Text.trimRight (openMark ++ rest)))) := by
  have hopen := Text.cut?_append borderless_openMark hbefore rest
  have hclose := Text.cut?_eq_none_iff.2 hrest
  rw [readText]
  split
  · next hcut => simp [hopen] at hcut
  · next hcut =>
    obtain ⟨rfl, rfl⟩ := Prod.mk.inj (Option.some.inj (hopen.symm.trans hcut))
    split
    · rfl
    · next hcut => simp [hclose] at hcut

/-- A block is read piece by piece, and then the text after it. -/
theorem readText_of_block {before : List Char} (hbefore : ¬ openMark <:+: before) (body : Body)
    (rest : List Char) :
    readText (before ++ (openMark ++ (body.text ++ (closeMark ++ rest)))) =
      match readPieces (blockText body.text) body.pieces with
      | .error fault => .error fault
      | .ok directives =>
        match readText rest with
        | .error fault => .error fault
        | .ok more => .ok (directives ++ more) := by
  have hopen := Text.cut?_append borderless_openMark hbefore (body.text ++ (closeMark ++ rest))
  have hclose := Text.cut?_append borderless_closeMark body.text_closed rest
  rw [← body.pieces_text, readText]
  split
  · next hcut => simp [hopen] at hcut
  · next hcut =>
    obtain ⟨rfl, rfl⟩ := Prod.mk.inj (Option.some.inj (hopen.symm.trans hcut))
    split
    · next hcut => simp [hclose] at hcut
    · next hcut =>
      obtain ⟨rfl, rfl⟩ := Prod.mk.inj (Option.some.inj (hclose.symm.trans hcut))
      rfl

/-- Comments are taken apart block by block, up to plain text or a block that is not
closed. -/
@[elab_as_elim]
theorem commentInduction {motive : List Char → Prop}
    (plain : ∀ text, ¬ openMark <:+: text → motive text)
    (unclosed : ∀ before rest, ¬ openMark <:+: before → ¬ closeMark <:+: rest →
      motive (before ++ (openMark ++ rest)))
    (block : ∀ before (body : Body) rest, ¬ openMark <:+: before → motive rest →
      motive (before ++ (openMark ++ (body.text ++ (closeMark ++ rest)))))
    (comment : List Char) : motive comment := by
  cases hopen : Text.cut? openMark comment with
  | none => exact plain comment (Text.cut?_eq_none_iff.1 hopen)
  | some sides =>
      obtain ⟨before, afterOpen⟩ := sides
      obtain ⟨hcomment, hbefore⟩ := (Text.cut?_eq_some_iff borderless_openMark).1 hopen
      cases hclose : Text.cut? closeMark afterOpen with
      | none => exact hcomment ▸ unclosed before afterOpen hbefore (Text.cut?_eq_none_iff.1 hclose)
      | some sides =>
          obtain ⟨inside, rest⟩ := sides
          obtain ⟨hafter, hinside⟩ := (Text.cut?_eq_some_iff borderless_closeMark).1 hclose
          obtain ⟨body, rfl⟩ := Body.exists_of_closed hinside
          have hshorter : rest.length < comment.length := by
            have hfirst := Text.length_after_of_cut? hopen
            have hsecond := Text.length_after_of_cut? hclose
            have hmark : closeMark.length = 3 := by decide
            omega
          have hrest : motive rest := commentInduction plain unclosed block rest
          rw [hcomment, hafter]
          exact block before body rest hbefore hrest
termination_by comment.length
decreasing_by assumption

/-- Directives of pieces in a row are the directives of one part and then of the other. -/
theorem forall₂_gives_append {left right : List (List Char)} {directives : List Directive}
    (h : List.Forall₂ Gives (left ++ right) directives) :
    ∃ first more, List.Forall₂ Gives left first ∧ List.Forall₂ Gives right more ∧
      directives = first ++ more :=
  ⟨directives.take left.length, directives.drop left.length,
    (List.forall₂_take_append directives left right h.flip).flip,
    (List.forall₂_drop_append directives left right h.flip).flip,
    (List.take_append_drop _ _).symm⟩

/-- Reading goes through all blocks of a layout whose pieces give directives, and then
takes on whatever opens after them. -/
theorem readText_layout_append {layout : Layout} {directives : List Directive}
    (h : List.Forall₂ Gives layout.pieces directives) {rest : List Char} {fault : DirectiveError}
    (hrest : ∀ before, ¬ openMark <:+: before →
      readText (before ++ (openMark ++ rest)) = .error fault) :
    readText (layout.text ++ (openMark ++ rest)) = .error fault := by
  induction layout generalizing directives with
  | plain text htext => exact hrest text htext
  | block before hbefore body after ih =>
      obtain ⟨first, more, hfirst, hmore, rfl⟩ := forall₂_gives_append h
      simp only [Layout.text, List.append_assoc]
      rw [readText_of_block hbefore, readPieces_eq_ok_iff.2 hfirst, ih hmore]

theorem readText_layout {layout : Layout} {directives : List Directive}
    (h : List.Forall₂ Gives layout.pieces directives) :
    readText layout.text = .ok directives := by
  induction layout generalizing directives with
  | plain text htext =>
      obtain rfl := List.forall₂_nil_left_iff.1 h
      exact readText_of_plain htext
  | block before hbefore body rest ih =>
      obtain ⟨first, more, hfirst, hmore, rfl⟩ := forall₂_gives_append h
      rw [Layout.text, readText_of_block hbefore, readPieces_eq_ok_iff.2 hfirst, ih hmore]

/-- What is read has a layout. -/
theorem exists_layout_of_readText {comment : List Char} {directives : List Directive}
    (h : readText comment = .ok directives) :
    ∃ layout : Layout, layout.text = comment ∧ List.Forall₂ Gives layout.pieces directives := by
  induction comment using commentInduction generalizing directives with
  | plain text htext =>
      rw [readText_of_plain htext] at h
      obtain rfl := Except.ok.inj h
      exact ⟨.plain text htext, rfl, .nil⟩
  | unclosed before rest hbefore hrest =>
      rw [readText_of_unclosed hbefore hrest] at h
      simp at h
  | block before body rest hbefore ih =>
      rw [readText_of_block hbefore] at h
      cases hpieces : readPieces (blockText body.text) body.pieces with
      | error fault => simp [hpieces] at h
      | ok first =>
          cases hmore : readText rest with
          | error fault => simp [hpieces, hmore] at h
          | ok more =>
              simp only [hpieces, hmore, Except.ok.injEq] at h
              obtain ⟨layout, rfl, hlayout⟩ := ih hmore
              refine ⟨.block before hbefore body layout, rfl, ?_⟩
              rw [← h]
              exact List.rel_append (readPieces_eq_ok_iff.1 hpieces) hlayout

/-- The fault that reading reports: blocks without fault come first, then a block that
is not closed, or a block with a faulty piece. -/
inductive FirstFault : List Char → DirectiveError → Prop where
  | unterminated {layout : Layout} {directives : List Directive} {rest : List Char}
      (hlayout : List.Forall₂ Gives layout.pieces directives) (hrest : ¬ closeMark <:+: rest) :
      FirstFault (layout.text ++ (openMark ++ rest))
        (.unterminated (String.ofList (Text.trimRight (openMark ++ rest))))
  | piece {layout : Layout} {directives : List Directive} {body : Body}
      {good others : List (List Char)} {bad rest : List Char} {fault : DirectiveError}
      (hlayout : List.Forall₂ Gives layout.pieces directives)
      (hpieces : body.pieces = good ++ bad :: others)
      (hgood : ∀ piece ∈ good, ∃ directive, Gives piece directive)
      (hbad : PieceFault (String.ofList (openMark ++ body.text ++ closeMark)) bad fault) :
      FirstFault (layout.text ++ (openMark ++ (body.text ++ (closeMark ++ rest)))) fault

/-- A block without fault in front of a comment changes nothing about its first fault. -/
theorem FirstFault.after_block {before : List Char} (hbefore : ¬ openMark <:+: before)
    {body : Body} {first : List Directive} (hfirst : List.Forall₂ Gives body.pieces first)
    {rest : List Char} {fault : DirectiveError} (h : FirstFault rest fault) :
    FirstFault (before ++ (openMark ++ (body.text ++ (closeMark ++ rest)))) fault := by
  cases h with
  | @unterminated layout directives rest hlayout hrest =>
      have hall : List.Forall₂ Gives (Layout.block before hbefore body layout).pieces
          (first ++ directives) := List.rel_append hfirst hlayout
      have hfault := FirstFault.unterminated hall hrest
      simp only [Layout.text, List.append_assoc] at hfault
      exact hfault
  | @piece layout directives faulty good others bad rest _ hlayout hpieces hgood hbad =>
      have hall : List.Forall₂ Gives (Layout.block before hbefore body layout).pieces
          (first ++ directives) := List.rel_append hfirst hlayout
      have hfault : FirstFault (_ ++ (openMark ++ (faulty.text ++ (closeMark ++ rest)))) fault :=
        .piece hall hpieces hgood hbad
      simp only [Layout.text, List.append_assoc] at hfault
      exact hfault

theorem firstFault_of_readText {comment : List Char} {fault : DirectiveError}
    (h : readText comment = .error fault) : FirstFault comment fault := by
  induction comment using commentInduction with
  | plain text htext => simp [readText_of_plain htext] at h
  | unclosed before rest hbefore hrest =>
      rw [readText_of_unclosed hbefore hrest] at h
      obtain rfl := Except.error.inj h
      have hnone : List.Forall₂ Gives (Layout.plain before hbefore).pieces [] := .nil
      exact .unterminated hnone hrest
  | block before body rest hbefore ih =>
      -- A fault in this block has plain text before it; a later one has this block as well.
      rw [readText_of_block hbefore] at h
      cases hpieces : readPieces (blockText body.text) body.pieces with
      | error found =>
          rw [hpieces] at h
          obtain rfl := Except.error.inj h
          obtain ⟨good, bad, others, hsplit, hgood, hbad⟩ := exists_fault_of_readPieces hpieces
          have hnone : List.Forall₂ Gives (Layout.plain before hbefore).pieces [] := .nil
          exact .piece hnone hsplit hgood hbad
      | ok first =>
          cases hrest : readText rest with
          | error found =>
              simp only [hpieces, hrest, Except.error.injEq] at h
              obtain rfl := h
              exact (ih hrest).after_block hbefore (readPieces_eq_ok_iff.1 hpieces)
          | ok more => simp [hpieces, hrest] at h

theorem readText_of_firstFault {comment : List Char} {fault : DirectiveError}
    (h : FirstFault comment fault) : readText comment = .error fault := by
  cases h with
  | unterminated hlayout hrest =>
      exact readText_layout_append hlayout fun before hbefore =>
        readText_of_unclosed hbefore hrest
  | piece hlayout hpieces hgood hbad =>
      refine readText_layout_append hlayout fun before hbefore => ?_
      rw [readText_of_block hbefore, hpieces, blockText, readPieces_of_fault hgood hbad]

theorem check_scope_of_gives {pieces : List (List Char)} {directives : List Directive}
    (h : List.Forall₂ Gives pieces directives) {directive : Directive}
    (hmem : directive ∈ directives) : RuleName.check directive.scope = .ok () := by
  induction h with
  | nil => simp at hmem
  | cons hgives _ ih =>
      rcases List.mem_cons.1 hmem with rfl | hmem
      · obtain ⟨name, rfl, hname, -⟩ := hgives
        exact hname
      · exact ih hmem

theorem check_scope_of_readAll {comment : String} {directives : List Directive}
    (hread : readAll comment = .ok directives) {directive : Directive}
    (hmem : directive ∈ directives) : RuleName.check directive.scope = .ok () := by
  obtain ⟨layout, -, hlayout⟩ := exists_layout_of_readText hread
  exact check_scope_of_gives hlayout hmem

/-- No comment switches everything off. -/
theorem scope_ne_empty_of_readAll {comment : String} {directives : List Directive}
    (hread : readAll comment = .ok directives) {directive : Directive}
    (hmem : directive ∈ directives) : directive.scope ≠ "" := by
  intro hempty
  have hname := check_scope_of_readAll hread hmem
  rw [hempty] at hname
  revert hname
  decide

/-- Reading a comment follows the grammar.  It succeeds exactly on the comments with a
layout whose pieces all give a directive, and returns these directives in order; a
comment has one layout at most.  It fails exactly with the first fault.  Every scope
that is read is a rule name, and so is not empty. -/
theorem readAll_iff_grammar (comment : String) :
    (∀ directives, readAll comment = .ok directives ↔
      ∃ layout : Layout, layout.text = comment.toList ∧
        List.Forall₂ Gives layout.pieces directives) ∧
    (∀ left right : Layout, left.text = comment.toList → right.text = comment.toList →
      left = right) ∧
    (∀ fault, readAll comment = .error fault ↔ FirstFault comment.toList fault) ∧
    ∀ directives, readAll comment = .ok directives → ∀ directive ∈ directives,
      RuleName.check directive.scope = .ok () ∧ directive.scope ≠ "" := by
  refine ⟨fun directives => ⟨exists_layout_of_readText, ?_⟩, ?_,
    fun fault => ⟨firstFault_of_readText, readText_of_firstFault⟩, ?_⟩
  · rintro ⟨layout, htext, hlayout⟩
    rw [readAll, ← htext]
    exact readText_layout hlayout
  · intro left right hleft hright
    exact Layout.text_injective (hleft.trans hright.symm)
  · intro directives hread directive hmem
    exact ⟨check_scope_of_readAll hread hmem, scope_ne_empty_of_readAll hread hmem⟩

end Directive
end SchemaLint
