import Mathlib.Data.List.Forall2
import SchemaLint.Proofs.CommentScope
import SchemaLint.Proofs.DirectiveGrammar

namespace SchemaLint

/-!
# Header comments

The header of a file is made of several comments, one below the other.  In general joining
changes what is read: a block that one comment leaves open can be closed by the next.  Where
each comment can be read on its own this does not happen.  No mark has a line break in it, so
none begins in one comment and ends in the next, and reading the header gives the directives
of the comments one after the other.

Which comments these are is said by positions in the list of recorded locations.
-/

namespace Directive

theorem lineBreak_not_mem_openMark : '\n' ∉ openMark := by decide

/-- Text without a block in front of a line break changes nothing. -/
theorem readText_plain_lineBreak {text : List Char} (htext : ¬ openMark <:+: text)
    (rest : List Char) : readText (text ++ '\n' :: rest) = readText rest := by
  have hlonger : ∀ before, ¬ openMark <:+: before → ¬ openMark <:+: text ++ '\n' :: before := by
    intro before hbefore
    rw [Text.infix_append_cons_iff lineBreak_not_mem_openMark, not_or]
    exact ⟨htext, hbefore⟩
  have hmove : ∀ before after : List Char,
      text ++ '\n' :: (before ++ after) = (text ++ '\n' :: before) ++ after := by
    intro before after
    rw [List.append_assoc, List.cons_append]
  induction rest using commentInduction with
  | plain rest hrest => rw [readText_of_plain hrest, readText_of_plain (hlonger rest hrest)]
  | unclosed before rest hbefore hrest =>
      rw [hmove, readText_of_unclosed hbefore hrest,
        readText_of_unclosed (hlonger before hbefore) hrest]
  | block before body rest hbefore _ =>
      rw [hmove, readText_of_block hbefore, readText_of_block (hlonger before hbefore)]

/-- A comment that can be read ends with its last line: what follows on the next line is read
by itself. -/
theorem readText_lineBreak {comment : List Char} {directives : List Directive}
    (h : readText comment = .ok directives) (rest : List Char) :
    readText (comment ++ '\n' :: rest) = (readText rest).map (directives ++ ·) := by
  obtain ⟨layout, rfl, hlayout⟩ := exists_layout_of_readText h
  clear h
  induction layout generalizing directives with
  | plain text htext =>
      obtain rfl := List.forall₂_nil_left_iff.1 hlayout
      rw [Layout.text, readText_plain_lineBreak htext]
      cases readText rest <;> rfl
  | block before hbefore body after ih =>
      obtain ⟨first, more, hfirst, hmore, rfl⟩ := forall₂_gives_append hlayout
      -- The block is the same, and the text behind it ends at the line break.
      simp only [Layout.text, List.append_assoc]
      rw [readText_of_block hbefore, readPieces_eq_ok_iff.2 hfirst, ih hmore]
      cases readText rest <;> rfl

/-- Comments that can be read are read line by line when they are joined. -/
theorem readText_intercalate {comments : List (List Char)} {parts : List (List Directive)}
    (h : List.Forall₂ (fun comment directives => readText comment = .ok directives)
      comments parts) :
    readText (['\n'].intercalate comments) = .ok parts.flatten := by
  induction h with
  | nil => exact readText_of_plain (by decide)
  | @cons comment directives comments parts hread htail ih =>
      cases htail with
      | nil => simpa using hread
      | @cons next _ comments _ _ _ =>
          rw [List.intercalate_cons_cons, List.append_assoc, List.singleton_append,
            readText_lineBreak hread, ih]
          rfl

theorem readAll_intercalate {comments : List String} {parts : List (List Directive)}
    (h : List.Forall₂ (fun comment directives => readAll comment = .ok directives)
      comments parts) :
    readAll ("\n".intercalate comments) = .ok parts.flatten := by
  rw [readAll, String.toList_intercalate]
  exact readText_intercalate (List.forall₂_map_left_iff.2 h)

theorem exists_readings {comments : List String}
    (h : ∀ comment ∈ comments, ∃ directives, readAll comment = .ok directives) :
    ∃ parts, List.Forall₂ (fun comment directives => readAll comment = .ok directives)
      comments parts := by
  induction comments with
  | nil => exact ⟨[], .nil⟩
  | cons comment rest ih =>
      obtain ⟨⟨directives, hread⟩, hrest⟩ := List.forall_mem_cons.1 h
      obtain ⟨parts, hparts⟩ := ih hrest
      exact ⟨directives :: parts, .cons hread hparts⟩

/-- Joined comments switch off what one of them switches off. -/
theorem switchesOff_intercalate_iff {comments : List String} {parts : List (List Directive)}
    (h : List.Forall₂ (fun comment directives => readAll comment = .ok directives)
      comments parts) {rule : String} :
    SwitchesOff ("\n".intercalate comments) rule ↔
      ∃ comment ∈ comments, SwitchesOff comment rule := by
  rw [switchesOff_iff (readAll_intercalate h), List.any_flatten]
  induction h with
  | nil => simp
  | cons hread _ ih => simp [ih, switchesOff_iff hread]

end Directive

namespace Schema

/-- The comments in front of the statement at a path: the detached ones of the first location
that is recorded there, and then its leading one. -/
inductive FirstComments (locations : List SourceLocation) (path : Path) : List String → Prop where
  | recorded {before after : List SourceLocation} {location : SourceLocation}
      (hlocations : locations = before ++ location :: after)
      (hfirst : ∀ earlier ∈ before, earlier.path ≠ path) (hpath : location.path = path) :
      FirstComments locations path (location.detached ++ location.leading.toList)
  | absent (hnone : ∀ location ∈ locations, location.path ≠ path) :
      FirstComments locations path []

theorem File.firstComments_iff {file : File} {path : Path} {comments : List String} :
    FirstComments file.locations path comments ↔ comments = file.commentsBefore path := by
  constructor
  · intro h
    rw [commentsBefore]
    cases h with
    | recorded hlocations hfirst hpath =>
        rw [sourceLocation?_eq_some_iff.2 ⟨hpath, _, _, hlocations, hfirst⟩]
    | absent hnone =>
        have hnot : file.sourceLocation? path = none := by
          rw [sourceLocation?_eq_find?, List.find?_eq_none]
          exact fun location hmem => by simpa using hnone location hmem
        rw [hnot]
  · rintro rfl
    rw [commentsBefore]
    cases hfound : file.sourceLocation? path with
    | some location =>
        obtain ⟨hpath, before, after, hlocations, hfirst⟩ := sourceLocation?_eq_some_iff.1 hfound
        exact .recorded hlocations hfirst hpath
    | none =>
        rw [sourceLocation?_eq_find?, List.find?_eq_none] at hfound
        exact .absent fun location hmem => by simpa using hfound location hmem

end Schema

namespace Suppressions

/-- The header of a file joins the comments in front of its `syntax` statement, which stands at
the path `[12]`, and those in front of its `package` statement at `[2]`.  If each of them can be
read on its own, then the header can be read, and its directives are those of the comments in
order.  So a file is subject to exactly the directives of its single header comments. -/
theorem header_comment_by_comment (file : Schema.File) :
    ∃ first second,
      (∀ comments, Schema.FirstComments file.locations [12] comments ↔ comments = first) ∧
      (∀ comments, Schema.FirstComments file.locations [2] comments ↔ comments = second) ∧
      file.header = "\n".intercalate (first ++ second) ∧
      ((∀ comment ∈ first ++ second, ∃ directives, Directive.readAll comment = .ok directives) →
        (∃ parts,
          List.Forall₂ (fun comment directives => Directive.readAll comment = .ok directives)
            (first ++ second) parts ∧
          Directive.readAll file.header = .ok parts.flatten) ∧
        ∀ suppressions, ofFile file = .ok suppressions → ∀ rule,
          (suppressions.headerDisables rule = true ↔
            ∃ comment ∈ first ++ second, Directive.SwitchesOff comment rule)) := by
  refine ⟨file.commentsBefore [12], file.commentsBefore [2],
    fun _ => Schema.File.firstComments_iff, fun _ => Schema.File.firstComments_iff, rfl, ?_⟩
  intro hread
  obtain ⟨parts, hparts⟩ := Directive.exists_readings hread
  refine ⟨⟨parts, hparts, Directive.readAll_intercalate hparts⟩, ?_⟩
  intro suppressions hfile rule
  obtain ⟨hheader, -⟩ := ofFile_eq_ok_iff.1 hfile
  rw [headerDisables, ← Directive.switchesOff_iff hheader]
  exact Directive.switchesOff_intercalate_iff hparts

/-- A file with a directive in the comments right in front of both statements.  The first of
these comments ends in one part of an opening mark, and the comment behind it starts with the
other part.  A location recorded later at the same path does not count. -/
def splitMarkSample : Schema.File :=
  { name := "books.proto"
    sourceMap := .ofList
      [{ path := [2], detached := [" api-linter: core::0102=disabled --)\n"],
         leading := some "(-- api-linter: core::0104=disabled --)\n" },
        { path := [12], leading := some "(-- api-linter: core::0101=disabled --)\nBooks (--" },
        { path := [12], leading := some "(-- api-linter: core::0103=disabled --)" }] }

/-- In the sample the comments right in front of the statements have a directive each.  Both
hold, and no other does. -/
theorem header_comment_by_comment_splitMarkSample :
    Directive.readAll splitMarkSample.header = .ok [⟨"core::0101"⟩, ⟨"core::0104"⟩] ∧
      ∃ suppressions, ofFile splitMarkSample = .ok suppressions ∧
        suppressions.headerDisables "core::0101::a" = true ∧
        suppressions.headerDisables "core::0104::a" = true ∧
        suppressions.headerDisables "core::0102::a" = false ∧
        suppressions.headerDisables "core::0103::a" = false := by
  obtain ⟨first, second, hfirst, hsecond, -, hreadable⟩ :=
    header_comment_by_comment splitMarkSample
  obtain rfl : ["(-- api-linter: core::0101=disabled --)\nBooks (--"] = first :=
    (hfirst _).1 (Schema.File.firstComments_iff.2 (by decide +kernel))
  obtain rfl : [" api-linter: core::0102=disabled --)\n",
      "(-- api-linter: core::0104=disabled --)\n"] = second :=
    (hsecond _).1 (Schema.File.firstComments_iff.2 (by decide +kernel))
  have hmarked : Directive.readAll "(-- api-linter: core::0101=disabled --)\nBooks (--" =
      .ok [⟨"core::0101"⟩] := by decide +kernel
  have hplain : Directive.readAll " api-linter: core::0102=disabled --)\n" = .ok [] := by
    decide +kernel
  have hlast : Directive.readAll "(-- api-linter: core::0104=disabled --)\n" =
      .ok [⟨"core::0104"⟩] := by decide +kernel
  obtain ⟨⟨parts, hparts, hheader⟩, hdisables⟩ :=
    hreadable (by simp [hmarked, hplain, hlast])
  have hflat : parts.flatten = [⟨"core::0101"⟩, ⟨"core::0104"⟩] := by
    simp only [List.singleton_append, List.forall₂_cons_left_iff, List.forall₂_nil_left_iff,
      hmarked, hplain, hlast, Except.ok.injEq] at hparts
    obtain ⟨_, _, rfl, ⟨_, _, rfl, ⟨_, _, rfl, rfl, rfl⟩, rfl⟩, rfl⟩ := hparts
    rfl
  rw [hflat] at hheader
  have hfile : ofFile splitMarkSample = .ok ⟨[⟨"core::0101"⟩, ⟨"core::0104"⟩], []⟩ :=
    ofFile_eq_ok_iff.2 ⟨hheader, by decide +kernel⟩
  have hrule : ∀ rule, _ ↔ _ := hdisables _ hfile
  simp only [List.singleton_append, List.mem_cons, List.not_mem_nil, or_false, exists_eq_or_imp,
    exists_eq_left, Directive.switchesOff_iff hmarked, Directive.switchesOff_iff hplain,
    Directive.switchesOff_iff hlast] at hrule
  refine ⟨hheader, _, hfile, (hrule _).2 (by decide), (hrule _).2 (by decide), ?_, ?_⟩
  · rw [← Bool.not_eq_true, hrule]
    decide
  · rw [← Bool.not_eq_true, hrule]
    decide

end Suppressions

end SchemaLint
