import SchemaLint.Proofs.DirectiveGrammar
import SchemaLint.Proofs.Visiting
import SchemaLint.Suppression

namespace SchemaLint

/-!
# The scope of directives

The directives of a file are kept in a list that is searched by path.  Here the
search is compared with the comments themselves: a visited element is subject to the
header of its file and to its own leading comment, and to no other comment.

For visited elements nothing is asked of the sizes of lists.  Where two elements share a
path they share their comment as well, so it does not matter which of them the search
meets first.  That an element which is not visited is subject to no comment does need
short lists: it could otherwise share its path with one that is visited.
-/

namespace Schema

/-- The leading comment is what is recorded at the path, and the root has none. -/
theorem File.Reaches.leadingComment_eq {file : File} {element : Element}
    (h : file.Reaches element) :
    element.leadingComment =
      if element.path = [] then ""
      else ((file.sourceLocation? element.path).bind (·.leading)).getD "" := by
  rcases h.eq_root_or_owner with rfl | ⟨owner, -, hholds⟩
  · rfl
  · obtain ⟨tag, entry, hpath⟩ := Element.path_of_holds hholds
    have hbelow : element.path ≠ [] := by simp [hpath]
    have hkind : element.kind ≠ .file := by
      intro hkind
      simp [h.eq_root_of_kind hkind, File.root] at hbelow
    rw [if_neg hbelow, Element.leadingComment, Element.sourceLocation?, h.file_eq]
    cases hnode : element.node with
    | file => exact absurd (congrArg Node.kind hnode) hkind
    | _ => rfl

/-- What is found at a path is the first location recorded there. -/
theorem File.sourceLocation?_eq_some_iff {file : File} {path : Path}
    {location : SourceLocation} :
    file.sourceLocation? path = some location ↔
      location.path = path ∧ ∃ before after, file.locations = before ++ location :: after ∧
        ∀ earlier ∈ before, earlier.path ≠ path := by
  rw [sourceLocation?_eq_find?, List.find?_eq_some_iff_append]
  simp

/-- The comment stands above the element: it is the leading comment of the first location
recorded at the element's path.  Nothing stands above the file itself. -/
def File.CommentAbove (file : File) (element : Element) (comment : String) : Prop :=
  element.path ≠ [] ∧ ∃ location before after,
    file.locations = before ++ location :: after ∧
      (∀ earlier ∈ before, earlier.path ≠ element.path) ∧
      location.path = element.path ∧ location.leading = some comment

theorem File.commentAbove_iff {file : File} {element : Element} {comment : String} :
    file.CommentAbove element comment ↔
      element.path ≠ [] ∧
        (file.sourceLocation? element.path).bind (·.leading) = some comment := by
  simp only [CommentAbove, Option.bind_eq_some_iff, sourceLocation?_eq_some_iff]
  refine and_congr_right fun _ => exists_congr fun location => ?_
  constructor
  · rintro ⟨before, after, hlocations, hbefore, hpath, hleading⟩
    exact ⟨⟨hpath, before, after, hlocations, hbefore⟩, hleading⟩
  · rintro ⟨⟨hpath, before, after, hlocations, hbefore⟩, hleading⟩
    exact ⟨before, after, hlocations, hbefore, hpath, hleading⟩

theorem File.leadingComment_eq_of_path_eq {file : File} {left right : Element}
    (hleft : left ∈ file.visit) (hright : right ∈ file.visit) (hpath : left.path = right.path) :
    left.leadingComment = right.leadingComment := by
  rw [(File.reaches_of_mem_visit hleft).leadingComment_eq,
    (File.reaches_of_mem_visit hright).leadingComment_eq, hpath]

end Schema

namespace Directive

/-- A directive in the comment names the rule or a namespace around it. -/
def SwitchesOff (comment rule : String) : Prop :=
  ∃ directives directive, readAll comment = .ok directives ∧ directive ∈ directives ∧
    RuleName.Within directive.scope rule

theorem switchesOff_iff {comment rule : String} {directives : List Directive}
    (hread : readAll comment = .ok directives) :
    SwitchesOff comment rule ↔ directives.any (·.disables rule) = true := by
  rw [List.any_eq_true]
  constructor
  · rintro ⟨others, directive, hothers, hmem, hwithin⟩
    obtain rfl := Except.ok.inj (hread.symm.trans hothers)
    exact ⟨directive, hmem, RuleName.encloses_iff.2 (.inr hwithin)⟩
  · rintro ⟨directive, hmem, hdisables⟩
    have hscope := scope_ne_empty_of_readAll hread hmem
    exact ⟨directives, directive, hread, hmem,
      (RuleName.encloses_iff.1 hdisables).resolve_left hscope⟩

instance (comment rule : String) : Decidable (SwitchesOff comment rule) :=
  match hread : readAll comment with
  | .ok _ => decidable_of_iff _ (switchesOff_iff hread).symm
  | .error _ => isFalse (by rintro ⟨_, _, hok, -⟩; simp [hread] at hok)

theorem not_switchesOff_empty (rule : String) : ¬ SwitchesOff "" rule := by
  have hread : readAll "" = .ok [] := by decide +kernel
  simp [switchesOff_iff hread]

/-- The comment of an element that no comment stands above switches nothing off. -/
theorem switchesOff_leadingComment_iff {file : Schema.File} {element : Schema.Element}
    (hreach : file.Reaches element) {rule : String} :
    SwitchesOff element.leadingComment rule ↔
      ∃ comment, file.CommentAbove element comment ∧ SwitchesOff comment rule := by
  simp only [Schema.File.commentAbove_iff]
  rw [hreach.leadingComment_eq]
  by_cases hroot : element.path = []
  · simp [hroot, not_switchesOff_empty]
  · cases (file.sourceLocation? element.path).bind (·.leading) with
    | none => simp [hroot, not_switchesOff_empty]
    | some comment => simp [hroot]

end Directive

namespace Suppressions

theorem exists_ofElements {elements : List Schema.Element}
    (hread : ∀ element ∈ elements, ∃ directives,
      Directive.readAll element.leadingComment = .ok directives) :
    ∃ entries, ofElements elements = .ok entries := by
  induction elements with
  | nil => exact ⟨[], rfl⟩
  | cons element rest ih =>
      obtain ⟨directives, hdirectives⟩ := hread element List.mem_cons_self
      obtain ⟨more, hmore⟩ := ih fun later hlater => hread later (List.mem_cons_of_mem _ hlater)
      simp [ofElements, hdirectives, hmore]

theorem ofElements_cons_eq_ok {element : Schema.Element} {rest : List Schema.Element}
    {entries : List (Schema.Path × List Directive)}
    (h : ofElements (element :: rest) = .ok entries) :
    ∃ directives more, Directive.readAll element.leadingComment = .ok directives ∧
      ofElements rest = .ok more ∧
      entries = if directives.isEmpty then more else (element.path, directives) :: more := by
  rw [ofElements] at h
  cases hdirectives : Directive.readAll element.leadingComment with
  | error fault => simp [hdirectives] at h
  | ok directives =>
      cases hmore : ofElements rest with
      | error fault => simp [hdirectives, hmore] at h
      | ok more =>
          simp only [hdirectives, hmore, Except.ok.injEq] at h
          exact ⟨directives, more, rfl, rfl, h.symm⟩

/-- The search finds the directives of the elements at the path, if elements at one path
have one comment. -/
theorem lookup_disables_iff {elements : List Schema.Element}
    {entries : List (Schema.Path × List Directive)} (h : ofElements elements = .ok entries)
    (hsame : ∀ left ∈ elements, ∀ right ∈ elements, left.path = right.path →
      left.leadingComment = right.leadingComment) {path : Schema.Path} {rule : String} :
    ((entries.lookup path).getD []).any (·.disables rule) = true ↔
      ∃ element ∈ elements, element.path = path ∧
        Directive.SwitchesOff element.leadingComment rule := by
  induction elements generalizing entries with
  | nil =>
      obtain rfl := Except.ok.inj h
      simp
  | cons element rest ih =>
      obtain ⟨directives, more, hread, hmore, rfl⟩ := ofElements_cons_eq_ok h
      have hhead : Directive.SwitchesOff element.leadingComment rule ↔ _ :=
        Directive.switchesOff_iff hread
      have htail := ih hmore fun left hleft right hright =>
        hsame left (List.mem_cons_of_mem _ hleft) right (List.mem_cons_of_mem _ hright)
      simp only [List.mem_cons, exists_eq_or_imp]
      by_cases hempty : directives = []
      · -- An element without directives has no entry, and switches nothing off.
        subst hempty
        simp only [List.any_nil, Bool.false_eq_true, iff_false] at hhead
        simp only [List.isEmpty_nil, if_true, hhead, and_false, false_or]
        exact htail
      · rw [if_neg (by simpa using hempty)]
        by_cases hpath : element.path = path
        · -- The entry hides later ones at its path, but those stand for the same comment.
          subst hpath
          rw [List.lookup_cons_self, Option.getD_some, ← hhead]
          constructor
          · intro hoff
            exact .inl ⟨rfl, hoff⟩
          · rintro (⟨-, hoff⟩ | ⟨other, hother, hpath, hoff⟩)
            · exact hoff
            · rwa [hsame other (List.mem_cons_of_mem _ hother) element List.mem_cons_self
                hpath] at hoff
        · have hnext : (path == element.path) = false := by simpa using Ne.symm hpath
          simp only [List.lookup_cons, hnext, hpath, false_and, false_or]
          exact htail

/-- What collecting gives: the directives of the header, and those of the visited
elements. -/
theorem ofFile_eq_ok_iff {file : Schema.File} {suppressions : Suppressions} :
    ofFile file = .ok suppressions ↔
      Directive.readAll file.header = .ok suppressions.header ∧
        ofElements file.visit = .ok suppressions.elements := by
  rw [ofFile]
  cases hheader : Directive.readAll file.header with
  | error fault => simp
  | ok header =>
      cases helements : ofElements file.visit with
      | error fault => simp
      | ok elements =>
          rcases suppressions with ⟨_, _⟩
          simp

theorem exists_ofFile {file : Schema.File}
    (hheader : ∃ directives, Directive.readAll file.header = .ok directives)
    (helements : ∀ element ∈ file.visit, ∃ directives,
      Directive.readAll element.leadingComment = .ok directives) :
    ∃ suppressions, ofFile file = .ok suppressions := by
  obtain ⟨header, hheader⟩ := hheader
  obtain ⟨elements, helements⟩ := exists_ofElements helements
  exact ⟨⟨header, elements⟩, ofFile_eq_ok_iff.2 ⟨hheader, helements⟩⟩

/-- A rule is switched off on a visited element by the header or by the leading comment
of the element. -/
theorem disables_iff {file : Schema.File} {suppressions : Suppressions}
    (h : ofFile file = .ok suppressions) {element : Schema.Element}
    (hvisited : element ∈ file.visit) {rule : String} :
    suppressions.disables element.path rule = true ↔
      Directive.SwitchesOff file.header rule ∨
        Directive.SwitchesOff element.leadingComment rule := by
  obtain ⟨hheader, helements⟩ := ofFile_eq_ok_iff.1 h
  have hsame : ∀ left ∈ file.visit, ∀ right ∈ file.visit, left.path = right.path →
      left.leadingComment = right.leadingComment := fun _ hleft _ hright =>
    Schema.File.leadingComment_eq_of_path_eq hleft hright
  rw [disables, Bool.or_eq_true, headerDisables, elementDisables,
    ← Directive.switchesOff_iff hheader, lookup_disables_iff helements hsame]
  refine or_congr_right ⟨?_, fun hoff => ⟨element, hvisited, rfl, hoff⟩⟩
  rintro ⟨other, hother, hpath, hoff⟩
  rwa [hsame other hother element hvisited hpath] at hoff

/-- The search by path finds the directives of one element only, since no two elements share
a path, and it finds none for elements that are not visited. -/
theorem elementDisables_iff {file : Schema.File} (hshort : file.listsShort = true)
    {suppressions : Suppressions} (h : ofFile file = .ok suppressions)
    {element : Schema.Element} (hreach : file.Reaches element) {rule : String} :
    suppressions.elementDisables element.path rule = true ↔
      element ∈ file.visit ∧
        ∃ comment, file.CommentAbove element comment ∧ Directive.SwitchesOff comment rule := by
  obtain ⟨-, helements⟩ := ofFile_eq_ok_iff.1 h
  rw [elementDisables, lookup_disables_iff helements fun _ hleft _ hright =>
    Schema.File.leadingComment_eq_of_path_eq hleft hright]
  rw [← Directive.switchesOff_leadingComment_iff hreach]
  constructor
  · -- What was stored under the path was stored for the element itself.
    rintro ⟨other, hvisited, hpath, hoff⟩
    obtain rfl := (Schema.File.reaches_of_mem_visit hvisited).eq_of_path_eq hshort hreach hpath
    exact ⟨hvisited, hoff⟩
  · rintro ⟨hvisited, hoff⟩
    exact ⟨element, hvisited, rfl, hoff⟩

/-- The directives of a file act where they stand.  An element is subject to a directive
exactly when it is visited and the directive is in the comment above it; messages in map
entries, what is left out with them, and the file itself are subject to none.  A whole file is
subject to the directives of its header. -/
theorem ofFile_scoped (file : Schema.File) (suppressions : Suppressions) (rule : String)
    (hshort : file.listsShort = true) (h : ofFile file = .ok suppressions) :
    (∀ element, file.Reaches element →
      (suppressions.elementDisables element.path rule = true ↔
        element ∈ file.visit ∧
          ∃ comment, file.CommentAbove element comment ∧
            Directive.SwitchesOff comment rule)) ∧
    (∀ element, file.Reaches element →
      element ∉ file.visit ∨ file.LeftOut element ∨ element.kind = .file →
        suppressions.elementDisables element.path rule = false) ∧
    (suppressions.headerDisables rule = true ↔ Directive.SwitchesOff file.header rule) := by
  refine ⟨fun element hreach => elementDisables_iff hshort h hreach, ?_, ?_⟩
  · intro element hreach houtside
    rw [← Bool.not_eq_true, elementDisables_iff hshort h hreach]
    rintro ⟨hvisited, comment, ⟨hpath, -⟩, -⟩
    rcases houtside with hunseen | hleft | hfile
    · exact hunseen hvisited
    · exact ((Schema.File.mem_visit_iff hshort).1 hvisited).2 hleft
    · rw [hreach.eq_root_of_kind hfile] at hpath
      exact hpath rfl
  · rw [headerDisables, Directive.switchesOff_iff (ofFile_eq_ok_iff.1 h).1]

/-- The sample with a map entry, with a header and with a comment on the map entry, on a
field of it and on the message around it. -/
def annotatedSample : Schema.File :=
  { Schema.File.entrySample with
    sourceMap := .ofList
      [{ path := [12], leading := some "(-- api-linter: core::0101=disabled --)" },
        { path := [4, 0], leading := some "(-- api-linter: core::0102=disabled --)" },
        { path := [4, 0, 3, 0], leading := some "(-- api-linter: core::0103=disabled --)" },
        { path := [4, 0, 3, 0, 2, 0],
          leading := some "(-- api-linter: core::0104=disabled --)" }] }

/-- In the sample the comments on the message and on the field of the map entry count, each
for its own element; the one on the map entry does not. -/
theorem ofFile_scoped_annotatedSample :
    ∃ suppressions, ofFile annotatedSample = .ok suppressions ∧
      suppressions.headerDisables "core::0101::a" = true ∧
      suppressions.elementDisables [4, 0] "core::0102::a" = true ∧
      suppressions.elementDisables [4, 0, 2, 0] "core::0102::a" = false ∧
      suppressions.elementDisables [4, 0, 3, 0] "core::0103::a" = false ∧
      suppressions.elementDisables [4, 0, 3, 0, 2, 0] "core::0104::a" = true := by
  have hshort : annotatedSample.listsShort = true := by decide
  have hread : ofFile annotatedSample = .ok
      { header := [⟨"core::0101"⟩]
        elements :=
          [([4, 0, 3, 0, 2, 0], [⟨"core::0104"⟩]), ([4, 0], [⟨"core::0102"⟩])] } :=
    ofFile_eq_ok_iff.2 ⟨by decide +kernel, by decide +kernel⟩
  have hentry : ∃ entry, annotatedSample.resolve? [4, 0, 3, 0] = some entry := ⟨_, rfl⟩
  obtain ⟨entry, hentry⟩ := hentry
  obtain ⟨hreach, hpath⟩ := Schema.Element.below_of_descend? hentry
  obtain ⟨-, houtside, -⟩ := ofFile_scoped annotatedSample _ "core::0103::a" hshort hread
  have hunseen : entry ∉ annotatedSample.visit := by
    intro hvisited
    have hpaths : ([4, 0, 3, 0] : Schema.Path) ∉ annotatedSample.visit.map (·.path) := by
      decide
    exact hpaths (List.mem_map.2 ⟨entry, hvisited, hpath⟩)
  have hsilent := houtside entry hreach (.inl hunseen)
  rw [hpath] at hsilent
  exact ⟨_, hread, by decide +kernel, by decide +kernel, by decide +kernel, hsilent,
    by decide +kernel⟩

end Suppressions

end SchemaLint
