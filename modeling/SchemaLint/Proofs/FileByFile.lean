import Mathlib.Data.List.Forall2
import SchemaLint.Proofs.Questions
import SchemaLint.Proofs.SuppressedFindings

namespace SchemaLint

/-!
# Runs, file by file

A run reads the comments of all its files before it shows a rule anything, and then
goes through the files without looking from one to another.  Both passes are compared
here with single files: a run over several files is made of the runs over each of
them, and it fails with what the first of them fails with.

The failure itself is found in the comments alone.  The comments of a file are listed
in the order in which they are read, and the run fails with the first one that cannot
be read, whatever the rules and the layers are.
-/

/-- A comment of a file, with the place by which errors refer to it. -/
structure PlacedComment where
  file : String
  place : String
  text : String

namespace PlacedComment

/-- The directives of the comment can be read. -/
def Readable (comment : PlacedComment) : Prop :=
  ∃ directives, Directive.readAll comment.text = .ok directives

/-- Reading the comment ends in this error. -/
def FailsWith (comment : PlacedComment) (error : SuppressionError) : Prop :=
  ∃ fault, Directive.readAll comment.text = .error fault ∧
    error = ⟨comment.file, comment.place, fault⟩

/-- The error is that of the first comment in the list that cannot be read. -/
def FirstFailure (comments : List PlacedComment) (error : SuppressionError) : Prop :=
  ∃ before comment after, comments = before ++ comment :: after ∧
    (∀ earlier ∈ before, earlier.Readable) ∧ comment.FailsWith error

theorem not_readable_iff {comment : PlacedComment} :
    ¬ comment.Readable ↔ ∃ fault, Directive.readAll comment.text = .error fault := by
  rw [Readable]
  cases hread : Directive.readAll comment.text with
  | ok directives => simp
  | error fault => simp

theorem exists_failsWith_iff {comment : PlacedComment} :
    (∃ error, comment.FailsWith error) ↔ ¬ comment.Readable := by
  rw [not_readable_iff]
  constructor
  · rintro ⟨_, fault, hread, -⟩
    exact ⟨fault, hread⟩
  · rintro ⟨fault, hread⟩
    exact ⟨_, fault, hread, rfl⟩

theorem not_firstFailure_nil {error : SuppressionError} : ¬ FirstFailure [] error := by
  rintro ⟨before, comment, after, hsplit, -⟩
  simp at hsplit

theorem firstFailure_cons_iff {comment : PlacedComment} {rest : List PlacedComment}
    {error : SuppressionError} :
    FirstFailure (comment :: rest) error ↔
      comment.FailsWith error ∨ comment.Readable ∧ FirstFailure rest error := by
  constructor
  · rintro ⟨before, failing, after, hsplit, hreadable, hfails⟩
    cases before with
    | nil =>
        obtain ⟨rfl, -⟩ := List.cons.inj hsplit
        exact .inl hfails
    | cons first before =>
        obtain ⟨rfl, hrest⟩ := List.cons.inj hsplit
        exact .inr ⟨hreadable comment List.mem_cons_self, before, failing, after, hrest,
          fun earlier hearlier => hreadable earlier (List.mem_cons_of_mem _ hearlier), hfails⟩
  · rintro (hfails | ⟨hreadable, before, failing, after, rfl, hbefore, hfails⟩)
    · exact ⟨[], comment, rest, rfl, by simp, hfails⟩
    · refine ⟨comment :: before, failing, after, rfl, ?_, hfails⟩
      intro earlier hearlier
      rcases List.mem_cons.1 hearlier with rfl | hearlier
      · exact hreadable
      · exact hbefore earlier hearlier

/-- A list of comments is searched piece by piece. -/
theorem firstFailure_append_iff {first second : List PlacedComment}
    {error : SuppressionError} :
    FirstFailure (first ++ second) error ↔
      FirstFailure first error ∨
        (∀ comment ∈ first, comment.Readable) ∧ FirstFailure second error := by
  induction first with
  | nil => simp [not_firstFailure_nil]
  | cons comment rest ih =>
      rw [List.cons_append, firstFailure_cons_iff, firstFailure_cons_iff, ih,
        List.forall_mem_cons]
      tauto

/-- A list of comments has a first one that cannot be read when it has any. -/
theorem exists_firstFailure_iff {comments : List PlacedComment} :
    (∃ error, FirstFailure comments error) ↔ ∃ comment ∈ comments, ¬ comment.Readable := by
  induction comments with
  | nil => simp [not_firstFailure_nil]
  | cons comment rest ih =>
      simp only [firstFailure_cons_iff, exists_or, exists_and_left, ih, exists_failsWith_iff,
        List.mem_cons, exists_eq_or_imp]
      tauto

end PlacedComment

/-- The comments of a file in the order in which they are read: its header, and then the
leading comments of its elements in order of visit. -/
def Schema.File.placedComments (file : Schema.File) : List PlacedComment :=
  ⟨file.name, "file header", file.header⟩ ::
    file.visit.map fun element => ⟨file.name, element.fullName, element.leadingComment⟩

namespace Suppressions

open PlacedComment

theorem ofElements_eq_error_iff {file : Schema.File} {elements : List Schema.Element}
    (hfile : ∀ element ∈ elements, element.file = file) {error : SuppressionError} :
    ofElements elements = .error error ↔
      FirstFailure (elements.map fun element =>
        ⟨file.name, element.fullName, element.leadingComment⟩) error := by
  induction elements with
  | nil => simp [ofElements, not_firstFailure_nil]
  | cons element rest ih =>
      have hhead := hfile element List.mem_cons_self
      have htail := ih fun later hlater => hfile later (List.mem_cons_of_mem _ hlater)
      -- The comments further on are read only if this one can be.
      rw [List.map_cons, firstFailure_cons_iff, ← htail, ofElements, hhead]
      cases hread : Directive.readAll element.leadingComment with
      | error fault => simp [FailsWith, Readable, hread, eq_comm]
      | ok directives =>
          cases hrest : ofElements rest with
          | error fault => simp [FailsWith, Readable, hread]
          | ok entries => simp [FailsWith, hread]

/-- Collecting the directives of a file fails with its first comment that cannot be read. -/
theorem ofFile_eq_error_iff {file : Schema.File} {error : SuppressionError} :
    ofFile file = .error error ↔ FirstFailure file.placedComments error := by
  have hvisited : ∀ element ∈ file.visit, element.file = file := fun _ hmem =>
    (Schema.File.reaches_of_mem_visit hmem).file_eq
  rw [Schema.File.placedComments, firstFailure_cons_iff, ← ofElements_eq_error_iff hvisited,
    ofFile]
  cases hheader : Directive.readAll file.header with
  | error fault => simp [FailsWith, Readable, hheader, eq_comm]
  | ok header =>
      cases helements : ofElements file.visit with
      | error fault => simp [FailsWith, Readable, hheader]
      | ok elements => simp [FailsWith, hheader]

/-- Collecting succeeds when every comment of the file can be read. -/
theorem exists_ofFile_iff {file : Schema.File} :
    (∃ suppressions, ofFile file = .ok suppressions) ↔
      ∀ comment ∈ file.placedComments, comment.Readable := by
  have hfails : (∃ error, ofFile file = .error error) ↔ _ :=
    (exists_congr fun _ => ofFile_eq_error_iff).trans exists_firstFailure_iff
  cases hfile : ofFile file with
  | error error =>
      obtain ⟨comment, hmem, hunreadable⟩ := hfails.1 ⟨error, hfile⟩
      simp only [reduceCtorEq, exists_false, false_iff]
      exact fun hall => hunreadable (hall comment hmem)
  | ok suppressions =>
      simp only [Except.ok.injEq, exists_eq', true_iff]
      intro comment hmem
      by_contra hunreadable
      obtain ⟨error, herror⟩ := hfails.2 ⟨comment, hmem, hunreadable⟩
      simp [hfile] at herror

end Suppressions

namespace Lint

/-- What is made of one file: the error of its comments, or its response. -/
def respond (options : Options) (registry : Registry) (file : Schema.File) :
    Except SuppressionError Response :=
  if options.ignoreDirectives then .ok (lintFile options registry.rules .none file)
  else (Suppressions.ofFile file).map fun suppressions =>
    lintFile options registry.rules suppressions file

section Files

variable {options : Options} {registry : Registry}

@[simp] theorem run_nil : run options registry [] = .ok [] := by
  cases hignore : options.ignoreDirectives <;>
    simp [run_eq_zipWith, directivesOf, hignore, readSuppressions, Except.map]

/-- The first file of a run comes before the others, with its error or its response. -/
theorem run_cons (file : Schema.File) (rest : List Schema.File) :
    run options registry (file :: rest) =
      (respond options registry file).bind fun response =>
        (run options registry rest).map (response :: ·) := by
  cases hignore : options.ignoreDirectives with
  | true => simp [run_eq_zipWith, directivesOf, respond, hignore, Except.bind, Except.map]
  | false =>
      simp only [run_eq_zipWith, directivesOf, respond, hignore, readSuppressions]
      cases hfile : Suppressions.ofFile file with
      | error error => rfl
      | ok suppressions => cases readSuppressions rest <;> rfl

/-- A run over two lists of files is the run over the first, followed by that over the
second. -/
theorem run_append (first second : List Schema.File) :
    run options registry (first ++ second) =
      (run options registry first).bind fun responses =>
        (run options registry second).map (responses ++ ·) := by
  induction first with
  | nil =>
      cases hsecond : run options registry second <;> simp [hsecond, Except.bind, Except.map]
  | cons file rest ih =>
      rw [List.cons_append, run_cons, run_cons, ih]
      cases hfile : respond options registry file with
      | error error => rfl
      | ok response =>
          cases hrest : run options registry rest with
          | error error => rfl
          | ok responses =>
              cases hsecond : run options registry second <;> rfl

theorem run_append_eq_ok_iff {first second : List Schema.File} {responses : List Response} :
    run options registry (first ++ second) = .ok responses ↔
      ∃ before after, run options registry first = .ok before ∧
        run options registry second = .ok after ∧ responses = before ++ after := by
  rw [run_append]
  cases hfirst : run options registry first with
  | error error => simp [Except.bind]
  | ok before =>
      cases hsecond : run options registry second with
      | error error => simp [Except.bind, Except.map]
      | ok after => simp [Except.bind, Except.map, eq_comm]

theorem run_append_eq_error_iff {first second : List Schema.File} {error : SuppressionError} :
    run options registry (first ++ second) = .error error ↔
      run options registry first = .error error ∨
        (∃ responses, run options registry first = .ok responses) ∧
          run options registry second = .error error := by
  rw [run_append]
  cases hfirst : run options registry first with
  | error fault => simp [Except.bind]
  | ok before =>
      cases hsecond : run options registry second with
      | error fault => simp [Except.bind, Except.map]
      | ok after => simp [Except.bind, Except.map]

/-- A run gives one response for each file, and each is what its file gives alone. -/
theorem run_eq_ok_iff {files : List Schema.File} {responses : List Response} :
    run options registry files = .ok responses ↔
      List.Forall₂ (fun file response => run options registry [file] = .ok [response])
        files responses := by
  induction files generalizing responses with
  | nil => simp [eq_comm]
  | cons file rest ih =>
      -- A file gives alone what it gives in front of others.
      have halone : ∀ response, run options registry [file] = .ok [response] ↔
          respond options registry file = .ok response := by
        intro response
        rw [run_cons, run_nil]
        cases hfile : respond options registry file <;> simp [Except.bind, Except.map]
      rw [run_cons, List.forall₂_cons_left_iff]
      simp only [halone, ← ih]
      cases hfile : respond options registry file with
      | error error => simp [Except.bind]
      | ok response =>
          cases hrest : run options registry rest with
          | error error => simp [Except.bind, Except.map]
          | ok more => simp [Except.bind, Except.map, eq_comm]

end Files

/-- Partners found member by member follow their members when these are put in another
order. -/
theorem exists_partners_of_perm {α β : Type} {related : α → β → Prop} {members reordered : List α}
    (hperm : members.Perm reordered) {partners : List β}
    (h : List.Forall₂ related members partners) :
    ∃ moved, List.Forall₂ related reordered moved ∧
      (members.zip partners).Perm (reordered.zip moved) := by
  induction hperm generalizing partners with
  | nil => exact ⟨partners, h, .refl _⟩
  | cons member _ ih =>
      obtain ⟨partner, rest, hhead, hrest, rfl⟩ := List.forall₂_cons_left_iff.1 h
      obtain ⟨moved, hmoved, hzip⟩ := ih hrest
      exact ⟨partner :: moved, .cons hhead hmoved, hzip.cons (member, partner)⟩
  | swap left right _ =>
      obtain ⟨partner, others, hright, hothers, rfl⟩ := List.forall₂_cons_left_iff.1 h
      obtain ⟨other, rest, hleft, hrest, rfl⟩ := List.forall₂_cons_left_iff.1 hothers
      exact ⟨other :: partner :: rest, .cons hleft (.cons hright hrest), .swap _ _ _⟩
  | trans _ _ ih ih' =>
      obtain ⟨middle, hmiddle, hzip⟩ := ih h
      obtain ⟨moved, hmoved, hzip'⟩ := ih' hmiddle
      exact ⟨moved, hmoved, hzip.trans hzip'⟩

/-- The comments of several files are read up to the first that cannot be. -/
theorem readSuppressions_eq_error_iff {files : List Schema.File} {error : SuppressionError} :
    readSuppressions files = .error error ↔
      PlacedComment.FirstFailure (files.flatMap (·.placedComments)) error := by
  induction files with
  | nil => simp [readSuppressions, PlacedComment.not_firstFailure_nil]
  | cons file rest ih =>
      -- A file is passed over only if all its comments can be read.
      rw [List.flatMap_cons, PlacedComment.firstFailure_append_iff,
        ← Suppressions.ofFile_eq_error_iff, ← Suppressions.exists_ofFile_iff, ← ih,
        readSuppressions]
      cases hfile : Suppressions.ofFile file with
      | error fault => simp
      | ok suppressions =>
          cases hrest : readSuppressions rest with
          | error fault => simp
          | ok more => simp

theorem run_obeying_eq_error_iff {layers : List Config.Layer} {parallel : Bool}
    {registry : Registry} {files : List Schema.File} {error : SuppressionError} :
    run ⟨layers, false, parallel⟩ registry files = .error error ↔
      PlacedComment.FirstFailure (files.flatMap (·.placedComments)) error := by
  rw [← readSuppressions_eq_error_iff]
  cases hread : readSuppressions files with
  | error fault => simp [run_eq_zipWith, directivesOf, hread, Except.map]
  | ok suppressions => simp [run_eq_zipWith, directivesOf, hread, Except.map]

theorem exists_run_obeying_error_iff {layers : List Config.Layer} {parallel : Bool}
    {registry : Registry} {files : List Schema.File} :
    (∃ error, run ⟨layers, false, parallel⟩ registry files = .error error) ↔
      ∃ file ∈ files, (∃ fault, Directive.readAll file.header = .error fault) ∨
        ∃ element ∈ file.visit, ∃ fault,
          Directive.readAll element.leadingComment = .error fault := by
  simp only [run_obeying_eq_error_iff, PlacedComment.exists_firstFailure_iff,
    PlacedComment.not_readable_iff, Schema.File.placedComments, List.mem_flatMap,
    List.mem_cons, List.mem_map]
  constructor
  · rintro ⟨_, ⟨file, hfile, rfl | ⟨element, helement, rfl⟩⟩, hfault⟩
    · exact ⟨file, hfile, .inl hfault⟩
    · exact ⟨file, hfile, .inr ⟨element, helement, hfault⟩⟩
  · rintro ⟨file, hfile, hfault | ⟨element, helement, hfault⟩⟩
    · exact ⟨_, ⟨file, hfile, .inl rfl⟩, hfault⟩
    · exact ⟨_, ⟨file, hfile, .inr ⟨element, helement, rfl⟩⟩, hfault⟩

/-- A visit does not look at who makes it. -/
theorem judgeAll_parallel (layers : List Config.Layer) (ignore parallel other : Bool)
    (suppressions : Suppressions) (path : String) (shown : List (Schema.Element × Rule)) :
    judgeAll ⟨layers, ignore, parallel⟩ suppressions path shown =
      judgeAll ⟨layers, ignore, other⟩ suppressions path shown := by
  induction shown with
  | nil => rfl
  | cons pair rest ih =>
      have hjudge : judge ⟨layers, ignore, parallel⟩ suppressions path pair.1 pair.2 =
          judge ⟨layers, ignore, other⟩ suppressions path pair.1 pair.2 := rfl
      cases hpair : judge ⟨layers, ignore, other⟩ suppressions path pair.1 pair.2 with
      | error failure =>
          rw [judgeAll_cons_of_error hpair, judgeAll_cons_of_error (hjudge.trans hpair)]
      | ok problems =>
          rw [judgeAll_cons_of_ok hpair, judgeAll_cons_of_ok (hjudge.trans hpair), ih]

/-- Whether files are handed to a pool, and to which, makes no difference to what a run
gives. -/
theorem runM_direct_eq_run (pool : Pool Id) (layers : List Config.Layer)
    (ignore parallel other : Bool) (registry : Registry) (files : List Schema.File) :
    (runM .direct pool ⟨layers, ignore, parallel⟩ registry files).run =
      run ⟨layers, ignore, other⟩ registry files := by
  have hlint : lintFile ⟨layers, ignore, parallel⟩ registry.rules =
      lintFile ⟨layers, ignore, other⟩ registry.rules := by
    funext suppressions file
    rw [lintFile_eq, lintFile_eq, judgeAll_parallel]
  rw [runM_direct, run_eq_zipWith, hlint]

/-- A run treats its files one by one, and reads all their comments before it asks a rule
anything.

Over two lists of files it succeeds when it does over each, with the responses of the
first list in front, and otherwise fails with the first list or, if that succeeds, with
the second.  So each file has one response, which is what it gives alone, and the
responses follow the files into any other order.  Whether a pool does the work makes no
difference.

A run that ignores directives always succeeds.  A run that obeys them fails when a
comment of one of its files cannot be read, and then with the first such comment,
whatever the layers and the rules are.

Questions to rules may be actions of any monad.  A run that fails is then no action at all:
nothing was asked.  Where the actions give the answers of the rules, the run gives what it
gives without them. -/
theorem run_file_by_file (layers : List Config.Layer) (ignore parallel : Bool)
    (registry : Registry) :
    (∀ (first second : List Schema.File) (responses : List Response),
      run ⟨layers, ignore, parallel⟩ registry (first ++ second) = .ok responses ↔
        ∃ before after, run ⟨layers, ignore, parallel⟩ registry first = .ok before ∧
          run ⟨layers, ignore, parallel⟩ registry second = .ok after ∧
          responses = before ++ after) ∧
    (∀ (first second : List Schema.File) (error : SuppressionError),
      run ⟨layers, ignore, parallel⟩ registry (first ++ second) = .error error ↔
        run ⟨layers, ignore, parallel⟩ registry first = .error error ∨
          (∃ responses, run ⟨layers, ignore, parallel⟩ registry first = .ok responses) ∧
            run ⟨layers, ignore, parallel⟩ registry second = .error error) ∧
    (∀ (files : List Schema.File) (responses : List Response),
      run ⟨layers, ignore, parallel⟩ registry files = .ok responses ↔
        List.Forall₂ (fun file response =>
          run ⟨layers, ignore, parallel⟩ registry [file] = .ok [response]) files responses) ∧
    (∀ (files reordered : List Schema.File) (responses : List Response),
      files.Perm reordered → run ⟨layers, ignore, parallel⟩ registry files = .ok responses →
        ∃ moved, run ⟨layers, ignore, parallel⟩ registry reordered = .ok moved ∧
          (files.zip responses).Perm (reordered.zip moved)) ∧
    (∀ (pool : Pool Id) (other : Bool) (files : List Schema.File),
      (runM .direct pool ⟨layers, ignore, parallel⟩ registry files).run =
        run ⟨layers, ignore, other⟩ registry files) ∧
    (∀ files : List Schema.File,
      ∃ responses, run ⟨layers, true, parallel⟩ registry files = .ok responses) ∧
    (∀ files : List Schema.File,
      (∃ error, run ⟨layers, false, parallel⟩ registry files = .error error) ↔
        ∃ file ∈ files, (∃ fault, Directive.readAll file.header = .error fault) ∨
          ∃ element ∈ file.visit, ∃ fault,
            Directive.readAll element.leadingComment = .error fault) ∧
    (∀ (files : List Schema.File) (error : SuppressionError),
      run ⟨layers, false, parallel⟩ registry files = .error error ↔
        PlacedComment.FirstFailure (files.flatMap (·.placedComments)) error) ∧
    (∀ (m : Type → Type) [Monad m] (asking : Asking m) (pool : Pool m)
      (files : List Schema.File) (error : SuppressionError),
      run ⟨layers, ignore, parallel⟩ registry files = .error error →
        runM asking pool ⟨layers, ignore, parallel⟩ registry files = pure (.error error)) ∧
    ∀ (m : Type → Type) [Monad m] [LawfulMonad m] (asking : Asking m) (pool : Pool m)
      (files : List Schema.File), asking.Faithful registry.rules →
        Gives (runM asking pool ⟨layers, ignore, parallel⟩ registry files)
          (run ⟨layers, ignore, parallel⟩ registry files) := by
  refine ⟨fun _ _ _ => run_append_eq_ok_iff, fun _ _ _ => run_append_eq_error_iff,
    fun _ _ => run_eq_ok_iff, ?_, fun pool other files => runM_direct_eq_run pool _ _ _ other _ _,
    fun files => ⟨_, run_ignoring layers parallel registry files⟩,
    fun _ => exists_run_obeying_error_iff, fun _ _ => run_obeying_eq_error_iff,
    fun _ _ asking pool _ _ herror => runM_of_error herror asking pool,
    fun _ _ _ _ pool files hfaithful => gives_runM hfaithful pool _ files⟩
  intro files reordered responses hperm hrun
  obtain ⟨moved, hmoved, hzip⟩ := exists_partners_of_perm hperm (run_eq_ok_iff.1 hrun)
  exact ⟨moved, run_eq_ok_iff.2 hmoved, hzip⟩

/-- Asking that writes down which question was asked about which element. -/
def Asking.logged : Asking (StateM (List (String × Schema.Path))) where
  appliesTo rule element := do
    modify (· ++ [("applies", element.path)])
    pure (rule.appliesTo element)
  check rule element := do
    modify (· ++ [("check", element.path)])
    pure (rule.check element)

theorem faithful_logged (rules : List Rule) : Asking.logged.Faithful rules :=
  fun _ _ _ => ⟨rfl, rfl⟩

/-- The sample with a comment on its second message that cannot be read. -/
def unreadableSample : Schema.File :=
  { commentedSample with
    sourceMap := .ofList
      [{ path := [4, 1], leading := some "A shelf. (-- api-linter: core::0135 --)" }] }

/-- The second message of that sample. -/
def unreadableShelf : Schema.Element :=
  unreadableSample.root.held 4 1 (.message (.mk "Shelf" [] [] [] false))

/-- A file that can be read stands in front of one that cannot, and still nothing is asked
about it.  Alone it is asked about: twice for each element, and once for the message that
its comment is about. -/
theorem run_logged_samples :
    ∃ registry, Registry.ofList [remarkRule] = .ok registry ∧
      (∃ error, run ⟨[], false, true⟩ registry [commentedSample, unreadableSample] = .error error ∧
        runM .logged (.single _) ⟨[], false, true⟩ registry [commentedSample, unreadableSample] =
          pure (.error error)) ∧
      Gives (runM .logged (.single _) ⟨[], false, true⟩ registry [commentedSample])
        (run ⟨[], false, true⟩ registry [commentedSample]) ∧
      ((runM .logged (.single _) ⟨[], false, true⟩ registry [commentedSample]).run []).2 =
        [("applies", []), ("check", []), ("applies", [4, 0, 2, 0]), ("check", [4, 0, 2, 0]),
          ("applies", [4, 0]), ("applies", [4, 1]), ("check", [4, 1])] := by
  obtain ⟨⟨rules, positions⟩, hregistry, hrules⟩ : ∃ registry,
      Registry.ofList [remarkRule] = .ok registry ∧ registry.rules = [remarkRule] :=
    Registry.exists_ofList (by decide +kernel) (by decide +kernel)
  subst hrules
  obtain ⟨-, -, -, -, -, -, hfails, -, hsilent, hgives⟩ :=
    run_file_by_file [] false true ⟨[remarkRule], positions⟩
  have hvisited : unreadableShelf ∈ unreadableSample.visit :=
    List.mem_of_getElem? (show unreadableSample.visit[3]? = some unreadableShelf from rfl)
  have hunread : Directive.readAll unreadableShelf.leadingComment =
      .error (.malformed "(-- api-linter: core::0135 --)") := by decide +kernel
  obtain ⟨error, herror⟩ := (hfails [commentedSample, unreadableSample]).2
    ⟨unreadableSample, by simp, .inr ⟨unreadableShelf, hvisited, _, hunread⟩⟩
  -- The log depends on the rules alone, so the index may be any.
  have hlog : ((runM .logged (.single _) ⟨[], false, true⟩ ⟨[remarkRule], ∅⟩
      [commentedSample]).run []).2 =
        [("applies", []), ("check", []), ("applies", [4, 0, 2, 0]), ("check", [4, 0, 2, 0]),
          ("applies", [4, 0]), ("applies", [4, 1]), ("check", [4, 1])] := by decide +kernel
  exact ⟨_, hregistry, ⟨error, herror, hsilent _ _ _ _ _ herror⟩,
    hgives _ _ _ _ (faithful_logged _), hlog⟩

end Lint

end SchemaLint
