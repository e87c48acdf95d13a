import SchemaLint.Proofs.CommentScope
import SchemaLint.Proofs.FirstFailure
import SchemaLint.Proofs.RegistryHistory

namespace SchemaLint

namespace Lint

/-!
# What comments take away

Two runs over the same files are compared, one that obeys the directives in comments
and one that does not read them.  Directives can only switch a rule off, so a pair
that is active or ends the visit in the obeying run does so in the other as well.
Where the ignoring run meets no failure, the obeying run reports the same findings
except those of the pairs that a comment suppresses.

When the ignoring run does meet a failure nothing is said: a comment may suppress the
pair that fails, and then the obeying run goes on and reports more.
-/

/-- A directive in the header of the file or in the leading comment of the element is
about the rule of the pair. -/
def Suppressed (file : Schema.File) (pair : Schema.Element × Rule) : Prop :=
  Directive.SwitchesOff file.header pair.2.name ∨
    Directive.SwitchesOff pair.1.leadingComment pair.2.name

instance (file : Schema.File) : DecidablePred (Suppressed file) :=
  fun _ => inferInstanceAs (Decidable (_ ∨ _))

section TwoRuns

variable {layers : List Config.Layer} {parallel : Bool} {suppressions : Suppressions}
  {path : String}

theorem enabled_obeying_iff {rule : String} {element : Schema.Path} :
    (resolve ⟨layers, false, parallel⟩ suppressions path rule element).enabled = true ↔
      (resolve ⟨layers, true, parallel⟩ .none path rule element).enabled = true ∧
        ¬ suppressions.disables element rule = true := by
  by_cases hdisables : suppressions.disables element rule = true
  · simp [resolve, hdisables]
  · simp [resolve, hdisables]

theorem active_obeying_iff {pair : Schema.Element × Rule} :
    Active ⟨layers, false, parallel⟩ suppressions path pair ↔
      Active ⟨layers, true, parallel⟩ .none path pair ∧
        ¬ suppressions.disables pair.1.path pair.2.name = true := by
  rw [Active, Active, enabled_obeying_iff, and_assoc]

theorem findings_obeying :
    findings ⟨layers, false, parallel⟩ suppressions path =
      findings ⟨layers, true, parallel⟩ .none path := by
  funext pair
  simp only [findings, category_resolve]

/-- Obeying comments never makes a pair fail. -/
theorem stopsWith_ignoring {pair : Schema.Element × Rule} {failure : Failure}
    (h : StopsWith ⟨layers, false, parallel⟩ suppressions path pair failure) :
    StopsWith ⟨layers, true, parallel⟩ .none path pair failure := by
  cases h with
  | appliesTo happlies => exact .appliesTo happlies
  | check hactive hcheck => exact .check (active_obeying_iff.1 hactive).1 hcheck

end TwoRuns

/-- The pairs of a file that are active when comments are not read. -/
def activePairs (layers : List Config.Layer) (rules : List Rule) (file : Schema.File) :
    List (Schema.Element × Rule) :=
  (shownPairs rules file.visit).filter fun pair =>
    Active { layers := layers, ignoreDirectives := true } .none file.name pair

/-- The response of the obeying run to a file that the ignoring run goes through without
failure. -/
theorem lintFile_obeying {layers : List Config.Layer} {parallel : Bool} {rules : List Rule}
    {suppressions : Suppressions} {file : Schema.File}
    (hread : Suppressions.ofFile file = .ok suppressions)
    (hclean : (lintFile ⟨layers, true, parallel⟩ rules .none file).failures = []) :
    lintFile ⟨layers, false, parallel⟩ rules suppressions file =
      { filePath := file.name
        problems :=
          ((activePairs layers rules file).filter fun pair => ¬ Suppressed file pair).flatMap
            (findings ⟨layers, true, parallel⟩ .none file.name)
        failures := [] } := by
  have hgoes := not_stops_of_no_failures hclean
  rw [lintFile_of_not_stops fun pair hpair failure hstops =>
    hgoes pair hpair failure (stopsWith_ignoring hstops)]
  have hpairs : ((shownPairs rules file.visit).filter fun pair =>
        Active ⟨layers, false, parallel⟩ suppressions file.name pair) =
      (activePairs layers rules file).filter fun pair => ¬ Suppressed file pair := by
    -- Shown elements are visited, so what is found at their paths is their own comment.
    rw [activePairs, List.filter_filter]
    refine List.filter_congr ?_
    intro pair hpair
    have hdisables : suppressions.disables pair.1.path pair.2.name = true ↔ _ :=
      Suppressions.disables_iff hread (mem_shownPairs_iff.1 hpair).1
    rw [← Bool.decide_and, decide_eq_decide, active_obeying_iff, hdisables, and_comm]
    rfl
  rw [hpairs, findings_obeying]

theorem readSuppressions_eq_ok_iff {files : List Schema.File} {all : List Suppressions} :
    readSuppressions files = .ok all ↔
      List.Forall₂ (fun file suppressions => Suppressions.ofFile file = .ok suppressions)
        files all := by
  induction files generalizing all with
  | nil => simp [readSuppressions, eq_comm]
  | cons file rest ih =>
      rw [readSuppressions, List.forall₂_cons_left_iff]
      cases hfile : Suppressions.ofFile file with
      | error fault => simp
      | ok suppressions =>
          simp only [Except.ok.injEq, exists_and_left, ← ih]
          cases hrest : readSuppressions rest with
          | error fault => simp
          | ok more => simp [eq_comm]

theorem exists_readSuppressions {files : List Schema.File}
    (hread : ∀ file ∈ files, ∃ suppressions, Suppressions.ofFile file = .ok suppressions) :
    ∃ all, readSuppressions files = .ok all := by
  induction files with
  | nil => exact ⟨[], rfl⟩
  | cons file rest ih =>
      obtain ⟨suppressions, hfile⟩ := hread file List.mem_cons_self
      obtain ⟨more, hrest⟩ := ih fun later hlater => hread later (List.mem_cons_of_mem _ hlater)
      simp [readSuppressions, hfile, hrest]

/-- Without comments a run cannot fail, and gives one response for each file. -/
theorem run_ignoring (layers : List Config.Layer) (parallel : Bool) (registry : Registry)
    (files : List Schema.File) :
    run ⟨layers, true, parallel⟩ registry files =
      .ok (files.map (lintFile ⟨layers, true, parallel⟩ registry.rules .none)) := by
  rw [run_eq_zipWith, directivesOf, if_pos rfl, Except.map, List.zipWith_map_left,
    List.zipWith_self]

/-- Comments only ever remove findings, and exactly those of suppressed pairs.  When all
directives can be read, both runs give one response for each file.  If the ignoring run
goes through a file without failure then so does the obeying run, and it reports what the
ignoring run finds on the pairs that no comment suppresses, unchanged and in order. -/
theorem run_obeying_drops_suppressed (layers : List Config.Layer) (parallel : Bool)
    (registry : Registry) (files : List Schema.File)
    (hheaders : ∀ file ∈ files, ∃ directives, Directive.readAll file.header = .ok directives)
    (hcomments : ∀ file ∈ files, ∀ element ∈ file.visit, ∃ directives,
      Directive.readAll element.leadingComment = .ok directives) :
    ∃ obeying ignoring,
      run ⟨layers, false, parallel⟩ registry files = .ok obeying ∧
      run ⟨layers, true, parallel⟩ registry files = .ok ignoring ∧
      obeying.length = files.length ∧ ignoring.length = files.length ∧
      ∀ (index : Nat) (file : Schema.File) (obeyed ignored : Response),
        files[index]? = some file → obeying[index]? = some obeyed →
        ignoring[index]? = some ignored → ignored.failures = [] →
        ignored =
          { filePath := file.name
            problems :=
              (activePairs layers registry.rules file).flatMap
                (findings ⟨layers, true, parallel⟩ .none file.name)
            failures := [] } ∧
        obeyed =
          { filePath := file.name
            problems :=
              ((activePairs layers registry.rules file).filter
                fun pair => ¬ Suppressed file pair).flatMap
                  (findings ⟨layers, true, parallel⟩ .none file.name)
            failures := [] } := by
  obtain ⟨all, hall⟩ := exists_readSuppressions fun file hfile =>
    Suppressions.exists_ofFile (hheaders file hfile) (hcomments file hfile)
  have hread := readSuppressions_eq_ok_iff.1 hall
  refine ⟨List.zipWith (lintFile ⟨layers, false, parallel⟩ registry.rules) all files,
    files.map (lintFile ⟨layers, true, parallel⟩ registry.rules .none), ?_,
    run_ignoring layers parallel registry files, by simp [hread.length_eq], by simp, ?_⟩
  · simp [run_eq_zipWith, directivesOf, hall, Except.map]
  intro index file obeyed ignored hfile hobeyed hignored hclean
  rw [List.getElem?_map, hfile, Option.map_some, Option.some.injEq] at hignored
  rw [List.getElem?_zipWith, hfile] at hobeyed
  subst hignored
  refine ⟨lintFile_of_not_stops (not_stops_of_no_failures hclean), ?_⟩
  cases hsuppressions : all[index]? with
  | none => simp [hsuppressions] at hobeyed
  | some suppressions =>
      simp only [hsuppressions, Option.some.injEq] at hobeyed
      subst hobeyed
      obtain ⟨hindex, rfl⟩ := List.getElem?_eq_some_iff.1 hfile
      obtain ⟨hplace, rfl⟩ := List.getElem?_eq_some_iff.1 hsuppressions
      exact lintFile_obeying (hread.get hindex hplace) hclean

/-- Two messages, of which the first has a comment about a namespace. -/
def commentedSample : Schema.File where
  name := "books.proto"
  messages := [.mk "Book" [⟨"title", 1⟩] [] [] false, .mk "Shelf" [] [] [] false]
  sourceMap := .ofList
    [{ path := [4, 0], leading := some "A book. (-- api-linter: core::0135=disabled --)" }]

/-- A rule that says the same about every element. -/
def remarkRule : Rule where
  name := "core::0135::remark"
  kind := .generic
  check element := .ok [{ message := "Seen.", element := element.ref }]

/-- In the sample the comment takes away the finding on `Book`, and nothing else: the
findings on the file, on the field inside `Book` and on `Shelf` stay. -/
theorem run_obeying_commentedSample :
    ∃ registry obeying ignoring, Registry.ofList [remarkRule] = .ok registry ∧
      run ⟨[], false, true⟩ registry [commentedSample] = .ok [obeying] ∧
      run ⟨[], true, true⟩ registry [commentedSample] = .ok [ignoring] ∧
      ignoring.failures = [] ∧ obeying.failures = [] ∧
      ignoring.problems.map (·.element.path) = [[], [4, 0, 2, 0], [4, 0], [4, 1]] ∧
      obeying.problems.map (·.element.path) = [[], [4, 0, 2, 0], [4, 1]] := by
  obtain ⟨registry, hregistry, hrules⟩ : ∃ registry,
      Registry.ofList [remarkRule] = .ok registry ∧ registry.rules = [remarkRule] :=
    Registry.exists_ofList (by decide +kernel) (by decide +kernel)
  have hheaders : ∀ file ∈ [commentedSample], ∃ directives,
      Directive.readAll file.header = .ok directives := by
    intro file hfile
    obtain rfl := List.mem_singleton.1 hfile
    exact ⟨[], by decide +kernel⟩
  have hcomments : ∀ file ∈ [commentedSample], ∀ element ∈ file.visit, ∃ directives,
      Directive.readAll element.leadingComment = .ok directives := by
    intro file hfile
    obtain rfl := List.mem_singleton.1 hfile
    have hall : ∀ element ∈ commentedSample.visit,
        (Directive.readAll element.leadingComment).isOk = true := by decide +kernel
    intro element hmem
    cases hread : Directive.readAll element.leadingComment with
    | ok directives => exact ⟨directives, rfl⟩
    | error fault => simpa [hread, Except.isOk, Except.toBool] using hall element hmem
  obtain ⟨obeying, ignoring, hobeying, hignoring, hlength, hlength', hresponses⟩ :=
    run_obeying_drops_suppressed [] true registry [commentedSample] hheaders hcomments
  obtain ⟨obeyed, rfl⟩ := List.length_eq_one_iff.1 hlength
  obtain ⟨ignored, rfl⟩ := List.length_eq_one_iff.1 hlength'
  have hclean : ignored.failures = [] := by
    rw [run_ignoring, hrules] at hignoring
    rw [← List.singleton_inj.1 (Except.ok.inj hignoring)]
    decide +kernel
  obtain ⟨rfl, rfl⟩ := hresponses 0 commentedSample obeyed ignored rfl rfl rfl hclean
  refine ⟨registry, _, _, hregistry, hobeying, hignoring, rfl, rfl, ?_, ?_⟩
  · rw [hrules]
    decide +kernel
  · rw [hrules]
    decide +kernel

end Lint

end SchemaLint
