import Mathlib.Data.List.ProdSigma
import SchemaLint.Lint

namespace SchemaLint

namespace Lint

/-!
# The visit of a file up to its first failure

Whether a rule is shown an element, whether it is active there, and with which
failure it can end the visit are said here without reference to the loop of a
run.  The loop is then exact: the problems of a file are those of the active
pairs before the first pair that ends the visit, and that pair is reported.

A rule is asked whether it applies before anything is resolved, so a rule that is
switched off can still end a visit.
-/

/-- All pairs of an element and a rule whose kind accepts it, element by element. -/
def shownPairs (rules : List Rule) (elements : List Schema.Element) :
    List (Schema.Element × Rule) :=
  (elements ×ˢ rules).filter fun pair => pair.2.kind.accepts pair.1.kind

theorem pairs_eq_shownPairs (rules : List Rule) (elements : List Schema.Element) :
    pairs rules elements = shownPairs rules elements := by
  induction elements with
  | nil => rfl
  | cons element rest ih =>
      have hhead : (rules.map (Prod.mk element)).filter
            (fun pair => pair.2.kind.accepts pair.1.kind) =
          (rules.filter fun rule => rule.kind.accepts element.kind).map
            (Prod.mk element) := by
        rw [List.filter_map]
        rfl
      rw [shownPairs, List.product_cons, List.filter_append, hhead, ← shownPairs, ← ih]
      rfl

theorem mem_shownPairs_iff {rules : List Rule} {elements : List Schema.Element}
    {pair : Schema.Element × Rule} :
    pair ∈ shownPairs rules elements ↔
      pair.1 ∈ elements ∧ pair.2 ∈ rules ∧ pair.2.kind.accepts pair.1.kind = true := by
  rw [← pairs_eq_shownPairs, mem_pairs_iff]

section Pair

variable (options : Options) (suppressions : Suppressions) (path : String)

/-- The rule of the pair applies to its element and is switched on there. -/
def Active (pair : Schema.Element × Rule) : Prop :=
  pair.2.appliesTo pair.1 = .ok true ∧
    (resolve options suppressions path pair.2.name pair.1.path).enabled = true

instance : DecidablePred (Active options suppressions path) :=
  fun _ => inferInstanceAs (Decidable (_ ∧ _))

/-- The pair ends the visit of its file with this failure. -/
inductive StopsWith : Schema.Element × Rule → Failure → Prop where
  | appliesTo {pair : Schema.Element × Rule} {failure : Failure}
      (happlies : pair.2.appliesTo pair.1 = .error failure) : StopsWith pair failure
  | check {pair : Schema.Element × Rule} {failure : Failure}
      (hactive : Active options suppressions path pair)
      (hcheck : pair.2.check pair.1 = .error failure) : StopsWith pair failure

/-- What the rule of the pair says about its element, completed by the run: the name
and the category always, the place and the link where the rule gave none. -/
def findings (pair : Schema.Element × Rule) : List Problem :=
  match pair.2.check pair.1 with
  | .error _ => []
  | .ok problems =>
    problems.map fun problem =>
      { rule := pair.2.name
        category := (resolve options suppressions path pair.2.name pair.1.path).category
        message := problem.message
        suggestion := problem.suggestion
        element := problem.element
        location := some (problem.location.getD pair.1.location)
        uri := problem.uri.or pair.2.uri }

/-- How a pair that ends the visit is reported. -/
def failureReport (pair : Schema.Element × Rule) (failure : Failure) : RuleFailure :=
  ⟨pair.2.name, pair.1.ref, failure.message⟩

variable {options suppressions path}

/-- Comments never touch categories. -/
theorem category_resolve {rule : String} {element : Schema.Path} :
    (resolve options suppressions path rule element).category =
      (Config.configured options.layers path rule).category := by
  rw [resolve]
  split <;> rfl

theorem stamp_eq (rule : Rule) (category : Category) (element : Schema.Element)
    (problem : Problem) :
    stamp rule category element problem =
      { rule := rule.name
        category := category
        message := problem.message
        suggestion := problem.suggestion
        element := problem.element
        location := some (problem.location.getD element.location)
        uri := problem.uri.or rule.uri } := by
  rcases problem with ⟨_, _, _, _, _, location, uri⟩
  cases location <;> cases uri <;> rfl

/-- The judgement of a pair fails exactly where the pair ends the visit. -/
theorem judge_eq_error_iff {pair : Schema.Element × Rule} {failure : Failure} :
    judge options suppressions path pair.1 pair.2 = .error failure ↔
      StopsWith options suppressions path pair failure := by
  constructor
  · intro hjudge
    -- A rule that does not apply or is switched off is not asked for problems.
    cases happlies : pair.2.appliesTo pair.1 with
    | error fault =>
        simp only [judge_eq, happlies, Except.bind, Except.error.injEq] at hjudge
        exact hjudge ▸ .appliesTo happlies
    | ok applies =>
        cases applies with
        | false => simp [judge_eq, happlies, Except.bind] at hjudge
        | true =>
            by_cases henabled :
                (resolve options suppressions path pair.2.name pair.1.path).enabled = true
            · cases hcheck : pair.2.check pair.1 with
              | error fault =>
                  simp only [judge_eq, happlies, henabled, hcheck, Except.bind, Except.map,
                    Bool.and_self, if_true, Except.error.injEq] at hjudge
                  exact hjudge ▸ .check ⟨happlies, henabled⟩ hcheck
              | ok problems =>
                  simp [judge_eq, happlies, henabled, hcheck, Except.bind, Except.map] at hjudge
            · simp [judge_eq, happlies, henabled, Except.bind] at hjudge
  · intro hstops
    cases hstops with
    | appliesTo happlies => simp [judge_eq, happlies, Except.bind]
    | check hactive hcheck =>
        simp [judge_eq, hactive.1, hactive.2, hcheck, Except.bind, Except.map]

/-- A pair that does not end the visit gives its findings if it is active, and
nothing otherwise. -/
theorem judge_eq_ok_of_not_stops {pair : Schema.Element × Rule}
    (hgoes : ∀ failure, ¬ StopsWith options suppressions path pair failure) :
    judge options suppressions path pair.1 pair.2 =
      .ok (if Active options suppressions path pair
        then findings options suppressions path pair else []) := by
  cases happlies : pair.2.appliesTo pair.1 with
  | error failure => exact absurd (.appliesTo happlies) (hgoes failure)
  | ok applies =>
      by_cases hactive : Active options suppressions path pair
      · obtain ⟨htrue, henabled⟩ := hactive
        cases hcheck : pair.2.check pair.1 with
        | error failure => exact absurd (.check ⟨htrue, henabled⟩ hcheck) (hgoes failure)
        | ok problems =>
            rw [if_pos ⟨htrue, henabled⟩]
            simp only [judge_eq, findings, htrue, henabled, hcheck, Except.bind, Except.map,
              Bool.and_self, if_true]
            congr 2
            funext problem
            exact stamp_eq pair.2 _ pair.1 problem
      · rw [if_neg hactive]
        cases applies with
        | false => simp [judge_eq, happlies, Except.bind]
        | true =>
            have hdisabled :
                (resolve options suppressions path pair.2.name pair.1.path).enabled = false :=
              Bool.eq_false_iff.2 fun henabled => hactive ⟨happlies, henabled⟩
            simp [judge_eq, happlies, hdisabled, Except.bind]

/-- A pair that ends the visit hides everything after it. -/
theorem judgeAll_cons_of_stops {pair : Schema.Element × Rule} {failure : Failure}
    (hstops : StopsWith options suppressions path pair failure)
    (rest : List (Schema.Element × Rule)) :
    judgeAll options suppressions path (pair :: rest) = ([], [failureReport pair failure]) :=
  judgeAll_cons_of_error (judge_eq_error_iff.2 hstops) rest

/-- A pair that does not end the visit adds its findings, if it is active, to what the
pairs after it give. -/
theorem judgeAll_cons_of_not_stops {pair : Schema.Element × Rule}
    (hgoes : ∀ failure, ¬ StopsWith options suppressions path pair failure)
    (rest : List (Schema.Element × Rule)) :
    judgeAll options suppressions path (pair :: rest) =
      ((if Active options suppressions path pair
          then findings options suppressions path pair else []) ++
        (judgeAll options suppressions path rest).1,
      (judgeAll options suppressions path rest).2) :=
  judgeAll_cons_of_ok (judge_eq_ok_of_not_stops hgoes) rest

/-- Pairs that do not end the visit add the findings of the active ones among them to
whatever the pairs after them give. -/
theorem judgeAll_append {before : List (Schema.Element × Rule)}
    (hgoes : ∀ pair ∈ before, ∀ failure, ¬ StopsWith options suppressions path pair failure)
    (after : List (Schema.Element × Rule)) :
    judgeAll options suppressions path (before ++ after) =
      ((before.filter fun pair => Active options suppressions path pair).flatMap
          (findings options suppressions path) ++
        (judgeAll options suppressions path after).1,
      (judgeAll options suppressions path after).2) := by
  induction before with
  | nil => rfl
  | cons pair rest ih =>
      have hhead := hgoes pair List.mem_cons_self
      have htail := ih fun later hlater => hgoes later (List.mem_cons_of_mem _ hlater)
      rw [List.cons_append, judgeAll_cons_of_not_stops hhead, htail]
      by_cases hactive : Active options suppressions path pair
      · simp [hactive]
      · simp [hactive]

/-- When no pair ends the visit, the findings of all active pairs are reported. -/
theorem lintFile_of_not_stops {rules : List Rule} {file : Schema.File}
    (hgoes : ∀ pair ∈ shownPairs rules file.visit, ∀ failure,
      ¬ StopsWith options suppressions file.name pair failure) :
    lintFile options rules suppressions file =
      { filePath := file.name
        problems :=
          ((shownPairs rules file.visit).filter fun pair =>
            Active options suppressions file.name pair).flatMap
              (findings options suppressions file.name)
        failures := [] } := by
  have hall := judgeAll_append hgoes []
  rw [List.append_nil] at hall
  simp [lintFile_eq, pairs_eq_shownPairs, hall]

/-- The first pair that ends the visit cuts the findings off and is reported itself. -/
theorem lintFile_of_stops {rules : List Rule} {file : Schema.File}
    {before rest : List (Schema.Element × Rule)} {pair : Schema.Element × Rule}
    {failure : Failure} (hshown : shownPairs rules file.visit = before ++ pair :: rest)
    (hgoes : ∀ earlier ∈ before, ∀ failure,
      ¬ StopsWith options suppressions file.name earlier failure)
    (hstops : StopsWith options suppressions file.name pair failure) :
    lintFile options rules suppressions file =
      { filePath := file.name
        problems :=
          (before.filter fun pair => Active options suppressions file.name pair).flatMap
            (findings options suppressions file.name)
        failures := [failureReport pair failure] } := by
  have hall := judgeAll_append hgoes (pair :: rest)
  rw [← hshown, judgeAll_cons_of_stops hstops] at hall
  simp [lintFile_eq, pairs_eq_shownPairs, hall]

end Pair

/-- A list of pairs is cut in front of the first pair that ends the visit. -/
theorem exists_cut (options : Options) (suppressions : Suppressions) (path : String)
    (shown : List (Schema.Element × Rule)) :
    ∃ before after, shown = before ++ after ∧
      (∀ pair ∈ before, ∀ failure, ¬ StopsWith options suppressions path pair failure) ∧
      (after = [] ∨ ∃ pair rest failure,
        after = pair :: rest ∧ StopsWith options suppressions path pair failure) := by
  induction shown with
  | nil => exact ⟨[], [], rfl, by simp, .inl rfl⟩
  | cons pair rest ih =>
      by_cases hstops : ∃ failure, StopsWith options suppressions path pair failure
      · obtain ⟨failure, hstops⟩ := hstops
        exact ⟨[], pair :: rest, rfl, by simp, .inr ⟨pair, rest, failure, rfl, hstops⟩⟩
      · obtain ⟨before, after, hrest, hgoes, hend⟩ := ih
        refine ⟨pair :: before, after, by rw [hrest, List.cons_append], ?_, hend⟩
        intro shownPair hmem failure hfailure
        rcases List.mem_cons.1 hmem with rfl | hmem
        · exact hstops ⟨failure, hfailure⟩
        · exact hgoes shownPair hmem failure hfailure

/-- A visit that ends early is seen in the response. -/
theorem not_stops_of_no_failures {options : Options} {rules : List Rule}
    {suppressions : Suppressions} {file : Schema.File}
    (hclean : (lintFile options rules suppressions file).failures = []) :
    ∀ pair ∈ shownPairs rules file.visit, ∀ failure,
      ¬ StopsWith options suppressions file.name pair failure := by
  obtain ⟨before, after, hshown, hgoes, hend⟩ :=
    exists_cut options suppressions file.name (shownPairs rules file.visit)
  rcases hend with rfl | ⟨pair, rest, failure, rfl, hstops⟩
  · rw [hshown, List.append_nil]
    exact hgoes
  · simp [lintFile_of_stops hshown hgoes hstops] at hclean

/-- The response of a file is fixed by the first pair that ends its visit.  The pairs
before it, or all pairs when there is none, give the findings of the active ones
among them in order; the pair itself is the only failure that is reported. -/
theorem lintFile_eq_before_first_stop (options : Options) (registry : Registry)
    (suppressions : Suppressions) (file : Schema.File) :
    ∃ before after failures,
      shownPairs registry.rules file.visit = before ++ after ∧
      (∀ pair ∈ before, ∀ failure,
        ¬ StopsWith options suppressions file.name pair failure) ∧
      ((after = [] ∧ failures = []) ∨
        ∃ pair rest failure, after = pair :: rest ∧
          StopsWith options suppressions file.name pair failure ∧
          failures = [⟨pair.2.name, pair.1.ref, failure.message⟩]) ∧
      lintFile options registry.rules suppressions file =
        { filePath := file.name
          problems :=
            (before.filter fun pair => Active options suppressions file.name pair).flatMap
              (findings options suppressions file.name)
          failures := failures } := by
  obtain ⟨before, after, hshown, hgoes, hend⟩ :=
    exists_cut options suppressions file.name (shownPairs registry.rules file.visit)
  rcases hend with rfl | ⟨pair, rest, failure, rfl, hstops⟩
  · rw [List.append_nil] at hshown
    subst hshown
    exact ⟨_, [], [], (List.append_nil _).symm, hgoes, .inl ⟨rfl, rfl⟩,
      lintFile_of_not_stops hgoes⟩
  · exact ⟨before, pair :: rest, [failureReport pair failure], hshown, hgoes,
      .inr ⟨pair, rest, failure, rfl, hstops, rfl⟩, lintFile_of_stops hshown hgoes hstops⟩

end Lint

end SchemaLint
