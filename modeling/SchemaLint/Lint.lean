import SchemaLint.Pool
import SchemaLint.Registry
import SchemaLint.Suppression

namespace SchemaLint

/-!
# Runs

A run shows every element of every file to every rule whose kind accepts it.  The
comments of all files are read first, and a faulty directive in any of them ends the
run before a rule has seen anything.

Files do not touch each other.  Within a file elements come in order of visit, and
for each element the rules in order of registration.  A rule that fails ends the
visit of its file; the problems found so far stay.

Rules are somebody else's code: to ask one a question may do more than give the answer.
The steps of a run are therefore written for questions in any monad, which also shows when
a rule is asked.  The plain functions are the same steps with the rules' own answers.
-/

namespace Lint

/-- What the rules of a run are subject to, and whether files are handed to a pool. -/
structure Options where
  layers : List Config.Layer := []
  ignoreDirectives : Bool := false
  parallel : Bool := false

/-- What layers and comments decide about a rule on an element of the file at `path`. -/
def resolve (options : Options) (suppressions : Suppressions) (path rule : String)
    (element : Schema.Path) : Config.Resolution :=
  let resolution := Config.configured options.layers path rule
  if !options.ignoreDirectives && suppressions.disables element rule then
    { resolution with enabled := false }
  else resolution

/-- Fills in what a rule does not know about its problem. -/
def stamp (rule : Rule) (category : Category) (element : Schema.Element) (problem : Problem) :
    Problem :=
  { problem with
    rule := rule.name
    category := category
    location := problem.location <|> some element.location
    uri := problem.uri <|> rule.uri }

/-- The pairs of an element and a rule that is shown it, in the order of the run. -/
def pairs (rules : List Rule) (elements : List Schema.Element) : List (Schema.Element × Rule) :=
  elements.flatMap fun element =>
    (rules.filter fun rule => rule.kind.accepts element.kind).map fun rule => (element, rule)

theorem mem_pairs_iff {rules : List Rule} {elements : List Schema.Element}
    {pair : Schema.Element × Rule} :
    pair ∈ pairs rules elements ↔
      pair.1 ∈ elements ∧ pair.2 ∈ rules ∧ pair.2.kind.accepts pair.1.kind = true := by
  simp only [pairs, List.mem_flatMap, List.mem_map, List.mem_filter]
  constructor
  · rintro ⟨element, helement, rule, hrule, rfl⟩
    exact ⟨helement, hrule⟩
  · rintro ⟨helement, hrule⟩
    exact ⟨pair.1, helement, pair.2, hrule, rfl⟩

/-- How rules are asked: whether they have to do with an element, and what they find there. -/
structure Asking (m : Type → Type) where
  appliesTo : Rule → Schema.Element → m (Except Failure Bool)
  check : Rule → Schema.Element → m (Except Failure (List Problem))

/-- Asking that does nothing but take the rule's answer. -/
def Asking.direct : Asking Id where
  appliesTo rule element := pure (rule.appliesTo element)
  check rule element := pure (rule.check element)

section Steps

variable {m : Type → Type} [Monad m]

/-- Asks one rule about one element of the file at `path`. -/
def judgeM (asking : Asking m) (options : Options) (suppressions : Suppressions) (path : String)
    (element : Schema.Element) (rule : Rule) : m (Except Failure (List Problem)) := do
  match ← asking.appliesTo rule element with
  | .error failure => pure (.error failure)
  | .ok false => pure (.ok [])
  | .ok true =>
    let resolution := resolve options suppressions path rule.name element.path
    if resolution.enabled then
      match ← asking.check rule element with
      | .error failure => pure (.error failure)
      | .ok problems => pure (.ok (problems.map (stamp rule resolution.category element)))
    else pure (.ok [])

/-- Goes through pairs up to the first failure, and gives the problems found and the
failure met. -/
def judgeAllM (asking : Asking m) (options : Options) (suppressions : Suppressions)
    (path : String) : List (Schema.Element × Rule) → m (List Problem × List RuleFailure)
  | [] => pure ([], [])
  | (element, rule) :: rest => do
    match ← judgeM asking options suppressions path element rule with
    | .error failure => pure ([], [⟨rule.name, element.ref, failure.message⟩])
    | .ok problems =>
      let (more, failures) ← judgeAllM asking options suppressions path rest
      pure (problems ++ more, failures)

/-- Shows the elements of one file to the rules. -/
def lintFileM (asking : Asking m) (options : Options) (rules : List Rule)
    (suppressions : Suppressions) (file : Schema.File) : m Response := do
  let (problems, failures) ←
    judgeAllM asking options suppressions file.name (pairs rules file.visit)
  pure ⟨file.name, problems, failures⟩

/-- The directives of a list of files. -/
def readSuppressions : List Schema.File → Except SuppressionError (List Suppressions)
  | [] => .ok []
  | file :: rest =>
    match Suppressions.ofFile file with
    | .error fault => .error fault
    | .ok suppressions =>
      match readSuppressions rest with
      | .error fault => .error fault
      | .ok more => .ok (suppressions :: more)

/-- The directives that a run obeys.  Comments are not read at all when directives are
ignored. -/
def directivesOf (ignore : Bool) (files : List Schema.File) :
    Except SuppressionError (List Suppressions) :=
  if ignore then .ok (files.map fun _ => .none) else readSuppressions files

/-- Lints files, one after the other or on a pool. -/
def runM (asking : Asking m) (pool : Pool m) (options : Options) (registry : Registry)
    (files : List Schema.File) : m (Except SuppressionError (List Response)) :=
  match directivesOf options.ignoreDirectives files with
  | .error fault => pure (.error fault)
  | .ok suppressions =>
    let lint := fun (work : Schema.File × Suppressions) =>
      lintFileM asking options registry.rules work.2 work.1
    let work := files.zip suppressions
    .ok <$> if options.parallel then pool.collect lint work else work.mapM lint

end Steps

/-- What one rule finds on one element of the file at `path`. -/
def judge (options : Options) (suppressions : Suppressions) (path : String)
    (element : Schema.Element) (rule : Rule) : Except Failure (List Problem) :=
  (judgeM .direct options suppressions path element rule).run

/-- What is found on pairs up to the first failure. -/
def judgeAll (options : Options) (suppressions : Suppressions) (path : String)
    (shown : List (Schema.Element × Rule)) : List Problem × List RuleFailure :=
  (judgeAllM .direct options suppressions path shown).run

/-- What the rules find in one file. -/
def lintFile (options : Options) (rules : List Rule) (suppressions : Suppressions)
    (file : Schema.File) : Response :=
  (lintFileM .direct options rules suppressions file).run

/-- What the rules find in a list of files. -/
def run (options : Options) (registry : Registry) (files : List Schema.File) :
    Except SuppressionError (List Response) :=
  (runM .direct .tasks options registry files).run

/-!
## The steps with the rules' own answers
-/

section Direct

variable {options : Options} {suppressions : Suppressions} {path : String}

/-- A rule that applies is asked what it finds only where it is switched on. -/
theorem judge_eq (element : Schema.Element) (rule : Rule) :
    judge options suppressions path element rule =
      (rule.appliesTo element).bind fun applies =>
        let resolution := resolve options suppressions path rule.name element.path
        if applies && resolution.enabled then
          (rule.check element).map fun problems =>
            problems.map (stamp rule resolution.category element)
        else .ok [] := by
  simp only [judge, judgeM, Asking.direct, pure_bind]
  cases rule.appliesTo element with
  | error failure => rfl
  | ok applies =>
      cases applies with
      | false => rfl
      | true =>
          cases henabled : (resolve options suppressions path rule.name element.path).enabled with
          | false => simp [Except.bind]
          | true => cases rule.check element <;> simp [Except.bind, Except.map]

@[simp]
theorem judgeAll_nil : judgeAll options suppressions path [] = ([], []) := rfl

theorem judgeAll_cons_of_error {pair : Schema.Element × Rule} {failure : Failure}
    (h : judge options suppressions path pair.1 pair.2 = .error failure)
    (rest : List (Schema.Element × Rule)) :
    judgeAll options suppressions path (pair :: rest) =
      ([], [⟨pair.2.name, pair.1.ref, failure.message⟩]) := by
  rw [judge] at h
  rw [judgeAll, judgeAllM, Id.run_bind, h]
  rfl

theorem judgeAll_cons_of_ok {pair : Schema.Element × Rule} {problems : List Problem}
    (h : judge options suppressions path pair.1 pair.2 = .ok problems)
    (rest : List (Schema.Element × Rule)) :
    judgeAll options suppressions path (pair :: rest) =
      (problems ++ (judgeAll options suppressions path rest).1,
        (judgeAll options suppressions path rest).2) := by
  rw [judge] at h
  rw [judgeAll, judgeAllM, Id.run_bind, h]
  rfl

theorem lintFile_eq (rules : List Rule) (file : Schema.File) :
    lintFile options rules suppressions file =
      { filePath := file.name
        problems := (judgeAll options suppressions file.name (pairs rules file.visit)).1
        failures := (judgeAll options suppressions file.name (pairs rules file.visit)).2 } :=
  rfl

end Direct

/-- Files and directives are handed out in pairs. -/
theorem zipWith_lintFile (options : Options) (rules : List Rule) (suppressions : List Suppressions)
    (files : List Schema.File) :
    List.zipWith (lintFile options rules) suppressions files =
      (files.zip suppressions).map fun work => lintFile options rules work.2 work.1 := by
  rw [List.map_zip_eq_zipWith, List.zipWith_comm]
  rfl

/-- Whatever pool is used, files are linted one by one with the directives read before. -/
theorem runM_direct (pool : Pool Id) (options : Options) (registry : Registry)
    (files : List Schema.File) :
    (runM .direct pool options registry files).run =
      (directivesOf options.ignoreDirectives files).map fun suppressions =>
        List.zipWith (lintFile options registry.rules) suppressions files := by
  rw [runM]
  cases directivesOf options.ignoreDirectives files with
  | error fault => rfl
  | ok suppressions =>
      simp only [Id.run_map, Except.map, Except.ok.injEq, zipWith_lintFile]
      split
      · exact pool.collect_eq_map _ _
      · exact List.idRun_mapM

/-- A run reads directives first, and then lints file by file. -/
theorem run_eq_zipWith (options : Options) (registry : Registry) (files : List Schema.File) :
    run options registry files =
      (directivesOf options.ignoreDirectives files).map fun suppressions =>
        List.zipWith (lintFile options registry.rules) suppressions files :=
  runM_direct .tasks options registry files

end Lint

end SchemaLint
