import SchemaLint.Proofs.FirstFailure
import SchemaLint.Proofs.RegistryHistory

namespace SchemaLint

namespace Lint

/-!
# Rules that are switched off

Two visits of one file are compared, with a rule that the layers switch off for the
file and without that rule.  A rule that is switched off is never asked for problems,
so nothing it would find and no failure of its check can be seen.

It is still asked whether it applies.  When that question fails the visit ends there,
as it does for every rule, and what stands behind is hidden.  The two visits agree if it
does not come to this, and if it does they differ.
-/

/-- The second list is the first with some members left out, all of which are `dropped`. -/
inductive Thinned {α : Type} (dropped : α → Prop) : List α → List α → Prop where
  | nil : Thinned dropped [] []
  | keep (member : α) {list thin : List α} (h : Thinned dropped list thin) :
      Thinned dropped (member :: list) (member :: thin)
  | drop {member : α} {list thin : List α} (hdropped : dropped member)
      (h : Thinned dropped list thin) : Thinned dropped (member :: list) thin

namespace Thinned

variable {α : Type} {dropped : α → Prop}

theorem refl (list : List α) : Thinned dropped list list := by
  induction list with
  | nil => exact .nil
  | cons member rest ih => exact .keep member ih

theorem append {first second thinFirst thinSecond : List α}
    (hfirst : Thinned dropped first thinFirst) (hsecond : Thinned dropped second thinSecond) :
    Thinned dropped (first ++ second) (thinFirst ++ thinSecond) := by
  induction hfirst with
  | nil => exact hsecond
  | keep member _ ih => exact .keep member ih
  | drop hdropped _ ih => exact .drop hdropped ih

end Thinned

/-- Without one of the rules, exactly pairs of that rule are missing. -/
theorem pairs_thinned (before after : List Rule) (rule : Rule) (elements : List Schema.Element) :
    Thinned (fun pair => pair.2 = rule) (pairs (before ++ rule :: after) elements)
      (pairs (before ++ after) elements) := by
  induction elements with
  | nil => exact .nil
  | cons element rest ih =>
      simp only [pairs, List.flatMap_cons] at ih ⊢
      refine Thinned.append ?_ ih
      rw [List.filter_append, List.filter_append, List.map_append, List.map_append]
      refine Thinned.append (.refl _) ?_
      rw [List.filter_cons]
      split
      · exact .drop rfl (.refl _)
      · exact .refl _

section Visit

variable {options : Options} {suppressions : Suppressions} {path : String}

/-- Leaving inactive pairs out changes nothing, unless one of them ends the visit.  Then it
does so because its rule fails to say whether it applies, and what was found up to there is
found without the pair as well. -/
theorem judgeAll_of_thinned {dropped : Schema.Element × Rule → Prop}
    {shown thin : List (Schema.Element × Rule)} (hthin : Thinned dropped shown thin)
    (hinactive : ∀ pair, dropped pair → ¬ Active options suppressions path pair) :
    judgeAll options suppressions path shown = judgeAll options suppressions path thin ∨
      ∃ earlier pair later failure, shown = earlier ++ pair :: later ∧ dropped pair ∧
        (∀ other ∈ earlier, ∀ failure, ¬ StopsWith options suppressions path other failure) ∧
        pair.2.appliesTo pair.1 = .error failure ∧
        (judgeAll options suppressions path shown).1 <+:
          (judgeAll options suppressions path thin).1 := by
  induction hthin with
  | nil => exact .inl rfl
  | @keep pair shown thin _ ih =>
      -- A pair that both visits meet ends both of them or neither.
      by_cases hstops : ∃ failure, StopsWith options suppressions path pair failure
      · obtain ⟨failure, hstops⟩ := hstops
        left
        rw [judgeAll_cons_of_stops hstops, judgeAll_cons_of_stops hstops]
      · have hgoes := not_exists.1 hstops
        rw [judgeAll_cons_of_not_stops hgoes, judgeAll_cons_of_not_stops hgoes]
        rcases ih with hsame | ⟨earlier, culprit, later, failure, rfl, hrest⟩
        · left
          rw [hsame]
        · obtain ⟨hdropped, hearlier, happlies, hproblems⟩ := hrest
          exact .inr ⟨pair :: earlier, culprit, later, failure, rfl, hdropped,
            List.forall_mem_cons.2 ⟨hgoes, hearlier⟩, happlies,
            (List.prefix_append_right_inj _).2 hproblems⟩
  | @drop pair shown thin hdropped _ ih =>
      -- A pair that only the first visit meets is inactive, so its check is out of reach.
      by_cases hstops : ∃ failure, StopsWith options suppressions path pair failure
      · obtain ⟨failure, hstops⟩ := hstops
        cases hstops with
        | check hactive hcheck => exact absurd hactive (hinactive pair hdropped)
        | appliesTo happlies =>
            rw [judgeAll_cons_of_stops (.appliesTo happlies)]
            exact .inr ⟨[], pair, shown, failure, rfl, hdropped, by simp, happlies,
              List.nil_prefix⟩
      · have hgoes := not_exists.1 hstops
        rw [judgeAll_cons_of_not_stops hgoes, if_neg (hinactive pair hdropped),
          List.nil_append]
        rcases ih with hsame | ⟨earlier, culprit, later, failure, rfl, hrest⟩
        · exact .inl hsame
        · obtain ⟨hculprit, hearlier, hfound⟩ := hrest
          exact .inr ⟨pair :: earlier, culprit, later, failure, rfl, hculprit,
            List.forall_mem_cons.2 ⟨hgoes, hearlier⟩, hfound⟩

/-- What the layers switch off is active nowhere in the file. -/
theorem not_active_of_disabled {pair : Schema.Element × Rule}
    (hdisabled : (Config.configured options.layers path pair.2.name).enabled = false) :
    ¬ Active options suppressions path pair := by
  rintro ⟨-, henabled⟩
  rw [resolve] at henabled
  split at henabled
  · simp at henabled
  · simp [hdisabled] at henabled

end Visit

/-- The visit of the file gets past the pairs in `earlier` to the element, and there the rule
fails to say whether it applies. -/
structure Undecided (options : Options) (suppressions : Suppressions) (rules : List Rule)
    (file : Schema.File) (rule : Rule) (earlier : List (Schema.Element × Rule))
    (element : Schema.Element) (failure : Failure) : Prop where
  shown : ∃ later, shownPairs rules file.visit = earlier ++ (element, rule) :: later
  reached : ∀ pair ∈ earlier, ∀ failure,
    ¬ StopsWith options suppressions file.name pair failure
  undecided : rule.appliesTo element = .error failure

section Disabled

variable {options : Options} {suppressions : Suppressions} {file : Schema.File} {rule : Rule}

/-- With the rule that is switched off a visit is the same as without it, or it ends at the
rule with an initial part of the problems found without it. -/
theorem lintFile_disabled_cases
    (hdisabled : (Config.configured options.layers file.name rule.name).enabled = false)
    (suppressions : Suppressions) (before after : List Rule) :
    lintFile options (before ++ rule :: after) suppressions file =
        lintFile options (before ++ after) suppressions file ∨
      (∃ earlier element failure,
        Undecided options suppressions (before ++ rule :: after) file rule earlier element
          failure) ∧
      (lintFile options (before ++ rule :: after) suppressions file).problems <+:
        (lintFile options (before ++ after) suppressions file).problems := by
  have hinactive : ∀ pair : Schema.Element × Rule, pair.2 = rule →
      ¬ Active options suppressions file.name pair := by
    rintro pair rfl
    exact not_active_of_disabled hdisabled
  rcases judgeAll_of_thinned (pairs_thinned before after rule file.visit) hinactive with
    hsame | ⟨earlier, ⟨element, _⟩, later, failure, hsplit, rfl, hearlier, happlies, hproblems⟩
  · left
    rw [lintFile_eq, lintFile_eq, hsame]
  · rw [pairs_eq_shownPairs] at hsplit
    exact .inr ⟨⟨earlier, element, failure, ⟨later, hsplit⟩, hearlier, happlies⟩, hproblems⟩

theorem Undecided.lintFile_eq {rules : List Rule} {earlier : List (Schema.Element × Rule)}
    {element : Schema.Element} {failure : Failure}
    (h : Undecided options suppressions rules file rule earlier element failure) :
    lintFile options rules suppressions file =
      { filePath := file.name
        problems :=
          (earlier.filter fun pair => Active options suppressions file.name pair).flatMap
            (findings options suppressions file.name)
        failures := [⟨rule.name, element.ref, failure.message⟩] } := by
  obtain ⟨later, hshown⟩ := h.shown
  exact lintFile_of_stops hshown h.reached (.appliesTo h.undecided)

/-- Failures are reported in the name of a rule of the visit. -/
theorem exists_rule_of_mem_failures {rules : List Rule} {report : RuleFailure}
    (h : report ∈ (lintFile options rules suppressions file).failures) :
    ∃ rule ∈ rules, rule.name = report.rule := by
  obtain ⟨before, after, hshown, hgoes, hend⟩ :=
    exists_cut options suppressions file.name (shownPairs rules file.visit)
  rcases hend with rfl | ⟨pair, rest, failure, rfl, hstops⟩
  · rw [List.append_nil] at hshown
    simp [lintFile_of_not_stops (hshown ▸ hgoes)] at h
  · rw [lintFile_of_stops hshown hgoes hstops, List.mem_singleton] at h
    have hpair : pair ∈ shownPairs rules file.visit := by simp [hshown]
    exact ⟨pair.2, (mem_shownPairs_iff.1 hpair).2.1, h ▸ rfl⟩

end Disabled

/-- A rule that the layers switch off for a file can be left out without a difference, as long
as the visit does not get to an element on which the rule fails to say whether it applies.

A visit that gets to such an element ends there: the response reports this failure and
nothing behind it, its problems are those of the active pairs in front and an initial part
of the problems found without the rule.  The two responses then differ, for without the rule
no failure bears its name. -/
theorem lintFile_without_disabled (options : Options) (registry : Registry)
    (suppressions : Suppressions) (file : Schema.File) (before after : List Rule) (rule : Rule)
    (hrules : registry.rules = before ++ rule :: after)
    (hdisabled : (Config.configured options.layers file.name rule.name).enabled = false) :
    ((∀ earlier element failure,
        ¬ Undecided options suppressions registry.rules file rule earlier element failure) →
      lintFile options registry.rules suppressions file =
        lintFile options (before ++ after) suppressions file) ∧
    ∀ earlier element failure,
      Undecided options suppressions registry.rules file rule earlier element failure →
        lintFile options registry.rules suppressions file =
          { filePath := file.name
            problems :=
              (earlier.filter fun pair => Active options suppressions file.name pair).flatMap
                (findings options suppressions file.name)
            failures := [⟨rule.name, element.ref, failure.message⟩] } ∧
        (lintFile options registry.rules suppressions file).problems <+:
          (lintFile options (before ++ after) suppressions file).problems ∧
        ((∀ other ∈ before ++ after, other.name ≠ rule.name) →
          lintFile options registry.rules suppressions file ≠
            lintFile options (before ++ after) suppressions file) := by
  rw [hrules]
  have hcases := lintFile_disabled_cases hdisabled suppressions before after
  refine ⟨fun hdecided => ?_, fun earlier element failure hundecided => ⟨hundecided.lintFile_eq,
    ?_, fun hnames hsame => ?_⟩⟩
  · rcases hcases with hsame | ⟨⟨earlier, element, failure, hundecided⟩, -⟩
    · exact hsame
    · exact absurd hundecided (hdecided earlier element failure)
  · rcases hcases with hsame | ⟨-, hproblems⟩
    · exact hsame ▸ List.prefix_rfl
    · exact hproblems
  · have hreport : (⟨rule.name, element.ref, failure.message⟩ : RuleFailure) ∈
        (lintFile options (before ++ after) suppressions file).failures := by
      rw [← hsame, hundecided.lintFile_eq]
      exact List.mem_singleton_self _
    obtain ⟨other, hother, hname⟩ := exists_rule_of_mem_failures hreport
    exact hnames other hother hname

/-!
## Two rules beside a third

The first of the samples fails when it is asked for problems, the second when it is
asked whether it applies.
-/

/-- A file with one message. -/
def bookSample : Schema.File where
  name := "books.proto"
  messages := [.mk "Book" [] [] [] false]

/-- One layer, which switches `core::0135` off everywhere. -/
def silencing : Options where
  layers := [{
    included := []
    excluded := []
    settings := .ofList [("core::0135", { status := some .disabled })] }]

/-- A rule about messages that finds something in each of them. -/
def seenRule : Rule where
  name := "core::0140::seen"
  kind := .only .message
  check element := .ok [{ message := "Seen.", element := element.ref }]

/-- A rule that fails when it is asked for problems. -/
def brokenRule : Rule where
  name := "core::0135::broken"
  kind := .only .message
  check _ := .error .undescribed

/-- A rule that fails when it is asked whether it applies. -/
def undecidedRule : Rule where
  name := "core::0135::undecided"
  kind := .only .message
  appliesTo element := .error (.described ("cannot judge " ++ element.name))
  check _ := .ok []

/-- A file with two messages. -/
def shelfSample : Schema.File where
  name := "shelves.proto"
  messages := [.mk "Book" [] [] [] false, .mk "Shelf" [] [] [] false]

/-- The first message of the file. -/
def shelvedBook : Schema.Element :=
  shelfSample.root.held 4 0 (.message (.mk "Book" [] [] [] false))

theorem undecided_shelvedBook :
    Undecided silencing .none [seenRule, undecidedRule] shelfSample undecidedRule
      [(shelvedBook, seenRule)] shelvedBook (.described "cannot judge Book") where
  shown := ⟨_, rfl⟩
  reached := by
    intro pair hpair failure hstops
    obtain rfl := List.mem_singleton.1 hpair
    cases hstops with
    | appliesTo happlies => cases happlies
    | check _ hcheck => cases hcheck
  undecided := by decide +kernel

/-- The rule that fails to look for problems is not noticed once it is switched off.  The one
that fails to say whether it applies is: of two messages with a finding each, the first
finding is reported and the second is not. -/
theorem lintFile_without_silenced :
    (∃ registry, Registry.ofList [brokenRule, seenRule] = .ok registry ∧
      registry.rules = [] ++ brokenRule :: [seenRule] ∧
      (Config.configured silencing.layers bookSample.name brokenRule.name).enabled = false ∧
      (∀ earlier element failure,
        ¬ Undecided silencing .none registry.rules bookSample brokenRule earlier element failure) ∧
      lintFile silencing registry.rules .none bookSample =
        lintFile silencing ([] ++ [seenRule]) .none bookSample) ∧
    ∃ registry, Registry.ofList [seenRule, undecidedRule] = .ok registry ∧
      registry.rules = [seenRule] ++ undecidedRule :: [] ∧
      (Config.configured silencing.layers shelfSample.name undecidedRule.name).enabled = false ∧
      (lintFile silencing registry.rules .none shelfSample).failures =
        [⟨"core::0135::undecided", shelvedBook.ref, "cannot judge Book"⟩] ∧
      (lintFile silencing registry.rules .none shelfSample).problems.map (·.element.path) =
        [[4, 0]] ∧
      (lintFile silencing ([seenRule] ++ []) .none shelfSample).problems.map (·.element.path) =
        [[4, 0], [4, 1]] ∧
      (lintFile silencing registry.rules .none shelfSample).problems <+:
        (lintFile silencing ([seenRule] ++ []) .none shelfSample).problems ∧
      lintFile silencing registry.rules .none shelfSample ≠
        lintFile silencing ([seenRule] ++ []) .none shelfSample := by
  constructor
  · obtain ⟨registry, hregistry, hrules⟩ : ∃ registry,
        Registry.ofList [brokenRule, seenRule] = .ok registry ∧
          registry.rules = [brokenRule, seenRule] :=
      Registry.exists_ofList (by decide +kernel) (by decide +kernel)
    have hdisabled :
        (Config.configured silencing.layers bookSample.name brokenRule.name).enabled = false := by
      decide +kernel
    have hdecided : ∀ earlier element failure,
        ¬ Undecided silencing .none registry.rules bookSample brokenRule earlier element
          failure := by
      intro earlier element failure h
      cases h.undecided
    exact ⟨registry, hregistry, hrules, hdisabled, hdecided,
      (lintFile_without_disabled silencing registry .none bookSample [] [seenRule] brokenRule
        hrules hdisabled).1 hdecided⟩
  · obtain ⟨registry, hregistry, hrules⟩ : ∃ registry,
        Registry.ofList [seenRule, undecidedRule] = .ok registry ∧
          registry.rules = [seenRule, undecidedRule] :=
      Registry.exists_ofList (by decide +kernel) (by decide +kernel)
    have hdisabled : (Config.configured silencing.layers shelfSample.name
        undecidedRule.name).enabled = false := by decide +kernel
    obtain ⟨-, hundecided⟩ := lintFile_without_disabled silencing registry .none shelfSample
      [seenRule] [] undecidedRule hrules hdisabled
    obtain ⟨hresponse, hproblems, hdiffers⟩ :=
      hundecided _ _ _ (hrules ▸ undecided_shelvedBook)
    refine ⟨registry, hregistry, hrules, hdisabled, ?_, ?_, ?_, hproblems,
      hdiffers (by decide +kernel)⟩
    · rw [hresponse]
      rfl
    · rw [hresponse]
      decide +kernel
    · decide +kernel

/-- The rule that cannot say whether it applies ends the visit although it is switched off,
and hides what the other rule finds. -/
theorem disabled_rule_can_end_visit :
    ∃ registry, Registry.ofList [undecidedRule, seenRule] = .ok registry ∧
      registry.rules = [] ++ undecidedRule :: [seenRule] ∧
      (Config.configured silencing.layers bookSample.name undecidedRule.name).enabled = false ∧
      lintFile silencing registry.rules .none bookSample ≠
        lintFile silencing ([] ++ [seenRule]) .none bookSample := by
  obtain ⟨registry, hregistry, hrules⟩ : ∃ registry,
      Registry.ofList [undecidedRule, seenRule] = .ok registry ∧
        registry.rules = [undecidedRule, seenRule] :=
    Registry.exists_ofList (by decide +kernel) (by decide +kernel)
  refine ⟨registry, hregistry, hrules, by decide +kernel, ?_⟩
  intro hsame
  have hproblems := congrArg (·.problems.length) hsame
  rw [hrules] at hproblems
  revert hproblems
  decide +kernel

end Lint

end SchemaLint
