import SchemaLint.Proofs.DisabledRules

namespace SchemaLint

namespace Lint

/-!
# One more rule

Two visits of one file are compared again, now with and without a rule that never fails
on the file.  The larger visit meets more pairs, and the findings of these pairs stand
scattered among the others.  Each of them carries the name of the added rule, and no
other finding does, so dropping that name gives the findings of the smaller visit in
their order.  A pair that ends one visit is met by both, so both end at the same pair.

The added rule may be registered anywhere among the others.  What it reports itself is
not described here.
-/

/-- The rule answers both of its questions about every element of the file that it is
shown. -/
def NeverFails (rule : Rule) (file : Schema.File) : Prop :=
  ∀ element ∈ file.visit, rule.kind.accepts element.kind = true →
    (∃ applies, rule.appliesTo element = .ok applies) ∧
      ∃ problems, rule.check element = .ok problems

section Visit

variable {options : Options} {suppressions : Suppressions} {path : String}

/-- Whatever a pair adds to the problems of a file carries the name of its rule. -/
theorem rule_of_mem_findings {pair : Schema.Element × Rule} {problem : Problem}
    (h : problem ∈ if Active options suppressions path pair
      then findings options suppressions path pair else []) : problem.rule = pair.2.name := by
  by_cases hactive : Active options suppressions path pair
  · rw [if_pos hactive, findings] at h
    split at h
    · simp at h
    · obtain ⟨found, -, rfl⟩ := List.mem_map.1 h
      rfl
  · rw [if_neg hactive] at h
    simp at h

/-- Pairs that do not end the visit and whose findings carry one name can be left out, if
that name is dropped from what is reported. -/
theorem judgeAll_of_thinned_named {dropped : Schema.Element × Rule → Prop} {name : String}
    {shown thin : List (Schema.Element × Rule)} (hthin : Thinned dropped shown thin)
    (hname : ∀ pair, dropped pair → pair.2.name = name)
    (hgoes : ∀ pair ∈ shown, dropped pair → ∀ failure,
      ¬ StopsWith options suppressions path pair failure)
    (hothers : ∀ pair ∈ thin, pair.2.name ≠ name) :
    ((judgeAll options suppressions path shown).1.filter fun problem => problem.rule ≠ name) =
        (judgeAll options suppressions path thin).1 ∧
      (judgeAll options suppressions path shown).2 =
        (judgeAll options suppressions path thin).2 := by
  induction hthin with
  | nil => exact ⟨rfl, rfl⟩
  | @keep pair shown thin _ ih =>
      obtain ⟨hother, hothers⟩ := List.forall_mem_cons.1 hothers
      obtain ⟨-, hgoes⟩ := List.forall_mem_cons.1 hgoes
      obtain ⟨hproblems, hfailures⟩ := ih hgoes hothers
      by_cases hstops : ∃ failure, StopsWith options suppressions path pair failure
      · -- Both visits end here, whatever stands behind the pair.
        obtain ⟨failure, hstops⟩ := hstops
        rw [judgeAll_cons_of_stops hstops, judgeAll_cons_of_stops hstops]
        exact ⟨rfl, rfl⟩
      · have hpair := not_exists.1 hstops
        -- The pair belongs to another rule, so nothing it adds is dropped.
        have hkept : ((if Active options suppressions path pair
              then findings options suppressions path pair else []).filter
                fun problem => problem.rule ≠ name) =
            if Active options suppressions path pair
              then findings options suppressions path pair else [] := by
          rw [List.filter_eq_self]
          intro problem hmem
          rw [rule_of_mem_findings hmem]
          exact decide_eq_true hother
        rw [judgeAll_cons_of_not_stops hpair, judgeAll_cons_of_not_stops hpair]
        refine ⟨?_, hfailures⟩
        rw [List.filter_append, hkept, hproblems]
  | @drop pair shown thin hdropped _ ih =>
      obtain ⟨hpair, hgoes⟩ := List.forall_mem_cons.1 hgoes
      obtain ⟨hproblems, hfailures⟩ := ih hgoes hothers
      have hgone : ((if Active options suppressions path pair
            then findings options suppressions path pair else []).filter
              fun problem => problem.rule ≠ name) = [] := by
        rw [List.filter_eq_nil_iff]
        intro problem hmem
        simp [rule_of_mem_findings hmem, hname pair hdropped]
      rw [judgeAll_cons_of_not_stops (hpair hdropped)]
      refine ⟨?_, hfailures⟩
      rw [List.filter_append, hgone, List.nil_append, hproblems]

theorem NeverFails.not_stops {rule : Rule} {file : Schema.File} (h : NeverFails rule file)
    {element : Schema.Element} (hvisited : element ∈ file.visit)
    (hshown : rule.kind.accepts element.kind = true) (failure : Failure) :
    ¬ StopsWith options suppressions path (element, rule) failure := by
  obtain ⟨⟨applies, happlies⟩, problems, hcheck⟩ := h element hvisited hshown
  intro hstops
  cases hstops with
  | appliesTo hfails => simp [happlies] at hfails
  | check _ hfails => simp [hcheck] at hfails

end Visit

/-- With one more rule that never fails on the file, a visit reports what it reported before,
apart from problems with the name of that rule. -/
theorem lintFile_insert {before after : List Rule} {rule : Rule} {file : Schema.File}
    (hnew : ∀ other ∈ before ++ after, other.name ≠ rule.name) (hquiet : NeverFails rule file)
    (options : Options) (suppressions : Suppressions) :
    ((lintFile options (before ++ rule :: after) suppressions file).problems.filter
        fun problem => problem.rule ≠ rule.name) =
        (lintFile options (before ++ after) suppressions file).problems ∧
      (lintFile options (before ++ rule :: after) suppressions file).failures =
        (lintFile options (before ++ after) suppressions file).failures := by
  refine judgeAll_of_thinned_named (pairs_thinned before after rule file.visit) ?_ ?_ ?_
  · rintro pair rfl
    rfl
  · rintro ⟨element, _⟩ hmem rfl failure
    obtain ⟨hvisited, -, hshown⟩ := mem_pairs_iff.1 hmem
    exact hquiet.not_stops hvisited hshown failure
  · intro pair hmem
    obtain ⟨-, hrule, -⟩ := mem_pairs_iff.1 hmem
    exact hnew pair.2 hrule

end Lint

namespace Registry

/-- A rule with a valid name that is new up to case has a place anywhere among the rules of a
registry. -/
theorem Sound.exists_ofList_insert {registry : Registry} (h : Sound registry)
    {before after : List Rule} {rule : Rule} (hrules : registry.rules = before ++ after)
    (hvalid : RuleName.check rule.name = .ok ())
    (hnew : ∀ registered ∈ registry.rules, fold registered.name ≠ fold rule.name) :
    ∃ enlarged, ofList (before ++ rule :: after) = .ok enlarged ∧
      enlarged.rules = before ++ rule :: after := by
  have hdistinct := h.folds_distinct
  have hnames := h.valid
  rw [hrules] at hdistinct hnew hnames
  refine exists_ofList ?_ ((List.pairwise_middle Ne.symm).2 (List.pairwise_cons.2
    ⟨fun registered hmem => (hnew registered hmem).symm, hdistinct⟩))
  intro registered hmem
  rcases List.mem_append.1 hmem with hbefore | hbehind
  · exact hnames registered (List.mem_append_left _ hbefore)
  · rcases List.mem_cons.1 hbehind with rfl | hafter
    · exact hvalid
    · exact hnames registered (List.mem_append_right _ hafter)

end Registry

namespace Lint

/-- Rules do not touch each other's findings.  Take a registry after any history of calls, and
a rule with a valid name that is new to it.  The rule can be registered at every place among
the others, and on every file on which it never fails the larger registry reports the
problems of the smaller one, in their order, and besides them only problems with the new
name; the failures are the same, also where one of the other rules fails. -/
theorem lintFile_added_rule (calls : List Registry.Call) (rule : Rule) (before after : List Rule)
    (hrules : (calls.foldl Registry.perform .empty).rules = before ++ after)
    (hvalid : RuleName.check rule.name = .ok ())
    (hnew : ∀ registered ∈ (calls.foldl Registry.perform .empty).rules,
      Registry.fold registered.name ≠ Registry.fold rule.name) :
    ∃ enlarged, Registry.ofList (before ++ rule :: after) = .ok enlarged ∧
      enlarged.rules = before ++ rule :: after ∧
      ∀ (options : Options) (suppressions : Suppressions) (file : Schema.File),
        NeverFails rule file →
          ((lintFile options enlarged.rules suppressions file).problems.filter
              fun problem => problem.rule ≠ rule.name) =
              (lintFile options (calls.foldl Registry.perform .empty).rules suppressions
                file).problems ∧
            (lintFile options enlarged.rules suppressions file).failures =
              (lintFile options (calls.foldl Registry.perform .empty).rules suppressions
                file).failures := by
  have hsound := Registry.sound_empty.history calls
  obtain ⟨enlarged, henlarged, hall⟩ := hsound.exists_ofList_insert hrules hvalid hnew
  refine ⟨enlarged, henlarged, hall, fun options suppressions file hquiet => ?_⟩
  rw [hrules] at hnew ⊢
  rw [hall]
  refine lintFile_insert (fun other hmem hname => ?_) hquiet options suppressions
  exact hnew other hmem (congrArg Registry.fold hname)

/-- A rule about every element that finds something in each. -/
def notedRule : Rule where
  name := "core::0141::noted"
  kind := .generic
  check element := .ok [{ message := "Noted.", element := element.ref }]

/-- The added rule stands in front of one that ends the visit, and behind one that does not. -/
theorem lintFile_added_notedRule :
    let registry := [Registry.Call.registerAll [seenRule, brokenRule]].foldl
      Registry.perform .empty
    registry.rules = [seenRule] ++ [brokenRule] ∧
      NeverFails notedRule bookSample ∧
      ∃ enlarged, Registry.ofList ([seenRule] ++ notedRule :: [brokenRule]) = .ok enlarged ∧
        ((lintFile {} enlarged.rules .none bookSample).problems.filter
            fun problem => problem.rule ≠ notedRule.name) =
            (lintFile {} registry.rules .none bookSample).problems ∧
          (lintFile {} enlarged.rules .none bookSample).failures =
            (lintFile {} registry.rules .none bookSample).failures ∧
          (lintFile {} registry.rules .none bookSample).problems.length = 1 ∧
          (lintFile {} registry.rules .none bookSample).failures.length = 1 := by
  intro registry
  have hrules : registry.rules = [seenRule] ++ [brokenRule] := by
    obtain ⟨larger, hlarger, hrules⟩ : ∃ larger,
        Registry.empty.registerAll [seenRule, brokenRule] = (larger, none) ∧
          larger.rules = Registry.empty.rules ++ [seenRule, brokenRule] :=
      Registry.sound_empty.exists_registerAll (by decide +kernel) (by decide +kernel)
    have hperform : registry = (Registry.empty.registerAll [seenRule, brokenRule]).1 := rfl
    rw [hperform, hlarger, hrules]
    rfl
  have hquiet : NeverFails notedRule bookSample :=
    fun _ _ _ => ⟨⟨true, rfl⟩, _, rfl⟩
  obtain ⟨enlarged, henlarged, -, hsame⟩ :=
    lintFile_added_rule [.registerAll [seenRule, brokenRule]] notedRule [seenRule] [brokenRule]
      hrules (by decide +kernel) (by rw [hrules]; decide +kernel)
  obtain ⟨hproblems, hfailures⟩ := hsame {} .none bookSample hquiet
  refine ⟨hrules, hquiet, enlarged, henlarged, hproblems, hfailures, ?_, ?_⟩
  · rw [hrules]
    decide +kernel
  · rw [hrules]
    decide +kernel

end Lint

end SchemaLint
