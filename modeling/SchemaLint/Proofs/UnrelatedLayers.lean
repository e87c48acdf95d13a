import SchemaLint.Proofs.AddedRule
import SchemaLint.Proofs.LastWriter

namespace SchemaLint

/-!
# Layers that make no difference

Two runs over the same files with different layers are compared.  A layer that does not
speak about a file, or whose namespaces are around none of the rules, can be put anywhere
among the layers without a trace in the response to that file.  Layers that differ in
their categories only give the same failures and the same problems, apart from the
categories of the problems.

Both follow from the fact that a run looks at layers only through what they decide about
its rules: the status decides which problems there are, the category is only written on
them.
-/

namespace Config

/-!
## What is decided without a layer, and without categories
-/

/-- A layer that is silent about the rule in the file can be put anywhere. -/
theorem configured_insert {path rule : String} {layer : Layer}
    (hsilent : ∀ resolution, applyLayer path rule resolution layer = resolution)
    (before after : List Layer) :
    configured (before ++ layer :: after) path rule = configured (before ++ after) path rule := by
  rw [configured, configured, List.foldl_append, List.foldl_append, List.foldl_cons, hsilent]

theorem applyLayer_of_not_speaksAbout {path : String} {layer : Layer}
    (h : ¬ layer.SpeaksAbout path) (rule : String) (resolution : Resolution) :
    applyLayer path rule resolution layer = resolution := by
  rw [applyLayer, if_neg (mt Layer.appliesTo_iff.1 h)]

theorem applyLayer_of_not_around {rule : String} {layer : Layer}
    (h : ∀ entry ∈ layer.settings.entries, ¬ RuleName.Around entry.1 rule) (path : String)
    (resolution : Resolution) : applyLayer path rule resolution layer = resolution := by
  have hnone : layer.mostSpecific? rule = none := Layer.mostSpecific?_eq_none_iff.2 h
  rw [applyLayer, hnone, ite_self]

/-- The setting with its category left open. -/
def Setting.withoutCategory (setting : Setting) : Setting := { setting with category := none }

/-- The layer with all categories left open. -/
def Layer.withoutCategories (layer : Layer) : Layer where
  included := layer.included
  excluded := layer.excluded
  settings :=
    { entries := layer.settings.entries.map fun entry => (entry.1, entry.2.withoutCategory)
      ascending := by
        rw [Ascending, List.pairwise_map]
        exact layer.settings.ascending }

/-- The lists of layers are the same but for categories that are set, left open or
different. -/
def SameButCategories (left right : List Layer) : Prop :=
  left.map Layer.withoutCategories = right.map Layer.withoutCategories

theorem Layer.mostSpecific?_withoutCategories (layer : Layer) (rule : String) :
    layer.withoutCategories.mostSpecific? rule =
      (layer.mostSpecific? rule).map fun entry => (entry.1, entry.2.withoutCategory) := by
  cases hfound : layer.mostSpecific? rule with
  | none =>
      refine mostSpecific?_eq_none_iff.2 ?_
      intro entry hentry
      obtain ⟨original, horiginal, rfl⟩ := List.mem_map.1 hentry
      exact mostSpecific?_eq_none_iff.1 hfound original horiginal
  | some entry =>
      obtain ⟨hmem, haround, hlongest⟩ := mostSpecific?_eq_some_iff.1 hfound
      refine mostSpecific?_eq_some_iff.2 ⟨List.mem_map_of_mem hmem, haround, ?_⟩
      intro other hother
      obtain ⟨original, horiginal, rfl⟩ := List.mem_map.1 hother
      exact hlongest original horiginal

theorem Layer.set?_withoutCategories (layer : Layer) (path rule : String) :
    layer.withoutCategories.set? path rule (·.status) = layer.set? path rule (·.status) := by
  have happlies : layer.withoutCategories.appliesTo path = layer.appliesTo path := rfl
  rw [set?, set?, happlies, mostSpecific?_withoutCategories, Option.bind_map]
  rfl

theorem enabled_withoutCategories (layers : List Layer) (path rule : String) :
    (configured (layers.map Layer.withoutCategories) path rule).enabled =
      (configured layers path rule).enabled := by
  induction layers using List.reverseRecOn with
  | nil => rfl
  | append_singleton layers layer ih =>
      rw [List.map_append, List.map_singleton, configured_concat, configured_concat,
        enabled_applyLayer, enabled_applyLayer, Layer.set?_withoutCategories, ih]

theorem SameButCategories.enabled_eq {left right : List Layer} (h : SameButCategories left right)
    (path rule : String) :
    (configured left path rule).enabled = (configured right path rule).enabled := by
  rw [← enabled_withoutCategories left, ← enabled_withoutCategories right, h]

end Config

/-- The problems are the same, whatever their categories are. -/
def Problem.SameButCategory (left right : Problem) : Prop :=
  right = { left with category := right.category }

/-- The responses are the same but for the categories of their problems. -/
structure Response.SameButCategories (left right : Response) : Prop where
  filePath : right.filePath = left.filePath
  failures : right.failures = left.failures
  problems : List.Forall₂ Problem.SameButCategory left.problems right.problems

namespace Lint

/-!
## Two runs side by side
-/

/-- Two judgements fail alike, or give problems that are related one by one. -/
inductive Agree (related : Problem → Problem → Prop) :
    Except Failure (List Problem) → Except Failure (List Problem) → Prop where
  | failure (failure : Failure) : Agree related (.error failure) (.error failure)
  | problems {problems others : List Problem} (h : List.Forall₂ related problems others) :
      Agree related (.ok problems) (.ok others)

/-- The same options with other layers. -/
def Options.withLayers (options : Options) (layers : List Config.Layer) : Options :=
  { options with layers := layers }

section OtherLayers

variable {options : Options} {layers : List Config.Layer} {suppressions : Suppressions}
  {path : String} {related : Problem → Problem → Prop}

theorem enabled_resolve_withLayers {rule : String} {element : Schema.Path}
    (henabled : (Config.configured layers path rule).enabled =
      (Config.configured options.layers path rule).enabled) :
    (resolve (options.withLayers layers) suppressions path rule element).enabled =
      (resolve options suppressions path rule element).enabled := by
  have hflag : (options.withLayers layers).ignoreDirectives = options.ignoreDirectives := rfl
  rw [resolve, resolve, hflag]
  split
  · rfl
  · exact henabled

/-- Where a rule has the same status in both runs, its judgements agree as its problems do
with the two categories on them. -/
theorem judge_agree {element : Schema.Element} {rule : Rule}
    (henabled : (Config.configured layers path rule.name).enabled =
      (Config.configured options.layers path rule.name).enabled)
    (hstamp : ∀ problem, related
      (stamp rule (Config.configured options.layers path rule.name).category element problem)
      (stamp rule (Config.configured layers path rule.name).category element problem)) :
    Agree related (judge options suppressions path element rule)
      (judge (options.withLayers layers) suppressions path element rule) := by
  -- The rule is asked the same questions in both runs; only what is written on its problems
  -- can differ.
  simp only [judge_eq, enabled_resolve_withLayers henabled, category_resolve]
  cases rule.appliesTo element with
  | error failure => exact .failure failure
  | ok applies =>
      cases applies with
      | false => exact .problems .nil
      | true =>
          by_cases hon :
              (resolve options suppressions path rule.name element.path).enabled = true
          · simp only [Except.bind, hon, Bool.and_self, if_true]
            cases rule.check element with
            | error failure => exact .failure failure
            | ok problems =>
                refine .problems (List.forall₂_map_left_iff.2 (List.forall₂_map_right_iff.2 ?_))
                exact List.forall₂_same.2 fun problem _ => hstamp problem
          · simp only [Except.bind, hon, Bool.and_false]
            exact .problems .nil

/-- Visits whose judgements agree end at the same pair, with related problems. -/
theorem judgeAll_agree {changed : Options} {shown : List (Schema.Element × Rule)}
    (h : ∀ pair ∈ shown, Agree related (judge options suppressions path pair.1 pair.2)
      (judge changed suppressions path pair.1 pair.2)) :
    (judgeAll changed suppressions path shown).2 = (judgeAll options suppressions path shown).2 ∧
      List.Forall₂ related (judgeAll options suppressions path shown).1
        (judgeAll changed suppressions path shown).1 := by
  induction shown with
  | nil => exact ⟨rfl, .nil⟩
  | cons pair rest ih =>
      obtain ⟨hpair, hrest⟩ := List.forall_mem_cons.1 h
      obtain ⟨hfailures, hproblems⟩ := ih hrest
      generalize hjudged : judge options suppressions path pair.1 pair.2 = judged at hpair
      generalize hother : judge changed suppressions path pair.1 pair.2 = other at hpair
      cases hpair with
      | failure failure =>
          rw [judgeAll_cons_of_error hjudged, judgeAll_cons_of_error hother]
          exact ⟨rfl, .nil⟩
      | problems hfound =>
          rw [judgeAll_cons_of_ok hjudged, judgeAll_cons_of_ok hother]
          exact ⟨hfailures, List.rel_append hfound hproblems⟩

/-- Only what the layers decide about the rules in the file can be seen in a response. -/
theorem lintFile_of_configured_eq {rules : List Rule} {file : Schema.File}
    (hsame : ∀ rule ∈ rules, Config.configured layers file.name rule.name =
      Config.configured options.layers file.name rule.name) :
    lintFile (options.withLayers layers) rules suppressions file =
      lintFile options rules suppressions file := by
  have hagree : ∀ pair ∈ pairs rules file.visit,
      Agree Eq (judge options suppressions file.name pair.1 pair.2)
        (judge (options.withLayers layers) suppressions file.name pair.1 pair.2) := by
    intro pair hpair
    have hrule := hsame pair.2 (mem_pairs_iff.1 hpair).2.1
    exact judge_agree (by rw [hrule]) fun problem => by rw [hrule]
  obtain ⟨hfailures, hproblems⟩ := judgeAll_agree hagree
  -- Lists whose members are equal one by one are equal.
  rw [List.forall₂_eq_eq_eq] at hproblems
  rw [lintFile_eq, lintFile_eq, hproblems, hfailures]

theorem lintFile_sameButCategories (hsame : Config.SameButCategories options.layers layers)
    (rules : List Rule) (suppressions : Suppressions) (file : Schema.File) :
    (lintFile options rules suppressions file).SameButCategories
      (lintFile (options.withLayers layers) rules suppressions file) := by
  have hagree : ∀ pair ∈ pairs rules file.visit,
      Agree Problem.SameButCategory (judge options suppressions file.name pair.1 pair.2)
        (judge (options.withLayers layers) suppressions file.name pair.1 pair.2) := fun pair _ =>
    judge_agree (hsame.enabled_eq file.name pair.2.name).symm fun _ => rfl
  obtain ⟨hfailures, hproblems⟩ := judgeAll_agree hagree
  exact ⟨rfl, hfailures, hproblems⟩

end OtherLayers

/-- A run with other layers lints the same files with the same directives. -/
theorem run_withLayers {options : Options} {registry : Registry} {files : List Schema.File}
    {responses : List Response} (hrun : run options registry files = .ok responses)
    (layers : List Config.Layer) :
    ∃ suppressions,
      responses = List.zipWith (lintFile options registry.rules) suppressions files ∧
      run (options.withLayers layers) registry files =
        .ok (List.zipWith (lintFile (options.withLayers layers) registry.rules) suppressions
          files) := by
  have hflag : (options.withLayers layers).ignoreDirectives = options.ignoreDirectives := rfl
  rw [run_eq_zipWith] at hrun ⊢
  rw [hflag]
  cases hread : directivesOf options.ignoreDirectives files with
  | error fault => simp [hread, Except.map] at hrun
  | ok suppressions =>
      rw [hread] at hrun
      exact ⟨suppressions, (Except.ok.inj hrun).symm, rfl⟩

/-- The layer does not speak about the file, or no namespace of it is around a rule. -/
def Unrelated (layer : Config.Layer) (rules : List Rule) (file : Schema.File) : Prop :=
  ¬ layer.SpeaksAbout file.name ∨
    ∀ rule ∈ rules, ∀ entry ∈ layer.settings.entries, ¬ RuleName.Around entry.1 rule.name

theorem lintFile_insert_unrelated {options : Options} {before after : List Config.Layer}
    {layer : Config.Layer} {rules : List Rule} {file : Schema.File}
    (hlayers : options.layers = before ++ after) (hunrelated : Unrelated layer rules file)
    (suppressions : Suppressions) :
    lintFile (options.withLayers (before ++ layer :: after)) rules suppressions file =
      lintFile options rules suppressions file := by
  refine lintFile_of_configured_eq fun rule hrule => ?_
  rw [hlayers]
  refine Config.configured_insert (fun resolution => ?_) before after
  rcases hunrelated with hfile | hrules
  · exact Config.applyLayer_of_not_speaksAbout hfile rule.name resolution
  · exact Config.applyLayer_of_not_around (hrules rule hrule) file.name resolution

/-- Settings act only on the files and rules that they are about, and categories only on
categories.  A layer put anywhere among the others leaves the response to every file to
which it is unrelated as it was, also in a run over several files of which it does concern
some.  Layers that differ in their categories only give the same failures, and the same
problems up to their categories. -/
theorem lint_unaffected_by_unrelated_settings (options : Options) (registry : Registry) :
    (∀ (before after : List Config.Layer) (layer : Config.Layer),
      options.layers = before ++ after →
      (∀ file, Unrelated layer registry.rules file → ∀ suppressions,
        lintFile (options.withLayers (before ++ layer :: after)) registry.rules suppressions
            file =
          lintFile options registry.rules suppressions file) ∧
      ∀ files responses, run options registry files = .ok responses →
        ∃ others,
          run (options.withLayers (before ++ layer :: after)) registry files = .ok others ∧
          ∀ (index : Nat) (file : Schema.File), files[index]? = some file →
            Unrelated layer registry.rules file → others[index]? = responses[index]?) ∧
    ∀ layers, Config.SameButCategories options.layers layers →
      (∀ suppressions file,
        (lintFile options registry.rules suppressions file).SameButCategories
          (lintFile (options.withLayers layers) registry.rules suppressions file)) ∧
      ∀ files responses, run options registry files = .ok responses →
        ∃ others, run (options.withLayers layers) registry files = .ok others ∧
          List.Forall₂ Response.SameButCategories responses others := by
  refine ⟨fun before after layer hlayers => ⟨fun file hunrelated suppressions => ?_, ?_⟩,
    fun layers hsame => ⟨fun suppressions file => ?_, ?_⟩⟩
  · exact lintFile_insert_unrelated hlayers hunrelated suppressions
  · intro files responses hrun
    obtain ⟨all, rfl, hothers⟩ := run_withLayers hrun (before ++ layer :: after)
    refine ⟨_, hothers, fun index file hfile hunrelated => ?_⟩
    rw [List.getElem?_zipWith, List.getElem?_zipWith, hfile]
    cases all[index]? with
    | none => rfl
    | some suppressions =>
        exact congrArg some (lintFile_insert_unrelated hlayers hunrelated suppressions)
  · exact lintFile_sameButCategories hsame registry.rules suppressions file
  · intro files responses hrun
    obtain ⟨all, rfl, hothers⟩ := run_withLayers hrun layers
    refine ⟨_, hothers, List.forall₂_iff_get.2 ⟨by simp, fun index hleft hright => ?_⟩⟩
    simp only [List.get_eq_getElem, List.getElem_zipWith]
    exact lintFile_sameButCategories hsame registry.rules _ _

/-- A layer that switches everything off below one directory. -/
def legacyLayer : Config.Layer where
  included :=
    [{ pattern := "legacy/**"
       tokens := "legacy/".toList.map .literal ++ [.anyDirectories]
       read := by decide +kernel }]
  excluded := []
  settings := .ofList [("", { status := some .disabled })]

/-- A layer that names `core` and gives it a category, or leaves the category open. -/
def coreLayer (category : Option Category) : Config.Layer where
  included := []
  excluded := []
  settings := .ofList [("core", { category := category })]

/-- The sample with one message, in the directory of the layer. -/
def legacySample : Schema.File := { bookSample with name := "legacy/books.proto" }

/-- The layer for one directory makes a difference there and none elsewhere.  The category
makes a difference to the category of the problem and to nothing else. -/
theorem lint_unaffected_by_legacyLayer :
    ∃ registry, Registry.ofList [seenRule] = .ok registry ∧ registry.rules = [seenRule] ∧
      Unrelated legacyLayer registry.rules bookSample ∧
      lintFile (({} : Options).withLayers ([] ++ legacyLayer :: [])) registry.rules .none
          bookSample =
        lintFile {} registry.rules .none bookSample ∧
      lintFile (({} : Options).withLayers ([] ++ legacyLayer :: [])) registry.rules .none
          legacySample ≠
        lintFile {} registry.rules .none legacySample ∧
      (lintFile { layers := [coreLayer none] } registry.rules .none bookSample).SameButCategories
        (lintFile { layers := [coreLayer (some .error)] } registry.rules .none bookSample) ∧
      (lintFile { layers := [coreLayer none] } registry.rules .none bookSample).problems.map
          (·.category) = [.warning] ∧
      (lintFile { layers := [coreLayer (some .error)] } registry.rules .none bookSample).problems.map
          (·.category) = [.error] := by
  obtain ⟨registry, hregistry, hrules⟩ : ∃ registry,
      Registry.ofList [seenRule] = .ok registry ∧ registry.rules = [seenRule] :=
    Registry.exists_ofList (by decide +kernel) (by decide +kernel)
  have hunrelated : Unrelated legacyLayer registry.rules bookSample := by
    refine .inl (mt Config.Layer.appliesTo_iff.2 ?_)
    decide +kernel
  obtain ⟨hinsert, -⟩ := lint_unaffected_by_unrelated_settings {} registry
  obtain ⟨-, hcategories⟩ :=
    lint_unaffected_by_unrelated_settings { layers := [coreLayer none] } registry
  refine ⟨registry, hregistry, hrules, hunrelated,
    (hinsert [] [] legacyLayer rfl).1 bookSample hunrelated .none, ?_,
    (hcategories [coreLayer (some .error)] rfl).1 .none bookSample, ?_, ?_⟩
  · rw [hrules]
    decide +kernel
  · rw [hrules]
    decide +kernel
  · rw [hrules]
    decide +kernel

end Lint

end SchemaLint
