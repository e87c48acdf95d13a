import SchemaLint.Lint

namespace SchemaLint

namespace Lint

/-!
# What a run asks its rules

A rule that is asked a question can do more than answer: it can write somewhere, count, or
look at what others have left.  Here the questions are actions of any monad.

If each action gives the answer of its rule, whatever else it does, then a run gives what the
plain run gives.  If a directive cannot be read then there is no action at all: the run is
over before the first question.
-/

variable {m : Type → Type} [Monad m] {asking : Asking m} {options : Options}

/-- The rules answer as they do when they are asked directly. -/
def Asking.Faithful (asking : Asking m) (rules : List Rule) : Prop :=
  ∀ rule ∈ rules, ∀ element,
    Gives (asking.appliesTo rule element) (rule.appliesTo element) ∧
      Gives (asking.check rule element) (rule.check element)

/-- A directive that cannot be read ends a run that has asked nothing. -/
theorem runM_of_error {registry : Registry} {files : List Schema.File} {error : SuppressionError}
    (h : run options registry files = .error error) (asking : Asking m) (pool : Pool m) :
    runM asking pool options registry files = pure (.error error) := by
  rw [run_eq_zipWith] at h
  rw [runM]
  cases hread : directivesOf options.ignoreDirectives files with
  | ok suppressions => simp [hread, Except.map] at h
  | error fault =>
      rw [hread] at h
      rw [Except.error.inj h]

section Faithful

variable [LawfulMonad m] {suppressions : Suppressions} {path : String} {rules : List Rule}

theorem gives_judgeM {element : Schema.Element} {rule : Rule}
    (happlies : Gives (asking.appliesTo rule element) (rule.appliesTo element))
    (hcheck : Gives (asking.check rule element) (rule.check element)) :
    Gives (judgeM asking options suppressions path element rule)
      (judge options suppressions path element rule) := by
  rw [judge_eq, judgeM]
  refine happlies.bind ?_
  cases rule.appliesTo element with
  | error failure => exact gives_pure _
  | ok applies =>
      cases applies with
      | false => exact gives_pure _
      | true =>
          simp only [Except.bind, Bool.true_and]
          split
          · refine hcheck.bind ?_
            cases rule.check element <;> exact gives_pure _
          · exact gives_pure _

theorem gives_judgeAllM (h : asking.Faithful rules) {shown : List (Schema.Element × Rule)}
    (hshown : ∀ pair ∈ shown, pair.2 ∈ rules) :
    Gives (judgeAllM asking options suppressions path shown)
      (judgeAll options suppressions path shown) := by
  induction shown with
  | nil => exact gives_pure _
  | cons pair rest ih =>
      obtain ⟨hpair, hrest⟩ := List.forall_mem_cons.1 hshown
      obtain ⟨happlies, hcheck⟩ := h pair.2 hpair pair.1
      refine (gives_judgeM happlies hcheck).bind ?_
      -- What follows the answer is the same step as in the plain loop.
      cases hjudge : judge options suppressions path pair.1 pair.2 with
      | error failure =>
          rw [judgeAll_cons_of_error hjudge]
          exact gives_pure _
      | ok problems =>
          rw [judgeAll_cons_of_ok hjudge]
          exact (ih hrest).bind (gives_pure _)

theorem gives_lintFileM (h : asking.Faithful rules) (suppressions : Suppressions)
    (file : Schema.File) :
    Gives (lintFileM asking options rules suppressions file)
      (lintFile options rules suppressions file) :=
  (gives_judgeAllM h fun _ hpair => (mem_pairs_iff.1 hpair).2.1).bind (gives_pure _)

/-- A run gives what the plain run gives, on one worker or on any pool. -/
theorem gives_runM {registry : Registry} (h : asking.Faithful registry.rules) (pool : Pool m)
    (options : Options) (files : List Schema.File) :
    Gives (runM asking pool options registry files) (run options registry files) := by
  rw [run_eq_zipWith, runM]
  cases directivesOf options.ignoreDirectives files with
  | error fault => exact gives_pure _
  | ok suppressions =>
      have hwork : ∀ work ∈ files.zip suppressions,
          Gives (lintFileM asking options registry.rules work.2 work.1)
            (lintFile options registry.rules work.2 work.1) := fun work _ =>
        gives_lintFileM h work.2 work.1
      rw [Except.map, zipWith_lintFile]
      refine Gives.map ?_ Except.ok
      split
      · exact pool.ordered hwork
      · exact gives_mapM hwork

end Faithful

end Lint

end SchemaLint
