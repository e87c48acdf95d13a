import SchemaLint.Proofs.RegistryHistory

namespace SchemaLint

/-!
# The outcome of a registration

Registration looks a name up with its letters lowered and compares it with the one name
that it finds there.  That this one comparison tells a name that is taken from a name
that differs in case only is due to the agreement between rules and index: no other
registered name could have been found.

A registration that is refused changes nothing.  Registering a list goes on for as long
as its rules are accepted one after the other; a clash between two rules of the list
counts like one with a rule that was there before.
-/

/-- The name itself is refused: it is no rule name, or it differs in case only from a
registered one. -/
def RegistryError.IsInvalidName : RegistryError → Prop
  | malformedName _ _ | differsInCase _ _ => True
  | duplicateName _ => False

namespace Registry

/-- Everything that registration can do when it refuses a rule. -/
theorem register_eq_refused_iff {registry : Registry} {rule : Rule} {error : RegistryError} :
    registry.register rule = (registry, some error) ↔
      (∃ fault, RuleName.check rule.name = .error fault ∧
        error = .malformedName rule.name fault) ∨
      RuleName.check rule.name = .ok () ∧
        ∃ registered, registry.atFolded? rule.name = some registered ∧
          (registered.name = rule.name ∧ error = .duplicateName rule.name ∨
            registered.name ≠ rule.name ∧ error = .differsInCase rule.name registered.name) := by
  rw [register]
  cases hcheck : RuleName.check rule.name with
  | error fault => simp [eq_comm]
  | ok _ =>
      cases hfolded : registry.atFolded? rule.name with
      | none => simp
      | some registered =>
          by_cases hname : registered.name = rule.name
          · simp [hname, eq_comm]
          · simp [hname, @eq_comm _ error]

namespace Sound

variable {registry : Registry} {rule : Rule}

/-- A name is taken when it is exactly that of a registered rule. -/
theorem register_eq_duplicateName_iff (h : Sound registry) :
    registry.register rule = (registry, some (.duplicateName rule.name)) ↔
      ∃ registered ∈ registry.rules, registered.name = rule.name := by
  rw [register_eq_refused_iff]
  constructor
  · rintro (⟨fault, -, hfault⟩ | ⟨-, registered, hfound, ⟨hname, -⟩ | ⟨-, hdiffers⟩⟩)
    · cases hfault
    · exact ⟨registered, (h.atFolded?_eq_some_iff.1 hfound).1, hname⟩
    · cases hdiffers
  · rintro ⟨registered, hmem, hname⟩
    have hfound := h.atFolded?_eq_some_iff.2 ⟨hmem, congrArg fold hname⟩
    have hvalid := h.valid registered hmem
    rw [hname] at hvalid
    exact .inr ⟨hvalid, registered, hfound, .inl ⟨hname, rfl⟩⟩

/-- A name is invalid when it is no rule name or differs in case only from a registered
one.  The index gives at most one name to compare with, and it is the right one. -/
theorem register_invalidName_iff (h : Sound registry) :
    (∃ error, registry.register rule = (registry, some error) ∧ error.IsInvalidName) ↔
      RuleName.check rule.name ≠ .ok () ∨
        ∃ registered ∈ registry.rules,
          registered.name ≠ rule.name ∧ fold registered.name = fold rule.name := by
  constructor
  · rintro ⟨error, herror, hinvalid⟩
    rcases register_eq_refused_iff.1 herror with
      ⟨fault, hfault, -⟩ | ⟨-, registered, hfound, ⟨-, rfl⟩ | ⟨hne, -⟩⟩
    · left
      simp [hfault]
    · exact hinvalid.elim
    · obtain ⟨hmem, hfold⟩ := h.atFolded?_eq_some_iff.1 hfound
      exact .inr ⟨registered, hmem, hne, hfold⟩
  · intro hreason
    cases hcheck : RuleName.check rule.name with
    | error fault =>
        exact ⟨_, register_eq_refused_iff.2 (.inl ⟨fault, hcheck, rfl⟩), trivial⟩
    | ok _ =>
        rcases hreason with hmalformed | ⟨registered, hmem, hne, hfold⟩
        · exact absurd hcheck hmalformed
        · have hfound := h.atFolded?_eq_some_iff.2 ⟨hmem, hfold⟩
          exact ⟨_, register_eq_refused_iff.2 (.inr ⟨hcheck, registered, hfound, .inr ⟨hne, rfl⟩⟩),
            trivial⟩

/-- Every other name is accepted. -/
theorem exists_register_iff (h : Sound registry) :
    (∃ larger, registry.register rule = (larger, none)) ↔
      RuleName.check rule.name = .ok () ∧
        ∀ registered ∈ registry.rules, fold registered.name ≠ fold rule.name := by
  constructor
  · rintro ⟨larger, hlarger⟩
    obtain ⟨hvalid, hfolded, -⟩ := register_eq_accepted_iff.1 hlarger
    refine ⟨hvalid, fun registered hmem hfold => ?_⟩
    rw [h.atFolded?_eq_some_iff.2 ⟨hmem, hfold⟩] at hfolded
    cases hfolded
  · rintro ⟨hvalid, hfresh⟩
    obtain ⟨larger, hlarger, -⟩ := h.exists_register hvalid hfresh
    exact ⟨larger, hlarger⟩

end Sound

theorem rules_of_register {registry larger : Registry} {rule : Rule}
    (h : registry.register rule = (larger, none)) : larger.rules = registry.rules ++ [rule] := by
  obtain ⟨-, -, rfl⟩ := register_eq_accepted_iff.1 h
  rfl

/-!
## Lists of rules
-/

/-- The rules are all accepted one after the other, which leads from one registry to
another. -/
inductive Registers : Registry → List Rule → Registry → Prop where
  | nil {registry : Registry} : Registers registry [] registry
  | cons {registry larger last : Registry} {rule : Rule} {rest : List Rule}
      (hfirst : registry.register rule = (larger, none)) (hrest : Registers larger rest last) :
      Registers registry (rule :: rest) last

theorem Registers.rules_eq {registry last : Registry} {rules : List Rule}
    (h : Registers registry rules last) : last.rules = registry.rules ++ rules := by
  induction h with
  | nil => rw [List.append_nil]
  | cons hfirst _ ih => rw [ih, rules_of_register hfirst, List.append_assoc, List.singleton_append]

theorem Registers.sound {registry last : Registry} {rules : List Rule}
    (h : Registers registry rules last) (hsound : Sound registry) : Sound last := by
  induction h with
  | nil => exact hsound
  | cons hfirst _ ih => exact ih (hsound.register hfirst)

theorem registerAll_eq_none_iff {registry last : Registry} {rules : List Rule} :
    registry.registerAll rules = (last, none) ↔ Registers registry rules last := by
  constructor
  · intro hall
    induction rules generalizing registry with
    | nil =>
        obtain ⟨rfl, -⟩ := Prod.mk.inj hall
        exact .nil
    | cons rule rest ih =>
        rw [registerAll] at hall
        rcases hfirst : registry.register rule with ⟨next, _ | error⟩
        · rw [hfirst] at hall
          exact .cons hfirst (ih hall)
        · simp [hfirst] at hall
  · intro hregisters
    induction hregisters with
    | nil => rfl
    | cons hfirst _ ih =>
        rw [registerAll, hfirst]
        exact ih

/-- Whether a list of rules is accepted depends on the names alone: they are rule names, and
lowered they are new to the registry and to each other. -/
theorem Sound.exists_registers_iff {registry : Registry} (h : Sound registry)
    {rules : List Rule} :
    (∃ last, Registers registry rules last) ↔
      (∀ rule ∈ rules, RuleName.check rule.name = .ok ()) ∧
        (registry.rules ++ rules).Pairwise fun left right => fold left.name ≠ fold right.name := by
  constructor
  · rintro ⟨last, hlast⟩
    have hsound := hlast.sound h
    refine ⟨fun rule hmem => hsound.valid rule ?_, ?_⟩
    · rw [hlast.rules_eq]
      exact List.mem_append_right _ hmem
    · rw [← hlast.rules_eq]
      exact hsound.folds_distinct
  · rintro ⟨hvalid, hdistinct⟩
    obtain ⟨last, hlast, -⟩ := h.exists_registerAll hvalid hdistinct
    exact ⟨last, registerAll_eq_none_iff.1 hlast⟩

/-- The rules in front of `rules` that are accepted, as many of them as possible, with the
registry that they lead to. -/
structure LongestRun (registry : Registry) (rules taken : List Rule) (last : Registry) : Prop where
  initial : taken <+: rules
  registers : Registers registry taken last
  longest : ∀ other middle, other <+: rules → Registers registry other middle → other <+: taken

theorem LongestRun.of_refused {registry last : Registry} {rule : Rule} {error : RegistryError}
    (h : registry.register rule = (last, some error)) (rest : List Rule) :
    LongestRun registry (rule :: rest) [] registry where
  initial := List.nil_prefix
  registers := .nil
  longest := by
    intro other middle hother hmiddle
    cases hmiddle with
    | nil => exact List.prefix_rfl
    | cons hfirst _ =>
        obtain ⟨rfl, -⟩ := List.cons_prefix_cons.1 hother
        rw [h] at hfirst
        cases hfirst

theorem LongestRun.cons {registry larger last : Registry} {rule : Rule} {rest taken : List Rule}
    (hfirst : registry.register rule = (larger, none)) (h : LongestRun larger rest taken last) :
    LongestRun registry (rule :: rest) (rule :: taken) last where
  initial := List.cons_prefix_cons.2 ⟨rfl, h.initial⟩
  registers := .cons hfirst h.registers
  longest := by
    intro other middle hother hmiddle
    cases hmiddle with
    | nil => exact List.nil_prefix
    | cons hfirst' hmore =>
        obtain ⟨rfl, hmoreRules⟩ := List.cons_prefix_cons.1 hother
        obtain ⟨rfl, -⟩ := Prod.mk.inj (hfirst.symm.trans hfirst')
        exact List.cons_prefix_cons.2 ⟨rfl, h.longest _ _ hmoreRules hmore⟩

/-- Registering a list takes the longest run of accepted rules and ends with the error of
the rule behind it, if there is one. -/
theorem exists_longestRun (registry : Registry) (rules : List Rule) :
    ∃ taken last, LongestRun registry rules taken last ∧
      (taken = rules ∧ registry.registerAll rules = (last, none) ∨
        ∃ rule error, taken ++ [rule] <+: rules ∧ last.register rule = (last, some error) ∧
          registry.registerAll rules = (last, some error)) := by
  induction rules generalizing registry with
  | nil =>
      refine ⟨[], registry, ⟨List.prefix_rfl, .nil, ?_⟩, .inl ⟨rfl, rfl⟩⟩
      exact fun _ _ hother _ => hother
  | cons rule rest ih =>
      rcases hfirst : registry.register rule with ⟨next, _ | error⟩
      · obtain ⟨taken, last, hrun, hend⟩ := ih next
        refine ⟨rule :: taken, last, hrun.cons hfirst, ?_⟩
        rw [registerAll, hfirst]
        rcases hend with ⟨rfl, hall⟩ | ⟨refused, error, hbehind, hrefused, hall⟩
        · exact .inl ⟨rfl, hall⟩
        · exact .inr ⟨refused, error, List.cons_prefix_cons.2 ⟨rfl, hbehind⟩, hrefused, hall⟩
      · obtain rfl := register_of_refused hfirst
        refine ⟨[], next, .of_refused hfirst rest, .inr ⟨rule, error, ?_, hfirst, ?_⟩⟩
        · exact List.prefix_append [rule] rest
        · rw [registerAll, hfirst]

/-- After any history of calls, what becomes of one more rule is decided by its name: it is a
duplicate if it is registered already, invalid if it is no rule name or differs from a
registered one in case only, and accepted otherwise.  A refused rule leaves the registry as
it was, and an accepted one comes to stand behind all others.  Of a list the longest run of
accepted rules is registered, and the first refused rule gives the error; a run is accepted
when its names are rule names and, lowered, are new to the registry and to each other. -/
theorem register_outcomes_after_calls (calls : List Call) :
    let registry := calls.foldl perform empty
    (∀ rule : Rule,
      (registry.register rule = (registry, some (.duplicateName rule.name)) ↔
        ∃ registered ∈ registry.rules, registered.name = rule.name) ∧
      ((∃ error, registry.register rule = (registry, some error) ∧ error.IsInvalidName) ↔
        RuleName.check rule.name ≠ .ok () ∨
          ∃ registered ∈ registry.rules,
            registered.name ≠ rule.name ∧ fold registered.name = fold rule.name) ∧
      ((∃ larger, registry.register rule = (larger, none)) ↔
        RuleName.check rule.name = .ok () ∧
          ∀ registered ∈ registry.rules, fold registered.name ≠ fold rule.name) ∧
      (∀ last error, registry.register rule = (last, some error) → last = registry) ∧
      ∀ larger, registry.register rule = (larger, none) →
        larger.rules = registry.rules ++ [rule]) ∧
    (∀ rules : List Rule, (∃ last, Registers registry rules last) ↔
      (∀ rule ∈ rules, RuleName.check rule.name = .ok ()) ∧
        (registry.rules ++ rules).Pairwise fun left right => fold left.name ≠ fold right.name) ∧
    ∀ rules : List Rule, ∃ taken last,
      LongestRun registry rules taken last ∧
      last.rules = registry.rules ++ taken ∧
      (taken = rules ∧ registry.registerAll rules = (last, none) ∨
        ∃ rule error, taken ++ [rule] <+: rules ∧ last.register rule = (last, some error) ∧
          registry.registerAll rules = (last, some error)) := by
  intro registry
  have hsound : Sound registry := sound_empty.history calls
  refine ⟨fun rule => ⟨hsound.register_eq_duplicateName_iff, hsound.register_invalidName_iff,
    hsound.exists_register_iff, fun _ _ => register_of_refused, fun _ => rules_of_register⟩,
    fun rules => hsound.exists_registers_iff, fun rules => ?_⟩
  obtain ⟨taken, last, hrun, hend⟩ := exists_longestRun registry rules
  exact ⟨taken, last, hrun, hrun.registers.rules_eq, hend⟩

end Registry

end SchemaLint
