import SchemaLint.Command.Lint
import SchemaLint.Proofs.Layers
import SchemaLint.Proofs.RuleNames

namespace SchemaLint

namespace Command

/-!
# Overrides have the last word

The command line can enable and disable namespaces.  Each of the two lists becomes one
layer that speaks about every file, behind all layers of the configuration, and a list
without namespaces becomes none.  It is shown what the layers decide with these two at
their end, in terms of the lists and of what the configuration decides alone.

A namespace that is disabled stays so even if a more specific one is enabled, because
specificity is compared within a layer only.
-/

/-- The text names a namespace: every rule name does, and so does the empty text. -/
def IsNamespace (scope : String) : Prop := scope = "" ∨ RuleName.check scope = .ok ()

/-- The rule lies in one of the namespaces. -/
def Covered (scopes : List String) (rule : String) : Prop :=
  ∃ scope ∈ scopes, scope = "" ∨ RuleName.Within scope rule

theorem covered_iff_any {scopes : List String} {rule : String} :
    (scopes.any fun scope => RuleName.encloses scope rule) = true ↔ Covered scopes rule := by
  rw [List.any_eq_true]
  exact exists_congr fun scope => and_congr_right fun _ => RuleName.encloses_iff

instance (scopes : List String) (rule : String) : Decidable (Covered scopes rule) :=
  decidable_of_iff _ covered_iff_any

theorem checkScope_eq_ok_iff {scope : String} :
    RuleName.checkScope scope = .ok () ↔ IsNamespace scope := by
  rw [RuleName.checkScope, IsNamespace]
  by_cases hempty : scope.isEmpty = true
  · simp [String.isEmpty_iff.1 hempty]
  · rw [if_neg hempty, or_iff_right (mt String.isEmpty_iff.2 hempty)]

/-!
## One list of namespaces
-/

theorem checkOverrides_eq_ok_iff {option : String} {scopes : List String} :
    checkOverrides option scopes = .ok () ↔ ∀ scope ∈ scopes, IsNamespace scope := by
  induction scopes with
  | nil => simp [checkOverrides]
  | cons scope rest ih =>
      rw [List.forall_mem_cons, ← checkScope_eq_ok_iff, ← ih, checkOverrides]
      cases hscope : RuleName.checkScope scope with
      | error fault => simp
      | ok _ => simp

/-- The layer that gives all of the namespaces a status. -/
def statusLayer (status : Config.Status) (scopes : List String) : Config.Layer where
  included := []
  excluded := []
  settings := .ofList (scopes.map fun scope => (scope, { status := some status }))

theorem overrideLayer_eq_ok_iff {option : String} {status : Config.Status} {scopes : List String}
    {layers : List Config.Layer} :
    overrideLayer option status scopes = .ok layers ↔
      (∀ scope ∈ scopes, IsNamespace scope) ∧
        layers = if scopes.isEmpty then [] else [statusLayer status scopes] := by
  rw [← @checkOverrides_eq_ok_iff option, overrideLayer]
  cases hcheck : checkOverrides option scopes with
  | error fault => simp
  | ok _ =>
      by_cases hempty : scopes.isEmpty = true
      · simp [hempty, eq_comm]
      · simp [hempty, eq_comm, statusLayer]

/-- The layer sets the status of the rules in its namespaces, in every file, and leaves
everything else as it was. -/
theorem applyLayer_statusLayer (status : Config.Status) (scopes : List String)
    (path rule : String) (resolution : Config.Resolution) :
    Config.applyLayer path rule resolution (statusLayer status scopes) =
      if Covered scopes rule then { resolution with enabled := status = .enabled }
      else resolution := by
  have happlies : (statusLayer status scopes).appliesTo path = true := rfl
  have hentries : ∀ entry : String × Config.Setting,
      entry ∈ (statusLayer status scopes).settings.entries ↔
        entry.1 ∈ scopes ∧ entry.2 = { status := some status } := fun entry =>
    Config.Settings.mem_ofList_uniform_iff
  rw [Config.applyLayer, if_pos happlies]
  -- All entries say the same, so it does not matter which of them is the most specific.
  cases hspecific : (statusLayer status scopes).mostSpecific? rule with
  | none =>
      have hnone := Config.Layer.mostSpecific?_eq_none_iff.1 hspecific
      have houtside : ¬ Covered scopes rule := by
        rintro ⟨scope, hscope, haround⟩
        exact hnone (scope, { status := some status }) ((hentries _).2 ⟨hscope, rfl⟩) haround
      rw [if_neg houtside]
  | some entry =>
      obtain ⟨hmem, haround, -⟩ := Config.Layer.mostSpecific?_eq_some_iff.1 hspecific
      obtain ⟨hscope, hsetting⟩ := (hentries entry).1 hmem
      have hinside : Covered scopes rule := ⟨entry.1, hscope, haround⟩
      rw [if_pos hinside]
      change resolution.override entry.2 = _
      rw [hsetting]
      rfl

/-- An override acts like its layer, also when there is no layer because nothing is named. -/
theorem foldl_overrideLayer {option : String} {status : Config.Status} {scopes : List String}
    {layers : List Config.Layer} (h : overrideLayer option status scopes = .ok layers)
    (path rule : String) (resolution : Config.Resolution) :
    layers.foldl (Config.applyLayer path rule) resolution =
      if Covered scopes rule then { resolution with enabled := status = .enabled }
      else resolution := by
  obtain ⟨-, rfl⟩ := overrideLayer_eq_ok_iff.1 h
  by_cases hempty : scopes.isEmpty = true
  · have hnone : ¬ Covered scopes rule := by
      rw [List.isEmpty_iff.1 hempty]
      rintro ⟨scope, hscope, -⟩
      exact List.not_mem_nil hscope
    rw [if_pos hempty, if_neg hnone, List.foldl_nil]
  · rw [if_neg hempty, List.foldl_cons, List.foldl_nil, applyLayer_statusLayer]

/-!
## Both lists
-/

theorem overrideLayers_eq_ok_iff {enabled disabled : List String} {layers : List Config.Layer} :
    overrideLayers enabled disabled = .ok layers ↔
      ∃ enabling disabling, overrideLayer "--enable-rule" .enabled enabled = .ok enabling ∧
        overrideLayer "--disable-rule" .disabled disabled = .ok disabling ∧
        layers = enabling ++ disabling := by
  rw [overrideLayers]
  cases henable : overrideLayer "--enable-rule" .enabled enabled with
  | error fault => simp
  | ok enabling =>
      cases hdisable : overrideLayer "--disable-rule" .disabled disabled with
      | error fault => simp
      | ok disabling => simp [eq_comm]

theorem exists_overrideLayers_iff {enabled disabled : List String} :
    (∃ layers, overrideLayers enabled disabled = .ok layers) ↔
      ∀ scope ∈ enabled ++ disabled, IsNamespace scope := by
  simp only [overrideLayers_eq_ok_iff, overrideLayer_eq_ok_iff, List.forall_mem_append]
  constructor
  · rintro ⟨-, -, -, ⟨henabled, -⟩, ⟨hdisabled, -⟩, -⟩
    exact ⟨henabled, hdisabled⟩
  · rintro ⟨henabled, hdisabled⟩
    exact ⟨_, _, _, ⟨henabled, rfl⟩, ⟨hdisabled, rfl⟩, rfl⟩

/-- Overrides are refused exactly when a text among them names no namespace.  Otherwise their
layers, behind any layers, switch off the rules that are disabled by them, switch on those
that are enabled and not disabled, and leave all other rules and every category as the
layers before them decided. -/
theorem configured_overrides (enabled disabled : List String) :
    ((∃ fault, overrideLayers enabled disabled = .error fault) ↔
        ∃ scope ∈ enabled ++ disabled, ¬ IsNamespace scope) ∧
      ∀ overrides, overrideLayers enabled disabled = .ok overrides →
        ∀ (layers : List Config.Layer) (path rule : String),
          (Config.configured (layers ++ overrides) path rule).enabled =
              (if Covered disabled rule then false
                else if Covered enabled rule then true
                else (Config.configured layers path rule).enabled) ∧
            (Config.configured (layers ++ overrides) path rule).category =
              (Config.configured layers path rule).category := by
  constructor
  · have hok := @exists_overrideLayers_iff enabled disabled
    cases hlayers : overrideLayers enabled disabled with
    | error fault => simpa [hlayers] using hok
    | ok layers => simpa [hlayers] using hok
  · intro overrides hoverrides layers path rule
    obtain ⟨enabling, disabling, henabling, hdisabling, rfl⟩ :=
      overrideLayers_eq_ok_iff.1 hoverrides
    have hall : Config.configured (layers ++ (enabling ++ disabling)) path rule =
        disabling.foldl (Config.applyLayer path rule)
          (enabling.foldl (Config.applyLayer path rule)
            (Config.configured layers path rule)) := by
      rw [Config.configured, List.foldl_append, List.foldl_append, ← Config.configured]
    rw [hall, foldl_overrideLayer hdisabling, foldl_overrideLayer henabling]
    by_cases hoff : Covered disabled rule
    · by_cases hon : Covered enabled rule
      · simp [hoff, hon]
      · simp [hoff, hon]
    · by_cases hon : Covered enabled rule
      · simp [hoff, hon]
      · simp [hoff, hon]

end Command

end SchemaLint
