import SchemaLint.Proofs.Layers

namespace SchemaLint

namespace Config

/-!
# The last layer that sets something

What the layers decide is described by single layers: the status of a rule is the one set
by the last layer that sets a status for it, and the category is the one set by the last
layer that sets a category.  The two layers need not be the same.  Both settings are
followed through the layers by one argument, with the setting as a parameter.

A layer takes part with its most specific entry only.  What its other entries set does
not count, even where that entry leaves the setting open.
-/

namespace Layer

variable {α : Type}

/-- In the file the layer gives a part of the rule's settings this value. -/
def Sets (layer : Layer) (path rule : String) (part : Setting → Option α) (value : α) : Prop :=
  layer.SpeaksAbout path ∧ ∃ entry, layer.MostSpecific rule entry ∧ part entry.2 = some value

/-- The value that the layer gives, if it gives one. -/
def set? (layer : Layer) (path rule : String) (part : Setting → Option α) : Option α :=
  if layer.appliesTo path then (layer.mostSpecific? rule).bind fun entry => part entry.2
  else none

theorem set?_eq_some_iff {layer : Layer} {path rule : String} {part : Setting → Option α}
    {value : α} : layer.set? path rule part = some value ↔ layer.Sets path rule part value := by
  rw [set?, Sets, ← appliesTo_iff]
  by_cases happlies : layer.appliesTo path = true
  · simp [happlies, Option.bind_eq_some_iff, ← mostSpecific?_eq_some_iff]
  · simp [happlies]

theorem set?_eq_none_iff {layer : Layer} {path rule : String} {part : Setting → Option α} :
    layer.set? path rule part = none ↔ ∀ value, ¬ layer.Sets path rule part value := by
  rw [Option.eq_none_iff_forall_ne_some]
  exact forall_congr' fun value => not_congr set?_eq_some_iff

end Layer

/-!
## One more layer
-/

theorem enabled_applyLayer (path rule : String) (resolution : Resolution) (layer : Layer) :
    (applyLayer path rule resolution layer).enabled =
      ((layer.set? path rule (·.status)).map fun status => decide (status = .enabled)).getD
        resolution.enabled := by
  rw [applyLayer, Layer.set?]
  by_cases happlies : layer.appliesTo path = true
  · cases hentry : layer.mostSpecific? rule with
    | none => simp [happlies]
    | some entry =>
        cases hstatus : entry.2.status with
        | none => simp [happlies, Resolution.override, hstatus]
        | some status => simp [happlies, Resolution.override, hstatus]
  · simp [happlies]

theorem category_applyLayer (path rule : String) (resolution : Resolution) (layer : Layer) :
    (applyLayer path rule resolution layer).category =
      (layer.set? path rule (·.category)).getD resolution.category := by
  rw [applyLayer, Layer.set?]
  by_cases happlies : layer.appliesTo path = true
  · cases hentry : layer.mostSpecific? rule with
    | none => simp [happlies]
    | some entry => simp [happlies, Resolution.override]
  · simp [happlies]

theorem configured_concat (layers : List Layer) (layer : Layer) (path rule : String) :
    configured (layers ++ [layer]) path rule =
      applyLayer path rule (configured layers path rule) layer := by
  rw [configured, List.foldl_append]
  rfl

/-- A layer can be exchanged for another that acts in the same way. -/
theorem configured_exchange {path rule : String} {layer other : Layer}
    (hsame : ∀ resolution, applyLayer path rule resolution other =
      applyLayer path rule resolution layer) (before after : List Layer) :
    configured (before ++ other :: after) path rule =
      configured (before ++ layer :: after) path rule := by
  rw [configured, configured, List.foldl_append, List.foldl_append, List.foldl_cons,
    List.foldl_cons, hsame]

/-!
## All layers
-/

section LastSet

variable {α : Type} {path rule : String} {part : Setting → Option α} {initial : α}

/-- The value is the one that the last layer to give any gives, or the initial one when no
layer gives any. -/
inductive LastSet (path rule : String) (part : Setting → Option α) (initial : α) :
    List Layer → α → Prop where
  | given {before after : List Layer} {layer : Layer} {value : α}
      (hsets : layer.Sets path rule part value)
      (hafter : ∀ later ∈ after, ∀ other, ¬ later.Sets path rule part other) :
      LastSet path rule part initial (before ++ layer :: after) value
  | unset {layers : List Layer}
      (hnone : ∀ layer ∈ layers, ∀ other, ¬ layer.Sets path rule part other) :
      LastSet path rule part initial layers initial

theorem LastSet.concat_of_sets (layers : List Layer) {layer : Layer} {value : α}
    (hsets : layer.Sets path rule part value) :
    LastSet path rule part initial (layers ++ [layer]) value :=
  .given hsets (by simp)

theorem LastSet.concat_of_silent {layers : List Layer} {layer : Layer} {value : α}
    (hlast : LastSet path rule part initial layers value)
    (hsilent : ∀ other, ¬ layer.Sets path rule part other) :
    LastSet path rule part initial (layers ++ [layer]) value := by
  cases hlast with
  | given hsets hafter =>
      rw [List.append_assoc, List.cons_append]
      refine .given hsets fun later hlater => ?_
      rcases List.mem_append.1 hlater with hlater | hlater
      · exact hafter later hlater
      · exact List.mem_singleton.1 hlater ▸ hsilent
  | unset hnone =>
      refine .unset fun earlier hearlier => ?_
      rcases List.mem_append.1 hearlier with hearlier | hearlier
      · exact hnone earlier hearlier
      · exact List.mem_singleton.1 hearlier ▸ hsilent

end LastSet

theorem configured_enabled (layers : List Layer) (path rule : String) :
    ∃ status, LastSet path rule (·.status) .enabled layers status ∧
      (configured layers path rule).enabled = decide (status = .enabled) := by
  induction layers using List.reverseRecOn with
  | nil => exact ⟨.enabled, .unset (by simp), rfl⟩
  | append_singleton layers layer ih =>
      -- The last layer sets a status, or what was decided before it stays.
      rw [configured_concat, enabled_applyLayer]
      cases hset : layer.set? path rule (·.status) with
      | some status =>
          exact ⟨status, .concat_of_sets layers (Layer.set?_eq_some_iff.1 hset), rfl⟩
      | none =>
          obtain ⟨status, hlast, henabled⟩ := ih
          exact ⟨status, hlast.concat_of_silent (Layer.set?_eq_none_iff.1 hset), henabled⟩

theorem configured_category (layers : List Layer) (path rule : String) :
    LastSet path rule (·.category) .warning layers (configured layers path rule).category := by
  induction layers using List.reverseRecOn with
  | nil => exact .unset (by simp)
  | append_singleton layers layer ih =>
      rw [configured_concat, category_applyLayer]
      cases hset : layer.set? path rule (·.category) with
      | some category => exact .concat_of_sets layers (Layer.set?_eq_some_iff.1 hset)
      | none => exact ih.concat_of_silent (Layer.set?_eq_none_iff.1 hset)

/-- Layers for the same files with the same most specific entry act in the same way,
whatever their other entries are. -/
theorem applyLayer_of_mostSpecific {layer other : Layer} {rule : String}
    {entry : String × Setting} (hincluded : other.included = layer.included)
    (hexcluded : other.excluded = layer.excluded) (hlayer : layer.MostSpecific rule entry)
    (hother : other.MostSpecific rule entry) (path : String) (resolution : Resolution) :
    applyLayer path rule resolution other = applyLayer path rule resolution layer := by
  have happlies : other.appliesTo path = layer.appliesTo path := by
    rw [Layer.appliesTo, Layer.appliesTo, hincluded, hexcluded]
  rw [applyLayer, applyLayer, happlies, Layer.mostSpecific?_eq_some_iff.2 hlayer,
    Layer.mostSpecific?_eq_some_iff.2 hother]

/-- The last layer that sets a status decides whether a rule runs, and the last layer that
sets a category decides the category; without such a layer the rule runs and gives
warnings.  A layer sets what its most specific entry sets: exchanging any of its other
entries, or dropping them, makes no difference. -/
theorem configured_last_writer (layers : List Layer) (path rule : String) :
    (∃ status, LastSet path rule (·.status) .enabled layers status ∧
      (configured layers path rule).enabled = decide (status = .enabled)) ∧
    LastSet path rule (·.category) .warning layers (configured layers path rule).category ∧
    ∀ before layer after other entry, layers = before ++ layer :: after →
      other.included = layer.included → other.excluded = layer.excluded →
      layer.MostSpecific rule entry → other.MostSpecific rule entry →
      configured (before ++ other :: after) path rule = configured layers path rule := by
  refine ⟨configured_enabled layers path rule, configured_category layers path rule, ?_⟩
  rintro before layer after other entry rfl hincluded hexcluded hlayer hother
  exact configured_exchange
    (applyLayer_of_mostSpecific hincluded hexcluded hlayer hother path) before after

/-- A layer that switches `core` off and calls its problems errors. -/
def strictLayer : Layer where
  included := []
  excluded := []
  settings := .ofList [("core", { status := some .disabled, category := some .error })]

/-- A layer that switches `core::0135` on, beside a namespace around it that is made to
give warnings. -/
def relaxedLayer : Layer where
  included := []
  excluded := []
  settings := .ofList
    [("core", { category := some .warning }), ("core::0135", { status := some .enabled })]

/-- The second layer without its first entry. -/
def narrowLayer : Layer where
  included := []
  excluded := []
  settings := .ofList [("core::0135", { status := some .enabled })]

/-- The rule runs since the second layer says so, and it gives errors since only the first
layer says anything about its category: the entry for `core` in the second layer does not
count, and the layer can do without it. -/
theorem configured_last_writer_strictLayer :
    strictLayer.Sets "a.proto" "core::0135::http-body" (·.category) .error ∧
      (∀ category,
        ¬ relaxedLayer.Sets "a.proto" "core::0135::http-body" (·.category) category) ∧
      configured [strictLayer, relaxedLayer] "a.proto" "core::0135::http-body" =
        ⟨true, .error⟩ ∧
      configured [strictLayer, narrowLayer] "a.proto" "core::0135::http-body" =
        configured [strictLayer, relaxedLayer] "a.proto" "core::0135::http-body" := by
  have hrelaxed : relaxedLayer.MostSpecific "core::0135::http-body"
      ("core::0135", { status := some .enabled }) :=
    Layer.mostSpecific?_eq_some_iff.1 (by decide +kernel)
  have hnarrow : narrowLayer.MostSpecific "core::0135::http-body"
      ("core::0135", { status := some .enabled }) :=
    Layer.mostSpecific?_eq_some_iff.1 (by decide +kernel)
  obtain ⟨-, -, hexchange⟩ := configured_last_writer [strictLayer, relaxedLayer] "a.proto"
    "core::0135::http-body"
  exact ⟨Layer.set?_eq_some_iff.1 (by decide +kernel),
    Layer.set?_eq_none_iff.1 (by decide +kernel), by decide +kernel,
    hexchange [strictLayer] relaxedLayer [] narrowLayer _ rfl rfl rfl hrelaxed hnarrow⟩

end Config

end SchemaLint
