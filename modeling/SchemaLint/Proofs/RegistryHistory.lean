import SchemaLint.Registry

namespace SchemaLint

namespace Registry

/-!
# What registration keeps

A registry holds its rules twice: as a list in order of registration, and through an
index from lowered names to positions in that list.  The two are updated one after the
other, and a list of rules may be registered in part only.  The agreement between them
is stated here once, shown to survive a single registration, and carried from there
through every history of calls that starts with the empty registry.

From the agreement it follows that looking a name up through the index is the same as
scanning the list for it, although the index does not see case and the scan does.
-/

/-- A call that may add rules to a registry. -/
inductive Call where
  | register (rule : Rule)
  | registerAll (rules : List Rule)

/-- The registry after a call, whether the call was refused or not. -/
def perform (registry : Registry) : Call → Registry
  | .register rule => (registry.register rule).1
  | .registerAll rules => (registry.registerAll rules).1

/-- The list of rules and the index agree. -/
structure Sound (registry : Registry) : Prop where
  valid : ∀ rule ∈ registry.rules, RuleName.check rule.name = .ok ()
  index : ∀ (key : String) (position : Nat), registry.positions[key]? = some position ↔
    ∃ rule, registry.rules[position]? = some rule ∧ fold rule.name = key
  size : registry.positions.size = registry.rules.length

theorem sound_empty : Sound empty where
  valid := by simp [empty]
  index := by simp [empty]
  size := by simp [empty]

/-- Everything that registration can do when it accepts a rule. -/
theorem register_eq_accepted_iff {registry larger : Registry} {rule : Rule} :
    registry.register rule = (larger, none) ↔
      RuleName.check rule.name = .ok () ∧ registry.atFolded? rule.name = none ∧
        larger =
          { rules := registry.rules ++ [rule]
            positions := registry.positions.insert (fold rule.name) registry.rules.length } := by
  rw [register]
  cases hcheck : RuleName.check rule.name with
  | error fault => simp
  | ok _ =>
      cases hfolded : registry.atFolded? rule.name with
      | some registered =>
          by_cases hname : registered.name = rule.name
          · simp [hname]
          · simp [hname]
      | none => simp [eq_comm]

/-- A rule that is refused changes nothing. -/
theorem register_of_refused {registry last : Registry} {rule : Rule} {error : RegistryError}
    (h : registry.register rule = (last, some error)) : last = registry := by
  rw [register] at h
  cases hcheck : RuleName.check rule.name with
  | error fault =>
      rw [hcheck] at h
      exact (Prod.mk.inj h).1.symm
  | ok _ =>
      cases hfolded : registry.atFolded? rule.name with
      | some registered =>
          simp only [hcheck, hfolded] at h
          split at h <;> exact (Prod.mk.inj h).1.symm
      | none => simp [hcheck, hfolded] at h

/-- One more rule at the end of a list adds one position. -/
theorem getElem?_append_singleton_eq_some_iff {rules : List Rule} {rule found : Rule}
    {position : Nat} :
    (rules ++ [rule])[position]? = some found ↔
      rules[position]? = some found ∨ position = rules.length ∧ found = rule := by
  rcases Nat.lt_trichotomy position rules.length with hless | rfl | hgreater
  · rw [List.getElem?_append_left hless]
    simp [Nat.ne_of_lt hless]
  · simp [eq_comm]
  · have hlast : (rules ++ [rule]).length ≤ position := by
      rw [List.length_append]
      exact hgreater
    simp [List.getElem?_eq_none hlast, List.getElem?_eq_none (Nat.le_of_lt hgreater),
      Nat.ne_of_gt hgreater]

namespace Sound

variable {registry : Registry}

/-- The index never points past the end of the list. -/
theorem position_lt (h : Sound registry) {key : String} {position : Nat}
    (hkey : registry.positions[key]? = some position) : position < registry.rules.length := by
  obtain ⟨rule, hrule, -⟩ := (h.index key position).1 hkey
  exact (List.getElem?_eq_some_iff.1 hrule).1

/-- Rules whose names differ in case at most stand at one position. -/
theorem position_unique (h : Sound registry) {left right : Nat} {rule other : Rule}
    (hleft : registry.rules[left]? = some rule) (hright : registry.rules[right]? = some other)
    (hfold : fold rule.name = fold other.name) : left = right := by
  have hfirst := (h.index (fold rule.name) left).2 ⟨rule, hleft, rfl⟩
  have hsecond := (h.index (fold rule.name) right).2 ⟨other, hright, hfold.symm⟩
  exact Option.some.inj (hfirst.symm.trans hsecond)

/-- No two registered names are equal once their letters are lowered. -/
theorem folds_distinct (h : Sound registry) :
    registry.rules.Pairwise fun left right => fold left.name ≠ fold right.name := by
  rw [List.pairwise_iff_getElem]
  intro left right hleft hright hless hfold
  have hsame := h.position_unique (List.getElem?_eq_getElem hleft)
    (List.getElem?_eq_getElem hright) hfold
  omega

/-- The index finds exactly the registered rule that has the name up to case. -/
theorem atFolded?_eq_some_iff (h : Sound registry) {name : String} {rule : Rule} :
    registry.atFolded? name = some rule ↔
      rule ∈ registry.rules ∧ fold rule.name = fold name := by
  constructor
  · intro hfound
    rw [atFolded?] at hfound
    cases hkey : registry.positions[fold name]? with
    | none => simp [hkey] at hfound
    | some position =>
        obtain ⟨registered, hregistered, hfold⟩ := (h.index _ position).1 hkey
        simp only [hkey, hregistered, Option.some.injEq] at hfound
        exact hfound ▸ ⟨List.mem_of_getElem? hregistered, hfold⟩
  · rintro ⟨hrule, hfold⟩
    obtain ⟨position, hposition⟩ := List.mem_iff_getElem?.1 hrule
    have hkey := (h.index (fold name) position).2 ⟨rule, hposition, hfold⟩
    rw [atFolded?, hkey]
    exact hposition

/-- A name that the index does not find has no entry. -/
theorem positions_eq_none (h : Sound registry) {name : String}
    (hfolded : registry.atFolded? name = none) :
    registry.positions[fold name]? = none := by
  cases hkey : registry.positions[fold name]? with
  | none => rfl
  | some position =>
      obtain ⟨rule, hrule, -⟩ := (h.index _ position).1 hkey
      simp [atFolded?, hkey, hrule] at hfolded

/-- One registration keeps the agreement: the new name is new to the index, and the new
position is the first one that the list did not have. -/
theorem register (h : Sound registry) {rule : Rule} {larger : Registry}
    (hregister : registry.register rule = (larger, none)) : Sound larger := by
  obtain ⟨hvalid, hfolded, rfl⟩ := register_eq_accepted_iff.1 hregister
  have hfresh := h.positions_eq_none hfolded
  refine ⟨?_, ?_, ?_⟩
  · intro registered hmem
    rcases List.mem_append.1 hmem with hold | hnew
    · exact h.valid registered hold
    · exact List.mem_singleton.1 hnew ▸ hvalid
  · intro key position
    have hrules : (∃ registered, (registry.rules ++ [rule])[position]? = some registered ∧
          fold registered.name = key) ↔
        registry.positions[key]? = some position ∨
          position = registry.rules.length ∧ fold rule.name = key := by
      simp only [getElem?_append_singleton_eq_some_iff, h.index, or_and_right, exists_or,
        and_assoc, exists_and_left, exists_eq_left]
    rw [hrules, Std.HashMap.getElem?_insert]
    by_cases hkey : fold rule.name = key
    · -- The index had nothing under the new key, so only the new position is left.
      subst hkey
      simp [hfresh, eq_comm]
    · simp [hkey]
  · have habsent : fold rule.name ∉ registry.positions :=
      (getElem?_eq_none_iff registry.positions _).1 hfresh
    rw [Std.HashMap.size_insert, if_neg habsent, h.size, List.length_append,
      List.length_singleton]

/-- Registering a list keeps the agreement, whether it ends early or not. -/
theorem registerAll (h : Sound registry) (rules : List Rule) :
    Sound (registry.registerAll rules).1 := by
  induction rules generalizing registry with
  | nil => exact h
  | cons rule rest ih =>
      rw [Registry.registerAll]
      rcases hregister : registry.register rule with ⟨next, _ | fault⟩
      · exact ih (h.register hregister)
      · exact register_of_refused hregister ▸ h

theorem perform (h : Sound registry) (call : Call) : Sound (registry.perform call) := by
  cases call with
  | register rule =>
      rw [Registry.perform]
      rcases hregister : registry.register rule with ⟨next, _ | fault⟩
      · exact h.register hregister
      · exact register_of_refused hregister ▸ h
  | registerAll rules => exact h.registerAll rules

/-- Whatever is called, the agreement stays. -/
theorem history (h : Sound registry) (calls : List Call) :
    Sound (calls.foldl Registry.perform registry) := by
  induction calls generalizing registry with
  | nil => exact h
  | cons call rest ih => exact ih (h.perform call)

theorem get?_eq_some_iff (h : Sound registry) {name : String} {rule : Rule} :
    registry.get? name = some rule ↔ rule ∈ registry.rules ∧ rule.name = name := by
  rw [get?, Option.filter_eq_some_iff, h.atFolded?_eq_some_iff, decide_eq_true_eq]
  constructor
  · rintro ⟨⟨hmem, -⟩, hname⟩
    exact ⟨hmem, hname⟩
  · rintro ⟨hmem, rfl⟩
    exact ⟨⟨hmem, rfl⟩, rfl⟩

/-- A valid name that no registered name equals up to case can be registered. -/
theorem exists_register (h : Sound registry) {rule : Rule}
    (hvalid : RuleName.check rule.name = .ok ())
    (hfresh : ∀ registered ∈ registry.rules, fold registered.name ≠ fold rule.name) :
    ∃ larger, registry.register rule = (larger, none) ∧
      larger.rules = registry.rules ++ [rule] := by
  have hfolded : registry.atFolded? rule.name = none := by
    rw [Option.eq_none_iff_forall_ne_some]
    intro registered hfound
    obtain ⟨hmem, hfold⟩ := h.atFolded?_eq_some_iff.1 hfound
    exact hfresh registered hmem hfold
  exact ⟨_, register_eq_accepted_iff.2 ⟨hvalid, hfolded, rfl⟩, rfl⟩

/-- Rules whose names are valid and stay distinct when lowered can all be registered, one
after the other. -/
theorem exists_registerAll (h : Sound registry) {rules : List Rule}
    (hvalid : ∀ rule ∈ rules, RuleName.check rule.name = .ok ())
    (hdistinct : (registry.rules ++ rules).Pairwise fun left right =>
      fold left.name ≠ fold right.name) :
    ∃ larger, registry.registerAll rules = (larger, none) ∧
      larger.rules = registry.rules ++ rules := by
  induction rules generalizing registry with
  | nil => exact ⟨registry, rfl, (List.append_nil _).symm⟩
  | cons rule rest ih =>
      obtain ⟨hfirst, hrest⟩ := List.forall_mem_cons.1 hvalid
      -- The first rule is new to the registry, and the others to the registry with it.
      have hfresh := fun registered hmem =>
        (List.pairwise_append.1 hdistinct).2.2 registered hmem rule List.mem_cons_self
      obtain ⟨larger, hregister, hrules⟩ := h.exists_register hfirst hfresh
      have hlarger : larger.rules ++ rest = registry.rules ++ rule :: rest := by
        rw [hrules, List.append_assoc, List.singleton_append]
      obtain ⟨last, hlast, hall⟩ := ih (h.register hregister) hrest (hlarger ▸ hdistinct)
      refine ⟨last, ?_, hall.trans hlarger⟩
      rw [Registry.registerAll, hregister]
      exact hlast

/-- The index answers like a scan of the list, whatever text it is asked for. -/
theorem get?_eq_find? (h : Sound registry) (name : String) :
    registry.get? name = registry.rules.find? fun rule => rule.name = name := by
  cases hfind : registry.rules.find? fun rule => rule.name = name with
  | some rule =>
      have hname := List.find?_some hfind
      exact h.get?_eq_some_iff.2 ⟨List.mem_of_find?_eq_some hfind, of_decide_eq_true hname⟩
  | none =>
      rw [List.find?_eq_none] at hfind
      rw [Option.eq_none_iff_forall_ne_some]
      intro rule hrule
      obtain ⟨hmem, hname⟩ := h.get?_eq_some_iff.1 hrule
      exact hfind rule hmem (decide_eq_true hname)

end Sound

/-- The registry of rules with valid and distinct names has exactly these rules. -/
theorem exists_ofList {rules : List Rule}
    (hvalid : ∀ rule ∈ rules, RuleName.check rule.name = .ok ())
    (hdistinct : rules.Pairwise fun left right => fold left.name ≠ fold right.name) :
    ∃ registry, ofList rules = .ok registry ∧ registry.rules = rules := by
  obtain ⟨registry, hregistry, hrules⟩ := sound_empty.exists_registerAll hvalid hdistinct
  exact ⟨registry, by rw [ofList, hregistry], hrules⟩

/-- After any history of calls on the empty registry, failed ones included, the rules have
valid names that stay distinct when lowered, the index holds one entry for each of them
that leads to its position and to no other place, and asking for a name gives the first
rule of the list with exactly that name. -/
theorem registry_agrees_after_calls (calls : List Call) :
    let registry := calls.foldl perform empty
    (∀ rule ∈ registry.rules, RuleName.check rule.name = .ok ()) ∧
    (registry.rules.Pairwise fun left right => fold left.name ≠ fold right.name) ∧
    registry.positions.size = registry.rules.length ∧
    (∀ (key : String) (position : Nat), registry.positions[key]? = some position ↔
      ∃ rule, registry.rules[position]? = some rule ∧ fold rule.name = key) ∧
    (∀ (key : String) (position : Nat), registry.positions[key]? = some position →
      position < registry.rules.length) ∧
    ∀ name : String, registry.get? name = registry.rules.find? fun rule => rule.name = name := by
  intro registry
  have hsound : Sound registry := sound_empty.history calls
  exact ⟨hsound.valid, hsound.folds_distinct, hsound.size, hsound.index,
    fun _ _ => hsound.position_lt, hsound.get?_eq_find?⟩

end Registry

end SchemaLint
