import SchemaLint.Config.Loading
import SchemaLint.Proofs.GlobMeaning
import SchemaLint.Proofs.RuleNames

namespace SchemaLint

namespace Config

/-!
# Loading is all or nothing

Layers are loaded by four loops, three of them inside the fourth: over the layers, and
in each layer over the included globs, the excluded globs and the namespaces.  Every loop
stops at the first fault that it meets.

Faults are described here by the places where they stand, without the loops, and put
into one order.  Loading then gives all layers just as they are written when there is no
fault at all, and the first fault in that order otherwise.  The order is never looked at
by the code: it comes about because each computation is followed only by computations
whose faults stand further on, which is what `Reports.bind` asks for.
-/

/-- The layer in which a fault stands. -/
def LayerError.layer : LayerError → Nat
  | invalidGlob layer _ _ _ _ => layer
  | invalidScope layer _ _ => layer

/-- The globs that a written layer has in one of its lists. -/
def RawLayer.globs (raw : RawLayer) : GlobList → List String
  | .included => raw.included
  | .excluded => raw.excluded

/-- The fault stands in the written layer with number `layer`. -/
inductive RawLayer.HasFault (raw : RawLayer) (layer : Nat) : LayerError → Prop where
  | glob {list : GlobList} {position : Nat} {pattern : String} {fault : GlobError}
      (hpattern : (raw.globs list)[position]? = some pattern)
      (hfault : Glob.ofString pattern = .error fault) :
      HasFault raw layer (.invalidGlob layer list position pattern fault)
  | scope {scope : String} {setting : Setting} {fault : NameError}
      (hentry : (scope, setting) ∈ raw.settings.entries) (hne : scope ≠ "")
      (hfault : RuleName.check scope = .error fault) :
      HasFault raw layer (.invalidScope layer scope fault)

/-- The fault stands somewhere in the written layers. -/
def IsFault (raws : List RawLayer) (error : LayerError) : Prop :=
  ∃ raw, raws[error.layer]? = some raw ∧ raw.HasFault error.layer error

/-- Everything that a written layer says can be used: its globs can be read, and its
namespaces are rule names or empty. -/
structure RawLayer.Loadable (raw : RawLayer) : Prop where
  globs : ∀ pattern ∈ raw.included ++ raw.excluded, ∃ glob, Glob.ofString pattern = .ok glob
  scopes : ∀ entry ∈ raw.settings.entries, entry.1 = "" ∨ RuleName.check entry.1 = .ok ()

/-- The layer as it is written. -/
def Layer.written (layer : Layer) : RawLayer where
  included := layer.included.map (·.pattern)
  excluded := layer.excluded.map (·.pattern)
  settings := layer.settings

/-- The order of faults: by layer, then the included globs by position, then the excluded
globs by position, then the namespaces in ascending order. -/
inductive LayerError.Precedes : LayerError → LayerError → Prop where
  | earlierLayer {left right : LayerError} (h : left.layer < right.layer) : Precedes left right
  | includedFirst {layer i j : Nat} {pattern pattern' : String} {fault fault' : GlobError} :
      Precedes (.invalidGlob layer .included i pattern fault)
        (.invalidGlob layer .excluded j pattern' fault')
  | earlierGlob {layer i j : Nat} {list : GlobList} {pattern pattern' : String}
      {fault fault' : GlobError} (h : i < j) :
      Precedes (.invalidGlob layer list i pattern fault) (.invalidGlob layer list j pattern' fault')
  | globsFirst {layer i : Nat} {list : GlobList} {pattern scope : String} {fault : GlobError}
      {fault' : NameError} :
      Precedes (.invalidGlob layer list i pattern fault) (.invalidScope layer scope fault')
  | smallerScope {layer : Nat} {scope scope' : String} {fault fault' : NameError}
      (h : scope < scope') :
      Precedes (.invalidScope layer scope fault) (.invalidScope layer scope' fault')

namespace LayerError

theorem Precedes.layer_le {left right : LayerError} (h : Precedes left right) :
    left.layer ≤ right.layer := by
  cases h with
  | earlierLayer h => exact Nat.le_of_lt h
  | includedFirst | earlierGlob | globsFirst | smallerScope => exact Nat.le_refl _

theorem Precedes.asymm {left right : LayerError} (h : Precedes left right) :
    ¬ Precedes right left := by
  intro h'
  cases h with
  | earlierLayer h =>
      have := h'.layer_le
      omega
  | includedFirst =>
      cases h' with
      | earlierLayer h' => exact Nat.lt_irrefl _ h'
  | earlierGlob h =>
      cases h' with
      | earlierLayer h' => exact Nat.lt_irrefl _ h'
      | earlierGlob h' => omega
  | globsFirst =>
      cases h' with
      | earlierLayer h' => exact Nat.lt_irrefl _ h'
  | smallerScope h =>
      cases h' with
      | earlierLayer h' => exact Nat.lt_irrefl _ h'
      | smallerScope h' => exact String.lt_irrefl _ (String.lt_trans h h')

/-- Of some faults this one precedes all others. -/
def First (Fault : LayerError → Prop) (error : LayerError) : Prop :=
  Fault error ∧ ∀ other, Fault other → other ≠ error → Precedes error other

theorem First.unique {Fault : LayerError → Prop} {left right : LayerError}
    (hleft : First Fault left) (hright : First Fault right) : left = right := by
  by_contra hne
  have hbefore := hleft.2 right hright.1 (Ne.symm hne)
  exact hbefore.asymm (hright.2 left hleft.1 hne)

end LayerError

open LayerError

/-!
## Computations that report their first fault
-/

/-- The computation succeeds and there is no fault, or it ends with the first one. -/
inductive Reports {α : Type} : Except LayerError α → (LayerError → Prop) → Prop where
  | clean {value : α} {Fault : LayerError → Prop} (h : ∀ error, ¬ Fault error) :
      Reports (.ok value) Fault
  | first {error : LayerError} {Fault : LayerError → Prop} (h : First Fault error) :
      Reports (.error error) Fault

namespace Reports

variable {α β : Type} {result : Except LayerError α} {Fault Later : LayerError → Prop}

theorem eq_error_iff (h : Reports result Fault) {error : LayerError} :
    result = .error error ↔ First Fault error := by
  cases h with
  | clean hclean =>
      simp only [reduceCtorEq, false_iff]
      exact fun hfirst => hclean error hfirst.1
  | first hfirst =>
      rw [Except.error.injEq]
      constructor
      · rintro rfl
        exact hfirst
      · exact hfirst.unique

theorem exists_ok_iff (h : Reports result Fault) :
    (∃ value, result = .ok value) ↔ ∀ error, ¬ Fault error := by
  cases h with
  | clean hclean => simp [hclean]
  | first hfirst =>
      simp only [reduceCtorEq, exists_false, false_iff]
      exact fun hclean => hclean _ hfirst.1

theorem congr (h : Reports result Fault) (hsame : ∀ error, Fault error ↔ Later error) :
    Reports result Later := by
  obtain rfl : Fault = Later := funext fun error => propext (hsame error)
  exact h

/-- Two computations in a row report the faults of both, if those of the second come
behind those of the first. -/
theorem bind {next : α → Except LayerError β} (h : Reports result Fault)
    (hnext : ∀ value, Reports (next value) Later)
    (horder : ∀ error later, Fault error → Later later → Precedes error later) :
    Reports (result.bind next) fun error => Fault error ∨ Later error := by
  cases h with
  | first hfirst =>
      -- The first computation ends everything, and its fault precedes whatever comes later.
      obtain ⟨hfault, hbefore⟩ := hfirst
      refine .first ⟨.inl hfault, ?_⟩
      rintro other (hother | hother) hne
      · exact hbefore other hother hne
      · exact horder _ other hfault hother
  | clean hclean => exact (hnext _).congr fun error => by simp [hclean error]

theorem map (h : Reports result Fault) (f : α → β) : Reports (result.map f) Fault := by
  cases h with
  | clean hclean => exact .clean hclean
  | first hfirst => exact .first hfirst

/-- A single check has at most one fault. -/
theorem mapError {ε : Type} (check : Except ε α) (place : ε → LayerError) :
    Reports (check.mapError place) fun error =>
      ∃ fault, check = .error fault ∧ error = place fault := by
  cases check with
  | ok value =>
      refine .clean ?_
      rintro error ⟨fault, hfault, -⟩
      cases hfault
  | error fault =>
      refine .first ⟨⟨fault, rfl, rfl⟩, ?_⟩
      rintro other ⟨same, hsame, rfl⟩ hne
      cases hsame
      exact absurd rfl hne

end Reports

/-!
## Loops over a list

Globs and layers are counted while they are read, so that a fault can name its place.
-/

theorem bind_eq_ok_iff {ε α β : Type} {result : Except ε α} {next : α → Except ε β} {value : β} :
    result.bind next = .ok value ↔ ∃ middle, result = .ok middle ∧ next middle = .ok value := by
  cases result <;> simp [Except.bind]

theorem map_eq_ok_iff {ε α β : Type} {result : Except ε α} {f : α → β} {value : β} :
    result.map f = .ok value ↔ ∃ middle, result = .ok middle ∧ f middle = value := by
  cases result <;> simp [Except.map]

theorem mapError_eq_ok_iff {ε ε' α : Type} {result : Except ε α} {f : ε → ε'} {value : α} :
    result.mapError f = .ok value ↔ result = .ok value := by
  cases result <;> simp [Except.mapError]

/-- Some member of a list has the property together with its place, where the first member
has the place `position`. -/
def Somewhere {α : Type} (property : Nat → α → Prop) (position : Nat) (members : List α) : Prop :=
  ∃ offset member, members[offset]? = some member ∧ property (position + offset) member

theorem somewhere_cons_iff {α : Type} {property : Nat → α → Prop} {position : Nat} {member : α}
    {rest : List α} :
    Somewhere property position (member :: rest) ↔
      property position member ∨ Somewhere property (position + 1) rest := by
  constructor
  · rintro ⟨offset, found, hfound, hproperty⟩
    cases offset with
    | zero =>
        obtain rfl := Option.some.inj hfound
        exact .inl hproperty
    | succ offset =>
        rw [← Nat.add_assoc, Nat.add_right_comm] at hproperty
        exact .inr ⟨offset, found, hfound, hproperty⟩
  · rintro (hproperty | ⟨offset, found, hfound, hproperty⟩)
    · exact ⟨0, member, rfl, hproperty⟩
    · refine ⟨offset + 1, found, hfound, ?_⟩
      rwa [← Nat.add_assoc, Nat.add_right_comm]

/-- `run` takes the members of a list one by one, counting from a position on, and stops at
the first one at which `step` fails. -/
structure IsLoop {α β : Type} (step : Nat → α → Except LayerError β)
    (run : Nat → List α → Except LayerError (List β)) : Prop where
  nil : ∀ position, run position [] = .ok []
  cons : ∀ position member rest, run position (member :: rest) =
    (step position member).bind fun value => (run (position + 1) rest).map (value :: ·)

namespace IsLoop

variable {α β : Type} {step : Nat → α → Except LayerError β}
  {run : Nat → List α → Except LayerError (List β)}

/-- If faults at later places come later, a loop reports the first of all faults. -/
theorem reports (hloop : IsLoop step run) {Fault : LayerError → Nat → α → Prop}
    (hstep : ∀ position member, Reports (step position member) (Fault · position member))
    (horder : ∀ {error later position position' member member'}, position < position' →
      Fault error position member → Fault later position' member' → Precedes error later)
    (position : Nat) (members : List α) :
    Reports (run position members) fun error => Somewhere (Fault error) position members := by
  induction members generalizing position with
  | nil =>
      rw [hloop.nil]
      refine .clean ?_
      rintro error ⟨offset, member, hmember, -⟩
      simp at hmember
  | cons member rest ih =>
      have hlater : ∀ error later, Fault error position member →
          Somewhere (Fault later) (position + 1) rest → Precedes error later := by
        rintro error later herror ⟨offset, found, -, hfound⟩
        exact horder (by omega) herror hfound
      rw [hloop.cons]
      refine ((hstep position member).bind (fun value => (ih (position + 1)).map (value :: ·))
        hlater).congr fun error => ?_
      rw [somewhere_cons_iff]

/-- If each step keeps what is looked at, so does the loop. -/
theorem map_eq (hloop : IsLoop step run) {view : β → α}
    (hstep : ∀ {position member value}, step position member = .ok value → view value = member)
    {position : Nat} {members : List α} {values : List β}
    (h : run position members = .ok values) : values.map view = members := by
  induction members generalizing position values with
  | nil =>
      rw [hloop.nil] at h
      obtain rfl := Except.ok.inj h
      rfl
  | cons member rest ih =>
      rw [hloop.cons, bind_eq_ok_iff] at h
      obtain ⟨value, hvalue, h⟩ := h
      obtain ⟨more, hmore, rfl⟩ := map_eq_ok_iff.1 h
      rw [List.map_cons, hstep hvalue, ih hmore]

end IsLoop

/-!
## Reading globs and checking namespaces
-/

/-- Reads the glob that stands at a place of its list. -/
def readGlob (layer : Nat) (list : GlobList) (position : Nat) (pattern : String) :
    Except LayerError Glob :=
  (Glob.ofString pattern).mapError (.invalidGlob layer list position pattern)

theorem readGlobs_isLoop (layer : Nat) (list : GlobList) :
    IsLoop (readGlob layer list) (readGlobs layer list) where
  nil _ := rfl
  cons position pattern rest := by
    rw [readGlobs, readGlob]
    cases Glob.ofString pattern with
    | error fault => rfl
    | ok glob => cases readGlobs layer list (position + 1) rest <;> rfl

/-- The fault is that of the glob with this place in its list. -/
def GlobFault (layer : Nat) (list : GlobList) (error : LayerError) (position : Nat)
    (pattern : String) : Prop :=
  ∃ fault, Glob.ofString pattern = .error fault ∧
    error = .invalidGlob layer list position pattern fault

theorem readGlobs_reports (layer : Nat) (list : GlobList) (position : Nat)
    (patterns : List String) :
    Reports (readGlobs layer list position patterns) fun error =>
      Somewhere (GlobFault layer list error) position patterns := by
  refine (readGlobs_isLoop layer list).reports (fun place pattern => .mapError _ _) ?_ _ _
  rintro error later place place' pattern pattern' hless ⟨fault, -, rfl⟩ ⟨fault', -, rfl⟩
  exact .earlierGlob hless

theorem patterns_of_readGlobs {layer : Nat} {list : GlobList} {position : Nat}
    {patterns : List String} {globs : List Glob}
    (h : readGlobs layer list position patterns = .ok globs) :
    globs.map (·.pattern) = patterns := by
  refine (readGlobs_isLoop layer list).map_eq ?_ h
  intro place pattern glob hglob
  exact (Glob.ofString_eq_ok_iff.1 (mapError_eq_ok_iff.1 hglob)).2

theorem checkScopes_cons (layer : Nat) (scope : String) (setting : Setting)
    (rest : List (String × Setting)) :
    checkScopes layer ((scope, setting) :: rest) =
      ((RuleName.checkScope scope).mapError (.invalidScope layer scope)).bind
        fun _ => checkScopes layer rest := by
  rw [checkScopes]
  cases RuleName.checkScope scope <;> rfl

/-- The fault is that of an entry whose key is no namespace. -/
def ScopeFault (layer : Nat) (error : LayerError) (entry : String × Setting) : Prop :=
  ∃ fault, RuleName.checkScope entry.1 = .error fault ∧
    error = .invalidScope layer entry.1 fault

theorem checkScopes_reports (layer : Nat) {entries : List (String × Setting)}
    (hascending : Ascending entries) :
    Reports (checkScopes layer entries) fun error =>
      ∃ entry ∈ entries, ScopeFault layer error entry := by
  induction entries with
  | nil => exact .clean (by simp)
  | cons entry rest ih =>
      obtain ⟨hsmaller, hrest⟩ := List.pairwise_cons.1 hascending
      have horder : ∀ error later, ScopeFault layer error entry →
          (∃ entry ∈ rest, ScopeFault layer later entry) → Precedes error later := by
        rintro error later ⟨fault, -, rfl⟩ ⟨next, hnext, fault', -, rfl⟩
        exact .smallerScope (hsmaller next hnext)
      rw [checkScopes_cons]
      refine ((Reports.mapError _ _).bind (fun _ => ih hrest) horder).congr ?_
      simp only [List.mem_cons, exists_eq_or_imp]
      exact fun error => Iff.rfl

/-!
## Loading one layer and all layers
-/

theorem loadLayer_eq (position : Nat) (raw : RawLayer) :
    loadLayer position raw =
      (readGlobs position .included 0 raw.included).bind fun included =>
        (readGlobs position .excluded 0 raw.excluded).bind fun excluded =>
          (checkScopes position raw.settings.entries).map fun _ =>
            ⟨included, excluded, raw.settings⟩ := by
  rw [loadLayer]
  cases readGlobs position .included 0 raw.included with
  | error fault => rfl
  | ok included =>
      cases readGlobs position .excluded 0 raw.excluded with
      | error fault => rfl
      | ok excluded => cases checkScopes position raw.settings.entries <;> rfl

theorem loadLayersFrom_isLoop : IsLoop loadLayer loadLayersFrom where
  nil _ := rfl
  cons position raw rest := by
    rw [loadLayersFrom]
    cases loadLayer position raw with
    | error fault => rfl
    | ok layer => cases loadLayersFrom (position + 1) rest <;> rfl

/-- Faults of a layer are those of its included globs, of its excluded globs and of its
namespaces. -/
theorem RawLayer.hasFault_iff {raw : RawLayer} {layer : Nat} {error : LayerError} :
    raw.HasFault layer error ↔
      Somewhere (GlobFault layer .included error) 0 raw.included ∨
        Somewhere (GlobFault layer .excluded error) 0 raw.excluded ∨
          ∃ entry ∈ raw.settings.entries, ScopeFault layer error entry := by
  constructor
  · rintro (@⟨list, position, pattern, fault, hpattern, hfault⟩ |
      @⟨scope, setting, fault, hentry, hne, hfault⟩)
    · have hplace : LayerError.invalidGlob layer list position pattern fault =
          .invalidGlob layer list (0 + position) pattern fault := by rw [Nat.zero_add]
      cases list with
      | included => exact .inl ⟨position, pattern, hpattern, fault, hfault, hplace⟩
      | excluded => exact .inr (.inl ⟨position, pattern, hpattern, fault, hfault, hplace⟩)
    · have hscope := RuleName.checkScope_eq_error_iff.2 ⟨hne, hfault⟩
      exact .inr (.inr ⟨(scope, setting), hentry, fault, hscope, rfl⟩)
  · rintro (⟨position, pattern, hpattern, fault, hfault, rfl⟩ |
      ⟨position, pattern, hpattern, fault, hfault, rfl⟩ | ⟨entry, hentry, fault, hscope, rfl⟩)
    · have hglob : (raw.globs .included)[position]? = some pattern := hpattern
      rw [Nat.zero_add]
      exact .glob hglob hfault
    · have hglob : (raw.globs .excluded)[position]? = some pattern := hpattern
      rw [Nat.zero_add]
      exact .glob hglob hfault
    · obtain ⟨hne, hfault⟩ := RuleName.checkScope_eq_error_iff.1 hscope
      exact .scope hentry hne hfault

theorem loadLayer_reports (layer : Nat) (raw : RawLayer) :
    Reports (loadLayer layer raw) (raw.HasFault layer) := by
  have hincluded := readGlobs_reports layer .included 0 raw.included
  have hexcluded := readGlobs_reports layer .excluded 0 raw.excluded
  have hscopes := checkScopes_reports layer raw.settings.ascending
  rw [loadLayer_eq]
  refine (hincluded.bind (fun included => hexcluded.bind (fun excluded => hscopes.map _) ?_)
    ?_).congr fun error => RawLayer.hasFault_iff.symm
  -- The excluded globs are read before the namespaces, and the included globs before both.
  · rintro error later ⟨_, _, -, _, -, rfl⟩ ⟨_, -, _, -, rfl⟩
    exact .globsFirst
  · rintro error later ⟨_, _, -, _, -, rfl⟩ (⟨_, _, -, _, -, rfl⟩ | ⟨_, -, _, -, rfl⟩)
    · exact .includedFirst
    · exact .globsFirst

theorem RawLayer.HasFault.layer_eq {raw : RawLayer} {layer : Nat} {error : LayerError}
    (h : raw.HasFault layer error) : error.layer = layer := by
  cases h with
  | glob => rfl
  | scope => rfl

theorem loadLayersFrom_reports (position : Nat) (raws : List RawLayer) :
    Reports (loadLayersFrom position raws) fun error =>
      Somewhere (fun layer raw => raw.HasFault layer error) position raws := by
  refine loadLayersFrom_isLoop.reports loadLayer_reports ?_ _ _
  intro error later place place' raw raw' hless herror hlater
  apply Precedes.earlierLayer
  rw [herror.layer_eq, hlater.layer_eq]
  exact hless

theorem loadLayers_reports (raws : List RawLayer) : Reports (loadLayers raws) (IsFault raws) := by
  refine (loadLayersFrom_reports 0 raws).congr fun error => ?_
  constructor
  · rintro ⟨layer, raw, hraw, hfault⟩
    rw [Nat.zero_add] at hfault
    obtain rfl := hfault.layer_eq
    exact ⟨raw, hraw, hfault⟩
  · rintro ⟨raw, hraw, hfault⟩
    exact ⟨error.layer, raw, hraw, (Nat.zero_add _).symm ▸ hfault⟩

theorem written_of_loadLayer {position : Nat} {raw : RawLayer} {layer : Layer}
    (h : loadLayer position raw = .ok layer) : layer.written = raw := by
  rw [loadLayer_eq, bind_eq_ok_iff] at h
  obtain ⟨included, hincluded, h⟩ := h
  obtain ⟨excluded, hexcluded, h⟩ := bind_eq_ok_iff.1 h
  obtain ⟨-, -, rfl⟩ := map_eq_ok_iff.1 h
  rw [Layer.written, patterns_of_readGlobs hincluded, patterns_of_readGlobs hexcluded]

/-!
## All or nothing
-/

theorem RawLayer.mem_globs_iff {raw : RawLayer} {pattern : String} :
    pattern ∈ raw.included ++ raw.excluded ↔ ∃ list, pattern ∈ raw.globs list := by
  rw [List.mem_append]
  constructor
  · rintro (hmem | hmem)
    · exact ⟨.included, hmem⟩
    · exact ⟨.excluded, hmem⟩
  · rintro ⟨list, hmem⟩
    cases list with
    | included => exact .inl hmem
    | excluded => exact .inr hmem

/-- A layer without faults is one of which everything can be used. -/
theorem RawLayer.loadable_iff {raw : RawLayer} (layer : Nat) :
    raw.Loadable ↔ ∀ error, ¬ raw.HasFault layer error := by
  constructor
  · rintro ⟨hglobs, hscopes⟩ error herror
    cases herror with
    | @glob list position pattern fault hpattern hfault =>
        have hmem := RawLayer.mem_globs_iff.2 ⟨list, List.mem_of_getElem? hpattern⟩
        obtain ⟨glob, hglob⟩ := hglobs pattern hmem
        rw [hglob] at hfault
        cases hfault
    | @scope scope setting fault hentry hne hfault =>
        rcases hscopes _ hentry with hempty | hvalid
        · exact hne hempty
        · rw [hvalid] at hfault
          cases hfault
  · intro hnone
    refine ⟨?_, ?_⟩
    · intro pattern hmem
      cases hread : Glob.ofString pattern with
      | ok glob => exact ⟨glob, rfl⟩
      | error fault =>
          obtain ⟨list, hlist⟩ := RawLayer.mem_globs_iff.1 hmem
          obtain ⟨position, hposition⟩ := List.mem_iff_getElem?.1 hlist
          exact absurd (.glob hposition hread) (hnone _)
    · rintro ⟨scope, setting⟩ hentry
      by_cases hempty : scope = ""
      · exact .inl hempty
      · cases hcheck : RuleName.check scope with
        | ok _ => exact .inr rfl
        | error fault => exact absurd (.scope hentry hempty hcheck) (hnone _)

theorem no_fault_iff {raws : List RawLayer} :
    (∀ error, ¬ IsFault raws error) ↔ ∀ raw ∈ raws, raw.Loadable := by
  constructor
  · intro hnone raw hraw
    obtain ⟨layer, hlayer⟩ := List.mem_iff_getElem?.1 hraw
    refine (RawLayer.loadable_iff layer).2 fun error hfault => ?_
    obtain rfl := hfault.layer_eq
    exact hnone error ⟨raw, hlayer, hfault⟩
  · rintro hall error ⟨raw, hraw, hfault⟩
    exact (RawLayer.loadable_iff _).1 (hall raw (List.mem_of_getElem? hraw)) error hfault

/-- Loading succeeds exactly when everything that is written can be used, and then gives the
layers in order and as they are written, pattern by pattern and entry by entry.  Otherwise
it ends with the first fault, which names the place where it stands. -/
theorem loadLayers_all_or_first_fault (raws : List RawLayer) :
    ((∃ layers, loadLayers raws = .ok layers) ↔ ∀ raw ∈ raws, raw.Loadable) ∧
    (∀ layers, loadLayers raws = .ok layers → layers.map Layer.written = raws) ∧
    (∀ error, loadLayers raws = .error error ↔
      IsFault raws error ∧ ∀ other, IsFault raws other → other ≠ error → Precedes error other) ∧
    (∀ layer position pattern fault,
      (invalidGlob layer .included position pattern fault).context =
        "configs[" ++ toString layer ++ "]." ++ "included_paths" ++
          "[" ++ toString position ++ "]" ∧
      (invalidGlob layer .excluded position pattern fault).context =
        "configs[" ++ toString layer ++ "]." ++ "excluded_paths" ++
          "[" ++ toString position ++ "]") ∧
    ∀ layer scope fault,
      (invalidScope layer scope fault).context =
        "configs[" ++ toString layer ++ "].rule_configs" := by
  have hreports := loadLayers_reports raws
  refine ⟨hreports.exists_ok_iff.trans no_fault_iff, ?_, ?_, ?_, ?_⟩
  · intro layers hlayers
    exact loadLayersFrom_isLoop.map_eq written_of_loadLayer hlayers
  · intro error
    exact hreports.eq_error_iff
  · intro layer position pattern fault
    exact ⟨rfl, rfl⟩
  · intro layer scope fault
    rfl

/-- A bad glob comes before a bad key of its layer, and before the faults of later layers. -/
example :
    (loadLayers
      [⟨["a/**"], [], .empty⟩, ⟨[], ["b", "bad/["], .ofList [("core::", ⟨none, none⟩)]⟩,
        ⟨[""], [], .empty⟩]).map List.length =
      .error (.invalidGlob 1 .excluded 1 "bad/[" (.brokenClass 4)) := by
  decide +kernel

end Config

end SchemaLint
