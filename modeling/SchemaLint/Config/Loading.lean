import SchemaLint.Config.Layer

namespace SchemaLint

namespace Config

/-!
# Loading layers

A configuration text gives layers whose globs and namespaces are still plain text.
Loading checks them in order and stops at the first fault, whose place it names.
-/

/-- A layer as it is written. -/
structure RawLayer where
  included : List String := []
  excluded : List String := []
  settings : Settings := .empty

/-- The two lists of globs of a layer. -/
inductive GlobList where
  | included
  | excluded
deriving DecidableEq, Inhabited

namespace GlobList

/-- The key under which the list is written. -/
def key : GlobList → String
  | included => "included_paths"
  | excluded => "excluded_paths"

end GlobList

/-- A fault in a written layer.  Layers and globs are counted from zero. -/
inductive LayerError where
  | invalidGlob (layer : Nat) (list : GlobList) (position : Nat) (pattern : String)
    (fault : GlobError)
  | invalidScope (layer : Nat) (scope : String) (fault : NameError)
deriving DecidableEq, Inhabited

namespace LayerError

/-- Where the fault is. -/
def context : LayerError → String
  | invalidGlob layer list position _ _ => s!"configs[{layer}].{list.key}[{position}]"
  | invalidScope layer _ _ => s!"configs[{layer}].rule_configs"

/-- The wording of the fault. -/
def message (error : LayerError) : String :=
  match error with
  | invalidGlob _ _ _ pattern fault =>
    s!"{error.context}: invalid glob `{pattern}`: {fault.message}"
  | invalidScope _ scope fault =>
    s!"{error.context}: invalid rule prefix `{scope}`: {fault.message}"

end LayerError

/-- Reads the globs of one list; the first stands at `position`. -/
def readGlobs (layer : Nat) (list : GlobList) (position : Nat) :
    List String → Except LayerError (List Glob)
  | [] => .ok []
  | pattern :: rest =>
    match Glob.ofString pattern with
    | .error fault => .error (.invalidGlob layer list position pattern fault)
    | .ok glob =>
      match readGlobs layer list (position + 1) rest with
      | .error fault => .error fault
      | .ok globs => .ok (glob :: globs)

/-- Looks for the first entry whose key is no namespace. -/
def checkScopes (layer : Nat) : List (String × Setting) → Except LayerError Unit
  | [] => .ok ()
  | (scope, _) :: rest =>
    match RuleName.checkScope scope with
    | .error fault => .error (.invalidScope layer scope fault)
    | .ok () => checkScopes layer rest

/-- The layer that is written at `position`. -/
def loadLayer (position : Nat) (raw : RawLayer) : Except LayerError Layer :=
  match readGlobs position .included 0 raw.included with
  | .error fault => .error fault
  | .ok included =>
    match readGlobs position .excluded 0 raw.excluded with
    | .error fault => .error fault
    | .ok excluded =>
      match checkScopes position raw.settings.entries with
      | .error fault => .error fault
      | .ok () => .ok ⟨included, excluded, raw.settings⟩

/-- The layers that are written from `position` on. -/
def loadLayersFrom (position : Nat) : List RawLayer → Except LayerError (List Layer)
  | [] => .ok []
  | raw :: rest =>
    match loadLayer position raw with
    | .error fault => .error fault
    | .ok layer =>
      match loadLayersFrom (position + 1) rest with
      | .error fault => .error fault
      | .ok layers => .ok (layer :: layers)

/-- The layers of a configuration text. -/
def loadLayers (raws : List RawLayer) : Except LayerError (List Layer) := loadLayersFrom 0 raws

end Config

end SchemaLint
