import SchemaLint.Config.Settings
import SchemaLint.Glob.Match
import SchemaLint.RuleName

namespace SchemaLint

namespace Config

/-!
# Layers of configuration

A layer speaks about the files that its globs choose.  Of its settings only the
most specific namespace around a rule counts.  Layers are ordered: a later one
overrides an earlier one, for status and category separately, and whatever a layer
leaves open stays as it was.
-/

/-- One layer of configuration. -/
structure Layer where
  included : List Glob
  excluded : List Glob
  settings : Settings

namespace Layer

/-- Whether the layer speaks about a file.  A layer that includes nothing in particular
speaks about every file that it does not exclude. -/
def appliesTo (layer : Layer) (path : String) : Bool :=
  (layer.included.isEmpty || layer.included.any (·.covers path)) &&
    !layer.excluded.any (·.covers path)

/-- Of two entries the one with the longer namespace, and the second if they are equally
long. -/
def longer (left right : String × Setting) : String × Setting :=
  if right.1.utf8ByteSize < left.1.utf8ByteSize then left else right

/-- The entry for the most specific namespace around a rule. -/
def mostSpecific? (layer : Layer) (rule : String) : Option (String × Setting) :=
  match layer.settings.entries.filter fun entry => RuleName.encloses entry.1 rule with
  | [] => none
  | first :: rest => some (rest.foldl longer first)

end Layer

/-- What configuration decides about a rule in a file. -/
structure Resolution where
  enabled : Bool
  category : Category
deriving DecidableEq, Inhabited

namespace Resolution

/-- What holds when no layer says anything. -/
def unset : Resolution := ⟨true, .warning⟩

/-- What holds after a setting; what it leaves open stays. -/
def override (resolution : Resolution) (setting : Setting) : Resolution where
  enabled :=
    match setting.status with
    | some status => status = .enabled
    | none => resolution.enabled
  category := setting.category.getD resolution.category

end Resolution

/-- What holds after one more layer. -/
def applyLayer (path rule : String) (resolution : Resolution) (layer : Layer) : Resolution :=
  if layer.appliesTo path then
    match layer.mostSpecific? rule with
    | some (_, setting) => resolution.override setting
    | none => resolution
  else resolution

/-- What the layers decide about a rule in the file at `path`. -/
def configured (layers : List Layer) (path rule : String) : Resolution :=
  layers.foldl (applyLayer path rule) .unset

end Config

end SchemaLint
