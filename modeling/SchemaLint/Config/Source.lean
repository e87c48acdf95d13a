import SchemaLint.Config.FromYaml
import SchemaLint.Disk
import SchemaLint.Suppression

namespace SchemaLint

namespace Config

/-!
# Configuration files

Where configuration comes from: the files that are named explicitly, else the first of
the usual files of the project, else the global file.  All layers of all sources are
put into one list, in order.
-/

/-- Why a configuration cannot be used. -/
inductive ConfigError where
  | unreadable (path : String) (fault : ReadError)
  | malformedJson
  | malformedYaml
  | unsupportedFormat (path : String)
  | invalidLayer (fault : LayerError)
  | invalidDirective (fault : SuppressionError)
deriving DecidableEq, Inhabited

namespace ConfigError

/-- The wording of the error. -/
def message : ConfigError → String
  | unreadable path fault => s!"Failed to read config file {path}: {fault.message}"
  | malformedJson => "Failed to parse JSON config"
  | malformedYaml => "Failed to parse YAML config"
  | unsupportedFormat path => s!"Unsupported config format: {path}"
  | invalidLayer fault => fault.message
  | invalidDirective fault => fault.message

/-- The code of the error. -/
def code : ConfigError → String
  | unreadable _ _ => "protolint::config::io"
  | malformedJson | malformedYaml => "protolint::config::parse"
  | unsupportedFormat _ => "protolint::config::format"
  | invalidLayer (.invalidGlob _ _ _ _ _) => "protolint::config::glob"
  | invalidLayer (.invalidScope _ _ _) => "protolint::config::rule_prefix"
  | invalidDirective _ => "protolint::config::directive"

/-- What to do about the error. -/
def help? : ConfigError → Option String
  | unsupportedFormat _ => some "use a .json, .yaml or .yml file"
  | invalidDirective _ =>
    some "directives look like `(-- api-linter: <rule-name>=disabled --)`"
  | _ => none

/-- The error and what caused it, one after the other. -/
def causes (error : ConfigError) : List String :=
  error.message ::
    match error with
    | unreadable _ fault => [fault.message]
    | malformedJson | malformedYaml | unsupportedFormat _ => []
    | invalidLayer (.invalidGlob _ _ _ _ _) => []
    | invalidLayer (.invalidScope _ _ fault) => [fault.message]
    | invalidDirective fault => [fault.message, fault.fault.message]

end ConfigError

/-- The layers of written layers. -/
def ofRaw (raws : List RawLayer) : Except ConfigError (List Layer) :=
  match loadLayers raws with
  | .ok layers => .ok layers
  | .error fault => .error (.invalidLayer fault)

/-- The layers of a JSON text. -/
def ofJson (text : String) : Except ConfigError (List Layer) :=
  match rawLayersOfJson? text with
  | some raws => ofRaw raws
  | none => .error .malformedJson

/-- The layers of a YAML text. -/
def ofYaml (text : String) : Except ConfigError (List Layer) :=
  match rawLayersOfYaml? text with
  | some raws => ofRaw raws
  | none => .error .malformedYaml

/-- The layers of a file, whose extension tells the format. -/
def ofFile (disk : Disk) (path : String) : Except ConfigError (List Layer) :=
  match disk.readText path with
  | .error fault => .error (.unreadable path fault)
  | .ok text =>
    match Disk.extension? path with
    | some "json" => ofJson text
    | some "yaml" | some "yml" => ofYaml text
    | _ => .error (.unsupportedFormat path)

/-- Why a file was chosen as a source. -/
inductive Origin where
  | explicit
  | project
  | global
deriving DecidableEq, Inhabited

namespace Origin

/-- The word for an origin. -/
def word : Origin → String
  | explicit => "explicit"
  | project => "project"
  | global => "global"

end Origin

/-- A configuration file to load. -/
structure Source where
  origin : Origin
  path : String
deriving DecidableEq, Inhabited

/-- The usual names of a project's configuration, in order of preference. -/
def projectNames : List String := ["protolint.yaml", ".protolint.yaml", "protolint.json"]

/-- The name of the global configuration in its directory. -/
def globalName : String := "config.yaml"

/-- The directory of the global configuration: the one given, or one in the home
directory. -/
def globalDirectory (configDirectory home : Option String) : Option String :=
  match configDirectory with
  | some directory => some directory
  | none => home.map fun home => Disk.join home ".protolint"

/-- Chooses the files to load. -/
def discover (disk : Disk) (project : String) (global : Option String) (explicit : List String) :
    List Source :=
  if explicit.isEmpty then
    match (projectNames.map (Disk.join project)).find? disk.contains with
    | some path => [⟨.project, path⟩]
    | none =>
      match global.map fun directory => Disk.join directory globalName with
      | some path => if disk.contains path then [⟨.global, path⟩] else []
      | none => []
  else explicit.map fun path => ⟨.explicit, path⟩

/-- Loads sources in order.  The error comes with the path that it concerns. -/
def loadSources (disk : Disk) : List Source → Except (String × ConfigError) (List Layer)
  | [] => .ok []
  | source :: rest =>
    match ofFile disk source.path with
    | .error fault => .error (source.path, fault)
    | .ok layers =>
      match loadSources disk rest with
      | .error fault => .error fault
      | .ok more => .ok (layers ++ more)

end Config

end SchemaLint
