import SchemaLint.Config.Source
import SchemaLint.Lint
import SchemaLint.Report.Text
import SchemaLint.Report.Yaml
import SchemaLint.Schema.Source
import Std.Data.HashSet

namespace SchemaLint

namespace Command

/-!
# The lint command

Linting from the command line: configuration is gathered, the compiled sets are read,
files are chosen from them, and the report of the run is written.  Whatever goes wrong
first ends the command.

Overrides from the command line come after all configuration, those that disable last,
so that they have the last word.
-/

/-- The forms of a report. -/
inductive Format where
  | text
  | json
  | yaml
deriving DecidableEq, Inhabited

namespace Format

/-- The word for a form. -/
def word : Format → String
  | text => "text"
  | json => "json"
  | yaml => "yaml"

/-- All forms. -/
def all : List Format := [text, json, yaml]

/-- The form that a word names. -/
def ofWord? (found : String) : Option Format := all.find? fun format => format.word = found

end Format

/-- The report of a run in a given form. -/
def report (format : Format) (responses : List Response) : String :=
  match format with
  | .text => Report.textReport responses
  | .json => Report.jsonReport responses
  | .yaml => Report.yamlReport responses

/-- What the lint command is asked to do. -/
structure LintOptions where
  sets : List String := []
  files : List String := []
  configs : List String := []
  format : Format := .text
  enabled : List String := []
  disabled : List String := []
  ignoreDirectives : Bool := false
  failOnProblems : Bool := false
  parallel : Bool := false
deriving DecidableEq, Inhabited

/-- Where the command runs: the project's directory, and that of the global configuration. -/
structure Surroundings where
  disk : Disk
  project : String
  global : Option String

/-- Why the lint command fails. -/
inductive LintError where
  | configuration (path : String) (fault : Config.ConfigError)
  | override (option value : String) (fault : NameError)
  | set (path : String) (fault : Schema.SetError)
  | unknownFile (name : String)
  | run (fault : SuppressionError)
deriving DecidableEq, Inhabited

namespace LintError

/-- The error and what caused it, one after the other. -/
def causes : LintError → List String
  | configuration path fault => s!"Failed to load config: {path}" :: fault.causes
  | override option value fault => [s!"Invalid {option} value `{value}`", fault.message]
  | set path fault => s!"Failed to load descriptor set: {path}" :: fault.causes
  | unknownFile name => [s!"{name} was not found in any descriptor set"]
  | run fault => "Lint run failed" :: (Config.ConfigError.invalidDirective fault).causes

/-- The wording of the error. -/
def message (error : LintError) : String := error.causes.headD ""

end LintError

/-- Looks for the first override that is no namespace. -/
def checkOverrides (option : String) : List String → Except LintError Unit
  | [] => .ok ()
  | scope :: rest =>
    match RuleName.checkScope scope with
    | .error fault => .error (.override option scope fault)
    | .ok () => checkOverrides option rest

/-- The layer that gives namespaces a status in every file; there is none for no
namespaces. -/
def overrideLayer (option : String) (status : Config.Status) (scopes : List String) :
    Except LintError (List Config.Layer) :=
  match checkOverrides option scopes with
  | .error fault => .error fault
  | .ok () =>
    if scopes.isEmpty then .ok []
    else
      .ok [{
        included := []
        excluded := []
        settings := .ofList (scopes.map fun scope => (scope, { status := some status })) }]

/-- The layers for what the command line enables and disables. -/
def overrideLayers (enabled disabled : List String) : Except LintError (List Config.Layer) :=
  match overrideLayer "--enable-rule" .enabled enabled with
  | .error fault => .error fault
  | .ok enabling =>
    match overrideLayer "--disable-rule" .disabled disabled with
    | .error fault => .error fault
    | .ok disabling => .ok (enabling ++ disabling)

/-- The files of the compiled set at a path. -/
def loadSet (disk : Disk) (path : String) : Except LintError (List Schema.File) :=
  match Schema.File.readSet disk path with
  | .error fault => .error (.set path fault)
  | .ok files => .ok files

/-- The files of several compiled sets. -/
def loadSets (disk : Disk) : List String → Except LintError (List (List Schema.File))
  | [] => .ok []
  | path :: rest =>
    match loadSet disk path with
    | .error fault => .error fault
    | .ok files =>
      match loadSets disk rest with
      | .error fault => .error fault
      | .ok more => .ok (files :: more)

/-- Drops the items whose key is among those seen or has occurred before. -/
def dropRepeated {α : Type} (key : α → String) (seen : Std.HashSet String) : List α → List α
  | [] => []
  | item :: rest =>
    if seen.contains (key item) then dropRepeated key seen rest
    else item :: dropRepeated key (seen.insert (key item)) rest

/-- The files of several sets; of a file that is in several the first copy is kept. -/
def distinctFiles (sets : List (List Schema.File)) : List Schema.File :=
  dropRepeated Schema.File.name ∅ sets.flatten

/-- Files by their names.  Of several files of one name the last one stays. -/
def byName (files : List Schema.File) : Std.HashMap String Schema.File :=
  files.foldl (fun found file => found.insert file.name file) ∅

/-- The files of the given names, in this order.  Each is taken out of those that are left. -/
def filesNamed (left : Std.HashMap String Schema.File) :
    List String → Except LintError (List Schema.File)
  | [] => .ok []
  | name :: rest =>
    match left[name]? with
    | none => .error (.unknownFile name)
    | some file =>
      match filesNamed (left.erase name) rest with
      | .error fault => .error fault
      | .ok more => .ok (file :: more)

/-- The files to lint: those that are named, each once, or all when none is named. -/
def selectFiles (files : List Schema.File) (names : List String) :
    Except LintError (List Schema.File) :=
  if names.isEmpty then .ok files else filesNamed (byName files) (dropRepeated id ∅ names)

/-- Whether the command fails after a finished run.  A failed rule always counts, a problem
only on demand. -/
def shouldFail (failOnProblems : Bool) (responses : List Response) : Bool :=
  responses.any (fun response => !response.failures.isEmpty) ||
    (failOnProblems && responses.any fun response => !response.problems.isEmpty)

/-- What a finished command leaves behind. -/
structure Outcome where
  failed : Bool
  output : String
deriving DecidableEq, Inhabited

/-- The layers that hold for a command. -/
def layersFor (surroundings : Surroundings) (options : LintOptions) :
    Except LintError (List Config.Layer) :=
  let sources := Config.discover surroundings.disk surroundings.project surroundings.global
    options.configs
  match Config.loadSources surroundings.disk sources with
  | .error (path, fault) => .error (.configuration path fault)
  | .ok layers =>
    match overrideLayers options.enabled options.disabled with
    | .error fault => .error fault
    | .ok overrides => .ok (layers ++ overrides)

/-- The files that a command is about. -/
def filesFor (surroundings : Surroundings) (options : LintOptions) :
    Except LintError (List Schema.File) :=
  match loadSets surroundings.disk options.sets with
  | .error fault => .error fault
  | .ok sets => selectFiles (distinctFiles sets) options.files

/-- Runs the lint command. -/
def lint (surroundings : Surroundings) (registry : Registry) (options : LintOptions) :
    Except LintError Outcome :=
  match layersFor surroundings options with
  | .error fault => .error fault
  | .ok layers =>
    match filesFor surroundings options with
    | .error fault => .error fault
    | .ok files =>
      match Lint.run ⟨layers, options.ignoreDirectives, options.parallel⟩ registry files with
      | .error fault => .error (.run fault)
      | .ok responses =>
        .ok ⟨shouldFail options.failOnProblems responses, report options.format responses⟩

end Command

end SchemaLint
