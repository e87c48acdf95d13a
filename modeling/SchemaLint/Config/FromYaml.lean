import SchemaLint.Config.FromJson
import SchemaLint.Text.Blank
import SchemaLint.Yaml.Shape

namespace SchemaLint

namespace Config

/-!
# Configuration in YAML

A configuration text in YAML is a list of layers, like one in JSON.  A text of blanks
only, and one without a document, hold no layers.
-/

/-- The setting that a node describes. -/
def Setting.ofYaml (node : Yaml.Node) : Yaml.Reading Setting := do
  match ← Yaml.record ["status", "category"] node with
  | [status, category] =>
    let status ← Yaml.orDefault none (Yaml.optional (Yaml.choice Status.word Status.all)) status
    let category ←
      Yaml.orDefault none (Yaml.optional (Yaml.choice Category.word Category.all)) category
    return ⟨status, category⟩
  | _ => failure

/-- The settings that a node describes; of a repeated key the last entry counts. -/
def Settings.ofYaml (node : Yaml.Node) : Yaml.Reading Settings :=
  ofList <$> Yaml.map Setting.ofYaml node

/-- The layer that a node describes. -/
def RawLayer.ofYaml (node : Yaml.Node) : Yaml.Reading RawLayer := do
  match ← Yaml.record ["included_paths", "excluded_paths", "rule_configs"] node with
  | [included, excluded, settings] =>
    let included ← Yaml.orDefault [] (Yaml.list Yaml.text) included
    let excluded ← Yaml.orDefault [] (Yaml.list Yaml.text) excluded
    let settings ← Yaml.orDefault .empty Settings.ofYaml settings
    return ⟨included, excluded, settings⟩
  | _ => failure

/-- The layers that a YAML text describes. -/
def rawLayersOfYaml? (text : String) : Option (List RawLayer) :=
  if text.toList.all Text.isBlank then some []
  else
    match Yaml.Document.parse? text with
    | some document => document.read? [] (Yaml.list RawLayer.ofYaml)
    | none => none

end Config

end SchemaLint
