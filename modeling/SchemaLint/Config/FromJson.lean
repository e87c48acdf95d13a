import SchemaLint.Config.Loading
import SchemaLint.Json.Shape

namespace SchemaLint

namespace Config

/-!
# Configuration in JSON

A configuration text in JSON is a list of layers.  Layers and settings are closed
records: a key that is not known is a fault.
-/

namespace Status

/-- All words for a status. -/
def all : List Status := [enabled, disabled]

/-- The status that a value names. -/
def ofJson? (value : Json) : Option Status := value.choice? word all

end Status

end Config

namespace Category

/-- All categories. -/
def all : List Category := [warning, error]

/-- The category that a value names. -/
def ofJson? (value : Json) : Option Category := value.choice? word all

end Category

namespace Config

/-- The setting that a value describes. -/
def Setting.ofJson? (value : Json) : Option Setting :=
  match value.record? true ["status", "category"] with
  | some [status, category] =>
    match Json.optional? Status.ofJson? status, Json.optional? Category.ofJson? category with
    | some status, some category => some ⟨status, category⟩
    | _, _ => none
  | _ => none

/-- The settings that an object describes; of a repeated key the last entry counts. -/
def Settings.ofJson? : Json → Option Settings
  | .object members => (Json.members? Setting.ofJson? members).map ofList
  | _ => none

/-- The layer that a value describes. -/
def RawLayer.ofJson? (value : Json) : Option RawLayer :=
  match value.record? true ["included_paths", "excluded_paths", "rule_configs"] with
  | some [included, excluded, settings] =>
    match Json.orDefault? [] (Json.list? Json.text?) included,
      Json.orDefault? [] (Json.list? Json.text?) excluded,
      Json.orDefault? .empty Settings.ofJson? settings with
    | some included, some excluded, some settings => some ⟨included, excluded, settings⟩
    | _, _, _ => none
  | _ => none

/-- The layers that a JSON text describes. -/
def rawLayersOfJson? (text : String) : Option (List RawLayer) :=
  match Json.parse? text with
  | some value => value.list? RawLayer.ofJson?
  | none => none

end Config

end SchemaLint
