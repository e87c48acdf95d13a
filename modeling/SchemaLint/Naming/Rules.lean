import SchemaLint.Naming.Case
import SchemaLint.Rule

namespace SchemaLint

namespace Naming

/-!
# The naming rules

The built-in catalog: fields, messages, enum values and methods are held to the
naming conventions of the schema language's style guide.  Each problem suggests the
name in the wanted convention.
-/

/-- The style guide that the naming rules enforce. -/
def styleGuide : String := "https://protobuf.dev/programming-guides/style/"

/-- The rule that elements of one kind follow a convention.  `noun` names such an
element in problems and `subject` in the description. -/
def conventionRule (name : String) (kind : Schema.ElementKind) (noun subject : String)
    (convention : Convention) : Rule :=
  Rule.guarded {
    name := name
    kind := .only kind
    description := s!"{subject} names must be {convention.title}"
    uri := some styleGuide
    check := fun element =>
      if convention.accepts element.name.toList then .ok []
      else .ok [{
        message := s!"{noun} `{element.name}` should be {convention.title}."
        suggestion := some (String.ofList (convention.convert element.name.toList))
        element := element.ref }] }

/-- Field names are in `lower_snake_case`. -/
def fieldRule : Rule :=
  conventionRule "core::naming::lower_snake" .field "Field" "Field" lowerSnake

/-- Message names are in `UpperCamelCase`. -/
def messageRule : Rule :=
  conventionRule "core::naming::upper_camel" .message "Message" "Message" upperCamel

/-- Enum value names are in `UPPER_SNAKE_CASE`. -/
def enumValueRule : Rule :=
  conventionRule "core::naming::enum_value_upper_snake" .enumValue "Enum value" "Enum value"
    upperSnake

/-- Method names are in `UpperCamelCase`. -/
def methodRule : Rule :=
  conventionRule "core::naming::method_upper_camel" .method "Method" "RPC method" upperCamel

/-- The built-in rules in order. -/
def catalog : List Rule := [fieldRule, messageRule, enumValueRule, methodRule]

end Naming

end SchemaLint
