import SchemaLint.Rule
import SchemaLint.RuleName
import Std.Data.HashMap

namespace SchemaLint

/-!
# The registry of rules

A registry keeps rules in the order in which they were registered, which is also
the order in which they run.  Names are valid rule names and stay distinct when
their letters are lowered, so that no two rules differ only in case.

Beside the rules stands an index from lowered names to positions.
-/

/-- Why a rule cannot be registered. -/
inductive RegistryError where
  | malformedName (name : String) (fault : NameError)
  | differsInCase (name : String) (registered : String)
  | duplicateName (name : String)
deriving DecidableEq, Inhabited

namespace RegistryError

/-- The wording of a registry error. -/
def message : RegistryError → String
  | malformedName name fault => s!"invalid rule name `{name}`: {fault.message}"
  | differsInCase name registered =>
    s!"invalid rule name `{name}`: differs only in case from registered rule `{registered}`"
  | duplicateName name => s!"rule `{name}` is already registered"

/-- The code of a registry error. -/
def code : RegistryError → String
  | malformedName _ _ | differsInCase _ _ => "protolint::registry::invalid_name"
  | duplicateName _ => "protolint::registry::duplicate_name"

end RegistryError

/-- Rules in order of registration, with their index. -/
structure Registry where
  rules : List Rule
  positions : Std.HashMap String Nat

namespace Registry

/-- The registry without rules. -/
def empty : Registry := ⟨[], ∅⟩

/-- A name with its ASCII letters lowered. -/
def fold (name : String) : String := String.ofList (name.toList.map Char.toLower)

/-- The rule whose lowered name is that of `name`. -/
def atFolded? (registry : Registry) (name : String) : Option Rule :=
  match registry.positions[fold name]? with
  | some position => registry.rules[position]?
  | none => none

/-- Puts one more rule behind the others, or gives the fault for which it is refused. -/
def register (registry : Registry) (rule : Rule) : Registry × Option RegistryError :=
  match RuleName.check rule.name with
  | .error fault => (registry, some (.malformedName rule.name fault))
  | .ok () =>
    match registry.atFolded? rule.name with
    | some registered =>
      if registered.name = rule.name then (registry, some (.duplicateName rule.name))
      else (registry, some (.differsInCase rule.name registered.name))
    | none =>
      ({ rules := registry.rules ++ [rule]
         positions := registry.positions.insert (fold rule.name) registry.rules.length }, none)

/-- Registers rules one after the other up to the first that cannot be registered, and
gives the fault that stopped it. -/
def registerAll (registry : Registry) : List Rule → Registry × Option RegistryError
  | [] => (registry, none)
  | rule :: rest =>
    match registry.register rule with
    | (larger, none) => larger.registerAll rest
    | (last, some fault) => (last, some fault)

/-- The registry of the given rules. -/
def ofList (rules : List Rule) : Except RegistryError Registry :=
  match empty.registerAll rules with
  | (registry, none) => .ok registry
  | (_, some fault) => .error fault

/-- The rules that `scope` encloses, in order. -/
def below (registry : Registry) (scope : String) : List Rule :=
  registry.rules.filter fun rule => RuleName.encloses scope rule.name

/-- The rule of exactly this name. -/
def get? (registry : Registry) (name : String) : Option Rule :=
  (registry.atFolded? name).filter fun rule => rule.name = name

end Registry

end SchemaLint
