import SchemaLint.Registry

namespace SchemaLint

namespace Command

/-!
# The list of rules

The table of all rules with their kinds and descriptions, and a hint on how to switch
rules off.
-/

/-- A text filled up with blanks to a number of characters. -/
def padded (width : Nat) (text : String) : String :=
  String.ofList (text.toList ++ List.replicate (width - text.length) ' ')

/-- A row of the table. -/
def tableRow (name kind description : String) : String :=
  padded 42 name ++ " " ++ padded 12 kind ++ " " ++ description ++ "\n"

/-- The table of rules. -/
def listRules (registry : Registry) : String :=
  "Available rules:\n\n" ++ tableRow "Name" "Kind" "Description" ++
    String.ofList (List.replicate 96 '-') ++ "\n" ++
    String.join (registry.rules.map fun rule =>
      tableRow rule.name rule.kind.word rule.description) ++
    "\nDisable a rule or a whole namespace, e.g.:\n" ++
    "  protolint lint --disable-rule core::naming::lower_snake ...\n" ++
    "  // (-- api-linter: core::naming=disabled --)\n"

end Command

end SchemaLint
