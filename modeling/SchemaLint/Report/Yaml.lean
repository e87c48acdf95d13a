import SchemaLint.Report.Json
import SchemaLint.Yaml.Style

namespace SchemaLint

namespace Report

/-!
# Reports in YAML

A report is written in block style.  Records are indented by two blanks below their
key, and the items of a list stand at the column of their key.
-/

mutual

/-- The text of what follows a dash, which starts at `column` in the same line. -/
def yamlItem (column : Nat) : Tree → List Char
  | .integer value => decimal value ++ ['\n']
  | .text value => Yaml.scalarText column value.toList
  | .list [] => ['[', ']', '\n']
  | .list (item :: rest) => '-' :: ' ' :: (yamlItem (column + 2) item ++ yamlItems column rest)
  | .record [] => ['\x7b', '\x7d', '\n']
  | .record ((name, value) :: rest) =>
    name.toList ++ ':' :: (yamlValue column value ++ yamlFields column rest)

/-- The text of what follows a key at `column`. -/
def yamlValue (column : Nat) : Tree → List Char
  | .integer value => ' ' :: (decimal value ++ ['\n'])
  | .text value => ' ' :: Yaml.scalarText (column + 2) value.toList
  | .list [] => [' ', '[', ']', '\n']
  | .list (item :: rest) =>
    '\n' :: (Yaml.indentation column ++ '-' :: ' ' ::
      (yamlItem (column + 2) item ++ yamlItems column rest))
  | .record [] => [' ', '\x7b', '\x7d', '\n']
  | .record ((name, value) :: rest) =>
    '\n' :: (Yaml.indentation (column + 2) ++ name.toList ++ ':' ::
      (yamlValue (column + 2) value ++ yamlFields (column + 2) rest))

/-- The further items of a list at `column`. -/
def yamlItems (column : Nat) : List Tree → List Char
  | [] => []
  | item :: rest =>
    Yaml.indentation column ++ '-' :: ' ' :: (yamlItem (column + 2) item ++ yamlItems column rest)

/-- The further fields of a record at `column`. -/
def yamlFields (column : Nat) : List (String × Tree) → List Char
  | [] => []
  | (name, value) :: rest =>
    Yaml.indentation column ++ name.toList ++ ':' ::
      (yamlValue column value ++ yamlFields column rest)

end

/-- The report of a run as a YAML text. -/
def yamlReport (responses : List Response) : String :=
  String.ofList (yamlItem 0 (ofResponses responses))

end Report

end SchemaLint
