import SchemaLint.Report.Tree

namespace SchemaLint

namespace Report

/-!
# Reports in JSON

A report is written with one item or field to a line, indented by two blanks for each
level.  Only quotes, backslashes and control characters are escaped.
-/

/-- A hexadecimal digit. -/
def hexDigit (n : Nat) : Char :=
  if n < 10 then Char.ofNat ('0'.toNat + n) else Char.ofNat ('a'.toNat + (n - 10))

/-- A character inside quotes. -/
def jsonChar (c : Char) : List Char :=
  if c = '"' then ['\\', '"']
  else if c = '\\' then ['\\', '\\']
  else if c = '\n' then ['\\', 'n']
  else if c = '\r' then ['\\', 'r']
  else if c = '\t' then ['\\', 't']
  else if c = '\x08' then ['\\', 'b']
  else if c = '\x0c' then ['\\', 'f']
  else if c.toNat < 32 then ['\\', 'u', '0', '0', hexDigit (c.toNat / 16), hexDigit (c.toNat % 16)]
  else [c]

/-- A text in quotes. -/
def jsonText (text : List Char) : List Char := '"' :: (text.flatMap jsonChar ++ ['"'])

/-- A number in decimal digits. -/
def decimal : Int → List Char
  | .ofNat n => Nat.toDigits 10 n
  | .negSucc n => '-' :: Nat.toDigits 10 (n + 1)

/-- A new line at a level of indentation. -/
def newLine (level : Nat) : List Char := '\n' :: List.replicate (2 * level) ' '

mutual

/-- A report as a JSON text whose further lines stand at `level` and deeper. -/
def json (level : Nat) : Tree → List Char
  | .integer value => decimal value
  | .text value => jsonText value.toList
  | .list [] => ['[', ']']
  | .list (item :: rest) =>
    '[' :: (newLine (level + 1) ++ json (level + 1) item ++ jsonItems (level + 1) rest ++
      newLine level ++ [']'])
  | .record [] => ['\x7b', '\x7d']
  | .record ((name, value) :: rest) =>
    '\x7b' :: (newLine (level + 1) ++ jsonText name.toList ++ [':', ' '] ++
      json (level + 1) value ++ jsonFields (level + 1) rest ++ newLine level ++ ['\x7d'])

/-- The further items of a list. -/
def jsonItems (level : Nat) : List Tree → List Char
  | [] => []
  | item :: rest => ',' :: (newLine level ++ json level item ++ jsonItems level rest)

/-- The further fields of a record. -/
def jsonFields (level : Nat) : List (String × Tree) → List Char
  | [] => []
  | (name, value) :: rest =>
    ',' :: (newLine level ++ jsonText name.toList ++ [':', ' '] ++ json level value ++
      jsonFields level rest)

end

/-- The report of a run as a JSON text. -/
def jsonReport (responses : List Response) : String :=
  String.ofList (json 0 (ofResponses responses) ++ ['\n'])

end Report

end SchemaLint
