namespace SchemaLint

namespace Naming

/-!
# Letter cases of identifiers

Three conventions for identifiers, each with a test and a conversion:
`lower_snake_case`, `UPPER_SNAKE_CASE` and `UpperCamelCase`.  Only ASCII letters and
digits have a case or count as parts of words; a conversion leaves every other
character as it is.
-/

/-- Whether a first character exists and passes a test. -/
def startsWith (test : Char → Bool) : List Char → Bool
  | [] => false
  | c :: _ => test c

/-- Whether no two underscores meet and none stands at the end. -/
def wellSeparated : List Char → Bool
  | [] => true
  | ['_'] => false
  | '_' :: '_' :: _ => false
  | _ :: rest => wellSeparated rest

/-- Whether a name is in `lower_snake_case`. -/
def isLowerSnake (name : List Char) : Bool :=
  startsWith Char.isLower name &&
    name.all (fun c => c.isLower || c.isDigit || c == '_') && wellSeparated name

/-- Whether a name is in `UPPER_SNAKE_CASE`. -/
def isUpperSnake (name : List Char) : Bool :=
  startsWith Char.isUpper name &&
    name.all (fun c => c.isUpper || c.isDigit || c == '_') && wellSeparated name

/-- Whether a name is in `UpperCamelCase`. -/
def isUpperCamel (name : List Char) : Bool :=
  startsWith Char.isUpper name && name.all Char.isAlphanum

/-- Whether a word starts at a capital letter that has `previous` before it and `rest`
behind it: after a small letter or a digit, and at the last of several capitals when a
small letter follows. -/
def startsWord (previous : Char) (rest : List Char) : Bool :=
  previous.isLower || previous.isDigit || (previous.isUpper && startsWith Char.isLower rest)

/-- Lowers the characters behind `previous`, with an underscore before each word. -/
def lowerWords (previous : Char) : List Char → List Char
  | [] => []
  | c :: rest =>
    if c.isUpper && startsWord previous rest then '_' :: c.toLower :: lowerWords c rest
    else c.toLower :: lowerWords c rest

/-- The name in `lower_snake_case`. -/
def toLowerSnake : List Char → List Char
  | [] => []
  | c :: rest => c.toLower :: lowerWords c rest

/-- The name in `UPPER_SNAKE_CASE`. -/
def toUpperSnake (name : List Char) : List Char := (toLowerSnake name).map Char.toUpper

/-- Drops underscores and raises the first character of each word; `atStart` says that a
word starts here. -/
def joinWords (atStart : Bool) : List Char → List Char
  | [] => []
  | c :: rest =>
    if c = '_' then joinWords true rest
    else (if atStart then c.toUpper else c) :: joinWords false rest

/-- The name in `UpperCamelCase`. -/
def toUpperCamel (name : List Char) : List Char := joinWords true (toLowerSnake name)

/-- A convention for names: its title, its test and its conversion. -/
structure Convention where
  title : String
  accepts : List Char → Bool
  convert : List Char → List Char

/-- The convention `lower_snake_case`. -/
def lowerSnake : Convention := ⟨"lower_snake_case", isLowerSnake, toLowerSnake⟩

/-- The convention `UPPER_SNAKE_CASE`. -/
def upperSnake : Convention := ⟨"UPPER_SNAKE_CASE", isUpperSnake, toUpperSnake⟩

/-- The convention `UpperCamelCase`. -/
def upperCamel : Convention := ⟨"UpperCamelCase", isUpperCamel, toUpperCamel⟩

end Naming

end SchemaLint
