import SchemaLint.Schema.SourceMap

namespace SchemaLint

namespace Schema

/-!
# Compiled schema files

The part of a compiled schema that rules can see: messages with their fields,
nested messages and enums, top-level enums, and services, together with the
comments and spans that the compiler recorded beside them.
-/

/-- A field of a message. -/
structure Field where
  name : String
  number : Int32
deriving DecidableEq, Inhabited

/-- A value of an enum. -/
structure EnumValue where
  name : String
  number : Int32
deriving DecidableEq, Inhabited

/-- An enum. -/
structure Enum where
  name : String
  values : List EnumValue
deriving DecidableEq, Inhabited

/-- A method of a service, with the names of the messages it takes and gives. -/
structure Method where
  name : String
  input : String
  output : String
deriving DecidableEq, Inhabited

/-- A service. -/
structure Service where
  name : String
  methods : List Method
deriving DecidableEq, Inhabited

/-- A message.  A map field has its entries described by a nested message that
nobody wrote; such a message is marked as a map entry. -/
inductive Message where
  | mk (name : String) (fields : List Field) (nested : List Message) (enums : List Enum)
    (isMapEntry : Bool)
deriving Inhabited

namespace Message

/-- The short name. -/
def name : Message → String
  | mk name _ _ _ _ => name

/-- The fields in order of declaration. -/
def fields : Message → List Field
  | mk _ fields _ _ _ => fields

/-- The messages declared inside. -/
def nested : Message → List Message
  | mk _ _ nested _ _ => nested

/-- The enums declared inside. -/
def enums : Message → List Enum
  | mk _ _ _ enums _ => enums

/-- Whether the message describes the entries of a map field. -/
def isMapEntry : Message → Bool
  | mk _ _ _ _ isMapEntry => isMapEntry

end Message

/-- A compiled schema file. -/
structure File where
  name : String
  package : Option String := none
  syntaxName : Option String := none
  messages : List Message := []
  enums : List Enum := []
  services : List Service := []
  sourceMap : SourceMap := .ofList []
deriving Inhabited

namespace File

/-- The locations that the compiler recorded, in its order. -/
def locations (file : File) : List SourceLocation := file.sourceMap.locations

/-- The path of the `syntax` statement. -/
def syntaxPath : Path := [12]

/-- The path of the `package` statement. -/
def packagePath : Path := [2]

/-- The namespace of the top-level declarations, empty when none is declared. -/
def packageName (file : File) : String := file.package.getD ""

/-- What was recorded at a path. -/
def sourceLocation? (file : File) (path : Path) : Option SourceLocation :=
  file.sourceMap.find? path

theorem sourceLocation?_eq_find? (file : File) (path : Path) :
    file.sourceLocation? path = file.locations.find? fun location => location.path = path :=
  file.sourceMap.find?_eq_find?_locations path

/-- The comments in front of the statement at a path, in textual order. -/
def commentsBefore (file : File) (path : Path) : List String :=
  match file.sourceLocation? path with
  | some location => location.detached ++ location.leading.toList
  | none => []

/-- The comments in front of the `syntax` and `package` statements. -/
def headerComments (file : File) : List String :=
  file.commentsBefore syntaxPath ++ file.commentsBefore packagePath

/-- The header comment of a file. -/
def header (file : File) : String := "\n".intercalate file.headerComments

/-- The span that stands for the whole file. -/
def span (file : File) : List Int32 :=
  match file.sourceLocation? syntaxPath, file.sourceLocation? packagePath with
  | some location, _ => location.span
  | none, some location => location.span
  | none, none => []

end File

end Schema

end SchemaLint
