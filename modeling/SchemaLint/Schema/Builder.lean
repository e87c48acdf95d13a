import SchemaLint.Schema.Basic

namespace SchemaLint

namespace Schema

/-!
# Schemas written by hand

Short ways to write a schema file down, for trying rules without a compiler.
Comments and spans are added one by one; what is added at one path stands in one
recorded location, so no path is recorded twice.
-/

/-- A message with nothing but fields. -/
def Message.ofFields (name : String) (fields : List Field) : Message :=
  .mk name fields [] [] false

/-- The entry message of a map field, with its `key` and `value`. -/
def Message.mapEntry (name : String) : Message :=
  .mk name [⟨"key", 1⟩, ⟨"value", 2⟩] [] [] true

/-- An enum whose values are numbered from zero. -/
def Enum.ofNames (name : String) (values : List String) : Enum where
  name := name
  values := values.mapIdx fun i value => ⟨value, Int32.ofNat i⟩

/-- A service whose methods take and give messages named after them. -/
def Service.ofNames (name : String) (methods : List String) : Service where
  name := name
  methods := methods.map fun method => ⟨method, s!".{method}Request", s!".{method}Response"⟩

/-- What is already recorded, with what `added` says about the same path. -/
def SourceLocation.merge (recorded added : SourceLocation) : SourceLocation :=
  { recorded with
    leading := added.leading <|> recorded.leading
    span := if added.span.isEmpty then recorded.span else added.span
    detached := recorded.detached ++ added.detached }

/-- Records a location, in the entry that its path already has or in a new one. -/
def recordLocation (added : SourceLocation) : List SourceLocation → List SourceLocation
  | [] => [added]
  | recorded :: rest =>
    if recorded.path = added.path then recorded.merge added :: rest
    else recorded :: recordLocation added rest

namespace File

/-- A file of the current format that holds the given messages. -/
def ofMessages (name package : String) (messages : List Message) : File where
  name := name
  package := if package.isEmpty then none else some package
  syntaxName := some "proto3"
  messages := messages

/-- The file with one more recorded location. -/
def record (file : File) (added : SourceLocation) : File :=
  { file with sourceMap := .ofList (recordLocation added file.locations) }

@[simp]
theorem locations_record (file : File) (added : SourceLocation) :
    (file.record added).locations = recordLocation added file.locations :=
  rfl

/-- The file with a leading comment at a path. -/
def withComment (file : File) (path : Path) (comment : String) : File :=
  file.record { path := path, leading := some comment }

/-- The file with a span at a path. -/
def withSpan (file : File) (path : Path) (span : List Int32) : File :=
  file.record { path := path, span := span }

/-- The file with a comment in front of its `syntax` statement. -/
def withHeader (file : File) (comment : String) : File :=
  file.record { path := syntaxPath, span := [0, 0, 18], detached := [comment] }

end File

end Schema

end SchemaLint
