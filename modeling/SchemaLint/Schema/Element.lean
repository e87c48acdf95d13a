import SchemaLint.Location
import SchemaLint.Schema.Basic

namespace SchemaLint

namespace Schema

/-!
# Elements of a schema file

A rule looks at one element at a time: the file itself, a message, a field, an
enum, an enum value, a service or a method.  An element knows the file it stands
in, its path and its full name.

The lists that an element holds, each under the field number by which paths
address it, are given once by `Node.groups`.  The children of an element, the
child at one step of a path, and the element at a whole path all follow from it.
-/

/-- The kinds of element. -/
inductive ElementKind where
  | file
  | message
  | field
  | enum
  | enumValue
  | service
  | method
deriving DecidableEq, Inhabited

namespace ElementKind

/-- The word for a kind in reports. -/
def word : ElementKind → String
  | file => "file"
  | message => "message"
  | field => "field"
  | enum => "enum"
  | enumValue => "enum_value"
  | service => "service"
  | method => "method"

/-- All kinds. -/
def all : List ElementKind := [file, message, field, enum, enumValue, service, method]

end ElementKind

/-- What is declared at an element. -/
inductive Node where
  | file
  | message (message : Message)
  | field (field : Field)
  | enum (enum : Enum)
  | enumValue (value : EnumValue)
  | service (service : Service)
  | method (method : Method)
deriving Inhabited

namespace Node

/-- The kind of a node. -/
def kind : Node → ElementKind
  | file => .file
  | message _ => .message
  | field _ => .field
  | enum _ => .enum
  | enumValue _ => .enumValue
  | service _ => .service
  | method _ => .method

/-- The short name of a node; `fileName` is that of the file. -/
def name (fileName : String) : Node → String
  | file => fileName
  | message m => m.name
  | field f => f.name
  | enum e => e.name
  | enumValue v => v.name
  | service s => s.name
  | method m => m.name

/-- The lists of nodes that a node holds, each with its number in paths. -/
def groups (schema : File) : Node → List (Int32 × List Node)
  | file =>
    [(4, schema.messages.map message), (5, schema.enums.map enum),
      (6, schema.services.map service)]
  | message m => [(2, m.fields.map field), (3, m.nested.map message), (4, m.enums.map enum)]
  | field _ => []
  | enum e => [(2, e.values.map enumValue)]
  | enumValue _ => []
  | service s => [(2, s.methods.map method)]
  | method _ => []

end Node

/-- An element of a schema file. -/
structure Element where
  file : File
  node : Node
  path : Path
  fullName : String
deriving Inhabited

/-- A name inside a namespace; the empty namespace adds nothing. -/
def qualify (scope name : String) : String :=
  if scope.isEmpty then name else scope ++ "." ++ name

/-- The number of positions that an entry of a path can name.  Paths have 32-bit
entries. -/
def entryLimit : Nat := 2147483648

/-- A list position as an entry of a path. -/
def pathEntry (position : Nat) : Int32 :=
  if position < entryLimit then Int32.ofNat position else Int32.maxValue

namespace File

/-- The element that stands for the file. -/
def root (file : File) : Element := ⟨file, .file, [], file.name⟩

end File

namespace Element

/-- The kind of an element. -/
def kind (element : Element) : ElementKind := element.node.kind

/-- The short name of an element. -/
def name (element : Element) : String := element.node.name element.file.name

/-- The text by which reports refer to an element. -/
def label (element : Element) : String := s!"{element.kind.word} `{element.fullName}`"

/-- The namespace of what the element holds. -/
def scope (element : Element) : String :=
  match element.node with
  | .file => element.file.packageName
  | _ => element.fullName

/-- The element of a node held by `owner` in list `tag` at `position`. -/
def held (owner : Element) (tag : Int32) (position : Nat) (node : Node) : Element where
  file := owner.file
  node := node
  path := owner.path ++ [tag, pathEntry position]
  fullName := qualify owner.scope (node.name owner.file.name)

/-- The lists of nodes that the element holds. -/
def groups (element : Element) : List (Int32 × List Node) := element.node.groups element.file

/-- The elements of the list with number `tag`. -/
def group (element : Element) (tag : Int32) : List Element :=
  ((element.groups.lookup tag).getD []).mapIdx (element.held tag)

/-- The elements directly below an element. -/
def children (element : Element) : List Element :=
  element.groups.flatMap fun (tag, nodes) => nodes.mapIdx (element.held tag)

/-- One step of a path: the child in list `tag` at `position`. -/
def child? (element : Element) (tag : Int32) (position : Nat) : Option Element :=
  (element.groups.lookup tag).bind fun nodes =>
    nodes[position]?.map (element.held tag position)

/-- The element that a path leads to from `element`. -/
def descend? (element : Element) : Path → Option Element
  | [] => some element
  | [_] => none
  | tag :: entry :: rest =>
    if entry < 0 then none
    else
      match element.child? tag entry.toInt.toNat with
      | some child => child.descend? rest
      | none => none

end Element

/-- The element at a path, or nothing when the path leads nowhere. -/
def File.resolve? (file : File) (path : Path) : Option Element := file.root.descend? path

namespace Element

/-- The element that holds this one; the file has none. -/
def parent? (element : Element) : Option Element :=
  if element.path.isEmpty then none
  else element.file.resolve? (element.path.take (element.path.length - 2))

/-- What was recorded for an element; nothing is recorded for the file itself. -/
def sourceLocation? (element : Element) : Option SourceLocation :=
  match element.node with
  | .file => none
  | _ => element.file.sourceLocation? element.path

/-- The comment directly above the element. -/
def leadingComment (element : Element) : String :=
  (element.sourceLocation?.bind (·.leading)).getD ""

/-- The comment behind the element. -/
def trailingComment (element : Element) : String :=
  (element.sourceLocation?.bind (·.trailing)).getD ""

/-- The recorded span of the element, empty when unknown. -/
def span (element : Element) : List Int32 :=
  match element.node with
  | .file => element.file.span
  | _ => (element.sourceLocation?.map (·.span)).getD []

/-- Where reports place the element. -/
def location (element : Element) : Location :=
  Location.ofSpan element.file.name element.span

end Element

end Schema

end SchemaLint
