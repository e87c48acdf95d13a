import SchemaLint.Yaml.Node

namespace SchemaLint

namespace Yaml

/-!
# Shapes of YAML nodes

How lists, records and choices are written as YAML nodes.  A list, map or record may be
an empty plain scalar, which stands for one without content.  A choice is a scalar that
spells its word, or a local tag on nothing.

Every alias that is followed counts against a limit that grows with the document, so
that a short text cannot unfold without end.
-/

/-- Reading nodes of a document: its anchors are at hand, the aliases followed so far are
counted, and reading can fail. -/
abbrev Reading := ReaderT Anchors (StateT Nat Option)

/-- The node itself, or the node that an alias stands for. -/
def target (node : Node) : Reading Node :=
  match node with
  | .alias slot => do
    modify (· + 1)
    match (← read).node? slot with
    | some found => pure found
    | none => failure
  | other => pure other

/-- The text of a scalar. -/
def text (node : Node) : Reading String := do
  match ← target node with
  | .scalar _ _ text => pure (String.ofList text)
  | _ => failure

/-- The items of a list. -/
def list {α : Type} (item : Node → Reading α) (node : Node) : Reading (List α) := do
  match ← target node with
  | .list items => items.mapM item
  | .scalar _ true [] => pure []
  | _ => failure

/-- The pairs of a map, with the texts of their keys. -/
def map {α : Type} (value : Node → Reading α) (node : Node) : Reading (List (String × α)) := do
  match ← target node with
  | .map pairs => pairs.mapM fun (key, node) => do
    let key ← text key
    return (key, ← value node)
  | .scalar _ true [] => pure []
  | _ => failure

/-- The words for nothing. -/
def isNullWord (text : List Char) : Bool :=
  ["null", "Null", "NULL", "~"].contains (String.ofList text)

/-- The tag of nothing. -/
def nullTag : List UInt8 := bytesOf "tag:yaml.org,2002:null".toList

/-- A value that may be nothing.  A plain scalar is nothing when it is empty or spells a word
for nothing, unless a tag says otherwise; the tag of nothing asks for such a word. -/
def optional {α : Type} (value : Node → Reading α) (node : Node) : Reading (Option α) := do
  let node ← target node
  match node with
  | .scalar none true text =>
    if text.isEmpty || isNullWord text then pure none else some <$> value node
  | .scalar (some tag) true text =>
    if tag = nullTag then (if isNullWord text then pure none else failure)
    else some <$> value node
  | _ => some <$> value node

/-- The name of a local tag. -/
def localName? (tag : List UInt8) : Option String :=
  match tag with
  | [] => none
  | first :: rest =>
    if first = 0x21 then String.fromUTF8? ⟨(if rest.isEmpty then tag else rest).toArray⟩ else none

/-- The word that names a choice. -/
def word (node : Node) : Reading String := do
  match ← target node with
  | .scalar tag plain text =>
    match tag.bind localName? with
    | some name => if plain && (text.isEmpty || isNullWord text) then pure name else failure
    | none => pure (String.ofList text)
  | _ => failure

/-- The choice, among those given, that a node names by its word. -/
def choice {α : Type} (wordOf : α → String) (choices : List α) (node : Node) : Reading α := do
  let found ← word node
  match choices.find? fun choice => wordOf choice = found with
  | some choice => pure choice
  | none => failure

/-- A field of a record, which must not be repeated. -/
def field? (pairs : List (String × Node)) (name : String) : Reading (Option Node) :=
  match pairs.filter fun pair => pair.1 = name with
  | [] => pure none
  | [(_, node)] => pure (some node)
  | _ => failure

/-- The fields of a record that has no others, in the order of their names. -/
def record (names : List String) (node : Node) : Reading (List (Option Node)) := do
  let pairs ← map pure node
  if pairs.all fun pair => names.contains pair.1 then names.mapM (field? pairs) else failure

/-- Reads a field, or gives `default` when it is left out. -/
def orDefault {α : Type} (default : α) (value : Node → Reading α) : Option Node → Reading α
  | some node => value node
  | none => pure default

/-- How many aliases may be followed for each event of a document. -/
def aliasLimit : Nat := 100

/-- Reads the root of a document, or gives `default` when there is none. -/
def Document.read? {α : Type} (document : Document) (default : α) (value : Node → Reading α) :
    Option α :=
  match (orDefault default value document.root document.anchors).run 0 with
  | some (result, followed) => if followed ≤ document.size * aliasLimit then some result else none
  | none => none

end Yaml

end SchemaLint
