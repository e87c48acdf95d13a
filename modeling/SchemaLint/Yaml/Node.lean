import SchemaLint.Yaml.Token

namespace SchemaLint

namespace Yaml

/-!
# Nodes of YAML texts

A YAML text that holds one document spells a tree of nodes.  It is read from its tokens
by a machine that keeps the collections that are still open.

A node that is left out reads as an empty plain scalar.  An alias stands for the node
with the anchor of its name.  Anchors are kept in numbered slots: each takes the slot
whose number is the count of different names met before it, and of the nodes that take
one slot the one that starts last fills it.
-/

/-- A node. -/
inductive Node where
  | scalar (tag : Option (List UInt8)) (plain : Bool) (text : List Char)
  | alias (slot : Nat)
  | list (items : List Node)
  | map (pairs : List (Node × Node))
deriving Inhabited

namespace Node

/-- The node that is left out. -/
def empty : Node := scalar none true []

end Node

/-- An anchor of a node: its slot, and the number of anchors before it. -/
structure AnchorRef where
  slot : Nat
  order : Nat
deriving DecidableEq, Inhabited

/-- The anchors met so far: the names with their slots, the latest first, the number of
anchors, and the finished nodes that have one. -/
structure Anchors where
  slots : List (List Char × Nat) := []
  count : Nat := 0
  nodes : List (AnchorRef × Node) := []
deriving Inhabited

namespace Anchors

/-- The number of different names. -/
def nameCount (anchors : Anchors) : Nat := (anchors.slots.map (·.1)).eraseDups.length

/-- Gives a name its slot. -/
def enter (anchors : Anchors) (name : List Char) : Anchors × AnchorRef :=
  let slot := anchors.nameCount
  ({ anchors with slots := (name, slot) :: anchors.slots, count := anchors.count + 1 },
    ⟨slot, anchors.count⟩)

/-- Keeps a finished node under its anchor, if it has one. -/
def keep (anchors : Anchors) (anchor : Option AnchorRef) (node : Node) : Anchors :=
  match anchor with
  | some anchor => { anchors with nodes := (anchor, node) :: anchors.nodes }
  | none => anchors

/-- The later of two anchored nodes. -/
def later (left right : AnchorRef × Node) : AnchorRef × Node :=
  if left.1.order < right.1.order then right else left

/-- The node that fills a slot. -/
def node? (anchors : Anchors) (slot : Nat) : Option Node :=
  match anchors.nodes.filter fun entry => entry.1.slot = slot with
  | [] => none
  | first :: rest => some (rest.foldl later first).2

end Anchors

/-- The properties in front of a node. -/
structure Properties where
  anchor : Option AnchorRef := none
  tag : Option (List UInt8) := none
deriving DecidableEq, Inhabited

namespace Properties

/-- Whether there are none. -/
def isEmpty (properties : Properties) : Bool :=
  properties.anchor.isNone && properties.tag.isNone

end Properties

/-- A collection that is still open.  Items and pairs stand in it with the last first; `key`
is the key whose value is awaited or read. -/
inductive Frame where
  | document (root : Option Node)
  | blockList (anchor : Option AnchorRef) (items : List Node)
  | entryList (anchor : Option AnchorRef) (items : List Node)
  | blockMap (anchor : Option AnchorRef) (pairs : List (Node × Node))
  | blockKey (anchor : Option AnchorRef) (pairs : List (Node × Node))
  | blockAfterKey (anchor : Option AnchorRef) (pairs : List (Node × Node)) (key : Node)
  | blockValue (anchor : Option AnchorRef) (pairs : List (Node × Node)) (key : Node)
  | flowList (anchor : Option AnchorRef) (items : List Node)
  | flowAfterItem (anchor : Option AnchorRef) (items : List Node)
  | pairKey
  | pairAfterKey (key : Node)
  | pairValue (key : Node)
  | flowMap (anchor : Option AnchorRef) (pairs : List (Node × Node))
  | flowKey (anchor : Option AnchorRef) (pairs : List (Node × Node))
  | flowBareKey (anchor : Option AnchorRef) (pairs : List (Node × Node))
  | flowAfterKey (anchor : Option AnchorRef) (pairs : List (Node × Node)) (key : Node)
  | flowValue (anchor : Option AnchorRef) (pairs : List (Node × Node)) (key : Node)
  | flowAfterPair (anchor : Option AnchorRef) (pairs : List (Node × Node))
deriving Inhabited

/-- Where a node is awaited.  It decides which tokens mean that the node is left out, and
whether blocks can start. -/
inductive Position where
  | document
  | blockItem
  | entryItem
  | blockPart
  | flowItem
  | flowKey
  | flowValue
deriving DecidableEq, Inhabited

namespace Position

/-- Whether a block can start here. -/
def allowsBlock : Position → Bool
  | document | blockItem | entryItem | blockPart => true
  | flowItem | flowKey | flowValue => false

/-- Whether a token means that the node is left out. -/
def leavesOut : Position → Token → Bool
  | document, .documentStart | document, .documentEnd | document, .directive _ => true
  | blockItem, .blockEntry | blockItem, .blockEnd => true
  | entryItem, .blockEntry | entryItem, .key | entryItem, .value | entryItem, .blockEnd => true
  | blockPart, .key | blockPart, .value | blockPart, .blockEnd => true
  | flowKey, .value | flowKey, .flowEntry | flowKey, .flowMapEnd => true
  | flowValue, .flowEntry | flowValue, .flowMapEnd | flowValue, .flowListEnd => true
  | _, _ => false

end Position

/-- What the machine waits for: a node with the properties read so far, or whatever the
innermost open collection asks for. -/
inductive Mode where
  | node (position : Position) (properties : Properties)
  | inside
deriving Inhabited

/-- The state of the machine.  `events` counts scalars and aliases once and collections
twice. -/
structure Build where
  mode : Mode
  frames : List Frame
  anchors : Anchors := {}
  tags : List (List Char × List UInt8) := []
  events : Nat := 0
deriving Inhabited

namespace Build

/-- Puts a finished node into the innermost open collection. -/
def put (node : Node) : List Frame → List Frame
  | [] => []
  | .document _ :: rest => .document (some node) :: rest
  | .blockList anchor items :: rest => .blockList anchor (node :: items) :: rest
  | .entryList anchor items :: rest => .entryList anchor (node :: items) :: rest
  | .blockKey anchor pairs :: rest => .blockAfterKey anchor pairs node :: rest
  | .blockValue anchor pairs key :: rest => .blockMap anchor ((key, node) :: pairs) :: rest
  | .flowList anchor items :: rest => .flowAfterItem anchor (node :: items) :: rest
  | .pairKey :: rest => .pairAfterKey node :: rest
  | .pairValue key :: rest => put (.map [(key, node)]) rest
  | .flowKey anchor pairs :: rest => .flowAfterKey anchor pairs node :: rest
  | .flowBareKey anchor pairs :: rest => .flowAfterPair anchor ((node, .empty) :: pairs) :: rest
  | .flowValue anchor pairs key :: rest => .flowAfterPair anchor ((key, node) :: pairs) :: rest
  | other => other

/-- What `put` adds to the count of events: a value that is left out, or a map around a
pair. -/
def addedBy : List Frame → Nat
  | .flowBareKey _ _ :: _ => 1
  | .pairValue _ :: _ => 2
  | _ => 0

/-- The state behind a finished node, which counts for `events`. -/
def finish (build : Build) (anchor : Option AnchorRef) (node : Node) (events : Nat)
    (frames : List Frame) : Build :=
  { build with
    mode := .inside
    frames := put node frames
    anchors := build.anchors.keep anchor node
    events := build.events + events + addedBy frames }

/-- Ends what a token ends without being a part of it: a list of entries at the indentation
of its key, and keys that have no value. -/
def settle (build : Build) (token : Token) : Build :=
  let build := match build.frames, token with
    | .entryList _ _ :: _, .blockEntry => build
    | .entryList anchor items :: rest, _ => build.finish anchor (.list items.reverse) 2 rest
    | _, _ => build
  match build.frames, token with
  | .blockAfterKey _ _ _ :: _, .value => build
  | .blockAfterKey anchor pairs key :: rest, _ =>
    { build with
      frames := .blockMap anchor ((key, .empty) :: pairs) :: rest, events := build.events + 1 }
  | .pairAfterKey _ :: _, .value => build
  | .pairAfterKey key :: rest, _ => build.finish none (.map [(key, .empty)]) 3 rest
  | .flowAfterKey _ _ _ :: _, .value => build
  | .flowAfterKey anchor pairs key :: rest, _ =>
    { build with
      frames := .flowAfterPair anchor ((key, .empty) :: pairs) :: rest
      events := build.events + 1 }
  | _, _ => build

/-- Awaits a node in a new innermost frame. -/
def await (build : Build) (position : Position) (frames : List Frame) : Build :=
  { build with mode := .node position {}, frames := frames }

/-- The tag that a written tag stands for. -/
def tagOf? (build : Build) (tag : WrittenTag) : Option (List UInt8) :=
  if tag.handle.isEmpty then some tag.suffix
  else (build.tags.lookup tag.handle).map fun replacement => replacement ++ tag.suffix

/-- Reads the content of a node, once its properties are known.  A token that cannot start
one is refused. -/
def content? (build : Build) (position : Position) (properties : Properties) :
    Token → Option Build
  | .scalar plain text =>
    some (build.finish properties.anchor (.scalar properties.tag plain text) 1 build.frames)
  | .flowListStart =>
    some { build with mode := .inside, frames := .flowList properties.anchor [] :: build.frames }
  | .flowMapStart =>
    some { build with mode := .inside, frames := .flowMap properties.anchor [] :: build.frames }
  | .blockListStart =>
    if position.allowsBlock then
      some { build with mode := .inside, frames := .blockList properties.anchor [] :: build.frames }
    else none
  | .blockMapStart =>
    if position.allowsBlock then
      some { build with mode := .inside, frames := .blockMap properties.anchor [] :: build.frames }
    else none
  | .blockEntry =>
    if position = .blockPart then
      some (build.await .entryItem (.entryList properties.anchor [] :: build.frames))
    else none
  | _ => none

/-- One step inside the innermost open collection, once `settle` has been done. -/
def insideStep? (build : Build) (token : Token) : Option Build :=
  match build.frames, token with
  | .blockList anchor items :: rest, .blockEntry =>
    some (build.await .blockItem (.blockList anchor items :: rest))
  | .blockList anchor items :: rest, .blockEnd =>
    some (build.finish anchor (.list items.reverse) 2 rest)
  | .entryList anchor items :: rest, .blockEntry =>
    some (build.await .entryItem (.entryList anchor items :: rest))
  | .blockMap anchor pairs :: rest, .key =>
    some (build.await .blockPart (.blockKey anchor pairs :: rest))
  | .blockMap anchor pairs :: rest, .blockEnd =>
    some (build.finish anchor (.map pairs.reverse) 2 rest)
  | .blockAfterKey anchor pairs key :: rest, .value =>
    some (build.await .blockPart (.blockValue anchor pairs key :: rest))
  | .flowList anchor items :: rest, .flowListEnd =>
    some (build.finish anchor (.list items.reverse) 2 rest)
  | .flowList anchor items :: rest, .key =>
    some { build with mode := .inside, frames := .pairKey :: .flowList anchor items :: rest }
  | .flowAfterItem anchor items :: rest, .flowEntry =>
    some { build with frames := .flowList anchor items :: rest }
  | .flowAfterItem anchor items :: rest, .flowListEnd =>
    some (build.finish anchor (.list items.reverse) 2 rest)
  | .pairKey :: rest, .value | .pairKey :: rest, .flowEntry | .pairKey :: rest, .flowListEnd =>
    some { build with frames := .pairAfterKey .empty :: rest, events := build.events + 1 }
  | .pairAfterKey key :: rest, .value => some (build.await .flowValue (.pairValue key :: rest))
  | .flowMap anchor pairs :: rest, .flowMapEnd =>
    some (build.finish anchor (.map pairs.reverse) 2 rest)
  | .flowMap anchor pairs :: rest, .key =>
    some (build.await .flowKey (.flowKey anchor pairs :: rest))
  | .flowAfterKey anchor pairs key :: rest, .value =>
    some (build.await .flowValue (.flowValue anchor pairs key :: rest))
  | .flowAfterPair anchor pairs :: rest, .flowEntry =>
    some { build with frames := .flowMap anchor pairs :: rest }
  | .flowAfterPair anchor pairs :: rest, .flowMapEnd =>
    some (build.finish anchor (.map pairs.reverse) 2 rest)
  | [.document (some root)], .documentEnd => some { build with frames := [.document (some root)] }
  | _, _ => none

/-- One step where a node is awaited: its properties, its content, or a token that shows
that it is left out. -/
def nodeStep? (build : Build) (position : Position) (properties : Properties) (token : Token) :
    Option Build :=
  let leftOut : Option Build :=
    let node := .scalar properties.tag true []
    ((build.finish properties.anchor node 1 build.frames).settle token).insideStep? token
  match token with
  | .anchor name =>
    if properties.anchor.isSome then leftOut
    else
      let (anchors, anchor) := build.anchors.enter name
      some { build with
        mode := .node position { properties with anchor := some anchor }, anchors := anchors }
  | .tag written =>
    if properties.tag.isSome then leftOut
    else
      (build.tagOf? written).map fun tag =>
        { build with mode := .node position { properties with tag := some tag } }
  | .alias name =>
    if properties.isEmpty then
      (build.anchors.slots.lookup name).map fun slot =>
        build.finish none (.alias slot) 1 build.frames
    else leftOut
  | token =>
    if properties.isEmpty ∧ position.leavesOut token then leftOut
    else
      match build.content? position properties token with
      | some build => some build
      | none => if properties.isEmpty then none else leftOut

/-- One step of the machine. -/
def step? (build : Build) (token : Token) : Option Build :=
  match build.mode with
  | .node position properties => build.nodeStep? position properties token
  | .inside =>
    let build := build.settle token
    match build.frames, token with
    | .flowList _ _ :: _, .flowListEnd | .flowList _ _ :: _, .key => build.insideStep? token
    | .flowList anchor items :: rest, _ =>
      (build.await .flowItem (.flowList anchor items :: rest)).nodeStep? .flowItem {} token
    | .pairKey :: _, .value | .pairKey :: _, .flowEntry | .pairKey :: _, .flowListEnd =>
      build.insideStep? token
    | .pairKey :: _, _ => build.nodeStep? .flowItem {} token
    | .flowMap _ _ :: _, .flowMapEnd | .flowMap _ _ :: _, .key => build.insideStep? token
    | .flowMap anchor pairs :: rest, _ =>
      (build.await .flowItem (.flowBareKey anchor pairs :: rest)).nodeStep? .flowItem {} token
    | _, _ => build.insideStep? token

/-- Runs the machine. -/
def run (build : Build) : List Token → Option Build
  | [] => some build
  | token :: rest =>
    match build.step? token with
    | some build => build.run rest
    | none => none

end Build

/-- A document: its root, which is missing when the text holds no document at all, its
anchors and its size. -/
structure Document where
  root : Option Node
  anchors : Anchors
  size : Nat
deriving Inhabited

namespace Document

/-- What handles stand for when no directive says otherwise. -/
def standardTags : List (List Char × List UInt8) :=
  [(['!'], bytesOf ['!']), (['!', '!'], bytesOf "tag:yaml.org,2002:".toList)]

/-- Reads the directives in front of a document.  There is at most one version, 1.1 or 1.2,
and each handle is given a meaning at most once. -/
def readDirectives (versionSeen : Bool) (tags : List (List Char × List UInt8)) :
    List Token → Option (List (List Char × List UInt8) × List Token)
  | .directive (.version major minor) :: rest =>
    if versionSeen ∨ major ≠ 1 ∨ (minor ≠ 1 ∧ minor ≠ 2) then none
    else readDirectives true tags rest
  | .directive (.tag handle replacement) :: rest =>
    if (tags.lookup handle).isSome then none
    else readDirectives versionSeen ((handle, replacement) :: tags) rest
  | rest => some (tags, rest)

/-- The document that a finished machine has read. -/
def ofBuild? (build : Build) : Option Document :=
  match build.mode, build.frames with
  | .inside, [.document (some root)] => some ⟨some root, build.anchors, build.events⟩
  | .node .document properties, frames =>
    let node := .scalar properties.tag true []
    let build := build.finish properties.anchor node 1 frames
    some ⟨some node, build.anchors, build.events⟩
  | _, _ => none

/-- The one document of a row of tokens. -/
def ofTokens? (tokens : List Token) : Option Document :=
  match tokens with
  | [] => some ⟨none, {}, 1⟩
  | first :: _ =>
    match readDirectives false [] tokens with
    | none => none
    | some (tags, rest) =>
      let start : Build :=
        { mode := .node .document {}, frames := [.document none], tags := tags ++ standardTags }
      match first, rest with
      | .directive _, .documentStart :: content | .documentStart, .documentStart :: content =>
        (start.run content).bind ofBuild?
      | .directive _, _ | .documentStart, _ | .documentEnd, _ => none
      | _, content => (start.run content).bind ofBuild?

/-- The one document of a text. -/
def parse? (text : String) : Option Document := (readTokens text).bind ofTokens?

end Document

end Yaml

end SchemaLint
