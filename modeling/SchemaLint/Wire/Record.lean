import SchemaLint.Wire.Item

namespace SchemaLint

namespace Wire

/-!
# Records

A record is a message whose items have been read by a layout, which says for each
message type what its field numbers hold.  An item that the layout does not know is
skipped, groups included; one that the layout knows must have the right payload.

Only texts, 32-bit numbers, flags and inner records are kept.  The other known
fields are checked and dropped.
-/

/-- What a known field holds.  `τ` names the message types of a layout. -/
inductive FieldType (τ : Type) where
  | text
  | int32
  | int32s
  | flag
  | varint
  | fixed64
  | bytes
  | message (type : τ)
deriving Inhabited

/-- The known fields of every message type. -/
def Layout (τ : Type) : Type := τ → Nat → Option (FieldType τ)

/-- The kept fields of a message in order of appearance. -/
inductive Record where
  | done
  | text (number : Nat) (value : String) (rest : Record)
  | int32 (number : Nat) (value : Int32) (rest : Record)
  | flag (number : Nat) (value : Bool) (rest : Record)
  | inner (number : Nat) (value : Record) (rest : Record)
deriving Inhabited

namespace Record

/-- The fields of one record followed by those of another. -/
def append : Record → Record → Record
  | done, last => last
  | text number value rest, last => text number value (rest.append last)
  | int32 number value rest, last => int32 number value (rest.append last)
  | flag number value rest, last => flag number value (rest.append last)
  | inner number value rest, last => inner number value (rest.append last)

/-- The texts under a field number. -/
def texts (number : Nat) : Record → List String
  | done => []
  | text found value rest =>
    if found = number then value :: texts number rest else texts number rest
  | int32 _ _ rest | flag _ _ rest | inner _ _ rest => texts number rest

/-- The 32-bit numbers under a field number. -/
def int32s (number : Nat) : Record → List Int32
  | done => []
  | int32 found value rest =>
    if found = number then value :: int32s number rest else int32s number rest
  | text _ _ rest | flag _ _ rest | inner _ _ rest => int32s number rest

/-- The flags under a field number. -/
def flags (number : Nat) : Record → List Bool
  | done => []
  | flag found value rest =>
    if found = number then value :: flags number rest else flags number rest
  | text _ _ rest | int32 _ _ rest | inner _ _ rest => flags number rest

/-- The inner records under a field number. -/
def inners (number : Nat) : Record → List Record
  | done => []
  | inner found value rest =>
    if found = number then value :: inners number rest else inners number rest
  | text _ _ rest | int32 _ _ rest | flag _ _ rest => inners number rest

/-- The single inner record under a field number: its occurrences are pieces of one
message. -/
def merged (number : Nat) (record : Record) : Record :=
  (record.inners number).foldr append done

/-- The single text under a field number: the last occurrence counts. -/
def text? (number : Nat) (record : Record) : Option String := (record.texts number).getLast?

/-- The single text under a field number, empty when absent. -/
def textD (number : Nat) (record : Record) : String := (record.text? number).getD ""

/-- The single 32-bit number under a field number, zero when absent. -/
def int32D (number : Nat) (record : Record) : Int32 := ((record.int32s number).getLast?).getD 0

/-- The single flag under a field number, false when absent. -/
def flagD (number : Nat) (record : Record) : Bool := ((record.flags number).getLast?).getD false

/-- Adds the numbers of a list under one field number. -/
def addInt32s (number : Nat) (values : List Nat) (rest : Record) : Record :=
  values.foldr (fun value rest => int32 number (Int32.ofNat value) rest) rest

end Record

/-- A text in UTF-8. -/
def decodeText? (bytes : List UInt8) : Option String := String.fromUTF8? ⟨bytes.toArray⟩

/-- Puts a known field in front of a record, if its payload fits its type.  `readInner`
reads the content of an inner message. -/
def addField {τ : Type} (readInner : τ → List UInt8 → Option Record) (number : Nat)
    (type : FieldType τ) (payload : Payload) (rest : Record) : Option Record :=
  match type, payload with
  | .text, .bytes content => (decodeText? content).map fun value => .text number value rest
  | .int32, .varint value => some (.int32 number (Int32.ofNat value) rest)
  | .int32s, .varint value => some (.int32 number (Int32.ofNat value) rest)
  | .int32s, .bytes content =>
    (readVarints content).map fun values => Record.addInt32s number values rest
  | .flag, .varint value => some (.flag number (value != 0) rest)
  | .varint, .varint _ => some rest
  | .fixed64, .fixed64 => some rest
  | .bytes, .bytes _ => some rest
  | .message type, .bytes content =>
    (readInner type content).map fun value => .inner number value rest
  | _, _ => none

/-- Reads the items of a message.  `groups` are the open groups, the innermost first,
all of them unknown.  Skipping an item takes one level of `room`, as does each open
group around it. -/
def readFields {τ : Type} (room : Nat) (readInner : τ → List UInt8 → Option Record)
    (fields : Nat → Option (FieldType τ)) : List Nat → List Item → Option Record
  | [], [] => some .done
  | _ :: _, [] => none
  | [], ⟨number, payload⟩ :: rest =>
    match fields number with
    | some type =>
      match readFields room readInner fields [] rest with
      | some record => addField readInner number type payload record
      | none => none
    | none =>
      if room = 0 then none
      else
        match payload with
        | .groupEnd => none
        | .groupStart => readFields room readInner fields [number] rest
        | _ => readFields room readInner fields [] rest
  | current :: outer, ⟨number, payload⟩ :: rest =>
    match payload with
    | .groupEnd => if number = current then readFields room readInner fields outer rest else none
    | .groupStart =>
      if room ≤ outer.length + 1 then none
      else readFields room readInner fields (number :: current :: outer) rest
    | _ =>
      if room ≤ outer.length + 1 then none
      else readFields room readInner fields (current :: outer) rest

/-- Reads a message of a given type, below which at most `room` messages are nested in
each other. -/
def readRecord {τ : Type} (layout : Layout τ) : Nat → τ → List UInt8 → Option Record
  | 0, type, bytes =>
    match readItems bytes with
    | some items => readFields 0 (fun _ _ => none) (layout type) [] items
    | none => none
  | room + 1, type, bytes =>
    match readItems bytes with
    | some items => readFields (room + 1) (readRecord layout room) (layout type) [] items
    | none => none

end Wire

end SchemaLint
