import SchemaLint.Schema.Basic
import SchemaLint.Wire.Record

namespace SchemaLint

namespace Schema

/-!
# The compiled form of schema files

Schema compilers write a set of files as one message of the wire format.  The
layout of that message and of everything inside it stands here, with the reading
of its records as schema files.

Options are part of the layout because a known field with the wrong payload makes
the whole set unreadable.  Of their content only the mark of map entries is used.
-/

/-- The message types of a compiled set of files. -/
inductive MessageType where
  | fileSet
  | file
  | message
  | extensionRange
  | range
  | field
  | oneof
  | enum
  | enumValue
  | service
  | method
  | sourceInfo
  | location
  | fileOptions
  | messageOptions
  | fieldOptions
  | enumOptions
  | enumValueOptions
  | serviceOptions
  | methodOptions
  | otherOptions
  | uninterpretedOption
  | namePart
deriving DecidableEq, Inhabited

namespace MessageType

/-- The known fields of a message type. -/
def fields : MessageType → List (Nat × Wire.FieldType MessageType)
  | fileSet => [(1, .message file)]
  | file =>
    [(1, .text), (2, .text), (3, .text), (10, .int32s), (11, .int32s), (4, .message message),
      (5, .message enum), (6, .message service), (7, .message field), (8, .message fileOptions),
      (9, .message sourceInfo), (12, .text)]
  | message =>
    [(1, .text), (2, .message field), (6, .message field), (3, .message message),
      (4, .message enum), (5, .message extensionRange), (8, .message oneof),
      (7, .message messageOptions), (9, .message range), (10, .text)]
  | extensionRange => [(1, .int32), (2, .int32), (3, .message otherOptions)]
  | range => [(1, .int32), (2, .int32)]
  | field =>
    [(1, .text), (3, .int32), (4, .varint), (5, .varint), (6, .text), (2, .text), (7, .text),
      (9, .int32), (10, .text), (8, .message fieldOptions), (17, .flag)]
  | oneof => [(1, .text), (2, .message otherOptions)]
  | enum =>
    [(1, .text), (2, .message enumValue), (3, .message enumOptions), (4, .message range),
      (5, .text)]
  | enumValue => [(1, .text), (2, .int32), (3, .message enumValueOptions)]
  | service => [(1, .text), (2, .message method), (3, .message serviceOptions)]
  | method =>
    [(1, .text), (2, .text), (3, .text), (4, .message methodOptions), (5, .flag), (6, .flag)]
  | sourceInfo => [(1, .message location)]
  | location => [(1, .int32s), (2, .int32s), (3, .text), (4, .text), (6, .text)]
  | fileOptions =>
    [(1, .text), (8, .text), (11, .text), (36, .text), (37, .text), (39, .text), (40, .text),
      (41, .text), (44, .text), (45, .text), (10, .flag), (20, .flag), (27, .flag), (16, .flag),
      (17, .flag), (18, .flag), (42, .flag), (23, .flag), (31, .flag), (9, .varint),
      (999, .message uninterpretedOption)]
  | messageOptions =>
    [(1, .flag), (2, .flag), (3, .flag), (7, .flag), (999, .message uninterpretedOption)]
  | fieldOptions =>
    [(1, .varint), (6, .varint), (2, .flag), (5, .flag), (3, .flag), (10, .flag),
      (999, .message uninterpretedOption)]
  | enumOptions => [(2, .flag), (3, .flag), (999, .message uninterpretedOption)]
  | enumValueOptions => [(1, .flag), (999, .message uninterpretedOption)]
  | serviceOptions => [(33, .flag), (999, .message uninterpretedOption)]
  | methodOptions => [(33, .flag), (34, .varint), (999, .message uninterpretedOption)]
  | otherOptions => [(999, .message uninterpretedOption)]
  | uninterpretedOption =>
    [(2, .message namePart), (3, .text), (4, .varint), (5, .varint), (6, .fixed64), (7, .bytes),
      (8, .text)]
  | namePart => [(1, .text), (2, .flag)]

/-- The layout of compiled sets of files. -/
def layout : Wire.Layout MessageType := fun type number => type.fields.lookup number

end MessageType

/-- How deep messages may be nested below the set. -/
def nestingLimit : Nat := 100

namespace Field

/-- The field that a record describes. -/
def ofRecord (record : Wire.Record) : Field := ⟨record.textD 1, record.int32D 3⟩

end Field

namespace Enum

/-- The enum that a record describes. -/
def ofRecord (record : Wire.Record) : Enum where
  name := record.textD 1
  values := (record.inners 2).map fun value => ⟨value.textD 1, value.int32D 2⟩

end Enum

namespace Service

/-- The service that a record describes. -/
def ofRecord (record : Wire.Record) : Service where
  name := record.textD 1
  methods := (record.inners 2).map fun method => ⟨method.textD 1, method.textD 2, method.textD 3⟩

end Service

namespace Message

/-- The messages that a record holds under a field number.  A message holds its own
nested messages under number three. -/
def listOfRecord (number : Nat) : Wire.Record → List Message
  | .done => []
  | .text _ _ rest | .int32 _ _ rest | .flag _ _ rest => listOfRecord number rest
  | .inner found record rest =>
    if found = number then
      .mk (record.textD 1) ((record.inners 2).map Field.ofRecord) (listOfRecord 3 record)
          ((record.inners 4).map Enum.ofRecord) ((record.merged 7).flagD 7) ::
        listOfRecord number rest
    else listOfRecord number rest

end Message

namespace SourceLocation

/-- The recorded location that a record describes. -/
def ofRecord (record : Wire.Record) : SourceLocation where
  path := record.int32s 1
  span := record.int32s 2
  leading := record.text? 3
  trailing := record.text? 4
  detached := record.texts 6

end SourceLocation

namespace File

/-- The schema file that a record describes. -/
def ofRecord (record : Wire.Record) : File where
  name := record.textD 1
  package := record.text? 2
  syntaxName := record.text? 12
  messages := Message.listOfRecord 4 record
  enums := (record.inners 5).map Enum.ofRecord
  services := (record.inners 6).map Service.ofRecord
  sourceMap := .ofList (((record.merged 9).inners 1).map SourceLocation.ofRecord)

/-- The files of a compiled set, or nothing when the bytes are not such a set. -/
def decodeSet? (bytes : List UInt8) : Option (List File) :=
  (Wire.readRecord MessageType.layout nestingLimit .fileSet bytes).map fun set =>
    (set.inners 1).map ofRecord

end File

end Schema

end SchemaLint
