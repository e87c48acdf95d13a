import SchemaLint.Disk
import SchemaLint.Schema.Format

namespace SchemaLint

namespace Schema

/-!
# Compiled sets on disk

A compiled set is read as a whole.  Either all its files can be used or none of them.
-/

/-- Why a compiled set cannot be used. -/
inductive SetError where
  | unreadable (path : String) (fault : ReadError)
  | malformed
deriving DecidableEq, Inhabited

namespace SetError

/-- The wording of the error. -/
def message : SetError → String
  | unreadable path fault => s!"Failed to read descriptor set {path}: {fault.message}"
  | malformed => "Failed to decode descriptor set"

/-- The code of the error. -/
def code : SetError → String
  | unreadable _ _ => "protolint::descriptor::io"
  | malformed => "protolint::descriptor::decode"

/-- What to do about the error. -/
def help? : SetError → Option String
  | unreadable _ _ => none
  | malformed =>
    some "produce the input with `protoc --include_source_info --descriptor_set_out=...`"

/-- The error and what caused it, one after the other. -/
def causes (error : SetError) : List String :=
  error.message ::
    match error with
    | unreadable _ fault => [fault.message]
    | malformed => []

end SetError

namespace File

/-- The files of a compiled set. -/
def decodeSet (bytes : List UInt8) : Except SetError (List File) :=
  match decodeSet? bytes with
  | some files => .ok files
  | none => .error .malformed

/-- The files of the compiled set at a path. -/
def readSet (disk : Disk) (path : String) : Except SetError (List File) :=
  match disk.readBytes path with
  | .error fault => .error (.unreadable path fault)
  | .ok content => decodeSet content

end File

end Schema

end SchemaLint
