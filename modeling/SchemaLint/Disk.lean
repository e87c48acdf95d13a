import SchemaLint.Text.Search

namespace SchemaLint

/-!
# Files and directories

A disk says what a path leads to, or why it leads nowhere.  Paths are texts: components
parted by slashes, read from the current directory.

The disk in memory holds files and directories below the current directory.  Above it
there are directories that hold nothing else.
-/

/-- What a path leads to. -/
inductive Disk.Entry where
  | file (content : List UInt8)
  | directory
deriving DecidableEq, Inhabited

/-- Why a path leads nowhere. -/
inductive PathError where
  | missing
  | notDirectory
  | tooLong
  | zeroByte
deriving DecidableEq, Inhabited

namespace PathError

/-- The wording of a path error. -/
def message : PathError → String
  | missing => "No such file or directory (os error 2)"
  | notDirectory => "Not a directory (os error 20)"
  | tooLong => "File name too long (os error 36)"
  | zeroByte => "file name contained an unexpected NUL byte"

end PathError

/-- What every path leads to. -/
structure Disk where
  entry : String → Except PathError Disk.Entry

/-- Why a file cannot be read. -/
inductive ReadError where
  | unreachable (fault : PathError)
  | directory
  | notText
deriving DecidableEq, Inhabited

namespace ReadError

/-- The wording of a read error. -/
def message : ReadError → String
  | unreachable fault => fault.message
  | directory => "Is a directory (os error 21)"
  | notText => "stream did not contain valid UTF-8"

end ReadError

namespace Disk

/-- Whether a path leads to a file or a directory. -/
def contains (disk : Disk) (path : String) : Bool :=
  match disk.entry path with
  | .ok _ => true
  | .error _ => false

/-- The content of the file at a path. -/
def readBytes (disk : Disk) (path : String) : Except ReadError (List UInt8) :=
  match disk.entry path with
  | .ok (.file content) => .ok content
  | .ok .directory => .error .directory
  | .error fault => .error (.unreachable fault)

/-- The text of the file at a path. -/
def readText (disk : Disk) (path : String) : Except ReadError String :=
  match disk.readBytes path with
  | .error fault => .error fault
  | .ok content =>
    match String.fromUTF8? ⟨content.toArray⟩ with
    | some text => .ok text
    | none => .error .notText

/-- The path of `name` in the directory at `path`. -/
def join (path name : String) : String :=
  if path.isEmpty then name
  else if path.toList.getLast? = some '/' then path ++ name
  else path ++ "/" ++ name

/-- The last component of a path. -/
def lastComponent (path : String) : List Char :=
  (path.toList.reverse.takeWhile (· ≠ '/')).reverse

/-- What follows the last dot of the last component, unless that dot is its first
character. -/
def extension? (path : String) : Option String :=
  let reversed := (lastComponent path).reverse
  match reversed.dropWhile (· ≠ '.') with
  | [] | ['.'] => none
  | _ => some (String.ofList (reversed.takeWhile (· ≠ '.')).reverse)

/-! ## Disks in memory -/

/-- The components of a path. -/
def components (path : String) : List String :=
  (Text.pieces ['/'] path.toList).map String.ofList

/-- The components of a path without those that stay where they are. -/
def names (path : String) : List String :=
  (components path).filter fun component => !(component.isEmpty || component = ".")

/-- The number of bytes that a component may have. -/
def componentLimit : Nat := 255

/-- The number of bytes that a path may have. -/
def pathLimit : Nat := 4095

/-- A place on a disk in memory: below the current directory, at components of which the
last comes first, or somewhere above it. -/
inductive Place where
  | below (reversed : List String)
  | above
deriving DecidableEq, Inhabited

namespace Place

/-- The place of `name` in the directory at a place; above there are no names. -/
def inner? (place : Place) (name : String) : Option Place :=
  match place with
  | below reversed => some (below (name :: reversed))
  | above => none

/-- The place around a place. -/
def outer : Place → Place
  | below (_ :: rest) => below rest
  | below [] | above => above

end Place

/-- Files and directories by their components.  The directories around them are there
too. -/
structure Listing where
  files : List (List String × List UInt8) := []
  directories : List (List String) := []
deriving Inhabited

namespace Listing

/-- What is found under exactly these components. -/
def find? (listing : Listing) (components : List String) : Option Entry :=
  match listing.files.lookup components with
  | some content => some (.file content)
  | none =>
    if components.isEmpty || listing.directories.any components.isPrefixOf ||
        listing.files.any (fun file => components.isPrefixOf file.1) then some .directory
    else none

/-- What is found at a place. -/
def entryAt? (listing : Listing) : Place → Option Entry
  | .below reversed => listing.find? reversed.reverse
  | .above => some .directory

/-- Walks along components.  Only a directory can be passed, and a component is looked up
only if it is not too long. -/
def walk (listing : Listing) (place : Place) : List String → Except PathError Entry
  | [] =>
    match listing.entryAt? place with
    | some entry => .ok entry
    | none => .error .missing
  | component :: rest =>
    match listing.entryAt? place with
    | none => .error .missing
    | some (.file _) => .error .notDirectory
    | some .directory =>
      if component.isEmpty || component = "." then listing.walk place rest
      else if component = ".." then listing.walk place.outer rest
      else if componentLimit < component.utf8ByteSize then .error .tooLong
      else
        match place.inner? component with
        | some inner => listing.walk inner rest
        | none => .error .missing

/-- Where the walk along a path starts: an absolute one starts far above. -/
def startOf (path : String) : Place :=
  if path.toList.head? = some '/' then .above else .below []

/-- The disk that holds a listing. -/
def disk (listing : Listing) : Disk where
  entry path :=
    if path.toList.contains '\x00' then .error .zeroByte
    else if path.isEmpty then .error .missing
    else if pathLimit < path.utf8ByteSize then .error .tooLong
    else listing.walk (startOf path) (components path)

end Listing

end Disk

end SchemaLint
