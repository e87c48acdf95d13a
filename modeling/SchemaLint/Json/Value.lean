import SchemaLint.Json.Token

namespace SchemaLint

/-!
# JSON values

A JSON text is one value.  It is read from its tokens by a machine that keeps the
arrays and objects that are still open.

Members of an object stay in textual order, repeated keys included.  A quoted text
that holds half of a surrogate pair is a string without a text: nothing can be read
from it, and it does no harm where nobody looks at it.
-/

/-- A JSON value. -/
inductive Json where
  | null
  | bool (value : Bool)
  | integer (value : Int)
  | fraction
  | string (text : Option String)
  | array (items : List Json)
  | object (members : List (Option String × Json))
deriving Inhabited

namespace Json

/-- An array or object that is still open, with what it holds so far, the last first. -/
inductive Frame where
  | array (items : List Json)
  | object (members : List (Option String × Json))
  | member (members : List (Option String × Json)) (key : Option String)
deriving Inhabited

/-- What the machine waits for. -/
inductive Mode where
  | value
  | firstItem
  | firstKey
  | key
  | colon (key : Option String)
  | after (value : Json)
deriving Inhabited

/-- The text of a quoted token. -/
def quoted (units : List Nat) : Option String := (textOfUnits? units).map String.ofList

/-- One step where a value starts. -/
def startValue (frames : List Frame) : Token → Option (Mode × List Frame)
  | .null => some (.after .null, frames)
  | .bool value => some (.after (.bool value), frames)
  | .integer value => some (.after (.integer value), frames)
  | .fraction => some (.after .fraction, frames)
  | .string units => some (.after (.string (quoted units)), frames)
  | .openArray => some (.firstItem, .array [] :: frames)
  | .openObject => some (.firstKey, .object [] :: frames)
  | .closeArray | .closeObject | .colon | .comma => none

/-- One step behind a value. -/
def endValue (value : Json) : List Frame → Token → Option (Mode × List Frame)
  | .array items :: frames, .comma => some (.value, .array (value :: items) :: frames)
  | .array items :: frames, .closeArray =>
    some (.after (.array (value :: items).reverse), frames)
  | .member members key :: frames, .comma =>
    some (.key, .object ((key, value) :: members) :: frames)
  | .member members key :: frames, .closeObject =>
    some (.after (.object ((key, value) :: members).reverse), frames)
  | _, _ => none

/-- One step of the machine. -/
def step : Mode → List Frame → Token → Option (Mode × List Frame)
  | .value, frames, token => startValue frames token
  | .firstItem, .array [] :: frames, .closeArray => some (.after (.array []), frames)
  | .firstItem, frames, token => startValue frames token
  | .firstKey, .object [] :: frames, .closeObject => some (.after (.object []), frames)
  | .firstKey, frames, .string units => some (.colon (quoted units), frames)
  | .firstKey, _, _ => none
  | .key, frames, .string units => some (.colon (quoted units), frames)
  | .key, _, _ => none
  | .colon key, .object members :: frames, .colon => some (.value, .member members key :: frames)
  | .colon _, _, _ => none
  | .after value, frames, token => endValue value frames token

/-- Runs the machine to the end of the tokens. -/
def run (mode : Mode) (frames : List Frame) : List Token → Option Json
  | [] =>
    match mode, frames with
    | .after value, [] => some value
    | _, _ => none
  | token :: rest =>
    match step mode frames token with
    | some (mode, frames) => run mode frames rest
    | none => none

/-- The value that a text spells, or nothing when it is no JSON text. -/
def parse? (text : String) : Option Json :=
  match readTokens text.toList with
  | some tokens => run .value [] tokens
  | none => none

end Json

end SchemaLint
