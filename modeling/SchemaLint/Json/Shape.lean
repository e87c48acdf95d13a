import SchemaLint.Json.Value

namespace SchemaLint

namespace Json

/-!
# Shapes of JSON values

How lists, records and choices are written as JSON values.  A record is an object, or
an array of its fields in declared order, where fields may be missing at the end.  A
choice is a word, or an object with that word as its only key and nothing under it.
-/

/-- The text of a string. -/
def text? : Json → Option String
  | .string text => text
  | _ => none

/-- The word that names a choice. -/
def word? : Json → Option String
  | .string text => text
  | .object [(key, .null)] => key
  | _ => none

/-- The choice, among those given, that a value names by its word. -/
def choice? {α : Type} (word : α → String) (choices : List α) (value : Json) : Option α :=
  match value.word? with
  | some found => choices.find? fun choice => word choice = found
  | none => none

/-- An integer of 32 bits. -/
def int32? : Json → Option Int32
  | .integer value =>
    if Int32.minValue.toInt ≤ value ∧ value ≤ Int32.maxValue.toInt then
      some (Int32.ofInt value)
    else none
  | _ => none

/-- A natural number of 64 bits. -/
def uint64? : Json → Option UInt64
  | .integer value =>
    if 0 ≤ value ∧ value.toNat < UInt64.size then some (UInt64.ofNat value.toNat) else none
  | _ => none

/-- Reads all values of a list. -/
def all? {α : Type} (read : Json → Option α) : List Json → Option (List α)
  | [] => some []
  | value :: rest =>
    match read value, all? read rest with
    | some first, some more => some (first :: more)
    | _, _ => none

/-- A list. -/
def list? {α : Type} (read : Json → Option α) : Json → Option (List α)
  | .array items => all? read items
  | _ => none

/-- Reads all members of an object; every key must be a text. -/
def members? {α : Type} (read : Json → Option α) :
    List (Option String × Json) → Option (List (String × α))
  | [] => some []
  | (key, value) :: rest =>
    match key, read value, members? read rest with
    | some key, some first, some more => some ((key, first) :: more)
    | _, _, _ => none

/-- A field that may be left out or set to null. -/
def optional? {α : Type} (read : Json → Option α) : Option Json → Option (Option α)
  | none | some .null => some none
  | some value => (read value).map some

/-- A field that must be given. -/
def required? {α : Type} (read : Json → Option α) : Option Json → Option α
  | none => none
  | some value => read value

/-- A field that stands for `default` when left out. -/
def orDefault? {α : Type} (default : α) (read : Json → Option α) : Option Json → Option α
  | none => some default
  | some value => read value

/-- The field of a name among the members of an object; nothing when it is repeated. -/
def field? (members : List (Option String × Json)) (name : String) : Option (Option Json) :=
  match members.filter fun member => member.1 = some name with
  | [] => some none
  | [(_, value)] => some (some value)
  | _ => none

/-- Looks up the fields of several names. -/
def fieldsOf? (members : List (Option String × Json)) : List String → Option (List (Option Json))
  | [] => some []
  | name :: rest =>
    match field? members name, fieldsOf? members rest with
    | some first, some more => some (first :: more)
    | _, _ => none

/-- Whether all keys are texts, and, if `closed`, all are among the names. -/
def keysFit (closed : Bool) (names : List String) (members : List (Option String × Json)) :
    Bool :=
  members.all fun (key, _) =>
    match key with
    | some key => !closed || names.contains key
    | none => false

/-- The fields of a record in declared order, those that are left out as `none`.  A
`closed` record has no other fields. -/
def record? (closed : Bool) (names : List String) : Json → Option (List (Option Json))
  | .array items =>
    if items.length ≤ names.length then
      some (items.map some ++ List.replicate (names.length - items.length) none)
    else none
  | .object members => if keysFit closed names members then fieldsOf? members names else none
  | _ => none

end Json

end SchemaLint
