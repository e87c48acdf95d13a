import SchemaLint.Text.Search

namespace SchemaLint

/-!
# Rule names

A rule name is a list of segments joined by `::`, the least specific segment
first, as in `core::0135::http-body`.  A segment is a non-empty run of ASCII
letters, digits, `_` and `-`.

Every name is also a namespace: it encloses itself and every name that goes on
after a `::`.  Enclosing is a test on raw text, because configuration keys and
directives are compared with names before anything is known about them.
-/

/-- Why a text is not a rule name. -/
inductive NameError where
  | empty
  | emptySegment (name : String)
  | invalidCharacter (name : String) (character : Char)
deriving DecidableEq, Inhabited

namespace NameError

/-- The wording of a name error. -/
def message : NameError → String
  | empty => "rule name must not be empty"
  | emptySegment name => s!"rule name `{name}` contains an empty segment"
  | invalidCharacter name character =>
    s!"rule name `{name}` contains invalid character `{character}`"

end NameError

namespace RuleName

/-- What stands between two segments. -/
def separator : List Char := [':', ':']

/-- The characters of a segment. -/
def isSegmentChar (c : Char) : Bool :=
  c.isAlphanum || c == '_' || c == '-'

/-- Looks for the first fault among the segments of `name`. -/
def checkSegments (name : String) : List (List Char) → Except NameError Unit
  | [] => .ok ()
  | segment :: rest =>
    if segment.isEmpty then .error (.emptySegment name)
    else
      match segment.find? fun c => !isSegmentChar c with
      | some c => .error (.invalidCharacter name c)
      | none => checkSegments name rest

/-- Accepts exactly the rule names. -/
def check (name : String) : Except NameError Unit :=
  match name.toList with
  | [] => .error .empty
  | text => checkSegments name (Text.pieces separator text)

/-- Accepts the rule names and the empty text, which encloses every name. -/
def checkScope (scope : String) : Except NameError Unit :=
  if scope.isEmpty then .ok () else check scope

/-- Whether `scope` is empty, is `name`, or is a namespace around `name`. -/
def encloses (scope name : String) : Bool :=
  scope.isEmpty ||
    match scope.toList.isPrefixOf? name.toList with
    | some rest => rest.isEmpty || separator.isPrefixOf rest
    | none => false

end RuleName

/-- A text that has passed `RuleName.check`. -/
structure RuleName where
  text : String
  valid : RuleName.check text = .ok ()
deriving DecidableEq

namespace RuleName

/-- The rule name spelled by a text, or the first fault in it. -/
def ofString (text : String) : Except NameError RuleName :=
  match h : check text with
  | .ok () => .ok ⟨text, h⟩
  | .error fault => .error fault

/-- The segments of a name, least specific first. -/
def segments (name : RuleName) : List String :=
  (Text.pieces separator name.text.toList).map String.ofList

end RuleName

end SchemaLint
