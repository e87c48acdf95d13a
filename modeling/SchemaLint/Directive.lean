import SchemaLint.RuleName
import SchemaLint.Text.Blank

namespace SchemaLint

/-!
# Suppression directives

A comment switches rules off with blocks of the form

    (-- api-linter: core::0135::http-body=disabled --)

A block may name several rules, each after its own `api-linter:`.  After the word
`disabled` comes free text, kept for the reader.  Text outside blocks means
nothing.  The first faulty block decides the error; what follows it is not read.
-/

/-- The namespace that one directive switches off. -/
structure Directive where
  scope : String
deriving DecidableEq, Inhabited

/-- Why a comment cannot be read.  Each cause carries the text of its block. -/
inductive DirectiveError where
  | unterminated (text : String)
  | malformed (text : String)
  | invalidName (text : String)
deriving DecidableEq, Inhabited

namespace DirectiveError

/-- The wording of a directive error. -/
def message : DirectiveError → String
  | unterminated text => s!"unterminated directive `{text}`"
  | malformed text => s!"malformed directive `{text}`, expected `<rule-name>=disabled`"
  | invalidName text => s!"invalid rule name in directive `{text}`"

end DirectiveError

namespace Directive

/-- What opens a block. -/
def openMark : List Char := "(-- api-linter:".toList

/-- What closes a block. -/
def closeMark : List Char := "--)".toList

/-- What stands before each further rule of a block. -/
def ruleMark : List Char := "api-linter:".toList

/-- The one state a directive can ask for. -/
def stateWord : List Char := "disabled".toList

/-- Whether the directive switches off the rule of this name. -/
def disables (directive : Directive) (rule : String) : Bool :=
  RuleName.encloses directive.scope rule

/-- Reads `<scope>=disabled` and the free text after it.  `block` is the whole
block, which errors quote. -/
def readPiece (block : String) (piece : List Char) : Except DirectiveError Directive :=
  match Text.cut? ['='] (Text.trim piece) with
  | none => .error (.malformed block)
  | some (left, right) =>
    let scope := Text.trim left
    if Text.firstWord right ≠ stateWord ∨ scope = [] then .error (.malformed block)
    else
      match RuleName.check (String.ofList scope) with
      | .ok () => .ok ⟨String.ofList scope⟩
      | .error _ => .error (.invalidName block)

/-- Reads the pieces of one block in order. -/
def readPieces (block : String) : List (List Char) → Except DirectiveError (List Directive)
  | [] => .ok []
  | piece :: rest =>
    match readPiece block piece with
    | .error fault => .error fault
    | .ok directive =>
      match readPieces block rest with
      | .error fault => .error fault
      | .ok directives => .ok (directive :: directives)

/-- The text of the block with this body, marks included. -/
def blockText (body : List Char) : String :=
  String.ofList (openMark ++ body ++ closeMark)

/-- Reads every block of a comment, from left to right. -/
def readText (comment : List Char) : Except DirectiveError (List Directive) :=
  match hopen : Text.cut? openMark comment with
  | none => .ok []
  | some (_, afterOpen) =>
    match hclose : Text.cut? closeMark afterOpen with
    | none => .error (.unterminated (String.ofList (Text.trimRight (openMark ++ afterOpen))))
    | some (body, rest) =>
      have hshorter : rest.length < comment.length := by
        have hfirst := Text.length_after_of_cut? hopen
        have hsecond := Text.length_after_of_cut? hclose
        have hmark : closeMark.length = 3 := by decide
        omega
      match readPieces (blockText body) (Text.pieces ruleMark body) with
      | .error fault => .error fault
      | .ok directives =>
        match readText rest with
        | .error fault => .error fault
        | .ok more => .ok (directives ++ more)
termination_by comment.length

/-- The directives of a comment, in textual order. -/
def readAll (comment : String) : Except DirectiveError (List Directive) :=
  readText comment.toList

end Directive

end SchemaLint
