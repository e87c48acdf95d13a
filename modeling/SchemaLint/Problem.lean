import SchemaLint.Schema.Element

namespace SchemaLint

/-!
# Problems and responses

A rule reports problems against elements.  The run fills in what a rule does not
know: its registered name, the category it has been given, and, where the rule said
nothing, the place and the documentation link.

A response gathers what one file gave: its problems in order of visit, and the
failure that ended the visit, if there was one.
-/

/-- How grave a problem is. -/
inductive Category where
  | warning
  | error
deriving DecidableEq, Inhabited

namespace Category

/-- The word for a category. -/
def word : Category → String
  | warning => "warning"
  | error => "error"

end Category

/-- An element as reports refer to it. -/
structure ElementRef where
  kind : Schema.ElementKind
  fullName : String
  path : Schema.Path
deriving DecidableEq, Inhabited

namespace ElementRef

/-- The text by which a report refers to the element. -/
def label (element : ElementRef) : String := s!"{element.kind.word} `{element.fullName}`"

end ElementRef

/-- The reference to an element. -/
def Schema.Element.ref (element : Schema.Element) : ElementRef :=
  ⟨element.kind, element.fullName, element.path⟩

/-- One finding of one rule. -/
structure Problem where
  rule : String := ""
  category : Category := .warning
  message : String
  suggestion : Option String := none
  element : ElementRef
  location : Option Location := none
  uri : Option String := none
deriving DecidableEq, Inhabited

namespace Problem

/-- The problem as a paragraph of a report. -/
def paragraph (problem : Problem) : String :=
  let place := match problem.location with
    | some location =>
      s!"{location.file}:{location.startLine.toNat}:{location.startColumn.toNat}"
    | none => problem.element.label
  let help := match problem.suggestion with
    | some suggestion => s!"  = help: replace with `{suggestion}`\n"
    | none => ""
  let link := match problem.uri with
    | some uri => s!"  = see: {uri}\n"
    | none => ""
  s!"{problem.rule} at {place}\n  {problem.category.word}: {problem.message}\n{help}{link}"

/-- The problem as one line. -/
def line (problem : Problem) : String :=
  let place := match problem.location with
    | some location =>
      s!"{location.file}:{location.startLine.toNat}:{location.startColumn.toNat}: "
    | none => ""
  let link := match problem.uri with
    | some uri => s!" (see: {uri})"
    | none => ""
  s!"{place}{problem.category.word} [{problem.rule}] {problem.message}{link}"

end Problem

/-- A rule that gave up on an element instead of judging it. -/
structure RuleFailure where
  rule : String
  element : ElementRef
  message : String
deriving DecidableEq, Inhabited

namespace RuleFailure

/-- The failure as one line. -/
def line (failure : RuleFailure) : String :=
  s!"rule `{failure.rule}` failed on {failure.element.label}: {failure.message}"

end RuleFailure

/-- What one file gave. -/
structure Response where
  filePath : String
  problems : List Problem
  failures : List RuleFailure
deriving DecidableEq, Inhabited

namespace Response

/-- Whether some problem is an error.  Failures do not count. -/
def hasErrors (response : Response) : Bool :=
  response.problems.any fun problem => problem.category = .error

/-- The number of problems that are errors. -/
def errorCount (response : Response) : Nat :=
  response.problems.countP fun problem => problem.category = .error

/-- The number of problems that are warnings. -/
def warningCount (response : Response) : Nat :=
  response.problems.length - response.errorCount

end Response

end SchemaLint
