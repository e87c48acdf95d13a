import SchemaLint.Problem

namespace SchemaLint

namespace Report

/-!
# The content of reports

What a structured report says about the responses of a run, before it is written as
JSON or YAML: numbers, texts, lists, and records whose fields have a fixed order.
Fields without a value are left out.
-/

/-- The content of a structured report. -/
inductive Tree where
  | integer (value : Int)
  | text (value : String)
  | list (items : List Tree)
  | record (fields : List (String × Tree))
deriving Inhabited

/-- The field for a value that may be missing. -/
def optionalField {α : Type} (name : String) (content : α → Tree) (value : Option α) :
    List (String × Tree) :=
  (value.map fun value => (name, content value)).toList

end Report

open Report

/-- What a report says about a location. -/
def Location.tree (location : Location) : Tree :=
  .record [("file", .text location.file), ("start_line", .integer location.startLine.toNat),
    ("start_column", .integer location.startColumn.toNat),
    ("end_line", .integer location.endLine.toNat),
    ("end_column", .integer location.endColumn.toNat)]

/-- What a report says about an element. -/
def ElementRef.tree (element : ElementRef) : Tree :=
  .record [("kind", .text element.kind.word), ("full_name", .text element.fullName),
    ("path", .list (element.path.map fun entry => .integer entry.toInt))]

/-- What a report says about a problem. -/
def Problem.tree (problem : Problem) : Tree :=
  .record ([("rule", .text problem.rule), ("category", .text problem.category.word),
      ("message", .text problem.message)] ++
    optionalField "suggestion" .text problem.suggestion ++
    [("descriptor", problem.element.tree)] ++
    optionalField "location" Location.tree problem.location ++
    optionalField "uri" .text problem.uri)

/-- What a report says about a failure. -/
def RuleFailure.tree (failure : RuleFailure) : Tree :=
  .record [("rule", .text failure.rule), ("element", failure.element.tree),
    ("message", .text failure.message)]

/-- What a report says about a file.  Failures are left out when there are none. -/
def Response.tree (response : Response) : Tree :=
  .record ([("file_path", .text response.filePath),
      ("problems", .list (response.problems.map Problem.tree))] ++
    (if response.failures.isEmpty then []
      else [("errors", .list (response.failures.map RuleFailure.tree))]))

/-- What a report says about a run. -/
def Report.ofResponses (responses : List Response) : Tree :=
  .list (responses.map Response.tree)

end SchemaLint
