import SchemaLint.Problem

namespace SchemaLint

namespace Report

/-!
# Reports for terminals

Every problem is a paragraph and every failure a line, in order, and a coloured summary
ends the report.
-/

/-- The colours of a terminal. -/
inductive Colour where
  | red
  | yellow
  | green
deriving DecidableEq, Inhabited

namespace Colour

/-- What switches a terminal to the colour. -/
def on : Colour → String
  | red => "\x1b[31m"
  | yellow => "\x1b[33m"
  | green => "\x1b[32m"

/-- What switches a terminal back. -/
def off : String := "\x1b[0m"

/-- A text in the colour. -/
def paint (colour : Colour) (text : String) : String := colour.on ++ text ++ off

end Colour

/-- What a report says about one file. -/
def textSection (response : Response) : String :=
  let mark := Colour.red.paint "failed"
  let problems := response.problems.map fun problem => problem.paragraph ++ "\n"
  let failures := response.failures.map fun failure =>
    s!"{mark} {response.filePath}: {failure.line}\n\n"
  String.join (problems ++ failures)

/-- A count summed up over all files. -/
def total (count : Response → Nat) (responses : List Response) : Nat :=
  responses.foldl (fun sum response => sum + count response) 0

/-- The lines that end a report. -/
def summary (responses : List Response) : String :=
  let errors := total Response.errorCount responses
  let warnings := total Response.warningCount responses
  let failures := total (fun response => response.failures.length) responses
  let colour := if 0 < errors ∨ 0 < failures then Colour.red
    else if 0 < warnings then .yellow else .green
  let found :=
    s!"Found {errors} error(s), {warnings} warning(s) in {responses.length} file(s)"
  let failed := s!"{failures} rule execution failure(s)"
  colour.paint found ++ "\n" ++ if 0 < failures then Colour.red.paint failed ++ "\n" else ""

/-- The report of a run as a text for terminals. -/
def textReport (responses : List Response) : String :=
  String.join (responses.map textSection) ++ summary responses

end Report

end SchemaLint
