import SchemaLint.Config.Layer
import SchemaLint.Directive
import SchemaLint.Schema.Visit

namespace SchemaLint

/-!
# Suppressions in comments

Directives in the header comment of a file hold for the whole file; those in the
leading comment of an element hold for that element alone, not for what it holds or
what holds it.  They can only switch rules off.
-/

/-- A comment whose directives cannot be read, with the place where it stands. -/
structure SuppressionError where
  file : String
  place : String
  fault : DirectiveError
deriving DecidableEq, Inhabited

namespace SuppressionError

/-- The wording of the error. -/
def message (error : SuppressionError) : String :=
  s!"{error.file}: {error.place}: {error.fault.message}"

end SuppressionError

/-- The directives of a file. -/
structure Suppressions where
  header : List Directive
  elements : List (Schema.Path × List Directive)
deriving Inhabited

namespace Suppressions

/-- No directives. -/
def none : Suppressions := ⟨[], []⟩

/-- The directives in the leading comments of elements, each with the element's path. -/
def ofElements : List Schema.Element → Except SuppressionError (List (Schema.Path × List Directive))
  | [] => .ok []
  | element :: rest =>
    match Directive.readAll element.leadingComment with
    | .error fault => .error ⟨element.file.name, element.fullName, fault⟩
    | .ok directives =>
      match ofElements rest with
      | .error fault => .error fault
      | .ok more => .ok (if directives.isEmpty then more else (element.path, directives) :: more)

/-- The directives of a file: those of its header, then those of its elements in order of
visit. -/
def ofFile (file : Schema.File) : Except SuppressionError Suppressions :=
  match Directive.readAll file.header with
  | .error fault => .error ⟨file.name, "file header", fault⟩
  | .ok header =>
    match ofElements file.visit with
    | .error fault => .error fault
    | .ok elements => .ok ⟨header, elements⟩

/-- Whether the header switches a rule off. -/
def headerDisables (suppressions : Suppressions) (rule : String) : Bool :=
  suppressions.header.any (·.disables rule)

/-- Whether the comment of the element at `path` switches a rule off. -/
def elementDisables (suppressions : Suppressions) (path : Schema.Path) (rule : String) : Bool :=
  ((suppressions.elements.lookup path).getD []).any (·.disables rule)

/-- Whether a rule is switched off for the element at `path`. -/
def disables (suppressions : Suppressions) (path : Schema.Path) (rule : String) : Bool :=
  suppressions.headerDisables rule || suppressions.elementDisables path rule

end Suppressions

end SchemaLint
