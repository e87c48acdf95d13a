import SchemaLint.Config.FromJson
import SchemaLint.Rule
import SchemaLint.RuleName

namespace SchemaLint

/-!
# Reading reports

Reports in JSON can be read again.  Fields that a report leaves out may be missing or
null, and keys that no report has are passed over.
-/

/-- The rule name that a value spells. -/
def RuleName.ofJson? (value : Json) : Option RuleName :=
  match value.text? with
  | some text => (RuleName.ofString text).toOption
  | none => none

/-- The kind of element that a value names. -/
def Schema.ElementKind.ofJson? (value : Json) : Option Schema.ElementKind :=
  value.choice? word all

/-- The kind of rule that a value names. -/
def RuleKind.ofJson? (value : Json) : Option RuleKind := value.choice? word all

/-- The element that a value refers to. -/
def ElementRef.ofJson? (value : Json) : Option ElementRef :=
  match value.record? false ["kind", "full_name", "path"] with
  | some [kind, fullName, path] =>
    match Json.required? Schema.ElementKind.ofJson? kind, Json.required? Json.text? fullName,
      Json.required? (Json.list? Json.int32?) path with
    | some kind, some fullName, some path => some ⟨kind, fullName, path⟩
    | _, _, _ => none
  | _ => none

/-- The location that a value describes. -/
def Location.ofJson? (value : Json) : Option Location :=
  match value.record? false ["file", "start_line", "start_column", "end_line", "end_column"] with
  | some [file, startLine, startColumn, endLine, endColumn] =>
    match Json.required? Json.text? file, Json.required? Json.uint64? startLine,
      Json.required? Json.uint64? startColumn, Json.required? Json.uint64? endLine,
      Json.required? Json.uint64? endColumn with
    | some file, some startLine, some startColumn, some endLine, some endColumn =>
      some ⟨file, startLine, startColumn, endLine, endColumn⟩
    | _, _, _, _, _ => none
  | _ => none

/-- The problem that a value describes. -/
def Problem.ofJson? (value : Json) : Option Problem :=
  match value.record? false
    ["rule", "category", "message", "suggestion", "descriptor", "location", "uri"] with
  | some [rule, category, message, suggestion, element, location, uri] =>
    match Json.required? Json.text? rule, Json.required? Category.ofJson? category,
      Json.required? Json.text? message, Json.optional? Json.text? suggestion,
      Json.required? ElementRef.ofJson? element, Json.optional? Location.ofJson? location,
      Json.optional? Json.text? uri with
    | some rule, some category, some message, some suggestion, some element, some location,
      some uri => some ⟨rule, category, message, suggestion, element, location, uri⟩
    | _, _, _, _, _, _, _ => none
  | _ => none

/-- The failure that a value describes. -/
def RuleFailure.ofJson? (value : Json) : Option RuleFailure :=
  match value.record? false ["rule", "element", "message"] with
  | some [rule, element, message] =>
    match Json.required? Json.text? rule, Json.required? ElementRef.ofJson? element,
      Json.required? Json.text? message with
    | some rule, some element, some message => some ⟨rule, element, message⟩
    | _, _, _ => none
  | _ => none

/-- The response that a value describes. -/
def Response.ofJson? (value : Json) : Option Response :=
  match value.record? false ["file_path", "problems", "errors"] with
  | some [filePath, problems, failures] =>
    match Json.required? Json.text? filePath,
      Json.required? (Json.list? Problem.ofJson?) problems,
      Json.orDefault? [] (Json.list? RuleFailure.ofJson?) failures with
    | some filePath, some problems, some failures => some ⟨filePath, problems, failures⟩
    | _, _, _ => none
  | _ => none

/-- The responses that a JSON report holds. -/
def Report.ofJsonReport? (text : String) : Option (List Response) :=
  match Json.parse? text with
  | some value => value.list? Response.ofJson?
  | none => none

end SchemaLint
