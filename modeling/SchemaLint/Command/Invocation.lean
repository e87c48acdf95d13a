import SchemaLint.Command.Arguments
import SchemaLint.Command.ListRules
import SchemaLint.Naming.Rules

namespace SchemaLint

namespace Command

/-!
# Invocations

What an invocation of the program does: it prints something, and ends with zero when all
is well, with one when the command failed, and with two when the command line is
mistaken.
-/

/-- How to call the program. -/
def usageText : String :=
  "Linter for protobuf API definitions\n\nUsage: protolint [OPTIONS] <COMMAND>\n\n" ++
    "Commands:\n" ++
    "  lint        Lint files from compiled descriptor sets\n" ++
    "  list-rules  List available rules\n" ++
    "  help        Print this message or the help of the given subcommand(s)\n\n" ++
    "Options:\n" ++
    "  -v, --verbose  Enable verbose output\n" ++
    "  -h, --help     Print help\n" ++
    "  -V, --version  Print version\n"

/-- What an invocation leaves behind.  `causes` is the error with what caused it. -/
structure Result where
  exitCode : Nat
  output : String
  causes : List String := []
deriving DecidableEq, Inhabited

namespace Result

/-- A line without the carriage return that may end it. -/
def withoutReturn (line : List Char) : List Char :=
  if line.getLast? = some '\r' then line.dropLast else line

/-- The first line of what is said about an error. -/
def errorLine? (result : Result) : Option String :=
  result.causes.head?.map fun message =>
    String.ofList (withoutReturn (message.toList.takeWhile (· ≠ '\n')))

/-- The causes below an error, numbered when there are several. -/
def causeLines : List String → List String
  | [] => []
  | [cause] => ["", "Caused by:", "    " ++ cause]
  | several => "" :: "Caused by:" :: several.mapIdx fun i cause => s!"    {i}: {cause}"

/-- What is said about an error; a mistaken command line is answered with the usage. -/
def errorText (result : Result) : String :=
  match result.causes with
  | [] => if result.exitCode = 2 then usageText else ""
  | message :: causes =>
    String.join ((("Error: " ++ message) :: causeLines causes).map (· ++ "\n"))

end Result

/-- The name and version of the program. -/
def versionText : String := "protolint 0.4.2\n"

/-- Does what a command line asks for, with the given rules. -/
def perform (surroundings : Surroundings) (registry : Registry) : Request → Result
  | .version => ⟨0, versionText, []⟩
  | .help => ⟨0, usageText, []⟩
  | .listRules => ⟨0, listRules registry, []⟩
  | .lint options =>
    match lint surroundings registry options with
    | .ok outcome => ⟨if outcome.failed then 1 else 0, outcome.output, []⟩
    | .error fault => ⟨1, "", fault.causes⟩

/-- Runs the program with the built-in rules. -/
def invoke (surroundings : Surroundings) (arguments : List String) : Result :=
  match Request.ofArguments? arguments, Registry.ofList Naming.catalog with
  | none, _ => ⟨2, "", []⟩
  | some request, .ok registry => perform surroundings registry request
  | some _, .error fault => ⟨1, "", ["Failed to register built-in rules", fault.message]⟩

/-- The paths that an invocation may look at. -/
def pathsOf (project : String) (global : Option String) (arguments : List String) :
    List String :=
  match Request.ofArguments? arguments with
  | some (.lint options) =>
    options.configs ++ Config.projectNames.map (Disk.join project) ++
      (global.map fun directory => Disk.join directory Config.globalName).toList ++ options.sets
  | _ => []

end Command

end SchemaLint
