import SchemaLint.Command.Lint

namespace SchemaLint

namespace Command

/-!
# Command lines

A command line names a command behind options that hold for all commands, and then the
options and arguments of that command.  An option that takes a value has it behind an
equals sign or as the next argument, which must not look like an option; a short option
may have it attached.  Short options without values can be written together.  Behind
`--` everything is an argument.
-/

/-- What a command line asks for. -/
inductive Request where
  | version
  | help
  | listRules
  | lint (options : LintOptions)
deriving DecidableEq, Inhabited

/-- The options of the lint command that take a value. -/
inductive ValueOption where
  | set
  | config
  | format
  | disable
  | enable
deriving DecidableEq, Inhabited

/-- The options of the lint command that take no value. -/
inductive FlagOption where
  | verbose
  | help
  | ignoreDirectives
  | failOnProblems
  | parallel
deriving DecidableEq, Inhabited

namespace ValueOption

/-- The long names. -/
def longNames : List (String × ValueOption) :=
  [("descriptor-set-in", set), ("config", config), ("output-format", format),
    ("disable-rule", disable), ("enable-rule", enable)]

/-- The short names. -/
def shortNames : List (Char × ValueOption) := [('c', config), ('f', format)]

end ValueOption

namespace FlagOption

/-- The long names. -/
def longNames : List (String × FlagOption) :=
  [("verbose", verbose), ("help", help), ("ignore-comment-disables", ignoreDirectives),
    ("set-exit-status", failOnProblems), ("parallel", parallel)]

/-- The short names. -/
def shortNames : List (Char × FlagOption) := [('v', verbose), ('h', help)]

end FlagOption

/-- What is known of a lint command line so far.  Options that may be given once are listed
in `flags` and `format`. -/
structure LintLine where
  options : LintOptions := {}
  format : Option Format := none
  flags : List FlagOption := []
deriving Inhabited

/-- How reading a command line goes on: with what is known so far, at once with help, or not
at all. -/
inductive Progress (α : Type) where
  | next (state : α)
  | help
  | mistake
deriving Inhabited

namespace LintLine

/-- Takes the value of an option.  Paths are not empty. -/
def setValue (line : LintLine) (option : ValueOption) (value : String) : Progress LintLine :=
  let options := line.options
  match option with
  | .set =>
    if value.isEmpty then .mistake
    else .next { line with options := { options with sets := options.sets ++ [value] } }
  | .config =>
    if value.isEmpty then .mistake
    else .next { line with options := { options with configs := options.configs ++ [value] } }
  | .format =>
    match line.format, Format.ofWord? value with
    | none, some format =>
      .next { line with options := { options with format := format }, format := some format }
    | _, _ => .mistake
  | .disable =>
    .next { line with options := { options with disabled := options.disabled ++ [value] } }
  | .enable =>
    .next { line with options := { options with enabled := options.enabled ++ [value] } }

/-- Takes an option without value, which may be given once. -/
def setFlag (line : LintLine) (flag : FlagOption) : Progress LintLine :=
  if line.flags.contains flag then .mistake
  else
    let line := { line with flags := flag :: line.flags }
    match flag with
    | .help => .help
    | .verbose => .next line
    | .ignoreDirectives =>
      .next { line with options := { line.options with ignoreDirectives := true } }
    | .failOnProblems =>
      .next { line with options := { line.options with failOnProblems := true } }
    | .parallel => .next { line with options := { line.options with parallel := true } }

/-- Takes an argument. -/
def addFile (line : LintLine) (name : String) : LintLine :=
  { line with options := { line.options with files := line.options.files ++ [name] } }

/-- Reads the letters of short options.  Gives the option whose value must follow, if
any. -/
def readShort (line : LintLine) : List Char → Progress (LintLine × Option ValueOption)
  | [] => .next (line, none)
  | letter :: rest =>
    match FlagOption.shortNames.lookup letter, ValueOption.shortNames.lookup letter with
    | some flag, _ =>
      match line.setFlag flag with
      | .next line => line.readShort rest
      | .help => .help
      | .mistake => .mistake
    | none, some option =>
      match rest with
      | [] => .next (line, some option)
      | '=' :: value | value =>
        match line.setValue option (String.ofList value) with
        | .next line => .next (line, none)
        | .help => .help
        | .mistake => .mistake
    | none, none => .mistake

/-- Reads a long option behind its dashes.  Gives the option whose value must follow, if
any. -/
def readLong (line : LintLine) (text : List Char) : Progress (LintLine × Option ValueOption) :=
  let (name, value) : List Char × Option (List Char) :=
    match Text.cut? ['='] text with
    | some (name, value) => (name, some value)
    | none => (text, none)
  let name := String.ofList name
  match FlagOption.longNames.lookup name, ValueOption.longNames.lookup name, value with
  | some flag, _, none =>
    match line.setFlag flag with
    | .next line => .next (line, none)
    | .help => .help
    | .mistake => .mistake
  | none, some option, none => .next (line, some option)
  | none, some option, some value =>
    match line.setValue option (String.ofList value) with
    | .next line => .next (line, none)
    | .help => .help
    | .mistake => .mistake
  | _, _, _ => .mistake

/-- Reads one argument as an option or argument. -/
def readOne (line : LintLine) (text : List Char) : Progress (LintLine × Option ValueOption) :=
  match text with
  | '-' :: '-' :: long => line.readLong long
  | '-' :: letter :: rest => line.readShort (letter :: rest)
  | other => .next (line.addFile (String.ofList other), none)

/-- Reads what follows the name of the lint command.  `pending` is the option whose value is
awaited. -/
def readAll (line : LintLine) (pending : Option ValueOption) : List String → Progress LintLine
  | [] => if pending.isSome then .mistake else .next line
  | text :: rest =>
    match pending with
    | some option =>
      if text.toList.head? = some '-' ∧ text ≠ "-" then .mistake
      else
        match line.setValue option text with
        | .next line => line.readAll none rest
        | .help => .help
        | .mistake => .mistake
    | none =>
      if text = "--" then .next (rest.foldl addFile line)
      else
        match line.readOne text.toList with
        | .next (line, pending) => line.readAll pending rest
        | .help => .help
        | .mistake => .mistake

end LintLine

/-- Reads a lint command line; at least one compiled set must be named. -/
def readLint (arguments : List String) : Option Request :=
  match ({} : LintLine).readAll none arguments with
  | .next line => if line.options.sets.isEmpty then none else some (.lint line.options)
  | .help => some .help
  | .mistake => none

/-- Reads the letters of short options where `-v` is the only one that stays: whether it was
among them, or what another one asks for at once. -/
def readLetters (requests : List (Char × Request)) (verbose : Bool) :
    List Char → Option (Except Request Bool)
  | [] => some (.ok verbose)
  | letter :: rest =>
    if letter = 'v' then (if verbose then none else readLetters requests true rest)
    else (requests.lookup letter).map .error

/-- Reads a long option where `--verbose` is the only one that stays, as `readLetters`
does. -/
def readWord (requests : List (String × Request)) (verbose : Bool) (name : String) :
    Option (Except Request Bool) :=
  if name = "verbose" then (if verbose then none else some (.ok true))
  else (requests.lookup name).map .error

/-- Reads what follows the command that lists rules, which takes no argument. -/
def readListRules (verbose : Bool) : List String → Option Request
  | [] => some .listRules
  | text :: rest =>
    match text.toList with
    | ['-', '-'] => if rest.isEmpty then some .listRules else none
    | '-' :: '-' :: name =>
      match readWord [("help", .help)] verbose (String.ofList name) with
      | some (.ok verbose) => readListRules verbose rest
      | some (.error request) => some request
      | none => none
    | '-' :: letter :: letters =>
      match readLetters [('h', .help)] verbose (letter :: letters) with
      | some (.ok verbose) => readListRules verbose rest
      | some (.error request) => some request
      | none => none
    | _ => none

/-- The names of the commands. -/
def commandNames : List String := ["lint", "list-rules", "help"]

/-- Reads a command with what follows its name. -/
def readCommand (name : String) (arguments : List String) : Option Request :=
  match name with
  | "lint" => readLint arguments
  | "list-rules" => readListRules false arguments
  | "help" =>
    match arguments with
    | [] => some .help
    | [topic] => if commandNames.contains topic then some .help else none
    | _ => none
  | _ => none

/-- Reads a command line behind the name of the program. -/
def readArguments (verbose : Bool) : List String → Option Request
  | [] => none
  | text :: rest =>
    match text.toList with
    | '-' :: '-' :: name =>
      match readWord [("version", .version), ("help", .help)] verbose (String.ofList name) with
      | some (.ok verbose) => readArguments verbose rest
      | some (.error request) => some request
      | none => none
    | '-' :: letter :: letters =>
      match readLetters [('V', .version), ('h', .help)] verbose (letter :: letters) with
      | some (.ok verbose) => readArguments verbose rest
      | some (.error request) => some request
      | none => none
    | _ => readCommand text rest

/-- What a command line asks for, or nothing when it is mistaken. -/
def Request.ofArguments? (arguments : List String) : Option Request :=
  readArguments false arguments

end Command

end SchemaLint
