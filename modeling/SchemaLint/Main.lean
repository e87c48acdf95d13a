import SchemaLint.Command.Invocation

namespace SchemaLint

/-!
# The program

The files that a command may look at are read beforehand; the command itself is then a
pure function of what was found.
-/

/-- The number of a system fault, which is reported with either sign. -/
def faultNumber (code : UInt32) : UInt32 := if code < 0x80000000 then code else 0 - code

/-- What a failed attempt to read a file says about its path. -/
def entryOfFault : IO.Error → Except PathError Disk.Entry
  | .inappropriateType _ code _ =>
    if faultNumber code = 21 then .ok .directory else .error .notDirectory
  | .invalidArgument _ code _ => .error (if faultNumber code = 36 then .tooLong else .zeroByte)
  | _ => .error .missing

/-- What the file system holds under a path. -/
def readEntry (path : String) : IO (Except PathError Disk.Entry) := do
  try
    let content ← IO.FS.readBinFile path
    return .ok (.file content.toList)
  catch fault => return entryOfFault fault

/-- The disk that holds what was found under some paths. -/
def Disk.ofEntries (entries : List (String × Except PathError Disk.Entry)) : Disk where
  entry path := (entries.lookup path).getD (.error .missing)

/-- Runs the program in the current directory and gives its exit code. -/
def runProgram (arguments : List String) : IO UInt32 := do
  let project := (← IO.currentDir).toString
  let global :=
    Config.globalDirectory (← IO.getEnv "PROTOLINT_CONFIG_DIR") (← IO.getEnv "HOME")
  let entries ← (Command.pathsOf project global arguments).mapM fun path => do
    return (path, ← readEntry path)
  let result := Command.invoke ⟨Disk.ofEntries entries, project, global⟩ arguments
  (← IO.getStdout).putStr result.output
  (← IO.getStderr).putStr result.errorText
  return UInt32.ofNat result.exitCode

end SchemaLint

/-- The program. -/
def main (arguments : List String) : IO UInt32 := SchemaLint.runProgram arguments
