import FormulaRules.Command.Arguments
import FormulaRules.Command.Report

/-!
# The program

Reads the files and the environment that a command line needs, runs it, and prints what it
shows. The exit code is 0 after success, 1 after a failure and 2 for arguments that name
nothing to run.
-/

namespace FormulaRules.Main

/-- What is read at a path, for real. -/
def readFile (path : String) : IO (Except ReadFault String) := do
  try
    let bytes ← IO.FS.readBinFile path
    match String.fromUTF8? bytes with
    | some text => return .ok text
    | none => return .error .notText
  catch
    | .noFileOrDirectory .. => return .error .notFound
    | .permissionDenied .. => return .error .denied
    | .inappropriateType .. => return .error .isDirectory
    | _ => return .error .other

/-- What is read at some paths; every other path is taken for missing. -/
def readFiles (paths : List String) : IO Files := do
  let found ← paths.mapM fun path => do return (path, ← readFile path)
  return fun path => (found.lookup path).getD (.error .notFound)

/-- The variables of the environment that the program looks at. -/
def readEnvironment : IO Environment := do
  let names := ["FORMULARY_CONFIG_PATH", "FORMULARY_LOG_FILTER", "FORMULARY_OUTPUT_FORMAT"]
  let found ← names.mapM fun name => do return (name, ← IO.getEnv name)
  return fun name => (found.lookup name).join

/-- How the program is called. -/
def usage : String :=
  "usage: formulary [-c FILE] [-f text|json] [-v] COMMAND ...\n" ++
  "  calc FORMULA [--var NAME=VALUE]... [--vars FILE]\n" ++
  "  check CONDITION [--var NAME=VALUE]... [--vars FILE]\n" ++
  "  rules FILE [--var NAME=VALUE]... [--vars FILE]\n" ++
  "  validate [--condition] TEXT\n" ++
  "  explain FORMULA\n"

/-- The wording of an error in the arguments. -/
def complaint : UsageError → String
  | .helpWanted => "help"
  | .versionWanted => "version"
  | .nothingGiven => "a command is missing"
  | .unknownCommand => "unknown command"
  | .missingCommand => "a command is missing"
  | .missingSubject => "an argument is missing"
  | .unknownArgument => "unexpected argument"
  | .invalidValue => "a value is missing or unknown"
  | .refusedAssignment => "not an assignment"
  | .repeated => "a switch is given twice"
  | .unwantedValue => "a switch takes no value"

/-- The text of a link in a chain of failures. -/
def linkText : Failure.Link → String
  | .words text => text
  | .unreadable fault => fault.message
  | .malformed format => "not a " ++ format.name ++ " text of the expected form"

/-- Run a command and print what it shows. -/
def run (invocation : Invocation) : IO UInt32 := do
  let env ← readEnvironment
  let files ← readFiles (invocation.paths env)
  let (_, report) := invocation.run files env
  IO.print report.text
  match report.failure with
  | none => return 0
  | some failure =>
    IO.eprintln ("error: " ++ ": ".intercalate (failure.chain.map linkText))
    return 1

end FormulaRules.Main

/-- The entry point. -/
def main (args : List String) : IO UInt32 := do
  match FormulaRules.Invocation.ofArguments args with
  | .ok invocation => FormulaRules.Main.run invocation
  | .error .helpWanted =>
    IO.print FormulaRules.Main.usage
    return 0
  | .error .versionWanted =>
    IO.println "formulary 0.1.0"
    return 0
  | .error e =>
    IO.eprintln ("error: " ++ FormulaRules.Main.complaint e)
    IO.eprint FormulaRules.Main.usage
    return 2
