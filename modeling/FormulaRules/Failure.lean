import FormulaRules.Files
import FormulaRules.FormulaError
import FormulaRules.Value.Document

/-!
# Failures of commands

A failure is a cause, inside the tasks during which it came up. It is shown as a chain of
texts from the outermost task to the cause. A formula error is followed by its own causes.
What is wrong in a file is left to whoever shows the chain: the link only says that the
file cannot be read or does not have its format.
-/

namespace FormulaRules

/-- The format of a file. -/
inductive FileFormat
  | json
  | toml
deriving DecidableEq, Repr, Inhabited

/-- The name of a format. -/
def FileFormat.name : FileFormat → String
  | json => "JSON"
  | toml => "TOML"

/-- What a text is meant to be. -/
inductive TextKind
  | formula
  | condition
deriving DecidableEq, Repr, Inhabited

/-- The name of what a text is meant to be. -/
def TextKind.name : TextKind → String
  | formula => "formula"
  | condition => "condition"

/-- What was being done. -/
inductive Task
  | loadSettings
  | readSettings (path : String)
  | parseSettings (path : String)
  | overrideFormat
  | readRules (path : String)
  | parseRules (format : FileFormat) (path : String)
  | readVariables (path : String)
  | parseVariables (path : String)
  | takeVariable (name : String)
  | check (condition : String)
  | validate (kind : TextKind)
  | explain
deriving Inhabited

/-- A text between single quotes, as it stands. -/
def inQuotes (s : String) : String := "'" ++ s ++ "'"

/-- The wording of a task that failed. -/
def Task.message : Task → String
  | loadSettings => "failed to load configuration"
  | readSettings path => "failed to read configuration file " ++ inQuotes path
  | parseSettings path => "failed to parse configuration file " ++ inQuotes path
  | overrideFormat => "invalid FORMULARY_OUTPUT_FORMAT override"
  | readRules path => "failed to read rule file " ++ inQuotes path
  | parseRules format path => "invalid " ++ format.name ++ " rule file " ++ inQuotes path
  | readVariables path => "failed to read variables file " ++ inQuotes path
  | parseVariables path => "variables file " ++ inQuotes path ++ " is not a JSON object"
  | takeVariable name => "unsupported value for variable " ++ inQuotes name
  | check condition => "condition " ++ inQuotes condition ++ " failed"
  | validate kind => "invalid " ++ kind.name
  | explain => "cannot explain formula"

/-- Why a command has no result. -/
inductive Failure
  | unreadable (fault : ReadFault)
  | malformed (format : FileFormat)
  | unknownFormat (word : String)
  | unsupportedRules (path : String)
  | notAnAssignment (text : String)
  | invalidName (name : String)
  | noValue (why : NoValue)
  | formula (e : FormulaError)
  /-- The cause came up during a task. -/
  | during (task : Task) (cause : Failure)
deriving Inhabited

/-- A link in the chain of a failure. -/
inductive Failure.Link
  | words (text : String)
  /-- A file cannot be read. -/
  | unreadable (fault : ReadFault)
  /-- A text does not have its format, or not the parts that are wanted. -/
  | malformed (format : FileFormat)
deriving Inhabited

namespace Failure

/-- The texts of a failure from the outermost task to the cause. -/
def chain : Failure → List Link
  | unreadable fault => [.unreadable fault]
  | malformed format => [.malformed format]
  | unknownFormat word =>
    [.words ("unknown output format " ++ inQuotes word ++ " (expected text or json)")]
  | unsupportedRules path =>
    [.words ("unsupported rule file " ++ inQuotes path ++ " (expected .json or .toml)")]
  | notAnAssignment text => [.words ("expected NAME=VALUE, got " ++ inQuotes text)]
  | invalidName name => [.words ("invalid variable name " ++ inQuotes name)]
  | noValue why => [.words why.message]
  | formula e => (e.message :: e.causes).map .words
  | during task cause => .words task.message :: cause.chain

end Failure

/-- Say during which task a failure came up. -/
def during {α : Type} (task : Task) (result : Except Failure α) : Except Failure α :=
  result.mapError (.during task)

end FormulaRules
