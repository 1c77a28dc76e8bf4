import FormulaRules.OutputFormat
import FormulaRules.Resolver

/-!
# Settings

Settings have a value each from the start. A file can replace them, and the environment can
then replace the log filter and the format of results.
-/

namespace FormulaRules

/-- A variable of the environment, if it is set. -/
abbrev Environment := String → Option String

/-- How commands run. -/
structure Settings where
  /-- Which log lines are kept, unless the environment or the command line says otherwise. -/
  logFilter : String := "info"
  /-- Whether log lines are written as JSON. -/
  jsonLogs : Bool := false
  format : OutputFormat := .text
  /-- The number of decimal places of results that are written for people. -/
  precision : Option Nat := none
  /-- The time that one command has, in milliseconds. -/
  deadline : Option Nat := none
  /-- The variables of every command that does not give them itself. -/
  defaults : Bindings := Dictionary.empty
  /-- The file that the settings were read from. -/
  source : Option String := none
deriving BEq

namespace Settings

/-- The settings without a file. -/
def standard : Settings := {}

/-- The settings that the environment leaves. -/
def override (env : Environment) (s : Settings) : Except Failure Settings := do
  let s := { s with logFilter := (env "FORMULARY_LOG_FILTER").getD s.logFilter }
  match env "FORMULARY_OUTPUT_FORMAT" with
  | none => return s
  | some text => return { s with format := ← during .overrideFormat (OutputFormat.ofText text) }

/-- The log filter of a run: the environment's unless it is blank, then that of a talkative
run, then that of the settings. -/
def logDirective (s : Settings) (verbose : Bool) (wanted : Option String) : String :=
  match wanted.filter fun directive => Text.trim directive != "" with
  | some directive => directive
  | none => if verbose then "debug" else s.logFilter

/-- The context of one command, started at time zero. -/
def context (s : Settings) : Context := ⟨none, s.deadline⟩

end Settings

end FormulaRules
