import FormulaRules.OutputFormat
import FormulaRules.Resolver

/-!
# Commands

Five commands: calculate a formula, check a condition, apply a file of rules, validate a
text, and explain a formula. The first three take variables.
-/

namespace FormulaRules

/-- The variables that a command line gives. -/
structure GivenVariables where
  /-- Names and values in the order they were given. -/
  assignments : List (String × Value)
  /-- A file of variables below the assignments. -/
  file : Option String

/-- What to do. -/
inductive Command
  | calculate (formula : String) (given : GivenVariables)
  | check (condition : String) (given : GivenVariables)
  | rules (path : String) (given : GivenVariables)
  | validate (text : String) (kind : TextKind)
  | explain (formula : String)

/-- A command together with the settings that the command line gives. -/
structure Invocation where
  command : Command
  /-- The file of settings. -/
  settings : Option String
  verbose : Bool
  format : Option OutputFormat

end FormulaRules
