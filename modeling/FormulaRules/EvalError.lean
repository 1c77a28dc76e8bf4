import FormulaRules.Number.Layout

/-!
# Evaluation errors

Why an expression has no value. A missing variable is kept apart from every other failure
of a lookup, because only a missing variable lets a second source of values step in.
-/

namespace FormulaRules

/-- Why an expression has no value. -/
inductive EvalError
  /-- No source of values knows the variable. -/
  | variableNotFound (name : String)
  /-- A lookup failed for a reason of its own, which is the whole message. -/
  | lookupFailed (reason : String)
  /-- An operand or argument has the wrong type. -/
  | typeMismatch (operation expected found : String)
  | divisionByZero
  | moduloByZero
  | negativeRoot (x : Float)
  /-- An operation met or gave an infinite or undefined number. -/
  | nonFinite (operation : String)
  | unknownFunction (name : String)
  /-- A function was called with a number of arguments it does not take. -/
  | arityMismatch (function expected : String) (found : Nat)
  | unknownOperator (symbol : String)
  /-- The token of the context was cancelled. -/
  | cancelled
  /-- The deadline of the context has passed. -/
  | deadlineExceeded
  /-- A function read an argument that was not passed. Checked calls never do so. -/
  | missingArgument (position : Nat)
deriving BEq, Inhabited

/-- The wording of an evaluation error. -/
def EvalError.message : EvalError → String
  | variableNotFound name => "variable not found: " ++ name
  | lookupFailed reason => reason
  | typeMismatch operation expected found =>
    "type mismatch in " ++ operation ++ ": expected " ++ expected ++ ", found " ++ found
  | divisionByZero => "division by zero"
  | moduloByZero => "modulo by zero"
  | negativeRoot x => "sqrt of negative number " ++ Number.plain x
  | nonFinite operation => operation ++ " produced a non-finite result"
  | unknownFunction name => "unknown function: " ++ name
  | arityMismatch function expected found =>
    function ++ "() expects " ++ expected ++ " argument(s), got " ++ Nat.repr found
  | unknownOperator symbol => "unknown operator: " ++ symbol
  | cancelled => "evaluation cancelled"
  | deadlineExceeded => "evaluation deadline exceeded"
  | missingArgument position => "missing argument " ++ Nat.repr position

end FormulaRules
