import FormulaRules.Failure
import FormulaRules.Text.Blank
import FormulaRules.Value

/-!
# Assignments on the command line

An assignment is a name, an equals sign and a loosely written value. Only the first equals
sign parts the two. Names consist of the letters `A` to `Z` in both cases, digits and
underscores and do not start with a digit; blanks around them are dropped.
-/

namespace FormulaRules

/-- Whether a text is the name of a variable. -/
def isVariableName : List Char → Bool
  | [] => false
  | c :: rest => (c.isAlpha || c == '_') && rest.all fun c => c.isAlphanum || c == '_'

/-- The name and the value of an assignment. -/
def Assignment.ofText (raw : String) : Except Failure (String × Value) :=
  let cs := raw.toList
  match cs.dropWhile (· != '=') with
  | [] => throw (.notAnAssignment raw)
  | _ :: value =>
    let name := Text.trimBlanks (cs.takeWhile (· != '='))
    if isVariableName name then return (String.ofList name, Value.ofLooseText (String.ofList value))
    else throw (.invalidName (String.ofList name))

end FormulaRules
