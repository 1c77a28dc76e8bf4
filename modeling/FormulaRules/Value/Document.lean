import FormulaRules.Json
import FormulaRules.Value

/-!
# Values in JSON documents

A value is written as the number, boolean or text that it is. Numbers that are not finite
are written as null, and null is no value.
-/

namespace FormulaRules

/-- Why a document is no value. -/
inductive NoValue
  | null
  | array
  | object
deriving DecidableEq, Repr

/-- The wording of why a document is no value. -/
def NoValue.message : NoValue → String
  | null => "null is not a formula value"
  | array => "arrays are not formula values"
  | object => "objects are not formula values"

namespace Value

/-- The document of a value. -/
def toJson : Value → Json
  | number x => .ofFloat x
  | boolean b => .boolean b
  | string s => .string s

/-- The value of a document, or why it has none. -/
def ofDocument : Json → Except NoValue Value
  | .boolean b => .ok (boolean b)
  | .integer n => .ok (number (Float.ofInt n))
  | .real x => .ok (number x)
  | .string s => .ok (string s)
  | .array _ => .error .array
  | .object _ => .error .object
  | _ => .error .null

/-- The value of a document. -/
def ofJson? (j : Json) : Option Value := (ofDocument j).toOption

end Value

end FormulaRules
