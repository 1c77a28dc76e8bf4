import FormulaRules.Number.Layout
import FormulaRules.Number.Read
import FormulaRules.Text.Blank

/-!
# Values

A variable or a formula has a number, a boolean or a string as its value. Numbers are
doubles; there is no separate type of whole numbers.

Comparing two values with `==` compares numbers as numbers, so zero equals negative zero
and a NaN differs from itself. Propositional equality tells these apart.
-/

namespace FormulaRules

/-- The value of a variable or of an expression. -/
inductive Value
  | number (x : Float)
  | boolean (b : Bool)
  | string (s : String)
deriving BEq, Inhabited

/-- What is known about the value of an expression before it is evaluated.

No expression has a date or an array; the two names are reserved. -/
inductive ResultType
  | unknown
  | number
  | string
  | boolean
  | date
  | array
deriving DecidableEq, Repr, Inhabited

namespace ResultType

/-- The name of a type. -/
def name : ResultType → String
  | unknown => "unknown"
  | number => "number"
  | string => "string"
  | boolean => "boolean"
  | date => "date"
  | array => "array"

/-- All types. -/
def all : List ResultType := [unknown, number, string, boolean, date, array]

/-- The type of a name. -/
def ofName? (s : String) : Option ResultType := all.find? fun t => t.name == s

/-- A type is found again under its name. -/
theorem ofName?_name (t : ResultType) : ofName? t.name = some t := by cases t <;> decide

/-- The common type of two branches, if they agree. -/
def join (t u : ResultType) : ResultType := if t = u then t else unknown

end ResultType

namespace Value

/-- The type of a value. -/
def type : Value → ResultType
  | number _ => .number
  | boolean _ => .boolean
  | string _ => .string

/-- The number held by a value. -/
def number? : Value → Option Float
  | number x => some x
  | _ => none

/-- The boolean held by a value. -/
def boolean? : Value → Option Bool
  | boolean b => some b
  | _ => none

/-- The string held by a value. -/
def string? : Value → Option String
  | string s => some s
  | _ => none

/-- The text of a value; a string stands for itself, without quotes. -/
def text : Value → String
  | number x => Number.plain x
  | boolean true => "true"
  | boolean false => "false"
  | string s => s

/-- Whether a value is no infinite or undefined number. -/
def isFinite : Value → Bool
  | number x => x.isFinite
  | _ => true

/-- The value of a whole number: the double nearest to it. -/
def ofInt (n : Int) : Value := number (Float.ofInt n)

/-- The value of a number of single precision. -/
def ofSingle (x : Float32) : Value := number x.toFloat

/-- Read a loosely written value.

After trimming, finite numbers and the words `true` and `false` are recognised. Anything
else is a string, without one layer of double quotes or else of single quotes. -/
def ofLooseText (raw : String) : Value :=
  let trimmed := Text.trim raw
  match (Number.read? trimmed).filter Float.isFinite with
  | some x => number x
  | none =>
    if trimmed == "true" then boolean true
    else if trimmed == "false" then boolean false
    else
      let cs := trimmed.toList
      let unquoted := (Text.between? '"' cs).or (Text.between? '\'' cs)
      string (String.ofList (unquoted.getD cs))

end Value

end FormulaRules
