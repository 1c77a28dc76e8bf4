import FormulaRules.EvalError
import FormulaRules.Number.Rounding
import FormulaRules.Operator

/-!
# Reading values as numbers and booleans, and applying operators

Only numbers are read as numbers. Booleans, numbers other than zero, and the strings
`true` and `false` in any letter case are read as booleans.

Two numbers are equal within one unit of relative precision; values of which one is no
number are equal when their texts are. The orderings compare exactly. An arithmetic result
that is infinite or undefined is an error, so such numbers never leave an operator.
-/

namespace FormulaRules

/-- The distance from one to the next larger double. -/
def Number.precision : Float := Float.ofBits 0x3CB0000000000000

namespace Value

/-- Read a value as a number. -/
def toNumber (operation : String) : Value → Except EvalError Float
  | number x => .ok x
  | v => .error (.typeMismatch operation "number" v.type.name)

/-- Read a value as a boolean. -/
def toBoolean (operation : String) : Value → Except EvalError Bool
  | boolean b => .ok b
  | number x => .ok (x != 0)
  | string s =>
    let word := Text.trim s
    if Text.sameFolded word "true" then .ok true
    else if Text.sameFolded word "false" then .ok false
    else .error (.typeMismatch operation "boolean" ("string \"" ++ word ++ "\""))

/-- A result that has to be finite. -/
def ofResult (operation : String) (x : Float) : Except EvalError Value :=
  if x.isFinite then .ok (number x) else .error (.nonFinite operation)

/-- Read a value as a finite number. -/
def toFiniteNumber (operation : String) (v : Value) : Except EvalError Float := do
  let x ← v.toNumber operation
  if x.isFinite then return x else throw (.nonFinite operation)

/-- Whether two values count as equal. -/
def equals : Value → Value → Bool
  | number x, number y =>
    let larger := if x.abs < y.abs then y.abs else x.abs
    (x - y).abs ≤ Number.precision * larger
  | v, w => v.text == w.text

end Value

namespace Operator

/-- Apply an arithmetic operator to two numbers. -/
def compute (op : Operator) (x y : Float) : Except EvalError Value :=
  match op with
  | add => Value.ofResult op.symbol (x + y)
  | subtract => Value.ofResult op.symbol (x - y)
  | multiply => Value.ofResult op.symbol (x * y)
  | divide => if y == 0 then .error .divisionByZero else Value.ofResult op.symbol (x / y)
  | _ => if y == 0 then .error .moduloByZero else Value.ofResult op.symbol (Number.remainder x y)

/-- Whether two numbers stand in the order that an operator asks for. -/
def ordered (op : Operator) (x y : Float) : Bool :=
  match op with
  | less => x < y
  | lessOrEqual => x ≤ y
  | greater => y < x
  | _ => y ≤ x

/-- Apply an operator to two values. The left value is read first. -/
def apply (op : Operator) (v w : Value) : Except EvalError Value :=
  match op with
  | add | subtract | multiply | divide | modulo => do
    let x ← v.toNumber op.symbol
    let y ← w.toNumber op.symbol
    op.compute x y
  | equal => return .boolean (v.equals w)
  | notEqual => return .boolean (!v.equals w)
  | less | lessOrEqual | greater | greaterOrEqual => do
    let x ← v.toNumber op.symbol
    let y ← w.toNumber op.symbol
    return .boolean (op.ordered x y)
  | and => do
    let b ← v.toBoolean op.symbol
    let c ← w.toBoolean op.symbol
    return .boolean (b && c)
  | or => do
    let b ← v.toBoolean op.symbol
    let c ← w.toBoolean op.symbol
    return .boolean (b || c)

end Operator

end FormulaRules
