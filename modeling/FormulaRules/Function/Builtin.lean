import FormulaRules.Coercion
import FormulaRules.Function

/-!
# The built-in functions

Eight functions on numbers and two on conditions. The functions on numbers refuse infinite
and undefined arguments and results. Arguments are read from left to right, and the first
that does not fit is the error.

An implementation reads its arguments by position and fails with a missing argument where
there is none. The registry checks the number of arguments first.
-/

namespace FormulaRules.Builtin

/-- The argument at a position. -/
def argument (args : List Value) (position : Nat) : Except EvalError Value :=
  match args[position]? with
  | some v => .ok v
  | none => .error (.missingArgument position)

/-- The number at a position. -/
def numberAt (operation : String) (args : List Value) (position : Nat) :
    Except EvalError Float := do
  let v ← argument args position
  v.toFiniteNumber operation

/-- All arguments as numbers. -/
def numbers (operation : String) : List Value → Except EvalError (List Float)
  | [] => .ok []
  | v :: rest => do
    let x ← v.toFiniteNumber operation
    let xs ← numbers operation rest
    return x :: xs

/-- The smaller of two numbers, the second if they are equal: of two zeros the later counts,
and it keeps its sign. -/
def lesser (x y : Float) : Float := if y ≤ x then y else x

/-- The larger of two numbers, the second if they are equal. -/
def larger (x y : Float) : Float := if x ≤ y then y else x

/-- The smallest argument. -/
def minimum (args : List Value) : Except EvalError Value := do
  let xs ← numbers "min()" args
  Value.ofResult "min()" (xs.foldl lesser (1 / 0))

/-- The largest argument. -/
def maximum (args : List Value) : Except EvalError Value := do
  let xs ← numbers "max()" args
  Value.ofResult "max()" (xs.foldl larger (-1 / 0))

/-- A function of one number. -/
def ofNumber (operation : String) (f : Float → Float) (args : List Value) :
    Except EvalError Value := do
  let x ← numberAt operation args 0
  Value.ofResult operation (f x)

/-- Round to a number of decimals; a half goes away from zero.

Decimals beyond the precision of the number leave it unchanged, and places above every
double give zero. -/
def roundTo (x decimals : Float) : Except EvalError Value :=
  if decimals == 0 then .ok (.number (Number.round x))
  else
    let factor := Float.pow 10 (Number.truncate decimals)
    if factor == 0 then .ok (.number 0)
    else
      let scaled := x * factor
      if scaled.isFinite then Value.ofResult "round()" (Number.round scaled / factor)
      else Value.ofResult "round()" x

/-- Round the first argument to the decimals of the second, or to a whole number. -/
def round (args : List Value) : Except EvalError Value := do
  let x ← numberAt "round()" args 0
  let decimals ← if args.length ≤ 1 then pure 0 else numberAt "round()" args 1
  roundTo x decimals

/-- The first argument to the power of the second. -/
def power (args : List Value) : Except EvalError Value := do
  let base ← numberAt "pow()" args 0
  let exponent ← numberAt "pow()" args 1
  Value.ofResult "pow()" (Float.pow base exponent)

/-- The square root; negative numbers have none. -/
def squareRoot (args : List Value) : Except EvalError Value := do
  let x ← numberAt "sqrt()" args 0
  if x < 0 then throw (.negativeRoot x) else Value.ofResult "sqrt()" x.sqrt

/-- The second or third argument, by the first. All three have been evaluated. -/
def choose (args : List Value) : Except EvalError Value := do
  let condition ← argument args 0
  if ← condition.toBoolean "if()" then argument args 1 else argument args 2

/-- The negation of a condition. -/
def negate (args : List Value) : Except EvalError Value := do
  let condition ← argument args 0
  return .boolean (!(← condition.toBoolean "!"))

/-- All built-in functions. -/
def all : List Function := [
  ⟨"min", 2, none, "Smallest of the arguments", minimum⟩,
  ⟨"max", 2, none, "Largest of the arguments", maximum⟩,
  ⟨"abs", 1, some 1, "Absolute value", ofNumber "abs()" Float.abs⟩,
  ⟨"round", 1, some 2, "Round half away from zero to an optional number of decimals", round⟩,
  ⟨"floor", 1, some 1, "Round down", ofNumber "floor()" Number.floor⟩,
  ⟨"ceil", 1, some 1, "Round up", ofNumber "ceil()" Number.ceiling⟩,
  ⟨"pow", 2, some 2, "Base raised to an exponent", power⟩,
  ⟨"sqrt", 1, some 1, "Square root of a non-negative number", squareRoot⟩,
  ⟨"if", 3, some 3, "if(condition, then, else); every argument is evaluated", choose⟩,
  ⟨"not", 1, some 1, "Boolean negation", negate⟩]

end Builtin

/-- The registry of the built-in functions. -/
def Registry.builtins : Registry := Builtin.all.foldl register empty

end FormulaRules
