import FormulaRules.Expr
import FormulaRules.Function.Builtin
import FormulaRules.Resolver

/-!
# Evaluating expressions

A tree is evaluated from left to right. Both operands of every operator are evaluated
before it is applied, `&&` and `||` included, and so are all arguments of a function. Only
a conditional leaves a branch out: the one it does not choose.

The first error ends the evaluation. Infinite and undefined numbers are refused where they
enter, as literals or as values of variables.
-/

namespace FormulaRules

variable {σ : Type}

/-- Fail with an error or go on with a value. -/
def Run.ofExcept {ε α : Type} : Except ε α → Run σ ε α
  | .ok a => return a
  | .error e => throw e

/-- Let a finite value in; `origin` names where it comes from. -/
def Value.finiteFrom (origin : String) (v : Value) : Except EvalError Value :=
  if v.isFinite then .ok v else .error (.nonFinite origin)

namespace Expr

mutual

/-- The value of a tree. -/
def evaluate (ctx : Context) (source : Resolver σ) : Expr → Run σ EvalError Value
  | literal v => Run.ofExcept (v.finiteFrom "literal")
  | var name => do
    let v ← source.lookup ctx name
    Run.ofExcept (v.finiteFrom ("variable " ++ name))
  | binary op a b => do
    let v ← a.evaluate ctx source
    let w ← b.evaluate ctx source
    Run.ofExcept (op.apply v w)
  | conditional c a b => do
    let v ← c.evaluate ctx source
    let chosen ← Run.ofExcept (v.toBoolean "?:")
    if chosen then a.evaluate ctx source else b.evaluate ctx source
  | call name args => do
    let vs ← evaluateAll ctx source args
    Run.ofExcept (Registry.builtins.call name vs)

/-- The values of a list of trees, in order. -/
def evaluateAll (ctx : Context) (source : Resolver σ) : List Expr → Run σ EvalError (List Value)
  | [] => return []
  | e :: rest => do
    let v ← e.evaluate ctx source
    let vs ← evaluateAll ctx source rest
    return v :: vs

end

/-- The value of a tree as a finite number. -/
def evaluateNumber (ctx : Context) (source : Resolver σ) (e : Expr) : Run σ EvalError Float := do
  let v ← e.evaluate ctx source
  Run.ofExcept (v.toFiniteNumber "formula result")

/-- The value of a tree as a boolean. -/
def evaluateBoolean (ctx : Context) (source : Resolver σ) (e : Expr) : Run σ EvalError Bool := do
  let v ← e.evaluate ctx source
  Run.ofExcept (v.toBoolean "condition result")

end Expr

end FormulaRules
