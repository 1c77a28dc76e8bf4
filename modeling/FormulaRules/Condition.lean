import FormulaRules.Evaluation
import FormulaRules.Expr.Parser
import FormulaRules.FormulaError

/-!
# Formulas and conditions from their texts

A formula has a number as its result. A condition is a formula whose result is read as a
boolean. A few words are conditions of their own and are answered without reading them as
a formula: `true` and `always`, which the blank text also stands for, and `false` and
`never`, in any letter case.
-/

namespace FormulaRules

variable {σ : Type}

/-- Give an evaluation error its place among the errors of formulas. -/
def Run.inFormula {α : Type} (run : Run σ EvalError α) : Run σ FormulaError α :=
  run.adapt .evaluation

namespace Formula

/-- The tree of a formula. -/
def parse (text : String) : Except FormulaError Expr := (Expr.parseFormula text).mapError .parse

/-- The number that a formula gives. -/
def calculate (ctx : Context) (source : Resolver σ) (text : String) : Run σ FormulaError Float := do
  let e ← Run.ofExcept (parse text)
  (e.evaluateNumber ctx source).inFormula

/-- Check that a text is a formula. -/
def validate (text : String) : Except FormulaError Unit := do
  let _ ← parse text

end Formula

namespace Condition

/-- The answer of a condition that is one of the known words. -/
def trivial? (text : String) : Option Bool :=
  let word := Text.trim text
  if word == "" || Text.sameFolded word "true" || Text.sameFolded word "always" then some true
  else if Text.sameFolded word "false" || Text.sameFolded word "never" then some false
  else none

/-- The tree of a condition, before an error is given its place. -/
def read (text : String) : Except SyntaxError Expr :=
  match trivial? text with
  | some answer => .ok (.boolean answer)
  | none => Expr.parseComplete text

/-- The tree of a condition. -/
def parse (text : String) : Except FormulaError Expr := (read text).mapError .parse

/-- Whether a condition holds. -/
def holds (ctx : Context) (source : Resolver σ) (text : String) : Run σ FormulaError Bool :=
  match trivial? text with
  | some answer => return answer
  | none => do
    let e ← Run.ofExcept (parse text)
    (e.evaluateBoolean ctx source).inFormula

/-- Check that a text is a condition. -/
def validate (text : String) : Except FormulaError Unit :=
  match trivial? text with
  | some _ => return ()
  | none => do
    let _ ← parse text

end Condition

end FormulaRules
