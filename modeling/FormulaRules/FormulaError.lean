import FormulaRules.EvalError
import FormulaRules.SyntaxError

/-!
# Errors of formulas and rules

A formula fails because its text is no formula or because it has no value. A rule adds its
index and the half that failed. A list of rules of which none holds is an error of its own.
-/

namespace FormulaRules

/-- The half of a rule. -/
inductive RuleStage
  | condition
  | calculation
deriving DecidableEq, Repr, Inhabited

namespace RuleStage

/-- The name of a half. -/
def name : RuleStage → String
  | condition => "condition"
  | calculation => "calculation"

/-- The half of a name. -/
def ofName? (s : String) : Option RuleStage :=
  [condition, calculation].find? fun stage => stage.name == s

end RuleStage

/-- Why a formula, a condition or a list of rules has no result. -/
inductive FormulaError
  | parse (e : SyntaxError)
  | evaluation (e : EvalError)
  /-- A half of the rule with this index failed. -/
  | rule (index : Nat) (stage : RuleStage) (cause : FormulaError)
  /-- No condition holds. -/
  | noMatch (checked : Nat)
deriving Inhabited

namespace FormulaError

/-- The stable name of the kind of an error. -/
def category : FormulaError → String
  | parse _ => "parse"
  | evaluation _ => "evaluation"
  | rule .. => "rule"
  | noMatch _ => "no_match"

/-- The wording of an error, with the wording of its cause at the end. -/
def message : FormulaError → String
  | parse e => "parse error: " ++ e.message
  | evaluation e => "evaluation error: " ++ e.message
  | rule index stage cause =>
    "rule " ++ Nat.repr index ++ " " ++ stage.name ++ " failed: " ++ cause.message
  | noMatch checked => "no matching rule (" ++ Nat.repr checked ++ " rule(s) checked)"

/-- The wordings of the causes below an error, the nearest first. -/
def causes : FormulaError → List String
  | parse e => [e.message]
  | evaluation e => [e.message]
  | rule _ _ cause => cause.message :: cause.causes
  | noMatch _ => []

/-- The syntax error at the root of an error, if there is one. -/
def syntaxError? : FormulaError → Option SyntaxError
  | parse e => some e
  | rule _ _ cause => cause.syntaxError?
  | _ => none

/-- The evaluation error at the root of an error, if there is one. -/
def evalError? : FormulaError → Option EvalError
  | evaluation e => some e
  | rule _ _ cause => cause.evalError?
  | _ => none

/-- Place an error in a half of a rule. -/
def inRule (e : FormulaError) (index : Nat) (stage : RuleStage) : FormulaError := rule index stage e

end FormulaError

end FormulaRules
