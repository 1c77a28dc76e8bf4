import FormulaRules.Condition

/-!
# Lists of rules

A rule is a condition and a calculation, both kept as texts and read only when they are
reached. Rules are tried in order and the first whose condition holds gives the result. A
condition or calculation that fails ends the evaluation; no later rule is tried instead.
-/

namespace FormulaRules

/-- A calculation that applies under a condition. -/
structure Rule where
  condition : String
  calculation : String
deriving DecidableEq, Repr, Inhabited

/-- The rule whose condition always holds. -/
def Rule.always (calculation : String) : Rule := ⟨"true", calculation⟩

/-- A calculated value and where it comes from, or the record of a failure. -/
structure Calculation where
  value : Float
  /-- The text of the calculation. -/
  formula : String
  /-- All variables at hand. -/
  bindings : Bindings
  /-- The rule that applied. -/
  ruleApplied : Option Rule
  /-- The wording of the error, if the calculation failed. -/
  failure : Option String

namespace Calculation

/-- A calculated value without a rule. -/
def ofValue (value : Float) (formula : String) (bindings : Bindings) : Calculation :=
  ⟨value, formula, bindings, none, none⟩

/-- Record the rule that applied. -/
def withRule (c : Calculation) (rule : Rule) : Calculation := { c with ruleApplied := some rule }

/-- The record of a failure. Its value is a NaN, so it cannot pass for an amount. -/
def failed (formula : String) (bindings : Bindings) (e : FormulaError) : Calculation :=
  ⟨0 / 0, formula, bindings, none, some e.message⟩

/-- Whether a record is no failure. -/
def isSuccess (c : Calculation) : Bool := c.failure.isNone

end Calculation

namespace RuleSet

variable {σ : Type}

/-- Place the errors of a computation in a half of a rule. -/
def inRule {α : Type} (index : Nat) (stage : RuleStage) (run : Run σ FormulaError α) :
    Run σ FormulaError α :=
  run.adapt fun e => e.inRule index stage

/-- Try rules in order, where the first one has the given index. -/
def evaluateFrom (ctx : Context) (source : Resolver σ) : (index : Nat) → List Rule →
    Run σ FormulaError Calculation
  | index, [] => throw (.noMatch index)
  | index, rule :: rest => do
    if ← inRule index .condition (Condition.holds ctx source rule.condition) then
      let value ← inRule index .calculation (Formula.calculate ctx source rule.calculation)
      let bindings ← (source.all : StateM (World σ) Bindings)
      return (Calculation.ofValue value rule.calculation bindings).withRule rule
    else evaluateFrom ctx source (index + 1) rest

/-- The calculation of the first rule that holds. -/
def evaluate (ctx : Context) (source : Resolver σ) (rules : List Rule) :
    Run σ FormulaError Calculation :=
  evaluateFrom ctx source 0 rules

/-- The index of the first rule equal to a given one. -/
def indexOf? (rule : Rule) (rules : List Rule) : Option Nat := rules.findIdx? (· == rule)

end RuleSet

end FormulaRules
