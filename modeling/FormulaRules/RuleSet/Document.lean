import FormulaRules.Json.Printer
import FormulaRules.Json.Shape
import FormulaRules.RuleSet
import FormulaRules.Value.Document

/-!
# Rules and calculations in JSON documents

A calculation leaves out the rule and the failure if it has none. Its variables are
listed in the order of their written names. A value that is no finite number is written as
null, which cannot be read back.
-/

namespace FormulaRules

/-- The type of a name in a document. -/
def ResultType.ofJson? (j : Json) : Option ResultType := do ResultType.ofName? (← j.bareName?)

/-- The half of a rule in a document. -/
def RuleStage.ofJson? (j : Json) : Option RuleStage := do RuleStage.ofName? (← j.bareName?)

namespace Rule

/-- The document of a rule. -/
def toJson (rule : Rule) : Json :=
  .object [("condition", .string rule.condition), ("calculation", .string rule.calculation)]

/-- The rule of a document. -/
def ofJson? (j : Json) : Option Rule := do
  match ← j.fields? ["condition", "calculation"] with
  | [some condition, some calculation] => return ⟨← condition.string?, ← calculation.string?⟩
  | _ => none

end Rule

/-- The rules of a document. -/
def RuleSet.ofJson? (j : Json) : Option (List Rule) := do (← j.items?).mapM Rule.ofJson?

namespace Bindings

/-- The document of variables, in the order of their written names. -/
def toJson (vars : Bindings) : Json :=
  let written := vars.toList.mergeSort fun a b => decide (Json.quote a.1 ≤ Json.quote b.1)
  .object (written.map fun (name, v) => (name, v.toJson))

/-- The variables of a document; of a repeated name the last counts. -/
def ofJson? : Json → Option Bindings
  | .object members => do
    let pairs ← members.mapM fun (name, j) => (Value.ofJson? j).map fun v => (name, v)
    return Dictionary.ofList pairs
  | _ => none

end Bindings

namespace Calculation

/-- A member that is left out if there is nothing to write. -/
def optionalMember (name : String) : Option Json → List (String × Json)
  | some j => [(name, j)]
  | none => []

/-- The document of a calculation. -/
def toJson (c : Calculation) : Json :=
  .object (
    [("value", .ofFloat c.value), ("formula", .string c.formula),
      ("variables", Bindings.toJson c.bindings)] ++
    optionalMember "rule_applied" (c.ruleApplied.map Rule.toJson) ++
    optionalMember "error" (c.failure.map .string))

/-- Something that may be missing or null. -/
def optional? {α : Type} (read : Json → Option α) : Option Json → Option (Option α)
  | none => some none
  | some .null => some none
  | some j => (read j).map some

/-- The calculation of a document. -/
def ofJson? (j : Json) : Option Calculation := do
  match ← j.fields? ["value", "formula", "variables", "rule_applied", "error"] with
  | [some value, some formula, some bindings, rule, failure] =>
    return ⟨← value.number?, ← formula.string?, ← Bindings.ofJson? bindings,
      ← optional? Rule.ofJson? rule, ← optional? Json.string? failure⟩
  | _ => none

end Calculation

end FormulaRules
