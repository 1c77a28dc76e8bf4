import FormulaRules.Expr
import FormulaRules.Json.Shape
import FormulaRules.Value.Document

/-!
# Expressions in JSON documents

Each kind of node is an alternative with a name of its own. Operators are written as their
symbols. Reading takes the number of arrays and objects that may still be entered, which
also bounds the recursion.
-/

namespace FormulaRules

/-- The operator of a document. -/
def Operator.ofJson? (j : Json) : Option Operator := do Operator.ofSymbol? (← j.bareName?)

namespace Expr

mutual

/-- The document of a tree. -/
def toJson : Expr → Json
  | literal v => .object [("Literal", v.toJson)]
  | var name => .object [("Variable", .string name)]
  | binary op a b =>
    .object [("Binary",
      .object [("left", a.toJson), ("operator", .string op.symbol), ("right", b.toJson)])]
  | conditional c a b =>
    .object [("Ternary",
      .object [("condition", c.toJson), ("then_expr", a.toJson), ("else_expr", b.toJson)])]
  | call name args =>
    .object [("FunctionCall", .object [("name", .string name), ("args", .array (toJsonAll args))])]

/-- The documents of a list of trees. -/
def toJsonAll : List Expr → List Json
  | [] => []
  | e :: rest => e.toJson :: toJsonAll rest

end

/-- The tree of a document in which `levels` arrays and objects may still be entered. -/
def ofJson? : (levels : Nat) → Json → Option Expr
  | 0, _ => none
  | 1, j => do
    let (kind, content) ← j.alternative?
    match kind with
    | "Literal" => return literal (← Value.ofJson? content)
    | "Variable" => return var (← content.string?)
    | _ => none
  | levels + 2, j => do
    let (kind, content) ← j.alternative?
    match kind with
    | "Literal" => return literal (← Value.ofJson? content)
    | "Variable" => return var (← content.string?)
    | "Binary" =>
      match ← content.fields? ["left", "operator", "right"] with
      | [some a, some op, some b] =>
        return binary (← Operator.ofJson? op) (← ofJson? levels a) (← ofJson? levels b)
      | _ => none
    | "Ternary" =>
      match ← content.fields? ["condition", "then_expr", "else_expr"] with
      | [some c, some a, some b] =>
        return conditional (← ofJson? levels c) (← ofJson? levels a) (← ofJson? levels b)
      | _ => none
    | "FunctionCall" =>
      match ← content.fields? ["name", "args"] with
      | [some name, some args] =>
        match levels with
        | 0 => none
        | inner + 1 => return call (← name.string?) (← (← args.items?).mapM (ofJson? inner))
      | _ => none
    | _ => none

/-- The tree of a document. -/
def ofDocument? (j : Json) : Option Expr := ofJson? Json.maxDepth j

end Expr

end FormulaRules
