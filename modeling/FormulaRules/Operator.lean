import FormulaRules.Value

/-!
# Binary operators

Thirteen operators in six ranks of precedence. The conditional `a ? b : c` binds looser
than all of them and has no rank here.
-/

namespace FormulaRules

/-- The binary operators of the formula language. -/
inductive Operator
  | add
  | subtract
  | multiply
  | divide
  | modulo
  | equal
  | notEqual
  | less
  | lessOrEqual
  | greater
  | greaterOrEqual
  | and
  | or
deriving DecidableEq, Repr, Inhabited

namespace Operator

/-- How an operator is written. -/
def symbol : Operator → String
  | add => "+"
  | subtract => "-"
  | multiply => "*"
  | divide => "/"
  | modulo => "%"
  | equal => "=="
  | notEqual => "!="
  | less => "<"
  | lessOrEqual => "<="
  | greater => ">"
  | greaterOrEqual => ">="
  | and => "&&"
  | or => "||"

/-- All operators. -/
def all : List Operator :=
  [add, subtract, multiply, divide, modulo, equal, notEqual, less, lessOrEqual, greater,
    greaterOrEqual, and, or]

/-- The operator written by a symbol. -/
def ofSymbol? (s : String) : Option Operator := all.find? fun op => op.symbol == s

/-- An operator is found again under its symbol. -/
theorem ofSymbol?_symbol (op : Operator) : ofSymbol? op.symbol = some op := by cases op <;> decide

/-- The rank of an operator; a higher rank binds tighter. -/
def precedence : Operator → Nat
  | or => 1
  | and => 2
  | equal | notEqual => 3
  | less | lessOrEqual | greater | greaterOrEqual => 4
  | add | subtract => 5
  | multiply | divide | modulo => 6

/-- Whether an operator computes a number from numbers. -/
def isArithmetic (op : Operator) : Bool := decide (5 ≤ op.precedence)

/-- Whether an operator compares two values. -/
def isComparison (op : Operator) : Bool := op.precedence == 3 || op.precedence == 4

/-- Whether an operator combines two booleans. -/
def isLogical : Operator → Bool
  | and | or => true
  | _ => false

/-- The type of every result of an operator. -/
def resultType (op : Operator) : ResultType := if op.isArithmetic then .number else .boolean

end Operator

end FormulaRules
