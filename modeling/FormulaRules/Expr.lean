import FormulaRules.Dictionary
import FormulaRules.Operator

/-!
# Expressions

The tree of a formula or a condition. There are five kinds of nodes; signs and negation
are written with a zero literal and the function `not`.

The static type of a tree says what a successful evaluation returns, if that can be told
without the variables. The names of a tree are those of its variables, in ascending order.
-/

namespace FormulaRules

/-- A formula or condition as a tree. -/
inductive Expr
  /-- A value that is written out. -/
  | literal (v : Value)
  /-- A variable, looked up when the tree is evaluated. -/
  | var (name : String)
  /-- Two operands and the operator between them. -/
  | binary (op : Operator) (left right : Expr)
  /-- A condition and the two branches it chooses from. -/
  | conditional (condition onTrue onFalse : Expr)
  /-- A function applied to arguments. -/
  | call (name : String) (args : List Expr)
deriving Inhabited

namespace Expr

/-- The literal of a number. -/
abbrev number (x : Float) : Expr := literal (.number x)

/-- The literal of a boolean. -/
abbrev boolean (b : Bool) : Expr := literal (.boolean b)

/-- The literal of a string. -/
abbrev string (s : String) : Expr := literal (.string s)

mutual

/-- Whether two trees have the same shape and `==` leaves, so that zero equals negative zero. -/
def same : Expr → Expr → Bool
  | literal v, literal w => v == w
  | var x, var y => x == y
  | binary op a b, binary op' a' b' => op == op' && a.same a' && b.same b'
  | conditional c a b, conditional c' a' b' => c.same c' && a.same a' && b.same b'
  | call f args, call f' args' => f == f' && sameAll args args'
  | _, _ => false

/-- Whether two lists of trees agree member by member. -/
def sameAll : List Expr → List Expr → Bool
  | [], [] => true
  | e :: rest, e' :: rest' => e.same e' && sameAll rest rest'
  | _, _ => false

end

instance : BEq Expr := ⟨same⟩

mutual

/-- The height of a tree; a single node has height one. -/
def height : Expr → Nat
  | literal _ => 1
  | var _ => 1
  | binary _ a b => max a.height b.height + 1
  | conditional c a b => max c.height (max a.height b.height) + 1
  | call _ args => heightAll args + 1

/-- The greatest height in a list of trees, zero if there are none. -/
def heightAll : List Expr → Nat
  | [] => 0
  | e :: rest => max e.height (heightAll rest)

end

mutual

/-- The type of every value a tree can have, if it is known. -/
def resultType : Expr → ResultType
  | literal v => v.type
  | var _ => .unknown
  | binary op _ _ => op.resultType
  | conditional _ a b => a.resultType.join b.resultType
  | call f args =>
    match Text.foldCase f with
    | "if" =>
      match resultTypes args with
      | [_, t, u] => t.join u
      | _ => .unknown
    | "not" => .boolean
    | _ => .number

/-- The static types of a list of trees. -/
def resultTypes : List Expr → List ResultType
  | [] => []
  | e :: rest => e.resultType :: resultTypes rest

end

mutual

/-- The occurrences of variables, from left to right. -/
def occurrences : Expr → List String
  | literal _ => []
  | var x => [x]
  | binary _ a b => a.occurrences ++ b.occurrences
  | conditional c a b => c.occurrences ++ a.occurrences ++ b.occurrences
  | call _ args => occurrencesAll args

/-- The occurrences of variables in a list of trees, from left to right. -/
def occurrencesAll : List Expr → List String
  | [] => []
  | e :: rest => e.occurrences ++ occurrencesAll rest

end

/-- The variables of a tree, each once, in ascending order. -/
def variableNames (e : Expr) : List String :=
  (Dictionary.ofList (e.occurrences.map fun x => (x, ()))).names

end Expr

end FormulaRules
