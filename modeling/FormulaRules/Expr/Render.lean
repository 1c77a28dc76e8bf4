import FormulaRules.Expr
import FormulaRules.Token

/-!
# The canonical text of an expression

Binary and conditional nodes stand in parentheses, so the text does not rest on any
precedence. Strings stand in double quotes, with a backslash before quotes, backslashes
and three control characters; other characters stand for themselves.
-/

namespace FormulaRules.Expr

/-- The text of one character inside double quotes. -/
def quoteChar : Char → List Char
  | '"' => ['\\', '"']
  | '\\' => ['\\', '\\']
  | '\n' => ['\\', 'n']
  | '\t' => ['\\', 't']
  | '\r' => ['\\', 'r']
  | c => [c]

/-- A string in double quotes. -/
def quote (s : String) : String :=
  String.ofList ('"' :: s.toList.flatMap quoteChar ++ ['"'])

/-- The text of a literal. -/
def renderValue : Value → String
  | .string s => quote s
  | v => v.text

mutual

/-- The canonical text of a tree. -/
def render : Expr → String
  | literal v => renderValue v
  | var name => name
  | binary op a b => "(" ++ a.render ++ " " ++ op.symbol ++ " " ++ b.render ++ ")"
  | conditional c a b => "(" ++ c.render ++ " ? " ++ a.render ++ " : " ++ b.render ++ ")"
  | call name [] => name ++ "()"
  | call name (arg :: args) => name ++ "(" ++ arg.render ++ renderRest args ++ ")"

/-- The canonical text of the arguments after the first. -/
def renderRest : List Expr → String
  | [] => ""
  | arg :: args => ", " ++ arg.render ++ renderRest args

end

end FormulaRules.Expr
