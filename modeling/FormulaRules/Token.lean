import FormulaRules.Operator

/-!
# Tokens

The words of a formula. A token carries what it means, not how it was written: `TRUE` and
`true` are one token, and so are `1.0` and `1`.
-/

namespace FormulaRules

/-- A word of a formula. -/
inductive Token
  | number (x : Float)
  | string (s : String)
  | boolean (b : Bool)
  | identifier (name : String)
  | operator (op : Operator)
  | not
  | question
  | colon
  | openParen
  | closeParen
  | comma
deriving BEq, Inhabited

namespace Token

/-- How a token is named in a message. -/
def describe : Token → String
  | number x => "number " ++ Number.plain x
  | string s => "string \"" ++ s ++ "\""
  | boolean true => "'true'"
  | boolean false => "'false'"
  | identifier name => "identifier '" ++ name ++ "'"
  | operator op => "'" ++ op.symbol ++ "'"
  | not => "'!'"
  | question => "'?'"
  | colon => "':'"
  | openParen => "'('"
  | closeParen => "')'"
  | comma => "','"

/-- How the next token, or the end of the text, is named in a message. -/
def describeNext : Option Token → String
  | some t => t.describe
  | none => "end of input"

/-- The text that a token carries: the digits of a number, a string or a name. -/
def payload? : Token → Option String
  | number x => some (Number.plain x)
  | string s => some s
  | identifier name => some name
  | _ => none

end Token

end FormulaRules
