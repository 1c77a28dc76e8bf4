import FormulaRules.Token

/-!
# Syntax errors

A text is refused for a cause, at a position. Positions count characters from the start of
the text, and a position equal to the number of characters stands for its end.
-/

namespace FormulaRules

/-- The most levels of parentheses, arguments, branches and signs that may be open at once,
the whole expression included. -/
def maxNesting : Nat := 64

/-- The greatest height of an expression tree. -/
def maxHeight : Nat := 2048

/-- Why a text is no formula. -/
inductive SyntaxCause
  /-- The text is blank. -/
  | emptyFormula
  /-- The text ends where an operand should stand. -/
  | unexpectedEnd
  /-- A token stands where an operand should stand. -/
  | unexpected (found : Token)
  /-- Something else stands where one certain token should stand. -/
  | missing (wanted : Token) (found : Option Token)
  /-- A token follows a complete expression. -/
  | trailing (found : Token)
  /-- Too many levels are open. -/
  | nestedTooDeep
  /-- The expression tree is too high. -/
  | treeTooHigh
  /-- A level is closed that was not opened. Reading never does so. -/
  | unbalanced
  /-- No token starts with this character. -/
  | strayCharacter (c : Char)
  /-- A token starts with this character only if it stands there twice. -/
  | singleCharacter (c : Char)
  /-- No finite double is nearest to the number. -/
  | numberOutOfRange (digits : String)
  /-- The digits show no number. Reading never finds such digits. -/
  | malformedNumber (digits : String)
  /-- The closing quote is missing. -/
  | unterminatedString
  /-- A cause in a caller's own words. -/
  | reported (detail : String)
deriving Inhabited

/-- The wording of a cause. -/
def SyntaxCause.detail : SyntaxCause → String
  | emptyFormula => "empty formula"
  | unexpectedEnd => "unexpected end of input"
  | unexpected found => "unexpected " ++ found.describe
  | missing wanted found => "expected " ++ wanted.describe ++ ", found " ++ Token.describeNext found
  | trailing found => "unexpected " ++ found.describe ++ " after end of expression"
  | nestedTooDeep => "expression nested deeper than " ++ Nat.repr maxNesting ++ " levels"
  | treeTooHigh => "expression tree deeper than " ++ Nat.repr maxHeight ++ " levels"
  | unbalanced => "unbalanced nesting"
  | strayCharacter c => "unexpected character '" ++ c.toString ++ "'"
  | singleCharacter c =>
    "unexpected character '" ++ c.toString ++ "'. Did you mean '" ++ c.toString ++ c.toString ++
      "'?"
  | numberOutOfRange digits => "number '" ++ digits ++ "' is out of range"
  | malformedNumber digits => "invalid number '" ++ digits ++ "': invalid float literal"
  | unterminatedString => "unterminated string literal"
  | reported detail => detail

/-- A cause and the position it was found at. -/
structure SyntaxFault where
  cause : SyntaxCause
  position : Nat
deriving Inhabited

/-- A fault together with the text it was found in. -/
structure SyntaxError extends SyntaxFault where
  source : String
deriving Inhabited

namespace SyntaxError

/-- The wording of the cause. -/
def detail (e : SyntaxError) : String := e.cause.detail

/-- The wording of an error with its place. -/
def message (e : SyntaxError) : String :=
  e.detail ++ " at position " ++ Nat.repr e.position ++ " in '" ++ e.source ++ "'"

end SyntaxError

end FormulaRules
