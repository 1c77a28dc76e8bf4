import FormulaRules.Expr.Parser

/-!
# The grammar of formulas

The grammar is a relation between its symbols and phrases. A phrase is a token list with its
structure: it remembers parentheses and signs, which the tree of an expression forgets.
From a phrase its tokens, its tree and the levels it opens are read off independently.

The limits of nesting and height are no part of the grammar. The operators of each symbol
are listed here and are not taken from the ranks of precedence.
-/

namespace FormulaRules

/-- The symbols of the grammar, from the loosest to the tightest. -/
inductive Symbol
  | expression
  | disjunction
  | conjunction
  | equality
  | relation
  | sum
  | product
  | signed
  | primary
deriving DecidableEq

namespace Symbol

/-- The next tighter symbol, from which the operands of a symbol are taken. -/
def operand : Symbol → Symbol
  | expression => disjunction
  | disjunction => conjunction
  | conjunction => equality
  | equality => relation
  | relation => sum
  | sum => product
  | product => signed
  | signed => primary
  | primary => primary

/-- The operators that join the operands of a symbol. -/
def operators : Symbol → List Operator
  | disjunction => [.or]
  | conjunction => [.and]
  | equality => [.equal, .notEqual]
  | relation => [.less, .lessOrEqual, .greater, .greaterOrEqual]
  | sum => [.add, .subtract]
  | product => [.multiply, .divide, .modulo]
  | expression | signed | primary => []

end Symbol

namespace Expr.Reading.Sign

/-- The token of a sign. -/
def token : Sign → Token
  | minus => .operator .subtract
  | plus => .operator .add
  | negation => .not

/-- The tree of an operand with a sign before it. A minus or plus before a number literal gives a
number literal. -/
def tree : Sign → Expr → Expr
  | minus, .literal (.number x) => .number (-x)
  | plus, .literal (.number x) => .number x
  | minus, e => .binary .subtract (.number 0) e
  | plus, e => .binary .add (.number 0) e
  | negation, e => .call "not" [e]

end Expr.Reading.Sign

open Expr.Reading (Sign)

/-- Tokens with their grammatical structure. -/
inductive Phrase
  | number (x : Float)
  | string (s : String)
  | boolean (b : Bool)
  | var (name : String)
  | call (name : String) (args : List Phrase)
  | parenthesized (inner : Phrase)
  | signed (sign : Sign) (operand : Phrase)
  | binary (op : Operator) (left right : Phrase)
  | conditional (condition onTrue onFalse : Phrase)

/-- The phrases of a symbol. A chain of operators of one symbol joins to the left, and a
conditional to the right. -/
inductive Derives : Symbol → Phrase → Prop
  | conditional {c a b : Phrase} : Derives .disjunction c → Derives .expression a →
      Derives .expression b → Derives .expression (.conditional c a b)
  | binary {s : Symbol} {op : Operator} {a b : Phrase} : op ∈ s.operators → Derives s a →
      Derives s.operand b → Derives s (.binary op a b)
  | signed (sign : Sign) {p : Phrase} : Derives .signed p → Derives .signed (.signed sign p)
  | number (x : Float) : Derives .primary (.number x)
  | string (s : String) : Derives .primary (.string s)
  | boolean (b : Bool) : Derives .primary (.boolean b)
  | var (name : String) : Derives .primary (.var name)
  | call (name : String) {args : List Phrase} : (∀ p ∈ args, Derives .expression p) →
      Derives .primary (.call name args)
  | parenthesized {p : Phrase} : Derives .expression p → Derives .primary (.parenthesized p)
  | tighter {s : Symbol} {p : Phrase} : Derives s.operand p → Derives s p

namespace Phrase

mutual

/-- The tokens of a phrase. -/
def tokens : Phrase → List Token
  | number x => [.number x]
  | string s => [.string s]
  | boolean b => [.boolean b]
  | var name => [.identifier name]
  | call name [] => [.identifier name, .openParen, .closeParen]
  | call name (arg :: args) =>
    .identifier name :: .openParen :: (arg.tokens ++ tokensRest args ++ [.closeParen])
  | parenthesized p => .openParen :: (p.tokens ++ [.closeParen])
  | signed sign p => sign.token :: p.tokens
  | binary op a b => a.tokens ++ .operator op :: b.tokens
  | conditional c a b => c.tokens ++ .question :: (a.tokens ++ .colon :: b.tokens)

/-- The tokens of the arguments after the first. -/
def tokensRest : List Phrase → List Token
  | [] => []
  | arg :: args => .comma :: (arg.tokens ++ tokensRest args)

end

mutual

/-- The tree of a phrase. -/
def tree : Phrase → Expr
  | number x => .number x
  | string s => .string s
  | boolean b => .boolean b
  | var name => .var name
  | call name args => .call name (trees args)
  | parenthesized p => p.tree
  | signed sign p => sign.tree p.tree
  | binary op a b => .binary op a.tree b.tree
  | conditional c a b => .conditional c.tree a.tree b.tree

/-- The trees of a list of phrases. -/
def trees : List Phrase → List Expr
  | [] => []
  | p :: rest => p.tree :: trees rest

end

mutual

/-- The most levels that are open at once inside a phrase. Every parenthesis, argument, branch
and sign opens a level. -/
def levels : Phrase → Nat
  | number _ | string _ | boolean _ | var _ => 0
  | call _ args => levelsAll args
  | parenthesized p => p.levels + 1
  | signed _ p => p.levels + 1
  | binary _ a b => max a.levels b.levels
  | conditional c a b => max c.levels (max (a.levels + 1) (b.levels + 1))

/-- The most levels that are open at once in a list of arguments. -/
def levelsAll : List Phrase → Nat
  | [] => 0
  | p :: rest => max (p.levels + 1) (levelsAll rest)

end

end Phrase

end FormulaRules
