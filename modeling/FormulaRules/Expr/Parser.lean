import FormulaRules.Expr
import FormulaRules.Token.Stream

/-!
# Reading expressions

The grammar, from the loosest construct to the tightest:

* a conditional `a ? b : c`, whose branches may be conditionals themselves;
* six levels of binary operators, each joining its operands to the left;
* the signs `-`, `+` and `!` before an operand;
* literals, variables, calls and parentheses.

A sign before a number literal changes the literal. Before any other operand `-` and `+`
become arithmetic on a zero literal, and `!` becomes a call of `not`.

Two limits apply. Every parenthesis, argument, branch and sign opens a level, and so does
the whole expression; at most `maxNesting` levels may be open. A tree of a height above
`maxHeight` is refused as soon as it would be built.

A reading at budget `n` may open `n` more levels. The cursor counts the open levels, so the
two numbers always add up to `maxNesting`. No loop runs more often than there are tokens,
which is the `bound` handed through.
-/

namespace FormulaRules

/-- Where a reading stands. -/
structure Cursor where
  /-- The tokens ahead. The first one has been looked at, so it is no fault. -/
  ahead : TokenStream
  /-- The number of open levels. -/
  level : Nat

/-- A reading of tokens that may fail with a fault. -/
abbrev Reading := StateT Cursor (Except SyntaxFault)

namespace Expr

/-- A tree together with its height. -/
structure Node where
  expr : Expr
  height : Nat

namespace Reading

/-- The next token. -/
def peek : Reading (Option Token) := do return (← get).ahead.head?

/-- Fail at the next token. -/
def fail {α : Type} (cause : SyntaxCause) : Reading α := do
  throw ⟨cause, (← get).ahead.position⟩

/-- Move to the given tokens, unless they start with a fault. -/
def moveTo (ahead : TokenStream) : Reading Unit :=
  match ahead with
  | .fault cause position => throw ⟨cause, position⟩
  | ahead => modify fun c => { c with ahead }

/-- Take the next token. At the end nothing changes. -/
def advance : Reading Unit := do
  match (← get).ahead with
  | .token _ _ _ next => moveTo next
  | ahead => moveTo ahead

/-- Take one certain token. -/
def expect (wanted : Token) : Reading Unit := do
  let found ← peek
  if found == some wanted then advance else fail (.missing wanted found)

/-- Read one level deeper. -/
def within {α : Type} (body : Reading α) : Reading α := do
  modify fun c => { c with level := c.level + 1 }
  let result ← body
  match (← get).level with
  | 0 => fail .unbalanced
  | level + 1 =>
    modify fun c => { c with level }
    return result

/-- The node of a tree whose children have the given heights, if it is not too high. -/
def build (expr : Expr) (heights : List Nat) : Reading Node :=
  let height := heights.foldl max 0 + 1
  if maxHeight < height then fail .treeTooHigh else return ⟨expr, height⟩

/-- The node of a tree without children. -/
def leaf (expr : Expr) : Node := ⟨expr, 1⟩

/-- Join two operands. -/
def join (op : Operator) (left right : Node) : Reading Node :=
  build (.binary op left.expr right.expr) [left.height, right.height]

/-- Join further operands to the left one by any of the given operators. -/
def chain (ops : List Operator) (operand : Reading Node) : (bound : Nat) → Node → Reading Node
  | 0, left => return left
  | bound + 1, left => do
    match ← peek with
    | some (.operator op) =>
      if op ∈ ops then
        advance
        let right ← operand
        let node ← join op left right
        chain ops operand bound node
      else return left
    | _ => return left

/-- Operands joined by any of the given operators. -/
def chained (bound : Nat) (ops : List Operator) (operand : Reading Node) : Reading Node := do
  let first ← operand
  chain ops operand bound first

/-- Operands joined by any operators. Each level has its own, and takes its operands from the next
tighter one. -/
def operation (bound : Nat) (operand : Reading Node) : Reading Node :=
  let product := chained bound [.multiply, .divide, .modulo] operand
  let sum := chained bound [.add, .subtract] product
  let relation := chained bound [.less, .lessOrEqual, .greater, .greaterOrEqual] sum
  let equality := chained bound [.equal, .notEqual] relation
  let conjunction := chained bound [.and] equality
  chained bound [.or] conjunction

/-- A conditional, or an operation without one. -/
def ternary (bound : Nat) (operand nested : Reading Node) : Reading Node := do
  let condition ← operation bound operand
  if (← peek) == some .question then
    advance
    let onTrue ← nested
    expect .colon
    let onFalse ← nested
    build (.conditional condition.expr onTrue.expr onFalse.expr)
      [condition.height, onTrue.height, onFalse.height]
  else return condition

/-- The arguments of a call from one argument on, in order. -/
def arguments (nested : Reading Node) : (bound : Nat) → Reading (List Node)
  | 0 => return []
  | bound + 1 => do
    let arg ← nested
    if (← peek) == some .comma then
      advance
      let rest ← arguments nested bound
      return arg :: rest
    else return [arg]

/-- The arguments of a call and the parentheses around them. -/
def callOf (bound : Nat) (nested : Reading Node) (name : String) : Reading Node := do
  advance
  let args ← if (← peek) == some .closeParen then pure [] else arguments nested bound
  expect .closeParen
  build (.call name (args.map Node.expr)) (args.map Node.height)

/-- A literal, a variable, a call or an expression in parentheses. -/
def primary (bound : Nat) (nested : Reading Node) : Reading Node := do
  match ← peek with
  | some (.number x) => advance; return leaf (.number x)
  | some (.string s) => advance; return leaf (.string s)
  | some (.boolean b) => advance; return leaf (.boolean b)
  | some (.identifier name) =>
    advance
    if (← peek) == some .openParen then callOf bound nested name else return leaf (.var name)
  | some .openParen =>
    advance
    let node ← nested
    expect .closeParen
    return node
  | some found => fail (.unexpected found)
  | none => fail .unexpectedEnd

/-- The signs that may stand before an operand. -/
inductive Sign
  | minus
  | plus
  | negation

/-- The sign that a token is. -/
def sign? : Option Token → Option Sign
  | some (.operator .subtract) => some .minus
  | some (.operator .add) => some .plus
  | some .not => some .negation
  | _ => none

/-- The node of an operand with a sign before it. -/
def applySign : Sign → Node → Reading Node
  | .minus, ⟨.literal (.number x), _⟩ => return leaf (.number (-x))
  | .plus, ⟨.literal (.number x), _⟩ => return leaf (.number x)
  | .minus, operand => join .subtract (leaf (.number 0)) operand
  | .plus, operand => join .add (leaf (.number 0)) operand
  | .negation, operand => build (.call "not" [operand.expr]) [operand.height]

/-- A sign before an operand, or an operand without one. -/
def signed (operand primary : Reading Node) : Reading Node := do
  match sign? (← peek) with
  | some sign =>
    advance
    let node ← operand
    applySign sign node
  | none => primary

/-- The two readings that open levels: an expression of its own and an operand with signs. -/
structure Levels where
  nested : Reading Node
  operand : Reading Node

/-- The readings at a budget of levels. -/
def levels (bound : Nat) : (budget : Nat) → Levels
  | 0 =>
    let nested := fail .nestedTooDeep
    ⟨nested, signed (fail .nestedTooDeep) (primary bound nested)⟩
  | budget + 1 =>
    let inner := levels bound budget
    let nested := within (ternary bound inner.operand inner.nested)
    ⟨nested, signed (within inner.operand) (primary bound nested)⟩

/-- An expression, the first token of the text included. -/
def expression (text : TokenStream) : Reading Expr := do
  moveTo text
  let node ← (levels text.count maxNesting).nested
  return node.expr

/-- An expression that ends with the text. -/
def complete (text : TokenStream) : Reading Expr := do
  let expr ← expression text
  match ← peek with
  | some found => fail (.trailing found)
  | none => return expr

end Reading

/-- Run a reading on the tokens of a text. -/
def readWith (reading : TokenStream → Reading Expr) (s : String) : Except SyntaxError Expr :=
  let text := TokenStream.ofText s
  match (reading text).run ⟨text, 0⟩ with
  | .ok (expr, _) => .ok expr
  | .error fault => .error ⟨fault, s⟩

/-- The expression at the head of a text. The token after it must be a token, but any. -/
def parsePrefix : String → Except SyntaxError Expr := readWith Reading.expression

/-- The expression that fills a text. -/
def parseComplete : String → Except SyntaxError Expr := readWith Reading.complete

/-- The expression of a formula. A blank text is refused at its start. -/
def parseFormula (s : String) : Except SyntaxError Expr :=
  if (Text.skipBlanks s.toList).isEmpty then .error ⟨⟨.emptyFormula, 0⟩, s⟩ else parseComplete s

end Expr

end FormulaRules
