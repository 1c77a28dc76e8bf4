import FormulaRules.SyntaxError

/-!
# The tokens of a text

A text is read into a stream of located tokens that ends where the text ends or at the
first lexical fault. The fault is part of the stream, so whoever takes tokens off it meets
the fault only after the tokens before it.

Blank characters separate tokens and are skipped. Every token takes as many characters as
it can. Numbers, names and keywords are made of letters and digits of the ASCII range.
-/

namespace FormulaRules

/-- The tokens of a text with the positions where each starts and stops. -/
inductive TokenStream
  /-- A token and what follows it. -/
  | token (t : Token) (start stop : Nat) (next : TokenStream)
  /-- The end of the text. -/
  | finish (position : Nat)
  /-- A place where no token can be read. -/
  | fault (cause : SyntaxCause) (position : Nat)
deriving Inhabited

namespace Token

/-- Whether a character may start a name. -/
def isNameStart (c : Char) : Bool := c.isAlpha || c == '_'

/-- Whether a character may stand inside a name. -/
def isNameChar (c : Char) : Bool := c.isAlphanum || c == '_'

/-- The characters of the number at the head of a text: digits with at most one point. -/
def numberText (cs : List Char) : List Char :=
  let (whole, rest) := Number.spanDigits cs
  match rest with
  | '.' :: rest => whole ++ '.' :: (Number.spanDigits rest).1
  | _ => whole

/-- The number at the head of a text and its width. -/
def readNumber (cs : List Char) : Except SyntaxCause (Token × Nat) :=
  let text := numberText cs
  match Number.readChars? text with
  | some x =>
    if x.isFinite then .ok (number x, text.length)
    else .error (.numberOutOfRange (String.ofList text))
  | none => .error (.malformedNumber (String.ofList text))

/-- The character that a backslash and a letter or quote stand for. -/
def escaped? : Char → Option Char
  | 'n' => some '\n'
  | 't' => some '\t'
  | 'r' => some '\r'
  | '\\' => some '\\'
  | '"' => some '"'
  | '\'' => some '\''
  | _ => none

/-- The characters up to a closing quote, and the width they take together with it.

A backslash before a character without a meaning of its own stands for itself. -/
def quotedText (quote : Char) : List Char → Option (List Char × Nat)
  | [] => none
  | '\\' :: [] => none
  | '\\' :: c :: rest =>
    (quotedText quote rest).map fun (text, width) =>
      (match escaped? c with
        | some d => d :: text
        | none => '\\' :: c :: text, width + 2)
  | c :: rest =>
    if c = quote then some ([], 1)
    else (quotedText quote rest).map fun (text, width) => (c :: text, width + 1)

/-- The name or keyword at the head of a text and its width. -/
def readName (cs : List Char) : Token × Nat :=
  let text := cs.takeWhile isNameChar
  let name := String.ofList text
  let t :=
    if Text.sameFolded name "true" then boolean true
    else if Text.sameFolded name "false" then boolean false
    else identifier name
  (t, text.length)

/-- A token of two characters if the second is an equals sign, else one of one character. -/
def withEquals (long short : Token) : List Char → Token × Nat
  | '=' :: _ => (long, 2)
  | _ => (short, 1)

/-- A token that is a character written twice. -/
def doubled (c : Char) (t : Token) : List Char → Except SyntaxCause (Token × Nat)
  | d :: _ => if d = c then .ok (t, 2) else .error (.singleCharacter c)
  | [] => .error (.singleCharacter c)

/-- The token at the head `c` of a text, and its width. -/
def read (c : Char) (rest : List Char) : Except SyntaxCause (Token × Nat) :=
  if c.isDigit then readNumber (c :: rest)
  else if isNameStart c then .ok (readName (c :: rest))
  else match c with
    | '.' =>
      if rest.head?.any Char.isDigit then readNumber (c :: rest) else .error (.strayCharacter c)
    | '"' | '\'' =>
      match quotedText c rest with
      | some (text, width) => .ok (string (String.ofList text), width + 1)
      | none => .error .unterminatedString
    | '+' => .ok (operator .add, 1)
    | '-' => .ok (operator .subtract, 1)
    | '*' => .ok (operator .multiply, 1)
    | '/' => .ok (operator .divide, 1)
    | '%' => .ok (operator .modulo, 1)
    | '?' => .ok (question, 1)
    | ':' => .ok (colon, 1)
    | '(' => .ok (openParen, 1)
    | ')' => .ok (closeParen, 1)
    | ',' => .ok (comma, 1)
    | '<' => .ok (withEquals (operator .lessOrEqual) (operator .less) rest)
    | '>' => .ok (withEquals (operator .greaterOrEqual) (operator .greater) rest)
    | '!' => .ok (withEquals (operator .notEqual) not rest)
    | '=' => doubled '=' (operator .equal) rest
    | '&' => doubled '&' (operator .and) rest
    | '|' => doubled '|' (operator .or) rest
    | _ => .error (.strayCharacter c)

end Token

namespace TokenStream

/-- The tokens of the characters from a position on. At most `n` characters are left. -/
def ofChars : (n : Nat) → (position : Nat) → List Char → TokenStream
  | 0, position, _ => finish position
  | n + 1, position, cs =>
    let start := position + (cs.takeWhile Text.isBlank).length
    match Text.skipBlanks cs with
    | [] => finish start
    | c :: rest =>
      match Token.read c rest with
      | .ok (t, width) =>
        token t start (start + width) (ofChars n (start + width) ((c :: rest).drop width))
      | .error cause => fault cause start

/-- The tokens of a text. -/
def ofText (s : String) : TokenStream := ofChars s.toList.length 0 s.toList

/-- The tokens before the end or the fault, in order. -/
def tokens : TokenStream → List Token
  | token t _ _ next => t :: next.tokens
  | finish _ => []
  | fault _ _ => []

/-- The number of tokens before the end or the fault. -/
def count : TokenStream → Nat
  | token _ _ _ next => next.count + 1
  | finish _ => 0
  | fault _ _ => 0

/-- The next token. -/
def head? : TokenStream → Option Token
  | token t _ _ _ => some t
  | _ => none

/-- The position of the next token, of the end or of the fault. -/
def position : TokenStream → Nat
  | token _ start _ _ => start
  | finish position => position
  | fault _ position => position

end TokenStream

end FormulaRules
