import FormulaRules.Json

/-!
# Writing JSON documents

A document is written on one line without blanks, or over several lines with two blanks
for each level. Quotes, backslashes and the characters below U+0020 are escaped in texts,
everything else stands for itself.
-/

namespace FormulaRules.Json

/-- One hexadecimal digit. -/
def hexDigit (n : Nat) : Char := (Nat.digitChar n)

/-- The text of one character between quotes. -/
def escapeChar (c : Char) : List Char :=
  match c with
  | '"' => ['\\', '"']
  | '\\' => ['\\', '\\']
  | '\n' => ['\\', 'n']
  | '\r' => ['\\', 'r']
  | '\t' => ['\\', 't']
  | '\x08' => ['\\', 'b']
  | '\x0c' => ['\\', 'f']
  | c =>
    if c.toNat < 0x20 then
      ['\\', 'u', '0', '0', hexDigit (c.toNat / 16), hexDigit (c.toNat % 16)]
    else [c]

/-- A text between quotes. -/
def quote (s : String) : String := String.ofList ('"' :: s.toList.flatMap escapeChar ++ ['"'])

/-- The text of a document that is neither an array nor an object. -/
def renderScalar : Json → String
  | boolean true => "true"
  | boolean false => "false"
  | integer n => if n < 0 then "-" ++ Nat.repr n.natAbs else Nat.repr n.natAbs
  | real x => (Number.document? x).getD "null"
  | string s => quote s
  | _ => "null"

mutual

/-- A document on one line. -/
def render : Json → String
  | array [] => "[]"
  | array (j :: rest) => "[" ++ j.render ++ renderItems rest ++ "]"
  | object [] => "\x7b\x7d"
  | object ((name, j) :: rest) =>
    "\x7b" ++ quote name ++ ":" ++ j.render ++ renderMembers rest ++ "\x7d"
  | j => renderScalar j

/-- The items after the first on one line. -/
def renderItems : List Json → String
  | [] => ""
  | j :: rest => "," ++ j.render ++ renderItems rest

/-- The members after the first on one line. -/
def renderMembers : List (String × Json) → String
  | [] => ""
  | (name, j) :: rest => "," ++ quote name ++ ":" ++ j.render ++ renderMembers rest

end

/-- A new line and the blanks of a level. -/
def newLine (level : Nat) : String := String.ofList ('\n' :: List.replicate (2 * level) ' ')

mutual

/-- A document over several lines, inside a number of levels. -/
def renderAt (level : Nat) : Json → String
  | array [] => "[]"
  | array (j :: rest) =>
    "[" ++ newLine (level + 1) ++ renderAt (level + 1) j ++ renderItemsAt (level + 1) rest ++
      newLine level ++ "]"
  | object [] => "\x7b\x7d"
  | object ((name, j) :: rest) =>
    "\x7b" ++ newLine (level + 1) ++ quote name ++ ": " ++ renderAt (level + 1) j ++
      renderMembersAt (level + 1) rest ++ newLine level ++ "\x7d"
  | j => renderScalar j

/-- The items after the first, each on a line of its own. -/
def renderItemsAt (level : Nat) : List Json → String
  | [] => ""
  | j :: rest => "," ++ newLine level ++ renderAt level j ++ renderItemsAt level rest

/-- The members after the first, each on a line of its own. -/
def renderMembersAt (level : Nat) : List (String × Json) → String
  | [] => ""
  | (name, j) :: rest =>
    "," ++ newLine level ++ quote name ++ ": " ++ renderAt level j ++ renderMembersAt level rest

end

/-- A document over several lines. -/
def renderPretty (j : Json) : String := renderAt 0 j

end FormulaRules.Json
