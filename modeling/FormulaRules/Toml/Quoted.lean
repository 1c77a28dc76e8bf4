import FormulaRules.Number.Read

/-!
# Texts in TOML documents

A text stands between quotes. In double quotes a backslash starts an escape; in single
quotes every character stands for itself. Three quotes open a text over several lines, in
which the first line end is dropped and every other line end counts as a line feed. Up to
two quotes may stand directly before the closing ones.

In a text of several lines in double quotes, a backslash at the end of a line drops the
line end and all blanks and line ends after it.
-/

namespace FormulaRules.Toml

/-- Whether a character stands for itself in a text, and may stand in a comment. -/
def isPlain (c : Char) : Bool := c == '\t' || (decide (' ' ≤ c) && c != '\x7f')

/-- The blank characters inside a line. -/
def isBlank (c : Char) : Bool := c == ' ' || c == '\t'

/-- What follows a line end at the head of a text. -/
def lineEnd? : List Char → Option (List Char)
  | '\n' :: rest => some rest
  | '\r' :: '\n' :: rest => some rest
  | _ => none

/-- The character with the code that exactly `count` hexadecimal digits show. -/
def ofCode? (count : Nat) (cs : List Char) : Option Char := do
  let ds ← cs.mapM Number.hexValue?
  let n := ds.foldl (fun n d => 16 * n + d) 0
  if ds.length = count ∧ n.isValidChar then some (Char.ofNat n) else none

/-- The character that a letter after a backslash stands for. -/
def escaped? : Char → Option Char
  | '"' => some '"'
  | '\\' => some '\\'
  | 'b' => some '\x08'
  | 't' => some '\t'
  | 'n' => some '\n'
  | 'f' => some '\x0c'
  | 'r' => some '\r'
  | _ => none

/-- At most `n` quotes at the head of a text, and the rest. -/
def spanQuotes (quote : Char) : (n : Nat) → List Char → List Char × List Char
  | n + 1, c :: rest =>
    if c = quote then
      let (quotes, rest) := spanQuotes quote n rest
      (c :: quotes, rest)
    else ([], c :: rest)
  | _, cs => ([], cs)

/-- Put a character before a text that was read. -/
def prepend (c : Char) (read : Option (List Char × List Char)) : Option (List Char × List Char) :=
  read.map fun (cs, rest) => (c :: cs, rest)

/-- A text in double quotes after its opening quote. -/
def readBasic (cs : List Char) : Option (List Char × List Char) :=
  match cs with
  | [] => none
  | '"' :: rest => some ([], rest)
  | '\\' :: 'u' :: rest => do prepend (← ofCode? 4 (rest.take 4)) (readBasic (rest.drop 4))
  | '\\' :: 'U' :: rest => do prepend (← ofCode? 8 (rest.take 8)) (readBasic (rest.drop 8))
  | '\\' :: c :: rest => do prepend (← escaped? c) (readBasic rest)
  | c :: rest => if c ≠ '\\' ∧ isPlain c then prepend c (readBasic rest) else none
termination_by cs.length
decreasing_by all_goals (simp only [List.length_cons, List.length_drop]; omega)

/-- A text of several lines in double quotes after its opening quotes.

In a gap, which a backslash at the end of a line opens, blanks and line ends are dropped. -/
def readBasicLines (inGap : Bool) (cs : List Char) : Option (List Char × List Char) :=
  match cs with
  | [] => none
  | '"' :: '"' :: '"' :: rest => some (spanQuotes '"' 2 rest)
  | '\\' :: 'u' :: rest => do
    prepend (← ofCode? 4 (rest.take 4)) (readBasicLines false (rest.drop 4))
  | '\\' :: 'U' :: rest => do
    prepend (← ofCode? 8 (rest.take 8)) (readBasicLines false (rest.drop 8))
  | '\\' :: c :: rest =>
    if (lineEnd? ((c :: rest).dropWhile isBlank)).isSome then readBasicLines true (c :: rest)
    else do prepend (← escaped? c) (readBasicLines false rest)
  | '\r' :: '\n' :: rest =>
    if inGap then readBasicLines true rest else prepend '\n' (readBasicLines false rest)
  | c :: rest =>
    if inGap && (isBlank c || c == '\n') then readBasicLines true rest
    else if c ≠ '\\' ∧ (c = '\n' ∨ isPlain c) then prepend c (readBasicLines false rest)
    else none
termination_by cs.length
decreasing_by all_goals (simp only [List.length_cons, List.length_drop]; omega)

/-- A text in single quotes after its opening quote. -/
def readLiteral : List Char → Option (List Char × List Char)
  | [] => none
  | '\'' :: rest => some ([], rest)
  | c :: rest => if isPlain c then prepend c (readLiteral rest) else none

/-- A text of several lines in single quotes after its opening quotes. -/
def readLiteralLines : List Char → Option (List Char × List Char)
  | [] => none
  | '\'' :: '\'' :: '\'' :: rest => some (spanQuotes '\'' 2 rest)
  | '\r' :: '\n' :: rest => prepend '\n' (readLiteralLines rest)
  | c :: rest => if c = '\n' ∨ isPlain c then prepend c (readLiteralLines rest) else none

/-- A text without its first line end, if it starts with one. -/
def dropLineEnd (cs : List Char) : List Char := (lineEnd? cs).getD cs

/-- A text of one line or of several lines. -/
def readText : List Char → Option (List Char × List Char)
  | '"' :: '"' :: '"' :: rest => readBasicLines false (dropLineEnd rest)
  | '"' :: rest => readBasic rest
  | '\'' :: '\'' :: '\'' :: rest => readLiteralLines (dropLineEnd rest)
  | '\'' :: rest => readLiteral rest
  | _ => none

end FormulaRules.Toml
