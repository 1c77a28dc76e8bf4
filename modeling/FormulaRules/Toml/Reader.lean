import FormulaRules.Toml.Entry
import FormulaRules.Toml.Scalar

/-!
# Reading TOML texts

A text is a sequence of lines: a key with its value, the header of a table, the header of an
item of an array of tables, a comment, or nothing. A line end is a line feed, with or without
a carriage return before it. Comments hold no control characters.

A value is complete on its line, except that arrays and texts of several lines may run on.
Arrays and inline tables are nested at most `maxDepth` deep, and a key has at most as many
parts. An array may end in a comma, an inline table may not.
-/

namespace FormulaRules.Toml

/-- The most arrays and inline tables that stand inside one another, and the most parts of a
key. -/
def maxDepth : Nat := 79

/-- Drop the blank characters at the head of a line. -/
def skipBlanks (cs : List Char) : List Char := cs.dropWhile isBlank

/-- What follows the end of a line, which may have a comment. -/
def endLine? (cs : List Char) : Option (List Char) :=
  let rest := match skipBlanks cs with
    | '#' :: rest => rest.dropWhile isPlain
    | rest => rest
  match rest with
  | [] => some []
  | rest => lineEnd? rest

/-- Drop blanks, line ends and comments between the items of an array. -/
def skipLines (inComment : Bool) : List Char → Option (List Char)
  | [] => if inComment then none else some []
  | '\n' :: rest => skipLines false rest
  | '\r' :: '\n' :: rest => skipLines false rest
  | c :: rest =>
    if inComment then (if isPlain c then skipLines true rest else none)
    else if isBlank c then skipLines false rest
    else if c = '#' then skipLines true rest
    else some (c :: rest)

/-- Whether a character may stand in a key without quotes. -/
def isBareKeyChar (c : Char) : Bool := c.isAlphanum || c == '_' || c == '-'

/-- One part of a key: bare, or a text of one line. -/
def readKeyPart : List Char → Option (String × List Char)
  | '"' :: rest => (readBasic rest).map fun (cs, rest) => (String.ofList cs, rest)
  | '\'' :: rest => (readLiteral rest).map fun (cs, rest) => (String.ofList cs, rest)
  | cs =>
    match cs.takeWhile isBareKeyChar with
    | [] => none
    | bare => some (String.ofList bare, cs.dropWhile isBareKeyChar)

/-- The parts of a key, at most `n`, and what follows the blanks after it. -/
def readKeyParts : (n : Nat) → List Char → Option (List String × List Char)
  | 0, _ => none
  | n + 1, cs => do
    let (part, rest) ← readKeyPart (skipBlanks cs)
    match skipBlanks rest with
    | '.' :: rest =>
      let (parts, rest) ← readKeyParts n rest
      return (part :: parts, rest)
    | rest => return ([part], rest)

/-- A key. -/
def readKey (cs : List Char) : Option (Key × List Char) := do
  let (parts, rest) ← readKeyParts maxDepth cs
  let name ← parts.getLast?
  return (⟨parts.dropLast, name⟩, rest)

mutual

/-- A value at the head of a text, in at most `n` steps and with `levels` levels left. -/
def readValue : (n : Nat) → (levels : Nat) → List Char → Option (Toml × List Char)
  | 0, _, _ => none
  | n + 1, levels, cs =>
    match cs with
    | '"' :: _ => (readText cs).map fun (cs, rest) => (.text (String.ofList cs), rest)
    | '\'' :: _ => (readText cs).map fun (cs, rest) => (.text (String.ofList cs), rest)
    | '[' :: rest =>
      match levels with
      | 0 => none
      | levels + 1 => (readItems n levels rest).map fun (items, rest) => (.array items, rest)
    | '\x7b' :: rest =>
      match levels with
      | 0 => none
      | levels + 1 =>
        match skipBlanks rest with
        | '\x7d' :: rest => some (.table [], rest)
        | rest => do
          let (pairs, rest) ← readPairs n levels rest
          return (← ofPairs? pairs, rest)
    | cs => readScalar cs

/-- The items of an array up to its closing bracket. -/
def readItems : (n : Nat) → (levels : Nat) → List Char → Option (List Toml × List Char)
  | 0, _, _ => none
  | n + 1, levels, cs => do
    match ← skipLines false cs with
    | ']' :: rest => return ([], rest)
    | rest =>
      let (v, rest) ← readValue n levels rest
      match ← skipLines false rest with
      | ',' :: rest =>
        let (items, rest) ← readItems n levels rest
        return (v :: items, rest)
      | ']' :: rest => return ([v], rest)
      | _ => none

/-- The keys and values of an inline table up to its closing brace. -/
def readPairs : (n : Nat) → (levels : Nat) → List Char → Option (List (Key × Toml) × List Char)
  | 0, _, _ => none
  | n + 1, levels, cs => do
    match ← readKey cs with
    | (key, '=' :: rest) =>
      let (v, rest) ← readValue n levels (skipBlanks rest)
      match skipBlanks rest with
      | ',' :: rest =>
        let (pairs, rest) ← readPairs n levels rest
        return ((key, v) :: pairs, rest)
      | '\x7d' :: rest => return ([(key, v)], rest)
      | _ => none
    | _ => none

end

/-- A line that says something. -/
inductive Statement
  | assignment (key : Key) (v : Toml)
  | tableHeader (key : Key)
  | itemHeader (key : Key)

/-- A statement at the head of a line that is neither blank nor a comment alone. -/
def readStatement (cs : List Char) : Option (Statement × List Char) :=
  match cs with
  | '[' :: '[' :: rest => do
    match ← readKey rest with
    | (key, ']' :: ']' :: rest) => return (.itemHeader key, ← endLine? rest)
    | _ => none
  | '[' :: rest => do
    match ← readKey rest with
    | (key, ']' :: rest) => return (.tableHeader key, ← endLine? rest)
    | _ => none
  | cs => do
    match ← readKey cs with
    | (key, '=' :: rest) =>
      let (v, rest) ← readValue (2 * cs.length) maxDepth (skipBlanks rest)
      return (.assignment key v, ← endLine? rest)
    | _ => none

/-- The statements of at most `n` lines. -/
def readStatements : (n : Nat) → List Char → Option (List Statement)
  | 0, cs => if cs.isEmpty then some [] else none
  | n + 1, cs =>
    match endLine? cs, skipBlanks cs with
    | some [], _ => some []
    | some rest, _ => readStatements n rest
    | none, cs => do
      let (statement, rest) ← readStatement cs
      return statement :: (← readStatements n rest)

/-- The keys and values before the first header, and every header with its own. -/
def groupByHeader : List Statement → List (Key × Toml) × List (Statement × List (Key × Toml))
  | [] => ([], [])
  | .assignment key v :: rest =>
    let (pairs, groups) := groupByHeader rest
    ((key, v) :: pairs, groups)
  | header :: rest =>
    let (pairs, groups) := groupByHeader rest
    ([], (header, pairs) :: groups)

/-- Add a header with its keys and values. -/
def addGroup? (members : Entries) : Statement × List (Key × Toml) → Option Entries
  | (.tableHeader key, pairs) => members.addTable? key pairs
  | (.itemHeader key, pairs) => members.addItem? key pairs
  | (.assignment key v, pairs) => members.assignAll? ((key, v) :: pairs)

/-- The document of a list of statements. -/
def ofStatements? (statements : List Statement) : Option Toml := do
  let (pairs, groups) := groupByHeader statements
  let members ← groups.foldlM addGroup? (← Entries.assignAll? pairs [])
  return .table (finishMembers members)

/-- The document of a text, which may start with a byte order mark. -/
def ofText? (text : String) : Option Toml := do
  let cs := match text.toList with
    | '\uFEFF' :: rest => rest
    | cs => cs
  ofStatements? (← readStatements (cs.length + 1) cs)

end FormulaRules.Toml
