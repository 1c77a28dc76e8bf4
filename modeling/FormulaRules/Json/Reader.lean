import FormulaRules.Json.Numeral

/-!
# Reading JSON texts

A text is read as one document with nothing but blanks around it. Blanks are spaces, tabs,
line feeds and carriage returns. Leading zeros, missing digits, control characters inside
texts and unknown escapes are refused.

How deep documents may be nested is not limited here; that depends on how they are used.
-/

namespace FormulaRules.Json

/-- The characters that may stand between the parts of a document. -/
def isBlank (c : Char) : Bool := c == ' ' || c == '\t' || c == '\n' || c == '\r'

/-- Drop the blanks before the first other character. -/
def skipBlanks (cs : List Char) : List Char := cs.dropWhile isBlank

/-- A unit of a text: a character, or half of a surrogate pair. -/
inductive TextUnit
  | char (c : Char)
  | half (n : Nat)

/-- The unit that four hexadecimal digits stand for. -/
def TextUnit.ofCode (n : Nat) : TextUnit :=
  if 0xD800 ≤ n ∧ n < 0xE000 then half n else char (Char.ofNat n)

/-- The character that a letter after a backslash stands for. -/
def escaped? : Char → Option Char
  | '"' => some '"'
  | '\\' => some '\\'
  | '/' => some '/'
  | 'b' => some '\x08'
  | 'f' => some '\x0c'
  | 'n' => some '\n'
  | 'r' => some '\r'
  | 't' => some '\t'
  | _ => none

/-- The units up to a closing quote, and what follows the quote. -/
def textUnits : List Char → Option (List TextUnit × List Char)
  | [] => none
  | '"' :: rest => some ([], rest)
  | '\\' :: 'u' :: a :: b :: c :: d :: rest => do
    let ds ← [a, b, c, d].mapM Number.hexValue?
    let n := ds.foldl (fun n d => 16 * n + d) 0
    let (units, rest) ← textUnits rest
    return (TextUnit.ofCode n :: units, rest)
  | '\\' :: c :: rest => do
    let d ← escaped? c
    let (units, rest) ← textUnits rest
    return (.char d :: units, rest)
  | c :: rest =>
    if c = '\\' ∨ c.toNat < 0x20 then none
    else (textUnits rest).map fun (units, rest) => (.char c :: units, rest)

/-- The characters of a text; half of a surrogate pair has none. -/
def characters? : List TextUnit → Option (List Char)
  | [] => some []
  | .char c :: rest => (characters? rest).map (c :: ·)
  | .half high :: .half low :: rest =>
    if high < 0xDC00 ∧ 0xDC00 ≤ low then
      (characters? rest).map (Char.ofNat (0x10000 + (high - 0xD800) * 1024 + (low - 0xDC00)) :: ·)
    else none
  | .half _ :: _ => none

/-- A text after its opening quote; one without characters is returned as none. -/
def readText (cs : List Char) : Option (Option String × List Char) := do
  let (units, rest) ← textUnits cs
  return ((characters? units).map String.ofList, rest)

/-- The digits before a point: a single zero, or digits of which the first is none. -/
def readWhole (cs : List Char) : Option (List Char × List Char) :=
  match Number.spanDigits cs with
  | ([], _) => none
  | ('0' :: _ :: _, _) => none
  | parts => some parts

/-- A point and the digits after it, if there is a point. -/
def readFraction : List Char → Option (Option (List Char) × List Char)
  | '.' :: rest =>
    match Number.spanDigits rest with
    | ([], _) => none
    | (ds, rest) => some (some ds, rest)
  | cs => some (none, cs)

/-- An exponent, if there is one. -/
def readExponent : List Char → Option (Option (Bool × List Char) × List Char)
  | [] => some (none, [])
  | c :: rest =>
    if c = 'e' ∨ c = 'E' then
      let (negative, rest) := Number.spanSign rest
      match Number.spanDigits rest with
      | ([], _) => none
      | (ds, rest) => some (some (negative, ds), rest)
    else some (none, c :: rest)

/-- A number. -/
def readNumeral (negative : Bool) (cs : List Char) : Option (Numeral × List Char) := do
  let (whole, rest) ← readWhole cs
  let (fraction, rest) ← readFraction rest
  let (exponent, rest) ← readExponent rest
  return (⟨negative, whole, fraction, exponent⟩, rest)

/-- What follows a word at the head of a text. -/
def skipWord? (word : String) (cs : List Char) : Option (List Char) :=
  if word.toList.isPrefixOf cs then some (cs.drop word.length) else none

/-- An object, unless one of its names has no characters. -/
def ofMembers (members : List (Option String × Json)) : Json :=
  match members.mapM fun (name, j) => name.map fun name => (name, j) with
  | some members => object members
  | none => unreadable

mutual

/-- A document at the head of a text, in at most `n` steps. -/
def readValue : (n : Nat) → List Char → Option (Json × List Char)
  | 0, _ => none
  | n + 1, cs =>
    match skipBlanks cs with
    | [] => none
    | c :: rest =>
      match c with
      | 'n' => (skipWord? "ull" rest).map fun rest => (null, rest)
      | 't' => (skipWord? "rue" rest).map fun rest => (boolean true, rest)
      | 'f' => (skipWord? "alse" rest).map fun rest => (boolean false, rest)
      | '"' => (readText rest).map fun (text, rest) => ((text.map string).getD unreadable, rest)
      | '-' => (readNumeral true rest).map fun (m, rest) => (m.toJson, rest)
      | '[' =>
        match skipBlanks rest with
        | ']' :: rest => some (array [], rest)
        | rest => (readItems n rest).map fun (items, rest) => (array items, rest)
      | '\x7b' =>
        match skipBlanks rest with
        | '\x7d' :: rest => some (object [], rest)
        | rest => (readMembers n rest).map fun (members, rest) => (ofMembers members, rest)
      | c => (readNumeral false (c :: rest)).map fun (m, rest) => (m.toJson, rest)

/-- The items of an array and its closing bracket. -/
def readItems : (n : Nat) → List Char → Option (List Json × List Char)
  | 0, _ => none
  | n + 1, cs => do
    let (j, rest) ← readValue n cs
    match skipBlanks rest with
    | ',' :: rest =>
      let (items, rest) ← readItems n rest
      return (j :: items, rest)
    | ']' :: rest => return ([j], rest)
    | _ => none

/-- The members of an object and its closing brace. -/
def readMembers : (n : Nat) → List Char → Option (List (Option String × Json) × List Char)
  | 0, _ => none
  | n + 1, cs =>
    match skipBlanks cs with
    | '"' :: rest => do
      let (name, rest) ← readText rest
      match skipBlanks rest with
      | ':' :: rest =>
        let (j, rest) ← readValue n rest
        match skipBlanks rest with
        | ',' :: rest =>
          let (members, rest) ← readMembers n rest
          return ((name, j) :: members, rest)
        | '\x7d' :: rest => return ([(name, j)], rest)
        | _ => none
      | _ => none
    | _ => none

end

/-- The document of a text. Every step but one in two takes a character. -/
def ofText? (text : String) : Option Json := do
  let cs := text.toList
  let (j, rest) ← readValue (2 * cs.length + 2) cs
  if (skipBlanks rest).isEmpty then return j else none

end FormulaRules.Json
