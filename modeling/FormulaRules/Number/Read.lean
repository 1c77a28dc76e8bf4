/-!
# Reading decimal numbers

A number is an optional sign before one of the words `inf`, `infinity` and `nan` in any
letter case, or before digits with at most one point, at least one digit among them, and
an optional exponent. Blanks, separators and other bases are refused.

The value is the nearest number of the wanted precision, so a large decimal may read as an
infinity. Whole numbers are read exactly.
-/

namespace FormulaRules.Number

/-- The whole number that a list of decimal digits shows. -/
def ofDigits (ds : List Char) : Nat := ds.foldl (fun n d => 10 * n + (d.toNat - '0'.toNat)) 0

/-- The value of a digit in bases up to sixteen. -/
def hexValue? (c : Char) : Option Nat :=
  if c.isDigit then some (c.toNat - '0'.toNat)
  else if 'a' ≤ c ∧ c ≤ 'f' then some (c.toNat - 'a'.toNat + 10)
  else if 'A' ≤ c ∧ c ≤ 'F' then some (c.toNat - 'A'.toNat + 10)
  else none

/-- The double nearest to `digits · 10 ^ place`. -/
def ofDecimal (n : Nat) (place : Int) : Float :=
  Float.ofScientific n (decide (place < 0)) place.natAbs

/-- The digits at the head of a text and the rest. -/
def spanDigits (cs : List Char) : List Char × List Char :=
  (cs.takeWhile Char.isDigit, cs.dropWhile Char.isDigit)

/-- A sign at the head of a text, if any: whether it is a minus, and the rest. -/
def spanSign : List Char → Bool × List Char
  | '-' :: rest => (true, rest)
  | '+' :: rest => (false, rest)
  | cs => (false, cs)

/-- A whole number that fills a text: an optional sign and at least one digit. -/
def readWholeChars? (cs : List Char) : Option Int :=
  let (negative, rest) := spanSign cs
  let (ds, rest) := spanDigits rest
  if ds.isEmpty || !rest.isEmpty then none
  else some (if negative then -(ofDigits ds : Int) else ofDigits ds)

/-- An exponent that fills the rest of a text; no text is the exponent zero. -/
def readExponent? : List Char → Option Int
  | [] => some 0
  | mark :: rest => if mark = 'e' ∨ mark = 'E' then readWholeChars? rest else none

/-- An unsigned decimal `n · 10 ^ place` that fills a text, as `n` and `place`. -/
def decimal? (cs : List Char) : Option (Nat × Int) :=
  let (whole, rest) := spanDigits cs
  let (fraction, rest) := match rest with
    | '.' :: rest => spanDigits rest
    | rest => ([], rest)
  if whole.isEmpty && fraction.isEmpty then none
  else (readExponent? rest).map fun exponent =>
    (ofDigits (whole ++ fraction), exponent - fraction.length)

/-- An unsigned decimal that fills a text. -/
def readDecimal? (cs : List Char) : Option Float :=
  (decimal? cs).map fun (n, place) => ofDecimal n place

/-- A word for an infinity or a NaN that fills a text. -/
def readWord? (cs : List Char) : Option Float :=
  match String.ofList (cs.map Char.toLower) with
  | "inf" => some (1 / 0)
  | "infinity" => some (1 / 0)
  | "nan" => some (0 / 0)
  | _ => none

/-- A signed number that fills a text, given how its unsigned part reads. -/
def readSigned? {α : Type} [Neg α] (read? : List Char → Option α) (cs : List Char) : Option α :=
  let (negative, rest) := spanSign cs
  (read? rest).map fun x => if negative then -x else x

/-- A number that fills a text. -/
def readChars? : List Char → Option Float :=
  readSigned? fun cs => (readWord? cs).or (readDecimal? cs)

/-- A number that fills a text. -/
def read? (s : String) : Option Float := readChars? s.toList

/-- The single precision number nearest to an unsigned decimal that fills a text.

The decimal is rounded once; a double between would round a second time. -/
def readSingleDecimal? (cs : List Char) : Option Float32 :=
  (decimal? cs).map fun (n, place) =>
    Float32.ofScientific n (decide (place < 0)) place.natAbs

/-- A number that fills a text, in single precision. -/
def readSingle? (s : String) : Option Float32 :=
  readSigned? (fun cs => ((readWord? cs).map Float.toFloat32).or (readSingleDecimal? cs)) s.toList

/-- A whole number that fills a text. -/
def readWhole? (s : String) : Option Int := readWholeChars? s.toList

end FormulaRules.Number
