import FormulaRules.Number.Shortest

/-!
# Written forms of numbers

Three forms are written. The plain form shows the shortest digits positionally, never
with an exponent, and a whole number without a point. The document form is that of JSON
texts: it always shows a point or an exponent, and turns to an exponent for very small and
very large numbers. The fixed form shows a given number of places of the exact value.

An infinity or a NaN has a plain form but no document form.
-/

namespace FormulaRules.Number

/-- A run of zeros. -/
def zeros (count : Nat) : List Char := List.replicate count '0'

/-- The digits of a decimal before and after its point. -/
def Decimal.parts (d : Decimal) : List Char × List Char :=
  if d.point ≤ 0 then (['0'], zeros (-d.point).toNat ++ d.digits)
  else
    let before := d.point.toNat
    (d.digits.take before ++ zeros (before - d.digits.length), d.digits.drop before)

/-- Both parts with a point between them; a whole number shows no point. -/
def joinParts : List Char × List Char → List Char
  | (whole, []) => whole
  | (whole, fraction) => whole ++ '.' :: fraction

/-- Both parts with a point between them; a whole number ends in `.0`. -/
def joinPartsPointed : List Char × List Char → List Char
  | (whole, []) => whole ++ ['.', '0']
  | (whole, fraction) => whole ++ '.' :: fraction

/-- One digit, the others after a point, and the exponent of the first digit with its sign. -/
def Decimal.scientific (d : Decimal) : List Char :=
  let place := d.point - 1
  let mark := if place < 0 then ['e', '-'] else ['e', '+']
  joinParts (d.digits.take 1, d.digits.drop 1) ++ mark ++ wholeDigits place.natAbs

/-- A minus before the text of a negative number. -/
def withSign (x : Float) (text : List Char) : List Char :=
  if isNegative x then '-' :: text else text

/-- The digits of the plain form of a finite number; a tie goes away from zero. -/
def plainDigits (x : Float) : List Char :=
  if x == 0 then ['0'] else joinParts (shortest .awayFromZero (magnitude x)).parts

/-- The plain form: the shortest digits that read back, written positionally. -/
def plain (x : Float) : String :=
  if x.isNaN then "NaN"
  else if x.isInf then (if isNegative x then "-inf" else "inf")
  else String.ofList (withSign x (plainDigits x))

/-- The digits of the document form: positional for leading places from -5 to 15. -/
def documentDigits (x : Float) : List Char :=
  if x == 0 then ['0', '.', '0']
  else
    let d := shortest .toEven (magnitude x)
    if -5 ≤ d.point - 1 ∧ d.point - 1 < 16 then joinPartsPointed d.parts else d.scientific

/-- The document form of a finite number. -/
def document? (x : Float) : Option String :=
  if x.isFinite then some (String.ofList (withSign x (documentDigits x))) else none

/-- The digits of a whole number of units of the last place, with the point put in. -/
def placePoint (places units : Nat) : List Char :=
  let ds := wholeDigits units
  let padded := zeros (places + 1 - ds.length) ++ ds
  joinParts (padded.take (padded.length - places), padded.drop (padded.length - places))

/-- The fixed form: the exact value rounded to a number of places, a tie to even. -/
def fixed (places : Nat) (x : Float) : String :=
  if x.isFinite then
    let (numerator, denominator) := overPlace (magnitude x) (-(places : Int))
    String.ofList (withSign x (placePoint places (roundQuotient .toEven numerator denominator)))
  else plain x

end FormulaRules.Number
