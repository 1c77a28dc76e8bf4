import FormulaRules.Json
import FormulaRules.Number.Read

/-!
# Numbers in JSON texts

A number without a point and without an exponent is kept whole if it fits 64 bits. Every
other number becomes a double in two steps: the digits that fit 64 bits are taken as a
whole number, and this is multiplied or divided by a power of ten. The second step rounds
again, so the result can differ in its last bit from the double nearest to the decimal.

A number beyond the largest double is unreadable.
-/

namespace FormulaRules.Json

/-- A number as it is written: its digits before and after the point, and its exponent. -/
structure Numeral where
  negative : Bool
  whole : List Char
  /-- The digits after the point, if there is a point. -/
  fraction : Option (List Char)
  /-- Whether the exponent is negative, and its digits, if there is an exponent. -/
  exponent : Option (Bool × List Char)

/-- Append digits to a whole number while it fits 64 bits; the rest is returned. -/
def takeFitting : Nat → List Char → Nat × List Char
  | n, [] => (n, [])
  | n, d :: rest =>
    let next := 10 * n + (d.toNat - '0'.toNat)
    if next < Nat.pow 2 64 then takeFitting next rest else (n, d :: rest)

/-- The double nearest to a power of ten. -/
def powerOfTen (exponent : Nat) : Float := Float.ofScientific 1 false exponent

/-- Multiply by a power of ten, in steps of at most 308 places and with at most `n` steps. -/
def scale : (n : Nat) → Float → (exponent : Int) → Option Float
  | n, x, exponent =>
    if exponent.natAbs ≤ 308 then
      if exponent < 0 then some (x / powerOfTen exponent.natAbs)
      else (some (x * powerOfTen exponent.natAbs)).filter Float.isFinite
    else if x == 0 then some x
    else if 0 ≤ exponent then none
    else match n with
      | 0 => some x
      | n + 1 => scale n (x / powerOfTen 308) (exponent + 308)

/-- The exponents that a number may have before it counts as boundless. -/
def exponentLimit : Nat := 2147483647

namespace Numeral

/-- The digits that fit, as a whole number, and the place of its last digit. -/
def significand (m : Numeral) : Nat × Int :=
  let (n, skipped) := takeFitting 0 m.whole
  let fraction := m.fraction.getD []
  let (n, unused) := takeFitting n fraction
  (n, (skipped.length : Int) - (fraction.length - unused.length : Nat))

/-- The magnitude of a number as a double, if it is not too large. -/
def magnitude? (m : Numeral) : Option Float :=
  let (n, place) := m.significand
  let x := Float.ofNat n
  match m.exponent with
  | none => scale place.natAbs x place
  | some (below, ds) =>
    let exponent := Number.ofDigits ds
    if exponentLimit < exponent then
      if n = 0 || below then some 0 else none
    else
      let exponent := if below then place - exponent else place + exponent
      scale exponent.natAbs x exponent

/-- The whole number that is written, if it is written as one and fits 64 bits.

Minus zero is no whole number. -/
def integer? (m : Numeral) : Option Int :=
  if m.fraction.isSome || m.exponent.isSome then none
  else match takeFitting 0 m.whole with
    | (n, []) =>
      if !m.negative then some n
      else if 0 < n ∧ n ≤ Nat.pow 2 63 then some (-(n : Int))
      else none
    | _ => none

/-- The document of a number. -/
def toJson (m : Numeral) : Json :=
  match m.integer? with
  | some n => .integer n
  | none =>
    match m.magnitude? with
    | some x => .real (if m.negative then -x else x)
    | none => .unreadable

end Numeral

end FormulaRules.Json
