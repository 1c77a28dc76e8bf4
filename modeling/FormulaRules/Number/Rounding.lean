import FormulaRules.Number.Magnitude

/-!
# Rounding to whole numbers and remainders

Rounding toward zero, down, up and to the nearest whole number, where a half goes away
from zero. A number without a fraction, an infinity and a NaN are returned unchanged, and
a result of zero keeps the sign of the argument.

The remainder has the sign of the dividend and is exact: no rounding takes place.
-/

namespace FormulaRules.Number

/-- The double of a whole number below `2 ^ 53`, with a sign. -/
def ofWhole (negative : Bool) (n : Nat) : Float :=
  if negative then -n.toUInt64.toFloat else n.toUInt64.toFloat

/-- Replace a number that may have a fraction by a whole number next to it. -/
def toWhole (pick : Bool → Split → Nat) (x : Float) : Float :=
  let m := magnitude x
  if 0 ≤ m.exponent then x
  else ofWhole (isNegative x) (pick (isNegative x) m.split)

/-- Round toward zero. -/
def truncate : Float → Float := toWhole fun _ s => s.whole

/-- Round down. -/
def floor : Float → Float :=
  toWhole fun negative s => if negative && !s.exact then s.whole + 1 else s.whole

/-- Round up. -/
def ceiling : Float → Float :=
  toWhole fun negative s => if negative || s.exact then s.whole else s.whole + 1

/-- Round to the nearest whole number; a half goes away from zero. -/
def round : Float → Float := toWhole fun _ s => if s.atLeastHalf then s.whole + 1 else s.whole

/-- What is left of `x` after taking away `y` as often as it fits, toward zero.

An infinite dividend, a zero divisor and a NaN give a NaN. An infinite divisor leaves the
dividend as it is. -/
def remainder (x y : Float) : Float :=
  if !x.isFinite || y.isNaN || y == 0 then 0 / 0
  else if !y.isFinite then x
  else
    let a := magnitude x
    let b := magnitude y
    let exponent := min a.exponent b.exponent
    let left := a.significand <<< (a.exponent - exponent).toNat
    let right := b.significand <<< (b.exponent - exponent).toNat
    ofMagnitude (isNegative x) ⟨left % right, exponent⟩

end FormulaRules.Number
