/-!
# The magnitude of a double

A finite double is a sign and a magnitude `significand · 2 ^ exponent`. The significand
stays below `2 ^ 53` and the exponent is at least `-1074`. Magnitudes are exact, so
rounding, remainders and decimal digits are computed on them in whole numbers.

The magnitude of an infinity or a NaN has no meaning. Callers exclude both.
-/

namespace FormulaRules.Number

/-- The exact value `significand · 2 ^ exponent`. -/
structure Magnitude where
  significand : Nat
  exponent : Int
deriving Repr, DecidableEq

/-- Whether the sign bit is set. Negative zero has it, a NaN does not. -/
def isNegative (x : Float) : Bool := x.toBits >>> 63 == 1

/-- The magnitude of a finite double, with the exponent of its last place. -/
def magnitude (x : Float) : Magnitude :=
  let biased := ((x.toBits >>> 52) &&& 0x7FF).toNat
  let fraction := (x.toBits &&& 0xFFFFFFFFFFFFF).toNat
  if biased = 0 then ⟨fraction, -1074⟩ else ⟨fraction + Nat.pow 2 52, (biased : Int) - 1075⟩

/-- The double of a magnitude that one represents exactly.

The significand is moved up to the 53rd bit, or as far as the smallest exponent allows. -/
def ofMagnitude (negative : Bool) (m : Magnitude) : Float :=
  let room := min (52 - m.significand.log2) (m.exponent + 1074).toNat
  let significand := m.significand <<< room
  let exponent := m.exponent - room
  let sign : Nat := if negative then Nat.pow 2 63 else 0
  let bits :=
    if significand < Nat.pow 2 52 then significand
    else (exponent + 1075).toNat * Nat.pow 2 52 + (significand - Nat.pow 2 52)
  Float.ofBits (sign + bits).toUInt64

/-- The whole part of a magnitude and twice its fraction, compared with one. -/
structure Split where
  /-- The largest whole number not above the magnitude. -/
  whole : Nat
  /-- How the fraction compares with zero. -/
  exact : Bool
  /-- Whether the fraction is at least one half. -/
  atLeastHalf : Bool

/-- Split a magnitude with a negative exponent at the point. -/
def Magnitude.split (m : Magnitude) : Split :=
  let places := (-m.exponent).toNat
  let whole := m.significand >>> places
  let fraction := m.significand - whole <<< places
  ⟨whole, fraction == 0, decide (Nat.pow 2 places ≤ 2 * fraction)⟩

end FormulaRules.Number
