import FormulaRules.Number.Magnitude

/-!
# The shortest decimal digits of a double

Every double is the nearest one to a whole interval of reals. Among the decimals in that
interval those with the fewest digits are kept, and of these the one closest to the exact
value. If two are equally close, a `Tie` decides.

For a given number of digits only the two neighbours of the exact value on that grid have
to be tried: if any decimal of the grid lies in the interval, one of them does.
-/

namespace FormulaRules.Number

/-- Which of two equally close decimals to take. -/
inductive Tie
  /-- The one whose last digit is even. -/
  | toEven
  /-- The one farther from zero. -/
  | awayFromZero
deriving Repr, DecidableEq

/-- The quotient of two whole numbers, rounded to the nearest whole number. -/
def roundQuotient (tie : Tie) (numerator denominator : Nat) : Nat :=
  let quotient := numerator / denominator
  let rest := numerator % denominator
  if 2 * rest < denominator then quotient
  else if denominator < 2 * rest then quotient + 1
  else match tie with
    | .awayFromZero => quotient + 1
    | .toEven => quotient + quotient % 2

/-- The digits of a whole number in base ten, without leading zeros. -/
def wholeDigits (n : Nat) : List Char := Nat.toDigits 10 n

/-- The value `0.d₁d₂… · 10 ^ point`, where the digits are neither empty nor all zero. -/
structure Decimal where
  digits : List Char
  point : Int
deriving Repr, DecidableEq

/-- Whether the decimal `n · 10 ^ place` reads back as the double of magnitude `m`.

The ends of the interval count when the significand is even. Below a power of two the
neighbouring double is half as far away as above it. -/
def readsBack (m : Magnitude) (n : Nat) (place : Int) : Bool :=
  let below := if m.significand = Nat.pow 2 52 ∧ -1074 < m.exponent then 1 else 2
  let unit := m.exponent - 2
  let scale (value : Nat) := value * Nat.pow 2 unit.toNat * Nat.pow 10 (-place).toNat
  let candidate := n * Nat.pow 10 place.toNat * Nat.pow 2 (-unit).toNat
  let low := scale (4 * m.significand - below)
  let high := scale (4 * m.significand + 2)
  if m.significand % 2 = 0 then decide (low ≤ candidate) && decide (candidate ≤ high)
  else decide (low < candidate) && decide (candidate < high)

/-- The exact quotient of a magnitude by `10 ^ place`, as numerator and denominator. -/
def overPlace (m : Magnitude) (place : Int) : Nat × Nat :=
  (m.significand * Nat.pow 2 m.exponent.toNat * Nat.pow 10 (-place).toNat,
    Nat.pow 2 (-m.exponent).toNat * Nat.pow 10 place.toNat)

/-- The decimal exponent of the leading digit. No positive double is below `10 ^ -400`. -/
def leadingPlace (m : Magnitude) : Int :=
  let (numerator, denominator) := overPlace m (-400)
  (wholeDigits (numerator / denominator)).length - 401

/-- The decimal on the grid `10 ^ place` that reads back, if there is one. -/
def onGrid? (tie : Tie) (m : Magnitude) (place : Int) : Option Nat :=
  let (numerator, denominator) := overPlace m place
  let lower := numerator / denominator
  match readsBack m lower place, readsBack m (lower + 1) place with
  | true, true => some (roundQuotient tie numerator denominator)
  | true, false => some lower
  | false, true => some (lower + 1)
  | false, false => none

/-- Drop the zeros at the end of a list of digits. -/
def dropTrailingZeros (ds : List Char) : List Char := (ds.reverse.dropWhile (· == '0')).reverse

/-- The decimal `n · 10 ^ place` without zeros at its end. -/
def Decimal.ofScaled (n : Nat) (place : Int) : Decimal :=
  ⟨dropTrailingZeros (wholeDigits n), (wholeDigits n).length + place⟩

/-- The shortest decimal of a positive magnitude. Seventeen digits always suffice. -/
def shortest (tie : Tie) (m : Magnitude) : Decimal :=
  let lead := leadingPlace m
  let grid (count : Nat) : Option Decimal :=
    let place := lead - count
    (onGrid? tie m place).map fun n => Decimal.ofScaled n place
  match (List.range 17).findSome? grid with
  | some decimal => decimal
  | none =>
    let (numerator, denominator) := overPlace m (-1074)
    Decimal.ofScaled (numerator / denominator) (-1074)

end FormulaRules.Number
