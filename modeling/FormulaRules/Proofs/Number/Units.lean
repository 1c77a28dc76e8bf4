import FormulaRules.Proofs.Number.Double

/-!
# Finite doubles as whole numbers

The smallest positive double divides every finite double, so a finite double is a whole number of
these units. Main statement: finite doubles are ordered as their units are, and they are the same
number if their units are the same.
-/

namespace FormulaRules.Number

open Float.Model Float.Model.UnpackedFloat

/-- The number of units in a magnitude. -/
def Magnitude.units (m : Magnitude) : Nat := m.significand * 2 ^ (m.exponent + 1074).toNat

/-- The number of units in a finite double. -/
def units (x : Float) : Int := (sign x).apply (magnitude x).units

namespace Magnitude

variable {a b : Magnitude}

/-- Only zero has no units. -/
theorem units_eq_zero_iff : a.units = 0 ↔ a.significand = 0 := by
  rw [units, Nat.mul_eq_zero, or_iff_left (by positivity)]

/-- A canonical magnitude of a larger exponent has more units. -/
theorem Canonical.units_lt (ha : a.Canonical) (hb : b.Canonical)
    (hexponent : a.exponent < b.exponent) : a.units < b.units := by
  have hge := ha.exponent_ge
  have hnormal : 2 ^ 52 ≤ b.significand := by
    by_contra hlt
    have hsmallest := hb.exponent_eq (not_le.mp hlt)
    omega
  calc a.units < 2 ^ 53 * 2 ^ (a.exponent + 1074).toNat :=
        Nat.mul_lt_mul_of_pos_right ha.significand_lt (by positivity)
    _ = 2 ^ 52 * 2 ^ ((a.exponent + 1074).toNat + 1) := by rw [pow_succ]; ring
    _ ≤ 2 ^ 52 * 2 ^ (b.exponent + 1074).toNat :=
        Nat.mul_le_mul_left _ (Nat.pow_le_pow_right two_pos (by omega))
    _ ≤ b.units := Nat.mul_le_mul_right _ hnormal

/-- Canonical magnitudes are ordered by their exponents first and then by their significands. -/
theorem Canonical.compare_units (ha : a.Canonical) (hb : b.Canonical) :
    compare a.units b.units =
      (compare a.exponent b.exponent).then (compare a.significand b.significand) := by
  rcases lt_trichotomy a.exponent b.exponent with hlt | heq | hgt
  · rw [Int.compare_eq_lt.mpr hlt, Nat.compare_eq_lt.mpr (ha.units_lt hb hlt)]
    rfl
  · rw [Int.compare_eq_eq.mpr heq, units, units, heq]
    have hpow : 0 < 2 ^ (b.exponent + 1074).toNat := by positivity
    rcases lt_trichotomy a.significand b.significand with hlt | hsame | hgt
    · rw [Nat.compare_eq_lt.mpr hlt, Nat.compare_eq_lt.mpr (Nat.mul_lt_mul_of_pos_right hlt hpow)]
      rfl
    · rw [Nat.compare_eq_eq.mpr hsame, Nat.compare_eq_eq.mpr (by rw [hsame])]
      rfl
    · rw [Nat.compare_eq_gt.mpr hgt, Nat.compare_eq_gt.mpr (Nat.mul_lt_mul_of_pos_right hgt hpow)]
      rfl
  · rw [Int.compare_eq_gt.mpr hgt, Nat.compare_eq_gt.mpr (hb.units_lt ha hgt)]
    rfl

/-- Natural numbers compare alike as whole numbers. -/
theorem compare_natCast (m n : Nat) : compare (m : Int) n = compare m n := by
  rw [← cmp_eq_compare, ← cmp_eq_compare]
  exact Nat.strictMono_cast.cmp_map_eq m n

/-- A minus turns a comparison around. -/
theorem compare_neg (m n : Int) : compare (-m) (-n) = (compare m n).swap := by
  have hneg : StrictAnti fun n : Int => -n := fun _ _ => neg_lt_neg
  rw [Int.compare_swap, ← cmp_eq_compare, ← cmp_eq_compare]
  exact hneg.cmp_map_eq m n

/-- Canonical magnitudes with signs compare as their units do. -/
theorem Canonical.compare_unpacked (ha : a.Canonical) (hb : b.Canonical) (s t : Sign) :
    (a.unpacked s).compare (b.unpacked t) =
      some (compare (s.apply a.units) (t.apply b.units)) := by
  have hcompare := (compare_natCast a.units b.units).trans (ha.compare_units hb)
  have hza := a.units_eq_zero_iff
  have hzb := b.units_eq_zero_iff
  rw [unpacked, unpacked]
  split
  · next ha0 =>
    rw [hza.mpr ha0]
    split
    · next hb0 =>
      rw [hzb.mpr hb0]
      cases s <;> cases t <;> rfl
    · next hb0 =>
      have hub := mt hzb.mp hb0
      cases t with
      | positive =>
        rw [Int.compare_eq_lt.mpr (by cases s <;> simp only [Sign.apply] <;> omega)]
        rfl
      | negative =>
        rw [Int.compare_eq_gt.mpr (by cases s <;> simp only [Sign.apply] <;> omega)]
        rfl
  · next ha0 =>
    have hua := mt hza.mp ha0
    -- The signs decide, unless they are the same and the other number is not zero.
    have hpositive {n : Int} (hn : n ≤ 0) : compare (Sign.positive.apply a.units) n = .gt :=
      Int.compare_eq_gt.mpr (by simp only [Sign.apply]; omega)
    have hnegative {n : Int} (hn : 0 ≤ n) : compare (Sign.negative.apply a.units) n = .lt :=
      Int.compare_eq_lt.mpr (by simp only [Sign.apply]; omega)
    split
    · next hb0 =>
      rw [hzb.mpr hb0]
      cases s with
      | positive =>
        rw [hpositive (by cases t <;> decide)]
        rfl
      | negative =>
        rw [hnegative (by cases t <;> decide)]
        rfl
    · next hb0 =>
      cases s with
      | positive =>
        cases t with
        | positive => exact congrArg some hcompare.symm
        | negative =>
          rw [hpositive (by simp only [Sign.apply]; omega)]
          rfl
      | negative =>
        cases t with
        | positive =>
          rw [hnegative (by simp only [Sign.apply]; omega)]
          rfl
        | negative =>
          simp only [Sign.apply, compare_neg, hcompare]
          rfl

end Magnitude

/-- The double of a canonical magnitude has its units. -/
theorem units_toFloat {m : Magnitude} (hm : m.Canonical) (s : Sign) :
    units (m.toFloat s) = s.apply m.units := by
  rw [units, sign_toFloat hm, magnitude_toFloat hm]

variable {x y : Float}

/-- The units of a double are those of its magnitude, with its sign. -/
theorem natAbs_units (x : Float) : (units x).natAbs = (magnitude x).units := by
  rw [units]
  cases sign x with
  | positive => exact Int.natAbs_natCast _
  | negative => exact (Int.natAbs_neg _).trans (Int.natAbs_natCast _)

/-- The absolute value of a finite double is its magnitude without a minus. -/
theorem abs_of_isFinite (hx : x.isFinite = true) : x.abs = (magnitude x).toFloat .positive := by
  have habs : x.abs = .ofModel (.pack x.toModel.unpack.abs) := rfl
  have hunpacked (m : Magnitude) (s : Sign) : (m.unpacked s).abs = m.unpacked .positive := by
    rw [Magnitude.unpacked, Magnitude.unpacked]
    split <;> rfl
  rw [habs, unpack_of_isFinite hx, hunpacked]
  rfl

/-- Finite doubles compare as their units do. -/
theorem compare_of_isFinite (hx : x.isFinite = true) (hy : y.isFinite = true) :
    x.toModel.unpack.compare y.toModel.unpack = some (compare (units x) (units y)) := by
  rw [unpack_of_isFinite hx, unpack_of_isFinite hy]
  exact (canonical_of_isFinite hx).compare_unpacked (canonical_of_isFinite hy) _ _

/-- A finite double is below another if its units are. -/
theorem lt_iff_units (hx : x.isFinite = true) (hy : y.isFinite = true) :
    x < y ↔ units x < units y := by
  have hmodel : x < y ↔ (x.toModel.unpack.compare y.toModel.unpack == some .lt) = true :=
    decide_eq_true_iff
  rw [hmodel, compare_of_isFinite hx hy, beq_iff_eq, Option.some.injEq, Int.compare_eq_lt]

/-- A finite double is at most another if its units are. -/
theorem le_iff_units (hx : x.isFinite = true) (hy : y.isFinite = true) :
    x ≤ y ↔ units x ≤ units y := by
  have hmodel : x ≤ y ↔ (x.toModel.unpack.compare y.toModel.unpack).any (·.isLE) = true :=
    decide_eq_true_iff
  rw [hmodel, compare_of_isFinite hx hy]
  exact Int.isLE_compare

/-- Finite doubles are the same number if their units are the same. -/
theorem beq_iff_units (hx : x.isFinite = true) (hy : y.isFinite = true) :
    (x == y) = true ↔ units x = units y := by
  change (x.toModel.unpack.compare y.toModel.unpack == some .eq) = true ↔ _
  rw [compare_of_isFinite hx hy, beq_iff_eq, Option.some.injEq, Int.compare_eq_eq]

end FormulaRules.Number
