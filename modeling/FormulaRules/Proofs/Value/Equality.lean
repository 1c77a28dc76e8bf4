import FormulaRules.Coercion
import FormulaRules.Number.Shortest
import FormulaRules.Proofs.Number.Difference
import FormulaRules.Proofs.Number.Signs

/-!
# Numbers that count as equal

Two numbers count as equal if their difference is at most one unit of relative precision of the
larger one. All of this is computed with doubles: the difference is rounded, and so is the product.
Main statement: for finite numbers this is a comparison of whole numbers. The rounding of the
difference never matters, not even where it overflows; the rounding of the product matters for the
smallest doubles only, where the tolerance is no whole number of units.
-/

namespace FormulaRules.Number

open Float.Model Float.Model.UnpackedFloat

/-- How many units two finite doubles are apart. -/
def distance (x y : Float) : Nat := (units x - units y).natAbs

/-- How many units two finite doubles may be apart to count as equal: one unit of relative precision
of the larger one, rounded to the nearest whole number and to an even one at a tie. -/
def tolerance (x y : Float) : Nat :=
  roundQuotient .toEven (max (units x).natAbs (units y).natAbs) (2 ^ 52)

/-- A quotient is rounded by at most a half, and by less than a half to an odd number. -/
theorem roundQuotient_toEven_bounds (n : Nat) {d : Nat} (hd : 0 < d) :
    2 * (roundQuotient .toEven n d * d) ≤ 2 * n + d ∧
      2 * n ≤ 2 * (roundQuotient .toEven n d * d) + d ∧
      (roundQuotient .toEven n d % 2 = 1 →
        2 * (roundQuotient .toEven n d * d) < 2 * n + d ∧
          2 * n < 2 * (roundQuotient .toEven n d * d) + d) := by
  have hdivide := Nat.div_add_mod' n d
  have hrest := Nat.mod_lt n hd
  have hnext := Nat.add_one_mul (n / d) d
  rw [roundQuotient.eq_def]
  dsimp only
  split
  · omega
  · split
    · omega
    · rcases Nat.mod_two_eq_zero_or_one (n / d) with hbit | hbit
      · rw [hbit, Nat.add_zero]
        omega
      · rw [hbit]
        omega

/-- A quotient without a rest is not rounded. -/
theorem roundQuotient_mul (tie : Tie) (n : Nat) {d : Nat} (hd : 0 < d) :
    roundQuotient tie (n * d) d = n := by
  rw [roundQuotient.eq_def]
  simp only [Nat.mul_div_cancel n hd, Nat.mul_mod_left, Nat.mul_zero, if_pos hd]

/-- The relative precision is a power of two. -/
theorem precision_eq : precision = Magnitude.toFloat ⟨2 ^ 52, -104⟩ .positive := by
  have hmagnitude : magnitude precision = ⟨2 ^ 52, -104⟩ := by decide +kernel
  have hsign : sign precision = .positive := isNegative_eq_false_iff.mp (by decide +kernel)
  rw [← hmagnitude, ← hsign, toFloat_magnitude (by decide +kernel)]

variable {m : Magnitude}

/-- A whole number of units is nearest to a quotient that is rounded to it. -/
theorem nearest_roundQuotient (n : Nat) :
    (⟨roundQuotient .toEven n (2 ^ 52), -1074⟩ : Magnitude).Nearest
      (n / 2 ^ 52 * 2 ^ (-1074 : Int)) := by
  obtain ⟨hhigh, hlow, hodd⟩ := roundQuotient_toEven_bounds n (d := 2 ^ 52) (by positivity)
  generalize roundQuotient .toEven n (2 ^ 52) = q at hhigh hlow hodd ⊢
  have hpow : (0 : ℚ) < 2 ^ (-1074 : Int) := by positivity
  have hunit : (0 : ℚ) < 2 ^ 52 := by positivity
  have hreach : (⟨q, -1074⟩ : Magnitude).reach = 1 / 2 := if_neg (by simp)
  have hhigh' : (2 * (q * 2 ^ 52) : ℚ) ≤ 2 * n + 2 ^ 52 := by exact_mod_cast hhigh
  have hlow' : (2 * n : ℚ) ≤ 2 * (q * 2 ^ 52) + 2 ^ 52 := by exact_mod_cast hlow
  refine ⟨?_, ?_, fun h => ?_⟩
  · rw [hreach]
    refine mul_le_mul_of_nonneg_right ((le_div_iff₀ hunit).mpr ?_) hpow.le
    linarith
  · refine mul_le_mul_of_nonneg_right ((div_le_iff₀ hunit).mpr ?_) hpow.le
    linarith
  · obtain ⟨hhigh, hlow⟩ := hodd h
    have hhigh' : (2 * (q * 2 ^ 52) : ℚ) < 2 * n + 2 ^ 52 := by exact_mod_cast hhigh
    have hlow' : (2 * n : ℚ) < 2 * (q * 2 ^ 52) + 2 ^ 52 := by exact_mod_cast hlow
    rw [hreach]
    refine ⟨mul_lt_mul_of_pos_right ((lt_div_iff₀ hunit).mpr ?_) hpow,
      mul_lt_mul_of_pos_right ((div_lt_iff₀ hunit).mpr ?_) hpow⟩
    · linarith
    · linarith

/-- One unit of relative precision of a magnitude is its units divided by `2 ^ 52`, rounded to a
whole number of units. -/
theorem precision_mul (hm : m.Canonical) :
    ∃ d : Magnitude, d.Canonical ∧ d.units = roundQuotient .toEven m.units (2 ^ 52) ∧
      precision * m.toFloat .positive = d.toFloat .positive := by
  have hprecision : Magnitude.Canonical ⟨2 ^ 52, -104⟩ :=
    ⟨by norm_num, by norm_num, by norm_num, fun h => absurd h (by norm_num)⟩
  have hproduct : precision * m.toFloat .positive = .ofModel (.pack (UnpackedFloat.mul
      Format.binary64 (Magnitude.unpacked ⟨2 ^ 52, -104⟩ .positive) (m.unpacked .positive))) := by
    rw [precision_eq, ← unpack_toFloat hprecision, ← unpack_toFloat hm]
    rfl
  by_cases hzero : m.significand = 0
  · refine ⟨⟨0, -1074⟩, ⟨by norm_num, le_refl _, by norm_num, fun _ => rfl⟩, ?_, ?_⟩
    · rw [Magnitude.units_eq_zero_iff.mpr hzero]
      decide +kernel
    · rw [hproduct, Magnitude.unpacked_of_eq_zero hzero]
      rfl
  have hvalue : (⟨2 ^ 52, -104⟩ : Magnitude).value * m.value =
      m.units / 2 ^ 52 * 2 ^ (-1074 : Int) := by
    have hone : (⟨2 ^ 52, -104⟩ : Magnitude).value = 1 / 2 ^ 52 := by norm_num [Magnitude.value]
    rw [hone, m.value_eq_units hm.exponent_ge, ← mul_assoc, one_div_mul_eq_div]
  have hmul {d : Magnitude} (hd : d.Canonical)
      (hv : d.Nearest (m.units / 2 ^ 52 * 2 ^ (-1074 : Int))) :
      precision * m.toFloat .positive = d.toFloat .positive := by
    rw [← hvalue] at hv
    rw [hproduct, mul_of_nearest hd (by norm_num) hzero
      (Nat.le_mul_of_pos_right _ (Nat.pos_of_ne_zero hzero)) hv]
    rfl
  by_cases hlarge : -1022 ≤ m.exponent
  · have hnormal : 2 ^ 52 ≤ m.significand := by
      by_contra hlt
      have hsmallest := hm.exponent_eq (not_le.mp hlt)
      omega
    have hd : Magnitude.Canonical ⟨m.significand, m.exponent - 52⟩ :=
      ⟨hm.significand_lt, by dsimp only; omega, by have := hm.exponent_le; dsimp only; omega,
        fun h => absurd h (Nat.not_lt.mpr hnormal)⟩
    have hunits : m.units = Magnitude.units ⟨m.significand, m.exponent - 52⟩ * 2 ^ 52 := by
      rw [Magnitude.units, Magnitude.units, mul_assoc, ← pow_add]
      congr 2
      dsimp only
      omega
    refine ⟨_, hd, ?_, hmul hd ?_⟩
    · rw [hunits, roundQuotient_mul _ _ (by positivity)]
    · rw [hunits, Nat.cast_mul, Nat.cast_pow, Nat.cast_ofNat, mul_div_cancel_right₀ _ (by positivity),
        ← Magnitude.value_eq_units hd.exponent_ge]
      exact Magnitude.nearest_value _
  · have hsmall : m.units < 2 ^ 53 * 2 ^ 51 := by
      calc m.units < 2 ^ 53 * 2 ^ (m.exponent + 1074).toNat :=
            Nat.mul_lt_mul_of_pos_right hm.significand_lt (by positivity)
        _ ≤ 2 ^ 53 * 2 ^ 51 := Nat.mul_le_mul_left _ (Nat.pow_le_pow_right two_pos (by omega))
    have hbound := (roundQuotient_toEven_bounds m.units (d := 2 ^ 52) (by positivity)).1
    have hd : Magnitude.Canonical ⟨roundQuotient .toEven m.units (2 ^ 52), -1074⟩ :=
      ⟨by dsimp only; omega, le_refl _, by norm_num, fun _ => rfl⟩
    exact ⟨_, hd, by simp [Magnitude.units], hmul hd (nearest_roundQuotient m.units)⟩

/-- The larger absolute value of two finite doubles is the double of a canonical magnitude. -/
theorem exists_larger {x y : Float} (hx : x.isFinite = true) (hy : y.isFinite = true) :
    ∃ m : Magnitude, m.Canonical ∧ m.units = max (units x).natAbs (units y).natAbs ∧
      (if x.abs < y.abs then y.abs else x.abs) = m.toFloat .positive := by
  have hcx := canonical_of_isFinite hx
  have hcy := canonical_of_isFinite hy
  have hlt : x.abs < y.abs ↔ (magnitude x).units < (magnitude y).units := by
    rw [abs_of_isFinite hx, abs_of_isFinite hy, lt_iff_units (isFinite_toFloat hcx _)
      (isFinite_toFloat hcy _), units_toFloat hcx, units_toFloat hcy]
    exact Int.ofNat_lt
  rw [natAbs_units, natAbs_units]
  split
  · next h => exact ⟨_, hcy, (max_eq_right (hlt.mp h).le).symm, abs_of_isFinite hy⟩
  · next h => exact ⟨_, hcx, (max_eq_left (not_lt.mp (mt hlt.mpr h))).symm, abs_of_isFinite hx⟩

/-- Finite numbers count as equal exactly if their distance is at most the tolerance. -/
theorem equals_iff {x y : Float} (hx : x.isFinite = true) (hy : y.isFinite = true) :
    (Value.number x).equals (.number y) = true ↔ distance x y ≤ tolerance x y := by
  obtain ⟨m, hm, hmax, hlarger⟩ := exists_larger hx hy
  obtain ⟨e, he, htolerance, hproduct⟩ := precision_mul hm
  obtain ⟨u, d, hsub, hd⟩ := sub_unpacked (canonical_of_isFinite hx) (canonical_of_isFinite hy)
    (sign x) (sign y) (n := distance x y) rfl
  have hdifference : x - y = d.toFloat u := by
    rw [← unpack_of_isFinite hx, ← unpack_of_isFinite hy] at hsub
    exact congrArg (fun u => Float.ofModel (.pack u)) hsub
  have hequals : (Value.number x).equals (.number y) =
      decide ((x - y).abs ≤ precision * if x.abs < y.abs then y.abs else x.abs) := rfl
  rw [hequals, decide_eq_true_iff, hlarger, hproduct, hdifference, tolerance, ← hmax, ← htolerance]
  have hcompare (hc : d.Canonical) : (d.toFloat u).abs ≤ e.toFloat .positive ↔ d.units ≤ e.units := by
    rw [abs_of_isFinite (isFinite_toFloat hc _), magnitude_toFloat hc,
      le_iff_units (isFinite_toFloat hc _) (isFinite_toFloat he _), units_toFloat hc,
      units_toFloat he]
    exact Int.ofNat_le
  rcases hd with ⟨hc, hunits⟩ | ⟨hlow, hhigh, hge, hhalf, hlarge, hbound⟩
  · rw [hcompare hc, hunits]
  · -- Half of the distance is already more than the tolerance.
    have hfar : e.units < d.units ∧ e.units < distance x y := by
      have htwice := (roundQuotient_toEven_bounds m.units (d := 2 ^ 52) (by positivity)).1
      rw [← natAbs_units, ← natAbs_units, ← hmax] at hbound
      omega
    refine iff_of_false ?_ (not_le.mpr hfar.2)
    by_cases hfits : d.exponent ≤ 971
    · rw [hcompare ⟨hhigh, hge, hfits, fun h => absurd h (Nat.not_lt.mpr hlow)⟩]
      exact not_le.mpr hfar.1
    · rw [toFloat_of_large (by omega) (not_le.mp hfits)]
      exact not_infinity_le (isFinite_toFloat he _) u

end FormulaRules.Number
