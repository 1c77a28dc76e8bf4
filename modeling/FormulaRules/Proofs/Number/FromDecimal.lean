import FormulaRules.Number.Read
import FormulaRules.Proofs.Number.Nearest

/-!
# The double of a decimal

A decimal is read as the double whose interval holds its exact value. There are two ways:
for small numerators and places the quotient of two exact doubles is rounded once, and for
all others the logical model divides whole numbers. Both round the same rational number.
-/

namespace FormulaRules.Number

open Float.Model Float.Model.UnpackedFloat

namespace Magnitude

/-- A magnitude is nearest to its own value. -/
theorem nearest_value (m : Magnitude) : m.Nearest m.value := by
  have hpow : (0 : ℚ) < 2 ^ m.exponent := by positivity
  have hreach : 0 < m.reach := by
    rw [reach]
    split <;> norm_num
  have hlow : (m.significand - m.reach) * 2 ^ m.exponent < m.value :=
    mul_lt_mul_of_pos_right (by linarith) hpow
  have hhigh : m.value < (m.significand + 1 / 2) * 2 ^ m.exponent :=
    mul_lt_mul_of_pos_right (by linarith) hpow
  exact ⟨hlow.le, hhigh.le, fun _ => ⟨hlow, hhigh⟩⟩

/-- What is nearest to a magnitude other than zero is at least half the smallest double. -/
theorem Nearest.pow_le {m : Magnitude} (hm : m.Canonical) (hpos : m.significand ≠ 0) {v : ℚ}
    (hv : m.Nearest v) : 2 ^ (-1075 : Int) ≤ v := by
  have hone : (1 : ℚ) ≤ m.significand := by exact_mod_cast Nat.one_le_iff_ne_zero.mpr hpos
  have hreach := m.reach_le
  calc (2 : ℚ) ^ (-1075 : Int) = 1 / 2 * 2 ^ (-1074 : Int) := by
        rw [show (-1075 : Int) = -1 + -1074 by norm_num, zpow_add₀ two_ne_zero]
        norm_num
    _ ≤ (m.significand - m.reach) * 2 ^ m.exponent :=
        mul_le_mul (by linarith) (zpow_le_zpow_right₀ one_le_two hm.exponent_ge) (by positivity)
          (by linarith)
    _ ≤ v := hv.low

/-- A magnitude other than zero is unpacked as a finite number. -/
theorem unpacked_of_ne_zero {m : Magnitude} (h : m.significand ≠ 0) (s : Sign) :
    m.unpacked s = .finite s m.significand m.exponent (Nat.pos_of_ne_zero h) :=
  dif_neg h

/-- A magnitude that is zero is unpacked as a zero. -/
theorem unpacked_of_eq_zero {m : Magnitude} (h : m.significand = 0) (s : Sign) :
    m.unpacked s = .zero s :=
  dif_pos h

end Magnitude

/-- The quotient of two magnitudes, in units of a smaller place, is that of whole numbers. -/
theorem value_div_value_div_pow (p : Nat) {q : Nat} (hq : q ≠ 0) {e f k : Int} {shift : Nat}
    (hshift : (shift : Int) = e - f - k) :
    (Magnitude.value ⟨p, e⟩ / Magnitude.value ⟨q, f⟩ / 2 ^ k : ℚ) =
      ((p * 2 ^ shift : Nat) : ℚ) / q := by
  have hpow : (2 : ℚ) ^ e = 2 ^ f * 2 ^ k * 2 ^ shift := by
    rw [← zpow_natCast, hshift, ← zpow_add₀ two_ne_zero, ← zpow_add₀ two_ne_zero]
    congr 1
    ring
  have hq' : (q : ℚ) ≠ 0 := by exact_mod_cast hq
  simp only [Magnitude.value, hpow]
  push_cast
  field_simp

/-- A dividend that is shifted far enough fills the mantissa of the quotient. -/
theorem pow_le_shifted_div {p q shift : Nat} (hp : p ≠ 0) (hq : 0 < q)
    (hbits : 52 + (q.log2 + 1) ≤ p.log2 + shift) : 2 ^ 52 ≤ p * 2 ^ shift / q := by
  rw [Nat.le_div_iff_mul_le hq]
  calc 2 ^ 52 * q ≤ 2 ^ 52 * 2 ^ (q.log2 + 1) := Nat.mul_le_mul_left _ Nat.lt_log2_self.le
    _ = 2 ^ (52 + (q.log2 + 1)) := (pow_add 2 52 _).symm
    _ ≤ 2 ^ (p.log2 + shift) := Nat.pow_le_pow_right two_pos hbits
    _ = 2 ^ p.log2 * 2 ^ shift := pow_add 2 _ _
    _ ≤ p * 2 ^ shift := Nat.mul_le_mul_right _ (Nat.log2_self_le hp)

/-- A quotient is rounded to the magnitude that its value is nearest to. -/
theorem div_of_nearest {m a b : Magnitude} (hm : m.Canonical) (ha : a.significand ≠ 0)
    (hb : b.significand ≠ 0) (hv : m.Nearest (a.value / b.value)) (s s' : Sign) :
    UnpackedFloat.div Format.binary64 (a.unpacked s) (b.unpacked s') = m.unpacked (s / s') := by
  obtain ⟨p, e⟩ := a
  obtain ⟨q, f⟩ := b
  dsimp only at ha hb
  have hq : 0 < q := Nat.pos_of_ne_zero hb
  obtain ⟨k, hk⟩ : ∃ k, k = min (e - f) (Format.binary64.targetExponent
    (totalExponent p e - totalExponent q f)) := ⟨_, rfl⟩
  have hle : k ≤ e - f := hk ▸ min_le_left _ _
  have hk' : k ≤ max ((p.log2 + 1 + e) - (q.log2 + 1 + f) - 53) (-1074) := hk ▸ min_le_right _ _
  obtain ⟨shift, hshift⟩ : ∃ shift : Nat, (shift : Int) = e - f - k :=
    ⟨(e - f - k).toNat, Int.toNat_of_nonneg (by omega)⟩
  have hprecise : 2 ^ 52 ≤ p * 2 ^ shift / q ∨ k ≤ -1074 := by
    by_cases hsmall : k ≤ -1074
    · exact .inr hsmall
    · exact .inl (pow_le_shifted_div ha hq (by omega))
  have hdiv : UnpackedFloat.div Format.binary64 (Magnitude.unpacked ⟨p, e⟩ s)
      (Magnitude.unpacked ⟨q, f⟩ s') = roundWithAccuracy Format.binary64 (s / s')
        (p * 2 ^ shift / q) k (accuracyOfFraction (p * 2 ^ shift % q) q) := by
    have hamount : (e - f - k).toNat = shift := by omega
    rw [Magnitude.unpacked_of_ne_zero ha, Magnitude.unpacked_of_ne_zero hb, UnpackedFloat.div,
      divCore, ← hk]
    simp only [hamount, Nat.shiftLeft_eq]
  rw [hdiv]
  refine roundWithAccuracy_of_nearest hm hv _ ?_ hprecise
  rw [value_div_value_div_pow p hb hshift]
  exact Describes.quotient _ hq

/-- A product is rounded to the magnitude that its value is nearest to. -/
theorem mul_of_nearest {m a b : Magnitude} (hm : m.Canonical) (ha : a.significand ≠ 0)
    (hb : b.significand ≠ 0) (hprecise : 2 ^ 52 ≤ a.significand * b.significand)
    (hv : m.Nearest (a.value * b.value)) (s s' : Sign) :
    UnpackedFloat.mul Format.binary64 (a.unpacked s) (b.unpacked s') = m.unpacked (s * s') := by
  rw [Magnitude.unpacked_of_ne_zero ha, Magnitude.unpacked_of_ne_zero hb]
  refine roundWithAccuracy_of_nearest hm hv _ ?_ (.inl hprecise)
  have hvalue : a.value * b.value / 2 ^ (a.exponent + b.exponent) =
      ((a.significand * b.significand : Nat) : ℚ) := by
    rw [Magnitude.value, Magnitude.value, zpow_add₀ two_ne_zero]
    push_cast
    field_simp
  rw [hvalue]
  exact Describes.exact _

/-- A whole number below the 53rd power of two is a double. -/
theorem unpack_toFloat_toUInt64 {n : Nat} (hpos : n ≠ 0) (hlt : n < 2 ^ 53) :
    ∃ a : Magnitude, 2 ^ 52 ≤ a.significand ∧ a.value = n ∧
      n.toUInt64.toFloat.toModel.unpack = a.unpacked .positive := by
  have hlog := (Nat.log2_lt hpos).mpr hlt
  obtain ⟨shift, hshift⟩ : ∃ shift, shift + n.log2 = 52 := ⟨52 - n.log2, by omega⟩
  have hlarge : 2 ^ 52 ≤ n * 2 ^ shift := by
    rw [← hshift, pow_add, mul_comm]
    exact Nat.mul_le_mul_right _ (Nat.log2_self_le hpos)
  have hsmall : n * 2 ^ shift < 2 ^ 53 := by
    rw [show 53 = n.log2 + 1 + shift by omega, pow_add]
    exact Nat.mul_lt_mul_of_pos_right Nat.lt_log2_self (by positivity)
  have hcanonical : Magnitude.Canonical ⟨n * 2 ^ shift, -shift⟩ :=
    ⟨hsmall, by dsimp only; omega, by dsimp only; omega, fun h => absurd h (Nat.not_lt.mpr hlarge)⟩
  have hvalue : Magnitude.value ⟨n * 2 ^ shift, -shift⟩ = n := by
    rw [Magnitude.value, zpow_neg, zpow_natCast]
    push_cast
    field_simp
  have hround : UnpackedFloat.round Format.binary64 .positive n 0 =
      Magnitude.unpacked ⟨n * 2 ^ shift, -shift⟩ .positive := by
    refine round_of_nearest hcanonical .positive hpos ?_
    rw [zpow_zero, mul_one, ← hvalue]
    exact Magnitude.nearest_value _
  refine ⟨_, hlarge, hvalue, ?_⟩
  have hbits : n.toUInt64.toNat = n := UInt64.toNat_ofNat_of_lt (by rw [UInt64.size]; omega)
  change (Float.Model.pack (UnpackedFloat.normalize Format.binary64
    (n.toUInt64.toNat : Int) 0 .positive)).unpack = _
  rw [hbits, UnpackedFloat.normalize, Int.compare_eq_gt.mpr (by omega)]
  simp only [Int.toNat_natCast, hround]
  exact unpack_toFloat hcanonical .positive

/-- A power with a whole exponent is a quotient of two powers with natural exponents. -/
theorem zpow_eq_pow_div_pow (a : ℚ) (k : Int) :
    a ^ k = a ^ k.toNat / a ^ (-k).toNat := by
  rcases le_total 0 k with hnonneg | hnonpos
  · obtain ⟨j, rfl⟩ := Int.eq_ofNat_of_zero_le hnonneg
    simp
  · obtain ⟨j, hj⟩ := Int.eq_ofNat_of_zero_le (neg_nonneg.mpr hnonpos)
    obtain rfl : k = -j := by omega
    simp

/-- The tabulated powers of ten are exact. -/
theorem powerOfTen_exact : ∀ p : Fin 23,
    (Float.exactlyRepresentablePowersOfTen[p]).isFinite = true ∧
      isNegative Float.exactlyRepresentablePowersOfTen[p] = false ∧
      (magnitude Float.exactlyRepresentablePowersOfTen[p]).significand *
          2 ^ (magnitude Float.exactlyRepresentablePowersOfTen[p]).exponent.toNat =
        10 ^ p.val * 2 ^ (-(magnitude Float.exactlyRepresentablePowersOfTen[p]).exponent).toNat := by
  decide +kernel

/-- The tabulated powers of ten are unpacked to their values. -/
theorem unpack_powerOfTen {p : Nat} (hp : p < Float.exactlyRepresentablePowersOfTen.size) :
    ∃ b : Magnitude, b.significand ≠ 0 ∧ b.value = 10 ^ p ∧
      Float.exactlyRepresentablePowersOfTen[p].toModel.unpack = b.unpacked .positive := by
  obtain ⟨hfinite, hsign, hvalue⟩ := powerOfTen_exact ⟨p, hp⟩
  have hunpack := unpack_of_isFinite hfinite
  rw [sign, hsign] at hunpack
  generalize magnitude Float.exactlyRepresentablePowersOfTen[(⟨p, hp⟩ : Fin 23)] = b at hvalue hunpack
  have hcast : (b.significand * 2 ^ b.exponent.toNat : ℚ) = 10 ^ p * 2 ^ (-b.exponent).toNat := by
    exact_mod_cast hvalue
  refine ⟨b, ?_, ?_, hunpack⟩
  · intro hzero
    rw [hzero, Nat.zero_mul] at hvalue
    exact absurd hvalue (by positivity)
  · rw [Magnitude.value, zpow_eq_pow_div_pow, ← mul_div_assoc, hcast]
    field_simp

/-- A decimal that is nearest to a magnitude other than zero has not too small a place. -/
theorem le_place_of_nearest {m : Magnitude} (hm : m.Canonical) (hpos : m.significand ≠ 0) {n : Nat}
    {place : Int} (hplace : place ≤ 0) (hv : m.Nearest (n * 10 ^ place)) :
    n ≠ 0 ∧ -(2 ^ 11 + (n.log2 : Int)) ≤ place := by
  have hpow := Magnitude.Nearest.pow_le hm hpos hv
  have hvalue : (0 : ℚ) < n * 10 ^ place := lt_of_lt_of_le (by positivity) hpow
  have hn : n ≠ 0 := by
    intro heq
    subst heq
    norm_num at hvalue
  refine ⟨hn, ?_⟩
  by_contra hlt
  obtain ⟨p, hp⟩ := Int.eq_ofNat_of_zero_le (neg_nonneg.mpr hplace)
  obtain rfl : place = -p := by omega
  have hsmall : (n * 10 ^ (-p : Int) : ℚ) < 2 ^ (-1075 : Int) := by
    have hbound : (n : ℚ) < 2 ^ (n.log2 + 1) := by exact_mod_cast Nat.lt_log2_self
    have hten : ((10 : ℚ) ^ p)⁻¹ ≤ (2 ^ p)⁻¹ := by
      gcongr
      norm_num
    calc (n * 10 ^ (-p : Int) : ℚ) = n * (10 ^ p)⁻¹ := by rw [zpow_neg, zpow_natCast]
      _ ≤ n * (2 ^ p)⁻¹ := by gcongr
      _ < 2 ^ (n.log2 + 1) * (2 ^ p)⁻¹ := by gcongr
      _ = 2 ^ ((n.log2 : Int) + 1 - p) := by
          rw [zpow_sub₀ two_ne_zero, zpow_natCast, div_eq_mul_inv]
          norm_cast
      _ ≤ 2 ^ (-1075 : Int) := zpow_le_zpow_right₀ one_le_two (by omega)
  exact absurd hpow (not_le.mpr hsmall)

/-- A small decimal is read as the double nearest to it: numerator and power of ten are doubles, and
their quotient or product is rounded once. -/
theorem ofScientific_small {m : Magnitude} (hm : m.Canonical) {n : Nat} {place : Int}
    (hplace : place ≤ 0) (hv : m.Nearest (n * 10 ^ place)) (hn : n ≠ 0) (hlt : n < 2 ^ 53)
    (hp : place.natAbs < Float.exactlyRepresentablePowersOfTen.size) :
    (if decide (place < 0) = true
      then n.toUInt64.toFloat / Float.exactlyRepresentablePowersOfTen[place.natAbs]
      else n.toUInt64.toFloat * Float.exactlyRepresentablePowersOfTen[place.natAbs]) =
        m.toFloat .positive := by
  obtain ⟨a, ha, hvalue, hunpack⟩ := unpack_toFloat_toUInt64 hn hlt
  obtain ⟨b, hb, hvalue', hunpack'⟩ := unpack_powerOfTen hp
  have ha' : a.significand ≠ 0 := by omega
  by_cases hneg : place < 0
  · have hquotient : (n * 10 ^ place : ℚ) = a.value / b.value := by
      obtain ⟨p, hp⟩ := Int.eq_ofNat_of_zero_le (neg_nonneg.mpr hplace)
      obtain rfl : place = -p := by omega
      rw [hvalue, hvalue', zpow_neg, zpow_natCast, Int.natAbs_neg, Int.natAbs_natCast,
        div_eq_mul_inv]
    rw [hquotient] at hv
    have hdiv := div_of_nearest hm ha' hb hv .positive .positive
    rw [← hunpack, ← hunpack'] at hdiv
    rw [if_pos (decide_eq_true hneg)]
    exact congrArg (fun u => Float.ofModel (.pack u)) hdiv
  · obtain rfl : place = 0 := by omega
    have hproduct : (n * 10 ^ (0 : Int) : ℚ) = a.value * b.value := by
      rw [hvalue, hvalue']
      norm_num
    rw [hproduct] at hv
    have hprecise : 2 ^ 52 ≤ a.significand * b.significand :=
      ha.trans (Nat.le_mul_of_pos_right _ (Nat.pos_of_ne_zero hb))
    have hmul := mul_of_nearest hm ha' hb hprecise hv .positive .positive
    rw [← hunpack, ← hunpack'] at hmul
    rw [if_neg (by decide)]
    exact congrArg (fun u => Float.ofModel (.pack u)) hmul

/-- Any decimal without places before the point is read as the double nearest to it by the logical
model. -/
theorem ofScientific_large {m : Magnitude} (hm : m.Canonical) (hpos : m.significand ≠ 0) {n : Nat}
    {place : Int} (hplace : place ≤ 0) (hv : m.Nearest (n * 10 ^ place)) :
    UnpackedFloat.ofScientific Format.binary64 n place = m.unpacked .positive := by
  obtain ⟨hn, hsafe⟩ := le_place_of_nearest hm hpos hplace hv
  have hbits : (2 : Int) ^ Format.binary64.exponentBits = 2 ^ 11 := rfl
  rw [UnpackedFloat.ofScientific, dif_neg hn, if_neg (by omega), if_neg (by omega)]
  by_cases hzero : place = 0
  · subst hzero
    have ha : (⟨n <<< 53, -53⟩ : Magnitude).significand ≠ 0 := by
      simpa [Nat.shiftLeft_eq] using hn
    have hb : (⟨10 ^ (0 : Int).toNat, 0⟩ : Magnitude).significand ≠ 0 := by norm_num
    have hprecise : 2 ^ 52 ≤ (⟨n <<< 53, -53⟩ : Magnitude).significand *
        (⟨10 ^ (0 : Int).toNat, 0⟩ : Magnitude).significand := by
      simp only [Nat.shiftLeft_eq, Int.toNat_zero, pow_zero, mul_one]
      omega
    have hproduct : (n * 10 ^ (0 : Int) : ℚ) = Magnitude.value ⟨n <<< 53, -53⟩ *
        Magnitude.value ⟨10 ^ (0 : Int).toNat, 0⟩ := by
      have hshift : ((n <<< 53 : Nat) : ℚ) = n * 2 ^ (53 : Int) := by
        rw [Nat.shiftLeft_eq]
        push_cast
        rfl
      simp only [Magnitude.value, hshift, mul_assoc, ← zpow_add₀ (two_ne_zero (α := ℚ))]
      norm_num
    rw [hproduct] at hv
    have hmul := mul_of_nearest hm ha hb hprecise hv .positive .positive
    rw [Magnitude.unpacked_of_ne_zero ha, Magnitude.unpacked_of_ne_zero hb] at hmul
    rw [if_pos (le_refl 0)]
    exact hmul
  · have ha : (⟨n, 0⟩ : Magnitude).significand ≠ 0 := hn
    have hb : (⟨10 ^ (-place).toNat, 0⟩ : Magnitude).significand ≠ 0 := by positivity
    have hquotient : (n * 10 ^ place : ℚ) = Magnitude.value ⟨n, 0⟩ /
        Magnitude.value ⟨10 ^ (-place).toNat, 0⟩ := by
      have hwhole : place.toNat = 0 := by omega
      rw [zpow_eq_pow_div_pow, hwhole]
      simp only [Magnitude.value]
      push_cast
      norm_num
      rw [div_eq_mul_inv]
    rw [hquotient] at hv
    have hdiv := div_of_nearest hm ha hb hv .positive .positive
    rw [Magnitude.unpacked_of_ne_zero ha, Magnitude.unpacked_of_ne_zero hb] at hdiv
    rw [if_neg (by omega)]
    exact hdiv

/-- A decimal without places before the point is read as the double nearest to it. -/
theorem ofDecimal_of_nearest {m : Magnitude} (hm : m.Canonical) (hpos : m.significand ≠ 0) {n : Nat}
    {place : Int} (hplace : place ≤ 0) (hv : m.Nearest (n * 10 ^ place)) :
    ofDecimal n place = m.toFloat .positive := by
  rw [ofDecimal, Float.ofScientific]
  split
  · next h =>
    exact ofScientific_small hm hplace hv (le_place_of_nearest hm hpos hplace hv).1 h.1
      (Nat.lt_succ_of_le h.2)
  · have hplace' : (if decide (place < 0) = true then Int.negOfNat place.natAbs
        else Int.ofNat place.natAbs) = place := by
      by_cases hneg : place < 0
      · rw [if_pos (decide_eq_true hneg), Int.negOfNat_eq, Int.ofNat_eq_natCast]
        omega
      · rw [if_neg (by simpa using hneg), Int.ofNat_eq_natCast]
        omega
    dsimp only
    rw [hplace', Float.Model.ofScientific, ofScientific_large hm hpos hplace hv]
    rfl

end FormulaRules.Number
