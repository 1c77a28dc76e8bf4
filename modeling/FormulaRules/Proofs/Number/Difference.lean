import FormulaRules.Proofs.Number.FromDecimal
import FormulaRules.Proofs.Number.Units

/-!
# Differences of doubles

A difference is taken in units of the smaller place of its operands. If it fits into 53 bits, it is
a double and not rounded. If not, it is larger than the operand of the smaller place, so neither
operand is as much as twice as large, and rounding leaves more than half of it or gives an infinity.
Main statement: one of the two is the case. To what a large difference is rounded is left open.
-/

namespace FormulaRules.Number

open Float.Model Float.Model.UnpackedFloat

/-- The value of a magnitude is its units times the smallest double. -/
theorem Magnitude.value_eq_units {m : Magnitude} (hge : -1074 ≤ m.exponent) :
    m.value = m.units * 2 ^ (-1074 : Int) := by
  have hpow : (2 : ℚ) ^ m.exponent = 2 ^ (m.exponent + 1074).toNat * 2 ^ (-1074 : Int) := by
    rw [← zpow_natCast, ← zpow_add₀ two_ne_zero]
    congr 1
    omega
  rw [value, units, hpow, Nat.cast_mul, Nat.cast_pow, Nat.cast_ofNat, mul_assoc]

/-- Less than `2 ^ 53` units of a place of doubles are a canonical magnitude. -/
theorem exists_canonical {n k : Nat} (hn : n < 2 ^ 53) (hk : k ≤ 2045) :
    ∃ d : Magnitude, d.Canonical ∧ d.units = n * 2 ^ k := by
  by_cases hsmall : n * 2 ^ k < 2 ^ 53
  · refine ⟨⟨n * 2 ^ k, -1074⟩, ⟨hsmall, le_refl _, by norm_num, fun _ => rfl⟩, ?_⟩
    simp [Magnitude.units]
  · have hne : n ≠ 0 := by
      rintro rfl
      simp at hsmall
    have hlog := (Nat.log2_lt hne).mpr hn
    have hplace : 53 ≤ n.log2 + k := by
      by_contra hlt
      refine hsmall (lt_of_lt_of_le (Nat.mul_lt_mul_of_pos_right Nat.lt_log2_self (by positivity)) ?_)
      rw [← pow_add]
      exact Nat.pow_le_pow_right two_pos (by omega)
    obtain ⟨shift, hshift⟩ : ∃ shift, shift + n.log2 = 52 := ⟨52 - n.log2, by omega⟩
    have hlow : 2 ^ 52 ≤ n * 2 ^ shift := by
      rw [← hshift, pow_add, mul_comm]
      exact Nat.mul_le_mul_right _ (Nat.log2_self_le hne)
    have hhigh : n * 2 ^ shift < 2 ^ 53 := by
      rw [show 53 = n.log2 + 1 + shift by omega, pow_add]
      exact Nat.mul_lt_mul_of_pos_right Nat.lt_log2_self (by positivity)
    refine ⟨⟨n * 2 ^ shift, (k : Int) - shift - 1074⟩, ⟨hhigh, ?_, ?_, fun hlt => ?_⟩, ?_⟩
    · dsimp only
      omega
    · dsimp only
      omega
    · exact absurd hlt (Nat.not_lt.mpr hlow)
    · rw [Magnitude.units, Nat.mul_assoc, ← pow_add]
      congr 2
      dsimp only
      omega

/-- A whole number is normalized by rounding its absolute value. -/
theorem normalize_of_ne_zero {n : Int} (hn : n ≠ 0) (exponent : Int) (zeroSign : Sign) :
    ∃ s, UnpackedFloat.normalize Format.binary64 n exponent zeroSign =
      UnpackedFloat.round Format.binary64 s n.natAbs exponent := by
  rcases lt_or_gt_of_ne hn with hneg | hpos
  · refine ⟨.negative, ?_⟩
    have habs : (-n).toNat = n.natAbs := by omega
    rw [UnpackedFloat.normalize, Int.compare_eq_lt.mpr hneg, ← habs]
  · refine ⟨.positive, ?_⟩
    have habs : n.toNat = n.natAbs := by omega
    rw [UnpackedFloat.normalize, Int.compare_eq_gt.mpr hpos, ← habs]

/-- A mantissa is rounded to itself or to the next whole number. -/
theorem Describes.roundedMantissa_bounds {em : ExtendedMantissa} {v : ℚ} (h : Describes em v) :
    em.mantissa ≤ em.roundedMantissa ∧ em.roundedMantissa ≤ em.mantissa + 1 := by
  obtain ⟨f, -, -, -, hrounded⟩ := h.exists_roundedMantissa_eq
  rw [hrounded]
  split_ifs <;> omega

/-- The first 53 bits of a large mantissa are left when the others are shifted out. -/
theorem Describes.mantissa_of_log {mantissa shift : Nat} (hne : mantissa ≠ 0)
    (hlog : mantissa.log2 = 52 + shift) {em : ExtendedMantissa}
    (h : Describes em (mantissa / 2 ^ shift)) : 2 ^ 52 ≤ em.mantissa ∧ em.mantissa < 2 ^ 53 := by
  have hpow : (0 : ℚ) < 2 ^ shift := by positivity
  obtain ⟨hfloor, hceil⟩ := h.floor
  rw [le_div_iff₀ hpow] at hfloor
  rw [div_lt_iff₀ hpow] at hceil
  have hlow : 2 ^ 52 * 2 ^ shift ≤ mantissa := by
    rw [← pow_add, ← hlog]
    exact Nat.log2_self_le hne
  have hhigh : mantissa < 2 ^ 53 * 2 ^ shift := by
    rw [← pow_add, show 53 + shift = mantissa.log2 + 1 by omega]
    exact Nat.lt_log2_self
  constructor
  · refine Nat.le_of_lt_succ (Nat.lt_of_mul_lt_mul_right (hlow.trans_lt ?_))
    exact_mod_cast hceil
  · refine Nat.lt_of_mul_lt_mul_right (lt_of_le_of_lt ?_ hhigh)
    exact_mod_cast hfloor

/-- What is left of a large mantissa after rounding has all 53 bits, and is more than half of it. -/
theorem round_of_large {mantissa : Nat} (hlarge : 2 ^ 53 ≤ mantissa) {exponent : Int}
    (hge : -1074 ≤ exponent) (s : Sign) :
    ∃ significand shift : Nat, UnpackedFloat.round Format.binary64 s mantissa exponent =
        Magnitude.unpacked ⟨significand, exponent + shift⟩ s ∧
      2 ^ 52 ≤ significand ∧ significand < 2 ^ 53 ∧ mantissa < 2 * (significand * 2 ^ shift) := by
  have hne : mantissa ≠ 0 := by omega
  obtain ⟨shift, hlog⟩ : ∃ shift, mantissa.log2 = 52 + shift :=
    Nat.exists_eq_add_of_le ((Nat.le_log2 hne).mpr (by omega))
  have htarget : target mantissa exponent = exponent + shift := by
    rw [target_eq]
    omega
  have hround : UnpackedFloat.round Format.binary64 s mantissa exponent =
      roundWithAccuracy Format.binary64 s mantissa exponent .exact := by
    rw [round_eq s (by omega : 0 = _), pow_zero, mul_one, Nat.cast_zero, sub_zero]
  have hexact : Describes (.ofMantissaAndAccuracy mantissa .exact)
      ((mantissa * 2 ^ exponent : ℚ) / 2 ^ exponent) := by
    rw [mul_div_cancel_right₀ _ (by positivity)]
    exact Describes.exact mantissa
  obtain ⟨hdescribes, hk⟩ := describes_shiftToExponent (k := target mantissa exponent) hexact
    (by omega)
  generalize hem : (shiftToExponent mantissa exponent .exact (target mantissa exponent)).1 = em
    at hdescribes
  have hquotient : (mantissa * 2 ^ exponent : ℚ) / 2 ^ target mantissa exponent =
      mantissa / 2 ^ shift := by
    rw [htarget, zpow_add₀ two_ne_zero, zpow_natCast]
    field_simp
  rw [hquotient] at hdescribes
  obtain ⟨hlow, hhigh⟩ := hdescribes.mantissa_of_log hne hlog
  obtain ⟨hfloor, hceil⟩ := hdescribes.roundedMantissa_bounds
  have htwice : mantissa < 2 ^ 52 * 2 ^ shift * 2 := by
    rw [← pow_add, ← hlog, ← pow_succ]
    exact Nat.lt_log2_self
  rw [hround, roundWithAccuracy_eq s (congrArg _ hem) hk, htarget]
  rcases (show em.roundedMantissa ≤ 2 ^ 53 by omega).lt_or_eq with hlt | hcarried
  · rw [target_full (by omega) hlt (by omega), shiftToExponent_self]
    refine ⟨em.roundedMantissa, shift, rfl, by omega, hlt, htwice.trans_le ?_⟩
    rw [mul_comm, mul_le_mul_iff_right₀ two_pos]
    exact Nat.mul_le_mul_right _ (by omega)
  · rw [hcarried, shiftToExponent_carried (by omega)]
    refine ⟨2 ^ 52, shift + 1, ?_, le_refl _, by norm_num, htwice.trans_le ?_⟩
    · rw [Nat.cast_succ, ← Int.add_assoc]
    · rw [pow_succ]
      omega

/-- A whole number of units of a place is normalized to itself, or it does not fit into 53 bits and
what it is rounded to is more than half of it. -/
theorem normalize_units (place : Int) (hge : -1074 ≤ place) (hle : place ≤ 971) (n : Int) :
    ∃ u d, UnpackedFloat.normalize Format.binary64 n place .positive = Magnitude.unpacked d u ∧
      (d.Canonical ∧ d.units = n.natAbs * 2 ^ (place + 1074).toNat ∨
        2 ^ 52 ≤ d.significand ∧ d.significand < 2 ^ 53 ∧ -1074 ≤ d.exponent ∧
          n.natAbs * 2 ^ (place + 1074).toNat < 2 * d.units ∧ 2 ^ 53 ≤ n.natAbs) := by
  by_cases hzero : n = 0
  · subst hzero
    refine ⟨.positive, ⟨0, -1074⟩, rfl, .inl ⟨?_, ?_⟩⟩
    · exact ⟨by norm_num, le_refl _, by norm_num, fun _ => rfl⟩
    · rw [Magnitude.units, Int.natAbs_zero, Nat.zero_mul, Nat.zero_mul]
  obtain ⟨s, hround⟩ := normalize_of_ne_zero hzero place .positive
  rw [hround]
  by_cases hsmall : n.natAbs < 2 ^ 53
  · obtain ⟨d, hd, hunits⟩ := exists_canonical hsmall (k := (place + 1074).toNat) (by omega)
    refine ⟨s, d, round_of_nearest hd s (Int.natAbs_ne_zero.mpr hzero) ?_, .inl ⟨hd, hunits⟩⟩
    have hvalue : d.value = n.natAbs * 2 ^ place := by
      rw [Magnitude.value_eq_units hd.exponent_ge, hunits, Nat.cast_mul, Nat.cast_pow,
        Nat.cast_ofNat, mul_assoc, ← zpow_natCast, ← zpow_add₀ two_ne_zero]
      congr 2
      omega
    exact hvalue ▸ Magnitude.nearest_value d
  · obtain ⟨significand, shift, hlarge, hlow, hhigh, hhalf⟩ :=
      round_of_large (not_lt.mp hsmall) hge s
    refine ⟨s, _, hlarge, .inr ⟨hlow, hhigh, ?_, ?_, not_lt.mp hsmall⟩⟩
    · dsimp only
      omega
    · have hplace : (place + shift + 1074).toNat = shift + (place + 1074).toNat := by omega
      rw [Magnitude.units]
      dsimp only
      rw [hplace, pow_add, ← mul_assoc, ← mul_assoc]
      rw [← mul_assoc] at hhalf
      exact Nat.mul_lt_mul_of_pos_right hhalf (by positivity)

section Difference

variable {a b : Magnitude}

/-- A magnitude in units of a place that is not above its own. -/
theorem Magnitude.units_eq (place : Int) (hge : -1074 ≤ place) (hle : place ≤ a.exponent) :
    a.units = a.significand * 2 ^ (a.exponent - place).toNat * 2 ^ (place + 1074).toNat := by
  rw [units, mul_assoc, ← pow_add]
  congr 2
  omega

/-- A difference is taken in units of the smaller place. -/
theorem sub_eq_normalize (ha : a.significand ≠ 0) (hb : b.significand ≠ 0) (s t : Sign) :
    UnpackedFloat.sub Format.binary64 (a.unpacked s) (b.unpacked t) =
      UnpackedFloat.normalize Format.binary64
        (s.apply (a.significand * 2 ^ (a.exponent - min a.exponent b.exponent).toNat : Nat) -
          t.apply (b.significand * 2 ^ (b.exponent - min a.exponent b.exponent).toNat : Nat))
        (min a.exponent b.exponent) .positive := by
  rw [Magnitude.unpacked_of_ne_zero ha, Magnitude.unpacked_of_ne_zero hb, ← Nat.shiftLeft_eq,
    ← Nat.shiftLeft_eq]
  rfl

/-- A sign is applied to a product by applying it to a factor. -/
theorem apply_mul (s : Sign) (m n : Nat) : s.apply (m * n : Nat) = s.apply m * n := by
  cases s <;> simp [Sign.apply]

/-- If one of two magnitudes is zero, their difference is the other one. -/
theorem sub_unpacked_of_eq_zero (ha : a.Canonical) (hb : b.Canonical) (s t : Sign)
    (hzero : a.significand = 0 ∨ b.significand = 0) :
    ∃ u d, UnpackedFloat.sub Format.binary64 (a.unpacked s) (b.unpacked t) =
        Magnitude.unpacked d u ∧
      d.Canonical ∧ d.units = (s.apply a.units - t.apply b.units).natAbs := by
  by_cases hb0 : b.significand = 0
  · have hua : a.units = (s.apply a.units - t.apply b.units).natAbs := by
      rw [Magnitude.units_eq_zero_iff.mpr hb0]
      cases s <;> cases t <;> simp [Sign.apply]
    rw [Magnitude.unpacked_of_eq_zero hb0]
    by_cases ha0 : a.significand = 0
    · refine ⟨if s == -t then s else .positive, a, ?_, ha, hua⟩
      rw [Magnitude.unpacked_of_eq_zero ha0, Magnitude.unpacked_of_eq_zero ha0, UnpackedFloat.sub]
      split <;> rfl
    · refine ⟨s, a, ?_, ha, hua⟩
      rw [Magnitude.unpacked_of_ne_zero ha0]
      rfl
  · have ha0 := hzero.resolve_right hb0
    have hub : b.units = (s.apply a.units - t.apply b.units).natAbs := by
      rw [Magnitude.units_eq_zero_iff.mpr ha0]
      cases s <;> cases t <;> simp [Sign.apply]
    refine ⟨-t, b, ?_, hb, hub⟩
    rw [Magnitude.unpacked_of_eq_zero ha0, Magnitude.unpacked_of_ne_zero hb0,
      Magnitude.unpacked_of_ne_zero hb0]
    rfl

/-- The difference of magnitudes with signs is exact, or it is so large that both magnitudes are
less than twice as large, and what it is rounded to is more than half of it. -/
theorem sub_unpacked (ha : a.Canonical) (hb : b.Canonical) (s t : Sign) {n : Nat}
    (hn : n = (s.apply a.units - t.apply b.units).natAbs) :
    ∃ u d, UnpackedFloat.sub Format.binary64 (a.unpacked s) (b.unpacked t) =
        Magnitude.unpacked d u ∧
      (d.Canonical ∧ d.units = n ∨
        2 ^ 52 ≤ d.significand ∧ d.significand < 2 ^ 53 ∧ -1074 ≤ d.exponent ∧ n < 2 * d.units ∧
          2 ^ 53 ≤ n ∧ max a.units b.units < 2 * n) := by
  by_cases hzero : a.significand = 0 ∨ b.significand = 0
  · obtain ⟨u, d, hsub, hexact⟩ := sub_unpacked_of_eq_zero ha hb s t hzero
    exact ⟨u, d, hsub, .inl (hn ▸ hexact)⟩
  obtain ⟨ha0, hb0⟩ := not_or.mp hzero
  have hga := ha.exponent_ge
  have hgb := hb.exponent_ge
  have hle := ha.exponent_le
  rw [sub_eq_normalize ha0 hb0]
  have hua := a.units_eq (min a.exponent b.exponent) (by omega) (by omega)
  have hub := b.units_eq (min a.exponent b.exponent) (by omega) (by omega)
  generalize hA : a.significand * 2 ^ (a.exponent - min a.exponent b.exponent).toNat = A at hua ⊢
  generalize hB : b.significand * 2 ^ (b.exponent - min a.exponent b.exponent).toNat = B at hub ⊢
  have hsmall : A < 2 ^ 53 ∨ B < 2 ^ 53 := by
    rcases le_total a.exponent b.exponent with hmin | hmin
    · have hzero : (a.exponent - min a.exponent b.exponent).toNat = 0 := by omega
      rw [hzero, pow_zero, mul_one] at hA
      exact .inl (hA ▸ ha.significand_lt)
    · have hzero : (b.exponent - min a.exponent b.exponent).toNat = 0 := by omega
      rw [hzero, pow_zero, mul_one] at hB
      exact .inr (hB ▸ hb.significand_lt)
  have hdistance : n = (s.apply A - t.apply B).natAbs *
      2 ^ (min a.exponent b.exponent + 1074).toNat := by
    rw [hn, hua, hub, apply_mul, apply_mul, ← sub_mul, Int.natAbs_mul, Int.natAbs_natCast]
  obtain ⟨u, d, hsub, hresult⟩ := normalize_units (min a.exponent b.exponent) (by omega)
    (by omega) (s.apply A - t.apply B)
  refine ⟨u, d, hsub, ?_⟩
  rw [← hdistance] at hresult
  refine hresult.imp_right fun ⟨hlow, hhigh, hge, hhalf, hlarge⟩ =>
    ⟨hlow, hhigh, hge, hhalf, ?_, ?_⟩
  · rw [hdistance]
    exact hlarge.trans (Nat.le_mul_of_pos_right _ (by positivity))
  · have hbound : max A B < 2 * (s.apply A - t.apply B).natAbs := by
      cases s <;> cases t <;> simp only [Sign.apply] at hlarge ⊢ <;> omega
    rw [hua, hub, hdistance, ← mul_assoc, Nat.mul_max_mul_right]
    exact Nat.mul_lt_mul_of_pos_right hbound (by positivity)

end Difference

/-- A magnitude with too large an exponent is packed as an infinity. -/
theorem toFloat_of_large {m : Magnitude} (hne : m.significand ≠ 0) (hlarge : 971 < m.exponent)
    (s : Sign) : m.toFloat s = .ofModel (.pack (.infinity s)) := by
  have hpack : UnpackedFloat.pack Format.binary64 (m.unpacked s) =
      UnpackedFloat.pack Format.binary64 (.infinity s) := by
    have hbias : 2 ^ Format.binary64.exponentBits ≤ (m.exponent + Format.binary64.exponentBias +
        Format.binary64.mantissaBitsWithoutImplicit).toNat + 1 := by
      have hbits : 2 ^ Format.binary64.exponentBits = 2048 := rfl
      have hvalue : (Format.binary64.exponentBias : Int) +
          (Format.binary64.mantissaBitsWithoutImplicit : Int) = 1075 := rfl
      omega
    rw [Magnitude.unpacked_of_ne_zero hne, UnpackedFloat.pack]
    exact if_pos hbias
  apply eq_of_toNat_toBits
  exact congrArg BitVec.toNat hpack

/-- No finite double is as large as an infinity. -/
theorem not_infinity_le {x : Float} (hx : x.isFinite = true) (s : Sign) :
    ¬(Float.ofModel (.pack (.infinity s))).abs ≤ x := by
  have habs : (Float.ofModel (.pack (.infinity s))).abs.toModel.unpack = .infinity .positive := by
    cases s <;> rfl
  have hmodel : (Float.ofModel (.pack (.infinity s))).abs ≤ x ↔
      ((Float.ofModel (.pack (.infinity s))).abs.toModel.unpack.compare
        x.toModel.unpack).any (·.isLE) = true := decide_eq_true_iff
  rw [hmodel, habs, unpack_of_isFinite hx, Magnitude.unpacked]
  split <;> exact Bool.false_ne_true

end FormulaRules.Number
