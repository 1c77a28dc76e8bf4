import FormulaRules.Proofs.Number.Double

/-!
# The nearest double of a rational number

The logical model rounds a mantissa that is followed by two bits: one for the half and one
for everything below. These say where the exact value lies between two neighbouring
mantissas, and shifting to a larger exponent keeps that information.

Every rational number in the interval of a canonical magnitude is rounded to that magnitude.
The exponent aimed for is that of the magnitude, or the one below for numbers just under a
power of two; then the mantissa carries over.
-/

namespace FormulaRules.Number

open Float.Model Float.Model.UnpackedFloat

/-- Whether a mantissa with its two bits describes a rational number. -/
def Describes (em : ExtendedMantissa) (v : ℚ) : Prop :=
  ∃ f : ℚ, v = em.mantissa + f ∧ 0 ≤ f ∧ f < 1 ∧ (em.roundBit = true ↔ 1 / 2 ≤ f) ∧
    (em.stickyBit = true ↔ f ≠ 0 ∧ f ≠ 1 / 2)

/-- An accuracy adds two bits to a mantissa and keeps it. -/
theorem mantissa_ofMantissaAndAccuracy (mantissa : Nat) (accuracy : Accuracy) :
    (ExtendedMantissa.ofMantissaAndAccuracy mantissa accuracy).mantissa = mantissa := by
  cases accuracy with
  | exact => rfl
  | inexact order => cases order <;> rfl

/-- The two bits of a remainder say how it compares with nothing and with half of the divisor. -/
theorem bits_accuracyOfFraction (mantissa : Nat) {r d : Nat} (hd : 0 < d) :
    ((ExtendedMantissa.ofMantissaAndAccuracy mantissa (accuracyOfFraction r d)).roundBit = true ↔
      d ≤ 2 * r) ∧
    ((ExtendedMantissa.ofMantissaAndAccuracy mantissa (accuracyOfFraction r d)).stickyBit = true ↔
      r ≠ 0 ∧ 2 * r ≠ d) := by
  rw [accuracyOfFraction]
  by_cases hr : r = 0
  · rw [if_pos hr]
    simp [ExtendedMantissa.ofMantissaAndAccuracy, hr, hd.ne']
  · rw [if_neg hr]
    rcases Nat.lt_trichotomy (2 * r) d with hbelow | htie | habove
    · rw [Nat.compare_eq_lt.mpr hbelow]
      simp [ExtendedMantissa.ofMantissaAndAccuracy, hr, hbelow, hbelow.ne]
    · rw [Nat.compare_eq_eq.mpr htie]
      simp [ExtendedMantissa.ofMantissaAndAccuracy, hr, htie]
    · rw [Nat.compare_eq_gt.mpr habove]
      simp [ExtendedMantissa.ofMantissaAndAccuracy, hr, habove.le, habove.ne']

namespace Describes

/-- A whole number is described exactly. -/
theorem exact (n : Nat) : Describes (.ofMantissaAndAccuracy n .exact) n := by
  refine ⟨0, by simp [ExtendedMantissa.ofMantissaAndAccuracy], le_refl 0, by norm_num, ?_, ?_⟩
  · simp [ExtendedMantissa.ofMantissaAndAccuracy]
  · simp [ExtendedMantissa.ofMantissaAndAccuracy]

/-- A quotient is described by its whole part and what is left. -/
theorem quotient (n : Nat) {d : Nat} (hd : 0 < d) :
    Describes (.ofMantissaAndAccuracy (n / d) (accuracyOfFraction (n % d) d)) (n / d : ℚ) := by
  have hd' : (0 : ℚ) < d := by exact_mod_cast hd
  have hvalue : (n / d : ℚ) = ((n / d : Nat) : ℚ) + ((n % d : Nat) : ℚ) / d := by
    have hmod : (d : ℚ) * ((n / d : Nat) : ℚ) + ((n % d : Nat) : ℚ) = n := by
      exact_mod_cast Nat.div_add_mod n d
    rw [← hmod]
    field_simp
  have hlt : ((n % d : Nat) : ℚ) < d := by exact_mod_cast Nat.mod_lt n hd
  have hhalf : 1 / 2 ≤ ((n % d : Nat) : ℚ) / d ↔ d ≤ 2 * (n % d) := by
    rw [div_le_div_iff₀ two_pos hd', one_mul, mul_comm]
    exact_mod_cast Iff.rfl
  have heq : ((n % d : Nat) : ℚ) / d = 1 / 2 ↔ 2 * (n % d) = d := by
    rw [div_eq_div_iff hd'.ne' two_ne_zero, one_mul, mul_comm]
    exact_mod_cast Iff.rfl
  have hzero : ((n % d : Nat) : ℚ) / d = 0 ↔ n % d = 0 := by
    rw [div_eq_zero_iff, or_iff_left hd'.ne']
    exact_mod_cast Iff.rfl
  obtain ⟨hround, hsticky⟩ := bits_accuracyOfFraction (n / d) (r := n % d) hd
  refine ⟨((n % d : Nat) : ℚ) / d, ?_, by positivity, (div_lt_one hd').mpr hlt,
    hround.trans hhalf.symm, ?_⟩
  · rw [mantissa_ofMantissaAndAccuracy, hvalue]
  · rw [hsticky, ne_eq, ne_eq, ne_eq, ne_eq, hzero, heq]

/-- Halving shifts the last bit of the mantissa out. -/
theorem shiftRightOne {em : ExtendedMantissa} {v : ℚ} (h : Describes em v) :
    Describes em.shiftRightOne (v / 2) := by
  obtain ⟨f, hv, hf0, hf1, hround, hsticky⟩ := h
  have hmod : ((em.mantissa % 2 : Nat) : ℚ) + 2 * ((em.mantissa / 2 : Nat) : ℚ) = em.mantissa := by
    exact_mod_cast Nat.mod_add_div em.mantissa 2
  have hbits : (em.roundBit || em.stickyBit) = true ↔ f ≠ 0 := by
    rw [Bool.or_eq_true, hround, hsticky]
    constructor
    · rintro (hhalf | ⟨hzero, -⟩)
      · intro hzero
        rw [hzero] at hhalf
        norm_num at hhalf
      · exact hzero
    · intro hzero
      by_cases hhalf : 1 / 2 ≤ f
      · exact .inl hhalf
      · exact .inr ⟨hzero, fun heq => hhalf heq.ge⟩
  refine ⟨((em.mantissa % 2 : Nat) + f) / 2, ?_, ?_, ?_, ?_, ?_⟩
  · rw [hv, ← hmod, ExtendedMantissa.shiftRightOne]
    ring
  · positivity
  · rcases Nat.mod_two_eq_zero_or_one em.mantissa with hbit | hbit
    all_goals
      rw [hbit]
      push_cast
      linarith
  · change (em.mantissa % 2 != 0) = true ↔ _
    rcases Nat.mod_two_eq_zero_or_one em.mantissa with hbit | hbit
    · rw [hbit]
      simp only [bne_self_eq_false, Bool.false_eq_true, Nat.cast_zero, zero_add, false_iff, not_le]
      linarith
    · rw [hbit]
      simp only [Nat.cast_one]
      constructor
      · intro _
        linarith
      · exact fun _ => rfl
  · change (em.roundBit || em.stickyBit) = true ↔ _
    rw [hbits]
    rcases Nat.mod_two_eq_zero_or_one em.mantissa with hbit | hbit
    · rw [hbit, Nat.cast_zero, zero_add]
      constructor
      · exact fun hf => ⟨by positivity, fun heq => by linarith⟩
      · exact fun ⟨hf, _⟩ heq => hf (by rw [heq, zero_div])
    · rw [hbit, Nat.cast_one]
      constructor
      · exact fun hf => ⟨by positivity, fun heq => hf (by linarith)⟩
      · exact fun ⟨_, hf⟩ heq => hf (by rw [heq, add_zero])

/-- Dividing by a power of two shifts as many bits out. -/
theorem shiftRight {em : ExtendedMantissa} {v : ℚ} (h : Describes em v) (k : Nat) :
    Describes (em >>> k) (v / 2 ^ k) := by
  change Describes (k.repeat ExtendedMantissa.shiftRightOne em) _
  induction k with
  | zero => simpa [Nat.repeat] using h
  | succ k ih =>
    rw [Nat.repeat, pow_succ, ← div_div]
    exact ih.shiftRightOne

/-- The mantissa is the whole part. -/
theorem floor {em : ExtendedMantissa} {v : ℚ} (h : Describes em v) :
    (em.mantissa : ℚ) ≤ v ∧ v < em.mantissa + 1 := by
  obtain ⟨f, rfl, hf0, hf1, -, -⟩ := h
  exact ⟨by linarith, by linarith⟩

/-- A mantissa is rounded up if the fraction is more than a half, and at a half if it is odd. -/
theorem exists_roundedMantissa_eq {em : ExtendedMantissa} {v : ℚ} (h : Describes em v) :
    ∃ f : ℚ, v = em.mantissa + f ∧ 0 ≤ f ∧ f < 1 ∧ em.roundedMantissa =
      em.mantissa + if f < 1 / 2 then 0 else if f = 1 / 2 then em.mantissa % 2 else 1 := by
  obtain ⟨f, hv, hf0, hf1, hround, hsticky⟩ := h
  refine ⟨f, hv, hf0, hf1, ?_⟩
  obtain ⟨m, half, sticky⟩ := em
  cases half with
  | false =>
    have hbelow : f < 1 / 2 := not_le.mp (mt hround.mpr Bool.false_ne_true)
    rw [if_pos hbelow]
    cases sticky <;> rfl
  | true =>
    rw [if_neg (not_lt.mpr (hround.mp rfl))]
    cases sticky with
    | true =>
      rw [if_neg (hsticky.mp rfl).2]
      rfl
    | false =>
      have htied : f = 1 / 2 := by
        by_contra hne
        have hzero : f ≠ 0 := by
          intro heq
          have hhalf := hround.mp rfl
          rw [heq] at hhalf
          norm_num at hhalf
        exact Bool.false_ne_true (hsticky.mpr ⟨hzero, hne⟩)
      rw [if_pos htied]
      rfl

/-- The mantissa is rounded to the nearest whole number; of two equally near ones it is rounded to
the even one. -/
theorem roundedMantissa {em : ExtendedMantissa} {v : ℚ} (h : Describes em v) {s : Nat}
    (hlow : (s : ℚ) - 1 / 2 ≤ v) (hhigh : v ≤ s + 1 / 2)
    (htie : s % 2 = 1 → (s : ℚ) - 1 / 2 < v ∧ v < s + 1 / 2) : em.roundedMantissa = s := by
  obtain ⟨f, rfl, hf0, hf1, hrounded⟩ := h.exists_roundedMantissa_eq
  have hle : em.mantissa ≤ s := by
    have hlt : (em.mantissa : ℚ) < s + 1 := by linarith
    exact Nat.le_of_lt_succ (by exact_mod_cast hlt)
  have hge : s ≤ em.mantissa + 1 := by
    have hlt : (s : ℚ) < em.mantissa + 1 + 1 := by linarith
    exact Nat.le_of_lt_succ (by exact_mod_cast hlt)
  rw [hrounded]
  rcases Nat.lt_or_ge em.mantissa s with hbelow | habove
  · have hs : s = em.mantissa + 1 := Nat.le_antisymm hge hbelow
    have hcast : (s : ℚ) = em.mantissa + 1 := by exact_mod_cast hs
    rw [if_neg (not_lt.mpr (by linarith))]
    split
    · next htied =>
      have heven : s % 2 ≠ 1 := fun hodd => by
        have hstrict := (htie hodd).1
        linarith
      omega
    · exact hs.symm
  · have hs : s = em.mantissa := Nat.le_antisymm habove hle
    have hcast : (s : ℚ) = em.mantissa := by exact_mod_cast hs
    split
    · exact hs.symm
    · next hnot =>
      have htied : f = 1 / 2 := le_antisymm (by linarith) (not_lt.mp hnot)
      have heven : s % 2 ≠ 1 := fun hodd => by
        have hstrict := (htie hodd).2
        linarith
      rw [if_pos htied]
      omega

end Describes

/-- The exact value of a magnitude. -/
def Magnitude.value (m : Magnitude) : ℚ := m.significand * 2 ^ m.exponent

/-- How far the interval of a magnitude reaches down, in units of its last place. Below a power of
two the neighbouring double is only half as far away. -/
def Magnitude.reach (m : Magnitude) : ℚ :=
  if m.significand = 2 ^ 52 ∧ -1074 < m.exponent then 1 / 4 else 1 / 2

/-- Whether a rational number is nearest to a magnitude. The ends of the interval count when the
significand is even. -/
structure Magnitude.Nearest (m : Magnitude) (v : ℚ) : Prop where
  low : (m.significand - m.reach) * 2 ^ m.exponent ≤ v
  high : v ≤ (m.significand + 1 / 2) * 2 ^ m.exponent
  strict : m.significand % 2 = 1 →
    (m.significand - m.reach) * 2 ^ m.exponent < v ∧ v < (m.significand + 1 / 2) * 2 ^ m.exponent

/-- The exponent that a number with a given mantissa and exponent is rounded to. -/
def target (mantissa : Nat) (exponent : Int) : Int :=
  Format.binary64.targetExponent (totalExponent mantissa exponent)

/-- A mantissa of 53 bits is aimed for, unless the smallest exponent forbids it. -/
theorem target_eq (mantissa : Nat) (exponent : Int) :
    target mantissa exponent = max (mantissa.log2 + 1 + exponent - 53) (-1074) := rfl

/-- A power of two is at most a natural number exactly if its exponent is at most the logarithm. -/
theorem zpow_le_natCast_iff {n : Nat} (hn : n ≠ 0) (k : Int) :
    (2 : ℚ) ^ k ≤ n ↔ k ≤ n.log2 := by
  rcases lt_or_ge k 0 with hneg | hnonneg
  · have hone : (1 : ℚ) ≤ n := by exact_mod_cast Nat.one_le_iff_ne_zero.mpr hn
    have hpow : (2 : ℚ) ^ k < 1 := zpow_lt_one_of_neg₀ one_lt_two hneg
    exact iff_of_true (hpow.le.trans hone) (by omega)
  · obtain ⟨j, rfl⟩ := Int.eq_ofNat_of_zero_le hnonneg
    rw [zpow_natCast, Nat.cast_le, Nat.le_log2 hn]
    exact_mod_cast Iff.rfl

/-- A number below a power of two is not rounded to a larger exponent than that power needs. -/
theorem target_le {mantissa : Nat} {exponent k : Int} {v : ℚ}
    (hv : (mantissa : ℚ) ≤ v / 2 ^ exponent) (hlt : v < 2 ^ (53 + k)) (hk : -1074 ≤ k)
    (hzero : mantissa = 0 → exponent ≤ -1074) : target mantissa exponent ≤ k := by
  rw [target_eq, max_le_iff]
  refine ⟨?_, hk⟩
  by_cases hm : mantissa = 0
  · have hlog : mantissa.log2 = 0 := by rw [hm, Nat.log2_zero]
    have hexponent := hzero hm
    omega
  · by_contra hgt
    have hlog : 53 + k - exponent ≤ mantissa.log2 := by omega
    have hpow := ((zpow_le_natCast_iff hm _).mpr hlog).trans hv
    rw [le_div_iff₀ (by positivity), ← zpow_add₀ two_ne_zero, sub_add_cancel] at hpow
    exact absurd hlt (not_lt.mpr hpow)

/-- A number from a power of two on is not rounded to a smaller exponent than that power needs. -/
theorem le_target {mantissa : Nat} {exponent k : Int} {v : ℚ}
    (hv : v / 2 ^ exponent < mantissa + 1) (hle : 2 ^ (52 + k) ≤ v) :
    k ≤ target mantissa exponent := by
  rw [target_eq]
  refine le_trans ?_ (le_max_left _ _)
  have hpow : (2 : ℚ) ^ (52 + k - exponent) < mantissa + 1 := by
    refine lt_of_le_of_lt ?_ hv
    rwa [le_div_iff₀ (by positivity), ← zpow_add₀ two_ne_zero, sub_add_cancel]
  suffices hlog : 52 + k - exponent ≤ mantissa.log2 by omega
  rcases lt_or_ge (52 + k - exponent) 0 with hneg | hnonneg
  · omega
  · obtain ⟨j, hj⟩ := Int.eq_ofNat_of_zero_le hnonneg
    rw [hj, zpow_natCast] at hpow
    have hle' : 2 ^ j ≤ mantissa := Nat.le_of_lt_succ (by exact_mod_cast hpow)
    have hm : mantissa ≠ 0 := fun hm => by
      rw [hm] at hle'
      exact absurd hle' (Nat.not_le.mpr (by positivity))
    rw [hj]
    exact_mod_cast (Nat.le_log2 hm).mpr hle'

/-- A mantissa of 53 bits is at its target, if its exponent is not too small. -/
theorem target_full {mantissa : Nat} {exponent : Int} (hlow : 2 ^ 52 ≤ mantissa)
    (hhigh : mantissa < 2 ^ 53) (hge : -1074 ≤ exponent) : target mantissa exponent = exponent := by
  have hne : mantissa ≠ 0 := by omega
  have hlog := (Nat.le_log2 hne).mpr hlow
  have hlog' := (Nat.log2_lt hne).mpr hhigh
  rw [target_eq]
  omega

/-- A canonical magnitude is at its target. -/
theorem target_canonical {m : Magnitude} (hm : m.Canonical) :
    target m.significand m.exponent = m.exponent := by
  by_cases hnormal : m.significand < 2 ^ 52
  · have hexponent := hm.exponent_eq hnormal
    have hlog : m.significand.log2 < 52 := by
      by_cases hzero : m.significand = 0
      · rw [hzero, Nat.log2_zero]
        norm_num
      · exact (Nat.log2_lt hzero).mpr hnormal
    rw [target_eq]
    omega
  · exact target_full (not_lt.mp hnormal) hm.significand_lt hm.exponent_ge

/-- Shifting to an exponent that is not smaller keeps the number that is described. -/
theorem describes_shiftToExponent {mantissa : Nat} {exponent k : Int} {accuracy : Accuracy} {v : ℚ}
    (h : Describes (.ofMantissaAndAccuracy mantissa accuracy) (v / 2 ^ exponent))
    (hle : exponent ≤ k) :
    Describes (shiftToExponent mantissa exponent accuracy k).1 (v / 2 ^ k) ∧
      (shiftToExponent mantissa exponent accuracy k).2 = k := by
  have hshift : ((k - exponent).toNat : Int) = k - exponent := Int.toNat_of_nonneg (by omega)
  constructor
  · have hshifted := h.shiftRight (k - exponent).toNat
    rw [← zpow_natCast, hshift, div_div, ← zpow_add₀ two_ne_zero, add_sub_cancel] at hshifted
    exact hshifted
  · rw [shiftToExponent, hshift, add_sub_cancel]

/-- The reach of an interval is at most half a unit. -/
theorem Magnitude.reach_le (m : Magnitude) : m.reach ≤ 1 / 2 := by
  rw [reach]
  split <;> norm_num

/-- A number nearest to a canonical magnitude aims for its exponent, or for the one below just under
a power of two. -/
theorem target_of_nearest {m : Magnitude} (hm : m.Canonical) {v : ℚ} (hv : m.Nearest v)
    {mantissa : Nat} {exponent : Int} (hlow : (mantissa : ℚ) ≤ v / 2 ^ exponent)
    (hhigh : v / 2 ^ exponent < mantissa + 1) (hzero : mantissa = 0 → exponent ≤ -1074) :
    target mantissa exponent = m.exponent ∨
      (target mantissa exponent = m.exponent - 1 ∧ m.significand = 2 ^ 52 ∧ -1074 < m.exponent ∧
        v < 2 ^ (52 + m.exponent)) := by
  have hpow : (0 : ℚ) < 2 ^ m.exponent := by positivity
  have hreach := m.reach_le
  have hbelow : v < 2 ^ (53 + m.exponent) := by
    have hlt : (m.significand : ℚ) + 1 ≤ 2 ^ 53 := by exact_mod_cast hm.significand_lt
    refine lt_of_le_of_lt hv.high ?_
    rw [zpow_add₀ two_ne_zero]
    exact mul_lt_mul_of_pos_right (by norm_num at hlt ⊢; linarith) hpow
  have hle := target_le hlow hbelow hm.exponent_ge hzero
  by_cases hpower : 2 ^ (52 + m.exponent) ≤ v
  · exact .inl (le_antisymm hle (le_target hhigh hpower))
  by_cases hsmallest : m.exponent = -1074
  · exact .inl (le_antisymm hle (by rw [hsmallest, target_eq]; exact le_max_right _ _))
  · -- Only the lower end of the interval of a power of two lies below that power.
    have hge := hm.exponent_ge
    have hnormal : 2 ^ 52 ≤ m.significand :=
      not_lt.mp fun hlt => hsmallest (hm.exponent_eq hlt)
    rw [not_le, zpow_add₀ two_ne_zero] at hpower
    have hsignificand : m.significand = 2 ^ 52 := by
      refine le_antisymm (Nat.le_of_lt_succ ?_) hnormal
      have hlt : (m.significand - m.reach : ℚ) < 2 ^ (52 : Int) :=
        lt_of_mul_lt_mul_right (lt_of_le_of_lt hv.low hpower) hpow.le
      have htwo : (2 : ℚ) ^ (52 : Int) = 2 ^ 52 := by norm_num
      have hcast : (m.significand : ℚ) < 2 ^ 52 + 1 := by
        rw [htwo] at hlt
        linarith
      exact_mod_cast hcast
    have hpower' : 2 ^ (52 + (m.exponent - 1)) ≤ v := by
      refine le_trans ?_ hv.low
      rw [show 52 + (m.exponent - 1) = 51 + m.exponent by ring, zpow_add₀ two_ne_zero, hsignificand]
      refine mul_le_mul_of_nonneg_right ?_ hpow.le
      norm_num
      linarith
    rw [← zpow_add₀ two_ne_zero] at hpower
    have hle' := target_le (k := m.exponent - 1) hlow
      (by rwa [show 53 + (m.exponent - 1) = 52 + m.exponent by ring]) (by omega) hzero
    exact .inr ⟨le_antisymm hle' (le_target hhigh hpower'), hsignificand, by omega, hpower⟩

/-- Rounding shifts twice: to the target, and once more for a mantissa that carried over. -/
theorem roundWithAccuracy_eq (sign : Sign) {mantissa : Nat} {exponent : Int} {accuracy : Accuracy}
    {rounded : Nat} {k : Int}
    (hrounded : (shiftToExponent mantissa exponent accuracy
      (target mantissa exponent)).1.roundedMantissa = rounded)
    (hk : (shiftToExponent mantissa exponent accuracy (target mantissa exponent)).2 = k) :
    roundWithAccuracy Format.binary64 sign mantissa exponent accuracy =
      Magnitude.unpacked ⟨(shiftToExponent rounded k .exact (target rounded k)).1.mantissa,
        (shiftToExponent rounded k .exact (target rounded k)).2⟩ sign := by
  subst hrounded
  subst hk
  rfl

/-- A mantissa that is at its exponent stays as it is. -/
theorem shiftToExponent_self (mantissa : Nat) (exponent : Int) :
    shiftToExponent mantissa exponent .exact exponent = (⟨mantissa, false, false⟩, exponent) := by
  simp [shiftToExponent, ExtendedMantissa.ofMantissaAndAccuracy, HShiftRight.hShiftRight, Nat.repeat]

/-- A mantissa that has carried over into a 54th bit is shifted by one place. -/
theorem shiftToExponent_carried {exponent : Int} (hge : -1074 ≤ exponent) :
    shiftToExponent (2 ^ 53) exponent .exact (target (2 ^ 53) exponent) =
      (⟨2 ^ 52, false, false⟩, exponent + 1) := by
  have htarget : target (2 ^ 53) exponent = exponent + 1 := by
    rw [target_eq, Nat.log2_two_pow]
    omega
  have hone : (exponent + 1 - exponent).toNat = 1 := by omega
  rw [htarget, shiftToExponent, hone]
  rfl

/-- At the exponent of the magnitude a number in its interval has the significand as its rounded
mantissa. -/
theorem Magnitude.Nearest.roundedMantissa {m : Magnitude} {v : ℚ} (hv : m.Nearest v)
    {em : ExtendedMantissa} (h : Describes em (v / 2 ^ m.exponent)) :
    em.roundedMantissa = m.significand := by
  have hpow : (0 : ℚ) < 2 ^ m.exponent := by positivity
  have hreach : (m.significand - 1 / 2 : ℚ) * 2 ^ m.exponent ≤
      (m.significand - m.reach) * 2 ^ m.exponent := by
    gcongr
    exact m.reach_le
  refine h.roundedMantissa ?_ ?_ ?_
  · exact (le_div_iff₀ hpow).mpr (hreach.trans hv.low)
  · exact (div_le_iff₀ hpow).mpr hv.high
  · intro hodd
    obtain ⟨hlow, hhigh⟩ := hv.strict hodd
    exact ⟨(lt_div_iff₀ hpow).mpr (hreach.trans_lt hlow), (div_lt_iff₀ hpow).mpr hhigh⟩

/-- Just under a power of two the mantissa is rounded up to that power, which takes one bit too
many. -/
theorem Magnitude.Nearest.roundedMantissa_carried {m : Magnitude} {v : ℚ} (hv : m.Nearest v)
    (hs : m.significand = 2 ^ 52) (hlarge : -1074 < m.exponent) (hbelow : v < 2 ^ (52 + m.exponent))
    {em : ExtendedMantissa} (h : Describes em (v / 2 ^ (m.exponent - 1))) :
    em.roundedMantissa = 2 ^ 53 := by
  have hpow : (0 : ℚ) < 2 ^ (m.exponent - 1) := by positivity
  have htwice : (2 : ℚ) ^ m.exponent = 2 * 2 ^ (m.exponent - 1) := by
    rw [← zpow_one_add₀ two_ne_zero, add_sub_cancel]
  have hreach : m.reach = 1 / 4 := if_pos ⟨hs, hlarge⟩
  have hlow := hv.low
  rw [hreach, hs, htwice] at hlow
  rw [zpow_add₀ two_ne_zero, htwice] at hbelow
  have hcast : ((2 ^ 53 : Nat) : ℚ) = 2 ^ 53 := by norm_num
  refine h.roundedMantissa ?_ ?_ (fun hodd => by norm_num at hodd)
  · rw [hcast, le_div_iff₀ hpow]
    push_cast at hlow
    linarith
  · rw [hcast, div_le_iff₀ hpow]
    norm_num at hbelow ⊢
    linarith

/-- A number in the interval of a canonical magnitude is rounded to the magnitude. -/
theorem roundWithAccuracy_of_nearest {m : Magnitude} (hm : m.Canonical) {v : ℚ}
    (hv : m.Nearest v) (sign : Sign) {mantissa : Nat} {exponent : Int} {accuracy : Accuracy}
    (h : Describes (.ofMantissaAndAccuracy mantissa accuracy) (v / 2 ^ exponent))
    (hprecise : 2 ^ 52 ≤ mantissa ∨ exponent ≤ -1074) :
    roundWithAccuracy Format.binary64 sign mantissa exponent accuracy = m.unpacked sign := by
  obtain ⟨hlow, hhigh⟩ := h.floor
  rw [mantissa_ofMantissaAndAccuracy] at hlow hhigh
  have hzero : mantissa = 0 → exponent ≤ -1074 := by
    intro heq
    subst heq
    exact hprecise.resolve_left (by norm_num)
  have hexponent : exponent ≤ target mantissa exponent := by
    rw [target_eq]
    rcases hprecise with hlarge | hsmall
    · have hlog := (Nat.le_log2 (by omega)).mpr hlarge
      omega
    · omega
  obtain ⟨hdescribes, hk⟩ := describes_shiftToExponent h hexponent
  rcases target_of_nearest hm hv hlow hhigh hzero with htarget | ⟨htarget, hs, hlarge, hbelow⟩
  · rw [htarget] at hdescribes
    have hrounded := hv.roundedMantissa hdescribes
    rw [← htarget] at hrounded
    rw [roundWithAccuracy_eq sign hrounded hk, htarget, target_canonical hm, shiftToExponent_self]
  · rw [htarget] at hdescribes
    have hrounded := hv.roundedMantissa_carried hs hlarge hbelow hdescribes
    rw [← htarget] at hrounded
    rw [roundWithAccuracy_eq sign hrounded hk, htarget, shiftToExponent_carried (by omega)]
    congr 1
    obtain ⟨significand, exponent⟩ := m
    rw [Magnitude.mk.injEq]
    exact ⟨hs.symm, sub_add_cancel exponent 1⟩

/-- A mantissa is shifted to its target before it is rounded, if that is a smaller place. -/
theorem round_eq (sign : Sign) {mantissa shift : Nat} {exponent : Int}
    (hshift : shift = (exponent - target mantissa exponent).toNat) :
    UnpackedFloat.round Format.binary64 sign mantissa exponent =
      roundWithAccuracy Format.binary64 sign (mantissa * 2 ^ shift) (exponent - shift) .exact := by
  rw [hshift, ← Nat.shiftLeft_eq]
  rfl

/-- A whole number of units of any place is rounded to the magnitude that it is nearest to: it is
shifted to a smaller place first, if that one is too large. -/
theorem round_of_nearest {m : Magnitude} (hm : m.Canonical) (sign : Sign) {mantissa : Nat}
    {exponent : Int} (hne : mantissa ≠ 0) (hv : m.Nearest (mantissa * 2 ^ exponent)) :
    UnpackedFloat.round Format.binary64 sign mantissa exponent = m.unpacked sign := by
  obtain ⟨shift, hshift⟩ : ∃ shift, shift = (exponent - target mantissa exponent).toNat := ⟨_, rfl⟩
  rw [round_eq sign hshift]
  have hprecise : 2 ^ 52 ≤ mantissa * 2 ^ shift ∨ exponent - shift ≤ -1074 := by
    rw [target_eq] at hshift
    by_cases hsmall : exponent - shift ≤ -1074
    · exact .inr hsmall
    · refine .inl ?_
      calc 2 ^ 52 ≤ 2 ^ (mantissa.log2 + shift) := Nat.pow_le_pow_right two_pos (by omega)
        _ = 2 ^ mantissa.log2 * 2 ^ shift := pow_add 2 _ _
        _ ≤ mantissa * 2 ^ shift := Nat.mul_le_mul_right _ (Nat.log2_self_le hne)
  have hvalue : (mantissa * 2 ^ exponent / 2 ^ (exponent - shift) : ℚ) =
      ((mantissa * 2 ^ shift : Nat) : ℚ) := by
    rw [zpow_sub₀ two_ne_zero, zpow_natCast]
    push_cast
    field_simp
  refine roundWithAccuracy_of_nearest hm hv _ ?_ hprecise
  rw [hvalue]
  exact Describes.exact _

end FormulaRules.Number
