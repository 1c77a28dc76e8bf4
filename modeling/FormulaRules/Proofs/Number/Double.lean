import FormulaRules.Number.Magnitude
import Mathlib

/-!
# Finite doubles by sign and magnitude

A finite double is stored as a sign bit, eleven bits of exponent and 52 bits of fraction.
Its magnitude reads these fields off, and packing the sign and the magnitude gives the double
back. So a finite double is the same as a sign and a canonical magnitude.
-/

namespace FormulaRules.Number

open Float.Model Float.Model.UnpackedFloat

/-- Whether a magnitude is the one that a finite double has. -/
structure Magnitude.Canonical (m : Magnitude) : Prop where
  significand_lt : m.significand < 2 ^ 53
  exponent_ge : -1074 ≤ m.exponent
  exponent_le : m.exponent ≤ 971
  /-- Only the smallest exponent leaves the first bit of the significand unset. -/
  exponent_eq : m.significand < 2 ^ 52 → m.exponent = -1074

/-- A magnitude with a sign, as the logical model of doubles has it. -/
def Magnitude.unpacked (m : Magnitude) (sign : Sign) : UnpackedFloat :=
  if h : m.significand = 0 then .zero sign
  else .finite sign m.significand m.exponent (Nat.pos_of_ne_zero h)

/-- The double of a canonical magnitude and a sign. -/
def Magnitude.toFloat (m : Magnitude) (sign : Sign) : Float := .ofModel (.pack (m.unpacked sign))

/-- The bits of a double. -/
def packed (x : Float) : BitVec Format.binary64.numBits := x.toBits.toBitVec

/-- The sign of a double. -/
def sign (x : Float) : Sign := if isNegative x then .negative else .positive

/-- The fraction of a packed double is in its lowest bits. -/
theorem toNat_unpackMantissa (b : BitVec Format.binary64.numBits) :
    (unpackMantissa b).toNat = b.toNat % 2 ^ 52 := by
  simp [unpackMantissa]

/-- The exponent of a packed double is above the fraction. -/
theorem toNat_unpackExponent (b : BitVec Format.binary64.numBits) :
    (unpackExponent b).toNat = b.toNat / 2 ^ 52 % 2 ^ 11 := by
  simp [unpackExponent, Nat.shiftRight_eq_div_pow]

/-- The sign of a packed double is its highest bit. -/
theorem toNat_unpackSign (b : BitVec Format.binary64.numBits) :
    (unpackSign b).toNat = b.toNat / 2 ^ 63 := by
  have hb : b.toNat < 2 ^ 64 := b.isLt
  simp [unpackSign, Nat.shiftRight_eq_div_pow]
  omega

/-- Packing puts the three fields side by side. -/
theorem toNat_packComponents (sign : Sign) (e : BitVec 11) (f : BitVec 52) :
    (packComponents Format.binary64 sign e f).toNat =
      sign.toBitVec.toNat * 2 ^ 63 + e.toNat * 2 ^ 52 + f.toNat := by
  have he := e.isLt
  have hf := f.isLt
  have hinner : (sign.toBitVec ++ e).toNat = sign.toBitVec.toNat * 2 ^ 11 + e.toNat := by
    rw [BitVec.toNat_append, ← Nat.shiftLeft_add_eq_or_of_lt he, Nat.shiftLeft_eq]
  change (sign.toBitVec ++ e ++ f).toNat = _
  rw [BitVec.toNat_append, ← Nat.shiftLeft_add_eq_or_of_lt hf, Nat.shiftLeft_eq, hinner]
  omega

/-- The field of the exponent of a double. -/
def exponentField (x : Float) : Nat := x.toBits.toNat / 2 ^ 52 % 2 ^ 11

/-- The field of the fraction of a double. -/
def fractionField (x : Float) : Nat := x.toBits.toNat % 2 ^ 52

/-- The magnitude of a double is decoded from two fields. -/
theorem magnitude_eq (x : Float) :
    magnitude x = if exponentField x = 0 then ⟨fractionField x, -1074⟩
      else ⟨fractionField x + 2 ^ 52, (exponentField x : Int) - 1075⟩ := by
  have hexponent : ((x.toBits >>> 52) &&& 0x7FF).toNat = exponentField x := by
    rw [UInt64.toNat_and, UInt64.toNat_shiftRight, exponentField, ← Nat.and_two_pow_sub_one_eq_mod]
    simp [Nat.shiftRight_eq_div_pow]
  have hfraction : (x.toBits &&& 0xFFFFFFFFFFFFF).toNat = fractionField x := by
    rw [UInt64.toNat_and, fractionField, ← Nat.and_two_pow_sub_one_eq_mod]
    simp
  simp only [magnitude, hexponent, hfraction]
  rfl

/-- The sign of a double is read off its highest bit. -/
theorem isNegative_iff (x : Float) : isNegative x = true ↔ x.toBits.toNat / 2 ^ 63 = 1 := by
  rw [isNegative, beq_iff_eq, ← UInt64.toNat_inj, UInt64.toNat_shiftRight]
  simp [Nat.shiftRight_eq_div_pow]

/-- Unpacking finds the sign of a double. -/
theorem ofBitVec_unpackSign (x : Float) : Sign.ofBitVec (unpackSign (packed x)) = sign x := by
  have hbit : (unpackSign (packed x)).toNat = x.toBits.toNat / 2 ^ 63 := toNat_unpackSign (packed x)
  have hlt : x.toBits.toNat < 2 ^ 64 := x.toBits.toNat_lt
  rw [sign, Sign.ofBitVec]
  by_cases hneg : isNegative x = true
  · have hone := (isNegative_iff x).mp hneg
    rw [if_pos hneg, if_neg]
    intro hzero
    rw [hzero] at hbit
    change 0 = x.toBits.toNat / 2 ^ 63 at hbit
    omega
  · have hone := mt (isNegative_iff x).mpr hneg
    rw [if_neg hneg, if_pos]
    apply BitVec.eq_of_toNat_eq
    rw [hbit]
    change _ = 0
    omega

/-- The largest field of the exponent marks infinities and NaNs. -/
theorem unpackExponent_eq_neg_one_iff (x : Float) :
    unpackExponent (packed x) = -1#_ ↔ exponentField x = 2047 := by
  rw [← BitVec.toNat_inj, toNat_unpackExponent]
  rfl

/-- The smallest field of the exponent marks zeros and the smallest doubles. -/
theorem unpackExponent_eq_zero_iff (x : Float) :
    unpackExponent (packed x) = 0#_ ↔ exponentField x = 0 := by
  rw [← BitVec.toNat_inj, toNat_unpackExponent]
  rfl

/-- A double that has not the largest field of the exponent is unpacked to sign and magnitude. -/
theorem unpack_of_exponentField {x : Float} (h : exponentField x ≠ 2047) :
    x.toModel.unpack = (magnitude x).unpacked (sign x) := by
  have hmantissa : (unpackMantissa (packed x)).toNat = fractionField x :=
    toNat_unpackMantissa (packed x)
  have hexponent : (unpackExponent (packed x)).toNat = exponentField x :=
    toNat_unpackExponent (packed x)
  have hlargest := mt (unpackExponent_eq_neg_one_iff x).mp h
  change unpack Format.binary64 (packed x) = _
  rw [UnpackedFloat.unpack]
  simp only [ofBitVec_unpackSign, if_neg hlargest]
  rw [magnitude_eq]
  by_cases hzero : exponentField x = 0
  · have hfraction : unpackMantissa (packed x) = 0#_ ↔ fractionField x = 0 := by
      rw [← BitVec.toNat_inj, hmantissa]
      rfl
    rw [if_pos ((unpackExponent_eq_zero_iff x).mpr hzero), if_pos hzero, Magnitude.unpacked]
    by_cases hf : fractionField x = 0
    · rw [dif_pos (hfraction.mpr hf), dif_pos hf]
    · rw [dif_neg (mt hfraction.mp hf), dif_neg hf]
      simp only [UnpackedFloat.finite.injEq, hmantissa, hexponent, hzero, true_and]
      rfl
  · have hsignificand : (1#1 ++ unpackMantissa (packed x)).toNat = fractionField x + 2 ^ 52 := by
      rw [BitVec.toNat_append, ← Nat.shiftLeft_add_eq_or_of_lt (unpackMantissa (packed x)).isLt,
        hmantissa, Nat.add_comm]
      rfl
    have hpositive : fractionField x + 2 ^ 52 ≠ 0 := by omega
    rw [if_neg (mt (unpackExponent_eq_zero_iff x).mp hzero), if_neg hzero, Magnitude.unpacked,
      dif_neg hpositive]
    simp only [UnpackedFloat.finite.injEq, hsignificand, hexponent, true_and]
    rfl

/-- The magnitude of a double that has not the largest field of the exponent is canonical. -/
theorem canonical_magnitude {x : Float} (h : exponentField x ≠ 2047) :
    (magnitude x).Canonical := by
  have hfraction : fractionField x < 2 ^ 52 := Nat.mod_lt _ (by norm_num)
  have hexponent : exponentField x < 2 ^ 11 := Nat.mod_lt _ (by norm_num)
  rw [magnitude_eq]
  by_cases hzero : exponentField x = 0
  · rw [if_pos hzero]
    exact ⟨by dsimp only; omega, by norm_num, by norm_num, fun _ => rfl⟩
  · rw [if_neg hzero]
    exact ⟨by dsimp only; omega, by dsimp only; omega, by dsimp only; omega,
      fun hlt => absurd hlt (by dsimp only; omega)⟩

/-- A double is finite exactly if it has not the largest field of the exponent. -/
theorem isFinite_iff (x : Float) : x.isFinite = true ↔ exponentField x ≠ 2047 := by
  constructor
  · intro hfinite hlargest
    have hunpack : x.toModel.unpack.isFinite = true := hfinite
    have hexponent := (unpackExponent_eq_neg_one_iff x).mpr hlargest
    change (unpack Format.binary64 (packed x)).isFinite = true at hunpack
    rw [UnpackedFloat.unpack] at hunpack
    simp only [if_pos hexponent] at hunpack
    split at hunpack
    · cases hunpack
    · cases hunpack
  · intro h
    change x.toModel.unpack.isFinite = true
    rw [unpack_of_exponentField h, Magnitude.unpacked]
    split
    · rfl
    · rfl

/-- The bits of a canonical magnitude below its sign. -/
def Magnitude.code (m : Magnitude) : Nat :=
  if m.significand < 2 ^ 52 then m.significand
  else (m.exponent + 1075).toNat * 2 ^ 52 + (m.significand - 2 ^ 52)

/-- A finite number that is small enough is packed without its first bit, if that bit is set. -/
theorem pack_finite (sign : Sign) {significand : Nat} {exponent : Int} (hpos : 0 < significand)
    (hfits : (exponent + 1075).toNat + 1 < 2 ^ 11) :
    UnpackedFloat.pack Format.binary64 (.finite sign significand exponent hpos) =
      if significand.log2 + 1 = 53 then
        packComponents Format.binary64 sign (BitVec.ofNat 11 (exponent + 1075).toNat)
          (BitVec.ofNat 52 significand)
      else packComponents Format.binary64 sign 0#11 (BitVec.ofNat 52 significand) := by
  have hbias : (exponent + (Format.binary64.exponentBias : Int) +
      (Format.binary64.mantissaBitsWithoutImplicit : Int)).toNat = (exponent + 1075).toNat := by
    have hvalue : (Format.binary64.exponentBias : Int) +
        (Format.binary64.mantissaBitsWithoutImplicit : Int) = 1075 := rfl
    rw [Int.add_assoc, hvalue]
  rw [UnpackedFloat.pack]
  simp only [hbias]
  rw [if_neg (Nat.not_le.mpr hfits)]
  rfl

/-- Packing a canonical magnitude puts its sign above its code. -/
theorem toNat_pack_unpacked {m : Magnitude} (hm : m.Canonical) (s : Sign) :
    (UnpackedFloat.pack Format.binary64 (m.unpacked s)).toNat =
      s.toBitVec.toNat * 2 ^ 63 + m.code := by
  have hlt := hm.significand_lt
  have hexponent := hm.exponent_le
  rw [Magnitude.unpacked, Magnitude.code]
  by_cases hzero : m.significand = 0
  · rw [dif_pos hzero, hzero, if_pos (by norm_num)]
    have hzeros := toNat_packComponents s 0#11 0#52
    rw [BitVec.toNat_zero, BitVec.toNat_zero, Nat.zero_mul] at hzeros
    exact hzeros
  rw [dif_neg hzero, pack_finite s _ (by omega)]
  by_cases hnormal : m.significand < 2 ^ 52
  · have hlog : m.significand.log2 < 52 := (Nat.log2_lt hzero).mpr hnormal
    rw [if_neg (by omega), if_pos hnormal, toNat_packComponents, BitVec.toNat_ofNat,
      BitVec.toNat_ofNat, Nat.mod_eq_of_lt hnormal]
    omega
  · have hlower := (Nat.le_log2 hzero).mpr (Nat.not_lt.mp hnormal)
    have hupper := (Nat.log2_lt hzero).mpr hlt
    rw [if_pos (by omega), if_neg hnormal, toNat_packComponents, BitVec.toNat_ofNat,
      BitVec.toNat_ofNat, Nat.mod_eq_of_lt (by omega)]
    omega

/-- The sign bit and the code of a double are its bits. -/
theorem toNat_toBits (x : Float) :
    x.toBits.toNat = (sign x).toBitVec.toNat * 2 ^ 63 + (magnitude x).code := by
  have hlt : x.toBits.toNat < 2 ^ 64 := x.toBits.toNat_lt
  have hsign : (sign x).toBitVec.toNat = x.toBits.toNat / 2 ^ 63 := by
    rw [sign]
    by_cases hneg : isNegative x = true
    · rw [if_pos hneg, (isNegative_iff x).mp hneg]
      rfl
    · have hone := mt (isNegative_iff x).mpr hneg
      rw [if_neg hneg]
      change 0 = _
      omega
  have hcode : (magnitude x).code = exponentField x * 2 ^ 52 + fractionField x := by
    have hfraction : fractionField x < 2 ^ 52 := Nat.mod_lt _ (by norm_num)
    rw [magnitude_eq]
    by_cases hzero : exponentField x = 0
    · rw [if_pos hzero, Magnitude.code, if_pos hfraction, hzero, Nat.zero_mul, Nat.zero_add]
    · rw [if_neg hzero, Magnitude.code, if_neg (by dsimp only; omega)]
      dsimp only
      omega
  rw [hsign, hcode, exponentField, fractionField]
  omega

/-- Two doubles of the same bits are equal. -/
theorem eq_of_toNat_toBits {x y : Float} (h : x.toBits.toNat = y.toBits.toNat) : x = y := by
  have hbits : x.toModel.toBits = y.toModel.toBits := UInt64.toNat_inj.mp h
  obtain ⟨⟨bits, valid⟩⟩ := x
  obtain ⟨⟨bits', valid'⟩⟩ := y
  cases hbits
  rfl

/-- A finite double is the double of its magnitude and sign. -/
theorem toFloat_magnitude {x : Float} (hx : x.isFinite = true) :
    (magnitude x).toFloat (sign x) = x := by
  apply eq_of_toNat_toBits
  rw [toNat_toBits x]
  exact toNat_pack_unpacked (canonical_magnitude ((isFinite_iff x).mp hx)) (sign x)

/-- The code of a canonical magnitude leaves the sign bit alone, and its exponent is not the
largest. -/
theorem Magnitude.Canonical.code_lt {m : Magnitude} (hm : m.Canonical) :
    m.code < 2047 * 2 ^ 52 := by
  have hlt := hm.significand_lt
  have hle := hm.exponent_le
  rw [code]
  split
  · omega
  · omega

/-- The bits of the double of a canonical magnitude. -/
theorem toNat_toBits_toFloat {m : Magnitude} (hm : m.Canonical) (s : Sign) :
    (m.toFloat s).toBits.toNat = s.toBitVec.toNat * 2 ^ 63 + m.code :=
  toNat_pack_unpacked hm s

/-- The sign is read off a double. -/
theorem sign_toFloat {m : Magnitude} (hm : m.Canonical) (s : Sign) : sign (m.toFloat s) = s := by
  have hcode := hm.code_lt
  have hiff := isNegative_iff (m.toFloat s)
  rw [toNat_toBits_toFloat hm s] at hiff
  rw [sign]
  cases s with
  | negative =>
    have hone : Sign.negative.toBitVec.toNat = 1 := rfl
    rw [if_pos (hiff.mpr (by rw [hone]; omega))]
  | positive =>
    have hzero : Sign.positive.toBitVec.toNat = 0 := rfl
    rw [if_neg (mt hiff.mp (by rw [hzero]; omega))]

/-- The field of the exponent is the upper part of the code. -/
theorem exponentField_toFloat {m : Magnitude} (hm : m.Canonical) (s : Sign) :
    exponentField (m.toFloat s) = m.code / 2 ^ 52 := by
  have hcode := hm.code_lt
  rw [exponentField, toNat_toBits_toFloat hm s]
  omega

/-- The field of the fraction is the lower part of the code. -/
theorem fractionField_toFloat {m : Magnitude} (hm : m.Canonical) (s : Sign) :
    fractionField (m.toFloat s) = m.code % 2 ^ 52 := by
  rw [fractionField, toNat_toBits_toFloat hm s]
  omega

/-- A canonical magnitude is read off its double. -/
theorem magnitude_toFloat {m : Magnitude} (hm : m.Canonical) (s : Sign) :
    magnitude (m.toFloat s) = m := by
  have hlt := hm.significand_lt
  have hge := hm.exponent_ge
  rw [magnitude_eq, exponentField_toFloat hm s, fractionField_toFloat hm s, Magnitude.code]
  by_cases hnormal : m.significand < 2 ^ 52
  · have hzero : m.significand / 2 ^ 52 = 0 := Nat.div_eq_of_lt hnormal
    rw [if_pos hnormal, if_pos hzero, Nat.mod_eq_of_lt hnormal, ← hm.exponent_eq hnormal]
  · -- Both fields of a significand with its first bit set are computed without a carry.
    have hexponent : ((m.exponent + 1075).toNat * 2 ^ 52 + (m.significand - 2 ^ 52)) / 2 ^ 52 =
        (m.exponent + 1075).toNat := by omega
    have hfraction : ((m.exponent + 1075).toNat * 2 ^ 52 + (m.significand - 2 ^ 52)) % 2 ^ 52 =
        m.significand - 2 ^ 52 := by omega
    rw [if_neg hnormal, hexponent, hfraction, if_neg (by omega)]
    obtain ⟨significand, exponent⟩ := m
    rw [Magnitude.mk.injEq]
    constructor
    · dsimp only at hnormal ⊢
      omega
    · dsimp only at hge ⊢
      omega

/-- The double of a canonical magnitude is finite. -/
theorem isFinite_toFloat {m : Magnitude} (hm : m.Canonical) (s : Sign) :
    (m.toFloat s).isFinite = true := by
  have hcode := hm.code_lt
  rw [isFinite_iff, exponentField_toFloat hm s]
  omega

/-- A canonical magnitude and a sign are unpacked from their double. -/
theorem unpack_toFloat {m : Magnitude} (hm : m.Canonical) (s : Sign) :
    (m.toFloat s).toModel.unpack = m.unpacked s := by
  rw [unpack_of_exponentField ((isFinite_iff _).mp (isFinite_toFloat hm s)),
    magnitude_toFloat hm s, sign_toFloat hm s]

/-- A finite double has a canonical magnitude. -/
theorem canonical_of_isFinite {x : Float} (hx : x.isFinite = true) : (magnitude x).Canonical :=
  canonical_magnitude ((isFinite_iff x).mp hx)

/-- A finite double is unpacked to its sign and magnitude. -/
theorem unpack_of_isFinite {x : Float} (hx : x.isFinite = true) :
    x.toModel.unpack = (magnitude x).unpacked (sign x) :=
  unpack_of_exponentField ((isFinite_iff x).mp hx)

/-- Negating a magnitude with a sign changes the sign. -/
theorem neg_unpacked (m : Magnitude) (s : Sign) : (m.unpacked s).neg = m.unpacked (-s) := by
  rw [Magnitude.unpacked, Magnitude.unpacked]
  split
  · rfl
  · rfl

/-- A minus before a finite double changes the sign and keeps the magnitude. -/
theorem neg_of_isFinite {x : Float} (hx : x.isFinite = true) :
    -x = (magnitude x).toFloat (-sign x) := by
  have hneg : (-x).toModel = Float.Model.pack x.toModel.unpack.neg := rfl
  rw [unpack_of_isFinite hx, neg_unpacked] at hneg
  exact congrArg Float.ofModel hneg

/-- A double with the largest field of the exponent is an infinity or a NaN. -/
theorem unpack_of_largest {x : Float} (h : exponentField x = 2047) :
    x.toModel.unpack = if fractionField x = 0 then .infinity (sign x) else .notANumber := by
  have hfraction : unpackMantissa (packed x) = 0#_ ↔ fractionField x = 0 := by
    rw [← BitVec.toNat_inj, toNat_unpackMantissa]
    rfl
  change unpack Format.binary64 (packed x) = _
  rw [UnpackedFloat.unpack]
  simp only [ofBitVec_unpackSign, if_pos ((unpackExponent_eq_neg_one_iff x).mpr h), hfraction]

/-- Every double is packed again as it was unpacked. -/
theorem pack_unpack (x : Float) : Float.ofModel (.pack x.toModel.unpack) = x := by
  by_cases h : exponentField x = 2047
  · rw [unpack_of_largest h]
    by_cases hfraction : fractionField x = 0
    · rw [if_pos hfraction]
      apply eq_of_toNat_toBits
      have hcode : (magnitude x).code = 2047 * 2 ^ 52 := by
        rw [magnitude_eq, if_neg (by omega), Magnitude.code, h, hfraction]
        rw [if_neg (by dsimp only; omega)]
        dsimp only
        omega
      have hones : (-1#11).toNat = 2047 := rfl
      have hpack := toNat_packComponents (sign x) (-1#11) 0#52
      rw [hones, BitVec.toNat_zero, Nat.add_zero] at hpack
      rw [toNat_toBits x, hcode]
      exact hpack
    · -- A model admits one NaN only.
      rw [if_neg hfraction]
      have hnan := x.toModel.valid.eq_packedNaN ((unpackExponent_eq_neg_one_iff x).mpr h) (by
        rw [Ne, ← BitVec.toNat_inj]
        exact fun hzero => hfraction ((toNat_unpackMantissa (packed x)).symm.trans hzero))
      apply eq_of_toNat_toBits
      exact (congrArg BitVec.toNat hnan).symm
  · rw [unpack_of_exponentField h]
    exact toFloat_magnitude ((isFinite_iff x).mpr h)

/-- A negated double is unpacked as it was packed. -/
theorem unpack_neg (x : Float) : (-x).toModel.unpack = x.toModel.unpack.neg := by
  change (Float.Model.pack x.toModel.unpack.neg).unpack = _
  by_cases h : exponentField x = 2047
  · rw [unpack_of_largest h]
    split
    · cases sign x <;> rfl
    · rfl
  · have hx := (isFinite_iff x).mpr h
    have hneg := unpack_toFloat (canonical_magnitude h) (-sign x)
    rw [← neg_of_isFinite hx] at hneg
    change (-x).toModel.unpack = _
    rw [hneg, unpack_of_exponentField h, neg_unpacked]

/-- A minus before a double does not make it infinite or undefined, nor finite. -/
theorem isFinite_neg (x : Float) : (-x).isFinite = x.isFinite := by
  change (-x).toModel.unpack.isFinite = x.toModel.unpack.isFinite
  rw [unpack_neg]
  cases x.toModel.unpack <;> rfl

/-- Two minuses cancel. -/
theorem neg_neg (x : Float) : -(-x) = x := by
  have hneg : (-(-x)) = Float.ofModel (.pack (-x).toModel.unpack.neg) := rfl
  have htwice : x.toModel.unpack.neg.neg = x.toModel.unpack := by
    cases x.toModel.unpack with
    | notANumber => rfl
    | infinity s | zero s | finite s => cases s <;> rfl
  rw [hneg, unpack_neg, htwice, pack_unpack]

/-- The double zero has no minus. -/
theorem unpack_zero : (0 : Float).toModel.unpack = .zero .positive := by
  have hmagnitude : magnitude 0 = ⟨0, -1074⟩ := by decide +kernel
  have hsign : isNegative 0 = false := by decide +kernel
  rw [unpack_of_isFinite (by decide +kernel), hmagnitude, sign, hsign]
  rfl

end FormulaRules.Number
