import FormulaRules.Proofs.Number.Written

/-!
# The signs of doubles

The sign of an unpacked double survives packing, so what a product, a quotient or a rounding of
positive numbers is packed to has no minus. A decimal without a sign is therefore never read as
negative zero, and adding it to zero or taking it from zero gives it with its own or the opposite
sign. Taking zero from zero is left out: this gives zero without a minus.
-/

namespace FormulaRules.Number

open Float.Model Float.Model.UnpackedFloat

/-- The sign of an unpacked double. A NaN counts as positive. -/
def signOf : UnpackedFloat → Sign
  | .finite s _ _ _ | .zero s | .infinity s => s
  | .notANumber => .positive

/-- Packing puts the sign above two other fields. -/
theorem exists_packComponents (u : UnpackedFloat) :
    ∃ e f, UnpackedFloat.pack Format.binary64 u =
      packComponents Format.binary64 (signOf u) e f := by
  cases u with
  | notANumber => exact ⟨_, _, rfl⟩
  | infinity s => exact ⟨_, _, rfl⟩
  | zero s => exact ⟨_, _, rfl⟩
  | finite s m e hm =>
    simp only [UnpackedFloat.pack]
    split
    · exact ⟨_, _, rfl⟩
    · split <;> exact ⟨_, _, rfl⟩

/-- A packed double has the sign that it is packed with. -/
theorem sign_pack (u : UnpackedFloat) : sign (.ofModel (.pack u)) = signOf u := by
  obtain ⟨e, f, hpack⟩ := exists_packComponents u
  have hbits : (Float.ofModel (.pack u)).toBits.toNat =
      (signOf u).toBitVec.toNat * 2 ^ 63 + e.toNat * 2 ^ 52 + f.toNat := by
    rw [← toNat_packComponents, ← hpack]
    rfl
  have he : e.toNat < 2 ^ 11 := e.isLt
  have hf : f.toNat < 2 ^ 52 := f.isLt
  have hnegative := isNegative_iff (Float.ofModel (.pack u))
  rw [hbits] at hnegative
  rw [sign]
  cases hsign : signOf u with
  | positive =>
    have hbit : Sign.positive.toBitVec.toNat = 0 := rfl
    rw [hsign, hbit] at hnegative
    exact if_neg fun h => by have := hnegative.mp h; omega
  | negative =>
    have hbit : Sign.negative.toBitVec.toNat = 1 := rfl
    rw [hsign, hbit] at hnegative
    exact if_pos (hnegative.mpr (by omega))

/-- A double is unpacked with its sign. -/
theorem signOf_unpack (x : Float) : signOf x.toModel.unpack = sign x := by
  rw [← sign_pack, pack_unpack]

/-- A double is not negative if its sign is positive. -/
theorem isNegative_eq_false_iff {x : Float} : isNegative x = false ↔ sign x = .positive := by
  rw [sign]
  cases isNegative x <;> simp

/-- Rounding keeps the sign. -/
theorem signOf_round (spec : Format) (s : Sign) (m : Nat) (e : Int) (a : Accuracy) :
    signOf (roundWithAccuracy spec s m e a) = s := by
  simp only [roundWithAccuracy]
  split
  · rfl
  · rfl

/-- A product of positive numbers has no minus. -/
theorem signOf_mul (spec : Format) {u v : UnpackedFloat} (hu : signOf u = .positive)
    (hv : signOf v = .positive) : signOf (u.mul spec v) = .positive := by
  cases u <;> cases v <;> cases hu <;> cases hv <;> first | rfl | exact signOf_round ..

/-- A quotient of positive numbers has no minus. -/
theorem signOf_div (spec : Format) {u v : UnpackedFloat} (hu : signOf u = .positive)
    (hv : signOf v = .positive) : signOf (u.div spec v) = .positive := by
  cases u <;> cases v <;> cases hu <;> cases hv <;> first | rfl | exact signOf_round ..

/-- A whole number without a minus is unpacked without one. -/
theorem signOf_ofNat (spec : Format) (n : Nat) :
    signOf (UnpackedFloat.ofNat spec n) = .positive := by
  rw [UnpackedFloat.ofNat, UnpackedFloat.ofInt, UnpackedFloat.normalize.eq_def]
  split
  · next h =>
    have hlt := Int.compare_eq_lt.mp h
    exact absurd hlt (Int.not_lt.mpr (Int.natCast_nonneg n))
  · rfl
  · exact signOf_round ..

/-- A decimal is rounded to a number without a minus. -/
theorem signOf_ofScientific (spec : Format) (n : Nat) (place : Int) :
    signOf (UnpackedFloat.ofScientific spec n place) = .positive := by
  rw [UnpackedFloat.ofScientific]
  split_ifs
  · rfl
  · rfl
  · rfl
  · exact signOf_mul spec rfl rfl
  · exact signOf_div spec rfl rfl

/-- A decimal is not below zero, nor negative zero. -/
theorem isNegative_ofDecimal (n : Nat) (place : Int) : isNegative (ofDecimal n place) = false := by
  rw [isNegative_eq_false_iff, ofDecimal, Float.ofScientific]
  split
  · next h =>
    have hn : signOf n.toUInt64.toFloat.toModel.unpack = .positive := by
      rw [signOf_unpack]
      exact (sign_pack _).trans (signOf_ofNat _ _)
    have hlt : place.natAbs < Float.exactlyRepresentablePowersOfTen.size := Nat.lt_succ_of_le h.2
    have hpower : signOf Float.exactlyRepresentablePowersOfTen[place.natAbs].toModel.unpack =
        .positive := by
      rw [signOf_unpack, ← isNegative_eq_false_iff]
      exact (powerOfTen_exact ⟨place.natAbs, hlt⟩).2.1
    dsimp only
    split
    · exact (sign_pack _).trans (signOf_div _ hn hpower)
    · exact (sign_pack _).trans (signOf_mul _ hn hpower)
  · exact (sign_pack _).trans (signOf_ofScientific _ n _)

/-- A number without a sign is not below zero, nor negative zero. -/
theorem isNegative_of_readChars? {cs : List Char} {x : Float}
    (hsign : ∀ c ∈ cs.head?, c ≠ '-' ∧ c ≠ '+') (h : readChars? cs = some x) :
    isNegative x = false := by
  have hread : (readWord? cs).or (readDecimal? cs) = some x := by
    simpa [readChars?, readSigned?, spanSign_eq_self hsign] using h
  rcases Option.or_eq_some_iff.mp hread with hword | ⟨-, hdecimal⟩
  · unfold readWord? at hword
    split at hword
    · cases hword
      decide +kernel
    · cases hword
      decide +kernel
    · cases hword
      decide +kernel
    · cases hword
  · obtain ⟨⟨n, place⟩, -, rfl⟩ := Option.map_eq_some_iff.mp hdecimal
    exact isNegative_ofDecimal n place

/-- A finite double is unpacked to a zero or to a finite number, each with its sign. -/
theorem unpack_cases {x : Float} (hx : x.isFinite = true) :
    (x == 0) = true ∧ x.toModel.unpack = .zero (sign x) ∨
    (x == 0) = false ∧ ∃ m e hm, x.toModel.unpack = .finite (sign x) m e hm := by
  have hzero := beq_zero_iff hx
  rw [unpack_of_isFinite hx, Magnitude.unpacked]
  split
  · next h => exact .inl ⟨hzero.mpr h, rfl⟩
  · next h => exact .inr ⟨Bool.eq_false_iff.mpr fun hx => h (hzero.mp hx), _, _,
      Nat.pos_of_ne_zero h, rfl⟩

/-- A zero without a minus is the literal zero. -/
theorem eq_zero {x : Float} (hx : x.isFinite = true) (hzero : (x == 0) = true)
    (hpositive : isNegative x = false) : x = 0 := by
  rcases unpack_cases hx with ⟨-, hunpack⟩ | ⟨hne, -⟩
  · rw [isNegative_eq_false_iff.mp hpositive, ← unpack_zero] at hunpack
    rw [← pack_unpack x, hunpack, pack_unpack]
  · cases hzero.symm.trans hne

/-- A finite double without a minus is not zero or is the literal zero. -/
theorem beq_zero_or_eq_zero {x : Float} (hx : x.isFinite = true)
    (hpositive : isNegative x = false) : (x == 0) = false ∨ x = 0 := by
  cases hzero : x == 0 with
  | false => exact .inl rfl
  | true => exact .inr (eq_zero hx hzero hpositive)

/-- A minus does not make a double zero, nor keep it from being zero. -/
theorem neg_beq_zero (x : Float) : (-x == 0) = (x == 0) := by
  change ((-x).toModel.unpack.compare (0 : Float).toModel.unpack == some .eq) =
    (x.toModel.unpack.compare (0 : Float).toModel.unpack == some .eq)
  rw [unpack_neg, unpack_zero]
  cases x.toModel.unpack with
  | notANumber => rfl
  | infinity s | zero s | finite s => cases s <;> rfl

/-- Taking a double from zero changes its sign, unless the double is zero. -/
theorem zero_sub {x : Float} (hx : x.isFinite = true) (hne : (x == 0) = false) : 0 - x = -x := by
  have hsub : 0 - x =
      .ofModel (.pack ((0 : Float).toModel.unpack.sub Format.binary64 x.toModel.unpack)) := rfl
  have hneg : -x = .ofModel (.pack x.toModel.unpack.neg) := rfl
  rcases unpack_cases hx with ⟨hzero, -⟩ | ⟨-, m, e, hm, hunpack⟩
  · cases hzero.symm.trans hne
  · rw [hsub, hneg, unpack_zero, hunpack]
    rfl

/-- Adding a double to zero keeps it, unless it is negative zero. -/
theorem zero_add {x : Float} (hx : x.isFinite = true)
    (hne : (x == 0) = false ∨ isNegative x = false) : 0 + x = x := by
  have hadd : 0 + x =
      .ofModel (.pack ((0 : Float).toModel.unpack.add Format.binary64 x.toModel.unpack)) := rfl
  have hself : UnpackedFloat.add Format.binary64 (.zero .positive) x.toModel.unpack =
      x.toModel.unpack := by
    rcases unpack_cases hx with ⟨hzero, hunpack⟩ | ⟨-, m, e, hm, hunpack⟩
    · rcases hne with hne | hpositive
      · cases hzero.symm.trans hne
      · rw [hunpack, isNegative_eq_false_iff.mp hpositive]
        rfl
    · rw [hunpack]
      rfl
  rw [hadd, unpack_zero, hself, pack_unpack]

end FormulaRules.Number
