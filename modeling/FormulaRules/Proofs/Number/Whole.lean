import FormulaRules.Number.Rounding
import FormulaRules.Proofs.Number.FromDecimal

/-!
# Rounding stays finite

A double with a fraction is below the 52nd power of two, so the whole numbers next to it are
doubles. Main statement: a finite double that is replaced by one of them stays finite.
-/

namespace FormulaRules.Number

open Float.Model Float.Model.UnpackedFloat

/-- A whole number below the 53rd power of two is a finite double. -/
theorem isFinite_toFloat_toUInt64 {n : Nat} (hlt : n < 2 ^ 53) :
    n.toUInt64.toFloat.isFinite = true := by
  by_cases hzero : n = 0
  · subst hzero
    decide +kernel
  · obtain ⟨a, ha, -, hunpack⟩ := unpack_toFloat_toUInt64 hzero hlt
    change n.toUInt64.toFloat.toModel.unpack.isFinite = true
    rw [hunpack, Magnitude.unpacked, dif_neg (by omega)]
    rfl

/-- A whole number below the 53rd power of two is a finite double with either sign. -/
theorem isFinite_ofWhole {n : Nat} (hlt : n < 2 ^ 53) (negative : Bool) :
    (ofWhole negative n).isFinite = true := by
  rw [ofWhole]
  cases negative with
  | true => exact (isFinite_neg _).trans (isFinite_toFloat_toUInt64 hlt)
  | false => exact isFinite_toFloat_toUInt64 hlt

/-- The whole part of a number that may have a fraction is below the 52nd power of two. -/
theorem Magnitude.Canonical.whole_split_lt {m : Magnitude} (hm : m.Canonical)
    (hexponent : m.exponent < 0) : m.split.whole < 2 ^ 52 := by
  have hsignificand := hm.significand_lt
  have htwo : 2 ^ 1 ≤ 2 ^ (-m.exponent).toNat := Nat.pow_le_pow_right (by norm_num) (by omega)
  rw [split, Nat.shiftRight_eq_div_pow]
  exact Nat.div_lt_of_lt_mul (by omega)

/-- A finite double stays finite when it is replaced by the whole number below its magnitude or by
the one above. -/
theorem isFinite_toWhole {pick : Bool → Split → Nat} (hpick : ∀ b s, pick b s ≤ s.whole + 1)
    {x : Float} (hx : x.isFinite = true) : (toWhole pick x).isFinite = true := by
  rw [toWhole]
  split
  · exact hx
  · next hexponent =>
    have hwhole := (canonical_of_isFinite hx).whole_split_lt (Int.not_le.mp hexponent)
    have hle := hpick (isNegative x) (magnitude x).split
    exact isFinite_ofWhole (by omega) _

/-- A finite double stays finite when it is rounded to the nearest whole number. -/
theorem isFinite_round {x : Float} (hx : x.isFinite = true) : (round x).isFinite = true := by
  refine isFinite_toWhole (fun _ s => ?_) hx
  split
  · exact Nat.le_refl _
  · exact Nat.le_succ _

end FormulaRules.Number
