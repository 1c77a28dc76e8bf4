import FormulaRules.Number.Shortest
import FormulaRules.Proofs.Number.FromDecimal

/-!
# The shortest digits are nearest to the number

The search for the shortest digits compares whole numbers. The comparisons say exactly that the
decimal lies in the interval of the magnitude, so what the search finds is read back as the same
double. When no grid of the search has such a decimal, the exact value is taken.
-/

namespace FormulaRules.Number

/-- A binary and a decimal number compare as whole numbers do, with the denominators multiplied
out. -/
theorem binary_le_decimal_iff (a n : Nat) (unit place : Int) :
    a * Nat.pow 2 unit.toNat * Nat.pow 10 (-place).toNat ≤
      n * Nat.pow 10 place.toNat * Nat.pow 2 (-unit).toNat ↔
    (a * 2 ^ unit : ℚ) ≤ n * 10 ^ place := by
  rw [zpow_eq_pow_div_pow 2 unit, zpow_eq_pow_div_pow 10 place, ← mul_div_assoc, ← mul_div_assoc,
    div_le_div_iff₀ (by positivity) (by positivity)]
  exact_mod_cast Iff.rfl

/-- A decimal and a binary number compare as whole numbers do, with the denominators multiplied
out. -/
theorem decimal_le_binary_iff (a n : Nat) (unit place : Int) :
    n * Nat.pow 10 place.toNat * Nat.pow 2 (-unit).toNat ≤
      a * Nat.pow 2 unit.toNat * Nat.pow 10 (-place).toNat ↔
    (n * 10 ^ place : ℚ) ≤ a * 2 ^ unit := by
  rw [zpow_eq_pow_div_pow 2 unit, zpow_eq_pow_div_pow 10 place, ← mul_div_assoc, ← mul_div_assoc,
    div_le_div_iff₀ (by positivity) (by positivity)]
  exact_mod_cast Iff.rfl

/-- A decimal that reads back lies in the interval of the magnitude. -/
theorem nearest_of_readsBack {m : Magnitude} (hpos : m.significand ≠ 0) {n : Nat} {place : Int}
    (h : readsBack m n place = true) : m.Nearest (n * 10 ^ place) := by
  obtain ⟨below, hbelow⟩ : ∃ below : Nat,
      below = if m.significand = Nat.pow 2 52 ∧ -1074 < m.exponent then 1 else 2 := ⟨_, rfl⟩
  have hreach : m.reach = (below : ℚ) / 4 := by
    rw [hbelow, Magnitude.reach]
    change (if m.significand = 2 ^ 52 ∧ -1074 < m.exponent then (1 / 4 : ℚ) else 1 / 2) =
      ((if m.significand = 2 ^ 52 ∧ -1074 < m.exponent then 1 else 2 : Nat) : ℚ) / 4
    split <;> norm_num
  have hquarter : (2 : ℚ) ^ m.exponent = 4 * 2 ^ (m.exponent - 2) := by
    rw [show (4 : ℚ) = 2 ^ (2 : Int) by norm_num, ← zpow_add₀ two_ne_zero]
    congr 1
    ring
  have hle : below ≤ 4 * m.significand := by
    have : below ≤ 2 := by
      rw [hbelow]
      split <;> omega
    omega
  have hlow : (m.significand - m.reach) * 2 ^ m.exponent =
      ((4 * m.significand - below : Nat) : ℚ) * 2 ^ (m.exponent - 2) := by
    rw [hreach, hquarter]
    push_cast [hle]
    ring
  have hhigh : (m.significand + 1 / 2) * 2 ^ m.exponent =
      ((4 * m.significand + 2 : Nat) : ℚ) * 2 ^ (m.exponent - 2) := by
    rw [hquarter]
    push_cast
    ring
  simp only [readsBack, ← hbelow] at h
  split at h
  · next heven =>
    rw [Bool.and_eq_true, decide_eq_true_eq, decide_eq_true_eq, binary_le_decimal_iff,
      decimal_le_binary_iff, ← hlow, ← hhigh] at h
    exact ⟨h.1, h.2, fun hodd => absurd heven (by omega)⟩
  · rw [Bool.and_eq_true, decide_eq_true_eq, decide_eq_true_eq, ← not_le, ← not_le,
      binary_le_decimal_iff, decimal_le_binary_iff, not_le, not_le, ← hlow, ← hhigh] at h
    exact ⟨h.1.le, h.2.le, fun _ => h⟩

/-- A rounded quotient is one of the two whole numbers next to the exact one. -/
theorem roundQuotient_eq_or (tie : Tie) (numerator denominator : Nat) :
    roundQuotient tie numerator denominator = numerator / denominator ∨
      roundQuotient tie numerator denominator = numerator / denominator + 1 := by
  rw [roundQuotient.eq_def]
  dsimp only
  split
  · exact .inl rfl
  · split
    · exact .inr rfl
    · cases tie with
      | awayFromZero => exact .inr rfl
      | toEven =>
        rcases Nat.mod_two_eq_zero_or_one (numerator / denominator) with hbit | hbit
        · exact .inl (by simp only [hbit, Nat.add_zero])
        · exact .inr (by simp only [hbit])

/-- What a grid yields reads back. -/
theorem readsBack_of_onGrid {tie : Tie} {m : Magnitude} {place : Int} {n : Nat}
    (h : onGrid? tie m place = some n) : readsBack m n place = true := by
  rw [onGrid?] at h
  dsimp only at h
  split at h
  · next hlower hupper =>
    obtain rfl := Option.some.inj h
    rcases roundQuotient_eq_or tie (overPlace m place).1 (overPlace m place).2 with heq | heq
    · exact heq ▸ hlower
    · exact heq ▸ hupper
  · next hlower _ => exact Option.some.inj h ▸ hlower
  · next _ hupper => exact Option.some.inj h ▸ hupper
  · exact absurd h (Option.some_ne_none n).symm

/-- On a grid that is fine enough a magnitude is a whole number. -/
theorem value_eq_overPlace {m : Magnitude} (places : Nat) (hfine : -(places : Int) ≤ m.exponent) :
    m.value = ((overPlace m (-places)).1 / (overPlace m (-places)).2 : Nat) *
      10 ^ (-(places : Int)) := by
  obtain ⟨k, hk⟩ : ∃ k, k + (-m.exponent).toNat = places :=
    ⟨places - (-m.exponent).toNat, by omega⟩
  have hten : 10 ^ places = 5 ^ places * 2 ^ k * 2 ^ (-m.exponent).toNat := by
    rw [Nat.mul_assoc, ← Nat.pow_add, hk, ← Nat.mul_pow]
  have hwhole : (overPlace m (-places)).1 / (overPlace m (-places)).2 =
      m.significand * 2 ^ m.exponent.toNat * (5 ^ places * 2 ^ k) := by
    simp only [overPlace, Nat.pow_eq, Int.neg_neg, Int.toNat_natCast, Int.toNat_neg_natCast, pow_zero,
      mul_one, hten]
    rw [← Nat.mul_assoc, Nat.mul_div_cancel _ (by positivity)]
  rw [hwhole, Magnitude.value, zpow_eq_pow_div_pow 2, zpow_neg, zpow_natCast]
  have hten' : (10 : ℚ) ^ places = 5 ^ places * 2 ^ k * 2 ^ (-m.exponent).toNat := by
    exact_mod_cast hten
  rw [hten']
  push_cast
  field_simp

/-- The shortest digits are those of a decimal nearest to the magnitude. -/
theorem shortest_nearest (tie : Tie) {m : Magnitude} (hm : m.Canonical) (hpos : m.significand ≠ 0) :
    ∃ n place, shortest tie m = Decimal.ofScaled n place ∧ m.Nearest (n * 10 ^ place) := by
  rw [shortest]
  dsimp only
  split
  · next decimal h =>
    obtain ⟨count, -, hgrid⟩ := List.exists_of_findSome?_eq_some h
    obtain ⟨n, hn, hdecimal⟩ := Option.map_eq_some_iff.mp hgrid
    exact ⟨n, _, hdecimal.symm, nearest_of_readsBack hpos (readsBack_of_onGrid hn)⟩
  · exact ⟨_, _, rfl, value_eq_overPlace 1074 hm.exponent_ge ▸ m.nearest_value⟩

end FormulaRules.Number
