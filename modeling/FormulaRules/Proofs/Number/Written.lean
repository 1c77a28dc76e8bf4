import FormulaRules.Number.Layout
import FormulaRules.Number.Read
import FormulaRules.Proofs.Number.Shortest

/-!
# Written numbers are read back

Dropping the zeros at the end of the shortest digits and laying the rest out around the point
keeps the value they stand for. So the plain form of a finite double shows a decimal that is
nearest to the double, and reading it gives the double again.
-/

namespace FormulaRules.Number

/-- Digits behind others move these up by as many places. -/
theorem ofDigits_append (ds es : List Char) :
    ofDigits (ds ++ es) = 10 ^ es.length * ofDigits ds + ofDigits es := by
  change Nat.ofDigitChars 10 (ds ++ es) 0 = 10 ^ es.length * Nat.ofDigitChars 10 ds 0 +
    Nat.ofDigitChars 10 es 0
  rw [Nat.ofDigitChars_append, Nat.ofDigitChars_eq_ofDigitChars_zero]

/-- Zeros have the value zero. -/
theorem ofDigits_zeros (count : Nat) : ofDigits (zeros count) = 0 := by
  change Nat.ofDigitChars 10 (List.replicate count '0') 0 = 0
  rw [Nat.ofDigitChars_replicate_zero, Nat.mul_zero]

/-- The digits of a whole number have its value. -/
theorem ofDigits_wholeDigits (n : Nat) : ofDigits (wholeDigits n) = n :=
  Nat.ofDigitChars_ten_toDigits

/-- The digits of a whole number are decimal digits. -/
theorem isDigit_of_mem_wholeDigits {n : Nat} {c : Char} (h : c ∈ wholeDigits n) :
    c.isDigit = true :=
  Nat.isDigit_of_mem_toDigits (by decide) (by decide) h

/-- Zeros are decimal digits. -/
theorem isDigit_of_mem_zeros {count : Nat} {c : Char} (h : c ∈ zeros count) : c.isDigit = true := by
  rw [List.eq_of_mem_replicate h]
  decide

/-- Only zeros are dropped at the end. -/
theorem exists_dropTrailingZeros_append (ds : List Char) :
    ∃ count, ds = dropTrailingZeros ds ++ zeros count := by
  obtain ⟨count, hcount⟩ : ∃ count, ds.reverse.takeWhile (· == '0') = zeros count := by
    refine ⟨_, List.eq_replicate_of_mem fun c hc => ?_⟩
    have hzero := List.mem_takeWhile_imp hc
    exact beq_iff_eq.mp hzero
  refine ⟨count, ?_⟩
  calc ds = (ds.reverse.takeWhile (· == '0') ++ ds.reverse.dropWhile (· == '0')).reverse := by
        rw [List.takeWhile_append_dropWhile, List.reverse_reverse]
    _ = dropTrailingZeros ds ++ zeros count := by
        rw [List.reverse_append, hcount, zeros, List.reverse_replicate, dropTrailingZeros]

namespace Decimal

/-- The number that a decimal stands for. -/
def value (d : Decimal) : ℚ := ofDigits d.digits * 10 ^ (d.point - d.digits.length)

/-- Dropping zeros at the end keeps the value. -/
theorem value_ofScaled (n : Nat) (place : Int) : (ofScaled n place).value = n * 10 ^ place := by
  obtain ⟨count, hcount⟩ := exists_dropTrailingZeros_append (wholeDigits n)
  have hn : n = 10 ^ count * ofDigits (dropTrailingZeros (wholeDigits n)) := by
    conv_lhs => rw [← ofDigits_wholeDigits n, hcount, ofDigits_append, ofDigits_zeros]
    simp [zeros]
  have hlength : ((wholeDigits n).length : Int) =
      (dropTrailingZeros (wholeDigits n)).length + count := by
    conv_lhs => rw [hcount]
    simp [zeros]
  have hplace : (ofScaled n place).point - (ofScaled n place).digits.length = count + place := by
    simp only [ofScaled, hlength]
    ring
  rw [value, hplace, zpow_add₀ (by norm_num), zpow_natCast]
  conv_rhs => rw [hn]
  push_cast
  simp only [ofScaled]
  ring

/-- The digits of a decimal are laid out around the point with their value kept. -/
theorem value_parts (d : Decimal) :
    (ofDigits (d.parts.1 ++ d.parts.2) : ℚ) * 10 ^ (-(d.parts.2.length : Int)) = d.value := by
  rw [parts, value]
  split
  · next hpoint =>
    have hvalue : ofDigits (['0'] ++ (zeros (-d.point).toNat ++ d.digits)) = ofDigits d.digits := by
      rw [ofDigits_append, ofDigits_append, ofDigits_zeros, Nat.mul_zero, Nat.zero_add]
      exact (Nat.add_comm _ _).trans (Nat.add_eq_left.mpr (Nat.mul_zero _))
    have hlength : -((zeros (-d.point).toNat ++ d.digits).length : Int) =
        d.point - d.digits.length := by
      simp only [zeros, List.length_append, List.length_replicate]
      omega
    rw [hvalue, hlength]
  · next hpoint =>
    dsimp only
    rcases Nat.le_total d.digits.length d.point.toNat with hle | hle
    · have hplace : (d.point.toNat - d.digits.length : Nat) = d.point - d.digits.length := by omega
      rw [List.take_of_length_le hle, List.drop_eq_nil_of_le hle, List.append_nil, ofDigits_append,
        ofDigits_zeros, ← hplace, zpow_natCast]
      simp [zeros, mul_comm]
    · have hplace : -((d.digits.drop d.point.toNat).length : Int) = d.point - d.digits.length := by
        rw [List.length_drop]
        omega
      rw [Nat.sub_eq_zero_of_le hle, hplace, zeros, List.replicate_zero, List.append_nil,
        List.take_append_drop]

/-- There is a digit before the point. -/
theorem parts_fst_ne_nil (d : Decimal) : d.parts.1 ≠ [] := by
  rw [parts]
  split
  · exact List.cons_ne_nil _ _
  · refine List.ne_nil_of_length_pos ?_
    simp only [zeros, List.length_append, List.length_take, List.length_replicate]
    omega

/-- Only digits are laid out. -/
theorem isDigit_of_mem_parts {d : Decimal} (hd : ∀ c ∈ d.digits, c.isDigit = true) {c : Char}
    (hc : c ∈ d.parts.1 ∨ c ∈ d.parts.2) : c.isDigit = true := by
  rw [parts] at hc
  split at hc
  · rcases hc with hc | hc
    · rw [List.mem_singleton.mp hc]
      decide
    · exact (List.mem_append.mp hc).elim isDigit_of_mem_zeros (hd c)
  · rcases hc with hc | hc
    · exact (List.mem_append.mp hc).elim (fun h => hd c (List.mem_of_mem_take h))
        isDigit_of_mem_zeros
    · exact hd c (List.mem_of_mem_drop hc)

/-- A decimal without zeros at its end has decimal digits. -/
theorem isDigit_of_mem_ofScaled {n : Nat} {place : Int} :
    ∀ c ∈ (ofScaled n place).digits, c.isDigit = true := by
  intro c hc
  obtain ⟨count, hcount⟩ := exists_dropTrailingZeros_append (wholeDigits n)
  exact isDigit_of_mem_wholeDigits (hcount ▸ List.mem_append_left _ hc)

end Decimal

/-- The digits at the head of a text end where another character follows. -/
theorem spanDigits_append {ds : List Char} (hds : ∀ c ∈ ds, c.isDigit = true) {rest : List Char}
    (hrest : ∀ c ∈ rest.head?, c.isDigit = false) : spanDigits (ds ++ rest) = (ds, rest) := by
  rw [spanDigits, List.takeWhile_append_of_pos hds, List.dropWhile_append_of_pos hds]
  cases rest with
  | nil => simp
  | cons c rest =>
    have hc : ¬c.isDigit = true := by simp [hrest c rfl]
    rw [List.takeWhile_cons_of_neg hc, List.dropWhile_cons_of_neg hc, List.append_nil]

/-- Digits with a point between them are read as the digits without it, moved to their place. -/
theorem decimal?_joinParts {whole fraction : List Char} (hne : whole ≠ [])
    (hwhole : ∀ c ∈ whole, c.isDigit = true) (hfraction : ∀ c ∈ fraction, c.isDigit = true) :
    decimal? (joinParts (whole, fraction)) =
      some (ofDigits (whole ++ fraction), -(fraction.length : Int)) := by
  have hempty : whole.isEmpty = false := by simpa using hne
  have hall {ds : List Char} (hds : ∀ c ∈ ds, c.isDigit = true) : spanDigits ds = (ds, []) := by
    have hend : ∀ c ∈ ([] : List Char).head?, c.isDigit = false := by simp
    simpa using spanDigits_append hds hend
  cases fraction with
  | nil => simp [decimal?, joinParts, hall hwhole, hempty, readExponent?]
  | cons d ds =>
    have hpoint : ∀ c ∈ ('.' :: d :: ds).head?, c.isDigit = false := by simp
    have hspan := spanDigits_append hwhole hpoint
    simp [decimal?, joinParts, hspan, hall hfraction, hempty, readExponent?]

/-- A text that starts with no sign has none. -/
theorem spanSign_eq_self {cs : List Char} (h : ∀ c ∈ cs.head?, c ≠ '-' ∧ c ≠ '+') :
    spanSign cs = (false, cs) := by
  unfold spanSign
  split
  · exact absurd rfl (h '-' rfl).1
  · exact absurd rfl (h '+' rfl).2
  · rfl

/-- A digit has no small form but itself. -/
theorem toLower_of_isDigit {c : Char} (hc : c.isDigit = true) : c.toLower = c := by
  rw [Char.isDigit, Bool.and_eq_true, decide_eq_true_eq, decide_eq_true_eq] at hc
  refine dif_neg fun h => ?_
  have hle := UInt32.le_trans h.1 hc.2
  exact absurd hle (by decide)

/-- A text that starts with a digit is no word. -/
theorem readWord?_of_isDigit {c : Char} (hc : c.isDigit = true) (cs : List Char) :
    readWord? (c :: cs) = none := by
  have hword (word : String) (hhead : word.toList.head?.any Char.isDigit = false) :
      String.ofList ((c :: cs).map Char.toLower) ≠ word := by
    intro heq
    rw [← heq, String.toList_ofList, List.map_cons, toLower_of_isDigit hc] at hhead
    simp [hc] at hhead
  unfold readWord?
  split
  · next h => exact absurd h (hword _ rfl)
  · next h => exact absurd h (hword _ rfl)
  · next h => exact absurd h (hword _ rfl)
  · rfl

/-- A written decimal is read as the double of its digits. -/
theorem readChars?_joinParts {whole fraction : List Char} (hne : whole ≠ [])
    (hwhole : ∀ c ∈ whole, c.isDigit = true) (hfraction : ∀ c ∈ fraction, c.isDigit = true) :
    readChars? (joinParts (whole, fraction)) =
      some (ofDecimal (ofDigits (whole ++ fraction)) (-fraction.length)) := by
  have hdecimal := decimal?_joinParts hne hwhole hfraction
  obtain ⟨c, cs, rfl⟩ := List.exists_cons_of_ne_nil hne
  have hc : c.isDigit = true := hwhole c List.mem_cons_self
  obtain ⟨rest, hrest⟩ : ∃ rest, joinParts (c :: cs, fraction) = c :: rest := by
    cases fraction with
    | nil => exact ⟨cs, rfl⟩
    | cons d ds => exact ⟨cs ++ '.' :: d :: ds, rfl⟩
  rw [hrest] at hdecimal ⊢
  have hsign : spanSign (c :: rest) = (false, c :: rest) := by
    refine spanSign_eq_self fun d hd => ?_
    obtain rfl := Option.some.inj hd
    constructor <;> (rintro rfl; cases hc)
  simp [readChars?, readSigned?, hsign, readWord?_of_isDigit hc, readDecimal?, hdecimal]

/-- A finite double is zero just when its magnitude is. -/
theorem beq_zero_iff {x : Float} (hx : x.isFinite = true) :
    (x == 0) = true ↔ (magnitude x).significand = 0 := by
  change (x.toModel.unpack.compare (0 : Float).toModel.unpack == some .eq) = true ↔ _
  rw [unpack_zero, unpack_of_isFinite hx, Magnitude.unpacked]
  split
  · next h => simp [h, Float.Model.UnpackedFloat.compare]
  · next h => cases sign x <;> simp [h, Float.Model.UnpackedFloat.compare]

/-- A magnitude without a sign is that of the double or its negation. -/
theorem toFloat_positive {x : Float} (hx : x.isFinite = true) :
    (magnitude x).toFloat .positive = if isNegative x then -x else x := by
  split
  · next hneg => rw [neg_of_isFinite hx, sign, if_pos hneg]; rfl
  · next hneg =>
    conv_rhs => rw [← toFloat_magnitude hx, sign, if_neg hneg]

/-- A finite double is written in digits, with a minus before those of a negative one. -/
theorem plain_of_isFinite {x : Float} (hx : x.isFinite = true) :
    (plain x).toList = withSign x (plainDigits x) := by
  have hnan : x.isNaN = false := by
    change x.toModel.unpack.isNaN = false
    rw [unpack_of_isFinite hx, Magnitude.unpacked]
    split <;> rfl
  have hinf : x.isInf = false := by
    change x.toModel.unpack.isInf = false
    rw [unpack_of_isFinite hx, Magnitude.unpacked]
    split <;> rfl
  rw [plain, hnan, hinf]
  exact String.toList_ofList

/-- The digits of a finite double are read as the double without its sign. -/
theorem plainDigits_written {x : Float} (hx : x.isFinite = true) :
    ∃ whole fraction, plainDigits x = joinParts (whole, fraction) ∧ whole ≠ [] ∧
      (∀ c ∈ whole, c.isDigit = true) ∧ (∀ c ∈ fraction, c.isDigit = true) ∧
      readChars? (joinParts (whole, fraction)) = some (if isNegative x then -x else x) := by
  rw [plainDigits, ← toFloat_positive hx]
  by_cases hzero : (magnitude x).significand = 0
  · have hdigit : ∀ c ∈ ['0'], c.isDigit = true := by simp
    have hread := readChars?_joinParts (List.cons_ne_nil '0' []) hdigit (List.forall_mem_nil _)
    refine ⟨['0'], [], if_pos ((beq_zero_iff hx).mpr hzero), List.cons_ne_nil _ _, hdigit,
      List.forall_mem_nil _, hread.trans (congrArg some ?_)⟩
    rw [Magnitude.toFloat, Magnitude.unpacked, dif_pos hzero]
    decide +kernel
  · obtain ⟨n, place, hshortest, hnearest⟩ :=
      shortest_nearest .awayFromZero (canonical_of_isFinite hx) hzero
    obtain ⟨d, hd⟩ : ∃ d, d = Decimal.ofScaled n place := ⟨_, rfl⟩
    rw [← hd] at hshortest
    have hdigits : ∀ c ∈ d.digits, c.isDigit = true := hd ▸ Decimal.isDigit_of_mem_ofScaled
    have hwhole : ∀ c ∈ d.parts.1, c.isDigit = true :=
      fun _ hc => Decimal.isDigit_of_mem_parts hdigits (.inl hc)
    have hfraction : ∀ c ∈ d.parts.2, c.isDigit = true :=
      fun _ hc => Decimal.isDigit_of_mem_parts hdigits (.inr hc)
    rw [← Decimal.value_ofScaled, ← hd, ← Decimal.value_parts] at hnearest
    refine ⟨d.parts.1, d.parts.2, ?_, d.parts_fst_ne_nil, hwhole, hfraction,
      (readChars?_joinParts d.parts_fst_ne_nil hwhole hfraction).trans (congrArg some ?_)⟩
    · rw [if_neg (fun h => hzero ((beq_zero_iff hx).mp h)), hshortest]
    · exact ofDecimal_of_nearest (canonical_of_isFinite hx) hzero (by omega) hnearest

end FormulaRules.Number
