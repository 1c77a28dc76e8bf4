import FormulaRules.Proofs.Token.Longest

/-!
# The characters of a number

The characters that are taken for a number are digits, or digits around one point with at least one
digit on a side of it. All of them show a number, so a number is refused only if it is too large.
-/

namespace FormulaRules

namespace Number

/-- Digits around a point are read as the digits without it, moved to their place. -/
theorem decimal?_point {whole fraction : List Char} (hne : whole ≠ [] ∨ fraction ≠ [])
    (hwhole : ∀ c ∈ whole, c.isDigit = true) (hfraction : ∀ c ∈ fraction, c.isDigit = true) :
    decimal? (whole ++ '.' :: fraction) =
      some (ofDigits (whole ++ fraction), -(fraction.length : Int)) := by
  have hpoint : spanDigits (whole ++ '.' :: fraction) = (whole, '.' :: fraction) :=
    spanDigits_append hwhole (by simp)
  have hend : spanDigits fraction = (fraction, []) := by
    simpa using spanDigits_append hfraction (by simp : ∀ c ∈ ([] : List Char).head?, _)
  have hempty : (whole.isEmpty && fraction.isEmpty) = false := by
    rw [← Bool.not_eq_true]
    simpa [← not_and_or] using hne
  simp [decimal?, hpoint, hend, hempty, readExponent?]

/-- A decimal without a sign is a number. -/
theorem exists_readChars?_of_decimal? {cs : List Char} {shown : Nat × Int}
    (hsign : ∀ c ∈ cs.head?, c ≠ '-' ∧ c ≠ '+') (h : decimal? cs = some shown) :
    ∃ x, readChars? cs = some x := by
  rw [← Option.isSome_iff_exists]
  simp [readChars?, readSigned?, spanSign_eq_self hsign, readDecimal?, h]

end Number

namespace Token

/-- Whether a text starts with a number: with a digit, or with a point and a digit. -/
def StartsNumber : List Char → Prop
  | c :: rest => c.isDigit = true ∨ c = '.' ∧ rest.head?.any Char.isDigit = true
  | [] => False

/-- The forms of a number: digits, or digits around a point. -/
inductive NumberForm : List Char → Prop
  | whole {whole : List Char} : whole ≠ [] → (∀ c ∈ whole, c.isDigit = true) → NumberForm whole
  | point {whole fraction : List Char} : whole ≠ [] ∨ fraction ≠ [] →
    (∀ c ∈ whole, c.isDigit = true) → (∀ c ∈ fraction, c.isDigit = true) →
    NumberForm (whole ++ '.' :: fraction)

/-- The characters taken for a number have one of the forms. -/
theorem numberForm_numberText {cs : List Char} (h : StartsNumber cs) :
    NumberForm (numberText cs) := by
  have hdigits (cs : List Char) : ∀ c ∈ cs.takeWhile Char.isDigit, c.isDigit = true :=
    fun c hc => List.mem_takeWhile_imp hc
  cases cs with
  | nil => exact absurd h not_false
  | cons c rest =>
    rcases h with hdigit | ⟨rfl, hnext⟩
    · have hne : (c :: rest).takeWhile Char.isDigit ≠ [] := by
        simp [List.takeWhile_cons_of_pos hdigit]
      simp only [numberText, Number.spanDigits]
      split
      · exact .point (.inl hne) (hdigits _) (hdigits _)
      · exact .whole hne (hdigits _)
    · have hne : rest.takeWhile Char.isDigit ≠ [] := by
        cases rest with
        | nil => cases hnext
        | cons d rest => simpa using hnext
      rw [numberText_point]
      exact @NumberForm.point [] _ (.inr hne) (List.forall_mem_nil _) (hdigits rest)

/-- A number consists of digits and points. -/
theorem NumberForm.isDigit_or_point {cs : List Char} (h : NumberForm cs) :
    ∀ c ∈ cs, c.isDigit = true ∨ c = '.' := by
  intro c hc
  cases h with
  | whole _ hwhole => exact .inl (hwhole c hc)
  | point _ hwhole hfraction =>
    rcases List.mem_append.mp hc with hc | hc
    · exact .inl (hwhole c hc)
    · exact (List.mem_cons.mp hc).symm.imp_left (hfraction c)

/-- No form of a number starts with a sign. -/
theorem NumberForm.ne_sign {cs : List Char} (h : NumberForm cs) :
    ∀ c ∈ cs.head?, c ≠ '-' ∧ c ≠ '+' := by
  intro c hc
  rcases h.isDigit_or_point c (List.mem_of_mem_head? hc) with hdigit | rfl
  · constructor <;> (rintro rfl; cases hdigit)
  · decide

/-- Every form of a number shows one. -/
theorem NumberForm.exists_readChars? {cs : List Char} (h : NumberForm cs) :
    ∃ x, Number.readChars? cs = some x := by
  have hsign := h.ne_sign
  cases h with
  | whole hne hwhole =>
    exact Number.exists_readChars?_of_decimal? hsign
      (Number.decimal?_joinParts hne hwhole (List.forall_mem_nil _))
  | point hne hwhole hfraction =>
    exact Number.exists_readChars?_of_decimal? hsign (Number.decimal?_point hne hwhole hfraction)

/-- A number is refused only if it is too large. -/
theorem readNumber_eq_error {cs : List Char} {cause : SyntaxCause} (h : StartsNumber cs)
    (herror : readNumber cs = .error cause) :
    cause = .numberOutOfRange (String.ofList (numberText cs)) := by
  obtain ⟨x, hx⟩ := (numberForm_numberText h).exists_readChars?
  rw [readNumber, hx] at herror
  simp only at herror
  split at herror
  · cases herror
  · exact (Except.error.inj herror).symm

end Token

end FormulaRules
