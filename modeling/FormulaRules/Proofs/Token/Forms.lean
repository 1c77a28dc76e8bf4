import FormulaRules.Proofs.Token.Tiling
import FormulaRules.Proofs.Token.Alone

/-!
# The written forms of a number

A number is written as digits, as digits around a point, or as a point before digits. Main
statement: the characters of a number in a text have one of these forms exactly if they do not end
in a point. Digits with a point behind them are taken for a number although no form has them.
-/

namespace FormulaRules

namespace Token

/-- The written forms of a number: digits, digits around a point, and a point before digits. -/
inductive IsNumeral : List Char → Prop
  | whole {whole : List Char} : whole ≠ [] → (∀ c ∈ whole, c.isDigit = true) → IsNumeral whole
  | decimal {whole fraction : List Char} : whole ≠ [] → fraction ≠ [] →
    (∀ c ∈ whole, c.isDigit = true) → (∀ c ∈ fraction, c.isDigit = true) →
    IsNumeral (whole ++ '.' :: fraction)
  | fraction {fraction : List Char} : fraction ≠ [] → (∀ c ∈ fraction, c.isDigit = true) →
    IsNumeral ('.' :: fraction)

/-- Digits with a point behind them. -/
def EndsInPoint (cs : List Char) : Prop :=
  ∃ whole, whole ≠ [] ∧ (∀ c ∈ whole, c.isDigit = true) ∧ cs = whole ++ ['.']

/-- The characters that are taken for a number have a written form or end in a point. -/
theorem numberForm_iff {cs : List Char} : NumberForm cs ↔ IsNumeral cs ∨ EndsInPoint cs := by
  constructor
  · intro h
    cases h with
    | whole hne hwhole => exact .inl (.whole hne hwhole)
    | @point whole fraction hne hwhole hfraction =>
      by_cases hend : fraction = []
      · subst hend
        exact .inr ⟨whole, by simpa using hne, hwhole, rfl⟩
      by_cases hstart : whole = []
      · subst hstart
        exact .inl (.fraction hend hfraction)
      exact .inl (.decimal hstart hend hwhole hfraction)
  · rintro (h | ⟨whole, hne, hwhole, rfl⟩)
    · cases h with
      | whole hne hwhole => exact .whole hne hwhole
      | decimal hne _ hwhole hfraction => exact .point (.inl hne) hwhole hfraction
      | fraction hne hfraction =>
        exact @NumberForm.point [] _ (.inr hne) (List.forall_mem_nil _) hfraction
    · exact .point (.inl hne) hwhole (List.forall_mem_nil _)

/-- A written form ends in a digit. -/
theorem IsNumeral.getLast?_ne_point {cs : List Char} (h : IsNumeral cs) :
    cs.getLast? ≠ some '.' := by
  have hdigits {ds : List Char} (hds : ∀ c ∈ ds, c.isDigit = true) : ds.getLast? ≠ some '.' :=
    fun hlast => absurd (hds '.' (List.mem_of_getLast? hlast)) (by decide)
  have hbehind {front ds : List Char} (hne : ds ≠ []) (hds : ∀ c ∈ ds, c.isDigit = true) :
      (front ++ '.' :: ds).getLast? ≠ some '.' := by
    obtain ⟨d, ds, rfl⟩ := List.exists_cons_of_ne_nil hne
    rw [List.getLast?_append_cons, List.getLast?_cons_cons]
    exact hdigits hds
  cases h with
  | whole _ hwhole => exact hdigits hwhole
  | decimal _ hne _ hfraction => exact hbehind hne hfraction
  | fraction hne hfraction => exact @hbehind [] _ hne hfraction

/-- Of the characters that are taken for a number, those in a written form do not end in a point. -/
theorem NumberForm.isNumeral_iff {cs : List Char} (h : NumberForm cs) :
    IsNumeral cs ↔ cs.getLast? ≠ some '.' := by
  refine ⟨IsNumeral.getLast?_ne_point, fun hlast => ?_⟩
  rcases numberForm_iff.mp h with hnumeral | ⟨whole, -, -, rfl⟩
  · exact hnumeral
  · exact absurd (List.getLast?_concat ..) hlast

/-- A number that ends in a point is not followed by a digit. -/
theorem isDigit_eq_false_of_not_continues {x : Float} {word : List Char} {d : Char}
    (h : ¬(number x).Continues word d) : d.isDigit = false := by
  rw [← Bool.not_eq_true]
  exact fun hdigit => h (.inl hdigit)

end Token

namespace TokenStream

open Token

/-- A text is one number if its characters are taken for one and show a finite double. -/
theorem ofText_eq_number_iff {s : String} {x : Float} :
    ofText s = .token (.number x) 0 s.length (.finish s.length) ↔
      NumberForm s.toList ∧ Number.read? s = some x ∧ x.isFinite = true := by
  constructor
  · intro h
    have hp : (⟨.number x, 0, s.length⟩ : Located) ∈ (ofText s).located := by
      rw [h]
      exact List.mem_cons_self
    obtain ⟨c, word, rest, -, -, htext, -, hread, -⟩ := exists_word_of_mem_located hp
    have hself : (⟨.number x, 0, s.length⟩ : Located).text s = s := by
      rw [Located.text, Nat.sub_zero, List.drop_zero, ← String.length_toList, List.take_length,
        String.ofList_toList]
    rw [hself] at htext
    rw [Number.read?, htext, String.toList_ofList]
    exact read_eq_number_iff.mp hread
  · rintro ⟨hform, hx, hfinite⟩
    rw [Number.read?] at hx
    rw [← String.length_toList, ← String.ofList_toList (s := s), String.toList_ofList]
    generalize s.toList = cs at hform hx ⊢
    cases cs with
    | nil => exact absurd hform.startsNumber not_false
    | cons c word =>
      exact ofText_of_read (hform.isBlank_eq_false c List.mem_cons_self)
        (read_eq_number_iff.mpr ⟨hform, hx, hfinite⟩)

/-- The characters of a number in a text have a written form exactly if they do not end in a point;
those that do are digits with a point behind them, and no digit follows. A text is one number
exactly if it has a written form or is digits with a point behind them, and it is in range. -/
theorem isNumeral_iff_of_mem_located (s : String) :
    (∀ p ∈ (ofText s).located, ∀ x, p.token = .number x →
      (IsNumeral (p.text s).toList ↔ (p.text s).toList.getLast? ≠ some '.') ∧
      ((p.text s).toList.getLast? = some '.' →
        EndsInPoint (p.text s).toList ∧ ∀ d, s.toList[p.stop]? = some d → d.isDigit = false)) ∧
    (IsNumeral s.toList ∨ EndsInPoint s.toList → ∃ x, Number.read? s = some x) ∧
    ∀ x, ofText s = .token (.number x) 0 s.length (.finish s.length) ↔
      (IsNumeral s.toList ∨ EndsInPoint s.toList) ∧ Number.read? s = some x ∧
        x.isFinite = true := by
  refine ⟨fun p hp x hx => ?_, fun h => (numberForm_iff.mpr h).exists_readChars?, fun x => ?_⟩
  · obtain ⟨c, word, rest, hdrop, hstop, htext, -, hread, hend⟩ := exists_word_of_mem_located hp
    rw [hx] at hread hend
    have hform := (read_eq_number_iff.mp hread).1
    rw [htext, String.toList_ofList]
    refine ⟨hform.isNumeral_iff, fun hlast => ⟨?_, fun d hd => ?_⟩⟩
    · exact (numberForm_iff.mp hform).resolve_left fun hnumeral => hnumeral.getLast?_ne_point hlast
    · have hbehind : s.toList.drop p.stop = rest := by
        rw [hstop, ← List.drop_drop, hdrop, ← List.cons_append]
        exact List.drop_left
      rw [← List.head?_drop, hbehind] at hd
      exact isDigit_eq_false_of_not_continues (hend d hd)
  · rw [ofText_eq_number_iff, numberForm_iff]

/-- Two points split a text into two numbers; a point with nothing behind it belongs to the digits
before it. -/
theorem isNumeral_iff_of_mem_located_points :
    (∃ p q, (ofText "1.5.25+7.").located = [⟨.number 1.5, 0, 3⟩, p, ⟨.operator .add, 6, 7⟩, q] ∧
      IsNumeral (p.text "1.5.25+7.").toList ∧ EndsInPoint (q.text "1.5.25+7.").toList) ∧
    ofText ".25" = .token (.number 0.25) 0 3 (.finish 3) := by
  have hlocated : (ofText "1.5.25+7.").located = [⟨.number 1.5, 0, 3⟩, ⟨.number 0.25, 3, 6⟩,
    ⟨.operator .add, 6, 7⟩, ⟨.number 7, 7, 9⟩] := rfl
  have hform : IsNumeral ['.', '2', '5'] := .fraction (by simp) (by simp)
  have hparts := (isNumeral_iff_of_mem_located "1.5.25+7.").1
  refine ⟨⟨_, _, hlocated, ?_, ?_⟩, ?_⟩
  · exact (hparts ⟨.number 0.25, 3, 6⟩ (by simp [hlocated]) _ rfl).1.mpr (by decide)
  · exact ((hparts ⟨.number 7, 7, 9⟩ (by simp [hlocated]) _ rfl).2 (by decide)).1
  · exact ((isNumeral_iff_of_mem_located ".25").2.2 0.25).mpr
      ⟨.inl hform, rfl, by decide +kernel⟩

/-- A digit and a point are a number without a written form. -/
theorem exists_number_not_isNumeral :
    ∃ p ∈ (ofText "5.").located,
      (∃ x, p.token = .number x) ∧ ¬IsNumeral (p.text "5.").toList := by
  have hlocated : (ofText "5.").located = [⟨.number 5, 0, 2⟩] := rfl
  refine ⟨⟨.number 5, 0, 2⟩, by simp [hlocated], ⟨5, rfl⟩, fun h => ?_⟩
  exact h.getLast?_ne_point (by decide)

end TokenStream

end FormulaRules
