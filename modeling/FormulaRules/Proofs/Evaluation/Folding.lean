import FormulaRules.Proofs.Command.Literals
import FormulaRules.Proofs.Token.Forms

/-!
# Signs before a literal and before a variable

Signs before a number literal are worked out when the tree is built, by turning the sign of the
literal. Before a variable they are worked out when the tree is evaluated, by adding to zero and
taking from zero. Main statement: both give the same number and the same text, except that a zero
behind an odd number of minuses is negative zero as a literal and zero as a variable. The two are
equal as numbers and have different texts, so a comparison with a string tells them apart.
-/

namespace FormulaRules

open Expr.Reading (Sign)

/-- A finite number equals itself. -/
theorem Number.beq_self {n : Float} (hn : n.isFinite = true) : (n == n) = true := by
  change (n.toModel.unpack.compare n.toModel.unpack == some .eq) = true
  rcases unpack_cases hn with ⟨-, hunpack⟩ | ⟨-, m, e, hm, hunpack⟩
  · rw [hunpack]
    rfl
  · rw [hunpack]
    cases sign n <;> simp [Float.Model.UnpackedFloat.compare]

/-- The numbers among the tokens of a text are finite, and neither below zero nor negative zero. -/
theorem TokenStream.isFinite_of_mem_tokens {s : String} {x : Float}
    (h : Token.number x ∈ (ofText s).tokens) :
    x.isFinite = true ∧ Number.isNegative x = false := by
  have htokens (st : TokenStream) : st.tokens = st.located.map Located.token := by
    induction st with
    | token t start stop next ih => rw [tokens, located, ih, List.map_cons]
    | finish | fault => rfl
  rw [htokens] at h
  obtain ⟨p, hp, hx⟩ := List.mem_map.mp h
  obtain ⟨c, word, rest, -, -, -, -, hread, -⟩ := exists_word_of_mem_located hp
  rw [hx] at hread
  obtain ⟨hform, hvalue, hfinite⟩ := Token.read_eq_number_iff.mp hread
  exact ⟨hfinite, Number.isNegative_of_readChars? hform.ne_sign hvalue⟩

namespace Phrase

variable {x : String} {n : Float} {p : Phrase}

/-- A variable behind signs is an operand of signs. -/
theorem derives_of_isBare {p : Phrase} (h : p.isBare x = true) : Derives .signed p := by
  induction p, h using isBare_induction with
  | var => exact .tighter (.var x)
  | parenthesized p _ ih => exact .tighter (.parenthesized (ih.loosen (by decide)))
  | signed sign p _ _ ih => exact .signed sign ih

/-- The tree of a variable behind signs is at most one higher than the levels that it opens. -/
theorem height_le_of_isBare {p : Phrase} (h : p.isBare x = true) :
    p.tree.height ≤ p.levels + 1 := by
  induction p, h using isBare_induction with
  | var => exact Nat.le_refl _
  | parenthesized p _ ih => exact ih.trans (Nat.le_succ _)
  | signed sign p _ _ ih => exact (sign.height_tree_le p.tree).trans (Nat.succ_le_succ ih)

/-- The number that is written in place of a variable behind signs is among the tokens. -/
theorem mem_tokens_replace {p : Phrase} (h : p.isBare x = true) :
    Token.number n ∈ (p.replace x (.number n)).tokens := by
  induction p, h using isBare_induction with
  | var =>
    rw [replace, if_pos rfl]
    exact List.mem_singleton_self _
  | parenthesized p _ ih => exact List.mem_cons_of_mem _ (List.mem_append_left _ ih)
  | signed sign p _ _ ih => exact List.mem_cons_of_mem _ ih

end Phrase

/-- Numbers are compared with a string by their texts. -/
theorem Operator.equal_apply_string (y : Float) (s : String) :
    Operator.equal.apply (.number y) (.string s) = .ok (.boolean (Number.plain y == s)) := rfl

/-- Zero and negative zero have different texts. -/
theorem Number.plain_zero_ne : plain 0 ≠ plain (-0) := by decide +kernel

namespace Phrase

/-- Signs before a literal and before a variable that is bound to it are accepted alike and give
equal numbers. They give the same number, the same text, and the same answers to comparisons with
strings, exactly if the number is not zero or the minuses are even in number. -/
theorem signs_agree_iff {p : Phrase} {x f g : String} {n : Float} (hbare : p.isBare x = true)
    (hlevels : p.levels + 1 ≤ maxNesting) (hf : p.Fills f)
    (hg : (p.replace x (.number n)).Fills g) :
    ∃ e v w, Expr.parseFormula f = .ok e ∧ Expr.parseFormula g = .ok (.number w) ∧
      (∀ (σ : Type) (ctx : Context) (source : Resolver σ),
        source.lookup ctx x = pure (.number n) → e.evaluate ctx source = pure (.number v) ∧
          (Expr.number w).evaluate ctx source = pure (.number w)) ∧
      (v == w) = true ∧
      (v = w ↔ n ≠ 0 ∨ p.minuses % 2 = 0) ∧
      (Number.plain v = Number.plain w ↔ n ≠ 0 ∨ p.minuses % 2 = 0) ∧
      ((∀ s, Operator.equal.apply (.number v) (.string s) =
          Operator.equal.apply (.number w) (.string s)) ↔ n ≠ 0 ∨ p.minuses % 2 = 0) := by
  have hmem : Token.number n ∈ (TokenStream.ofText g).tokens := hg.2 ▸ mem_tokens_replace hbare
  obtain ⟨hn, hpositive⟩ := TokenStream.isFinite_of_mem_tokens hmem
  have hp : Derives .expression p := (derives_of_isBare hbare).loosen (by decide)
  have hheight : p.tree.height ≤ maxHeight :=
    (height_le_of_isBare hbare).trans (hlevels.trans (by decide))
  have hparse := (Expr.parseFormula_of_tokens hp hf.1 hf.2).mpr ⟨hlevels, hheight, rfl⟩
  have hparse' := (Expr.parseFormula_replace hp hf hg hparse).2
  rw [tree_replace_of_isBare hbare] at hparse'
  generalize hw : Number.negated p.minuses n = w at hparse'
  have hfinite : w.isFinite = true := hw ▸ (Number.isFinite_negated _ n).trans hn
  have hliteral (σ : Type) (ctx : Context) (source : Resolver σ) :
      (Expr.number w).evaluate ctx source = pure (.number w) :=
    Expr.evaluate_literal (v := .number w) hfinite
  have hzero := Number.beq_zero_or_eq_zero hn hpositive
  have hvariable (σ : Type) (ctx : Context) (source : Resolver σ)
      (hx : source.lookup ctx x = pure (.number n)) := evaluate_of_isBare hn hzero hx hbare
  -- Either both values are the same, or they are zero and negative zero.
  have hcases : Number.signed p.minuses n = w ∧ (n ≠ 0 ∨ p.minuses % 2 = 0) ∨
      Number.signed p.minuses n = 0 ∧ w = -0 ∧ ¬(n ≠ 0 ∨ p.minuses % 2 = 0) := by
    rcases hzero with hne | rfl
    · refine .inl ⟨(Number.signed_eq_negated (.inl hne)).trans hw, .inl ?_⟩
      rintro rfl
      cases (Number.beq_self hn).symm.trans hne
    · rw [Number.signed_zero, ← hw, Number.negated]
      split
      · next heven => exact .inl ⟨rfl, .inr heven⟩
      · next hodd => exact .inr ⟨rfl, rfl, by simpa using hodd⟩
  generalize Number.signed p.minuses n = v at hvariable hcases
  refine ⟨p.tree, v, w, hparse, hparse',
    fun σ ctx source hx => ⟨hvariable σ ctx source hx, hliteral σ ctx source⟩, ?_⟩
  rcases hcases with ⟨rfl, hagree⟩ | ⟨rfl, rfl, hdiffer⟩
  · exact ⟨Number.beq_self hfinite, iff_of_true rfl hagree, iff_of_true rfl hagree,
      iff_of_true (fun _ => rfl) hagree⟩
  · have hne : (0 : Float) ≠ -0 := fun h => Number.plain_zero_ne (congrArg Number.plain h)
    refine ⟨by decide +kernel, iff_of_false hne hdiffer, iff_of_false Number.plain_zero_ne hdiffer,
      iff_of_false (fun hsame => ?_) hdiffer⟩
    have hzero := hsame (Number.plain 0)
    rw [Operator.equal_apply_string, Operator.equal_apply_string, beq_self_eq_true] at hzero
    simp only [Except.ok.injEq, Value.boolean.injEq] at hzero
    exact Number.plain_zero_ne (eq_of_beq hzero.symm).symm

/-- Two minuses, a plus and parentheses before 2.5 and before a variable. -/
theorem signs_agree_iff_nested :
    let p := signed .minus (parenthesized (signed .plus (signed .minus (.var "x"))))
    p.Fills "-(+-x)" ∧ (p.replace "x" (.number 2.5)).Fills "-(+-2.5)" ∧
    ∃ e v, Expr.parseFormula "-(+-x)" = .ok e ∧ Expr.parseFormula "-(+-2.5)" = .ok (.number v) ∧
      e.evaluate .background (.ofBindings (.insert .empty "x" (.number 2.5)) : Resolver Unit) =
        pure (.number v) := by
  intro p
  have hf : p.Fills "-(+-x)" := ⟨by cbv, by cbv⟩
  have hg : (p.replace "x" (.number 2.5)).Fills "-(+-2.5)" := ⟨trivial, rfl⟩
  obtain ⟨e, v, w, he, hw, hvalues, -, hsame, -⟩ := signs_agree_iff (by decide) (by decide) hf hg
  obtain rfl := hsame.mpr (.inr (by decide))
  exact ⟨hf, hg, e, v, he, hw, (hvalues Unit _ (.ofBindings (.insert .empty "x" _)) rfl).1⟩

/-- A minus before the literal zero and before a variable that is zero give numbers with different
texts, which compare differently with a string. -/
theorem negative_zero_folds :
    let source : Resolver Unit := .ofBindings (.insert .empty "x" (.number 0))
    (Token.number 0).Fills "0" ∧ ∃ e w, Expr.parseFormula "-x" = .ok e ∧
      Expr.parseFormula "-0" = .ok (.number w) ∧
      e.evaluate .background source = pure (.number 0) ∧
      (Expr.number w).evaluate .background source = pure (.number w) ∧
      Number.plain 0 ≠ Number.plain w ∧
      Operator.equal.apply (.number 0) (.string "0") = .ok (.boolean true) ∧
      Operator.equal.apply (.number w) (.string "0") = .ok (.boolean false) := by
  intro source
  have hp : Derives .expression (signed .minus (var "x")) :=
    (Derives.signed .minus (.tighter (.var "x"))).loosen (by decide)
  have hq : Derives .expression (signed .minus (number 0)) :=
    (Derives.signed .minus (.tighter (.number 0))).loosen (by decide)
  have he := (Expr.parseFormula_of_tokens (s := "-x") hp (by cbv) (by cbv)).mpr
    ⟨by decide, by decide, rfl⟩
  have hw := (Expr.parseFormula_of_tokens (s := "-0") hq trivial rfl).mpr
    ⟨by decide, by decide, rfl⟩
  have hfinite : (Value.number (-0)).isFinite = true := by decide +kernel
  have hzero : (Number.plain 0 == "0") = true := by decide +kernel
  have hminus : (Number.plain (-0) == "0") = false := by decide +kernel
  have hlookup : source.lookup .background "x" = pure (.number 0) := rfl
  have hvariable := evaluate_of_isBare (p := signed .minus (var "x")) (by decide +kernel) (.inr rfl)
    hlookup (by decide)
  rw [Number.signed_zero] at hvariable
  refine ⟨⟨trivial, rfl⟩, _, _, he, hw, hvariable, Expr.evaluate_literal hfinite,
    Number.plain_zero_ne, ?_, ?_⟩
  · rw [Operator.equal_apply_string, hzero]
  · rw [Operator.equal_apply_string, hminus]

end Phrase

end FormulaRules
