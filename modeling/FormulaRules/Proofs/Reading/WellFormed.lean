import FormulaRules.Condition
import FormulaRules.Proofs.Expr.Parts
import FormulaRules.Proofs.Reading.Heights
import FormulaRules.Proofs.Reading.Refusal
import FormulaRules.Proofs.Render.Accepted

/-!
# Trees that come from texts

Main statement: the tree of an accepted formula or condition has finite numbers and proper names
in all its parts and is at most `maxHeight` high. The heights that the reading keeps on the way
are those of the trees, so a text is refused for its height only where a phrase ends whose tree
is one higher than that.
-/

namespace FormulaRules

namespace Expr

/-- Whether the numbers of a tree are finite, its names are names and its height is within the
limit. -/
structure WellFormed (e : Expr) : Prop where
  isFinite_number : ∀ x, (number x).IsPart e → x.isFinite = true
  isName_var : ∀ name, (var name).IsPart e → Token.isName name = true
  isName_call : ∀ name args, (call name args).IsPart e → Token.isName name = true
  height_le : e.height ≤ maxHeight

/-- A member of writable trees is writable. -/
theorem writable_of_mem {e : Expr} {es : List Expr} (h : writableAll es = true) (he : e ∈ es) :
    e.writable = true := by
  induction es with
  | nil => exact absurd he List.not_mem_nil
  | cons first rest ih =>
    rw [writableAll, Bool.and_eq_true] at h
    rcases List.mem_cons.mp he with rfl | hrest
    · exact h.1
    · exact ih h.2 hrest

/-- The parts of a writable tree are writable. -/
theorem IsPart.writable {part e : Expr} (h : part.IsPart e) (he : e.writable = true) :
    part.writable = true := by
  induction h with
  | whole => exact he
  | left _ ih => exact ih (Bool.and_eq_true_iff.mp he).1
  | right _ ih => exact ih (Bool.and_eq_true_iff.mp he).2
  | condition _ ih => exact ih (Bool.and_eq_true_iff.mp (Bool.and_eq_true_iff.mp he).1).1
  | onTrue _ ih => exact ih (Bool.and_eq_true_iff.mp (Bool.and_eq_true_iff.mp he).1).2
  | onFalse _ ih => exact ih (Bool.and_eq_true_iff.mp he).2
  | argument harg _ ih => exact ih (writable_of_mem (Bool.and_eq_true_iff.mp he).2 harg)

/-- A writable tree within the limit of height is well-formed. -/
theorem wellFormed_of_writable {e : Expr} (h : e.writable = true) (hheight : e.height ≤ maxHeight) :
    e.WellFormed where
  isFinite_number _ hpart := hpart.writable h
  isName_var _ hpart := hpart.writable h
  isName_call _ _ hpart := (Bool.and_eq_true_iff.mp (hpart.writable h)).1
  height_le := hheight

/-- The tree of a text that is read to its end is well-formed. -/
theorem wellFormed_of_parseComplete {s : String} {e : Expr} (h : parseComplete s = .ok e) :
    e.WellFormed := by
  obtain ⟨p, -, -, -, hbuild⟩ := exists_derives_of_parseComplete h
  exact wellFormed_of_writable (writable_of_parseComplete h)
    (Reading.height_le_of_deeper hbuild).2

/-- A boolean is well-formed. -/
theorem wellFormed_boolean (b : Bool) : (boolean b).WellFormed :=
  wellFormed_of_writable rfl (by decide : 1 ≤ maxHeight)

/-- A formula is refused for being blank, or is no text that can be read to its end. -/
theorem parseFormula_eq_error {s : String} {x : SyntaxError} (h : parseFormula s = .error x) :
    ((Text.skipBlanks s.toList).isEmpty = true ∧ x = ⟨⟨.emptyFormula, 0⟩, s⟩) ∨
      (Text.skipBlanks s.toList).isEmpty = false ∧ parseComplete s = .error x := by
  rw [parseFormula] at h
  split at h
  · next hblank =>
    cases h
    exact .inl ⟨hblank, rfl⟩
  · next hblank => exact .inr ⟨Bool.eq_false_iff.mpr hblank, h⟩

/-- A formula is refused for being blank or as any other text. -/
theorem refusal_of_parseFormula {s : String} {x : SyntaxError} (h : parseFormula s = .error x) :
    x.cause = .emptyFormula ∨
      Refusal Symbol.expression.Begins (TokenStream.ofText s) x.toSyntaxFault := by
  rcases parseFormula_eq_error h with ⟨-, rfl⟩ | ⟨-, hcomplete⟩
  · exact .inl rfl
  · exact .inr (refusal_of_parseComplete hcomplete).2

end Expr

/-- A condition is one of the known words or is read as any other text. -/
theorem Condition.read_eq (s : String) :
    (∃ b, read s = .ok (.boolean b)) ∨ read s = Expr.parseComplete s := by
  rw [read]
  split
  · exact .inl ⟨_, rfl⟩
  · exact .inr rfl

/-- The tree of an accepted condition is well-formed. -/
theorem Condition.wellFormed_of_read {s : String} {e : Expr} (h : read s = .ok e) :
    e.WellFormed := by
  rcases read_eq s with ⟨b, hread⟩ | hread
  · rw [hread] at h
    cases h
    exact Expr.wellFormed_boolean b
  · exact Expr.wellFormed_of_parseComplete (hread.symm.trans h)

/-- A condition is refused for the faults of its tokens. -/
theorem Condition.refusal_of_read {s : String} {x : SyntaxError} (h : read s = .error x) :
    Refusal Symbol.expression.Begins (TokenStream.ofText s) x.toSyntaxFault := by
  rcases read_eq s with ⟨b, hread⟩ | hread
  · rw [hread] at h
    cases h
  · exact (Expr.refusal_of_parseComplete (hread.symm.trans h)).2

namespace Expr

/-- What is read from a text is well-formed, every node on the way carries the height of its tree,
and a text that is refused for its height has, up to the place of the error, a phrase whose tree is
one too high. -/
theorem wellFormed_of_reading :
    (∀ s e, parseFormula s = .ok e ∨ Condition.read s = .ok e → e.WellFormed) ∧
    (∀ bound n, Reading.Made bound n → n.height = n.expr.height ∧ n.height ≤ maxHeight) ∧
    (∀ s x, parseFormula s = .error x ∨ Condition.read s = .error x → x.cause = .treeTooHigh →
      ∃ before symbol p rest, Derives symbol p ∧ p.tree.height = maxHeight + 1 ∧
        (TokenStream.ofText s).Spans (before ++ p.tokens) rest ∧ x.position = rest.position) := by
  refine ⟨fun s e h => ?_, fun bound n h => ⟨h.isExact.height_eq, h.isExact.height_le⟩,
    fun s x h hcause => ?_⟩
  · rcases h with hformula | hcondition
    · exact wellFormed_of_parseComplete (parseComplete_of_parseFormula hformula)
    · exact Condition.wellFormed_of_read hcondition
  · rcases h with hformula | hcondition
    · rcases refusal_of_parseFormula hformula with hempty | hrefused
      · rw [hcause] at hempty
        cases hempty
      · exact hrefused.exists_of_treeTooHigh hcause
    · exact (Condition.refusal_of_read hcondition).exists_of_treeTooHigh hcause

/-- A long sum is not elaborated beyond the limit of height. -/
theorem elaborate_longSumPhrase_of_le {n : Nat} (h : maxHeight ≤ n) (budget : Nat) :
    (longSumPhrase n).elaborate budget = .error .treeTooHigh := by
  induction n with
  | zero => exact absurd h (by decide)
  | succ n ih =>
    rw [longSumPhrase, Phrase.elaborate]
    by_cases hn : n < maxHeight
    · have hheight : maxHeight < (longSum (n + 1)).height := by
        rw [(longSum_measures (n + 1)).2.2.1]
        exact Nat.lt_succ_of_le h
      rw [elaborate_longSumPhrase hn]
      exact if_pos hheight
    · rw [ih (Nat.not_lt.mp hn)]
      rfl

/-- A long sum is refused beyond the limit of height. -/
theorem parseFormula_longSumText_of_le {n : Nat} (h : maxHeight ≤ n) :
    ∃ position, parseFormula (String.ofList (longSumText n)) =
      .error ⟨⟨.treeTooHigh, position⟩, String.ofList (longSumText n)⟩ := by
  obtain ⟨hclean, htokens⟩ := tokens_longSumText n
  have hbuild : deeper (longSumPhrase n).elaborate maxNesting = .error .treeTooHigh :=
    elaborate_longSumPhrase_of_le h _
  have hparse := follows_parseFormula ((derives_longSumPhrase n).loosen (Nat.zero_le _)) hclean
    htokens
  rwa [hbuild] at hparse

/-- A comparison with a sign deep inside is read, a sign makes a variable one higher, and a long sum
is refused behind the operand that makes it too high. -/
theorem wellFormed_of_reading_sums :
    (∃ e, parseFormula "max(-rate, 2.5) > 0" = .ok e ∧ e.height = 4 ∧ e.WellFormed) ∧
    (∃ n c, (Reading.levels 2 maxNesting).nested.run ⟨TokenStream.ofText "-x", 0⟩ = .ok (n, c) ∧
      n.height = 2 ∧ n.expr.height = 2) ∧
    ∃ position before symbol p rest,
      parseFormula (String.ofList (longSumText maxHeight)) =
        .error ⟨⟨.treeTooHigh, position⟩, String.ofList (longSumText maxHeight)⟩ ∧
      Derives symbol p ∧ p.tree.height = maxHeight + 1 ∧
      (TokenStream.ofText (String.ofList (longSumText maxHeight))).Spans (before ++ p.tokens) rest ∧
      position = rest.position := by
  obtain ⟨haccepted, hmade, hrefused⟩ := wellFormed_of_reading
  refine ⟨?_, ?_, ?_⟩
  · have hfour : (parseFormula "max(-rate, 2.5) > 0").toOption.any
        (fun e => decide (e.height = 4)) = true := by
      decide +kernel
    cases hparse : parseFormula "max(-rate, 2.5) > 0" with
    | error x =>
      rw [hparse] at hfour
      cases hfour
    | ok e =>
      rw [hparse] at hfour
      exact ⟨e, rfl, of_decide_eq_true hfour, haccepted _ e (.inl hparse)⟩
  · have htwo : ((Reading.levels 2 maxNesting).nested.run
        ⟨TokenStream.ofText "-x", 0⟩).toOption.any (fun r => decide (r.1.height = 2)) = true := by
      decide +kernel
    cases hrun : (Reading.levels 2 maxNesting).nested.run ⟨TokenStream.ofText "-x", 0⟩ with
    | error x =>
      rw [hrun] at htwo
      cases htwo
    | ok r =>
      rw [hrun] at htwo
      have hheight : r.1.height = 2 := of_decide_eq_true htwo
      obtain ⟨hexact, -⟩ := hmade 2 r.1 (.result (.nested maxNesting) hrun)
      exact ⟨r.1, r.2, rfl, hheight, hexact.symm.trans hheight⟩
  · obtain ⟨position, hparse⟩ := parseFormula_longSumText_of_le (Nat.le_refl maxHeight)
    obtain ⟨before, symbol, p, rest, hfound⟩ := hrefused _ _ (.inl hparse) rfl
    exact ⟨position, before, symbol, p, rest, hparse, hfound⟩

end Expr

end FormulaRules
