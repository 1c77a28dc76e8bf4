import FormulaRules.Condition
import FormulaRules.Proofs.Evaluation.Run
import FormulaRules.Proofs.Grammar.Beginnings
import FormulaRules.Proofs.Token.Alone

/-!
# The words that are conditions

A condition that is one of the known words is answered without being read. Main statement: the
answer is the one that the tree of the condition gives, and a text is checked as it is read. The
words `true` and `false` are answered as if they were read as formulas, in any letter case and
between any blank characters; only the blank text, `always` and `never` are conditions and no
formulas with the same meaning.

Two readers have to agree for this: one trims the text and compares the rest, the other skips blank
characters, takes the letters that follow and looks for the end of the text.
-/

namespace FormulaRules

/-- A text whose blank characters can all be skipped is trimmed to nothing. -/
theorem Text.trim_eq_of_blank {s : String} (h : (skipBlanks s.toList).isEmpty) : trim s = "" := by
  rw [List.isEmpty_iff] at h
  rw [trim, trimBlanks, h]
  rfl

/-- A keyword between blank characters is a formula, in any letter case. -/
theorem Expr.parseFormula_of_trim (b : Bool) {s : String}
    (h : Text.sameFolded (Text.trim s) (Value.boolean b).text = true) :
    parseFormula s = .ok (.boolean b) := by
  obtain ⟨hclean, htokens⟩ := Token.boolean_fills_iff.mpr h
  have hbuild : deeper (Phrase.boolean b).elaborate maxNesting = .ok (.boolean b) := rfl
  have hparse := follows_parseFormula ((Derives.boolean b).of_primary .expression) hclean htokens
  rwa [hbuild] at hparse

namespace Condition

variable {σ : Type} (ctx : Context) (source : Resolver σ) (text : String)

/-- A condition holds as its tree does. -/
theorem run_holds (w : World σ) :
    (holds ctx source text).run.run w = (do
      let e ← Run.ofExcept (parse text)
      (e.evaluateBoolean ctx source).inFormula : Run σ FormulaError Bool).run.run w := by
  rw [holds, parse, read]
  cases trivial? text with
  | none => rfl
  | some answer => rfl

/-- A condition is checked as it is parsed. -/
theorem validate_eq : validate text = (parse text).map fun _ => () := by
  rw [validate, parse, read]
  cases trivial? text with
  | none => rfl
  | some answer => rfl

variable {text} in
/-- A condition is read as a formula, except for the blank text and the two words that are no
formulas with the same meaning. -/
theorem read_eq_parseFormula (hblank : Text.trim text ≠ "")
    (halways : Text.sameFolded (Text.trim text) "always" = false)
    (hnever : Text.sameFolded (Text.trim text) "never" = false) :
    read text = Expr.parseFormula text := by
  by_cases htrue : Text.sameFolded (Text.trim text) "true" = true
  · have hanswer : trivial? text = some true := by simp [trivial?, htrue]
    rw [read, hanswer, Expr.parseFormula_of_trim true htrue]
  by_cases hfalse : Text.sameFolded (Text.trim text) "false" = true
  · have hanswer : trivial? text = some false := by
      simp [trivial?, hblank, halways, htrue, hfalse]
    rw [read, hanswer, Expr.parseFormula_of_trim false hfalse]
  have hanswer : trivial? text = none := by
    simp [trivial?, hblank, halways, hnever, htrue, hfalse]
  have hnonblank : ¬(Text.skipBlanks text.toList).isEmpty = true :=
    fun hskip => hblank (Text.trim_eq_of_blank hskip)
  rw [read, hanswer, Expr.parseFormula, if_neg hnonblank]

/-- The answer to a condition is that of its tree, a condition is checked as it is parsed, and
unless it is blank or one of the two words that are no formulas with the same meaning, it is read
and answered as the formula with its text. -/
theorem shortcut_agrees :
    (∀ w, (holds ctx source text).run.run w = (do
      let e ← Run.ofExcept (parse text)
      (e.evaluateBoolean ctx source).inFormula : Run σ FormulaError Bool).run.run w) ∧
    (validate text = .ok () ↔ ∃ e, parse text = .ok e) ∧
    (∀ x, validate text = .error x ↔ parse text = .error x) ∧
    (Text.trim text ≠ "" → Text.sameFolded (Text.trim text) "always" = false →
      Text.sameFolded (Text.trim text) "never" = false →
      read text = Expr.parseFormula text ∧
      ∀ w, (holds ctx source text).run.run w = (do
        let e ← Run.ofExcept (Formula.parse text)
        (e.evaluateBoolean ctx source).inFormula : Run σ FormulaError Bool).run.run w) := by
  refine ⟨run_holds ctx source text, ?_, fun x => ?_, fun hblank halways hnever => ?_⟩
  · rw [validate_eq]
    cases parse text with
    | ok e => exact iff_of_true rfl ⟨e, rfl⟩
    | error x =>
      constructor
      · rintro ⟨⟩
      · rintro ⟨e, ⟨⟩⟩
  · rw [validate_eq]
    cases parse text with
    | ok e =>
      constructor
      · rintro ⟨⟩
      · rintro ⟨⟩
    | error y =>
      constructor
      · rintro ⟨⟩
        rfl
      · rintro ⟨⟩
        rfl
  · have hread := read_eq_parseFormula hblank halways hnever
    refine ⟨hread, fun w => ?_⟩
    rw [run_holds, parse, hread, Formula.parse]

/-- A keyword in mixed letter case between wide blanks is the formula that it would be read as. -/
theorem shortcut_agrees_wide_keyword :
    Condition.read "\u3000TrUe\u00a0" = Expr.parseFormula "\u3000TrUe\u00a0" ∧
    Expr.parseFormula "\u3000TrUe\u00a0" = .ok (.boolean true) ∧
    (validate "\u3000TrUe\u00a0" = .ok () ↔ ∃ e, parse "\u3000TrUe\u00a0" = .ok e) := by
  have hword : (Text.trim "\u3000TrUe\u00a0" == "") = false := by decide +kernel
  have hletters : (Text.foldCase (Text.trim "\u3000TrUe\u00a0")).toList =
      (Text.foldCase "true").toList := by
    decide +kernel
  have htrue : Text.sameFolded (Text.trim "\u3000TrUe\u00a0") "true" = true :=
    beq_iff_eq.mpr (String.toList_inj.mp hletters)
  obtain ⟨-, hvalid, -, hformula⟩ := shortcut_agrees Context.background
    (.ofBindings Dictionary.empty : Resolver Unit) "\u3000TrUe\u00a0"
  obtain ⟨hread, -⟩ := hformula (ne_of_beq_false hword) (by decide +kernel) (by decide +kernel)
  exact ⟨hread, Expr.parseFormula_of_trim true htrue, hvalid⟩

end Condition

end FormulaRules
