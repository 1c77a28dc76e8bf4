import FormulaRules.Proofs.Evaluation.Dependencies
import FormulaRules.Proofs.Evaluation.Replacement
import FormulaRules.Proofs.Reading.Acceptance
import FormulaRules.Proofs.Value.Loose

/-!
# Literals in assignments and in formulas

Numbers and keywords are read by assignments and by formulas in two different ways. Main statement:
both ways give the same value, so giving a variable the value of a literal and writing the text of
the literal in place of the variable come to the same. Keywords with capital letters are strings for
assignments, and zeros behind an odd number of minuses are left out: both make a difference.
-/

namespace FormulaRules

/-- The value of a literal. -/
def Token.literal? : Token → Option Value
  | number x => some (.number x)
  | boolean b => some (.boolean b)
  | _ => none

/-- Whether a text is read to its end into the tokens of a phrase. -/
def Phrase.Fills (p : Phrase) (s : String) : Prop :=
  (TokenStream.ofText s).EndsClean ∧ (TokenStream.ofText s).tokens = p.tokens

/-- The keywords have no capital letters. -/
theorem Text.foldCase_keyword (b : Bool) :
    foldCase (Value.boolean b).text = (Value.boolean b).text := by cases b <;> cbv

namespace Value

open Token

/-- A number is read alike by formulas and loosely. It is finite, neither below zero nor negative
zero, and has no capital letters. -/
theorem ofLooseText_of_fills_number {x : Float} {s : String} (h : (Token.number x).Fills s) :
    ofLooseText s = number x ∧ x.isFinite = true ∧ Number.isNegative x = false ∧
      Text.foldCase (Text.trim s) = Text.trim s := by
  obtain ⟨hform, hread, hx⟩ := readChars?_of_fills h
  have hlower : (Text.trim s).toList.map Char.toLower = (Text.trim s).toList := by
    refine (List.map_congr_left fun c hc => ?_).trans (List.map_id _)
    rcases hform.isDigit_or_point c hc with hdigit | rfl
    · exact Number.toLower_of_isDigit hdigit
    · rfl
  have hpositive := Number.isNegative_of_readChars? hform.ne_sign hread
  refine ⟨ofLooseText_of_read? hread hx, hx, hpositive, ?_⟩
  rw [← String.toList_inj, Text.foldCase, String.toList_map, hlower]

/-- A keyword is read alike by formulas and loosely if it has no capital letters, and else it is
loosely a string. -/
theorem ofLooseText_of_fills_boolean {b : Bool} {s : String} (h : (Token.boolean b).Fills s) :
    ofLooseText s =
      if Text.foldCase (Text.trim s) = Text.trim s then boolean b else string (Text.trim s) := by
  have hfold : Text.foldCase (Text.trim s) = (boolean b).text :=
    (eq_of_beq (boolean_fills_iff.mp h)).trans (Text.foldCase_keyword b)
  by_cases hsmall : Text.foldCase (Text.trim s) = Text.trim s
  · rw [if_pos hsmall]
    exact ofLooseText_boolean (hsmall.symm.trans hfold)
  · rw [if_neg hsmall]
    have hkeyword (b' : Bool) : Text.trim s ≠ (boolean b').text := by
      intro heq
      rw [heq] at hsmall
      exact hsmall (Text.foldCase_keyword b')
    obtain ⟨⟨c, word, hcs, hstart, -⟩, -⟩ := eq_of_fills h (.inr ⟨b, rfl⟩)
    have hhead : (boolean b).text.toList.head? = some c.toLower := by
      rw [← hfold, Text.foldCase, String.toList_map, hcs]
      rfl
    have hletter : c.toLower ∉ ['-', '+', '.', 'i', 'n'] := by
      cases b <;> simp [Value.text] at hhead <;> simp [← hhead]
    have hnone : Number.read? (Text.trim s) = none := by
      rw [Number.read?, hcs]
      exact Number.readChars?_eq_none (isDigit_of_isNameStart hstart) hletter word
    have hunquoted {quote : Char} (hquote : isNameStart quote = false) :
        Text.between? quote (Text.trim s).toList = none := by
      have hne : c ≠ quote := by
        rintro rfl
        cases hstart.symm.trans hquote
      rw [hcs, Text.between?, if_neg hne]
    rw [ofLooseText_of_read?_eq_none hnone, if_neg (hkeyword true), if_neg (hkeyword false),
      hunquoted (by decide), hunquoted (by decide), Option.or_none, Option.getD_none,
      String.ofList_toList]

end Value

/-- The text of a literal in place of a variable fills the phrase with its value in place of the
variable. -/
theorem Phrase.fills_splice {t : Token} {s : String} {v : Value} (ht : t.Fills s)
    (hv : t.literal? = some v) {p : Phrase} {f : String} (hf : p.Fills f) (x : String) :
    (p.replace x v).Fills (Text.splice x s f) := by
  obtain ⟨hclean, htokens⟩ := hf
  have hliteral : t.isOperand = true ∧ (ofValue v).tokens = [t] := by
    cases t with
    | number | boolean =>
      cases hv
      exact ⟨rfl, by rw [ofValue, tokens]⟩
    | _ => cases hv
  have happart := isChain_tokens p
  rw [← htokens] at happart
  have hsplice := TokenStream.endsClean_splice ht hliteral.1 hclean happart x
  rw [htokens, tokens_replace hliteral.2] at hsplice
  exact hsplice

/-- A number is compared with a string by its text. -/
theorem Expr.evaluate_equal_string {σ : Type} {ctx : Context} {source : Resolver σ} {e : Expr}
    {y : Float} (h : e.evaluate ctx source = pure (.number y)) (s : String) :
    (binary .equal e (.string s)).evaluate ctx source =
      pure (.boolean (Number.plain y == s)) := by
  rw [evaluate, h, pure_bind, evaluate_literal rfl]
  rfl

/-- With a literal in place of a variable an accepted formula is accepted, and gives the tree of the
phrase with the literal. -/
theorem Expr.parseFormula_replace {p : Phrase} (hp : Derives .expression p) {f g x : String}
    {v : Value} (hf : p.Fills f) (hg : (p.replace x v).Fills g) {e : Expr}
    (h : parseFormula f = .ok e) : p.tree = e ∧ parseFormula g = .ok (p.replace x v).tree := by
  obtain ⟨hlevels, hheight, htree⟩ := (parseFormula_of_tokens hp hf.1 hf.2).mp h
  refine ⟨htree, (parseFormula_of_tokens (Phrase.derives_replace hp) hg.1 hg.2).mpr ⟨?_, ?_, rfl⟩⟩
  · rwa [Phrase.levels_replace]
  · exact p.height_replace_le.trans hheight

/-- A phrase has the same outcome with a value for a variable and with the literal in its place. -/
theorem Phrase.outcome_replace {v : Value} (hv : v.isFinite = true) {p : Phrase} {x : String}
    (hfold : Folds v (p.negates x)) {σ : Type} (ctx : Context) (vars : Bindings) (w : World σ) :
    (p.tree.evaluate ctx (.ofBindings (vars.insert x v))).outcome w =
      ((p.replace x v).tree.evaluate ctx (.ofBindings vars)).outcome w := by
  let C := Run.Simulates.congruence (σ := σ) (τ := σ) (fun _ _ => True) fun _ => False
  have hx : C.Related ((Resolver.ofBindings (vars.insert x v)).lookup ctx x) (pure v) :=
    Run.Simulates.of_outcome_eq fun w u => by
      rw [Run.outcome, Resolver.run_lookup_ofBindings, Dictionary.answer, Dictionary.get?_insert,
        if_pos rfl]
      rfl
  have hother (name : String) (hname : name ≠ x) :
      C.Related ((Resolver.ofBindings (vars.insert x v)).lookup ctx name)
        ((Resolver.ofBindings vars).lookup ctx name) :=
    (Resolver.answersAlike_insert vars v hname.symm ctx ctx).simulates
  have hrelated := related_replace C hv hx hother p hfold
  exact Run.Simulates.outcome_eq hrelated (fun _ => id) (fun _ _ => id) trivial

/-- The value of a literal is finite, and it folds unless it is zero and an odd number of minuses
stands before it. -/
theorem Token.folds_of_fills {t : Token} {s : String} {v : Value} (ht : t.Fills s)
    (hv : t.literal? = some v) :
    v.isFinite = true ∧ ∀ {odd : Bool}, (v = .number 0 → odd = false) → Phrase.Folds v odd := by
  cases t with
  | number y =>
    cases hv
    obtain ⟨-, hfinite, hpositive, -⟩ := Value.ofLooseText_of_fills_number ht
    refine ⟨hfinite, fun {odd} hzero z hz => ?_⟩
    cases hz
    refine (Number.beq_zero_or_eq_zero hfinite hpositive).imp_right ?_
    rintro rfl
    exact ⟨rfl, hzero rfl⟩
  | boolean b =>
    cases hv
    exact ⟨rfl, fun _ _ h => nomatch h⟩
  | _ => cases hv

namespace Assignment

/-- A literal is assigned the value that it has in a formula, unless it is a keyword with capital
letters, which is assigned as a string. An accepted formula with the text of a literal in place of a
variable is accepted and has the same outcome as with the value of the literal for the variable. A
zero for a variable behind an odd number of minuses is left out. -/
theorem ofText_of_fills_literal {t : Token} {s : String} {v : Value} (ht : t.Fills s)
    (hv : t.literal? = some v) :
    (Text.foldCase (Text.trim s) = Text.trim s → Value.ofLooseText s = v ∧
      ∀ {x : String}, Token.IsWord x.toList → ofText (x ++ "=" ++ s) = .ok (x, v)) ∧
    (Text.foldCase (Text.trim s) ≠ Text.trim s →
      Value.ofLooseText s = .string (Text.trim s) ∧ ∃ b, v = .boolean b) ∧
    ∀ {x f : String} {e : Expr}, Expr.parseFormula f = .ok e →
      (v = .number 0 → ∃ p, Derives .expression p ∧ p.Fills f ∧ p.negates x = false) →
      ∃ e', Expr.parseFormula (Text.splice x s f) = .ok e' ∧
        ∀ (σ : Type) (ctx : Context) (vars : Bindings) (w : World σ),
          (e.evaluate ctx (.ofBindings (vars.insert x v))).outcome w =
            (e'.evaluate ctx (.ofBindings vars)).outcome w := by
  have hloose : Value.ofLooseText s =
        (if Text.foldCase (Text.trim s) = Text.trim s then v else .string (Text.trim s)) ∧
      (Text.foldCase (Text.trim s) ≠ Text.trim s → ∃ b, v = .boolean b) := by
    cases t with
    | number y =>
      cases hv
      obtain ⟨hvalue, -, -, hsmall⟩ := Value.ofLooseText_of_fills_number ht
      exact ⟨hvalue.trans (if_pos hsmall).symm, fun hcapital => absurd hsmall hcapital⟩
    | boolean b =>
      cases hv
      exact ⟨Value.ofLooseText_of_fills_boolean ht, fun _ => ⟨b, rfl⟩⟩
    | _ => cases hv
  obtain ⟨hfinite, hfolds⟩ := Token.folds_of_fills ht hv
  refine ⟨fun hsmall => ?_, fun hcapital => ?_, ?_⟩
  · have hvalue := hloose.1.trans (if_pos hsmall)
    exact ⟨hvalue, fun hx => by rw [ofText_of_isWord hx, hvalue]⟩
  · exact ⟨hloose.1.trans (if_neg hcapital), hloose.2 hcapital⟩
  · intro x f e hparse hzero
    -- For a zero the phrase is given, and else any phrase of the formula will do.
    obtain ⟨p, hp, hf, hodd⟩ : ∃ p, Derives .expression p ∧ p.Fills f ∧
        (v = .number 0 → p.negates x = false) := by
      by_cases hv0 : v = .number 0
      · obtain ⟨p, hp, hf, hnone⟩ := hzero hv0
        exact ⟨p, hp, hf, fun _ => hnone⟩
      · obtain ⟨p, hp, hclean, htokens, -⟩ := Expr.exists_derives_of_parseFormula hparse
        exact ⟨p, hp, ⟨hclean, htokens⟩, fun h => absurd h hv0⟩
    obtain ⟨rfl, hparse'⟩ := Expr.parseFormula_replace hp hf (Phrase.fills_splice ht hv hf x) hparse
    exact ⟨_, hparse', fun σ ctx vars w => Phrase.outcome_replace hfinite (hfolds hodd) ctx vars w⟩

/-- The keyword `TRUE` is true in a formula and is assigned as a string. The literal `0` is assigned
as zero, and written behind a minus is negative zero, which has another text. -/
theorem literals_not_interchangeable :
    ((Token.boolean true).Fills "TRUE" ∧ (Token.boolean true).literal? = some (.boolean true) ∧
      Value.ofLooseText "TRUE" = .string "TRUE" ∧
      ofText ("x" ++ "=" ++ "TRUE") = .ok ("x", .string "TRUE")) ∧
    (Token.number 0).Fills "0" ∧ (Token.number 0).literal? = some (.number 0) ∧
    ofText ("x" ++ "=" ++ "0") = .ok ("x", .number 0) ∧
    ∃ e e', Expr.parseFormula "-x == '0'" = .ok e ∧
      Expr.parseFormula (Text.splice "x" "0" "-x == '0'") = .ok e' ∧
      (e.evaluate .background (.ofBindings (.insert .empty "x" (.number 0)))).outcome
        (World.start ()) = .ok (.boolean true) ∧
      (e'.evaluate .background (.ofBindings .empty)).outcome (World.start ()) =
        .ok (.boolean false) := by
  have hx : Token.IsWord "x".toList := isVariableName_iff.mp (by cbv)
  refine ⟨?_, ?_⟩
  · have hfills : (Token.boolean true).Fills "TRUE" := Token.boolean_fills_iff.mpr (by cbv)
    have htrim : Text.trim "TRUE" = "TRUE" := by cbv
    have hcapital : Text.foldCase (Text.trim "TRUE") ≠ Text.trim "TRUE" := by cbv; decide
    have hvalue := Value.ofLooseText_of_fills_boolean hfills
    rw [if_neg hcapital, htrim] at hvalue
    exact ⟨hfills, rfl, hvalue, by rw [ofText_of_isWord hx, hvalue]⟩
  · have hfills : (Token.number 0).Fills "0" := ⟨trivial, rfl⟩
    have hvalue := (Value.ofLooseText_of_fills_number hfills).1
    have hderives {q : Phrase} (hq : Derives .primary q) :
        Derives .expression (.binary .equal (.signed .minus q) (.string "0")) := by
      have hleft : Derives .equality (.signed .minus q) :=
        (Derives.signed .minus (.tighter hq)).loosen (by decide)
      have hright : Derives .relation (.string "0") := (Derives.string "0").loosen (by decide)
      have hequal : Derives .equality (.binary .equal (.signed .minus q) (.string "0")) :=
        .binary (by decide) hleft hright
      exact hequal.loosen (by decide)
    have hsplice : Text.splice "x" "0" "-x == '0'" = "-0 == '0'" := by cbv
    have he := (Expr.parseFormula_of_tokens (s := "-x == '0'") (hderives (.var "x")) (by cbv)
      (by cbv)).mpr ⟨by decide, by decide, rfl⟩
    have he' := (Expr.parseFormula_of_tokens (s := "-0 == '0'") (hderives (.number 0)) trivial
      rfl).mpr ⟨by decide, by decide, rfl⟩
    have hlookup : (Resolver.ofBindings (.insert .empty "x" (.number 0)) : Resolver Unit).lookup
        .background "x" = pure (.number 0) := rfl
    have hvariable := Phrase.evaluate_of_isBare (p := .signed .minus (.var "x")) (by decide +kernel)
      (.inr rfl) hlookup (by decide)
    have hliteral : (Expr.number (-0)).evaluate .background
        (.ofBindings .empty : Resolver Unit) = pure (.number (-0)) :=
      Expr.evaluate_literal (v := .number (-0)) (by decide +kernel)
    have hzero : (Number.plain 0 == "0") = true := by decide +kernel
    have hnegative : (Number.plain (-0) == "0") = false := by decide +kernel
    rw [Number.signed_zero] at hvariable
    refine ⟨hfills, rfl, by rw [ofText_of_isWord hx, hvalue], _, _, he, hsplice ▸ he', ?_, ?_⟩
    · rw [Phrase.tree, Phrase.tree, Expr.evaluate_equal_string hvariable, hzero]
      rfl
    · have hfolded : (Phrase.signed .minus (.number 0)).tree = Expr.number (-0) := rfl
      rw [Phrase.tree, Phrase.tree, hfolded, Expr.evaluate_equal_string hliteral, hnegative]
      rfl

/-- A rate of 2.5 is assigned and written in place of the variable in both places, and so is a zero
behind two minuses. The keyword `TrUe` is assigned as a string. -/
theorem ofText_of_fills_literal_rate :
    let p := Phrase.signed .minus (.signed .minus (.var "x"))
    let w := World.start ()
    ((Token.number 2.5).Fills " 2.5" ∧
      ofText ("rate" ++ "=" ++ " 2.5") = .ok ("rate", .number 2.5) ∧
      Text.splice "rate" " 2.5" "-rate*rate" = "- 2.5* 2.5" ∧
      ∃ e e', Expr.parseFormula "-rate*rate" = .ok e ∧ Expr.parseFormula "- 2.5* 2.5" = .ok e' ∧
        (e.evaluate .background (.ofBindings (.insert .empty "rate" (.number 2.5)))).outcome w =
          (e'.evaluate .background (.ofBindings .empty)).outcome w) ∧
    ((Token.number 0).Fills "0" ∧ Derives .expression p ∧ p.Fills "--x" ∧ p.negates "x" = false ∧
      Text.splice "x" "0" "--x" = "--0" ∧
      ∃ e', Expr.parseFormula "--x" = .ok p.tree ∧ Expr.parseFormula "--0" = .ok e' ∧
        (p.tree.evaluate .background (.ofBindings (.insert .empty "x" (.number 0)))).outcome w =
          (e'.evaluate .background (.ofBindings .empty)).outcome w) ∧
    (Token.boolean true).Fills "TrUe" ∧ Value.ofLooseText "TrUe" = .string (Text.trim "TrUe") := by
  intro p w
  refine ⟨?_, ?_, ?_⟩
  · have hfills : (Token.number 2.5).Fills " 2.5" := ⟨trivial, rfl⟩
    have hsmall : Text.foldCase (Text.trim " 2.5") = Text.trim " 2.5" := by cbv
    have hx : Token.IsWord "rate".toList := isVariableName_iff.mp (by cbv)
    have hsplice : Text.splice "rate" " 2.5" "-rate*rate" = "- 2.5* 2.5" := by cbv
    have hnonzero (h : Value.number 2.5 = .number 0) :
        ∃ p, Derives .expression p ∧ p.Fills "-rate*rate" ∧ p.negates "rate" = false := by
      have hne : ((2.5 : Float) == 0) = false := by decide +kernel
      rw [Value.number.inj h] at hne
      exact absurd hne (by decide +kernel)
    have hminus : Derives .signed (.signed .minus (.var "rate")) :=
      .signed .minus (.tighter (.var "rate"))
    have hproduct : Derives .product
        (.binary .multiply (.signed .minus (.var "rate")) (.var "rate")) :=
      .binary (by decide) (.tighter hminus) (.tighter (.var "rate"))
    have hparse := (Expr.parseFormula_of_tokens (s := "-rate*rate") (hproduct.loosen (by decide))
      (by cbv) (by cbv)).mpr ⟨by decide, by decide, rfl⟩
    obtain ⟨hassigned, -, hwritten⟩ := ofText_of_fills_literal hfills rfl
    obtain ⟨e', he', hsame⟩ := hwritten hparse hnonzero
    rw [hsplice] at he'
    exact ⟨hfills, (hassigned hsmall).2 hx, hsplice, _, e', hparse, he',
      hsame Unit .background .empty w⟩
  · have hfills : (Token.number 0).Fills "0" := ⟨trivial, rfl⟩
    have hp : Derives .expression p :=
      (Derives.signed .minus (.signed .minus (.tighter (.var "x")))).loosen (by decide)
    have hf : p.Fills "--x" := ⟨by cbv, by cbv⟩
    have hsplice : Text.splice "x" "0" "--x" = "--0" := by cbv
    have hparse : Expr.parseFormula "--x" = .ok p.tree :=
      (Expr.parseFormula_of_tokens hp hf.1 hf.2).mpr ⟨by decide, by decide, rfl⟩
    have heven : p.negates "x" = false := by decide
    obtain ⟨e', he', hsame⟩ := (ofText_of_fills_literal hfills rfl).2.2 (x := "x") hparse
      fun _ => ⟨p, hp, hf, heven⟩
    rw [hsplice] at he'
    exact ⟨hfills, hp, hf, heven, hsplice, e', hparse, he', hsame Unit .background .empty w⟩
  · have hkeyword : (Token.boolean true).Fills "TrUe" := Token.boolean_fills_iff.mpr (by cbv)
    have hcapital : Text.foldCase (Text.trim "TrUe") ≠ Text.trim "TrUe" := by cbv; decide
    exact ⟨hkeyword, ((ofText_of_fills_literal hkeyword rfl).2.1 hcapital).1⟩

end Assignment

end FormulaRules
