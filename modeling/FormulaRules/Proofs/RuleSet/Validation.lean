import FormulaRules.Proofs.Condition.Shortcut
import FormulaRules.Proofs.RuleSet.Selection

/-!
# Validated rules

A formula or condition is evaluated by reading its text and running the tree, so it fails for its
syntax exactly if it fails its check, whatever the source of values is. A list of rules adds the
index and the half to such an error, once. Main statement: besides finding no match, rules fail only
with one such layer around a syntax or an evaluation error, and with a syntax error exactly in the
half that is reached and fails its check. Rules that pass their checks never fail for their syntax.
-/

namespace FormulaRules

variable {σ : Type}

/-- Whether an error comes from a formula or a condition on its own. -/
def FormulaError.IsRoot : FormulaError → Prop
  | parse _ | evaluation _ => True
  | rule .. | noMatch _ => False

/-- The error of a text that is read and then evaluated is a syntax error or an evaluation error. -/
theorem Run.isRoot_of_outcome_parsed {α : Type} {parsed : Except SyntaxError Expr}
    {run : Expr → Run σ EvalError α} {w : World σ} {x : FormulaError}
    (h : (Run.ofExcept (parsed.mapError .parse) >>= fun e => (run e).inFormula).outcome w =
      .error x) : x.IsRoot := by
  rw [outcome, run_bind, run_ofExcept] at h
  cases parsed with
  | error y =>
    cases h
    trivial
  | ok e =>
    change ((run e).outcome w).mapError FormulaError.evaluation = .error x at h
    cases hrun : (run e).outcome w with
    | ok a =>
      rw [hrun] at h
      cases h
    | error z =>
      rw [hrun] at h
      cases h
      trivial

/-- A text that is read and then evaluated fails for its syntax exactly if it cannot be read. -/
theorem Run.outcome_parsed_eq_parse_iff {α : Type} {parsed : Except SyntaxError Expr}
    {run : Expr → Run σ EvalError α} {w : World σ} {y : SyntaxError} :
    (Run.ofExcept (parsed.mapError .parse) >>= fun e => (run e).inFormula).outcome w =
      .error (.parse y) ↔ parsed = .error y := by
  rw [outcome, run_bind, run_ofExcept]
  cases parsed with
  | error x =>
    change Except.error (FormulaError.parse x) = .error (.parse y) ↔ _
    rw [Except.error.injEq, Except.error.injEq, FormulaError.parse.injEq]
  | ok e =>
    change ((run e).outcome w).mapError FormulaError.evaluation = .error (.parse y) ↔ _
    constructor
    · cases (run e).outcome w with
      | ok a => rintro ⟨⟩
      | error z => rintro ⟨⟩
    · rintro ⟨⟩

/-- A formula is checked as it is parsed. -/
theorem Formula.validate_eq (text : String) : validate text = (parse text).map fun _ => () := by
  rw [validate]
  cases parse text with
  | ok e => rfl
  | error x => rfl

/-- Check a half of a rule. -/
def Rule.validate (rule : Rule) : RuleStage → Except FormulaError Unit
  | .condition => Condition.validate rule.condition
  | .calculation => Formula.validate rule.calculation

/-- The tree of a half of a rule. -/
def Rule.read (rule : Rule) : RuleStage → Except SyntaxError Expr
  | .condition => Condition.read rule.condition
  | .calculation => Expr.parseFormula rule.calculation

/-- The check of a half fails with the syntax error of its text. -/
theorem Rule.validate_eq_error_iff {rule : Rule} {stage : RuleStage} {x : FormulaError} :
    rule.validate stage = .error x ↔ ∃ y, x = .parse y ∧ rule.read stage = .error y := by
  have hvalidate : rule.validate stage = ((rule.read stage).mapError .parse).map fun _ => () := by
    cases stage with
    | condition => exact Condition.validate_eq rule.condition
    | calculation => exact Formula.validate_eq rule.calculation
  rw [hvalidate]
  cases rule.read stage with
  | ok e =>
    constructor
    · rintro ⟨⟩
    · rintro ⟨y, -, ⟨⟩⟩
  | error y =>
    constructor
    · rintro ⟨⟩
      exact ⟨y, rfl, rfl⟩
    · rintro ⟨_, rfl, ⟨⟩⟩
      rfl

namespace RuleSet

/-- Whether a half of a rule fails with an error. -/
def Fails (ctx : Context) (source : Resolver σ) (rule : Rule) (w : World σ) (x : FormulaError) :
    RuleStage → Prop
  | .condition => (Condition.holds ctx source rule.condition).outcome w = .error x
  | .calculation => (Formula.calculate ctx source rule.calculation).outcome w = .error x

/-- Whether an evaluation comes to a half of the rule with an index: all rules before it pass, and
for the calculation its condition holds. The second world is the one in which the half is
evaluated. -/
inductive Reaches (ctx : Context) (source : Resolver σ) (rules : List Rule) (w : World σ) (i : Nat)
    (rule : Rule) : RuleStage → World σ → Prop
  | condition {w' : World σ} : rules[i]? = some rule → Passes ctx source (rules.take i) w w' →
    Reaches ctx source rules w i rule .condition w'
  | calculation {w' w'' : World σ} : Reaches ctx source rules w i rule .condition w' →
    (Condition.holds ctx source rule.condition).run.run w' = (.ok true, w'') →
    Reaches ctx source rules w i rule .calculation w''

variable {ctx : Context} {source : Resolver σ} {rule : Rule} {w : World σ} {stage : RuleStage}

/-- A half of a rule fails with an error of its own. -/
theorem Fails.isRoot {x : FormulaError} (h : Fails ctx source rule w x stage) : x.IsRoot := by
  cases stage with
  | condition =>
    rw [Fails, Run.outcome, Condition.run_holds] at h
    exact Run.isRoot_of_outcome_parsed h
  | calculation => exact Run.isRoot_of_outcome_parsed h

/-- A half of a rule fails for its syntax exactly if it fails its check. -/
theorem fails_parse_iff {y : SyntaxError} :
    Fails ctx source rule w (.parse y) stage ↔ rule.validate stage = .error (.parse y) := by
  have hread : Fails ctx source rule w (.parse y) stage ↔ rule.read stage = .error y := by
    cases stage with
    | condition =>
      rw [Fails, Run.outcome, Condition.run_holds]
      exact Run.outcome_parsed_eq_parse_iff
    | calculation => exact Run.outcome_parsed_eq_parse_iff
  rw [hread, Rule.validate_eq_error_iff]
  constructor
  · exact fun h => ⟨y, rfl, h⟩
  · rintro ⟨_, ⟨⟩, h⟩
    exact h

/-- What is reached in later rules is reached behind a rule that passes. -/
theorem Reaches.behind {first : Rule} {rest : List Rule} {w' mid : World σ} {i : Nat}
    (h : Reaches ctx source rest w' i rule stage mid)
    (hfirst : (Condition.holds ctx source first.condition).run.run w = (.ok false, w')) :
    Reaches ctx source (first :: rest) w (i + 1) rule stage mid := by
  induction h with
  | condition hrule hpasses => exact .condition hrule (.cons hfirst hpasses)
  | calculation _ htrue ih => exact .calculation ih htrue

/-- Rules fail for finding no match, or for a half that they come to. -/
theorem exists_of_evaluateFrom_error {index : Nat} {rules : List Rule} {w w' : World σ}
    {x : FormulaError} (h : (evaluateFrom ctx source index rules).run.run w = (.error x, w')) :
    x = .noMatch (index + rules.length) ∨
      ∃ i rule stage mid cause, x = .rule (index + i) stage cause ∧
        Reaches ctx source rules w i rule stage mid ∧ Fails ctx source rule mid cause stage := by
  induction rules generalizing index w with
  | nil =>
    cases h
    exact .inl rfl
  | cons first rest ih =>
    rw [evaluateFrom_cons, Run.run_bind] at h
    have hattempt := attempted ctx source index first w
    generalize (attempt ctx source index first).run.run w = result at hattempt h
    cases hattempt with
    | conditionFailed hcondition =>
      cases h
      exact .inr ⟨0, first, .condition, w, _, rfl, .condition rfl (.nil w),
        congrArg Prod.fst hcondition⟩
    | passed hfalse =>
      rcases ih h with rfl | ⟨i, rule, stage, mid, cause, rfl, hreaches, hfails⟩
      · left
        rw [List.length_cons, Nat.add_right_comm, Nat.add_assoc]
      · refine .inr ⟨i + 1, rule, stage, mid, cause, ?_, hreaches.behind hfalse, hfails⟩
        rw [Nat.add_right_comm, Nat.add_assoc]
    | calculationFailed htrue hcalculation =>
      cases h
      exact .inr ⟨0, first, .calculation, _, _, rfl,
        .calculation (.condition rfl (.nil w)) htrue, congrArg Prod.fst hcalculation⟩
    | applied => cases h

/-- Behind rules that pass the evaluation goes on with the next one. -/
theorem run_evaluate_of_passes {rules : List Rule} {i : Nat} {w' : World σ}
    (hrule : rules[i]? = some rule) (hpasses : Passes ctx source (rules.take i) w w') :
    (evaluate ctx source rules).run.run w =
      (evaluateFrom ctx source i (rule :: rules.drop (i + 1))).run.run w' := by
  obtain ⟨hi, rfl⟩ := List.getElem?_eq_some_iff.mp hrule
  have hrun := hpasses.run_append 0 (rules[i] :: rules.drop (i + 1))
  rwa [← List.drop_eq_getElem_cons hi, List.take_append_drop, List.length_take,
    Nat.min_eq_left hi.le, Nat.zero_add, List.drop_eq_getElem_cons hi] at hrun

/-- Rules fail for a half that they come to and that fails. -/
theorem Reaches.outcome_eq {rules : List Rule} {i : Nat} {mid : World σ} {cause : FormulaError}
    (h : Reaches ctx source rules w i rule stage mid)
    (hfails : Fails ctx source rule mid cause stage) :
    (evaluate ctx source rules).outcome w = .error (.rule i stage cause) := by
  cases h with
  | condition hrule hpasses =>
    rw [Run.outcome, run_evaluate_of_passes hrule hpasses, evaluateFrom_cons, Run.run_bind,
      run_attempt]
    rw [Fails, Run.outcome] at hfails
    generalize (Condition.holds ctx source rule.condition).run.run mid = result at hfails ⊢
    obtain ⟨_, mid'⟩ := result
    cases hfails
    rfl
  | calculation hreaches htrue =>
    cases hreaches with
    | condition hrule hpasses =>
    rw [Run.outcome, run_evaluate_of_passes hrule hpasses, evaluateFrom_cons, Run.run_bind,
      run_attempt, htrue]
    rw [Fails, Run.outcome] at hfails
    dsimp only
    generalize (Formula.calculate ctx source rule.calculation).run.run mid = result at hfails ⊢
    obtain ⟨_, mid'⟩ := result
    cases hfails
    rfl

/-- Rules fail for finding no match, or for a half of a rule. -/
theorem cases_of_outcome_eq_error {rules : List Rule} {x : FormulaError}
    (h : (evaluate ctx source rules).outcome w = .error x) :
    x = .noMatch rules.length ∨ ∃ i rule stage mid cause, x = .rule i stage cause ∧
      Reaches ctx source rules w i rule stage mid ∧ Fails ctx source rule mid cause stage := by
  have hrun : (evaluateFrom ctx source 0 rules).run.run w =
      (.error x, ((evaluate ctx source rules).run.run w).2) :=
    Prod.ext h rfl
  have hcases := exists_of_evaluateFrom_error hrun
  simpa only [Nat.zero_add] using hcases

/-- Rules fail for a half of a rule exactly if they come to it and it fails. -/
theorem outcome_eq_rule_iff {rules : List Rule} {i : Nat} {cause : FormulaError} :
    (evaluate ctx source rules).outcome w = .error (.rule i stage cause) ↔
      ∃ rule mid, Reaches ctx source rules w i rule stage mid ∧
        Fails ctx source rule mid cause stage := by
  constructor
  · intro h
    rcases cases_of_outcome_eq_error h with hnone | ⟨_, rule, _, mid, _, hx, hreaches, hfails⟩
    · cases hnone
    · cases hx
      exact ⟨rule, mid, hreaches, hfails⟩
  · rintro ⟨rule, mid, hreaches, hfails⟩
    exact hreaches.outcome_eq hfails

/-- What is reached is one of the rules. -/
theorem Reaches.getElem?_eq {rules : List Rule} {i : Nat} {mid : World σ}
    (h : Reaches ctx source rules w i rule stage mid) : rules[i]? = some rule := by
  induction h with
  | condition hrule _ => exact hrule
  | calculation _ _ ih => exact ih

/-- A half of a rule fails with one error. -/
theorem Fails.unique {x y : FormulaError} (h : Fails ctx source rule w x stage)
    (h' : Fails ctx source rule w y stage) : x = y := by
  cases stage with
  | condition => exact Except.error.inj (h.symm.trans h')
  | calculation => exact Except.error.inj (h.symm.trans h')

/-- A half of a rule fails in its evaluation if it passes its check, and else as its check does. -/
theorem Fails.cases_validate {x : FormulaError} (h : Fails ctx source rule w x stage) :
    (rule.validate stage = .ok () ∧ ∃ z, x = .evaluation z) ∨
      ∃ y, x = .parse y ∧ rule.validate stage = .error (.parse y) := by
  have hroot := h.isRoot
  cases x with
  | parse y => exact .inr ⟨y, rfl, fails_parse_iff.mp h⟩
  | evaluation z =>
    refine .inl ⟨?_, z, rfl⟩
    cases hcheck : rule.validate stage with
    | ok u => rfl
    | error x =>
      obtain ⟨y, rfl, -⟩ := Rule.validate_eq_error_iff.mp hcheck
      cases h.unique (fails_parse_iff.mpr hcheck)
  | rule | noMatch => exact absurd hroot not_false

/-- The errors of rules have one shape: either no rule matches, or one half of a rule fails, with a
syntax error or an evaluation error that is put in one layer. It is a syntax error exactly if the
half fails its check, and then it is the error of the check. So rules that pass their checks never
fail for their syntax, and a calculation fails for its syntax exactly if it fails its check. -/
theorem evaluate_error_and_validate (ctx : Context) (source : Resolver σ) (rules : List Rule)
    (w : World σ) :
    (∀ x, (evaluate ctx source rules).outcome w = .error x → x = .noMatch rules.length ∨
      ∃ i stage, i < rules.length ∧
        ((∃ y, x = .rule i stage (.parse y) ∧ x.syntaxError? = some y ∧ x.evalError? = none) ∨
          ∃ z, x = .rule i stage (.evaluation z) ∧ x.syntaxError? = none ∧
            x.evalError? = some z)) ∧
    (∀ i stage y, (evaluate ctx source rules).outcome w = .error (.rule i stage (.parse y)) ↔
      ∃ rule mid, Reaches ctx source rules w i rule stage mid ∧
        rule.validate stage = .error (.parse y)) ∧
    (∀ i stage cause, (evaluate ctx source rules).outcome w = .error (.rule i stage cause) →
      ∃ rule, rules[i]? = some rule ∧
        ((rule.validate stage = .ok () ∧ ∃ z, cause = .evaluation z) ∨
          ∃ y, cause = .parse y ∧ rule.validate stage = .error (.parse y))) ∧
    ((∀ rule ∈ rules, Condition.validate rule.condition = .ok () ∧
      Formula.validate rule.calculation = .ok ()) →
        ∀ x, (evaluate ctx source rules).outcome w = .error x → x.syntaxError? = none) ∧
    ∀ text x, Formula.validate text = .error x ↔
      (∃ y, x = .parse y) ∧ (Formula.calculate ctx source text).outcome w = .error x := by
  refine ⟨fun x h => ?_, fun i stage y => ?_, fun i stage cause h => ?_, fun hvalid x h => ?_,
    fun text x => ?_⟩
  · refine (cases_of_outcome_eq_error h).imp_right ?_
    rintro ⟨i, rule, stage, mid, cause, rfl, hreaches, hfails⟩
    refine ⟨i, stage, (List.getElem?_eq_some_iff.mp hreaches.getElem?_eq).1, ?_⟩
    rcases hfails.cases_validate with ⟨-, z, rfl⟩ | ⟨y, rfl, -⟩
    · exact .inr ⟨z, rfl, rfl, rfl⟩
    · exact .inl ⟨y, rfl, rfl, rfl⟩
  · simp only [outcome_eq_rule_iff, fails_parse_iff]
  · obtain ⟨rule, mid, hreaches, hfails⟩ := outcome_eq_rule_iff.mp h
    exact ⟨rule, hreaches.getElem?_eq, hfails.cases_validate⟩
  · rcases cases_of_outcome_eq_error h with rfl |
      ⟨i, rule, stage, mid, cause, rfl, hreaches, hfails⟩
    · rfl
    rcases hfails.cases_validate with ⟨-, z, rfl⟩ | ⟨y, -, hcheck⟩
    · rfl
    · obtain ⟨hcondition, hcalculation⟩ := hvalid rule (List.mem_of_getElem? hreaches.getElem?_eq)
      cases stage with
      | condition => cases hcheck.symm.trans hcondition
      | calculation => cases hcheck.symm.trans hcalculation
  · have hparse (y : SyntaxError) : (Formula.calculate ctx source text).outcome w =
        .error (.parse y) ↔ Formula.validate text = .error (.parse y) :=
      @fails_parse_iff σ ctx source (.always text) w .calculation y
    constructor
    · intro hcheck
      have hstage : (Rule.always text).validate .calculation = .error x := hcheck
      obtain ⟨y, rfl, -⟩ := Rule.validate_eq_error_iff.mp hstage
      exact ⟨⟨y, rfl⟩, (hparse y).mpr hcheck⟩
    · rintro ⟨⟨y, rfl⟩, hfails⟩
      exact (hparse y).mp hfails

/-- Behind a rule that passes, a condition that is no formula is refused with the error of its
check. A validated rule with a variable that is not there fails, but not for its syntax. -/
theorem evaluate_error_and_validate_order :
    let order : Resolver Unit := .ofBindings (Dictionary.ofList [("quantity", .number 5)])
    let unreadable : List Rule := [⟨"quantity > 9", "8"⟩, ⟨"((", "1"⟩]
    let readable : List Rule := [⟨"quantity > 3", "price * 2"⟩]
    let w := World.start ()
    (∃ y, (evaluate Context.background order unreadable).outcome w =
        .error (.rule 1 .condition (.parse y)) ∧
      Condition.validate "((" = .error (.parse y)) ∧
    ∃ x, (evaluate Context.background order readable).outcome w = .error x ∧
      x.syntaxError? = none := by
  intro order unreadable readable w
  have hlarge : ((Condition.holds Context.background order "quantity > 9").outcome
      w).toOption.any (· == false) = true := by
    decide +kernel +revert
  have hopen : (Except.error? (Condition.validate "((")).any (fun _ => true) = true := by
    decide +kernel
  have hmissing : (Except.error? ((evaluate Context.background order readable).outcome w)).any
      (fun _ => true) = true := by
    decide +kernel +revert
  constructor
  · obtain ⟨matched, w', hfalse, hmatched⟩ := Run.exists_of_any_outcome hlarge
    obtain rfl : matched = false := eq_of_beq hmatched
    obtain ⟨e, hcheck, -⟩ := Except.exists_of_any_error? hopen
    have hstage : (Rule.mk "((" "1").validate .condition = .error e := hcheck
    obtain ⟨y, rfl, -⟩ := Rule.validate_eq_error_iff.mp hstage
    obtain ⟨-, hparsed, -⟩ := evaluate_error_and_validate Context.background order unreadable w
    have hreaches : Reaches Context.background order unreadable w 1 ⟨"((", "1"⟩ .condition w' :=
      .condition rfl (.cons hfalse (.nil w'))
    exact ⟨y, (hparsed 1 .condition y).mpr ⟨_, w', hreaches, hstage⟩, hcheck⟩
  · obtain ⟨x, hfails, -⟩ := Except.exists_of_any_error? hmissing
    have hok (v : Except FormulaError Unit) (h : v.isOk = true) : v = .ok () := by
      cases v with
      | ok u => rfl
      | error e => cases h
    obtain ⟨-, -, -, hvalid, -⟩ := evaluate_error_and_validate Context.background order readable w
    refine ⟨x, hfails, hvalid (List.forall_mem_singleton.mpr ⟨?_, ?_⟩) x hfails⟩
    · exact hok _ (by decide +kernel)
    · exact hok _ (by decide +kernel)

end RuleSet

end FormulaRules
