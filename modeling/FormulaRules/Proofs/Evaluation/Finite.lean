import FormulaRules.Proofs.Evaluation.Typing
import FormulaRules.Proofs.Number.Whole
import FormulaRules.Proofs.RuleSet.Selection

/-!
# Evaluations have finite results

A source may answer with an infinity or a NaN, and a tree may have one as a literal. Neither
gets past the place where it enters. An operator and most built-in functions check their own
results; `if` and some cases of `round` check nothing and pass on what their arguments bring.

Main statement: the numbers of expressions, formulas and rules are finite, whatever the tree and
the source.
-/

namespace FormulaRules

variable {σ ε α : Type}

/-- A property of the value is asked of no error. -/
theorem Except.satisfiesM_error {P : α → Prop} (e : ε) : SatisfiesM P (.error e : Except ε α) :=
  SatisfiesM_Except_eq.mpr nofun

namespace Run

/-- A run has values with a property if every run that succeeds has one. -/
theorem satisfiesM_iff {P : α → Prop} {r : Run σ ε α} :
    SatisfiesM P r ↔ ∀ w a w', r.run.run w = (.ok a, w') → P a := by
  rw [SatisfiesM_ExceptT_eq, SatisfiesM_StateT_eq]
  simp only [SatisfiesM_Id_eq]
  constructor
  · exact fun h w a w' hrun => h w a (congrArg Prod.fst hrun)
  · exact fun h w a hvalue => h w a (r.run.run w).2 (Prod.ext hvalue rfl)

/-- The run of an outcome has the values of the outcome. -/
theorem satisfiesM_ofExcept {P : α → Prop} {x : Except ε α} (h : SatisfiesM P x) :
    SatisfiesM P (ofExcept x : Run σ ε α) := by
  rw [satisfiesM_iff]
  intro w a w' hrun
  exact SatisfiesM_Except_eq.mp h a (ofExcept_eq_ok_iff.mp hrun).1

end Run

namespace Value

/-- A value that is let in is finite. -/
theorem isFinite_finiteFrom (origin : String) (v : Value) :
    SatisfiesM (·.isFinite = true) (v.finiteFrom origin) := by
  rw [finiteFrom]
  split
  · next hfinite => exact .pure hfinite
  · exact Except.satisfiesM_error _

/-- A checked result is finite. -/
theorem isFinite_ofResult (operation : String) (x : Float) :
    SatisfiesM (·.isFinite = true) (ofResult operation x) := by
  rw [ofResult]
  split
  · next hfinite => exact .pure hfinite
  · exact Except.satisfiesM_error _

/-- A value that is read as a finite number is finite. -/
theorem isFinite_toFiniteNumber (operation : String) (v : Value) :
    SatisfiesM (·.isFinite = true) (v.toFiniteNumber operation) := by
  refine SatisfiesM.bind .trivial fun x _ => ?_
  split
  · next hfinite => exact .pure hfinite
  · exact Except.satisfiesM_error _

end Value

namespace Operator

/-- A computed number is finite. -/
theorem isFinite_compute (op : Operator) (x y : Float) :
    SatisfiesM (·.isFinite = true) (op.compute x y) := by
  unfold compute
  split
  case h_4 | h_5 =>
    split
    · exact Except.satisfiesM_error _
    · exact Value.isFinite_ofResult _ _
  all_goals exact Value.isFinite_ofResult _ _

/-- The result of an operator is finite, whatever the operands. -/
theorem isFinite_apply (op : Operator) (v w : Value) :
    SatisfiesM (·.isFinite = true) (op.apply v w) := by
  cases op with
  | add | subtract | multiply | divide | modulo =>
    refine SatisfiesM.bind .trivial fun x _ => ?_
    refine SatisfiesM.bind .trivial fun y _ => ?_
    exact isFinite_compute _ x y
  | equal | notEqual => exact .pure rfl
  | less | lessOrEqual | greater | greaterOrEqual | and | or =>
    refine SatisfiesM.bind .trivial fun x _ => ?_
    refine SatisfiesM.bind .trivial fun y _ => ?_
    exact .pure rfl

end Operator

namespace Builtin

/-- A finite number is rounded to a finite one. -/
theorem isFinite_roundTo {x : Float} (hx : x.isFinite = true) (decimals : Float) :
    SatisfiesM (·.isFinite = true) (roundTo x decimals) := by
  rw [roundTo]
  split
  · exact .pure (Number.isFinite_round hx)
  · dsimp only
    split
    · exact .pure (by decide +kernel)
    · split
      · exact Value.isFinite_ofResult _ _
      · exact Value.isFinite_ofResult _ _

/-- Rounding has a finite result, with and without decimals. -/
theorem isFinite_round (args : List Value) :
    SatisfiesM (·.isFinite = true) (round args) := by
  have hnumber (position : Nat) : SatisfiesM (·.isFinite = true)
      (numberAt "round()" args position) :=
    SatisfiesM.bind .trivial fun v _ => v.isFinite_toFiniteNumber _
  refine SatisfiesM.bind (hnumber 0) fun x hx => ?_
  dsimp only
  split
  · exact isFinite_roundTo hx 0
  · exact SatisfiesM.bind .trivial fun decimals _ => isFinite_roundTo hx decimals

/-- A choice between finite arguments is finite. -/
theorem isFinite_choose {args : List Value} (hargs : ∀ v ∈ args, v.isFinite = true) :
    SatisfiesM (·.isFinite = true) (choose args) := by
  rw [SatisfiesM_Except_eq]
  intro v h
  rcases argument_of_choose h with hthen | helse
  · exact hargs v (List.mem_of_getElem? hthen)
  · exact hargs v (List.mem_of_getElem? helse)

/-- A built-in function has a finite result if its arguments are finite. -/
theorem isFinite_run {f : Function} (hf : f ∈ all) {args : List Value}
    (hargs : ∀ v ∈ args, v.isFinite = true) :
    SatisfiesM (·.isFinite = true) (f.run args) := by
  have hofNumber (operation : String) (g : Float → Float) :
      SatisfiesM (·.isFinite = true) (ofNumber operation g args) :=
    SatisfiesM.bind .trivial fun x _ => Value.isFinite_ofResult _ _
  simp only [all, List.mem_cons, List.not_mem_nil, or_false] at hf
  rcases hf with rfl | rfl | rfl | rfl | rfl | rfl | rfl | rfl | rfl | rfl
  · exact SatisfiesM.bind .trivial fun xs _ => Value.isFinite_ofResult _ _
  · exact SatisfiesM.bind .trivial fun xs _ => Value.isFinite_ofResult _ _
  · exact hofNumber _ _
  · exact isFinite_round args
  · exact hofNumber _ _
  · exact hofNumber _ _
  · refine SatisfiesM.bind .trivial fun base _ => ?_
    exact SatisfiesM.bind .trivial fun exponent _ => Value.isFinite_ofResult _ _
  · refine SatisfiesM.bind .trivial fun x _ => ?_
    split
    · exact Except.satisfiesM_error _
    · exact Value.isFinite_ofResult _ _
  · exact isFinite_choose hargs
  · refine SatisfiesM.bind .trivial fun condition _ => ?_
    exact SatisfiesM.bind .trivial fun b _ => .pure rfl

end Builtin

/-- A call of a built-in function has a finite result if its arguments are finite. -/
theorem Registry.isFinite_call_builtins (name : String) {args : List Value}
    (hargs : ∀ v ∈ args, v.isFinite = true) :
    SatisfiesM (·.isFinite = true) (builtins.call name args) := by
  rw [SatisfiesM_Except_eq]
  intro v h
  obtain ⟨f, hf, -, -, hrun⟩ := exists_of_call_builtins h
  exact SatisfiesM_Except_eq.mp (Builtin.isFinite_run hf hargs) v hrun

namespace Expr

variable (ctx : Context) (source : Resolver σ)

mutual

/-- The values of a tree are finite. -/
theorem isFinite_evaluate (e : Expr) :
    SatisfiesM (·.isFinite = true) (e.evaluate ctx source) := by
  cases e with
  | literal v => exact Run.satisfiesM_ofExcept (v.isFinite_finiteFrom _)
  | var name =>
    exact SatisfiesM.bind .trivial fun v _ => Run.satisfiesM_ofExcept (v.isFinite_finiteFrom _)
  | binary op a b =>
    refine SatisfiesM.bind .trivial fun v _ => ?_
    refine SatisfiesM.bind .trivial fun w _ => ?_
    exact Run.satisfiesM_ofExcept (op.isFinite_apply v w)
  | conditional c a b =>
    refine SatisfiesM.bind .trivial fun v _ => ?_
    refine SatisfiesM.bind .trivial fun chosen _ => ?_
    cases chosen with
    | true => exact isFinite_evaluate a
    | false => exact isFinite_evaluate b
  | call name args =>
    refine SatisfiesM.bind (isFinite_evaluateAll args) fun vs hvs => ?_
    exact Run.satisfiesM_ofExcept (Registry.isFinite_call_builtins name hvs)

/-- The values of a list of trees are finite. -/
theorem isFinite_evaluateAll (es : List Expr) :
    SatisfiesM (∀ v ∈ ·, v.isFinite = true)
      (evaluateAll ctx source es) := by
  cases es with
  | nil => exact .pure nofun
  | cons e rest =>
    refine SatisfiesM.bind (isFinite_evaluate e) fun v hv => ?_
    refine SatisfiesM.bind (isFinite_evaluateAll rest) fun vs hvs => ?_
    exact .pure (List.forall_mem_cons.mpr ⟨hv, hvs⟩)

end

/-- The number of a tree is finite. -/
theorem isFinite_evaluateNumber (e : Expr) :
    SatisfiesM (·.isFinite = true) (e.evaluateNumber ctx source) :=
  SatisfiesM.bind .trivial fun v _ => Run.satisfiesM_ofExcept (v.isFinite_toFiniteNumber _)

end Expr

/-- The number of a formula is finite. -/
theorem Formula.isFinite_calculate (ctx : Context) (source : Resolver σ) (text : String) :
    SatisfiesM (·.isFinite = true) (calculate ctx source text) := by
  refine SatisfiesM.bind .trivial fun e _ => ?_
  rw [Run.satisfiesM_iff]
  intro w x w' hrun
  exact Run.satisfiesM_iff.mp (e.isFinite_evaluateNumber ctx source) w x w'
    (Run.adapt_eq_ok_iff.mp hrun)

/-- Every number that an expression, a formula or a list of rules gives is finite, whatever the
source answers and whatever the literals of the tree. -/
theorem isFinite_of_evaluation (ctx : Context) (source : Resolver σ) (w : World σ) :
    (∀ e x w', (Expr.evaluate ctx source e).run.run w = (.ok (.number x), w') →
      x.isFinite = true) ∧
    (∀ e x w', (Expr.evaluateNumber ctx source e).run.run w = (.ok x, w') →
      x.isFinite = true) ∧
    (∀ text x w', (Formula.calculate ctx source text).run.run w = (.ok x, w') →
      x.isFinite = true) ∧
    (∀ rules c w', (RuleSet.evaluate ctx source rules).run.run w = (.ok c, w') →
      c.value.isFinite = true) := by
  refine ⟨fun e x w' h => ?_, fun e x w' h => ?_, fun text x w' h => ?_, fun rules c w' h => ?_⟩
  · exact Run.satisfiesM_iff.mp (e.isFinite_evaluate ctx source) w _ w' h
  · exact Run.satisfiesM_iff.mp (e.isFinite_evaluateNumber ctx source) w x w' h
  · exact Run.satisfiesM_iff.mp (Formula.isFinite_calculate ctx source text) w x w' h
  · obtain ⟨-, rule, -, -, w₂, w₃, -, -, -, hvalue, -, -⟩ := RuleSet.exists_of_evaluateFrom_ok h
    exact Run.satisfiesM_iff.mp (Formula.isFinite_calculate ctx source rule.calculation) w₂ c.value
      w₃ hvalue

/-- A source that also knows an infinity gives a finite number as long as the infinity is not
asked for, by way of `if` and `round` as well. -/
theorem isFinite_of_evaluation_choice :
    let source : Resolver Unit := .ofBindings
      (Dictionary.ofList [("share", .number 2.5), ("limit", .number (1 / 0))])
    let w := World.start ()
    let ctx := Context.background
    let e := Expr.call "if" [.binary .less (.number 1) (.var "share"),
      .call "round" [.var "share"], .number 0]
    let rules := [⟨"share > 3", "limit"⟩, ⟨"always", "round(share)"⟩]
    (∃ x w', (e.evaluate ctx source).run.run w = (.ok (.number x), w') ∧ x.isFinite = true) ∧
    (∃ x w', (e.evaluateNumber ctx source).run.run w = (.ok x, w') ∧ x.isFinite = true) ∧
    (∃ x w', (Formula.calculate ctx source "round(share) / 2").run.run w = (.ok x, w') ∧
      x.isFinite = true) ∧
    (∃ c w', (RuleSet.evaluate ctx source rules).run.run w = (.ok c, w') ∧
      c.value.isFinite = true) := by
  intro source w ctx e rules
  have hvalue : ((e.evaluate ctx source).outcome w).toOption.any (·.number?.isSome) = true := by
    decide +kernel +revert
  have hnumber : ((e.evaluateNumber ctx source).outcome w).toOption.any (· == 3) = true := by
    decide +kernel +revert
  have hformula : ((Formula.calculate ctx source "round(share) / 2").outcome w).toOption.any
      (· == 1.5) = true := by
    decide +kernel +revert
  have hrules : ((RuleSet.evaluate ctx source rules).outcome w).toOption.any (·.value == 3) =
      true := by
    decide +kernel +revert
  obtain ⟨v, w₁, hvalue, hsome⟩ := Run.exists_of_any_outcome hvalue
  obtain ⟨x, w₂, hnumber, -⟩ := Run.exists_of_any_outcome hnumber
  obtain ⟨y, w₃, hformula, -⟩ := Run.exists_of_any_outcome hformula
  obtain ⟨c, w₄, hrules, -⟩ := Run.exists_of_any_outcome hrules
  obtain ⟨hfinite₁, hfinite₂, hfinite₃, hfinite₄⟩ := isFinite_of_evaluation ctx source w
  cases v with
  | number z =>
    exact ⟨⟨z, w₁, hvalue, hfinite₁ e z w₁ hvalue⟩, ⟨x, w₂, hnumber, hfinite₂ e x w₂ hnumber⟩,
      ⟨y, w₃, hformula, hfinite₃ _ y w₃ hformula⟩, ⟨c, w₄, hrules, hfinite₄ rules c w₄ hrules⟩⟩
  | boolean b => cases hsome
  | string s => cases hsome

end FormulaRules
