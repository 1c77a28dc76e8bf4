import FormulaRules.Proofs.Evaluation.Congruence
import FormulaRules.RuleSet

/-!
# Runs that correspond

Two sources of values are compared by comparing what is evaluated against them. Runs
correspond if they end alike from worlds that do: with related values, or with the same
error. Some errors of the first run may be excused, and then nothing is said of the second.

Which worlds, values and errors these are is left open. Main statements: expressions,
formulas, conditions and rules are evaluated alike against two sources as soon as their
variables are looked up alike. What the sources say about all their variables only shows in
the record of a calculation.
-/

namespace FormulaRules

variable {σ τ ε ε' α β γ δ : Type}

namespace Run

/-- How the end of a run may compare with the end of another one. -/
inductive Corresponds (W : World σ → World τ → Prop) (excused : ε → Prop) (R : α → β → Prop) :
    Except ε α × World σ → Except ε β × World τ → Prop
  | ok {a : α} {b : β} {w : World σ} {v : World τ} :
    R a b → W w v → Corresponds W excused R (.ok a, w) (.ok b, v)
  | error {e : ε} {w : World σ} {v : World τ} :
    W w v → Corresponds W excused R (.error e, w) (.error e, v)
  | excused {e : ε} {w : World σ} {last : Except ε β × World τ} :
    excused e → Corresponds W excused R (.error e, w) last

/-- Ends that correspond without an excuse have the same outcome, as far as related values agree,
and worlds that correspond. -/
theorem Corresponds.map_outcome_eq {W : World σ → World τ → Prop} {excused : ε → Prop}
    {R : α → β → Prop} {first : Except ε α × World σ} {last : Except ε β × World τ}
    (h : Corresponds W excused R first last)
    (hends : ∀ e, first.1 = .error e → ¬excused e) {f : α → γ} {g : β → γ}
    (hvalue : ∀ a b, R a b → f a = g b) :
    first.1.map f = last.1.map g ∧ W first.2 last.2 := by
  cases h with
  | ok hrelated hworld => exact ⟨congrArg Except.ok (hvalue _ _ hrelated), hworld⟩
  | error hworld => exact ⟨rfl, hworld⟩
  | excused he => exact absurd he (hends _ rfl)

/-- Ends that correspond without an excuse are the same if related values are, and worlds that
correspond. -/
theorem Corresponds.eq {W : World σ → World σ → Prop} {excused : ε → Prop} {R : α → α → Prop}
    {first last : Except ε α × World σ} (h : Corresponds W excused R first last)
    (hexcused : ∀ e, ¬excused e) (hvalue : ∀ a b, R a b → a = b) (hworld : ∀ w v, W w v → w = v) :
    first = last := by
  cases h with
  | ok hrelated hworlds => rw [hvalue _ _ hrelated, hworld _ _ hworlds]
  | error hworlds => rw [hworld _ _ hworlds]
  | excused he => exact absurd he (hexcused _)

/-- Ends that correspond have the same outcome if related values are equal, or the first is excused. -/
theorem Corresponds.eq_or_excused {W : World σ → World τ → Prop} {excused : ε → Prop}
    {R : α → α → Prop} {first : Except ε α × World σ} {last : Except ε α × World τ}
    (h : Corresponds W excused R first last) (hvalue : ∀ a b, R a b → a = b) :
    first.1 = last.1 ∨ ∃ e, first.1 = .error e ∧ excused e := by
  cases h with
  | ok hrelated _ => exact .inl (congrArg Except.ok (hvalue _ _ hrelated))
  | error _ => exact .inl rfl
  | excused he => exact .inr ⟨_, rfl, he⟩

/-- Whether a run ends like another one from all worlds that correspond. -/
def Simulates (W : World σ → World τ → Prop) (excused : ε → Prop) (R : α → β → Prop)
    (r : Run σ ε α) (s : Run τ ε β) : Prop :=
  ∀ ⦃w : World σ⦄ ⦃v : World τ⦄, W w v → Corresponds W excused R (r.run.run w) (s.run.run v)

variable {W : World σ → World τ → Prop} {excused : ε → Prop} {R : α → β → Prop}

namespace Simulates

/-- Pure runs of related values correspond. -/
theorem pure {a : α} {b : β} (h : R a b) :
    Simulates W excused R (pure a : Run σ ε α) (pure b : Run τ ε β) :=
  fun _ _ hworld => .ok h hworld

/-- Runs of one outcome correspond. -/
theorem ofExcept (x : Except ε α) :
    Simulates W excused Eq (ofExcept x : Run σ ε α) (ofExcept x : Run τ ε α) := by
  intro w v hworld
  rw [run_ofExcept, run_ofExcept]
  cases x with
  | ok a => exact .ok rfl hworld
  | error e => exact .error hworld

/-- What follows runs that correspond may leave worlds that correspond in a weaker way. -/
theorem corresponds_bind {V : World σ → World τ → Prop} (hV : ∀ w v, W w v → V w v)
    {Q : γ → δ → Prop} {r : Run σ ε α} {s : Run τ ε β} {f : α → Run σ ε γ} {g : β → Run τ ε δ}
    (h : Simulates W excused R r s)
    (hnext : ∀ a b, R a b → ∀ ⦃w v⦄, W w v →
      Corresponds V excused Q ((f a).run.run w) ((g b).run.run v)) :
    ∀ ⦃w v⦄, W w v → Corresponds V excused Q ((r >>= f).run.run w) ((s >>= g).run.run v) := by
  intro w v hworld
  rw [run_bind, run_bind]
  have hfirst := h hworld
  generalize r.run.run w = result at hfirst ⊢
  generalize s.run.run v = result' at hfirst ⊢
  cases hfirst with
  | ok hvalue hworld' => exact hnext _ _ hvalue hworld'
  | error hworld' => exact .error (hV _ _ hworld')
  | excused hexcused => exact .excused hexcused

/-- Runs that are put together from corresponding halves correspond. -/
theorem bind {Q : γ → δ → Prop} {r : Run σ ε α} {s : Run τ ε β} {f : α → Run σ ε γ}
    {g : β → Run τ ε δ} (h : Simulates W excused R r s)
    (hnext : ∀ a b, R a b → Simulates W excused Q (f a) (g b)) :
    Simulates W excused Q (r >>= f) (s >>= g) :=
  h.corresponds_bind (fun _ _ => id) hnext

/-- Runs correspond if their first halves give the same values and what follows corresponds. -/
theorem bind_same {Q : γ → δ → Prop} {r : Run σ ε α} {s : Run τ ε α} {f : α → Run σ ε γ}
    {g : α → Run τ ε δ} (h : Simulates W excused Eq r s)
    (hnext : ∀ a, Simulates W excused Q (f a) (g a)) : Simulates W excused Q (r >>= f) (s >>= g) :=
  h.bind fun a _ heq => heq ▸ hnext a

/-- Evaluation respects the correspondence of runs. -/
def congruence (W : World σ → World τ → Prop) (excused : EvalError → Prop) : Congruence σ τ where
  Related := Simulates W excused Eq
  ofExcept _ := .ofExcept _
  bind := bind_same

/-- Runs still correspond when their errors are changed in the same way. -/
theorem adapt {f : ε → ε'} {excused' : ε' → Prop} {r : Run σ ε α} {s : Run τ ε β}
    (h : Simulates W excused R r s) (hexcused : ∀ e, excused e → excused' (f e)) :
    Simulates W excused' R (r.adapt f) (s.adapt f) := by
  intro w v hworld
  rw [run_adapt, run_adapt]
  have hfirst := h hworld
  generalize r.run.run w = result at hfirst ⊢
  generalize s.run.run v = result' at hfirst ⊢
  cases hfirst with
  | ok hvalue hworld' => exact .ok hvalue hworld'
  | error hworld' => exact .error hworld'
  | excused he => exact .excused (hexcused _ he)

/-- Runs that have the same outcome at any time correspond. -/
theorem of_outcome_eq {r : Run σ ε α} {s : Run τ ε α} (h : ∀ w v, r.outcome w = s.outcome v) :
    Simulates (fun _ _ => True) (fun _ => False) Eq r s := by
  intro w v _
  have heq := h w v
  rw [outcome, outcome] at heq
  generalize r.run.run w = result at heq ⊢
  generalize s.run.run v = result' at heq ⊢
  obtain ⟨last, w'⟩ := result
  obtain ⟨last', v'⟩ := result'
  cases heq
  cases last with
  | ok a => exact .ok rfl trivial
  | error e => exact .error trivial

/-- Where the first run has a value, the second has a related one. -/
theorem exists_of_ok {r : Run σ ε α} {s : Run τ ε β} (h : Simulates W excused R r s)
    {w w' : World σ} {v : World τ} (hworld : W w v) {a : α} (hr : r.run.run w = (.ok a, w')) :
    ∃ b v', s.run.run v = (.ok b, v') ∧ R a b ∧ W w' v' := by
  have hlast := h hworld
  rw [hr] at hlast
  generalize s.run.run v = result' at hlast ⊢
  cases hlast with
  | ok hvalue hworld' => exact ⟨_, _, rfl, hvalue, hworld'⟩

/-- Runs that correspond without an excuse have the same outcome, as far as related values agree. -/
theorem map_outcome_eq {r : Run σ ε α} {s : Run τ ε β} (h : Simulates W excused R r s)
    (hexcused : ∀ e, ¬ excused e) {f : α → γ} {g : β → γ} (hvalue : ∀ a b, R a b → f a = g b)
    {w : World σ} {v : World τ} (hworld : W w v) :
    (r.outcome w).map f = (s.outcome v).map g :=
  ((h hworld).map_outcome_eq (fun e _ => hexcused e) hvalue).1

/-- Runs that correspond without an excuse and with equal values have the same outcome. -/
theorem outcome_eq {R : α → α → Prop} {r : Run σ ε α} {s : Run τ ε α}
    (h : Simulates W excused R r s) (hexcused : ∀ e, ¬ excused e)
    (hvalue : ∀ a b, R a b → a = b) {w : World σ} {v : World τ} (hworld : W w v) :
    r.outcome w = s.outcome v := by
  have hmap := h.map_outcome_eq hexcused (f := id) (g := id) hvalue hworld
  rw [Except.map_id, id, id] at hmap
  exact hmap

end Simulates

end Run

namespace Expr

open Run

variable {W : World σ → World τ → Prop} {excused : EvalError → Prop} {ctx ctx' : Context}
  {source : Resolver σ} {target : Resolver τ}

/-- A tree is evaluated alike if its variables are looked up alike. -/
theorem simulates_evaluate (e : Expr)
    (h : ∀ name ∈ e.occurrences,
      Simulates W excused Eq (source.lookup ctx name) (target.lookup ctx' name)) :
    Simulates W excused Eq (e.evaluate ctx source) (e.evaluate ctx' target) :=
  related_evaluate (Simulates.congruence W excused) e h

/-- A tree has the same number against sources that look its variables up alike. -/
theorem simulates_evaluateNumber (e : Expr)
    (h : ∀ name ∈ e.occurrences,
      Simulates W excused Eq (source.lookup ctx name) (target.lookup ctx' name)) :
    Simulates W excused Eq (e.evaluateNumber ctx source) (e.evaluateNumber ctx' target) :=
  related_evaluateNumber (Simulates.congruence W excused) e h

/-- A tree has the same boolean against sources that look its variables up alike. -/
theorem simulates_evaluateBoolean (e : Expr)
    (h : ∀ name ∈ e.occurrences,
      Simulates W excused Eq (source.lookup ctx name) (target.lookup ctx' name)) :
    Simulates W excused Eq (e.evaluateBoolean ctx source) (e.evaluateBoolean ctx' target) :=
  related_evaluateBoolean (Simulates.congruence W excused) e h

end Expr

/-- Whether the evaluation error at the root of an error is excused. -/
def FormulaError.Excused (excused : EvalError → Prop) (e : FormulaError) : Prop :=
  ∃ cause, e.evalError? = some cause ∧ excused cause

/-- Whether two calculations agree in all but their variables, and these are related. -/
def Calculation.Alike (Q : Bindings → Bindings → Prop) (c d : Calculation) : Prop :=
  Q c.bindings d.bindings ∧ d = { c with bindings := d.bindings }

/-- No error is excused if no evaluation error is. -/
theorem FormulaError.not_excused {excused : EvalError → Prop} (h : ∀ e, ¬ excused e)
    (e : FormulaError) : ¬ e.Excused excused := fun ⟨cause, _, hcause⟩ => h cause hcause

/-- Calculations that agree in all but their variables, and also in these, are the same. -/
theorem Calculation.Alike.eq {c d : Calculation} (h : Alike Eq c d) : c = d := by
  rw [h.2, ← h.1]

section Texts

open Run

variable {W : World σ → World τ → Prop} {excused : EvalError → Prop} {ctx ctx' : Context}
  {source : Resolver σ} {target : Resolver τ}

/-- Evaluation errors stay excused among the errors of formulas. -/
theorem Run.Simulates.inFormula {r : Run σ EvalError α} {s : Run τ EvalError α}
    (h : Simulates W excused Eq r s) :
    Simulates W (FormulaError.Excused excused) Eq r.inFormula s.inFormula :=
  h.adapt fun e he => ⟨e, rfl, he⟩

/-- The errors of formulas stay excused in a rule. -/
theorem Run.Simulates.inRule {r : Run σ FormulaError α} {s : Run τ FormulaError α}
    (h : Simulates W (FormulaError.Excused excused) Eq r s) (index : Nat) (stage : RuleStage) :
    Simulates W (FormulaError.Excused excused) Eq (RuleSet.inRule index stage r)
      (RuleSet.inRule index stage s) :=
  h.adapt fun _ he => he

/-- A formula is calculated alike if variables are looked up alike. -/
theorem Formula.simulates_calculate
    (h : ∀ name, Simulates W excused Eq (source.lookup ctx name) (target.lookup ctx' name))
    (text : String) :
    Simulates W (FormulaError.Excused excused) Eq (calculate ctx source text)
      (calculate ctx' target text) := by
  refine Simulates.bind_same (.ofExcept _) ?_
  intro e
  exact (e.simulates_evaluateNumber fun name _ => h name).inFormula

/-- A condition holds alike if variables are looked up alike. -/
theorem Condition.simulates_holds
    (h : ∀ name, Simulates W excused Eq (source.lookup ctx name) (target.lookup ctx' name))
    (text : String) :
    Simulates W (FormulaError.Excused excused) Eq (holds ctx source text)
      (holds ctx' target text) := by
  rw [holds, holds]
  split
  · exact .pure rfl
  · refine Simulates.bind_same (.ofExcept _) ?_
    intro e
    exact (e.simulates_evaluateBoolean fun name _ => h name).inFormula

/-- Rules are evaluated alike if variables are looked up alike. The calculations differ at most in
the variables that they record, and the worlds that are left in what naming them has done. -/
theorem RuleSet.corresponds_evaluateFrom {V : World σ → World τ → Prop}
    (hV : ∀ w v, W w v → V w v) {Q : Bindings → Bindings → Prop}
    (h : ∀ name, Simulates W excused Eq (source.lookup ctx name) (target.lookup ctx' name))
    (hall : ∀ ⦃w v⦄, W w v → Q (source.all.run w).1 (target.all.run v).1 ∧
      V (source.all.run w).2 (target.all.run v).2) (index : Nat) (rules : List Rule) :
    ∀ ⦃w v⦄, W w v → Corresponds V (FormulaError.Excused excused) (Calculation.Alike Q)
      ((evaluateFrom ctx source index rules).run.run w)
      ((evaluateFrom ctx' target index rules).run.run v) := by
  induction rules generalizing index with
  | nil => exact fun w v hworld => .error (hV w v hworld)
  | cons rule rest ih =>
    refine ((Condition.simulates_holds h rule.condition).inRule index .condition).corresponds_bind
      hV ?_
    rintro matched _ rfl
    cases matched with
    | false => exact ih (index + 1)
    | true =>
      refine ((Formula.simulates_calculate h rule.calculation).inRule index
        .calculation).corresponds_bind hV ?_
      rintro value _ rfl w v hworld
      obtain ⟨hbindings, hworld'⟩ := hall hworld
      exact .ok ⟨hbindings, rfl⟩ hworld'

/-- Rules are evaluated alike if variables are looked up alike and naming them keeps the worlds in
correspondence. -/
theorem RuleSet.simulates_evaluateFrom {Q : Bindings → Bindings → Prop}
    (h : ∀ name, Simulates W excused Eq (source.lookup ctx name) (target.lookup ctx' name))
    (hall : ∀ ⦃w v⦄, W w v → Q (source.all.run w).1 (target.all.run v).1 ∧
      W (source.all.run w).2 (target.all.run v).2) (index : Nat) (rules : List Rule) :
    Simulates W (FormulaError.Excused excused) (Calculation.Alike Q)
      (evaluateFrom ctx source index rules) (evaluateFrom ctx' target index rules) :=
  corresponds_evaluateFrom (fun _ _ => id) h hall index rules

end Texts

end FormulaRules
