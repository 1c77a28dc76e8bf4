import FormulaRules.Proofs.Evaluation.Simulation
import FormulaRules.Proofs.Expr.Parts
import FormulaRules.Proofs.Resolver.Composition

/-!
# What an evaluation depends on

The variables of a tree are all that its evaluation asks a source for. Sources that answer them
alike give the same outcome, whatever else they hold, and a dictionary that has them all misses
none. Sources may answer differently from one lookup to the next; they are then compared in
worlds that correspond.
-/

namespace FormulaRules

variable {σ τ α β : Type}

/-- Whether two sources answer a name alike: in worlds that correspond, with the same value or the
same error, and leaving worlds that correspond. -/
def Resolver.AnswersAlike (W : World σ → World τ → Prop) (ctx ctx' : Context)
    (source : Resolver σ) (target : Resolver τ) (name : String) : Prop :=
  ∀ ⦃w v⦄, W w v →
    (source.lookup ctx name).outcome w = (target.lookup ctx' name).outcome v ∧
    W ((source.lookup ctx name).run.run w).2 ((target.lookup ctx' name).run.run v).2

/-- Lookups that are answered alike correspond. -/
theorem Resolver.AnswersAlike.simulates {W : World σ → World τ → Prop} {ctx ctx' : Context}
    {source : Resolver σ} {target : Resolver τ} {name : String}
    (h : AnswersAlike W ctx ctx' source target name) :
    Run.Simulates W (fun _ => False) Eq (source.lookup ctx name) (target.lookup ctx' name) := by
  intro w v hworld
  obtain ⟨houtcome, hworld'⟩ := h hworld
  rw [Run.outcome, Run.outcome] at houtcome
  generalize (source.lookup ctx name).run.run w = result at houtcome hworld' ⊢
  generalize (target.lookup ctx' name).run.run v = result' at houtcome hworld' ⊢
  obtain ⟨last, w'⟩ := result
  obtain ⟨last', v'⟩ := result'
  cases houtcome
  cases last with
  | ok a => exact .ok rfl hworld'
  | error e => exact .error hworld'

/-- A further entry of a dictionary changes no answer to another name. -/
theorem Resolver.answersAlike_insert (vars : Bindings) {key name : String} (v : Value)
    (h : key ≠ name) (ctx ctx' : Context) :
    AnswersAlike (σ := σ) (τ := τ) (fun _ _ => True) ctx ctx' (ofBindings (vars.insert key v))
      (ofBindings vars) name := by
  intro w u _
  refine ⟨?_, trivial⟩
  rw [Run.outcome, Run.outcome, run_lookup_ofBindings, run_lookup_ofBindings, Dictionary.answer,
    Dictionary.answer, Dictionary.get?_insert, if_neg h]

/-- Whether a run has only allowed ones of the errors that operators and functions do not have. -/
def Run.FaultsIn (allowed : EvalError → Prop) (r : Run σ EvalError α) : Prop :=
  ∀ w e, r.outcome w = .error e → e.isComputed = false → allowed e

namespace Run.FaultsIn

variable {allowed : EvalError → Prop}

/-- What is computed has none of these errors. -/
theorem ofExcept {x : Except EvalError α} (h : Computed x) :
    FaultsIn (σ := σ) allowed (Run.ofExcept x) := by
  intro w e he hfault
  rw [outcome, run_ofExcept] at he
  cases hfault.symm.trans (h e he)

/-- Two halves with allowed errors make a run with allowed errors. -/
theorem bind {r : Run σ EvalError α} {f : α → Run σ EvalError β} (h : FaultsIn allowed r)
    (hnext : ∀ a, FaultsIn allowed (f a)) : FaultsIn allowed (r >>= f) := by
  intro w e he hfault
  have hfirst := h w
  rw [outcome, run_bind] at he
  rw [outcome] at hfirst
  generalize r.run.run w = result at he hfirst
  obtain ⟨e' | a, w'⟩ := result
  · cases he
    exact hfirst e rfl hfault
  · exact hnext a w' e he hfault

/-- Evaluation has the errors of its lookups, as far as operators and functions do not have them. -/
def congruence (σ : Type) (allowed : EvalError → Prop) : Congruence σ σ where
  Related r _ := FaultsIn allowed r
  ofExcept := ofExcept
  bind := bind

end Run.FaultsIn

/-- A dictionary that has a name answers it without an error. -/
theorem Resolver.faultsIn_lookup_ofBindings {vars : Bindings} {name : String}
    (h : vars.contains name = true) (ctx : Context) :
    ((ofBindings vars : Resolver σ).lookup ctx name).FaultsIn fun _ => False := by
  intro w e he _
  obtain ⟨v, hv⟩ := (vars.contains_iff name).mp h
  rw [Run.outcome, run_lookup_ofBindings, Dictionary.answer, hv] at he
  cases he

namespace Expr

/-- The variables of a tree ascend strictly and are those among its parts. Sources that answer them
alike give the same value, number and boolean, or the same error. A dictionary that has them all
misses no variable. -/
theorem evaluate_of_variableNames (e : Expr) :
    (e.variableNames.Pairwise (· < ·) ∧
      ∀ name, name ∈ e.variableNames ↔ (var name).IsPart e) ∧
    (∀ (W : World σ → World τ → Prop) (ctx ctx' : Context) (source : Resolver σ)
      (target : Resolver τ),
      (∀ name ∈ e.variableNames, Resolver.AnswersAlike W ctx ctx' source target name) →
      ∀ w v, W w v →
        (e.evaluate ctx source).outcome w = (e.evaluate ctx' target).outcome v ∧
        (e.evaluateNumber ctx source).outcome w = (e.evaluateNumber ctx' target).outcome v ∧
        (e.evaluateBoolean ctx source).outcome w = (e.evaluateBoolean ctx' target).outcome v) ∧
    (∀ (vars : Bindings) (ctx : Context) (w : World σ),
      (∀ name ∈ e.variableNames, vars.contains name = true) → ∀ missing,
        (e.evaluate ctx (.ofBindings vars)).outcome w ≠ .error (.variableNotFound missing) ∧
        (e.evaluateNumber ctx (.ofBindings vars)).outcome w ≠
          .error (.variableNotFound missing) ∧
        (e.evaluateBoolean ctx (.ofBindings vars)).outcome w ≠
          .error (.variableNotFound missing)) := by
  refine ⟨⟨e.variableNames_ascending, fun name => mem_variableNames_iff⟩, ?_, ?_⟩
  · intro W ctx ctx' source target halike w v hworld
    have hlookups (name : String) (hname : name ∈ e.occurrences) :=
      (halike name (mem_variableNames_iff_mem_occurrences.mpr hname)).simulates
    have hexcused (x : EvalError) : ¬False := id
    exact ⟨(simulates_evaluate e hlookups).outcome_eq hexcused (fun _ _ => id) hworld,
      (simulates_evaluateNumber e hlookups).outcome_eq hexcused (fun _ _ => id) hworld,
      (simulates_evaluateBoolean e hlookups).outcome_eq hexcused (fun _ _ => id) hworld⟩
  · intro vars ctx w hcontains missing
    let C := Run.FaultsIn.congruence σ fun _ => False
    have hlookups (name : String) (hname : name ∈ e.occurrences) :
        C.Related (α := Value) ((Resolver.ofBindings vars).lookup ctx name)
          ((Resolver.ofBindings vars).lookup ctx name) :=
      Resolver.faultsIn_lookup_ofBindings
        (hcontains name (mem_variableNames_iff_mem_occurrences.mpr hname)) ctx
    exact ⟨fun h => related_evaluate C e hlookups w _ h rfl,
      fun h => related_evaluateNumber C e hlookups w _ h rfl,
      fun h => related_evaluateBoolean C e hlookups w _ h rfl⟩

/-- The cost of a delivery has three variables. An order and a draft of it, which has no note
yet, give the same cost. -/
theorem evaluate_of_variableNames_delivery :
    let e := conditional (var "rush") (binary .multiply (var "price") (var "quantity"))
      (var "price")
    let draft : Bindings := Dictionary.ofList
      [("rush", .boolean true), ("quantity", .number 3), ("price", .number 2)]
    let order := draft.insert "note" (.string "fragile")
    let ctx := Context.background
    let w := World.start ()
    e.variableNames = ["price", "quantity", "rush"] ∧
    ((∀ name ∈ e.variableNames, Resolver.AnswersAlike (σ := Unit) (τ := Unit) (fun _ _ => True)
        ctx ctx (.ofBindings order) (.ofBindings draft) name) ∧
      order.contains "note" = true ∧ draft.contains "note" = false ∧
      (e.evaluate ctx (.ofBindings order)).outcome w =
        (e.evaluate ctx (.ofBindings draft)).outcome w) ∧
    ((∀ name ∈ e.variableNames, draft.contains name = true) ∧
      (e.evaluate ctx (.ofBindings draft)).outcome w ≠ .error (.variableNotFound "price")) := by
  intro e draft order ctx w
  have hnames : e.variableNames = ["price", "quantity", "rush"] := by decide +kernel +revert
  have hother : ∀ name ∈ e.variableNames, "note" ≠ name := by
    rw [hnames]
    decide
  have hcontains : ∀ name ∈ e.variableNames, draft.contains name = true := by
    decide +kernel +revert
  have halike (name : String) (hname : name ∈ e.variableNames) :=
    Resolver.answersAlike_insert (σ := Unit) (τ := Unit) draft (.string "fragile")
      (hother name hname) ctx ctx
  obtain ⟨-, hsame, hmiss⟩ := evaluate_of_variableNames (σ := Unit) (τ := Unit) e
  refine ⟨hnames, ⟨halike, by decide +kernel, by decide +kernel, ?_⟩, hcontains, ?_⟩
  · exact (hsame _ ctx ctx _ _ halike w w trivial).1
  · exact (hmiss draft ctx w hcontains "price").1

end Expr

end FormulaRules
