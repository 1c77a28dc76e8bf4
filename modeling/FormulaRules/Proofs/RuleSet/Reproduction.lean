import FormulaRules.Proofs.RuleSet.Selection

/-!
# Calculations that are repeated from their record

A calculation records all variables at hand. For a source that is put together from
dictionaries these are the entries from which it answers, so a dictionary of them answers
every lookup that the source has answered. Main statement: the record alone gives the same
calculation again, and its formula the same value, under any context.
-/

namespace FormulaRules

variable {σ τ : Type}

/-- What a composition answers, a dictionary of its entries answers as well. It gives no account of
the lookups that a context has stopped. -/
theorem Composition.simulates_lookup (sources : Composition) (ctx ctx' : Context) (name : String)
    (v : World τ) :
    Run.Simulates (fun (_ : World σ) v' => v' = v) (fun _ => True) Eq
      (sources.resolver.lookup ctx name)
      ((Resolver.ofBindings sources.bindings).lookup ctx' name) := by
  intro w _ hworld
  subst hworld
  rw [Resolver.run_lookup_ofBindings]
  rcases sources.run_lookup ctx name w with hanswer | ⟨e, -, hstopped⟩
  · rw [hanswer]
    cases sources.bindings.answer name with
    | ok x => exact .ok rfl rfl
    | error e => exact .error rfl
  · rw [hstopped]
    exact .excused trivial

namespace RuleSet

/-- Rules that give a calculation against a composition give the same calculation against the
variables on its record, and its formula gives the same value against them. -/
theorem evaluate_recorded (sources : Composition) (ctx ctx' : Context) (rules : List Rule)
    {c : Calculation} {w w' : World σ}
    (h : (evaluate ctx sources.resolver rules).run.run w = (.ok c, w')) (v : World τ) :
    (evaluate ctx' (Resolver.ofBindings c.bindings) rules).run.run v = (.ok c, v) ∧
    (Formula.calculate ctx' (Resolver.ofBindings c.bindings) c.formula).run.run v =
      (.ok c.value, v) := by
  obtain ⟨-, rule, -, -, w₂, w₃, -, -, -, hvalue, hall, hc⟩ := exists_of_evaluateFrom_ok h
  have hbindings : c.bindings = sources.bindings :=
    congrArg Prod.fst (hall.symm.trans (sources.run_all w₃))
  have hformula : c.formula = rule.calculation := by rw [hc]
  have hlookups (name : String) := sources.simulates_lookup (σ := σ) ctx ctx' name v
  rw [hbindings, hformula]
  constructor
  · have hrules := simulates_evaluateFrom (Q := Eq) hlookups (fun w'' v' hworld =>
      ⟨congrArg Prod.fst (sources.run_all w''), hworld⟩) 0 rules
    obtain ⟨d, v', hrun, halike, rfl⟩ := hrules.exists_of_ok rfl h
    rw [halike.eq]
    exact hrun
  · have hcalculate := Formula.simulates_calculate hlookups rule.calculation
    obtain ⟨x, v', hrun, rfl, rfl⟩ := hcalculate.exists_of_ok rfl hvalue
    exact hrun

/-- An order is laid over defaults, and only its lookups are checked. The second rule applies. What
it has recorded gives the calculation again, also when the deadline has come. -/
theorem evaluate_recorded_order :
    let order := Dictionary.ofList [("quantity", .number 3), ("rush", .boolean false)]
    let defaults := Dictionary.ofList [("quantity", .number 1), ("price", .number 2)]
    let sources := Composition.layered (.checked (.dictionary order)) (.dictionary defaults)
    let rules := [⟨"rush", "price * 2"⟩, ⟨"quantity >= 3", "price * quantity"⟩]
    let ctx : Context := ⟨none, some 5⟩
    let w := World.start ()
    let late : World Unit := ⟨[], 10, ()⟩
    ∃ c w', ((evaluate ctx sources.resolver rules).run.run w = (.ok c, w') ∧
        c.value = 6 ∧ c.formula = "price * quantity") ∧
      (evaluate ctx (Resolver.ofBindings c.bindings) rules).run.run late = (.ok c, late) ∧
      (Formula.calculate ctx (Resolver.ofBindings c.bindings) c.formula).run.run late =
        (.ok c.value, late) := by
  intro order defaults sources rules ctx w late
  have hsix : ((evaluate ctx sources.resolver rules).outcome w).toOption.any (fun c =>
      decide (c.value = 6 ∧ c.formula = "price * quantity")) = true := by
    decide +kernel +revert
  obtain ⟨c, w', hrun, hc⟩ := Run.exists_of_any_outcome hsix
  exact ⟨c, w', ⟨hrun, of_decide_eq_true hc⟩, evaluate_recorded sources ctx ctx rules hrun late⟩

end RuleSet

end FormulaRules
