import FormulaRules.Proofs.Evaluation.Typing
import FormulaRules.Proofs.RuleSet.Selection

/-!
# Two ways to choose

A conditional evaluates the branch that it chooses, and the function `if` evaluates all its
arguments before it chooses one. Main statement: against a source that answers always the same, the
function has a value exactly if the conditional has this value and the branch that it leaves out has
one too. Both have the same static type.

A source that always answers the same lets a run have one outcome, whatever happened before. The
outcome of a tree is then made of the outcomes of its parts, and the worlds between them can be
forgotten. Which error comes up if there is no value is left open.
-/

namespace FormulaRules

variable {σ ε α β : Type}

namespace Run

/-- Whether a run has the same outcome in all worlds. -/
def Steady (r : Run σ ε α) : Prop := ∀ w v, r.outcome w = r.outcome v

/-- If the second half of a run is steady, it may be asked in the first world. -/
theorem outcome_bind {r : Run σ ε α} {f : α → Run σ ε β} (h : ∀ a, (f a).Steady) (w : World σ) :
    (r >>= f).outcome w = r.outcome w >>= fun a => (f a).outcome w := by
  rw [outcome, outcome, run_bind]
  generalize r.run.run w = result
  obtain ⟨e | a, w'⟩ := result
  · rfl
  · exact h a w' w

/-- The outcome of a run of an outcome is this outcome. -/
theorem outcome_ofExcept (x : Except ε α) (w : World σ) : (ofExcept x).outcome w = x := by
  rw [outcome, run_ofExcept]

/-- A run of an outcome is steady. -/
theorem steady_ofExcept (x : Except ε α) : (ofExcept x : Run σ ε α).Steady := by
  intro w v
  rw [outcome_ofExcept, outcome_ofExcept]

/-- A run is steady if both halves are. -/
theorem Steady.bind {r : Run σ ε α} {f : α → Run σ ε β} (h : r.Steady)
    (hnext : ∀ a, (f a).Steady) : (r >>= f).Steady := by
  intro w v
  rw [outcome_bind hnext, outcome_bind hnext, h w v]
  exact congrArg (r.outcome v >>= ·) (funext fun a => hnext a w v)

end Run

namespace Expr

variable {ctx : Context} {source : Resolver σ}

/-- A tree is steady against a source that answers always the same. -/
theorem steady_evaluate (h : source.SteadyLookups ctx) (e : Expr) :
    (e.evaluate ctx source).Steady := fun _ _ =>
  (e.simulates_evaluate fun name _ => .of_outcome_eq (h name)).outcome_eq (fun _ => id)
    (fun _ _ => id) trivial

/-- A list of trees is steady against a source that answers always the same. -/
theorem steady_evaluateAll (h : source.SteadyLookups ctx) (es : List Expr) :
    (evaluateAll ctx source es).Steady := by
  induction es with
  | nil => exact fun _ _ => rfl
  | cons e rest ih => exact (steady_evaluate h e).bind fun v => ih.bind fun vs _ _ => rfl

/-- The outcome of a list of trees is made of the outcomes of the trees. -/
theorem outcome_evaluateAll (h : source.SteadyLookups ctx) (es : List Expr) (w : World σ) :
    (evaluateAll ctx source es).outcome w = es.mapM fun e => (e.evaluate ctx source).outcome w := by
  induction es with
  | nil => rfl
  | cons e rest ih =>
    rw [evaluateAll, Run.outcome_bind, List.mapM_cons]
    · congr 1
      funext v
      rw [Run.outcome_bind fun vs _ _ => rfl, ih]
      rfl
    · exact fun v => (steady_evaluateAll h rest).bind fun vs _ _ => rfl

/-- The outcome of a call is made of the outcomes of its arguments. -/
theorem outcome_call (h : source.SteadyLookups ctx) (name : String) (args : List Expr)
    (w : World σ) :
    ((call name args).evaluate ctx source).outcome w = (do
      let vs ← args.mapM fun e => (e.evaluate ctx source).outcome w
      Registry.builtins.call name vs) := by
  rw [evaluate, Run.outcome_bind fun vs => Run.steady_ofExcept _, outcome_evaluateAll h]
  simp only [Run.outcome_ofExcept]

/-- The outcome of a conditional is made of the outcomes of its condition and of one branch. -/
theorem outcome_conditional (h : source.SteadyLookups ctx) (c t f : Expr) (w : World σ) :
    ((conditional c t f).evaluate ctx source).outcome w = (do
      let u ← (c.evaluate ctx source).outcome w
      let chosen ← u.toBoolean "?:"
      ((if chosen then t else f).evaluate ctx source).outcome w) := by
  have hbranch (chosen : Bool) : (if chosen then t.evaluate ctx source
      else f.evaluate ctx source).Steady := by
    cases chosen with
    | true => exact steady_evaluate h t
    | false => exact steady_evaluate h f
  rw [evaluate, Run.outcome_bind fun u => (Run.steady_ofExcept _).bind hbranch]
  simp only [Run.outcome_bind hbranch, Run.outcome_ofExcept, apply_ite]

end Expr

/-- The operation shows only in the error of a value that is no boolean. -/
theorem Value.toBoolean_eq_ok_iff (operation other : String) {v : Value} {b : Bool} :
    v.toBoolean operation = .ok b ↔ v.toBoolean other = .ok b := by
  cases v with
  | boolean c => exact Iff.rfl
  | number x => exact Iff.rfl
  | string s =>
    simp only [toBoolean]
    split
    · exact Iff.rfl
    · split
      · exact Iff.rfl
      · exact ⟨nofun, nofun⟩

/-- Choosing from three arguments reads the first one as a boolean. -/
theorem Builtin.choose_eq_ok_iff {u x y v : Value} :
    choose [u, x, y] = .ok v ↔
      ∃ chosen, u.toBoolean "if()" = .ok chosen ∧ (if chosen then x else y) = v := by
  change (u.toBoolean "if()" >>= fun chosen => if chosen then .ok x else .ok y) = .ok v ↔ _
  rw [Except.bind_eq_ok_iff]
  refine exists_congr fun chosen => and_congr_right fun _ => ?_
  cases chosen with
  | true => exact Except.ok.injEq x v ▸ Iff.rfl
  | false => exact Except.ok.injEq y v ▸ Iff.rfl

/-- The function whose name is `if` in some letter case chooses. -/
theorem Registry.call_builtins_if {name : String} (h : Text.foldCase name = "if") (u x y : Value) :
    builtins.call name [u, x, y] = Builtin.choose [u, x, y] := by
  rw [call, get?, h]
  rfl

namespace Expr

variable {ctx : Context} {source : Resolver σ}

/-- A call of `if` evaluates its condition and both branches before it chooses. -/
theorem outcome_call_if (h : source.SteadyLookups ctx) {name : String}
    (hname : Text.foldCase name = "if") (c t f : Expr) (w : World σ) :
    ((call name [c, t, f]).evaluate ctx source).outcome w = (do
      let u ← (c.evaluate ctx source).outcome w
      let x ← (t.evaluate ctx source).outcome w
      let y ← (f.evaluate ctx source).outcome w
      Builtin.choose [u, x, y]) := by
  rw [outcome_call h]
  simp only [List.mapM_cons, List.mapM_nil, bind_assoc, pure_bind,
    Registry.call_builtins_if hname]

/-- A call of `if` has a value if its condition and both branches have one, and it is the value of
the branch that the condition chooses. -/
theorem outcome_call_if_eq_ok_iff (h : source.SteadyLookups ctx) {name : String}
    (hname : Text.foldCase name = "if") {c t f : Expr} {w : World σ} {v : Value} :
    ((call name [c, t, f]).evaluate ctx source).outcome w = .ok v ↔
      ∃ u chosen x, (c.evaluate ctx source).outcome w = .ok u ∧
        u.toBoolean "?:" = .ok chosen ∧
        ((if chosen then t else f).evaluate ctx source).outcome w = .ok v ∧
        ((if chosen then f else t).evaluate ctx source).outcome w = .ok x := by
  simp only [outcome_call_if h hname, Except.bind_eq_ok_iff, Builtin.choose_eq_ok_iff]
  constructor
  · rintro ⟨u, hu, x, hx, y, hy, chosen, hchosen, rfl⟩
    have hread := (Value.toBoolean_eq_ok_iff "if()" "?:").mp hchosen
    cases chosen with
    | true => exact ⟨u, true, y, hu, hread, hx, hy⟩
    | false => exact ⟨u, false, x, hu, hread, hy, hx⟩
  · rintro ⟨u, chosen, x, hu, hread, hv, hx⟩
    have hchosen := (Value.toBoolean_eq_ok_iff "?:" "if()").mp hread
    cases chosen with
    | true => exact ⟨u, hu, v, hv, x, hx, true, hchosen, rfl⟩
    | false => exact ⟨u, hu, x, hx, v, hv, false, hchosen, rfl⟩

/-- A conditional has a value if its condition and the branch that this chooses have one. -/
theorem outcome_conditional_eq_ok_iff (h : source.SteadyLookups ctx) {c t f : Expr} {w : World σ}
    {v : Value} :
    ((conditional c t f).evaluate ctx source).outcome w = .ok v ↔
      ∃ u chosen, (c.evaluate ctx source).outcome w = .ok u ∧ u.toBoolean "?:" = .ok chosen ∧
        ((if chosen then t else f).evaluate ctx source).outcome w = .ok v := by
  simp only [outcome_conditional h, Except.bind_eq_ok_iff, exists_and_left]

/-- The function `if`, spelled in any letter case, and the conditional. Against a source that
answers always the same, the function has a value exactly if the conditional has this value and the
branch that it leaves out has a value as well. The static types are the same. -/
theorem evaluate_call_if_eq_ok_iff {ctx : Context} {source : Resolver σ}
    (h : source.SteadyLookups ctx) {name : String} (hname : Text.foldCase name = "if")
    (c t f : Expr) :
    (∀ v w w', ((call name [c, t, f]).evaluate ctx source).outcome w = .ok v ↔
      ((conditional c t f).evaluate ctx source).outcome w' = .ok v ∧
        ∃ u chosen x, (c.evaluate ctx source).outcome w' = .ok u ∧
          u.toBoolean "?:" = .ok chosen ∧
          ((if chosen then f else t).evaluate ctx source).outcome w' = .ok x) ∧
    (call name [c, t, f]).resultType = (conditional c t f).resultType := by
  constructor
  · intro v w w'
    rw [steady_evaluate h _ w w', outcome_call_if_eq_ok_iff h hname,
      outcome_conditional_eq_ok_iff h]
    constructor
    · rintro ⟨u, chosen, x, hu, hchosen, hv, hx⟩
      exact ⟨⟨u, chosen, hu, hchosen, hv⟩, u, chosen, x, hu, hchosen, hx⟩
    · rintro ⟨⟨u, chosen, hu, hchosen, hv⟩, u', chosen', x, hu', hchosen', hx⟩
      -- The condition has one value, so both sides leave the same branch out.
      obtain rfl : u = u' := Except.ok.inj (hu.symm.trans hu')
      obtain rfl : chosen = chosen' := Except.ok.inj (hchosen.symm.trans hchosen')
      exact ⟨u, chosen, x, hu, hchosen, hv, hx⟩
  · simp only [resultType, hname, resultTypes]

/-- A rush order goes by express. The conditional does not ask for the price of the other service,
and without this price the function has no value. -/
theorem evaluate_call_if_eq_ok_iff_missing :
    let order : Resolver Unit := .ofBindings
      (Dictionary.ofList [("rush", .string " True "), ("standard", .string "mail")])
    let ctx := Context.background
    let w := World.start ()
    let express : Expr := .literal (.string "express")
    ((call "IF" [var "rush", express, var "standard"]).evaluate ctx order).outcome w =
        .ok (.string "express") ∧
      ((conditional (var "rush") express (var "economy")).evaluate ctx order).outcome w =
        .ok (.string "express") ∧
      (∀ v, ((call "If" [var "rush", express, var "economy"]).evaluate ctx order).outcome w ≠
        .ok v) ∧
      (call "iF" [var "rush", express, express]).resultType = .string := by
  intro order ctx w express
  have hsteady : order.SteadyLookups ctx := Resolver.steadyLookups_ofBindings ctx _
  have hread : (Value.string " True ").toBoolean "?:" = .ok true := if_pos (by decide +kernel)
  have hrush : ((var "rush").evaluate ctx order).outcome w = .ok (.string " True ") := rfl
  have hconditional (f : Expr) :
      ((conditional (var "rush") express f).evaluate ctx order).outcome w =
        .ok (.string "express") :=
    (outcome_conditional_eq_ok_iff hsteady).mpr ⟨_, true, hrush, hread, rfl⟩
  refine ⟨?_, hconditional _, fun v hcall => ?_, ?_⟩
  · exact ((evaluate_call_if_eq_ok_iff hsteady (by decide +kernel) _ _ _).1 _ w w).mpr
      ⟨hconditional _, _, true, .string "mail", hrush, hread, rfl⟩
  · obtain ⟨-, u, chosen, x, hu, hchosen, hx⟩ :=
      ((evaluate_call_if_eq_ok_iff hsteady (by decide +kernel) _ _ _).1 v w w).mp hcall
    obtain rfl := Except.ok.inj (hrush.symm.trans hu)
    obtain rfl := Except.ok.inj (hread.symm.trans hchosen)
    cases hx
  · exact (evaluate_call_if_eq_ok_iff hsteady (by decide +kernel) _ _ _).2

end Expr

end FormulaRules
