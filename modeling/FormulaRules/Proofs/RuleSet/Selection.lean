import FormulaRules.Proofs.Evaluation.Lookups
import FormulaRules.Proofs.Evaluation.Simulation
import FormulaRules.Proofs.Resolver.Composition

/-!
# The rule that is selected

Rules are tried in order, and the first one whose condition does not come out false ends the
evaluation: with its calculation, or with an error that names its index. A rule that passes
leaves nothing behind but the world after its lookups. Main statement: of two lists of rules,
one behind the other, either the first decides alone, or all its rules pass and the second is
evaluated as on its own, with all indices moved up.

A source may answer each lookup differently. The second list is then evaluated in the world
that the first one leaves; only a source that answers always the same may be asked at any time.
-/

namespace FormulaRules

variable {σ : Type}

/-- The error that rules have when as many others stand before them. -/
def FormulaError.behind (count : Nat) : FormulaError → FormulaError
  | rule index stage cause => rule (count + index) stage cause
  | noMatch checked => noMatch (count + checked)
  | e => e

/-- The rule and the half in which an error came up, if it came up in one. -/
def FormulaError.place? : FormulaError → Option (Nat × RuleStage)
  | rule index stage _ => some (index, stage)
  | _ => none

/-- A calculation without the record of its variables. -/
def Calculation.withoutBindings (c : Calculation) : Calculation :=
  { c with bindings := Dictionary.empty }

/-- Whether a source answers a lookup always the same. -/
def Resolver.SteadyLookups (ctx : Context) (source : Resolver σ) : Prop :=
  ∀ name w v, (source.lookup ctx name).outcome w = (source.lookup ctx name).outcome v

/-- Whether a source names always the same variables with their values. -/
def Resolver.SteadyBindings (source : Resolver σ) : Prop :=
  ∀ w v, (source.all.run w).1 = (source.all.run v).1

/-- A dictionary answers a lookup always the same. -/
theorem Resolver.steadyLookups_ofBindings (ctx : Context) (vars : Bindings) :
    (ofBindings vars : Resolver σ).SteadyLookups ctx := by
  intro name w v
  rw [Run.outcome, Run.outcome, run_lookup_ofBindings, run_lookup_ofBindings]

namespace RuleSet

/-- Try one rule: its calculation if the condition holds, and nothing if it does not. -/
def attempt (ctx : Context) (source : Resolver σ) (index : Nat) (rule : Rule) :
    Run σ FormulaError (Option Calculation) := do
  if ← inRule index .condition (Condition.holds ctx source rule.condition) then
    let value ← inRule index .calculation (Formula.calculate ctx source rule.calculation)
    let bindings ← (source.all : StateM (World σ) Bindings)
    return some ((Calculation.ofValue value rule.calculation bindings).withRule rule)
  else return none

variable (ctx : Context) (source : Resolver σ)

/-- An attempt evaluates the condition, then the calculation, and takes the variables last. -/
theorem run_attempt (index : Nat) (rule : Rule) (w : World σ) :
    (attempt ctx source index rule).run.run w =
      match (Condition.holds ctx source rule.condition).run.run w with
      | (.error e, w') => (.error (.rule index .condition e), w')
      | (.ok false, w') => (.ok none, w')
      | (.ok true, w') =>
        match (Formula.calculate ctx source rule.calculation).run.run w' with
        | (.error e, w'') => (.error (.rule index .calculation e), w'')
        | (.ok value, w'') =>
          (.ok (some ⟨value, rule.calculation, (source.all.run w'').1, some rule, none⟩),
            (source.all.run w'').2) := by
  rw [attempt, inRule, Run.run_bind_adapt]
  generalize (Condition.holds ctx source rule.condition).run.run w = first
  obtain ⟨e | matched, w'⟩ := first
  · rfl
  · cases matched with
    | false => rfl
    | true =>
      simp only [if_true, inRule, Run.run_bind_adapt]
      generalize (Formula.calculate ctx source rule.calculation).run.run w' = second
      obtain ⟨e | value, w''⟩ := second
      · rfl
      · rfl

/-- What comes of an attempt, with the world that it leaves. -/
inductive Attempted (index : Nat) (rule : Rule) (w : World σ) :
    Except FormulaError (Option Calculation) × World σ → Prop
  | conditionFailed {e : FormulaError} {w' : World σ} :
    (Condition.holds ctx source rule.condition).run.run w = (.error e, w') →
      Attempted index rule w (.error (.rule index .condition e), w')
  | passed {w' : World σ} :
    (Condition.holds ctx source rule.condition).run.run w = (.ok false, w') →
      Attempted index rule w (.ok none, w')
  | calculationFailed {e : FormulaError} {w' w'' : World σ} :
    (Condition.holds ctx source rule.condition).run.run w = (.ok true, w') →
      (Formula.calculate ctx source rule.calculation).run.run w' = (.error e, w'') →
      Attempted index rule w (.error (.rule index .calculation e), w'')
  | applied {value : Float} {w' w'' : World σ} :
    (Condition.holds ctx source rule.condition).run.run w = (.ok true, w') →
      (Formula.calculate ctx source rule.calculation).run.run w' = (.ok value, w'') →
      Attempted index rule w
        (.ok (some ⟨value, rule.calculation, (source.all.run w'').1, some rule, none⟩),
          (source.all.run w'').2)

/-- An attempt has one of four ends. -/
theorem attempted (index : Nat) (rule : Rule) (w : World σ) :
    Attempted ctx source index rule w ((attempt ctx source index rule).run.run w) := by
  rw [run_attempt]
  generalize hfirst : (Condition.holds ctx source rule.condition).run.run w = first
  obtain ⟨e | matched, w'⟩ := first
  · exact .conditionFailed hfirst
  · cases matched with
    | false => exact .passed hfirst
    | true =>
      dsimp only
      generalize hsecond : (Formula.calculate ctx source rule.calculation).run.run w' = second
      obtain ⟨e | value, w''⟩ := second
      · exact .calculationFailed hfirst hsecond
      · exact .applied hfirst hsecond

/-- The first rule is tried, and the others only if it does not hold. -/
theorem evaluateFrom_cons (index : Nat) (rule : Rule) (rest : List Rule) :
    evaluateFrom ctx source index (rule :: rest) = (do
      match ← attempt ctx source index rule with
      | some c => return c
      | none => evaluateFrom ctx source (index + 1) rest) := by
  rw [evaluateFrom, attempt, bind_assoc]
  congr 1
  funext matched
  cases matched with
  | false => rfl
  | true => simp only [if_true, bind_assoc, pure_bind]

/-- Whether the conditions of all rules are false, one after the other. The second world is the one
that the last of them leaves. -/
inductive Passes : List Rule → World σ → World σ → Prop
  | nil (w : World σ) : Passes [] w w
  | cons {rule : Rule} {rest : List Rule} {w w' w'' : World σ} :
    (Condition.holds ctx source rule.condition).run.run w = (.ok false, w') →
      Passes rest w' w'' → Passes (rule :: rest) w w''

variable {ctx source}

/-- Rules that all pass are skipped. -/
theorem Passes.run_append {rules : List Rule} {w w' : World σ} (h : Passes ctx source rules w w')
    (index : Nat) (more : List Rule) :
    (evaluateFrom ctx source index (rules ++ more)).run.run w =
      (evaluateFrom ctx source (index + rules.length) more).run.run w' := by
  induction h generalizing index with
  | nil w => rfl
  | @cons rule rest w w' w'' hfalse _ ih =>
    rw [List.cons_append, evaluateFrom_cons, Run.run_bind, run_attempt, hfalse]
    have hnext := ih (index + 1)
    rw [Nat.add_assoc, Nat.add_comm 1] at hnext
    exact hnext

/-- Rules that all pass leave no rule to be applied. -/
theorem Passes.run_eq {rules : List Rule} {w w' : World σ} (h : Passes ctx source rules w w')
    (index : Nat) :
    (evaluateFrom ctx source index rules).run.run w =
      (.error (.noMatch (index + rules.length)), w') := by
  have hrun := h.run_append index []
  rw [List.append_nil] at hrun
  exact hrun

variable (ctx source) in
/-- Either all rules pass or one of them ends the evaluation, whatever rules follow. -/
theorem passes_or_ends (index : Nat) (rules : List Rule) (w : World σ) :
    (∃ w', Passes ctx source rules w w') ∨
      (∀ k, (evaluateFrom ctx source index rules).outcome w ≠ .error (.noMatch k)) ∧
      ∀ more, (evaluateFrom ctx source index (rules ++ more)).run.run w =
        (evaluateFrom ctx source index rules).run.run w := by
  induction rules generalizing index w with
  | nil => exact .inl ⟨w, .nil w⟩
  | cons rule rest ih =>
    simp only [List.cons_append, evaluateFrom_cons, Run.outcome, Run.run_bind]
    have hattempt := attempted ctx source index rule w
    generalize (attempt ctx source index rule).run.run w = result at hattempt ⊢
    cases hattempt with
    | @passed w' hfalse =>
      rcases ih (index + 1) w' with ⟨w'', hpasses⟩ | hends
      · exact .inl ⟨w'', .cons hfalse hpasses⟩
      · exact .inr hends
    | conditionFailed _ | calculationFailed _ _ | applied _ _ =>
      refine .inr ⟨fun k h => ?_, fun _ => rfl⟩
      cases h

/-- An attempt does not depend on the index, but for the error. -/
theorem run_attempt_add (count index : Nat) (rule : Rule) (w : World σ) :
    (attempt ctx source (count + index) rule).run.run w =
      ((attempt ctx source index rule).adapt (·.behind count)).run.run w := by
  rw [Run.run_adapt, run_attempt, run_attempt]
  generalize (Condition.holds ctx source rule.condition).run.run w = first
  obtain ⟨e | matched, w'⟩ := first
  · rfl
  · cases matched with
    | false => rfl
    | true =>
      dsimp only
      generalize (Formula.calculate ctx source rule.calculation).run.run w' = second
      obtain ⟨e | value, w''⟩ := second
      · rfl
      · rfl

/-- An evaluation does not depend on the index of the first rule, but for the error. -/
theorem run_evaluateFrom_add (count index : Nat) (rules : List Rule) (w : World σ) :
    (evaluateFrom ctx source (count + index) rules).run.run w =
      ((evaluateFrom ctx source index rules).adapt (·.behind count)).run.run w := by
  induction rules generalizing index w with
  | nil => rfl
  | cons rule rest ih =>
    rw [Run.run_adapt, evaluateFrom_cons, evaluateFrom_cons, Run.run_bind, Run.run_bind,
      run_attempt_add, Run.run_adapt]
    generalize (attempt ctx source index rule).run.run w = result
    obtain ⟨e | applied, w'⟩ := result
    · rfl
    · cases applied with
      | none => exact ih (index + 1) w'
      | some c => rfl

/-- A calculation comes from the first rule that does not pass. -/
theorem exists_of_evaluateFrom_ok {index : Nat} {rules : List Rule} {w w' : World σ}
    {c : Calculation} (h : (evaluateFrom ctx source index rules).run.run w = (.ok c, w')) :
    ∃ before rule after w₁ w₂ w₃, rules = before ++ rule :: after ∧
      Passes ctx source before w w₁ ∧
      (Condition.holds ctx source rule.condition).run.run w₁ = (.ok true, w₂) ∧
      (Formula.calculate ctx source rule.calculation).run.run w₂ = (.ok c.value, w₃) ∧
      source.all.run w₃ = (c.bindings, w') ∧
      c = ⟨c.value, rule.calculation, c.bindings, some rule, none⟩ := by
  induction rules generalizing index w with
  | nil => cases h
  | cons rule rest ih =>
    rw [evaluateFrom_cons, Run.run_bind] at h
    have hattempt := attempted ctx source index rule w
    generalize (attempt ctx source index rule).run.run w = result at hattempt h
    cases hattempt with
    | conditionFailed _ => cases h
    | passed hfalse =>
      obtain ⟨before, rule', after, w₁, w₂, w₃, rfl, hpasses, hrest⟩ := ih h
      exact ⟨rule :: before, rule', after, w₁, w₂, w₃, rfl, .cons hfalse hpasses, hrest⟩
    | calculationFailed _ _ => cases h
    | @applied value w₁ w₂ htrue hvalue =>
      cases h
      exact ⟨[], rule, rest, w, w₁, w₂, rfl, .nil w, htrue, hvalue, rfl, rfl⟩

/-- Rules of which none matches have all passed. -/
theorem passes_of_noMatch {rules : List Rule} {w w' : World σ} {k : Nat}
    (h : (evaluate ctx source rules).run.run w = (.error (.noMatch k), w')) :
    k = rules.length ∧ Passes ctx source rules w w' := by
  rcases passes_or_ends ctx source 0 rules w with ⟨w'', hpasses⟩ | ⟨hends, -⟩
  · have hlast := h.symm.trans (hpasses.run_eq 0)
    rw [Nat.zero_add] at hlast
    cases hlast
    exact ⟨rfl, hpasses⟩
  · exact absurd (congrArg Prod.fst h) (hends k)

/-- Rules of which one ends the evaluation end it with others behind as well. -/
theorem run_append_of_ends {rules : List Rule} {w : World σ}
    (h : ∀ k, (evaluate ctx source rules).outcome w ≠ .error (.noMatch k)) (more : List Rule) :
    (evaluate ctx source (rules ++ more)).run.run w = (evaluate ctx source rules).run.run w := by
  rcases passes_or_ends ctx source 0 rules w with ⟨w', hpasses⟩ | ⟨-, hrun⟩
  · exact absurd (congrArg Prod.fst (hpasses.run_eq 0)) (h _)
  · exact hrun more

/-- Rules behind others that all pass are evaluated as they are on their own, with their indices
moved up. -/
theorem run_append_of_passes {rules : List Rule} {w w' : World σ}
    (h : Passes ctx source rules w w') (more : List Rule) :
    (evaluate ctx source (rules ++ more)).run.run w =
      ((evaluate ctx source more).adapt (·.behind rules.length)).run.run w' := by
  rw [evaluate, h.run_append, Nat.zero_add]
  exact run_evaluateFrom_add rules.length 0 more w'

/-- Rules are evaluated alike with and without a record of the lookups. -/
theorem simulates_evaluate_recording (ctx : Context) (source : Resolver σ) (rules : List Rule) :
    Run.Simulates (fun w v => v.plain = w) (FormulaError.Excused fun _ => False)
      (Calculation.Alike Eq) (evaluate ctx source rules) (evaluate ctx source.recording rules) := by
  refine simulates_evaluateFrom (source.simulates_lookup_recording ctx) ?_ 0 rules
  intro w v hworld
  subst hworld
  exact ⟨rfl, rfl⟩

/-- Rules of which one ends the evaluation make the same lookups with and without others behind. -/
theorem lookups_append_of_ends {rules : List Rule} {w : World σ}
    (h : ∀ k, (evaluate ctx source rules).outcome w ≠ .error (.noMatch k)) (more : List Rule) :
    (evaluate ctx source.recording (rules ++ more)).lookups w =
      (evaluate ctx source.recording rules).lookups w := by
  have hrecording := (simulates_evaluate_recording ctx source rules).outcome_eq
    (FormulaError.not_excused nofun) (fun _ _ => Calculation.Alike.eq)
    (w := w) (v := w.logged []) rfl
  rw [hrecording] at h
  exact congrArg (fun last => last.2.store.lookups) (run_append_of_ends h more)

/-- Rules are evaluated alike at any time against a source that answers lookups always the same. -/
theorem simulates_of_steadyLookups (hlookups : source.SteadyLookups ctx)
    {Q : Bindings → Bindings → Prop} (hall : ∀ w v, Q (source.all.run w).1 (source.all.run v).1)
    (rules : List Rule) :
    Run.Simulates (fun _ _ => True) (FormulaError.Excused fun _ => False) (Calculation.Alike Q)
      (evaluate ctx source rules) (evaluate ctx source rules) :=
  simulates_evaluateFrom (fun name => .of_outcome_eq (hlookups name))
    (fun w v _ => ⟨hall w v, trivial⟩) 0 rules

/-- A source that always answers the same lets rules have the same outcome at any time. -/
theorem outcome_eq_of_steady (hlookups : source.SteadyLookups ctx)
    (hbindings : source.SteadyBindings) (rules : List Rule) (w v : World σ) :
    (evaluate ctx source rules).outcome w = (evaluate ctx source rules).outcome v :=
  (simulates_of_steadyLookups hlookups hbindings rules).outcome_eq (FormulaError.not_excused nofun)
    (fun _ _ => Calculation.Alike.eq) trivial

/-- A source that answers lookups always the same lets rules have the same outcome at any time, but
for the variables on record. -/
theorem map_outcome_eq_of_steadyLookups (hlookups : source.SteadyLookups ctx) (rules : List Rule)
    (w v : World σ) :
    ((evaluate ctx source rules).outcome w).map Calculation.withoutBindings =
      ((evaluate ctx source rules).outcome v).map Calculation.withoutBindings := by
  refine (simulates_of_steadyLookups (Q := fun _ _ => True) hlookups (fun _ _ => trivial)
    rules).map_outcome_eq (FormulaError.not_excused nofun) (fun c d halike => ?_) trivial
  rw [halike.2]
  rfl

/-- Rules that are followed by others. If one of them ends the evaluation, the others change
nothing, and nothing is looked up for them. If all of them pass, the others are evaluated as they
are on their own, with their indices moved up; a source that always answers the same may be asked
at any time. A calculation comes from the first rule that does not pass. -/
theorem evaluate_append (ctx : Context) (source : Resolver σ) (rules more : List Rule)
    (w : World σ) :
    ((∀ k, (evaluate ctx source rules).outcome w ≠ .error (.noMatch k)) →
      (evaluate ctx source (rules ++ more)).run.run w = (evaluate ctx source rules).run.run w ∧
      (evaluate ctx source.recording (rules ++ more)).lookups w =
        (evaluate ctx source.recording rules).lookups w) ∧
    (∀ k w', (evaluate ctx source rules).run.run w = (.error (.noMatch k), w') →
      k = rules.length ∧
      (evaluate ctx source (rules ++ more)).run.run w =
        ((evaluate ctx source more).adapt (·.behind rules.length)).run.run w' ∧
      (source.SteadyLookups ctx →
        ((evaluate ctx source (rules ++ more)).outcome w).map Calculation.withoutBindings =
          (((evaluate ctx source more).outcome w).map Calculation.withoutBindings).mapError
            (·.behind rules.length)) ∧
      (source.SteadyLookups ctx → source.SteadyBindings →
        (evaluate ctx source (rules ++ more)).outcome w =
          ((evaluate ctx source more).outcome w).mapError (·.behind rules.length))) ∧
    (∀ c w', (evaluate ctx source rules).run.run w = (.ok c, w') →
      ∃ before rule after w₁ w₂ w₃, rules = before ++ rule :: after ∧
        Passes ctx source before w w₁ ∧
        (Condition.holds ctx source rule.condition).run.run w₁ = (.ok true, w₂) ∧
        (Formula.calculate ctx source rule.calculation).run.run w₂ = (.ok c.value, w₃) ∧
        c.ruleApplied = some rule ∧ c.formula = rule.calculation) := by
  refine ⟨fun hends => ?_, fun k w' hnone => ?_, fun c w' hok => ?_⟩
  · exact ⟨run_append_of_ends hends more, lookups_append_of_ends hends more⟩
  · obtain ⟨hk, hpasses⟩ := passes_of_noMatch hnone
    have hrun := run_append_of_passes hpasses more
    have houtcome : (evaluate ctx source (rules ++ more)).outcome w =
        ((evaluate ctx source more).outcome w').mapError (·.behind rules.length) :=
      congrArg Prod.fst hrun
    refine ⟨hk, hrun, fun hlookups => ?_, fun hlookups hbindings => ?_⟩
    · rw [houtcome, ← map_outcome_eq_of_steadyLookups hlookups more w' w]
      cases (evaluate ctx source more).outcome w' with
      | ok c => rfl
      | error e => rfl
    · rw [houtcome, outcome_eq_of_steady hlookups hbindings more w' w]
  · obtain ⟨before, rule, after, w₁, w₂, w₃, hrules, hpasses, htrue, hvalue, -, hc⟩ :=
      exists_of_evaluateFrom_ok hok
    refine ⟨before, rule, after, w₁, w₂, w₃, hrules, hpasses, htrue, hvalue, ?_, ?_⟩
    · rw [hc]
    · rw [hc]

/-- An order of five passes the rules for large orders, and the rule for small ones behind them
applies. A text behind this rule is never read. -/
theorem evaluate_append_order :
    let order : Resolver Unit := .ofBindings (Dictionary.ofList [("quantity", .number 5)])
    let large : List Rule := [⟨"quantity >= 100", "8"⟩, ⟨"never", "quantity / 0"⟩]
    let small : List Rule := [⟨"quantity >= 3", "quantity * 2"⟩]
    let unreadable : List Rule := [⟨"((", "1"⟩]
    let run := fun rules => evaluate Context.background order rules
    let w := World.start ()
    (∃ w', (run large).run.run w = (.error (.noMatch 2), w') ∧
      (run (large ++ small)).run.run w = ((run small).adapt (·.behind 2)).run.run w' ∧
      (run (large ++ small)).outcome w = ((run small).outcome w).mapError (·.behind 2)) ∧
    (∃ c w', (run small).run.run w = (.ok c, w') ∧ c.value = 10 ∧
      (run (small ++ unreadable)).run.run w = (.ok c, w') ∧
      (evaluate Context.background order.recording (small ++ unreadable)).lookups w =
        (evaluate Context.background order.recording small).lookups w ∧
      ∃ rule ∈ small, c.ruleApplied = some rule ∧ c.formula = rule.calculation) := by
  intro order large small unreadable run w
  have hlookups := Resolver.steadyLookups_ofBindings (σ := Unit) Context.background
    (Dictionary.ofList [("quantity", .number 5)])
  have hhundred : ((Condition.holds Context.background order "quantity >= 100").outcome
      w).toOption.any (· == false) = true := by
    decide +kernel +revert
  have hsmall : ((run small).outcome w).toOption.any (fun c => decide (c.value = 10)) = true := by
    decide +kernel +revert
  constructor
  · obtain ⟨matched, w', hfalse, hmatched⟩ := Run.exists_of_any_outcome hhundred
    obtain rfl : matched = false := eq_of_beq hmatched
    have hword : Condition.trivial? "never" = some false := by decide +kernel
    have hnever : (Condition.holds Context.background order "never").run.run w' =
        (.ok false, w') := by
      rw [Condition.holds, hword]
      rfl
    have hpasses : Passes Context.background order large w w' :=
      .cons hfalse (.cons hnever (.nil w'))
    have hnone : (run large).run.run w = (.error (.noMatch 2), w') := hpasses.run_eq 0
    obtain ⟨-, hrun, -, houtcome⟩ :=
      (evaluate_append Context.background order large small w).2.1 2 w' hnone
    exact ⟨w', hnone, hrun, houtcome hlookups fun _ _ => rfl⟩
  · obtain ⟨c, w', hok, hten⟩ := Run.exists_of_any_outcome hsmall
    obtain ⟨hends, -, hfirst⟩ := evaluate_append Context.background order small unreadable w
    have hmatch (k : Nat) : (run small).outcome w ≠ .error (.noMatch k) := by
      rw [Run.outcome, hok]
      intro h
      cases h
    obtain ⟨hrun, hasked⟩ := hends hmatch
    obtain ⟨before, rule, after, -, -, -, hrules, -, -, -, hrule, hformula⟩ := hfirst c w' hok
    have hmem : rule ∈ small := by
      rw [hrules]
      exact List.mem_append_right before (List.mem_cons_self ..)
    exact ⟨c, w', hok, of_decide_eq_true hten, hrun.trans hok, hasked, rule, hmem, hrule, hformula⟩

end RuleSet

end FormulaRules
