import FormulaRules.Proofs.Command.Variables
import FormulaRules.Proofs.RuleSet.Selection

/-!
# The position of the rule that applied

Rules report the rule that applied, not its index, so a report looks for an equal rule in the list.
The same rule may stand in it more than once. Main statement: if a source never gives two values to
one name, the first rule that is equal to the one that applied is the one at which the evaluation
stopped, and the line about it shows its index.

An equal rule further up would have the same condition, and this condition came out false. A source
may still answer at one time and fail at another, as that of a command does when the deadline comes.
-/

namespace FormulaRules

variable {σ τ ε ε' α β : Type}

namespace Run

/-- Whether two runs never give two different values. -/
def Agrees (r : Run σ ε α) (s : Run τ ε' α) : Prop :=
  ∀ ⦃w w' : World σ⦄ ⦃v v' : World τ⦄ ⦃a b : α⦄,
    r.run.run w = (.ok a, w') → s.run.run v = (.ok b, v') → a = b

namespace Agrees

/-- Runs of one outcome agree. -/
theorem ofExcept (x : Except ε α) :
    Agrees (ofExcept x : Run σ ε α) (ofExcept x : Run τ ε α) := by
  intro w w' v v' a b hr hs
  obtain ⟨ha, -⟩ := ofExcept_eq_ok_iff.mp hr
  obtain ⟨hb, -⟩ := ofExcept_eq_ok_iff.mp hs
  exact Except.ok.inj (ha.symm.trans hb)

/-- Pure runs of one value agree. -/
theorem pure (a : α) : Agrees (pure a : Run σ ε α) (pure a : Run τ ε α) := by
  intro w w' v v' b c hr hs
  exact (pure_eq_ok_iff.mp hr).1.symm.trans (pure_eq_ok_iff.mp hs).1

/-- Runs agree if their first halves do and what follows does. -/
theorem bind {r : Run σ ε α} {s : Run τ ε α} {f : α → Run σ ε β} {g : α → Run τ ε β}
    (h : Agrees r s) (hnext : ∀ a, Agrees (f a) (g a)) : Agrees (r >>= f) (s >>= g) := by
  intro w w' v v' a b hr hs
  obtain ⟨c, mid, hfirst, hr⟩ := bind_eq_ok_iff.mp hr
  obtain ⟨d, mid', hfirst', hs⟩ := bind_eq_ok_iff.mp hs
  obtain rfl : c = d := h hfirst hfirst'
  exact hnext c hr hs

/-- Runs still agree when their errors are changed. -/
theorem adapt {f : ε → ε'} {r : Run σ ε α} {s : Run τ ε α} (h : Agrees r s) :
    Agrees (r.adapt f) (s.adapt f) :=
  fun _ _ _ _ _ _ hr hs => h (adapt_eq_ok_iff.mp hr) (adapt_eq_ok_iff.mp hs)

/-- Evaluation respects the agreement of runs. -/
def congruence (σ τ : Type) : Congruence σ τ where
  Related := Agrees
  ofExcept _ := .ofExcept _
  bind := .bind

end Agrees

end Run

/-- Whether a source never gives two values to one name. -/
def Resolver.SteadyValues (ctx : Context) (source : Resolver σ) : Prop :=
  ∀ name, Run.Agrees (source.lookup ctx name) (source.lookup ctx name)

/-- A source that answers a lookup always the same never gives two values to one name. -/
theorem Resolver.SteadyLookups.steadyValues {ctx : Context} {source : Resolver σ}
    (h : source.SteadyLookups ctx) : source.SteadyValues ctx := by
  intro name w w' v v' a b hr hs
  have houtcome := h name w v
  rw [Run.outcome, Run.outcome, hr, hs] at houtcome
  exact Except.ok.inj houtcome

/-- The source of a command never gives two values to one name, whether or not it has a deadline. -/
theorem Settings.steadyValues_resolver (s : Settings) (vars : Bindings) :
    (s.resolver vars).SteadyValues s.context := by
  intro name
  have hanswer {w w' : World (List Nat)} {a : Value}
      (h : ((s.resolver vars).lookup s.context name).run.run w = (.ok a, w')) :
      (s.sources vars).bindings.answer name = .ok a := by
    rw [run_lookup_resolver] at h
    rcases (s.sources vars).run_lookup s.context name w.tick with hrun | ⟨e, -, hrun⟩
    · exact congrArg Prod.fst (hrun.symm.trans h)
    · cases hrun.symm.trans h
  intro w w' v v' a b hr hs
  exact Except.ok.inj ((hanswer hr).symm.trans (hanswer hs))

/-- A condition never comes out both true and false against a source that never gives two values to
one name. -/
theorem Condition.agrees_holds {ctx : Context} {source : Resolver σ} (h : source.SteadyValues ctx)
    (text : String) : Run.Agrees (holds ctx source text) (holds ctx source text) := by
  rw [holds]
  split
  · exact .pure _
  · refine .bind (.ofExcept _) fun e => .adapt ?_
    exact Expr.related_evaluateBoolean (Run.Agrees.congruence σ σ) e fun name _ => h name

namespace RuleSet

/-- The first rule equal to one that has no equal before it is this one. -/
theorem indexOf?_append_cons {rule : Rule} {before : List Rule} (h : rule ∉ before)
    (after : List Rule) : indexOf? rule (before ++ rule :: after) = some before.length := by
  have hbefore : before.findIdx? (· == rule) = none := by
    rw [List.findIdx?_eq_none_iff]
    intro earlier hearlier
    exact beq_eq_false_iff_ne.mpr fun heq => h (heq ▸ hearlier)
  rw [indexOf?, List.findIdx?_append, hbefore, Option.none_or, List.findIdx?_cons,
    if_pos (beq_self_eq_true rule), Option.map_some, Nat.zero_add]

variable {ctx : Context} {source : Resolver σ}

/-- The condition of each rule that passes comes out false at some time. -/
theorem Passes.exists_of_mem {rules : List Rule} {w w' : World σ} (h : Passes ctx source rules w w')
    {rule : Rule} (hmem : rule ∈ rules) :
    ∃ v v', (Condition.holds ctx source rule.condition).run.run v = (.ok false, v') := by
  induction h with
  | nil w => cases hmem
  | @cons first rest w w' w'' hfalse _ ih =>
    rcases List.mem_cons.mp hmem with rfl | hrest
    · exact ⟨w, w', hfalse⟩
    · exact ih hrest

/-- A rule that applies behind rules that pass is none of them. -/
theorem Passes.not_mem_of_holds (hsteady : source.SteadyValues ctx) {rules : List Rule}
    {w w' v v' : World σ} (h : Passes ctx source rules w w') {rule : Rule}
    (hholds : (Condition.holds ctx source rule.condition).run.run v = (.ok true, v')) :
    rule ∉ rules := by
  intro hmem
  obtain ⟨u, u', hfalse⟩ := h.exists_of_mem hmem
  exact Bool.noConfusion (Condition.agrees_holds hsteady rule.condition hholds hfalse)

/-- Whether the evaluation of rules stops at the rule with an index: the rules before it pass, and
its condition holds. -/
def StopsAt (ctx : Context) (source : Resolver σ) (rules : List Rule) (w : World σ) (index : Nat)
    (rule : Rule) : Prop :=
  ∃ before after w₁ w₂, rules = before ++ rule :: after ∧ before.length = index ∧
    Passes ctx source before w w₁ ∧
    (Condition.holds ctx source rule.condition).run.run w₁ = (.ok true, w₂)

/-- A calculation comes from the rule at which the evaluation stops. -/
theorem exists_stopsAt_of_evaluate_ok {rules : List Rule} {w w' : World σ} {c : Calculation}
    (h : (evaluate ctx source rules).run.run w = (.ok c, w')) :
    ∃ index rule, StopsAt ctx source rules w index rule ∧ c.ruleApplied = some rule := by
  obtain ⟨before, rule, after, w₁, w₂, -, hrules, hpasses, hholds, -, -, hc⟩ :=
    exists_of_evaluateFrom_ok h
  refine ⟨before.length, rule, ⟨before, after, w₁, w₂, hrules, rfl, hpasses, hholds⟩, ?_⟩
  rw [hc]

/-- The rule at which the evaluation stops is found at its own index. -/
theorem StopsAt.indexOf?_eq (hsteady : source.SteadyValues ctx) {rules : List Rule} {w : World σ}
    {index : Nat} {rule : Rule} (h : StopsAt ctx source rules w index rule) :
    indexOf? rule rules = some index := by
  obtain ⟨before, after, w₁, w₂, rfl, rfl, hpasses, hholds⟩ := h
  exact indexOf?_append_cons (hpasses.not_mem_of_holds hsteady hholds) after

end RuleSet

/-- The lines about a calculation show the index at which the rule that applied is found. -/
theorem Report.ruleLines_eq (s : Settings) {rules : List Rule} {c : Calculation} {rule : Rule}
    {index : Nat} (hrule : c.ruleApplied = some rule)
    (hindex : RuleSet.indexOf? rule rules = some index) :
    ruleLines s rules c = [s.numberText c.value,
      "rule " ++ Nat.repr index ++ ": " ++ rule.condition ++ " => " ++ rule.calculation] := by
  rw [ruleLines, hrule]
  simp only [Option.bind_eq_bind, Option.bind_some, hindex]
  rfl

/-- A calculation by rules comes from the rule at which the evaluation stops, and the index that is
reported is the index of this rule, whatever equal rules stand in the list. The source may be any
that never gives two values to one name. The source of a command is one: the line that a command
shows about the rule names the position at which its evaluation stopped. -/
theorem RuleSet.indexOf?_of_evaluate_ok :
    (∀ {σ : Type} (ctx : Context) (source : Resolver σ), source.SteadyValues ctx →
      ∀ rules w c w', (evaluate ctx source rules).run.run w = (.ok c, w') →
        ∃ index rule, StopsAt ctx source rules w index rule ∧ c.ruleApplied = some rule ∧
          indexOf? rule rules = some index ∧
          ∀ s : Settings, Report.ruleLines s rules c = [s.numberText c.value,
            "rule " ++ Nat.repr index ++ ": " ++ rule.condition ++ " => " ++ rule.calculation]) ∧
    ∀ (s : Settings) (vars : Bindings) (pace : List Nat) (rules : List Rule) (c : Calculation),
      let source := s.resolver vars
      let answer := Report.answer pace (evaluate s.context source rules)
      answer = .ok c → s.format = .text →
        ∃ index rule, StopsAt s.context source rules (.start pace) index rule ∧
          c.ruleApplied = some rule ∧ indexOf? rule rules = some index ∧
          Report.ofRules s rules (Report.allOf source) answer =
            .shown (.lines [s.numberText c.value,
              "rule " ++ Nat.repr index ++ ": " ++ rule.condition ++ " => " ++
                rule.calculation]) := by
  constructor
  · intro σ ctx source hsteady rules w c w' h
    obtain ⟨index, rule, hstops, hrule⟩ := exists_stopsAt_of_evaluate_ok h
    have hindex := hstops.indexOf?_eq hsteady
    exact ⟨index, rule, hstops, hrule, hindex, fun s => Report.ruleLines_eq s hrule hindex⟩
  · intro s vars pace rules c source answer hanswer hformat
    have hrun : (evaluate s.context source rules).run.run (.start pace) =
        (.ok c, ((evaluate s.context source rules).run.run (.start pace)).2) :=
      Prod.ext hanswer rfl
    obtain ⟨index, rule, hstops, hrule⟩ := exists_stopsAt_of_evaluate_ok hrun
    have hindex := hstops.indexOf?_eq (s.steadyValues_resolver vars)
    refine ⟨index, rule, hstops, hrule, hindex, ?_⟩
    rw [hanswer, Report.ofRules, hformat]
    dsimp only
    rw [Report.ruleLines_eq s hrule hindex]

/-- Two rules stand twice in a list, and the one that applies is reported where it stands first. A
command whose deadline has not come yet reports the same. -/
theorem RuleSet.indexOf?_of_evaluate_ok_repeated :
    let large : Rule := ⟨"quantity >= 100", "8"⟩
    let small : Rule := ⟨"quantity >= 3", "quantity * 2"⟩
    let rules := [large, small, large, small]
    let vars : Bindings := Dictionary.ofList [("quantity", .number 5)]
    let order : Resolver Unit := .ofBindings vars
    let w := World.start ()
    let s : Settings := { deadline := some 10 }
    let source := s.resolver vars
    let answer := Report.answer [4, 5] (evaluate s.context source rules)
    (∃ c w', (evaluate Context.background order rules).run.run w = (.ok c, w') ∧
      StopsAt Context.background order rules w 1 small ∧ indexOf? small rules = some 1 ∧
      Report.ruleLines s rules c = ["10", "rule 1: quantity >= 3 => quantity * 2"]) ∧
    StopsAt s.context source rules (.start [4, 5]) 1 small ∧
      Report.ofRules s rules (Report.allOf source) answer =
        .shown (.lines ["10", "rule 1: quantity >= 3 => quantity * 2"]) := by
  intro large small rules vars order w s source answer
  have happlied : ((evaluate Context.background order rules).outcome w).toOption.any (fun c =>
      decide (c.ruleApplied = some small ∧ s.numberText c.value = "10")) = true := by
    decide +kernel +revert
  have hcommand : answer.toOption.any (fun c =>
      decide (c.ruleApplied = some small ∧ s.numberText c.value = "10")) = true := by
    decide +kernel +revert
  have hsteady : order.SteadyValues Context.background :=
    (Resolver.steadyLookups_ofBindings Context.background vars).steadyValues
  have hline : "rule " ++ Nat.repr 1 ++ ": " ++ small.condition ++ " => " ++ small.calculation =
      "rule 1: quantity >= 3 => quantity * 2" := by
    decide +kernel
  constructor
  · obtain ⟨c, w', hok, hc⟩ := Run.exists_of_any_outcome happlied
    obtain ⟨hsmall, hten⟩ := of_decide_eq_true hc
    obtain ⟨index, rule, hstops, hrule, hindex, hlines⟩ :=
      indexOf?_of_evaluate_ok.1 Context.background order hsteady rules w c w' hok
    obtain rfl : small = rule := Option.some.inj (hsmall.symm.trans hrule)
    obtain rfl : 1 = index := Option.some.inj hindex
    refine ⟨c, w', hok, hstops, hindex, ?_⟩
    rw [hlines s, hten, hline]
  · obtain ⟨c, w', hok, hc⟩ := Run.exists_of_any_outcome hcommand
    obtain ⟨hsmall, hten⟩ := of_decide_eq_true hc
    obtain ⟨index, rule, hstops, hrule, hindex, hreport⟩ :=
      indexOf?_of_evaluate_ok.2 s vars [4, 5] rules c (congrArg Prod.fst hok) rfl
    obtain rfl : small = rule := Option.some.inj (hsmall.symm.trans hrule)
    obtain rfl : 1 = index := Option.some.inj hindex
    refine ⟨hstops, ?_⟩
    rw [hreport, hten, hline]

end FormulaRules
