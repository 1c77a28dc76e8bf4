import FormulaRules.Proofs.RuleSet.Selection

/-!
# Defaults behind a source

A second source is asked for what a first one misses, and without it a missing variable ends the
evaluation. Main statement: what the first source brings to any other end, ends the same way with
the second one behind it, and the second one is asked for nothing. So no failure of the first
source but a missing variable is made up for. Only the variables on record may become more.

The first source has to answer lookups always the same, and nothing is assumed of the second.
-/

namespace FormulaRules

variable {σ τ ε α : Type}

/-- Whether an error is a missing variable. -/
def EvalError.IsMiss (e : EvalError) : Prop := ∃ name, e = .variableNotFound name

/-- Whether a dictionary has all entries of another one. -/
def Dictionary.Extends (upper lower : Bindings) : Prop :=
  ∀ name v, lower.get? name = some v → upper.get? name = some v

namespace Resolver

/-- The source that answers as another one and leaves the record of lookups as it is. -/
def unrecorded (source : Resolver σ) : Resolver (Logged σ) where
  lookup ctx name := ExceptT.mk fun w =>
    let (answer, w') := (source.lookup ctx name).run.run w.plain
    (answer, w'.logged w.store.lookups)
  has name := fun w =>
    let (answer, w') := (source.has name).run w.plain
    (answer, w'.logged w.store.lookups)
  all := fun w =>
    let (answer, w') := source.all.run w.plain
    (answer, w'.logged w.store.lookups)

variable {primary : Resolver σ} {ctx : Context}

/-- A source that answers always the same answers without a record as with one. -/
theorem simulates_lookup_unrecorded (h : primary.SteadyLookups ctx) (name : String) :
    Run.Simulates (fun (_ : World σ) v => v.store.lookups = []) (fun _ => False) Eq
      (primary.lookup ctx name) (primary.unrecorded.lookup ctx name) := by
  intro w v hworld
  have hsame := h name w v.plain
  rw [Run.outcome, Run.outcome] at hsame
  change Run.Corresponds _ _ _ _ (((primary.lookup ctx name).run.run v.plain).1,
    ((primary.lookup ctx name).run.run v.plain).2.logged v.store.lookups)
  rw [← hsame]
  generalize (primary.lookup ctx name).run.run w = result
  obtain ⟨e | value, w'⟩ := result
  · exact .error hworld
  · exact .ok rfl hworld

/-- With a second source behind it a source is looked up as without, if it does not miss. -/
theorem simulates_lookup_layered {W : World σ → World τ → Prop} {primary' : Resolver τ}
    (fallback : Resolver τ) {name : String}
    (h : Run.Simulates W (fun _ => False) Eq (primary.lookup ctx name)
      (primary'.lookup ctx name)) :
    Run.Simulates W EvalError.IsMiss Eq (primary.lookup ctx name)
      ((layered primary' fallback).lookup ctx name) := by
  intro w v hworld
  rw [run_lookup_layered]
  have hlast := h hworld
  generalize (primary.lookup ctx name).run.run w = result at hlast ⊢
  generalize (primary'.lookup ctx name).run.run v = result' at hlast ⊢
  cases hlast with
  | ok hvalue hworld' => exact .ok hvalue hworld'
  | @error e w' v' hworld' =>
    cases e with
    | variableNotFound missing => exact .excused ⟨missing, rfl⟩
    | _ => exact .error hworld'
  | excused he => exact absurd he id

/-- Whether a source behind another one only fills gaps of an evaluation: if the first source alone
brings it to an end other than a miss, it ends the same way, and the second source is asked for
nothing. -/
def FillsGaps (primary fallback : Resolver σ) (missed : ε → Prop) (w : World σ)
    (run : {τ : Type} → Resolver τ → Run τ ε α) : Prop :=
  (∀ e, (run primary).outcome w = .error e → ¬missed e) →
    (run (layered primary fallback)).outcome w = (run primary).outcome w ∧
    (run (layered primary.unrecorded fallback.recording)).lookups w = []

/-- A second source only fills gaps of what is evaluated alike if variables are looked up alike. -/
theorem fillsGaps (hsteady : primary.SteadyLookups ctx) (fallback : Resolver σ)
    {missed : ε → Prop} (w : World σ) {run : {τ : Type} → Resolver τ → Run τ ε α}
    (hrun : ∀ {τ : Type} (W : World σ → World τ → Prop) (target : Resolver τ),
      (∀ name, Run.Simulates W EvalError.IsMiss Eq (primary.lookup ctx name)
        (target.lookup ctx name)) → Run.Simulates W missed Eq (run primary) (run target)) :
    FillsGaps primary fallback missed w run := by
  intro hends
  have hplain := hrun _ (layered primary fallback) fun name =>
    simulates_lookup_layered fallback (.of_outcome_eq (hsteady name))
  have hrecord := hrun _ (layered primary.unrecorded fallback.recording) fun name =>
    simulates_lookup_layered fallback.recording (simulates_lookup_unrecorded hsteady name)
  have hrecorded : (w.logged []).store.lookups = [] := rfl
  constructor
  · obtain ⟨hmap, -⟩ := (hplain trivial).map_outcome_eq hends (f := id) (g := id) fun _ _ => id
    rw [Except.map_id] at hmap
    exact hmap.symm
  · exact ((hrecord hrecorded).map_outcome_eq hends (f := id) (g := id) fun _ _ => id).2

/-- A source that names always the same variables keeps them with a second source behind it. -/
theorem extends_all_layered (h : primary.SteadyBindings) (fallback : Resolver σ) (w v : World σ) :
    Dictionary.Extends ((layered primary fallback).all.run v).1 (primary.all.run w).1 := by
  intro name value hvalue
  rw [h w (fallback.all.run v).2] at hvalue
  change ((primary.all.run (fallback.all.run v).2).1.layOver (fallback.all.run v).1).get? name = _
  rw [Dictionary.get?_layOver, hvalue, Option.some_or]

end Resolver

namespace RuleSet

open Resolver

/-- What a source that answers lookups always the same brings to an end other than a missing
variable, ends the same way with a second source behind it, which is asked for nothing. Rules give
the same calculation, and if the first source names always the same variables, they stay on
record. -/
theorem evaluate_layered {ctx : Context} {primary : Resolver σ}
    (hsteady : primary.SteadyLookups ctx) (fallback : Resolver σ) (w : World σ) :
    (∀ e : Expr,
      FillsGaps primary fallback EvalError.IsMiss w (fun source => e.evaluate ctx source) ∧
      FillsGaps primary fallback EvalError.IsMiss w (fun source => e.evaluateNumber ctx source) ∧
      FillsGaps primary fallback EvalError.IsMiss w
        (fun source => e.evaluateBoolean ctx source)) ∧
    (∀ text : String,
      FillsGaps primary fallback (FormulaError.Excused EvalError.IsMiss) w
        (fun source => Formula.calculate ctx source text) ∧
      FillsGaps primary fallback (FormulaError.Excused EvalError.IsMiss) w
        (fun source => Condition.holds ctx source text)) ∧
    (∀ rules : List Rule,
      (∀ e, (evaluate ctx primary rules).outcome w = .error e →
        ¬e.Excused EvalError.IsMiss) →
      ((evaluate ctx (layered primary fallback) rules).outcome w).map
          Calculation.withoutBindings =
        ((evaluate ctx primary rules).outcome w).map Calculation.withoutBindings ∧
      (evaluate ctx (layered primary.unrecorded fallback.recording) rules).lookups w = [] ∧
      (primary.SteadyBindings → ∀ c d, (evaluate ctx primary rules).outcome w = .ok c →
        (evaluate ctx (layered primary fallback) rules).outcome w = .ok d →
        Dictionary.Extends d.bindings c.bindings)) := by
  refine ⟨fun e => ⟨?_, ?_, ?_⟩, fun text => ⟨?_, ?_⟩, fun rules hends => ?_⟩
  · exact fillsGaps hsteady fallback w fun W target h =>
      e.simulates_evaluate fun name _ => h name
  · exact fillsGaps hsteady fallback w fun W target h =>
      e.simulates_evaluateNumber fun name _ => h name
  · exact fillsGaps hsteady fallback w fun W target h =>
      e.simulates_evaluateBoolean fun name _ => h name
  · exact fillsGaps hsteady fallback w fun W target h => Formula.simulates_calculate h text
  · exact fillsGaps hsteady fallback w fun W target h => Condition.simulates_holds h text
  · have hlookups (name : String) := simulates_lookup_layered fallback
      (.of_outcome_eq (hsteady name))
    have hrecorded (name : String) := simulates_lookup_layered fallback.recording
      (simulates_lookup_unrecorded hsteady name)
    refine ⟨?_, ?_, fun hbindings c d hc hd => ?_⟩
    · have hrules := simulates_evaluateFrom (Q := fun _ _ => True) hlookups
        (fun _ _ _ => ⟨trivial, trivial⟩) 0 rules
      refine ((hrules trivial).map_outcome_eq hends fun c d halike => ?_).1.symm
      rw [halike.2]
      rfl
    · have hrules := simulates_evaluateFrom (Q := fun _ _ => True) hrecorded
        (fun _ _ hworld => ⟨trivial, hworld⟩) 0 rules
      have hempty : (w.logged []).store.lookups = [] := rfl
      exact ((hrules hempty).map_outcome_eq hends (f := fun _ => ()) (g := fun _ => ())
        fun _ _ _ => rfl).2
    · have hrules := simulates_evaluateFrom (Q := fun lower upper => Dictionary.Extends upper lower)
        hlookups (fun w v _ => ⟨extends_all_layered hbindings fallback w v, trivial⟩) 0 rules
      have hrun : (evaluate ctx primary rules).run.run w =
          (.ok c, ((evaluate ctx primary rules).run.run w).2) := Prod.ext hc rfl
      obtain ⟨d', v', hrun', halike, -⟩ := hrules.exists_of_ok (v := w) trivial hrun
      obtain rfl : d = d' := Except.ok.inj (hd.symm.trans (congrArg Prod.fst hrun'))
      exact halike.1

/-- A price list that cannot be reached is no gap, so a default price does not step in for it. Rules
that do not need the price apply as before, and the default is only put on record. -/
theorem evaluate_layered_offline :
    let order : Bindings := Dictionary.ofList [("quantity", .number 5)]
    let offline := EvalError.lookupFailed "price list offline"
    let primary : Resolver Unit :=
      { Resolver.ofBindings order with
        lookup := fun _ name =>
          Run.ofExcept (if name = "price" then .error offline else order.answer name) }
    let defaults : Resolver Unit := .ofBindings (Dictionary.ofList [("price", .number 1)])
    let e := Expr.binary .multiply (.var "quantity") (.var "price")
    let rules : List Rule := [⟨"quantity >= 100", "price"⟩, ⟨"quantity >= 3", "quantity * 2"⟩]
    let ctx := Context.background
    let w := World.start ()
    (primary.SteadyLookups ctx ∧ primary.SteadyBindings) ∧
    ((e.evaluate ctx primary).outcome w = .error offline ∧ ¬offline.IsMiss ∧
      (e.evaluate ctx (layered primary defaults)).outcome w = .error offline ∧
      (e.evaluate ctx (layered primary.unrecorded defaults.recording)).lookups w = []) ∧
    ∃ c d, (evaluate ctx primary rules).outcome w = .ok c ∧
      (evaluate ctx (layered primary defaults) rules).outcome w = .ok d ∧
      c.value = 10 ∧ d.withoutBindings = c.withoutBindings ∧
      Dictionary.Extends d.bindings c.bindings := by
  intro order offline primary defaults e rules ctx w
  have hten : ((evaluate ctx primary rules).outcome w).toOption.any
      (fun c => decide (c.value = 10)) = true := by
    decide +kernel +revert
  have hsteady : primary.SteadyLookups ctx := by
    intro name u v
    change (Run.outcome (Run.ofExcept _) u) = Run.outcome (Run.ofExcept _) v
    rw [Run.outcome, Run.outcome, Run.run_ofExcept, Run.run_ofExcept]
  have hbindings : primary.SteadyBindings := fun _ _ => rfl
  have hmiss : ¬offline.IsMiss := by
    rintro ⟨name, h⟩
    change EvalError.lookupFailed _ = _ at h
    cases h
  have hfailed : (e.evaluate ctx primary).outcome w = .error offline := rfl
  obtain ⟨hexpressions, -, hrules⟩ := evaluate_layered hsteady defaults w
  refine ⟨⟨hsteady, hbindings⟩, ⟨hfailed, hmiss, ?_⟩, ?_⟩
  · obtain ⟨hsame, hasked⟩ := (hexpressions e).1 fun x hx => by
      rw [hfailed] at hx
      cases hx
      exact hmiss
    exact ⟨hsame.trans hfailed, hasked⟩
  · obtain ⟨c, w', hrun, hvalue⟩ := Run.exists_of_any_outcome hten
    have hok : (evaluate ctx primary rules).outcome w = .ok c := congrArg Prod.fst hrun
    obtain ⟨hsame, -, hextends⟩ := hrules rules fun x hx => by
      rw [hok] at hx
      cases hx
    rw [hok] at hsame
    cases hlayered : (evaluate ctx (layered primary defaults) rules).outcome w with
    | error x =>
      rw [hlayered] at hsame
      cases hsame
    | ok d =>
      rw [hlayered] at hsame
      exact ⟨c, d, hok, rfl, of_decide_eq_true hvalue, Except.ok.inj hsame,
        hextends hbindings c d hok hlayered⟩

end RuleSet

end FormulaRules
