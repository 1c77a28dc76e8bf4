import FormulaRules.Proofs.Evaluation.Dependencies
import FormulaRules.Proofs.Reading.Nesting
import FormulaRules.Proofs.RuleSet.Validation

/-!
# Marks that are never met

Two errors mark what must not happen: a level that is closed without being open, and an argument
that is read but was not passed. Main statement: no text, no tree, no rules and no number of
arguments lead to either, as long as the source of values does not make the second one up. Levels
are counted here by a reading whose counter outlives a failure, so the statement covers every way
out of the grammar.
-/

namespace FormulaRules

variable {σ : Type}

/-- Whether an evaluation error is a mark. -/
def EvalError.IsMark : EvalError → Prop
  | missingArgument _ => True
  | _ => False

/-- Whether there is a mark at the root of an error. -/
def FormulaError.IsMark : FormulaError → Prop
  | parse x => x.cause = .unbalanced
  | evaluation x => x.IsMark
  | rule _ _ cause => cause.IsMark
  | noMatch _ => False

/-- Whether the errors of a source are its own: it never answers that an argument is missing. -/
def Resolver.Unmarked (ctx : Context) (source : Resolver σ) : Prop :=
  ∀ name, (source.lookup ctx name).FaultsIn fun x => ¬x.IsMark

/-- The lookups of a source that makes no mark up have no mark among their errors. -/
theorem Resolver.Unmarked.related {ctx : Context} {source : Resolver σ} (h : source.Unmarked ctx)
    (e : Expr) : ∀ name ∈ e.occurrences, (Run.FaultsIn.congruence σ fun x => ¬x.IsMark).Related
      (α := Value) (source.lookup ctx name) (source.lookup ctx name) :=
  fun name _ => h name

/-- A source that is put together from dictionaries makes no mark up. -/
theorem Composition.unmarked (c : Composition) (ctx : Context) :
    (c.resolver : Resolver σ).Unmarked ctx := by
  intro name w x hx _
  rw [Run.outcome] at hx
  rcases c.run_lookup ctx name w with hanswer | ⟨e, hstop, hfails⟩
  · rw [hanswer, Dictionary.answer] at hx
    split at hx
    · cases hx
    · cases hx
      exact not_false
  · rw [hfails] at hx
    cases hx
    rw [Context.stop?] at hstop
    split at hstop
    · cases hstop
      exact not_false
    · split at hstop
      · cases hstop
        exact not_false
      · cases hstop

/-- What is computed is no mark. -/
theorem EvalError.not_isMark_of_isComputed {x : EvalError} (h : x.isComputed = true) :
    ¬x.IsMark := by
  cases x with
  | missingArgument => cases h
  | _ => exact not_false

/-- Whatever is not computed is no mark, so no error is. -/
theorem Run.FaultsIn.not_isMark {α : Type} {r : Run σ EvalError α}
    (h : r.FaultsIn fun x => ¬x.IsMark) {w : World σ} {x : EvalError}
    (hx : r.outcome w = .error x) : ¬x.IsMark := by
  cases hcomputed : x.isComputed with
  | true => exact EvalError.not_isMark_of_isComputed hcomputed
  | false => exact h w x hx hcomputed

/-- A text that is read and then evaluated meets no mark if neither half does. -/
theorem Run.not_isMark_of_parsed {α : Type} {parsed : Except SyntaxError Expr}
    {run : Expr → Run σ EvalError α} {w : World σ} {x : FormulaError}
    (hparsed : ∀ y, parsed = .error y → y.cause ≠ .unbalanced)
    (hrun : ∀ e y, (run e).outcome w = .error y → ¬y.IsMark)
    (h : (Run.ofExcept (parsed.mapError .parse) >>= fun e => (run e).inFormula).outcome w =
      .error x) : ¬x.IsMark := by
  cases parsed with
  | error y =>
    cases Run.outcome_parsed_eq_parse_iff.mpr rfl |>.symm.trans h
    exact hparsed y rfl
  | ok e =>
    change ((run e).outcome w).mapError FormulaError.evaluation = .error x at h
    cases hvalue : (run e).outcome w with
    | ok a =>
      rw [hvalue] at h
      cases h
    | error y =>
      rw [hvalue] at h
      cases h
      exact hrun e y hvalue

namespace RuleSet

variable {ctx : Context} {source : Resolver σ}

/-- A half of a rule meets no mark. -/
theorem Fails.not_isMark (hsource : source.Unmarked ctx) {rule : Rule} {w : World σ}
    {stage : RuleStage} {x : FormulaError} (h : Fails ctx source rule w x stage) : ¬x.IsMark := by
  cases stage with
  | condition =>
    rw [Fails, Run.outcome, Condition.run_holds] at h
    refine Run.not_isMark_of_parsed (fun y => Condition.unmarked_of_read) (fun e y hy => ?_) h
    exact Run.FaultsIn.not_isMark (e.related_evaluateBoolean _ (hsource.related e)) hy
  | calculation =>
    refine Run.not_isMark_of_parsed (fun y => Expr.unmarked_of_parseFormula) (fun e y hy => ?_) h
    exact Run.FaultsIn.not_isMark (e.related_evaluateNumber _ (hsource.related e)) hy

/-- Rules meet no mark. -/
theorem not_isMark_of_evaluate (hsource : source.Unmarked ctx) {rules : List Rule} {w : World σ}
    {x : FormulaError} (h : (evaluate ctx source rules).outcome w = .error x) : ¬x.IsMark := by
  rcases cases_of_outcome_eq_error h with rfl | ⟨i, rule, stage, mid, cause, rfl, -, hfails⟩
  · exact not_false
  · exact hfails.not_isMark hsource

end RuleSet

/-- Neither reading nor evaluation meets a mark, whatever the text, the tree, the rules and the
source. Reading with a counter gives what reading gives, for the head of a text and for the whole;
the counter stays within its bounds at every moment and is restored on every way out. A built-in
function that takes a number of arguments reads none beyond them, and so calls and trees of any
shape miss no argument. -/
theorem unmarked_of_reading_and_evaluation (ctx : Context) (source : Resolver σ)
    (hsource : source.Unmarked ctx) :
    (∀ s, Expr.parseComplete s =
        (Tracked.onText Tracked.complete s).1.mapError (fun fault => ⟨fault, s⟩) ∧
      Tracked.Balanced (Tracked.onText Tracked.complete s) ∧
      Expr.parsePrefix s =
        (Tracked.onText Tracked.expression s).1.mapError (fun fault => ⟨fault, s⟩) ∧
      Tracked.Balanced (Tracked.onText Tracked.expression s)) ∧
    (∀ s x, Expr.parseFormula s = .error x ∨ Condition.read s = .error x →
      x.cause ≠ .unbalanced) ∧
    (∀ name f args i, Registry.builtins.get? name = some f → f.accepts args.length = true →
      f.run args ≠ .error (.missingArgument i)) ∧
    (∀ name args i, Registry.builtins.call name args ≠ .error (.missingArgument i)) ∧
    (∀ (e : Expr) w x, (e.evaluate ctx source).outcome w = .error x ∨
      (e.evaluateNumber ctx source).outcome w = .error x ∨
      (e.evaluateBoolean ctx source).outcome w = .error x → ¬x.IsMark) ∧
    (∀ text w x, (Formula.calculate ctx source text).outcome w = .error x ∨
      (Condition.holds ctx source text).outcome w = .error x → ¬x.IsMark) ∧
    ∀ rules w x, (RuleSet.evaluate ctx source rules).outcome w = .error x → ¬x.IsMark := by
  refine ⟨fun s => ?_, fun s x h => ?_, fun name f args i hget haccepts h => ?_,
    fun name args i h => ?_, fun e w x h => ?_, fun text w x h => ?_,
    fun rules w x => RuleSet.not_isMark_of_evaluate hsource⟩
  · have hcomplete := Tracked.tracks_complete (TokenStream.ofText s)
    have hexpression := Tracked.tracks_expression (TokenStream.ofText s)
    exact ⟨Tracked.readWith_eq Tracked.tracks_complete s,
      hcomplete.balanced fun _ => Expr.Reading.unmarked_of_complete,
      Tracked.readWith_eq Tracked.tracks_expression s,
      hexpression.balanced fun _ => Expr.Reading.unmarked_of_expression⟩
  · rcases h with h | h
    · exact Expr.unmarked_of_parseFormula h
    · exact Condition.unmarked_of_read h
  · cases Builtin.operational_run (Registry.mem_of_get?_builtins hget).1 haccepts _ h
  · cases Registry.computed_call_builtins name args _ h
  · have hlookups := hsource.related e
    rcases h with h | h | h
    · exact Run.FaultsIn.not_isMark (e.related_evaluate _ hlookups) h
    · exact Run.FaultsIn.not_isMark (e.related_evaluateNumber _ hlookups) h
    · exact Run.FaultsIn.not_isMark (e.related_evaluateBoolean _ hlookups) h
  · rcases h with h | h
    · have hfails : RuleSet.Fails ctx source ⟨"", text⟩ w x .calculation := h
      exact hfails.not_isMark hsource
    · have hfails : RuleSet.Fails ctx source ⟨text, ""⟩ w x .condition := h
      exact hfails.not_isMark hsource

/-- A call inside parentheses that are not closed is refused with all its levels closed. A choice
that gets one argument of three is refused before it reads the second, which is missing. -/
theorem unmarked_of_reading_and_evaluation_choice :
    let sources : Composition := .checked (.layered
      (.dictionary (Dictionary.ofList [("rush", .boolean true)]))
      (.dictionary (Dictionary.ofList [("rush", .boolean false), ("price", .number 2)])))
    let source : Resolver Unit := sources.resolver
    let ctx : Context := ⟨some 0, some 100⟩
    let rules : List Rule := [⟨"!rush", "price"⟩, ⟨"rush", "if(rush)"⟩]
    let w := World.start ()
    source.Unmarked ctx ∧
      (Tracked.onText Tracked.complete "(if(rush, -price").2.events =
        [.opened, .opened, .opened, .closed, .opened, .opened, .closed, .closed, .closed, .closed] ∧
      Tracked.Balanced (Tracked.onText Tracked.complete "(if(rush, -price") ∧
      Builtin.choose [.boolean true] = .error (.missingArgument 1) ∧
      Registry.builtins.call "if" [.boolean true] ≠ .error (.missingArgument 1) ∧
      ∃ x, (RuleSet.evaluate ctx source rules).outcome w = .error x ∧ ¬x.IsMark := by
  intro sources source ctx rules w
  have hfails : (Except.error? ((RuleSet.evaluate ctx source rules).outcome w)).any
      (fun _ => true) = true := by
    decide +kernel +revert
  have hsource : source.Unmarked ctx := sources.unmarked ctx
  obtain ⟨x, hx, -⟩ := Except.exists_of_any_error? hfails
  obtain ⟨hreading, -, -, hcall, -, -, hrules⟩ :=
    unmarked_of_reading_and_evaluation ctx source hsource
  exact ⟨hsource, by decide +kernel, (hreading _).2.1, rfl, hcall _ _ 1, x, hx, hrules rules w x hx⟩

end FormulaRules
