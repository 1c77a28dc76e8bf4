import FormulaRules.Proofs.Evaluation.Choice
import FormulaRules.Proofs.Expr.Parts
import Mathlib

/-!
# Spellings of function names

The static type of a call and the registry each read the name of a function in any letter case.
Main statement: trees that differ at most in the letter case of the functions that they call have
the same static type and the same variables, and they are evaluated alike. Only the error that a
function is unknown tells them apart. It has the name as the tree writes it.

Every call may change its spelling on its own, so a function that is called twice may be spelled in
two ways. The source of values is arbitrary: it may even answer with the error about an unknown
function, and this error is then the same for both trees.
-/

namespace FormulaRules

variable {σ ε α β : Type}

/-- Whether two outcomes are the same value or errors that are related. -/
inductive Run.Matches (E : ε → ε → Prop) : Except ε α → Except ε α → Prop
  | ok (a : α) : Matches E (.ok a) (.ok a)
  | error {x y : ε} : E x y → Matches E (.error x) (.error y)

/-- Whether two runs end alike in every world, and leave the same world. -/
def Run.EndsAlike (E : ε → ε → Prop) (r s : Run σ ε α) : Prop :=
  ∀ w, Matches E (r.outcome w) (s.outcome w) ∧ (r.run.run w).2 = (s.run.run w).2

namespace Run.EndsAlike

variable {E : ε → ε → Prop}

/-- Runs of outcomes that match end alike. -/
theorem ofExcept {x y : Except ε α} (h : Matches E x y) :
    EndsAlike E (Run.ofExcept x : Run σ ε α) (Run.ofExcept y) := by
  intro w
  rw [outcome, outcome, run_ofExcept, run_ofExcept]
  exact ⟨h, rfl⟩

/-- A run ends like itself if its errors are related to themselves. -/
theorem of_errors {r : Run σ ε α} (h : ∀ w x, r.outcome w = .error x → E x x) :
    EndsAlike E r r := by
  intro w
  refine ⟨?_, rfl⟩
  cases hr : r.outcome w with
  | ok a => exact .ok a
  | error x => exact .error (h w x hr)

/-- Runs that are put together from halves that end alike do so as well. -/
theorem bind {r s : Run σ ε α} {f g : α → Run σ ε β} (h : EndsAlike E r s)
    (hnext : ∀ a, EndsAlike E (f a) (g a)) : EndsAlike E (r >>= f) (s >>= g) := by
  intro w
  obtain ⟨hlast, hworld⟩ := h w
  rw [outcome, outcome] at hlast
  rw [outcome, outcome, run_bind, run_bind]
  generalize r.run.run w = first at hlast hworld ⊢
  generalize s.run.run w = last at hlast hworld ⊢
  obtain ⟨x, w'⟩ := first
  obtain ⟨y, v'⟩ := last
  obtain rfl : w' = v' := hworld
  cases hlast with
  | ok a => exact hnext a w'
  | error hrelated => exact ⟨.error hrelated, rfl⟩

end Run.EndsAlike

namespace Expr

mutual

/-- Whether two trees differ at most in the letter case of the functions that they call. -/
inductive Respelled : Expr → Expr → Prop
  | literal (v : Value) : Respelled (.literal v) (.literal v)
  | var (name : String) : Respelled (.var name) (.var name)
  | binary (op : Operator) {a a' b b' : Expr} :
    Respelled a a' → Respelled b b' → Respelled (.binary op a b) (.binary op a' b')
  | conditional {c c' a a' b b' : Expr} :
    Respelled c c' → Respelled a a' → Respelled b b' →
      Respelled (.conditional c a b) (.conditional c' a' b')
  | call {name name' : String} {args args' : List Expr} :
    Text.sameFolded name name' = true → RespelledAll args args' →
      Respelled (.call name args) (.call name' args')

/-- Whether two lists of trees differ at most in the letter case of the functions called. -/
inductive RespelledAll : List Expr → List Expr → Prop
  | nil : RespelledAll [] []
  | cons {e e' : Expr} {rest rest' : List Expr} :
    Respelled e e' → RespelledAll rest rest' → RespelledAll (e :: rest) (e' :: rest')

end

mutual

/-- The names of the functions that a tree calls, each call behind its arguments. -/
def callees : Expr → List String
  | literal _ | var _ => []
  | binary _ a b => a.callees ++ b.callees
  | conditional c a b => c.callees ++ a.callees ++ b.callees
  | call name args => calleesAll args ++ [name]

/-- The names of the functions that a list of trees calls. -/
def calleesAll : List Expr → List String
  | [] => []
  | e :: rest => e.callees ++ calleesAll rest

end

mutual

/-- The static type does not depend on the spelling. -/
theorem Respelled.resultType_eq {e e' : Expr} (h : Respelled e e') :
    e.resultType = e'.resultType := by
  cases h with
  | literal | var | binary => rfl
  | conditional _ ha hb => rw [resultType, resultType, ha.resultType_eq, hb.resultType_eq]
  | call hname hargs =>
    rw [resultType, resultType, eq_of_beq hname, hargs.resultTypes_eq]

/-- The static types of a list of trees do not depend on the spelling. -/
theorem RespelledAll.resultTypes_eq {es es' : List Expr} (h : RespelledAll es es') :
    resultTypes es = resultTypes es' := by
  cases h with
  | nil => rfl
  | cons he hrest => rw [resultTypes, resultTypes, he.resultType_eq, hrest.resultTypes_eq]

end

mutual

/-- The occurrences of variables do not depend on the spelling. -/
theorem Respelled.occurrences_eq {e e' : Expr} (h : Respelled e e') :
    e.occurrences = e'.occurrences := by
  cases h with
  | literal | var => rfl
  | binary _ ha hb => rw [occurrences, occurrences, ha.occurrences_eq, hb.occurrences_eq]
  | conditional hc ha hb =>
    rw [occurrences, occurrences, hc.occurrences_eq, ha.occurrences_eq, hb.occurrences_eq]
  | call _ hargs => exact hargs.occurrencesAll_eq

/-- The occurrences of variables in a list of trees do not depend on the spelling. -/
theorem RespelledAll.occurrencesAll_eq {es es' : List Expr} (h : RespelledAll es es') :
    occurrencesAll es = occurrencesAll es' := by
  cases h with
  | nil => rfl
  | cons he hrest =>
    rw [occurrencesAll, occurrencesAll, he.occurrences_eq, hrest.occurrencesAll_eq]

end

mutual

/-- The number of calls does not depend on the spelling. -/
theorem Respelled.length_callees {e e' : Expr} (h : Respelled e e') :
    e.callees.length = e'.callees.length := by
  cases h with
  | literal | var => rfl
  | binary _ ha hb =>
    simp only [callees, List.length_append, ha.length_callees, hb.length_callees]
  | conditional hc ha hb =>
    simp only [callees, List.length_append, hc.length_callees, ha.length_callees,
      hb.length_callees]
  | call _ hargs =>
    simp only [callees, List.length_append, List.length_singleton, hargs.length_calleesAll]

/-- The number of calls in a list of trees does not depend on the spelling. -/
theorem RespelledAll.length_calleesAll {es es' : List Expr} (h : RespelledAll es es') :
    (calleesAll es).length = (calleesAll es').length := by
  cases h with
  | nil => rfl
  | cons he hrest =>
    simp only [calleesAll, List.length_append, he.length_callees, hrest.length_calleesAll]

end

/-- The variables do not depend on the spelling. -/
theorem Respelled.variableNames_eq {e e' : Expr} (h : Respelled e e') :
    e.variableNames = e'.variableNames := by
  rw [variableNames, variableNames, h.occurrences_eq]

end Expr

/-- Whether errors of two spellings of a tree agree. An error that is the answer to a lookup is the
same for both, and so is every error about anything but an unknown function. An unknown function has
the two names of one call, which are paired in `spellings`. -/
inductive EvalError.Respelled (spellings : List (String × String)) (answered : EvalError → Prop) :
    EvalError → EvalError → Prop
  | answer {x : EvalError} : answered x → Respelled spellings answered x x
  | known {x : EvalError} : (∀ name, x ≠ .unknownFunction name) → Respelled spellings answered x x
  | unknown {name name' : String} : (name, name') ∈ spellings →
    Respelled spellings answered (.unknownFunction name) (.unknownFunction name')

section

variable {spellings : List (String × String)} {answered : EvalError → Prop}

/-- An error about an operand names no function. -/
theorem Operational.matches_self {x : Except EvalError α} (h : Operational x) :
    Run.Matches (EvalError.Respelled spellings answered) x x := by
  cases x with
  | ok a => exact .ok a
  | error e =>
    refine .error (.known ?_)
    rintro name rfl
    cases h _ rfl

/-- Both spellings of a name call the same function, or each of them is unknown. -/
theorem Registry.matches_call_builtins {name name' : String}
    (hname : Text.sameFolded name name' = true) (hmem : (name, name') ∈ spellings)
    (args : List Value) :
    Run.Matches (EvalError.Respelled spellings answered) (builtins.call name args)
      (builtins.call name' args) := by
  have hget : builtins.get? name = builtins.get? name' := by
    rw [get?, get?, eq_of_beq hname]
  rw [call, call, ← hget]
  cases hfound : builtins.get? name with
  | none => exact .error (.unknown hmem)
  | some f =>
    dsimp only
    split
    · next haccepts =>
      exact (Builtin.operational_run (mem_of_get?_builtins hfound).1 haccepts).matches_self
    · refine .error (.known ?_)
      rintro query ⟨⟩

end

/-- Whether a source may answer one of some names with an error. -/
def Resolver.MayFail (ctx : Context) (source : Resolver σ) (names : List String)
    (x : EvalError) : Prop :=
  ∃ name ∈ names, ∃ w, (source.lookup ctx name).outcome w = .error x

namespace Expr

section

open Run

variable {spellings : List (String × String)} {names : List String} {ctx : Context}
  {source : Resolver σ}

mutual

/-- Two spellings of a tree are evaluated alike, with the same lookups. -/
theorem Respelled.endsAlike_evaluate {e e' : Expr} (h : Respelled e e')
    (hcalls : e.callees.zip e'.callees ⊆ spellings) (hnames : e.occurrences ⊆ names) :
    EndsAlike (EvalError.Respelled spellings (source.MayFail ctx names)) (e.evaluate ctx source)
      (e'.evaluate ctx source) := by
  cases h with
  | literal v => exact .ofExcept (v.operational_finiteFrom _).matches_self
  | var name =>
    refine .bind (.of_errors fun w x hx => ?_) fun v => ?_
    · exact .answer ⟨name, hnames (List.mem_singleton_self name), w, hx⟩
    · exact .ofExcept (v.operational_finiteFrom _).matches_self
  | binary op ha hb =>
    -- Both left operands make as many calls, so the names pair up operand by operand.
    rw [callees, callees, List.zip_append ha.length_callees, List.append_subset] at hcalls
    rw [occurrences, List.append_subset] at hnames
    refine .bind (ha.endsAlike_evaluate hcalls.1 hnames.1) fun v => ?_
    refine .bind (hb.endsAlike_evaluate hcalls.2 hnames.2) fun w => ?_
    exact .ofExcept (op.operational_apply v w).matches_self
  | conditional hc ha hb =>
    rw [callees, callees, List.append_assoc, List.append_assoc,
      List.zip_append hc.length_callees, List.zip_append ha.length_callees, List.append_subset,
      List.append_subset] at hcalls
    rw [occurrences, List.append_assoc, List.append_subset, List.append_subset] at hnames
    refine .bind (hc.endsAlike_evaluate hcalls.1 hnames.1) fun v => ?_
    refine .bind (.ofExcept (v.operational_toBoolean "?:").matches_self) fun chosen => ?_
    cases chosen with
    | true => exact ha.endsAlike_evaluate hcalls.2.1 hnames.2.1
    | false => exact hb.endsAlike_evaluate hcalls.2.2 hnames.2.2
  | call hname hargs =>
    rw [callees, callees, List.zip_append hargs.length_calleesAll, List.append_subset] at hcalls
    refine .bind (hargs.endsAlike_evaluateAll hcalls.1 hnames) fun vs => .ofExcept ?_
    exact Registry.matches_call_builtins hname (hcalls.2 (List.mem_singleton_self _)) vs

/-- Two spellings of a list of trees are evaluated alike, with the same lookups. -/
theorem RespelledAll.endsAlike_evaluateAll {es es' : List Expr} (h : RespelledAll es es')
    (hcalls : (calleesAll es).zip (calleesAll es') ⊆ spellings)
    (hnames : occurrencesAll es ⊆ names) :
    EndsAlike (EvalError.Respelled spellings (source.MayFail ctx names))
      (evaluateAll ctx source es) (evaluateAll ctx source es') := by
  cases h with
  | nil => exact .ofExcept (.ok [])
  | cons he hrest =>
    rw [calleesAll, calleesAll, List.zip_append he.length_callees, List.append_subset] at hcalls
    rw [occurrencesAll, List.append_subset] at hnames
    refine .bind (he.endsAlike_evaluate hcalls.1 hnames.1) fun v => ?_
    refine .bind (hrest.endsAlike_evaluateAll hcalls.2 hnames.2) fun vs => ?_
    exact .ofExcept (.ok (v :: vs))

end

end

/-- Trees that differ at most in the letter case of the functions that they call have the same
static type and the same variables. In any world they have the same value or the same error and
leave the same world, and against a source that answers always the same the two worlds may differ.
Only the error of a call of an unknown function is not the same: it has the name as its tree writes
it. -/
theorem evaluate_of_respelled {e e' : Expr} (h : e.Respelled e') :
    e.resultType = e'.resultType ∧ e.variableNames = e'.variableNames ∧
    ∀ (σ : Type) (ctx : Context) (source : Resolver σ),
      Run.EndsAlike
        (EvalError.Respelled (e.callees.zip e'.callees) (source.MayFail ctx e.variableNames))
        (e.evaluate ctx source) (e'.evaluate ctx source) ∧
      (source.SteadyLookups ctx → ∀ w w',
        Run.Matches
          (EvalError.Respelled (e.callees.zip e'.callees) (source.MayFail ctx e.variableNames))
          ((e.evaluate ctx source).outcome w) ((e'.evaluate ctx source).outcome w')) := by
  refine ⟨h.resultType_eq, h.variableNames_eq, fun σ ctx source => ?_⟩
  have hnames : e.occurrences ⊆ e.variableNames := fun name hname =>
    mem_variableNames_iff_mem_occurrences.mpr hname
  refine ⟨h.endsAlike_evaluate (List.Subset.refl _) hnames, fun hsteady w w' => ?_⟩
  rw [← steady_evaluate hsteady e' w w']
  exact (h.endsAlike_evaluate (List.Subset.refl _) hnames w).1

/-- A standard order goes by mail in both spellings. A rush order calls a function that is unknown,
and each spelling complains in its own way. -/
theorem evaluate_of_respelled_express :
    let shouted := conditional (call "NOT" [var "rush"]) (string "mail")
      (call "EXPRESS" [var "rush"])
    let titled := conditional (call "Not" [var "rush"]) (string "mail")
      (call "Express" [var "rush"])
    let order (rush : Bool) : Resolver Unit := .ofBindings
      (Dictionary.ofList [("rush", .boolean rush)])
    let ctx := Context.background
    let w := World.start ()
    shouted.Respelled titled ∧ shouted.resultType = titled.resultType ∧
    (order false).SteadyLookups ctx ∧
    (titled.evaluate ctx (order false)).outcome w = .ok (.string "mail") ∧
    (order true).SteadyLookups ctx ∧
    (shouted.evaluate ctx (order true)).outcome w = .error (.unknownFunction "EXPRESS") ∧
    (titled.evaluate ctx (order true)).outcome w = .error (.unknownFunction "Express") := by
  intro shouted titled order ctx w
  have hspelled : shouted.Respelled titled :=
    .conditional (.call (by cbv) (.cons (.var "rush") .nil)) (.literal _)
      (.call (by cbv) (.cons (.var "rush") .nil))
  have hsteady (rush : Bool) : (order rush).SteadyLookups ctx :=
    Resolver.steadyLookups_ofBindings ctx _
  have hstandard : (shouted.evaluate ctx (order false)).outcome w = .ok (.string "mail") := by cbv
  have hrush : (shouted.evaluate ctx (order true)).outcome w =
      .error (.unknownFunction "EXPRESS") := by cbv
  have hcalls : shouted.callees.zip titled.callees = [("NOT", "Not"), ("EXPRESS", "Express")] := rfl
  obtain ⟨htype, -, halike⟩ := evaluate_of_respelled hspelled
  have hmail := (halike Unit ctx (order false)).2 (hsteady false) w w
  have hexpress := (halike Unit ctx (order true)).2 (hsteady true) w w
  rw [hstandard] at hmail
  rw [hrush] at hexpress
  refine ⟨hspelled, htype, hsteady false, ?_, hsteady true, hrush, ?_⟩
  · generalize (titled.evaluate ctx (order false)).outcome w = last at hmail ⊢
    cases hmail with
    | ok v => rfl
  · generalize (titled.evaluate ctx (order true)).outcome w = last at hexpress ⊢
    cases hexpress with
    | error hnamed =>
      cases hnamed with
      | answer hanswer =>
        -- The order misses names and has no other error.
        obtain ⟨name, -, v, hlookup⟩ := hanswer
        rw [Run.outcome, Resolver.run_lookup_ofBindings] at hlookup
        cases (Dictionary.answer_eq_error_iff.mp hlookup).2
      | known hother => exact absurd rfl (hother _)
      | unknown hmem =>
        rw [hcalls] at hmem
        simpa using hmem

end Expr

end FormulaRules
