import FormulaRules.Proofs.Evaluation.Faults
import FormulaRules.Proofs.Evaluation.Run

/-!
# Relations that evaluation respects

An evaluation is put together from lookups and from outcomes that no lookup is needed for. A
relation between runs that holds of such outcomes, and that is kept when one run follows another,
holds between the evaluations of a tree against two sources as soon as it holds between the
lookups of the variables of the tree.

This is the one induction over trees behind the comparisons of two runs. A property of single
runs is a relation that disregards the second run.
-/

namespace FormulaRules

variable {σ τ : Type}

/-- A relation between runs in two kinds of worlds that evaluation respects. -/
structure Run.Congruence (σ τ : Type) where
  Related : {α : Type} → Run σ EvalError α → Run τ EvalError α → Prop
  ofExcept {α : Type} {x : Except EvalError α} :
    Computed x → Related (Run.ofExcept x) (Run.ofExcept x)
  bind {α β : Type} {r : Run σ EvalError α} {s : Run τ EvalError α} {f : α → Run σ EvalError β}
    {g : α → Run τ EvalError β} :
    Related r s → (∀ a, Related (f a) (g a)) → Related (r >>= f) (s >>= g)

namespace Expr

variable {ctx ctx' : Context} {source : Resolver σ} {target : Resolver τ}

/-- Operators respect a relation between their operands. -/
theorem related_binary (C : Run.Congruence σ τ) (op : Operator) {a a' b b' : Expr}
    (ha : C.Related (a.evaluate ctx source) (a'.evaluate ctx' target))
    (hb : C.Related (b.evaluate ctx source) (b'.evaluate ctx' target)) :
    C.Related ((binary op a b).evaluate ctx source) ((binary op a' b').evaluate ctx' target) :=
  C.bind ha fun v => C.bind hb fun w => C.ofExcept (op.operational_apply v w).computed

/-- Conditionals respect a relation between their conditions and branches. -/
theorem related_conditional (C : Run.Congruence σ τ) {c c' a a' b b' : Expr}
    (hc : C.Related (c.evaluate ctx source) (c'.evaluate ctx' target))
    (ha : C.Related (a.evaluate ctx source) (a'.evaluate ctx' target))
    (hb : C.Related (b.evaluate ctx source) (b'.evaluate ctx' target)) :
    C.Related ((conditional c a b).evaluate ctx source)
      ((conditional c' a' b').evaluate ctx' target) := by
  refine C.bind hc fun v => ?_
  refine C.bind (C.ofExcept (v.operational_toBoolean "?:").computed) fun chosen => ?_
  cases chosen with
  | true => exact ha
  | false => exact hb

/-- Functions respect a relation between their arguments. -/
theorem related_call (C : Run.Congruence σ τ) (name : String) {args args' : List Expr}
    (h : C.Related (evaluateAll ctx source args) (evaluateAll ctx' target args')) :
    C.Related ((call name args).evaluate ctx source) ((call name args').evaluate ctx' target) :=
  C.bind h fun vs => C.ofExcept (Registry.computed_call_builtins name vs)

/-- A list of trees respects a relation between its first tree and the others. -/
theorem related_cons (C : Run.Congruence σ τ) {e e' : Expr} {rest rest' : List Expr}
    (he : C.Related (e.evaluate ctx source) (e'.evaluate ctx' target))
    (hrest : C.Related (evaluateAll ctx source rest) (evaluateAll ctx' target rest')) :
    C.Related (evaluateAll ctx source (e :: rest)) (evaluateAll ctx' target (e' :: rest')) :=
  C.bind he fun v => C.bind hrest fun vs => C.ofExcept (.ok (v :: vs))

mutual

/-- The evaluations of a tree are related if the lookups of its variables are. -/
theorem related_evaluate (C : Run.Congruence σ τ) (e : Expr)
    (h : ∀ name ∈ e.occurrences, C.Related (source.lookup ctx name) (target.lookup ctx' name)) :
    C.Related (e.evaluate ctx source) (e.evaluate ctx' target) := by
  cases e with
  | literal v => exact C.ofExcept (v.operational_finiteFrom _).computed
  | var name =>
    refine C.bind (h name (List.mem_singleton_self name)) fun v => ?_
    exact C.ofExcept (v.operational_finiteFrom _).computed
  | binary op a b =>
    exact related_binary C op (related_evaluate C a fun x hx => h x (List.mem_append_left _ hx))
      (related_evaluate C b fun x hx => h x (List.mem_append_right _ hx))
  | conditional c a b =>
    have hbefore (x : String) (hx : x ∈ c.occurrences ++ a.occurrences) :=
      h x (List.mem_append_left _ hx)
    exact related_conditional C
      (related_evaluate C c fun x hx => hbefore x (List.mem_append_left _ hx))
      (related_evaluate C a fun x hx => hbefore x (List.mem_append_right _ hx))
      (related_evaluate C b fun x hx => h x (List.mem_append_right _ hx))
  | call name args => exact related_call C name (related_evaluateAll C args h)

/-- The evaluations of a list of trees are related if the lookups of the variables are. -/
theorem related_evaluateAll (C : Run.Congruence σ τ) (es : List Expr)
    (h : ∀ name ∈ occurrencesAll es,
      C.Related (source.lookup ctx name) (target.lookup ctx' name)) :
    C.Related (evaluateAll ctx source es) (evaluateAll ctx' target es) := by
  cases es with
  | nil => exact C.ofExcept (.ok [])
  | cons e rest =>
    exact related_cons C (related_evaluate C e fun x hx => h x (List.mem_append_left _ hx))
      (related_evaluateAll C rest fun x hx => h x (List.mem_append_right _ hx))

end

/-- The numbers of a tree are related if the lookups of its variables are. -/
theorem related_evaluateNumber (C : Run.Congruence σ τ) (e : Expr)
    (h : ∀ name ∈ e.occurrences, C.Related (source.lookup ctx name) (target.lookup ctx' name)) :
    C.Related (e.evaluateNumber ctx source) (e.evaluateNumber ctx' target) :=
  C.bind (related_evaluate C e h) fun v => C.ofExcept (v.operational_toFiniteNumber _).computed

/-- The booleans of a tree are related if the lookups of its variables are. -/
theorem related_evaluateBoolean (C : Run.Congruence σ τ) (e : Expr)
    (h : ∀ name ∈ e.occurrences, C.Related (source.lookup ctx name) (target.lookup ctx' name)) :
    C.Related (e.evaluateBoolean ctx source) (e.evaluateBoolean ctx' target) :=
  C.bind (related_evaluate C e h) fun v => C.ofExcept (v.operational_toBoolean _).computed

end Expr

end FormulaRules
