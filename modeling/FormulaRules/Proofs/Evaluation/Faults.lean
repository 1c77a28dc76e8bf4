import FormulaRules.Proofs.Evaluation.Typing

/-!
# Errors that only lookups have, and one that no evaluation has

A missing variable, a failed lookup, a cancellation and a passed deadline are errors of the
source of values. Operators and built-in functions have errors of other kinds only, so an
evaluation that fails in one of these four ways has it from a lookup.

A built-in function reads its arguments by position without looking how many there are. The
registry has counted them, so no position is beyond the last argument and the error about such
a position does not come up either.

Operators and the implementations of functions only ever complain about their operands. That a
function is unknown or takes another number of arguments is for the registry to say.
-/

namespace FormulaRules

variable {α β : Type}

/-- Whether an error is one that only a source of values has. -/
def EvalError.isLookupFault : EvalError → Bool
  | variableNotFound _ | lookupFailed _ | cancelled | deadlineExceeded => true
  | _ => false

/-- Whether an error is one that operators and functions have: it is none of a source, and no
argument was missing. -/
def EvalError.isComputed : EvalError → Bool
  | variableNotFound _ | lookupFailed _ | cancelled | deadlineExceeded | missingArgument _ => false
  | _ => true

/-- Whether an error is about an operand or an argument. -/
def EvalError.isOperational : EvalError → Bool
  | typeMismatch .. | divisionByZero | moduloByZero | negativeRoot _ | nonFinite _ => true
  | _ => false

/-- The errors of operators and functions are none that only a source has. -/
theorem EvalError.isLookupFault_of_isComputed {e : EvalError} (h : e.isComputed = true) :
    e.isLookupFault = false := by
  cases e with
  | variableNotFound | lookupFailed | cancelled | deadlineExceeded | missingArgument => cases h
  | _ => rfl

/-- Whether an outcome is a value or an error that operators and functions have. -/
def Computed (x : Except EvalError α) : Prop := ∀ e, x = .error e → e.isComputed = true

namespace Computed

/-- A value is computed. -/
theorem ok (a : α) : Computed (.ok a) := nofun

/-- An error of an operator or a function is computed. -/
theorem error {e : EvalError} (h : e.isComputed = true) :
    Computed (.error e : Except EvalError α) := by
  intro e' heq
  cases heq
  exact h

end Computed

/-- Whether an outcome is a value or an error about an operand. -/
def Operational (x : Except EvalError α) : Prop := ∀ e, x = .error e → e.isOperational = true

namespace Operational

/-- A value is operational. -/
theorem ok (a : α) : Operational (.ok a) := nofun

/-- An error about an operand is operational. -/
theorem error {e : EvalError} (h : e.isOperational = true) :
    Operational (.error e : Except EvalError α) := by
  intro e' heq
  cases heq
  exact h

/-- An outcome in two operational steps is operational. -/
theorem bind {x : Except EvalError α} {f : α → Except EvalError β} (hx : Operational x)
    (hf : ∀ a, Operational (f a)) : Operational (x >>= f) := by
  cases x with
  | ok a => exact hf a
  | error e => exact error (hx e rfl)

/-- An outcome that is operational in both cases is operational. -/
theorem ite {p : Prop} [Decidable p] {x y : Except EvalError α} (hx : Operational x)
    (hy : Operational y) : Operational (if p then x else y) := by
  split
  · exact hx
  · exact hy

/-- An operational outcome is computed. -/
theorem computed {x : Except EvalError α} (h : Operational x) : Computed x := by
  intro e heq
  have hoperational := h e heq
  cases e with
  | variableNotFound | lookupFailed | cancelled | deadlineExceeded | missingArgument =>
    cases hoperational
  | _ => rfl

end Operational

namespace Value

/-- Letting a finite value in is operational. -/
theorem operational_finiteFrom (origin : String) (v : Value) :
    Operational (v.finiteFrom origin) :=
  .ite (.ok v) (.error rfl)

/-- Reading a value as a number is operational. -/
theorem operational_toNumber (operation : String) (v : Value) :
    Operational (v.toNumber operation) := by
  cases v with
  | number x => exact .ok x
  | boolean b => exact .error rfl
  | string s => exact .error rfl

/-- Reading a value as a boolean is operational. -/
theorem operational_toBoolean (operation : String) (v : Value) :
    Operational (v.toBoolean operation) := by
  cases v with
  | number x => exact .ok _
  | boolean b => exact .ok b
  | string s => exact .ite (.ok true) (.ite (.ok false) (.error rfl))

/-- Checking that a result is finite is operational. -/
theorem operational_ofResult (operation : String) (x : Float) :
    Operational (ofResult operation x) :=
  .ite (.ok _) (.error rfl)

/-- Reading a value as a finite number is operational. -/
theorem operational_toFiniteNumber (operation : String) (v : Value) :
    Operational (v.toFiniteNumber operation) :=
  (operational_toNumber operation v).bind fun x => .ite (.ok x) (.error rfl)

end Value

namespace Operator

/-- Computing a number from two numbers is operational. -/
theorem operational_compute (op : Operator) (x y : Float) : Operational (op.compute x y) := by
  unfold compute
  split
  case h_4 | h_5 => exact .ite (.error rfl) (Value.operational_ofResult _ _)
  all_goals exact Value.operational_ofResult _ _

/-- Applying an operator is operational. -/
theorem operational_apply (op : Operator) (v w : Value) : Operational (op.apply v w) := by
  cases op with
  | add | subtract | multiply | divide | modulo =>
    exact (Value.operational_toNumber _ v).bind fun x =>
      (Value.operational_toNumber _ w).bind fun y => operational_compute _ x y
  | equal | notEqual => exact .ok _
  | less | lessOrEqual | greater | greaterOrEqual =>
    exact (Value.operational_toNumber _ v).bind fun x =>
      (Value.operational_toNumber _ w).bind fun y => .ok _
  | and | or =>
    exact (Value.operational_toBoolean _ v).bind fun b =>
      (Value.operational_toBoolean _ w).bind fun c => .ok _

end Operator

/-- A function that takes a number of arguments takes no fewer than its least. -/
theorem Function.minArity_le_of_accepts {f : Function} {count : Nat}
    (h : f.accepts count = true) : f.minArity ≤ count := by
  rw [Function.accepts, Bool.and_eq_true] at h
  exact of_decide_eq_true h.1

namespace Builtin

/-- An argument that was passed is read. -/
theorem operational_argument {args : List Value} {position : Nat} (h : position < args.length) :
    Operational (argument args position) := by
  rw [argument, List.getElem?_eq_getElem h]
  exact .ok _

/-- An argument that was passed is read as a number. -/
theorem operational_numberAt (operation : String) {args : List Value} {position : Nat}
    (h : position < args.length) : Operational (numberAt operation args position) :=
  (operational_argument h).bind fun v => v.operational_toFiniteNumber operation

/-- Reading all arguments as numbers is operational. -/
theorem operational_numbers (operation : String) (args : List Value) :
    Operational (numbers operation args) := by
  induction args with
  | nil => exact .ok _
  | cons v rest ih =>
    exact (v.operational_toFiniteNumber operation).bind fun x => ih.bind fun xs => .ok _

/-- Rounding to decimals is operational. -/
theorem operational_roundTo (x decimals : Float) : Operational (roundTo x decimals) :=
  .ite (.ok _) (.ite (.ok _)
    (.ite (Value.operational_ofResult _ _) (Value.operational_ofResult _ _)))

/-- Rounding reads its second argument only if there is one. -/
theorem operational_round {args : List Value} (h : 0 < args.length) :
    Operational (round args) := by
  refine (operational_numberAt _ h).bind ?_
  intro x
  split
  · exact operational_roundTo x 0
  · next hmore =>
    exact (operational_numberAt _ (Nat.lt_of_not_le hmore)).bind fun decimals =>
      operational_roundTo x decimals

/-- Choosing reads three arguments. -/
theorem operational_choose {args : List Value} (h : 2 < args.length) :
    Operational (choose args) := by
  refine (operational_argument (Nat.zero_lt_of_lt h)).bind ?_
  intro condition
  refine (condition.operational_toBoolean _).bind ?_
  intro chosen
  exact .ite (operational_argument (Nat.lt_of_succ_lt h)) (operational_argument h)

/-- A built-in function reads none but the arguments passed, if it takes as many, and complains of
these only. -/
theorem operational_run {f : Function} (hf : f ∈ all) {args : List Value}
    (haccepts : f.accepts args.length = true) : Operational (f.run args) := by
  have hcount := Function.minArity_le_of_accepts haccepts
  have hofNumber (operation : String) (g : Float → Float) (h : 0 < args.length) :
      Operational (ofNumber operation g args) :=
    (operational_numberAt operation h).bind fun x => Value.operational_ofResult operation _
  simp only [all, List.mem_cons, List.not_mem_nil, or_false] at hf
  rcases hf with rfl | rfl | rfl | rfl | rfl | rfl | rfl | rfl | rfl | rfl
  · exact (operational_numbers _ args).bind fun xs => Value.operational_ofResult _ _
  · exact (operational_numbers _ args).bind fun xs => Value.operational_ofResult _ _
  · exact hofNumber _ _ hcount
  · exact operational_round hcount
  · exact hofNumber _ _ hcount
  · exact hofNumber _ _ hcount
  · exact (operational_numberAt _ (Nat.zero_lt_of_lt hcount)).bind fun base =>
      (operational_numberAt _ hcount).bind fun exponent => Value.operational_ofResult _ _
  · exact (operational_numberAt _ hcount).bind fun x =>
      .ite (.error rfl) (Value.operational_ofResult _ _)
  · exact operational_choose hcount
  · exact (operational_argument hcount).bind fun condition =>
      (condition.operational_toBoolean _).bind fun b => .ok _

end Builtin

/-- Calling a built-in function by name asks no source. -/
theorem Registry.computed_call_builtins (name : String) (args : List Value) :
    Computed (builtins.call name args) := by
  rw [call]
  split
  · exact .error rfl
  · next f hget =>
    split
    · next haccepts =>
      exact (Builtin.operational_run (mem_of_get?_builtins hget).1 haccepts).computed
    · exact .error rfl

end FormulaRules
