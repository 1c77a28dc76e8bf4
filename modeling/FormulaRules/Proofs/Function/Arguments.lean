import FormulaRules.Proofs.Evaluation.Choice
import FormulaRules.Proofs.Evaluation.Finite

/-!
# Infinite and undefined arguments

The eight built-in functions on numbers read every argument as a finite number, from left to right,
and fail with the first that is none. The two functions on conditions do not: `not` takes an
infinity or a NaN for a condition that holds, and `if` takes one for a condition that holds or
passes it on as its result. Main statement: these two are the only functions that succeed with such
an argument, and `if` is the only one with such a result.

Inside an evaluation this makes no difference, as values are checked before they become arguments.
-/

namespace FormulaRules

namespace Value

/-- A number is read as a finite number exactly if it is one. -/
theorem toFiniteNumber_number (operation : String) (x : Float) :
    (number x).toFiniteNumber operation =
      if x.isFinite then .ok x else .error (.nonFinite operation) := rfl

/-- What is read as a finite number is finite. -/
theorem isFinite_of_toFiniteNumber {operation : String} {v : Value} {x : Float}
    (h : v.toFiniteNumber operation = .ok x) : v.isFinite = true := by
  cases v with
  | number y =>
    rw [toFiniteNumber_number] at h
    split at h
    · next hfinite => exact hfinite
    · cases h
  | boolean | string => rfl

/-- A value that is not finite is a number. -/
theorem exists_number_of_isFinite {v : Value} (h : v.isFinite = false) :
    ∃ x, v = number x ∧ x.isFinite = false := by
  cases v with
  | number x => exact ⟨x, rfl, h⟩
  | boolean | string => cases h

end Value

/-- Neither an infinity nor a NaN is zero. -/
theorem Number.bne_zero_of_isFinite {x : Float} (h : x.isFinite = false) : (x != 0) = true := by
  have hlargest : exponentField x = 2047 := by
    by_contra hexponent
    rw [(isFinite_iff x).mpr hexponent] at h
    cases h
  change (!(x.toModel.unpack.compare (0 : Float).toModel.unpack == some .eq)) = true
  rw [unpack_zero, unpack_of_largest hlargest]
  split
  · cases sign x <;> rfl
  · rfl

/-- A function with one number of arguments takes no other. -/
theorem Function.eq_of_accepts {f : Function} {most count : Nat} (hmin : f.minArity = most)
    (hmax : f.maxArity = some most) (h : f.accepts count = true) : count = most := by
  simp only [accepts, hmin, hmax, Option.all_some, Bool.and_eq_true, decide_eq_true_eq] at h
  exact Nat.le_antisymm h.2 h.1

namespace Builtin

/-- Arguments that are read as numbers are finite. -/
theorem isFinite_of_numbers {operation : String} {args : List Value} {xs : List Float}
    (h : numbers operation args = .ok xs) : ∀ u ∈ args, u.isFinite = true := by
  induction args generalizing xs with
  | nil => exact List.forall_mem_nil _
  | cons v rest ih =>
    obtain ⟨x, hx, h⟩ := Except.bind_eq_ok_iff.mp h
    obtain ⟨ys, hys, -⟩ := Except.bind_eq_ok_iff.mp h
    exact List.forall_mem_cons.mpr ⟨Value.isFinite_of_toFiniteNumber hx, ih hys⟩

/-- Reading a list of numbers fails at the first that is not read. -/
theorem numbers_cons_eq_error_iff {operation : String} {v : Value} {rest : List Value}
    {e : EvalError} :
    numbers operation (v :: rest) = .error e ↔ v.toFiniteNumber operation = .error e ∨
      ∃ x, v.toFiniteNumber operation = .ok x ∧ numbers operation rest = .error e := by
  rw [numbers, Except.bind_eq_error_iff]
  refine or_congr_right (exists_congr fun x => and_congr_right fun _ => ?_)
  rw [Except.bind_eq_error_iff]
  exact or_iff_left fun ⟨xs, _, h⟩ => nomatch h

/-- Numbers of which one is not finite are refused for that. -/
theorem numbers_of_nonFinite (operation : String) {args : List Value}
    (hnumbers : ∀ u ∈ args, u.type = .number) (h : ∃ u ∈ args, u.isFinite = false) :
    numbers operation args = .error (.nonFinite operation) := by
  induction args with
  | nil => simp at h
  | cons v rest ih =>
    obtain ⟨hv, hrest⟩ := List.forall_mem_cons.mp hnumbers
    rw [numbers_cons_eq_error_iff]
    cases v with
    | number x =>
      by_cases hx : x.isFinite = true
      · have hlater : ∃ u ∈ rest, u.isFinite = false := by
          obtain ⟨u, hu, hinfinite⟩ := h
          rcases List.mem_cons.mp hu with rfl | hu
          · cases hx.symm.trans hinfinite
          · exact ⟨u, hu, hinfinite⟩
        exact .inr ⟨x, if_pos hx, ih hrest hlater⟩
      · exact .inl (if_neg hx)
    | boolean | string => cases hv

/-- Reading one number fails as reading the list of it. -/
theorem error_of_numbers_single {operation : String} {v : Value} {e : EvalError}
    {f : Float → Except EvalError Value} (h : numbers operation [v] = .error e) :
    (v.toFiniteNumber operation >>= f) = .error e := by
  rcases numbers_cons_eq_error_iff.mp h with h | ⟨x, -, h⟩
  · exact Except.bind_eq_error_iff.mpr (.inl h)
  · cases h

/-- Reading two numbers fails as reading the list of both. -/
theorem error_of_numbers_pair {operation : String} {v w : Value} {e : EvalError}
    {f : Float → Float → Except EvalError Value} (h : numbers operation [v, w] = .error e) :
    (do
      let x ← v.toFiniteNumber operation
      let y ← w.toFiniteNumber operation
      f x y) = .error e := by
  rw [Except.bind_eq_error_iff]
  rcases numbers_cons_eq_error_iff.mp h with h | ⟨x, hx, h⟩
  · exact .inl h
  · exact .inr ⟨x, hx, error_of_numbers_single h⟩

/-- A function on numbers fails as soon as its arguments cannot all be read as finite numbers, with
the error of the first that cannot. -/
theorem run_of_numbers_error {f : Function} (hf : f ∈ all) (hif : f.name ≠ "if")
    (hnot : f.name ≠ "not") {args : List Value} (haccepts : f.accepts args.length = true)
    {e : EvalError} (h : numbers (f.name ++ "()") args = .error e) : f.run args = .error e := by
  have hone {g : List Value → Except EvalError Value} (hcount : args.length = 1)
      (hg : ∀ v, numbers (f.name ++ "()") [v] = .error e → g [v] = .error e) :
      g args = .error e := by
    obtain ⟨v, rfl⟩ := List.length_eq_one_iff.mp hcount
    exact hg v h
  simp only [all, List.mem_cons, List.not_mem_nil, or_false] at hf
  rcases hf with rfl | rfl | rfl | rfl | rfl | rfl | rfl | rfl | rfl | rfl
  · exact Except.bind_eq_error_iff.mpr (.inl h)
  · exact Except.bind_eq_error_iff.mpr (.inl h)
  · exact hone (Function.eq_of_accepts rfl rfl haccepts) fun _ => error_of_numbers_single
  · -- `round` has one argument or two.
    match args, haccepts with
    | [v], _ => exact error_of_numbers_single h
    | [v, w], _ => exact error_of_numbers_pair h
  · exact hone (Function.eq_of_accepts rfl rfl haccepts) fun _ => error_of_numbers_single
  · exact hone (Function.eq_of_accepts rfl rfl haccepts) fun _ => error_of_numbers_single
  · match args, haccepts with
    | [v, w], _ => exact error_of_numbers_pair h
  · exact hone (Function.eq_of_accepts rfl rfl haccepts) fun _ => error_of_numbers_single
  · exact absurd rfl hif
  · exact absurd rfl hnot

/-- A function on numbers succeeds with finite arguments only. -/
theorem isFinite_of_run {f : Function} (hf : f ∈ all) (hif : f.name ≠ "if")
    (hnot : f.name ≠ "not") {args : List Value} (haccepts : f.accepts args.length = true)
    {v : Value} (h : f.run args = .ok v) : ∀ u ∈ args, u.isFinite = true := by
  cases hnumbers : numbers (f.name ++ "()") args with
  | ok xs => exact isFinite_of_numbers hnumbers
  | error e =>
    rw [run_of_numbers_error hf hif hnot haccepts hnumbers] at h
    cases h

/-- The function named `if` takes three arguments. -/
theorem arity_if : ∀ f ∈ all, f.name = "if" → f.minArity = 3 ∧ f.maxArity = some 3 := by decide

/-- The function named `not` takes one argument. -/
theorem arity_not : ∀ f ∈ all, f.name = "not" → f.minArity = 1 ∧ f.maxArity = some 1 := by decide

end Builtin

namespace Registry

/-- Whether a call of `if` chooses a value. -/
def Chooses (name : String) (args : List Value) (v : Value) : Prop :=
  Text.foldCase name = "if" ∧ ∃ c t f chosen, args = [c, t, f] ∧
    c.toBoolean "if()" = .ok chosen ∧ (if chosen then t else f) = v

/-- A call of `if` succeeds exactly if it chooses a value. -/
theorem call_builtins_if_eq_ok_iff {name : String} (h : Text.foldCase name = "if")
    {args : List Value} {v : Value} :
    builtins.call name args = .ok v ↔ Chooses name args v := by
  constructor
  · intro hcall
    obtain ⟨f, hf, hname, haccepts, -⟩ := exists_of_call_builtins hcall
    obtain ⟨hmin, hmax⟩ := Builtin.arity_if f hf (hname.trans h)
    have hlength := Function.eq_of_accepts hmin hmax haccepts
    obtain ⟨c, t, f, rfl⟩ := List.length_eq_three.mp hlength
    rw [call_builtins_if h, Builtin.choose_eq_ok_iff] at hcall
    obtain ⟨chosen, hchosen, hv⟩ := hcall
    exact ⟨h, c, t, f, chosen, rfl, hchosen, hv⟩
  · rintro ⟨-, c, t, f, chosen, rfl, hchosen, hv⟩
    rw [call_builtins_if h, Builtin.choose_eq_ok_iff]
    exact ⟨chosen, hchosen, hv⟩

/-- The function whose name is `not` in some letter case takes an infinity or a NaN for a condition
that holds. -/
theorem call_builtins_not {name : String} (h : Text.foldCase name = "not") {u : Value}
    (hu : u.isFinite = false) : builtins.call name [u] = .ok (.boolean false) := by
  obtain ⟨x, rfl, hx⟩ := Value.exists_number_of_isFinite hu
  have hcall : builtins.call name [.number x] = .ok (.boolean !(x != 0)) := by
    rw [call, get?, h]
    rfl
  rw [hcall, Number.bne_zero_of_isFinite hx, Bool.not_true]

/-- With an infinite or undefined argument only `not` succeeds, giving `false`, and `if`, giving the
branch that it chooses. Only `if` has such a result. The other functions refuse numbers of which one
is infinite or undefined for that, as long as they take as many. -/
theorem call_builtins_of_nonFinite (name : String) (args : List Value) :
    ((∃ u ∈ args, u.isFinite = false) → ∀ v, builtins.call name args = .ok v ↔
      Text.foldCase name = "not" ∧ args.length = 1 ∧ v = .boolean false ∨
        Chooses name args v) ∧
    (∀ v, v.isFinite = false → (builtins.call name args = .ok v ↔ Chooses name args v)) ∧
    (∀ f, builtins.get? name = some f → f.name ≠ "if" → f.name ≠ "not" →
      f.accepts args.length = true → (∀ u ∈ args, u.type = .number) →
      (∃ u ∈ args, u.isFinite = false) →
      builtins.call name args = .error (.nonFinite (f.name ++ "()"))) := by
  have hsucceeds (h : ∃ u ∈ args, u.isFinite = false) (v : Value) :
      builtins.call name args = .ok v ↔
        Text.foldCase name = "not" ∧ args.length = 1 ∧ v = .boolean false ∨
          Chooses name args v := by
    obtain ⟨u, hu, hinfinite⟩ := h
    constructor
    · intro hcall
      obtain ⟨f, hf, hname, haccepts, hrun⟩ := exists_of_call_builtins hcall
      by_cases hif : f.name = "if"
      · exact .inr ((call_builtins_if_eq_ok_iff (hname.symm.trans hif)).mp hcall)
      by_cases hnot : f.name = "not"
      · obtain ⟨hmin, hmax⟩ := Builtin.arity_not f hf hnot
        have hlength := Function.eq_of_accepts hmin hmax haccepts
        obtain ⟨w, rfl⟩ := List.length_eq_one_iff.mp hlength
        obtain rfl := List.mem_singleton.mp hu
        have hfalse := call_builtins_not (hname.symm.trans hnot) hinfinite
        exact .inl ⟨hname.symm.trans hnot, hlength, Except.ok.inj (hcall.symm.trans hfalse)⟩
      · cases hinfinite.symm.trans (Builtin.isFinite_of_run hf hif hnot haccepts hrun u hu)
    · rintro (⟨hnot, hlength, rfl⟩ | hchooses)
      · obtain ⟨w, rfl⟩ := List.length_eq_one_iff.mp hlength
        obtain rfl := List.mem_singleton.mp hu
        exact call_builtins_not hnot hinfinite
      · exact (call_builtins_if_eq_ok_iff hchooses.1).mpr hchooses
  refine ⟨hsucceeds, fun v hv => ?_, fun f hget hif hnot haccepts hnumbers hinfinite => ?_⟩
  · constructor
    · intro hcall
      by_cases hinfinite : ∃ u ∈ args, u.isFinite = false
      · rcases (hsucceeds hinfinite v).mp hcall with ⟨-, -, rfl⟩ | hchooses
        · cases hv
        · exact hchooses
      · -- Finite arguments give finite results.
        have hfinite : ∀ u ∈ args, u.isFinite = true := fun u hu =>
          Bool.of_not_eq_false fun hu' => hinfinite ⟨u, hu, hu'⟩
        have hresult := SatisfiesM_Except_eq.mp (isFinite_call_builtins name hfinite) v hcall
        cases hv.symm.trans hresult
    · exact fun hchooses => (call_builtins_if_eq_ok_iff hchooses.1).mpr hchooses
  · obtain ⟨hf, -⟩ := mem_of_get?_builtins hget
    rw [call, hget]
    simp only [haccepts, if_true]
    exact Builtin.run_of_numbers_error hf hif hnot haccepts
      (Builtin.numbers_of_nonFinite _ hnumbers hinfinite)

/-- `if` passes an infinity on as its result, and `not` takes a NaN for a condition. -/
theorem if_passes_infinity_on :
    (1 / 0 : Float).isFinite = false ∧
    builtins.call "if" [.boolean true, .number (1 / 0), .number 1] = .ok (.number (1 / 0)) ∧
    (0 / 0 : Float).isFinite = false ∧
    builtins.call "not" [.number (0 / 0)] = .ok (.boolean false) := by
  have hif : Text.foldCase "if" = "if" := by decide +kernel
  refine ⟨by decide +kernel, ?_, by decide +kernel, ?_⟩
  · exact (call_builtins_if_eq_ok_iff hif).mpr ⟨hif, _, _, _, true, rfl, rfl, rfl⟩
  · exact call_builtins_not (by decide +kernel) (by decide +kernel)

/-- The largest of a number and a NaN is refused, in any letter case of the function. A NaN as the
condition of `if` chooses the first branch, which is an infinity here. -/
theorem call_builtins_of_nonFinite_largest :
    let args : List Value := [.number 1, .number (0 / 0)]
    let choice : List Value := [.number (0 / 0), .number (1 / 0), .number 1]
    (∃ u ∈ args, u.isFinite = false) ∧ (∀ v, builtins.call "MaX" args ≠ .ok v) ∧
    builtins.call "MaX" args = .error (.nonFinite "max()") ∧
    (Value.number (1 / 0)).isFinite = false ∧
    builtins.call "If" choice = .ok (.number (1 / 0)) := by
  intro args choice
  have hnan : (Value.number (0 / 0)).isFinite = false := by decide +kernel
  have hargs : ∃ u ∈ args, u.isFinite = false := ⟨_, .tail _ (.head _), hnan⟩
  have hinfinite : (Value.number (1 / 0)).isFinite = false := by decide +kernel
  have hmax : Text.foldCase "MaX" = "max" := by decide +kernel
  have hget : builtins.get? "MaX" =
      some ⟨"max", 2, none, "Largest of the arguments", Builtin.maximum⟩ := by
    rw [get?, hmax]
    rfl
  have hcondition : (Value.number (0 / 0)).toBoolean "if()" = .ok true :=
    congrArg Except.ok (Number.bne_zero_of_isFinite hnan)
  obtain ⟨hsucceeds, -, hrefused⟩ := call_builtins_of_nonFinite "MaX" args
  obtain ⟨-, hresult, -⟩ := call_builtins_of_nonFinite "If" choice
  refine ⟨hargs, fun v hcall => ?_, ?_, hinfinite, (hresult _ hinfinite).mpr ?_⟩
  · rcases (hsucceeds hargs v).mp hcall with ⟨hnot, -⟩ | ⟨hif, -⟩
    · exact absurd (hmax.symm.trans hnot) (by decide)
    · exact absurd (hmax.symm.trans hif) (by decide)
  · exact hrefused _ hget (by decide) (by decide) rfl (by simp [args, Value.type]) hargs
  · exact ⟨by decide +kernel, _, _, _, true, rfl, hcondition, rfl⟩

end Registry

end FormulaRules
