import FormulaRules.Proofs.Evaluation.Run
import FormulaRules.Proofs.Grammar.Elaboration

/-!
# Static types are sound

If the type of a tree is known, every value of the tree has this type. The operators and
the built-in functions have results of one type each, except for `if`, whose result is one
of its arguments.
-/

namespace FormulaRules

/-- Whether a value may have a type, where an unknown type allows every value. -/
def ResultType.Admits (t : ResultType) (v : Value) : Prop := t ≠ .unknown → v.type = t

namespace ResultType

/-- A common type admits what the first of the two admits. -/
theorem Admits.join_left {t : ResultType} {v : Value} (h : t.Admits v) (u : ResultType) :
    (t.join u).Admits v := by
  rw [join]
  split
  · exact h
  · exact fun hne => absurd rfl hne

/-- A common type admits what the second of the two admits. -/
theorem Admits.join_right {u : ResultType} {v : Value} (h : u.Admits v) (t : ResultType) :
    (t.join u).Admits v := by
  rw [join]
  split
  · next heq =>
    rw [heq]
    exact h
  · exact fun hne => absurd rfl hne

end ResultType

/-- A finite result is a number. -/
theorem Value.type_of_ofResult {operation : String} {x : Float} {v : Value}
    (h : ofResult operation x = .ok v) : v.type = .number := by
  rw [ofResult] at h
  split at h
  · cases h
    rfl
  · cases h

namespace Operator

/-- An arithmetic result is a number. -/
theorem type_of_compute {op : Operator} {x y : Float} {v : Value} (h : op.compute x y = .ok v) :
    v.type = .number := by
  unfold compute at h
  split at h
  case h_4 | h_5 =>
    split at h
    · cases h
    · exact Value.type_of_ofResult h
  all_goals exact Value.type_of_ofResult h

/-- The result of an operator has its type. -/
theorem type_of_apply {op : Operator} {v w u : Value} (h : op.apply v w = .ok u) :
    u.type = op.resultType := by
  cases op with
  | add | subtract | multiply | divide | modulo =>
    obtain ⟨x, -, h⟩ := Except.bind_eq_ok_iff.mp h
    obtain ⟨y, -, h⟩ := Except.bind_eq_ok_iff.mp h
    exact type_of_compute h
  | equal | notEqual =>
    cases h
    rfl
  | less | lessOrEqual | greater | greaterOrEqual | and | or =>
    obtain ⟨x, -, h⟩ := Except.bind_eq_ok_iff.mp h
    obtain ⟨y, -, h⟩ := Except.bind_eq_ok_iff.mp h
    cases h
    rfl

end Operator

/-- A function found among registered ones was registered under its own name, or before. -/
theorem Registry.mem_of_get?_foldl {fs : List Function} {r : Registry} {key : String} {f : Function}
    (h : (fs.foldl register r).functions.get? key = some f) :
    (f ∈ fs ∧ f.name = key) ∨ r.functions.get? key = some f := by
  induction fs generalizing r with
  | nil => exact .inr h
  | cons g rest ih =>
    rcases ih h with ⟨hmem, hname⟩ | hget
    · exact .inl ⟨List.mem_cons_of_mem g hmem, hname⟩
    · rw [register, Dictionary.get?_insert] at hget
      split at hget
      · next hname =>
        cases hget
        exact .inl ⟨List.mem_cons_self, hname⟩
      · exact .inr hget

/-- A function found among the built-in ones is one of them, under the folded name. -/
theorem Registry.mem_of_get?_builtins {name : String} {f : Function}
    (h : builtins.get? name = some f) : f ∈ Builtin.all ∧ f.name = Text.foldCase name := by
  rcases mem_of_get?_foldl h with hmem | hempty
  · exact hmem
  · cases hempty

/-- A call that succeeds has run a built-in function of the folded name. -/
theorem Registry.exists_of_call_builtins {name : String} {args : List Value} {v : Value}
    (h : builtins.call name args = .ok v) :
    ∃ f ∈ Builtin.all, f.name = Text.foldCase name ∧ f.accepts args.length = true ∧
      f.run args = .ok v := by
  rw [call] at h
  split at h
  · cases h
  · next f hget =>
    split at h
    · next haccepts =>
      obtain ⟨hmem, hname⟩ := mem_of_get?_builtins hget
      exact ⟨f, hmem, hname, haccepts, h⟩
    · cases h

namespace Builtin

/-- Whether every value of an implementation is a number. -/
def GivesNumber (run : List Value → Except EvalError Value) : Prop :=
  ∀ ⦃args : List Value⦄ ⦃v : Value⦄, run args = .ok v → v.type = .number

/-- The smallest argument is a number. -/
theorem givesNumber_minimum : GivesNumber minimum := by
  intro args v h
  obtain ⟨xs, -, h⟩ := Except.bind_eq_ok_iff.mp h
  exact Value.type_of_ofResult h

/-- The largest argument is a number. -/
theorem givesNumber_maximum : GivesNumber maximum := by
  intro args v h
  obtain ⟨xs, -, h⟩ := Except.bind_eq_ok_iff.mp h
  exact Value.type_of_ofResult h

/-- A function of one number gives a number. -/
theorem givesNumber_ofNumber (operation : String) (f : Float → Float) :
    GivesNumber (ofNumber operation f) := by
  intro args v h
  obtain ⟨x, -, h⟩ := Except.bind_eq_ok_iff.mp h
  exact Value.type_of_ofResult h

/-- Rounding to decimals gives a number. -/
theorem type_of_roundTo {x decimals : Float} {v : Value} (h : roundTo x decimals = .ok v) :
    v.type = .number := by
  rw [roundTo] at h
  split at h
  · cases h
    rfl
  · dsimp only at h
    split at h
    · cases h
      rfl
    · split at h
      · exact Value.type_of_ofResult h
      · exact Value.type_of_ofResult h

/-- Rounding gives a number, with and without decimals. -/
theorem givesNumber_round : GivesNumber round := by
  intro args v h
  obtain ⟨x, -, h⟩ := Except.bind_eq_ok_iff.mp h
  dsimp only at h
  split at h
  · have hround : roundTo x 0 = .ok v := h
    exact type_of_roundTo hround
  · obtain ⟨decimals, -, h⟩ := Except.bind_eq_ok_iff.mp h
    exact type_of_roundTo h

/-- A power is a number. -/
theorem givesNumber_power : GivesNumber power := by
  intro args v h
  obtain ⟨base, -, h⟩ := Except.bind_eq_ok_iff.mp h
  obtain ⟨exponent, -, h⟩ := Except.bind_eq_ok_iff.mp h
  exact Value.type_of_ofResult h

/-- A square root is a number. -/
theorem givesNumber_squareRoot : GivesNumber squareRoot := by
  intro args v h
  obtain ⟨x, -, h⟩ := Except.bind_eq_ok_iff.mp h
  split at h
  · cases h
  · exact Value.type_of_ofResult h

/-- A negation is a boolean. -/
theorem type_of_negate {args : List Value} {v : Value} (h : negate args = .ok v) :
    v.type = .boolean := by
  obtain ⟨condition, -, h⟩ := Except.bind_eq_ok_iff.mp h
  obtain ⟨b, -, h⟩ := Except.bind_eq_ok_iff.mp h
  cases h
  rfl

/-- The value of `if` is its second or third argument. -/
theorem argument_of_choose {args : List Value} {v : Value} (h : choose args = .ok v) :
    args[1]? = some v ∨ args[2]? = some v := by
  have hargument {position : Nat} (h : argument args position = .ok v) :
      args[position]? = some v := by
    rw [argument] at h
    split at h
    · next hget =>
      cases h
      exact hget
    · cases h
  obtain ⟨condition, -, h⟩ := Except.bind_eq_ok_iff.mp h
  obtain ⟨chosen, -, h⟩ := Except.bind_eq_ok_iff.mp h
  cases chosen with
  | true => exact .inl (hargument h)
  | false => exact .inr (hargument h)

/-- The values of the built-in functions: `if` passes an argument on, `not` gives a boolean and
all others give a number. -/
theorem type_of_run {f : Function} (hf : f ∈ all) {args : List Value} {v : Value}
    (h : f.run args = .ok v) :
    (f.name = "if" ∧ (args[1]? = some v ∨ args[2]? = some v)) ∨
      (f.name = "not" ∧ v.type = .boolean) ∨
      (f.name ≠ "if" ∧ f.name ≠ "not" ∧ v.type = .number) := by
  simp only [all, List.mem_cons, List.not_mem_nil, or_false] at hf
  rcases hf with rfl | rfl | rfl | rfl | rfl | rfl | rfl | rfl | rfl | rfl
  · exact .inr (.inr ⟨by decide, by decide, givesNumber_minimum h⟩)
  · exact .inr (.inr ⟨by decide, by decide, givesNumber_maximum h⟩)
  · exact .inr (.inr ⟨by decide, by decide, givesNumber_ofNumber _ _ h⟩)
  · exact .inr (.inr ⟨by decide, by decide, givesNumber_round h⟩)
  · exact .inr (.inr ⟨by decide, by decide, givesNumber_ofNumber _ _ h⟩)
  · exact .inr (.inr ⟨by decide, by decide, givesNumber_ofNumber _ _ h⟩)
  · exact .inr (.inr ⟨by decide, by decide, givesNumber_power h⟩)
  · exact .inr (.inr ⟨by decide, by decide, givesNumber_squareRoot h⟩)
  · exact .inl ⟨rfl, argument_of_choose h⟩
  · exact .inr (.inl ⟨rfl, type_of_negate h⟩)

end Builtin

namespace Expr

/-- The type of a call admits its value if the types of the arguments admit theirs. -/
theorem admits_of_call {name : String} {args : List Expr} {vs : List Value} {v : Value}
    (hargs : ∀ (i : Nat) (t : ResultType) (u : Value), (resultTypes args)[i]? = some t →
      vs[i]? = some u → t.Admits u)
    (h : Registry.builtins.call name vs = .ok v) : (Expr.call name args).resultType.Admits v := by
  obtain ⟨f, hf, hname, -, hrun⟩ := Registry.exists_of_call_builtins h
  rcases Builtin.type_of_run hf hrun with ⟨hif, hargument⟩ | ⟨hnot, htype⟩ | ⟨hif, hnot, htype⟩
  · simp only [resultType, ← hname, hif]
    split
    · next c t u htypes =>
      rw [htypes] at hargs
      rcases hargument with hthen | helse
      · exact (hargs 1 t v rfl hthen).join_left u
      · exact (hargs 2 u v rfl helse).join_right t
    · exact fun hne => absurd rfl hne
  · simp only [resultType, ← hname, hnot]
    exact fun _ => htype
  · rw [resultType, ← hname]
    split
    · exact absurd ‹_› hif
    · exact absurd ‹_› hnot
    · exact fun _ => htype

variable {σ : Type}

mutual

/-- The type of a tree admits every value of the tree. -/
theorem admits_of_evaluate (ctx : Context) (source : Resolver σ) (e : Expr) {w w' : World σ}
    {v : Value} (h : (e.evaluate ctx source).run.run w = (.ok v, w')) :
    e.resultType.Admits v := by
  cases e with
  | literal u =>
    rw [evaluate, Run.ofExcept_eq_ok_iff, Value.finiteFrom] at h
    obtain ⟨h, -⟩ := h
    split at h
    · cases h
      exact fun _ => rfl
    · cases h
  | var name => exact fun hne => absurd rfl hne
  | binary op a b =>
    rw [evaluate, Run.bind_eq_ok_iff] at h
    obtain ⟨left, _, -, h⟩ := h
    rw [Run.bind_eq_ok_iff] at h
    obtain ⟨right, _, -, h⟩ := h
    rw [Run.ofExcept_eq_ok_iff] at h
    exact fun _ => Operator.type_of_apply h.1
  | conditional c a b =>
    rw [evaluate, Run.bind_eq_ok_iff] at h
    obtain ⟨condition, _, -, h⟩ := h
    rw [Run.bind_eq_ok_iff] at h
    obtain ⟨chosen, _, -, h⟩ := h
    rw [resultType]
    split at h
    · exact (admits_of_evaluate ctx source a h).join_left _
    · exact (admits_of_evaluate ctx source b h).join_right _
  | call name args =>
    rw [evaluate, Run.bind_eq_ok_iff] at h
    obtain ⟨vs, _, hargs, h⟩ := h
    rw [Run.ofExcept_eq_ok_iff] at h
    exact admits_of_call (admits_of_evaluateAll ctx source args hargs) h.1

/-- The types of a list of trees admit the values of the trees, position by position. -/
theorem admits_of_evaluateAll (ctx : Context) (source : Resolver σ) (es : List Expr)
    {w w' : World σ} {vs : List Value}
    (h : (evaluateAll ctx source es).run.run w = (.ok vs, w')) (i : Nat) (t : ResultType)
    (u : Value) (ht : (resultTypes es)[i]? = some t) (hu : vs[i]? = some u) : t.Admits u := by
  cases es with
  | nil => cases ht
  | cons e rest =>
    rw [evaluateAll, Run.bind_eq_ok_iff] at h
    obtain ⟨v, _, hv, h⟩ := h
    rw [Run.bind_eq_ok_iff] at h
    obtain ⟨vs', _, hvs, h⟩ := h
    rw [Run.pure_eq_ok_iff] at h
    obtain ⟨rfl, -⟩ := h
    cases i with
    | zero =>
      cases ht
      cases hu
      exact admits_of_evaluate ctx source e hv
    | succ i => exact admits_of_evaluateAll ctx source rest hvs i t u ht hu

end

/-- Every value of a tree with a known static type has this type. A tree of booleans or strings
never evaluates to a number. -/
theorem type_of_evaluate (ctx : Context) (source : Resolver σ) (e : Expr) (w : World σ) :
    (e.resultType ≠ .unknown → ∀ v w', (e.evaluate ctx source).run.run w = (.ok v, w') →
      v.type = e.resultType) ∧
    (e.resultType = .boolean ∨ e.resultType = .string → ∀ x w',
      (e.evaluateNumber ctx source).run.run w ≠ (.ok x, w')) := by
  constructor
  · exact fun hne v w' h => admits_of_evaluate ctx source e h hne
  · intro htype x w' h
    rw [evaluateNumber, Run.bind_eq_ok_iff] at h
    obtain ⟨v, w'', hv, h⟩ := h
    rw [Run.ofExcept_eq_ok_iff] at h
    have hadmits := admits_of_evaluate ctx source e hv
    obtain ⟨y, hy, -⟩ := Except.bind_eq_ok_iff.mp h.1
    cases v with
    | number y =>
      rcases htype with htype | htype
      · rw [htype] at hadmits
        cases hadmits (by decide)
      · rw [htype] at hadmits
        cases hadmits (by decide)
    | boolean b => cases hy
    | string s => cases hy

/-- A conditional between two strings has a string as its value, and no number. -/
theorem type_of_evaluate_conditional :
    let e := conditional (binary .less (number 1) (number 2)) (string "low") (string "high")
    let source : Resolver Unit := Resolver.ofBindings Dictionary.empty
    let w := World.start ()
    ((e.evaluate Context.background source).run.run w = (.ok (.string "low"), w) ∧
      (Value.string "low").type = e.resultType) ∧
    e.resultType = .string ∧
      ∀ x w', (e.evaluateNumber Context.background source).run.run w ≠ (.ok x, w') := by
  intro e source w
  have hrun : (e.evaluate Context.background source).run.run w = (.ok (.string "low"), w) := rfl
  obtain ⟨htype, hnumber⟩ := type_of_evaluate Context.background source e w
  exact ⟨⟨hrun, htype (by decide) _ _ hrun⟩, rfl, hnumber (.inr rfl)⟩

end Expr

end FormulaRules
