import Mathlib.Order.Lattice
import FormulaRules.Expr.Document
import FormulaRules.Proofs.Expr.Parts

/-!
# Trees that are read back from their documents

The document of a tree is read as the tree itself, with every literal as it was, if the document is
not too deep and every number is finite. Main statement: nothing else is ever read from it. A number
that is not finite is written as null, which is no value, so its tree is refused and not taken for
another one.
-/

namespace FormulaRules

namespace Value

/-- A value is read back from its document if it is no infinite or undefined number. -/
theorem ofJson?_toJson_eq_some_iff {v w : Value} :
    ofJson? v.toJson = some w ↔ v.isFinite = true ∧ v = w := by
  cases v with
  | number x =>
    by_cases hx : x.isFinite = true
    · simp [toJson, Json.ofFloat, hx, ofJson?, ofDocument, isFinite, Except.toOption]
    · simp [toJson, Json.ofFloat, hx, ofJson?, ofDocument, isFinite, Except.toOption]
  | boolean b => simp [toJson, ofJson?, ofDocument, isFinite, Except.toOption]
  | string s => simp [toJson, ofJson?, ofDocument, isFinite, Except.toOption]

/-- The document of a value is no array and no object. -/
theorem depth_toJson (v : Value) : v.toJson.depth = 0 := by
  cases v with
  | number x => by_cases hx : x.isFinite = true <;> simp [toJson, Json.ofFloat, hx, Json.depth]
  | boolean b => rfl
  | string s => rfl

end Value

/-- An operator is read back from its symbol. -/
theorem Operator.ofJson?_symbol (op : Operator) : ofJson? (.string op.symbol) = some op :=
  ofSymbol?_symbol op

namespace Expr

/-- Whether every number in a tree is finite. -/
def HasFiniteNumbers (e : Expr) : Prop := ∀ x, (number x).IsPart e → x.isFinite = true

/-- The only number in a literal is the literal itself. -/
theorem hasFiniteNumbers_literal_iff (v : Value) :
    (literal v).HasFiniteNumbers ↔ v.isFinite = true := by
  constructor
  · intro h
    cases v with
    | number x => exact h x .whole
    | boolean b => rfl
    | string s => rfl
  · rintro h x ⟨⟩
    exact h

/-- There is no number in a variable. -/
theorem hasFiniteNumbers_var (name : String) : (var name).HasFiniteNumbers := by
  rintro x ⟨⟩

/-- The numbers under an operator are those of its operands. -/
theorem hasFiniteNumbers_binary_iff (op : Operator) (a b : Expr) :
    (binary op a b).HasFiniteNumbers ↔ a.HasFiniteNumbers ∧ b.HasFiniteNumbers := by
  constructor
  · intro h
    exact ⟨fun x hx => h x (.left hx), fun x hx => h x (.right hx)⟩
  · rintro ⟨ha, hb⟩ x (_ | hx | hx)
    · exact ha x hx
    · exact hb x hx

/-- The numbers in a conditional are those of its condition and both its branches. -/
theorem hasFiniteNumbers_conditional_iff (c a b : Expr) :
    (conditional c a b).HasFiniteNumbers ↔
      c.HasFiniteNumbers ∧ a.HasFiniteNumbers ∧ b.HasFiniteNumbers := by
  constructor
  · intro h
    exact ⟨fun x hx => h x (.condition hx), fun x hx => h x (.onTrue hx),
      fun x hx => h x (.onFalse hx)⟩
  · rintro ⟨hc, ha, hb⟩ x h
    cases h with
    | condition hx => exact hc x hx
    | onTrue hx => exact ha x hx
    | onFalse hx => exact hb x hx

/-- The numbers in a call are those of its arguments. -/
theorem hasFiniteNumbers_call_iff (name : String) (args : List Expr) :
    (call name args).HasFiniteNumbers ↔ ∀ arg ∈ args, arg.HasFiniteNumbers := by
  constructor
  · intro h arg harg x hx
    exact h x (.argument harg hx)
  · intro h x hx
    cases hx with
    | argument harg hx => exact h _ harg x hx

/-- A literal is read as the value in it, at any level. -/
theorem ofJson?_literal (levels : Nat) (content : Json) :
    ofJson? (levels + 1) (.object [("Literal", content)]) =
      (Value.ofJson? content).map literal := by
  rw [Option.map_eq_bind]
  cases levels with
  | zero => rfl
  | succ levels =>
    simp only [ofJson?, Json.alternative?]
    rfl

/-- A variable is read as its name, at any level. -/
theorem ofJson?_variable (levels : Nat) (content : Json) :
    ofJson? (levels + 1) (.object [("Variable", content)]) = content.string?.map var := by
  rw [Option.map_eq_bind]
  cases levels with
  | zero => rfl
  | succ levels =>
    simp only [ofJson?, Json.alternative?]
    rfl

/-- Reading an operator enters two objects before its operands. -/
theorem ofJson?_binary (levels : Nat) (a op b : Json) :
    ofJson? (levels + 2)
        (.object [("Binary", .object [("left", a), ("operator", op), ("right", b)])]) = do
      return binary (← Operator.ofJson? op) (← ofJson? levels a) (← ofJson? levels b) := by
  simp [ofJson?, Json.alternative?, Json.fields?, Json.member?, List.lookup_cons]

/-- Reading a conditional enters two objects before its parts. -/
theorem ofJson?_ternary (levels : Nat) (c a b : Json) :
    ofJson? (levels + 2)
        (.object [("Ternary", .object [("condition", c), ("then_expr", a), ("else_expr", b)])]) = do
      return conditional (← ofJson? levels c) (← ofJson? levels a) (← ofJson? levels b) := by
  simp [ofJson?, Json.alternative?, Json.fields?, Json.member?, List.lookup_cons]

/-- Reading a call enters two objects and the array of its arguments. -/
theorem ofJson?_functionCall (levels : Nat) (name args : Json) :
    ofJson? (levels + 3)
        (.object [("FunctionCall", .object [("name", name), ("args", args)])]) = do
      return call (← name.string?) (← (← args.items?).mapM (ofJson? levels)) := by
  simp [ofJson?, Json.alternative?, Json.fields?, Json.member?, List.lookup_cons]

mutual

/-- Exactly the tree itself is read from its document, if its numbers are finite and the document is
not too deep. -/
theorem ofJson?_toJson_eq_some_iff (e : Expr) {levels : Nat} {e' : Expr} :
    ofJson? levels e.toJson = some e' ↔
      e.HasFiniteNumbers ∧ e.toJson.depth ≤ levels ∧ e = e' := by
  cases e with
  | literal v =>
    cases levels with
    | zero => simp [ofJson?, toJson, Json.depth]
    | succ levels =>
      simp [toJson, ofJson?_literal, Value.ofJson?_toJson_eq_some_iff, Json.depth,
        Json.depthMembers, Value.depth_toJson, hasFiniteNumbers_literal_iff, and_assoc]
  | var name =>
    cases levels with
    | zero => simp [ofJson?, toJson, Json.depth]
    | succ levels =>
      simp [toJson, ofJson?_variable, Json.string?, Json.depth, Json.depthMembers,
        hasFiniteNumbers_var]
  | binary op a b =>
    match levels with
    | 0 => simp [ofJson?, toJson, Json.depth]
    | 1 => simp [ofJson?, toJson, Json.alternative?, Json.depth, Json.depthMembers]
    | levels + 2 =>
      simp [toJson, ofJson?_binary, Operator.ofJson?_symbol, Option.bind_eq_some_iff,
        ofJson?_toJson_eq_some_iff a, ofJson?_toJson_eq_some_iff b, Json.depth, Json.depthMembers,
        hasFiniteNumbers_binary_iff, and_assoc, and_left_comm]
  | conditional c a b =>
    match levels with
    | 0 => simp [ofJson?, toJson, Json.depth]
    | 1 => simp [ofJson?, toJson, Json.alternative?, Json.depth, Json.depthMembers]
    | levels + 2 =>
      simp [toJson, ofJson?_ternary, Option.bind_eq_some_iff, ofJson?_toJson_eq_some_iff c,
        ofJson?_toJson_eq_some_iff a, ofJson?_toJson_eq_some_iff b, Json.depth, Json.depthMembers,
        hasFiniteNumbers_conditional_iff, and_assoc, and_left_comm]
  | call name args =>
    match levels with
    | 0 => simp [ofJson?, toJson, Json.depth]
    | 1 => simp [ofJson?, toJson, Json.alternative?, Json.depth, Json.depthMembers]
    | 2 =>
      -- The object of the call is still entered here, but not the array of its arguments.
      simp [ofJson?, toJson, Json.alternative?, Json.fields?, Json.member?, List.lookup_cons,
        Json.depth, Json.depthMembers]
    | levels + 3 =>
      simp [toJson, ofJson?_functionCall, Json.string?, Json.items?, Option.bind_eq_some_iff,
        mapM_ofJson?_toJsonAll_eq_some_iff args, Json.depth, Json.depthMembers,
        hasFiniteNumbers_call_iff, and_assoc]

/-- Exactly the list of trees itself is read from its documents. -/
theorem mapM_ofJson?_toJsonAll_eq_some_iff (es : List Expr) {levels : Nat} {es' : List Expr} :
    (toJsonAll es).mapM (ofJson? levels) = some es' ↔
      (∀ e ∈ es, e.HasFiniteNumbers) ∧ Json.depthItems (toJsonAll es) ≤ levels ∧ es = es' := by
  cases es with
  | nil => simp [toJsonAll, Json.depthItems, eq_comm]
  | cons e rest =>
    simp [toJsonAll, Json.depthItems, List.mapM_cons, Option.bind_eq_some_iff,
      ofJson?_toJson_eq_some_iff e, mapM_ofJson?_toJsonAll_eq_some_iff rest, and_assoc,
      and_left_comm]

end

/-- A tree with finite numbers is read back from its document as it was, a negative zero included,
wherever as many arrays and objects as it has may be entered. The document of any other tree is
refused. -/
theorem read_back_iff_finite (e : Expr) :
    ((∀ x, (number x).IsPart e → x.isFinite = true) →
      ∀ levels, e.toJson.depth ≤ levels → ofJson? levels e.toJson = some e) ∧
    ((∃ x, (number x).IsPart e ∧ x.isFinite = false) →
      ∀ levels, ofJson? levels e.toJson = none) := by
  constructor
  · intro hfinite levels hdepth
    exact (ofJson?_toJson_eq_some_iff e).mpr ⟨hfinite, hdepth, rfl⟩
  · rintro ⟨x, hpart, hx⟩ levels
    rw [Option.eq_none_iff_forall_ne_some]
    intro e' hread
    have hfinite := ((ofJson?_toJson_eq_some_iff e).mp hread).1 x hpart
    rw [hx] at hfinite
    cases hfinite

/-- A negative zero and a string that looks like a number come back from inside a call, and an
infinity in an argument is not taken for another value. -/
theorem read_back_iff_finite_arguments :
    let e := call "IF" [var "rush", number (-0), binary .add (string "1e9") (boolean true)]
    let f := binary .less (var "x") (call "max" [number 2, number (1 / 0)])
    ((∀ x, (number x).IsPart e → x.isFinite = true) ∧ e.toJson.depth ≤ 6 ∧
      ofJson? 6 e.toJson = some e) ∧
    ((∃ x, (number x).IsPart f ∧ x.isFinite = false) ∧ ofDocument? f.toJson = none) := by
  intro e f
  have hzero : (-0 : Float).isFinite = true := by decide +kernel
  have hfinite : e.HasFiniteNumbers := by
    simp [e, hasFiniteNumbers_call_iff, hasFiniteNumbers_var, hasFiniteNumbers_binary_iff,
      hasFiniteNumbers_literal_iff, hzero, Value.isFinite]
  have hdepth : e.toJson.depth ≤ 6 := by decide +kernel
  have hinfinite : ∃ x, (number x).IsPart f ∧ x.isFinite = false := by
    refine ⟨1 / 0, .right (.argument ?_ .whole), by decide +kernel⟩
    simp
  exact ⟨⟨hfinite, hdepth, (read_back_iff_finite e).1 hfinite 6 hdepth⟩, hinfinite,
    (read_back_iff_finite f).2 hinfinite Json.maxDepth⟩

end Expr

end FormulaRules
