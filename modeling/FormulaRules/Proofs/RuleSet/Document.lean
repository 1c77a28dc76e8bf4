import FormulaRules.Proofs.Command.Document
import FormulaRules.Proofs.Evaluation.Finite
import FormulaRules.Proofs.Expr.Document
import FormulaRules.RuleSet.Document

/-!
# Calculations that are read back from their documents

A calculation is read from its document as it was, with or without a rule and a failure, if its
value and its variables are finite. Nothing else is ever read from the document of a calculation.
The record of a failure has a NaN as its value, so a null stands in its document where a number
belongs. Main statement: of the calculations that are reported, those that succeeded are read back,
and those that failed are not.

The documents are the trees of members and items; their texts are not looked at.
-/

namespace FormulaRules

universe u

/-- A dictionary is collected from its own entries, in whatever order they come. -/
theorem Dictionary.ofList_eq_of_perm {α : Type u} {d : Dictionary α}
    {entries : List (String × α)} (h : entries.Perm d.toList) : ofList entries = d := by
  have hnames : (d.toList.map Prod.fst).Nodup := d.names_ascending.imp String.ne_of_lt
  have hperm : d.toList.Perm entries.reverse := h.symm.trans entries.reverse_perm.symm
  apply ext_get?
  intro name
  rw [get?_ofList, get?, find?_perm hperm hnames]

namespace Bindings

/-- Whether all numbers among the variables are finite. -/
def IsFinite (vars : Bindings) : Prop :=
  ∀ name x, vars.get? name = some (.number x) → x.isFinite = true

/-- Variables are finite if every entry is. -/
theorem isFinite_iff_forall_mem {vars : Bindings} :
    vars.IsFinite ↔ ∀ p ∈ vars.toList, p.2.isFinite = true := by
  constructor
  · rintro h ⟨name, v⟩ hmem
    have hget : vars.get? name = some v := Dictionary.find?_of_mem vars.ascending hmem
    cases v with
    | number x => exact h name x hget
    | boolean b => rfl
    | string s => rfl
  · intro h name x hget
    exact h (name, .number x) (Dictionary.mem_of_find? hget)

/-- Exactly the entries themselves are read from their documents, if they are finite. -/
theorem mapM_ofJson?_toJson_eq_some_iff (entries : List (String × Value))
    {entries' : List (String × Value)} :
    (entries.mapM fun p => (Value.ofJson? p.2.toJson).map fun v => (p.1, v)) = some entries' ↔
      (∀ p ∈ entries, p.2.isFinite = true) ∧ entries = entries' := by
  induction entries generalizing entries' with
  | nil =>
    simp only [List.mapM_nil, List.not_mem_nil, Option.pure_def, Option.some.injEq, false_implies,
      implies_true, true_and]
  | cons head rest ih =>
    simp only [List.mapM_cons, Option.bind_eq_bind, Option.pure_def, Option.bind_eq_some_iff,
      Option.map_eq_some_iff, Option.some.injEq, Value.ofJson?_toJson_eq_some_iff, ih,
      List.forall_mem_cons]
    constructor
    · rintro ⟨_, ⟨v, ⟨hhead, rfl⟩, rfl⟩, _, ⟨hrest, rfl⟩, rfl⟩
      exact ⟨⟨hhead, hrest⟩, rfl⟩
    · rintro ⟨⟨hhead, hrest⟩, rfl⟩
      exact ⟨head, ⟨head.2, ⟨hhead, rfl⟩, rfl⟩, rest, ⟨hrest, rfl⟩, rfl⟩

/-- Exactly the variables themselves are read from their document, if they are finite. -/
theorem ofJson?_toJson_eq_some_iff {vars vars' : Bindings} :
    ofJson? (toJson vars) = some vars' ↔ vars.IsFinite ∧ vars = vars' := by
  have hperm := List.mergeSort_perm vars.toList fun a b => decide (Json.quote a.1 ≤ Json.quote b.1)
  have hvars := Dictionary.ofList_eq_of_perm hperm
  simp only [toJson, ofJson?, List.mapM_map, Function.comp_def, isFinite_iff_forall_mem,
    Option.bind_eq_bind, Option.bind_eq_some_iff, mapM_ofJson?_toJson_eq_some_iff, hperm.mem_iff]
  constructor
  · rintro ⟨entries, ⟨hfinite, rfl⟩, hread⟩
    exact ⟨hfinite, hvars.symm.trans (Option.some.inj hread)⟩
  · rintro ⟨hfinite, rfl⟩
    exact ⟨_, ⟨hfinite, rfl⟩, congrArg some hvars⟩

end Bindings

/-- A rule is read back from its document. -/
theorem Rule.ofJson?_toJson (rule : Rule) : ofJson? rule.toJson = some rule := by
  simp [ofJson?, toJson, Json.fields?, Json.member?, List.lookup_cons, Json.string?]

/-- A number is read back from its document if it is finite. -/
theorem Json.number?_ofFloat_eq_some_iff {x y : Float} :
    (ofFloat x).number? = some y ↔ x.isFinite = true ∧ x = y := by
  by_cases hx : x.isFinite = true
  · simp [ofFloat, hx, number?]
  · simp [ofFloat, hx, number?]

namespace Calculation

/-- The fields of the document of a calculation are its parts. -/
theorem fields?_toJson (c : Calculation) :
    c.toJson.fields? ["value", "formula", "variables", "rule_applied", "error"] =
      some [some (.ofFloat c.value), some (.string c.formula), some (Bindings.toJson c.bindings),
        c.ruleApplied.map Rule.toJson, c.failure.map .string] := by
  obtain ⟨value, formula, bindings, rule, failure⟩ := c
  cases rule <;> cases failure <;>
    simp [toJson, optionalMember, Json.fields?, Json.member?, List.lookup_cons]

/-- The rule is read back, and that there is none as well. -/
theorem optional?_rule (rule : Option Rule) :
    optional? Rule.ofJson? (rule.map Rule.toJson) = some rule := by
  cases rule with
  | none => rfl
  | some rule => exact congrArg (Option.map some) rule.ofJson?_toJson

/-- The wording of the failure is read back, and that there is none as well. -/
theorem optional?_failure (failure : Option String) :
    optional? Json.string? (failure.map .string) = some failure := by
  cases failure with
  | none => rfl
  | some message => rfl

/-- Exactly the calculation itself is read from its document, if its value and its variables are
finite. -/
theorem ofJson?_toJson_eq_some_iff {c c' : Calculation} :
    ofJson? c.toJson = some c' ↔ c.value.isFinite = true ∧ c.bindings.IsFinite ∧ c = c' := by
  obtain ⟨value, formula, bindings, rule, failure⟩ := c
  simp [ofJson?, fields?_toJson, Json.string?, optional?_rule, optional?_failure,
    Option.bind_eq_some_iff, Json.number?_ofFloat_eq_some_iff,
    Bindings.ofJson?_toJson_eq_some_iff, and_assoc, and_left_comm]

/-- The calculations that are reported: those that rules give, those of a finite value, and the
records of failures. -/
inductive Reported : Calculation → Prop
  | ofRules {σ : Type} {ctx : Context} {source : Resolver σ} {rules : List Rule} {w w' : World σ}
    {c : Calculation} : (RuleSet.evaluate ctx source rules).run.run w = (.ok c, w') → Reported c
  | ofValue {x : Float} (formula : String) (vars : Bindings) :
    x.isFinite = true → Reported (ofValue x formula vars)
  | failed (formula : String) (vars : Bindings) (e : FormulaError) :
    Reported (failed formula vars e)

/-- A reported calculation has a finite value if it has succeeded, and only then. -/
theorem Reported.isFinite_value {c : Calculation} (h : Reported c) :
    c.value.isFinite = c.isSuccess := by
  cases h with
  | ofRules hrun =>
    obtain ⟨-, rule, -, -, w₂, w₃, -, -, -, hvalue, -, hc⟩ := RuleSet.exists_of_evaluateFrom_ok hrun
    have hfinite : c.value.isFinite = true :=
      Run.satisfiesM_iff.mp (Formula.isFinite_calculate _ _ _) w₂ _ w₃ hvalue
    rw [hfinite, hc]
    rfl
  | ofValue formula vars hx => exact hx
  | failed formula vars e =>
    have hnan : (0 / 0 : Float).isFinite = false := by decide +kernel
    exact hnan

/-- A reported calculation with finite variables is read back from its document as it was if it has
succeeded. The record of a failure is refused, whatever the failure. -/
theorem read_back_iff_success {c : Calculation} (hreported : Reported c)
    (hvars : ∀ name x, c.bindings.get? name = some (.number x) → x.isFinite = true) :
    (c.isSuccess = true → ofJson? c.toJson = some c) ∧
      (c.isSuccess = false → ofJson? c.toJson = none) := by
  rw [← hreported.isFinite_value]
  constructor
  · intro hfinite
    exact ofJson?_toJson_eq_some_iff.mpr ⟨hfinite, hvars, rfl⟩
  · intro hnan
    rw [Option.eq_none_iff_forall_ne_some]
    intro c' hread
    rw [(ofJson?_toJson_eq_some_iff.mp hread).1] at hnan
    cases hnan

/-- What the second rule gives for an order is read back with the rule and with a discount of
negative zero. The record of a rule that cannot divide is refused. -/
theorem read_back_iff_success_order :
    let order : Bindings := Dictionary.ofList
      [("quantity", .number 3), ("discount", .number (-0)), ("region", .string "EU")]
    let rules := [⟨"quantity > 5", "20"⟩, ⟨"always", "quantity * 5 - discount"⟩]
    let failure := failed "quantity / discount" order
      (.rule 0 .calculation (.evaluation .divisionByZero))
    (∃ c w', (RuleSet.evaluate .background (.ofBindings order) rules).run.run (World.start ()) =
        (.ok c, w') ∧
      (c.value == 15) = true ∧ c.bindings.IsFinite ∧ c.isSuccess = true ∧
        ofJson? c.toJson = some c) ∧
    (order.IsFinite ∧ failure.isSuccess = false ∧ ofJson? failure.toJson = none) := by
  intro order rules failure
  have hrules : ((RuleSet.evaluate .background (.ofBindings order) rules).outcome
      (World.start ())).toOption.any (fun c => c.value == 15 && c.isSuccess &&
        c.bindings.toList.all (·.2.isFinite)) = true := by
    decide +kernel +revert
  obtain ⟨c, w', hrun, hc⟩ := Run.exists_of_any_outcome hrules
  simp only [Bool.and_eq_true, List.all_eq_true] at hc
  obtain ⟨⟨hvalue, hsuccess⟩, hall⟩ := hc
  have hbindings : c.bindings.IsFinite := Bindings.isFinite_iff_forall_mem.mpr hall
  have horder : order.IsFinite := Bindings.isFinite_iff_forall_mem.mpr (by decide +kernel)
  exact ⟨⟨c, w', hrun, hvalue, hbindings, hsuccess,
      (read_back_iff_success (.ofRules hrun) hbindings).1 hsuccess⟩,
    horder, rfl, (read_back_iff_success (.failed _ order _) horder).2 rfl⟩

/-- The record of a division by zero is reported, and it is not read back from its document. -/
theorem failed_not_read_back :
    let c := failed "1 / 0" Dictionary.empty (.evaluation .divisionByZero)
    Reported c ∧ c.bindings.IsFinite ∧ ¬ ∃ c', ofJson? c.toJson = some c' := by
  intro c
  have hnone : (ofJson? c.toJson).isNone = true := by decide +kernel
  refine ⟨.failed _ _ _, nofun, ?_⟩
  rintro ⟨c', hread⟩
  rw [hread] at hnone
  cases hnone

end Calculation

end FormulaRules
