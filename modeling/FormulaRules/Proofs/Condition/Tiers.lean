import FormulaRules.Proofs.Condition.Shortcut
import FormulaRules.Proofs.Value.Equality

/-!
# Tiers below, at and above a threshold

Numbers are equal within a tolerance, and they are ordered exactly. Main statement: equality and
order contradict each other for two different numbers within the tolerance, and for no others. Such
numbers count as equal, and one of them is below the other. So at least one of three tiers applies,
those below and above a threshold never both, and the one at the threshold together with another one
exactly for such numbers.
-/

namespace FormulaRules

open Number

/-- Whether two different finite numbers are so close that they count as equal. -/
def Number.Conflated (x y : Float) : Prop := (x == y) = false ∧ distance x y ≤ tolerance x y

namespace Operator

/-- Whether a comparison of two numbers is true. -/
def Holds (op : Operator) (x y : Float) : Prop :=
  op.apply (.number x) (.number y) = .ok (.boolean true)

/-- A comparison of two numbers is true or false. -/
theorem exists_apply_of_isComparison {op : Operator} (hop : op.isComparison = true) (x y : Float) :
    ∃ answer, op.apply (.number x) (.number y) = .ok (.boolean answer) := by
  cases op with
  | equal | notEqual | less | lessOrEqual | greater | greaterOrEqual => exact ⟨_, rfl⟩
  | add | subtract | multiply | divide | modulo | and | or => cases hop

section Finite

variable {x y : Float}

/-- An ordering is true if the numbers are in it. -/
theorem holds_iff_of_ordered {op : Operator} {p : Prop} [Decidable p]
    (h : op.apply (.number x) (.number y) = .ok (.boolean (decide p))) : op.Holds x y ↔ p := by
  rw [Holds, h, Except.ok.injEq, Value.boolean.injEq, decide_eq_true_iff]

/-- Finite numbers count as equal if their distance is at most the tolerance. -/
theorem holds_equal_iff (hx : x.isFinite = true) (hy : y.isFinite = true) :
    equal.Holds x y ↔ distance x y ≤ tolerance x y := by
  have happly : equal.apply (.number x) (.number y) =
      .ok (.boolean ((Value.number x).equals (.number y))) := rfl
  rw [Holds, happly, Except.ok.injEq, Value.boolean.injEq, equals_iff hx hy]

/-- The orderings compare the units of finite numbers. -/
theorem holds_ordering_iff (hx : x.isFinite = true) (hy : y.isFinite = true) :
    (less.Holds x y ↔ units x < units y) ∧ (lessOrEqual.Holds x y ↔ units x ≤ units y) ∧
      (greater.Holds x y ↔ units y < units x) ∧ (greaterOrEqual.Holds x y ↔ units y ≤ units x) :=
  ⟨(holds_iff_of_ordered rfl).trans (lt_iff_units hx hy),
    (holds_iff_of_ordered rfl).trans (le_iff_units hx hy),
    (holds_iff_of_ordered rfl).trans (lt_iff_units hy hx),
    (holds_iff_of_ordered rfl).trans (le_iff_units hy hx)⟩

end Finite

end Operator

/-- A condition that compares two numbers is answered by the comparison. -/
theorem Condition.exists_holds_of_comparison {σ : Type} {ctx : Context} {source : Resolver σ}
    {text : String} {op : Operator} {e f : Expr} {x y : Float} (hop : op.isComparison = true)
    (he : e.evaluate ctx source = pure (.number x)) (hf : f.evaluate ctx source = pure (.number y))
    (htext : parse text = .ok (.binary op e f)) :
    ∃ answer, holds ctx source text = pure answer ∧ (answer = true ↔ op.Holds x y) := by
  obtain ⟨answer, happly⟩ := Operator.exists_apply_of_isComparison hop x y
  have hword : trivial? text = none := by
    cases htrivial : trivial? text with
    | none => rfl
    | some word =>
      rw [parse, read, htrivial] at htext
      cases htext
  have hvalue : (Expr.binary op e f).evaluateBoolean ctx source = pure answer := by
    rw [Expr.evaluateBoolean, Expr.evaluate, he, hf, pure_bind, pure_bind, happly]
    rfl
  refine ⟨answer, ?_, ?_⟩
  · rw [holds, hword, htext]
    change ((Expr.binary op e f).evaluateBoolean ctx source).inFormula = pure answer
    rw [hvalue]
    rfl
  · rw [Operator.Holds, happly, Except.ok.injEq, Value.boolean.injEq]

/-- A condition is read off the tokens of a phrase, if it is none of the words. -/
theorem Condition.parse_of_tokens {p : Phrase} (text : String) (hp : Derives .expression p)
    (hclean : (TokenStream.ofText text).EndsClean)
    (htokens : (TokenStream.ofText text).tokens = p.tokens) (hlevels : p.levels + 1 ≤ maxNesting)
    (hheight : p.tree.height ≤ maxHeight) (hblank : (Text.trim text == "") = false)
    (halways : Text.sameFolded (Text.trim text) "always" = false)
    (hnever : Text.sameFolded (Text.trim text) "never" = false) :
    parse text = .ok p.tree := by
  rw [parse, read_eq_parseFormula (ne_of_beq_false hblank) halways hnever,
    (Expr.parseFormula_of_tokens hp hclean htokens).mpr ⟨hlevels, hheight, rfl⟩]
  rfl

open Operator in
/-- Two numbers that count as equal are in both weak orders and in no strict one, unless they are
different. Different numbers that count as equal are in one of the strict orders. Of three tiers
below, at and above a threshold at least one applies; the first and the last exclude each other, and
the middle one excludes the others except for different numbers that count as equal. -/
theorem Condition.tiers_overlap_iff {x y : Float} (hx : x.isFinite = true)
    (hy : y.isFinite = true) :
    (equal.Holds x y → (lessOrEqual.Holds x y ∧ greaterOrEqual.Holds x y ∧ ¬less.Holds x y ∧
      ¬greater.Holds x y ↔ ¬Conflated x y)) ∧
    (Conflated x y → equal.Holds x y ∧ (less.Holds x y ∧ lessOrEqual.Holds x y ∧
      ¬greater.Holds x y ∧ ¬greaterOrEqual.Holds x y ∨ greater.Holds x y ∧
        greaterOrEqual.Holds x y ∧ ¬less.Holds x y ∧ ¬lessOrEqual.Holds x y)) ∧
    ∀ {σ : Type} {ctx : Context} {source : Resolver σ} {e f : Expr} {below level above : String},
      e.evaluate ctx source = pure (.number x) → f.evaluate ctx source = pure (.number y) →
      parse below = .ok (.binary .less e f) → parse level = .ok (.binary .equal e f) →
      parse above = .ok (.binary .greater e f) →
      ∃ p q r : Bool, holds ctx source below = pure p ∧ holds ctx source level = pure q ∧
        holds ctx source above = pure r ∧ (p = true ∨ q = true ∨ r = true) ∧
        ¬(p = true ∧ r = true) ∧ (q = true ∧ (p = true ∨ r = true) ↔ Conflated x y) := by
  obtain ⟨hless, hlessOrEqual, hgreater, hgreaterOrEqual⟩ := holds_ordering_iff hx hy
  have hequal := holds_equal_iff hx hy
  have hapart : (x == y) = false ↔ units x ≠ units y := by
    rw [← Bool.not_eq_true, beq_iff_units hx hy]
  refine ⟨fun h => ?_, fun ⟨hne, hclose⟩ => ⟨hequal.mpr hclose, ?_⟩, ?_⟩
  · rw [hlessOrEqual, hgreaterOrEqual, hless, hgreater, Conflated, and_iff_left (hequal.mp h),
      hapart]
    omega
  · rw [hlessOrEqual, hgreaterOrEqual, hless, hgreater]
    rw [hapart] at hne
    omega
  · intro σ ctx source e f below level above he hf hbelow hlevel habove
    obtain ⟨p, hp, hp'⟩ := exists_holds_of_comparison rfl he hf hbelow
    obtain ⟨q, hq, hq'⟩ := exists_holds_of_comparison rfl he hf hlevel
    obtain ⟨r, hr, hr'⟩ := exists_holds_of_comparison rfl he hf habove
    refine ⟨p, q, r, hp, hq, hr, ?_⟩
    rw [hp', hq', hr', hless, hgreater, hequal, Conflated, hapart]
    refine ⟨?_, ?_, ?_⟩
    · by_cases hsame : units x = units y
      · have hnone : distance x y = 0 := by rw [distance, hsame, sub_self, Int.natAbs_zero]
        exact .inr (.inl (hnone ▸ Nat.zero_le _))
      · omega
    · omega
    · constructor
      · rintro ⟨hclose, hstrict⟩
        exact ⟨by omega, hclose⟩
      · rintro ⟨hne, hclose⟩
        exact ⟨hclose, by omega⟩

/-- The number next to one is equal to one and above it. -/
theorem Operator.neighbour_of_one_equal_and_greater :
    let x : Float := 1.0000000000000002
    x.isFinite = true ∧ (1 : Float).isFinite = true ∧ equal.Holds x 1 ∧ greater.Holds x 1 ∧
      ¬lessOrEqual.Holds x 1 := by
  intro x
  have hx : x.isFinite = true := by decide +kernel
  have hone : (1 : Float).isFinite = true := by decide +kernel
  obtain ⟨-, hlessOrEqual, hgreater, -⟩ := holds_ordering_iff hx hone
  exact ⟨hx, hone, (holds_equal_iff hx hone).mpr (by decide +kernel),
    hgreater.mpr (by decide +kernel), mt hlessOrEqual.mp (by decide +kernel)⟩

/-- The sum of 0.1 and 0.2 is in the tier at 0.3 and in another one. -/
theorem Condition.tiers_overlap_iff_sum :
    let source : Resolver Unit :=
      .ofBindings ((Dictionary.empty.insert "x" (.number (0.1 + 0.2))).insert "t" (.number 0.3))
    Conflated (0.1 + 0.2) 0.3 ∧ holds .background source "x == t" = pure true ∧
      ∃ p r : Bool, holds .background source "x < t" = pure p ∧
        holds .background source "x > t" = pure r ∧ (p = true ∨ r = true) ∧
        ¬(p = true ∧ r = true) := by
  intro source
  have hrelation (op : Operator) (hop : op ∈ Symbol.operators .relation) :
      Derives .expression (.binary op (.var "x") (.var "t")) :=
    (Derives.binary hop ((Derives.var "x").loosen (by decide))
      ((Derives.var "t").loosen (by decide))).loosen (by decide)
  have hequality : Derives .expression (.binary .equal (.var "x") (.var "t")) :=
    (Derives.binary (s := .equality) (by decide) ((Derives.var "x").loosen (by decide))
      ((Derives.var "t").loosen (by decide))).loosen (by decide)
  have hbelow := parse_of_tokens "x < t" (hrelation .less (by decide))
    (by cbv) (by cbv) (by decide) (by decide) (by decide +kernel) (by decide +kernel)
    (by decide +kernel)
  have hlevel := parse_of_tokens "x == t" hequality
    (by cbv) (by cbv) (by decide) (by decide) (by decide +kernel) (by decide +kernel)
    (by decide +kernel)
  have habove := parse_of_tokens "x > t" (hrelation .greater (by decide))
    (by cbv) (by cbv) (by decide) (by decide) (by decide +kernel) (by decide +kernel)
    (by decide +kernel)
  have hx : ((0.1 + 0.2 : Float)).isFinite = true := by decide +kernel
  have ht : (0.3 : Float).isFinite = true := by decide +kernel
  have hconflated : Conflated (0.1 + 0.2) 0.3 := ⟨by decide +kernel, by decide +kernel⟩
  have hvalue (name : String) {v : Value} (hv : v.isFinite = true)
      (hname : source.lookup .background name = pure v) :
      (Expr.var name).evaluate .background source = pure v := by
    rw [Expr.evaluate, hname, pure_bind, Value.finiteFrom, if_pos hv]
    rfl
  obtain ⟨-, -, htiers⟩ := tiers_overlap_iff hx ht
  obtain ⟨p, q, r, hp, hq, hr, -, hexclusive, hoverlap⟩ := htiers (hvalue "x" hx rfl)
    (hvalue "t" ht rfl) hbelow hlevel habove
  obtain ⟨rfl, hstrict⟩ := hoverlap.mpr hconflated
  exact ⟨hconflated, hq, p, r, hp, hr, hstrict, hexclusive⟩

end FormulaRules
