import FormulaRules.Proofs.Evaluation.Congruence
import FormulaRules.Proofs.Grammar.Replacement

/-!
# Evaluating a literal in place of a variable

Signs before a variable are worked out when the tree is evaluated, by adding to zero and taking from
zero, and signs before a number literal when the tree is built. Main statement: a phrase with a
literal in place of a variable is evaluated like the phrase with the value of the literal for the
variable. Left out are zeros behind an odd number of minuses, for which the two ways of working out
a sign differ.

Which relation evaluation respects is left open.
-/

namespace FormulaRules

open Expr.Reading (Sign)

namespace Number

variable {n : Float}

/-- The number that a variable gives behind a count of minuses: a zero stays as it is. -/
def signed (count : Nat) (n : Float) : Float := if n == 0 then n else negated count n

/-- Minuses before a variable that is zero make no negative zero. -/
theorem signed_zero (count : Nat) : signed count 0 = 0 := if_pos (by decide +kernel)

/-- A number that is not zero or behind an even number of minuses is the same before and after
evaluation. -/
theorem signed_eq_negated {count : Nat} (h : (n == 0) = false ∨ count % 2 = 0) :
    signed count n = negated count n := by
  rw [signed]
  split
  · next hzero =>
    have heven := h.resolve_left fun hne => nomatch hzero.symm.trans hne
    rw [negated, if_pos heven]
  · rfl

/-- Taking the number behind minuses from zero is a further minus. -/
theorem apply_subtract_signed (hn : n.isFinite = true) (hzero : (n == 0) = false ∨ n = 0)
    (count : Nat) :
    Operator.subtract.apply (.number 0) (.number (signed count n)) =
      .ok (.number (signed (count + 1) n)) := by
  rcases hzero with hne | rfl
  · have hsigned (k : Nat) : signed k n = negated k n := signed_eq_negated (.inl hne)
    have hfinite := (isFinite_negated count n).trans hn
    have hcompute : Operator.subtract.apply (.number 0) (.number (negated count n)) =
        if (0 - negated count n).isFinite then .ok (.number (0 - negated count n))
        else .error (.nonFinite "-") := rfl
    rw [hsigned, hsigned, hcompute, zero_sub hfinite ((negated_beq_zero count n).trans hne),
      neg_negated, if_pos ((isFinite_negated _ n).trans hn)]
  · rw [signed_zero, signed_zero]
    rfl

/-- Adding the number behind minuses to zero keeps it. -/
theorem apply_add_signed (hn : n.isFinite = true) (hzero : (n == 0) = false ∨ n = 0)
    (count : Nat) :
    Operator.add.apply (.number 0) (.number (signed count n)) =
      .ok (.number (signed count n)) := by
  rcases hzero with hne | rfl
  · have hsigned : signed count n = negated count n := signed_eq_negated (.inl hne)
    have hfinite := (isFinite_negated count n).trans hn
    have hcompute : Operator.add.apply (.number 0) (.number (negated count n)) =
        if (0 + negated count n).isFinite then .ok (.number (0 + negated count n))
        else .error (.nonFinite "+") := rfl
    rw [hsigned, hcompute, zero_add hfinite (.inl ((negated_beq_zero count n).trans hne)),
      if_pos hfinite]
  · rw [signed_zero]
    rfl

end Number

/-- A finite literal has its value. -/
theorem Expr.evaluate_literal {σ : Type} {ctx : Context} {source : Resolver σ} {v : Value}
    (hv : v.isFinite = true) : (literal v).evaluate ctx source = pure v := by
  rw [evaluate, Value.finiteFrom, if_pos hv]
  rfl

/-- Equality is respected by evaluation. -/
def Run.Congruence.equality (σ : Type) : Run.Congruence σ σ where
  Related := Eq
  ofExcept _ := rfl
  bind := by
    rintro α β r _ f g rfl h
    exact congrArg (r >>= ·) (funext h)

namespace Phrase

variable {σ τ : Type} {ctx ctx' : Context} {source : Resolver σ} {target : Resolver τ} {x : String}
  {v : Value}

/-- A variable behind signs is evaluated to its value with the opposite sign for an odd number of
minuses, and a zero to itself. -/
theorem related_of_isBare (C : Run.Congruence σ τ) {n : Float} (hn : n.isFinite = true)
    (hzero : (n == 0) = false ∨ n = 0) (hx : C.Related (source.lookup ctx x) (pure (.number n)))
    {p : Phrase} (h : p.isBare x = true) :
    C.Related (p.tree.evaluate ctx source) (pure (.number (Number.signed p.minuses n))) := by
  induction p, h using isBare_induction with
  | var =>
    have hvalue : (Value.number n).isFinite = true := hn
    have hsigned : Number.signed 0 n = n := by
      rw [Number.signed]
      split <;> rfl
    have hbind := C.bind hx fun w =>
      C.ofExcept (w.operational_finiteFrom ("variable " ++ x)).computed
    rw [pure_bind, Value.finiteFrom, if_pos hvalue] at hbind
    change C.Related _ (pure (Value.number (Number.signed 0 n)))
    rw [hsigned]
    exact hbind
  | parenthesized p _ ih => exact ih
  | signed sign p h hbare ih =>
    obtain ⟨op, hop, happly⟩ : ∃ op, sign.token = .operator op ∧
        op.apply (.number 0) (.number (Number.signed p.minuses n)) =
          .ok (.number (Number.signed (signed sign p).minuses n)) := by
      rcases (isBare_of_signed h).2 with ⟨rfl, hminuses⟩ | ⟨rfl, hminuses⟩
      · exact ⟨.subtract, rfl, hminuses ▸ Number.apply_subtract_signed hn hzero p.minuses⟩
      · exact ⟨.add, rfl, hminuses ▸ Number.apply_add_signed hn hzero p.minuses⟩
    have hbind := C.bind ih fun w => C.ofExcept (op.operational_apply (.number 0) w).computed
    rw [pure_bind, happly] at hbind
    rw [tree, sign.tree_of_operator hop (tree_ne_number_of_isBare hbare), Expr.evaluate,
      Expr.evaluate_literal (by decide +kernel), pure_bind]
    exact hbind

/-- A variable behind signs has its value with the opposite sign for an odd number of minuses, and a
zero stays as it is. -/
theorem evaluate_of_isBare {n : Float} (hn : n.isFinite = true) (hzero : (n == 0) = false ∨ n = 0)
    (hx : source.lookup ctx x = pure (.number n)) {p : Phrase} (h : p.isBare x = true) :
    p.tree.evaluate ctx source = pure (.number (Number.signed p.minuses n)) :=
  related_of_isBare (.equality σ) hn hzero hx h

/-- Whether working signs out before evaluation makes no difference to a value: it is not zero, or
it is zero and no odd number of minuses stands before it. -/
def Folds (v : Value) (odd : Bool) : Prop :=
  ∀ n, v = .number n → (n == 0) = false ∨ n = 0 ∧ odd = false

/-- With fewer minuses a value still folds. -/
theorem Folds.mono {odd odd' : Bool} (h : Folds v odd) (hle : odd = false → odd' = false) :
    Folds v odd' := fun n hn => (h n hn).imp_right fun ⟨hzero, hnone⟩ => ⟨hzero, hle hnone⟩

/-- A number in place of a variable behind signs is evaluated like the variable. -/
theorem related_replace_of_isBare (C : Run.Congruence σ τ) {n : Float}
    (hn : n.isFinite = true) (hx : C.Related (source.lookup ctx x) (pure (.number n)))
    {p : Phrase} (h : p.isBare x = true) (hfold : Folds (.number n) (p.negates x)) :
    C.Related (p.tree.evaluate ctx source)
      ((p.replace x (.number n)).tree.evaluate ctx' target) := by
  have hcases := hfold n rfl
  have hrelated := related_of_isBare C hn (hcases.imp_right And.left) hx h
  have hsigned : Number.signed p.minuses n = Number.negated p.minuses n := by
    refine Number.signed_eq_negated (hcases.imp_right fun hzero => ?_)
    have hnone := hzero.2
    rw [negates_of_isBare h, beq_eq_false_iff_ne] at hnone
    exact (Nat.mod_two_eq_zero_or_one _).resolve_right hnone
  have hfinite : (Value.number (Number.negated p.minuses n)).isFinite = true :=
    (Number.isFinite_negated _ n).trans hn
  rwa [tree_replace_of_isBare h, Expr.evaluate_literal hfinite, ← hsigned]

mutual

/-- A phrase is evaluated as before with a literal in place of a variable, if the variable is
looked up as the value of the literal and any other variable as before. -/
theorem related_replace (C : Run.Congruence σ τ) (hv : v.isFinite = true)
    (hx : C.Related (source.lookup ctx x) (pure v))
    (hother : ∀ name, name ≠ x → C.Related (source.lookup ctx name) (target.lookup ctx' name))
    (p : Phrase) (hfold : Folds v (p.negates x)) :
    C.Related (p.tree.evaluate ctx source) ((p.replace x v).tree.evaluate ctx' target) := by
  cases p with
  | number y => exact C.ofExcept ((Value.number y).operational_finiteFrom _).computed
  | string s => exact C.ofExcept ((Value.string s).operational_finiteFrom _).computed
  | boolean b => exact C.ofExcept ((Value.boolean b).operational_finiteFrom _).computed
  | var name =>
    have hfinite (w : Value) : Computed (w.finiteFrom ("variable " ++ name)) :=
      (w.operational_finiteFrom _).computed
    rw [replace]
    split
    · next hname =>
      subst hname
      have hbind := C.bind hx fun w => C.ofExcept (hfinite w)
      rw [pure_bind, Value.finiteFrom, if_pos hv] at hbind
      rw [tree_ofValue, Expr.evaluate_literal hv]
      exact hbind
    · next hname => exact C.bind (hother name hname) fun w => C.ofExcept (hfinite w)
  | call name args => exact Expr.related_call C name (related_replaceAll C hv hx hother args hfold)
  | parenthesized p => exact related_replace C hv hx hother p hfold
  | signed sign p =>
    by_cases hbare : (signed sign p).isBare x = true ∧ ∃ n, v = .number n
    · -- The signs are worked out before evaluation with the literal, and during it before.
      obtain ⟨hbare, n, rfl⟩ := hbare
      exact related_replace_of_isBare C hv hx hbare hfold
    · have hfold' : Folds v (p.negates x) := by
        intro n hn
        have hcases := hfold n hn
        rwa [negates, if_neg fun h => hbare ⟨h, n, hn⟩] at hcases
      have hp := related_replace C hv hx hother p hfold'
      by_cases hnumber : ∃ y, p.tree = .number y
      · -- The sign was worked out before evaluation, and still is.
        obtain ⟨y, hy⟩ := hnumber
        have hsame : (p.replace x v).tree = p.tree := (tree_replace_of_number hy).trans hy.symm
        have hnone : (sign.tree p.tree).occurrences = [] := by
          rw [hy]
          cases sign <;> rfl
        rw [tree, replace, tree, hsame]
        exact Expr.related_evaluate C _ (by simp [hnone])
      · -- The sign is worked out during evaluation in both trees.
        cases sign with
        | negation => exact Expr.related_call C "not" (Expr.related_cons C hp (C.ofExcept (.ok [])))
        | minus | plus =>
          have hne : ∀ y, (p.replace x v).tree ≠ .number y := fun y hy =>
            (tree_of_replace_eq_number hy).elim (fun h => hnumber ⟨y, h⟩) hbare
          have hzero := C.ofExcept ((Value.number 0).operational_finiteFrom "literal").computed
          rw [tree, replace, tree, Sign.tree_of_operator _ rfl (not_exists.mp hnumber),
            Sign.tree_of_operator _ rfl hne]
          exact Expr.related_binary C _ hzero hp
  | binary op a b =>
    have ha := hfold.mono fun h => (Bool.or_eq_false_iff.mp h).1
    have hb := hfold.mono fun h => (Bool.or_eq_false_iff.mp h).2
    exact Expr.related_binary C op (related_replace C hv hx hother a ha)
      (related_replace C hv hx hother b hb)
  | conditional c a b =>
    have hca := hfold.mono fun h => (Bool.or_eq_false_iff.mp h).1
    have hc := hca.mono fun h => (Bool.or_eq_false_iff.mp h).1
    have ha := hca.mono fun h => (Bool.or_eq_false_iff.mp h).2
    have hb := hfold.mono fun h => (Bool.or_eq_false_iff.mp h).2
    exact Expr.related_conditional C (related_replace C hv hx hother c hc)
      (related_replace C hv hx hother a ha) (related_replace C hv hx hother b hb)

/-- A list of phrases is evaluated as before with a literal in place of a variable. -/
theorem related_replaceAll (C : Run.Congruence σ τ) (hv : v.isFinite = true)
    (hx : C.Related (source.lookup ctx x) (pure v))
    (hother : ∀ name, name ≠ x → C.Related (source.lookup ctx name) (target.lookup ctx' name))
    (ps : List Phrase) (hfold : Folds v (negatesAny x ps)) :
    C.Related (Expr.evaluateAll ctx source (trees ps))
      (Expr.evaluateAll ctx' target (trees (replaceAll x v ps))) := by
  cases ps with
  | nil => exact C.ofExcept (.ok [])
  | cons p rest =>
    have hp := hfold.mono fun h => (Bool.or_eq_false_iff.mp h).1
    have hrest := hfold.mono fun h => (Bool.or_eq_false_iff.mp h).2
    exact Expr.related_cons C (related_replace C hv hx hother p hp)
      (related_replaceAll C hv hx hother rest hrest)

end

end Phrase

end FormulaRules
