import FormulaRules.Proofs.Grammar

/-!
# Elaborating phrases within the limits

The tree of a phrase is built from left to right under a budget of levels, and the first limit
that is met is the error. This order of events is the one a reading from left to right has to
follow. Main statement: the elaboration succeeds exactly within both limits, and its result
is the tree of the phrase. It fails for nothing else.
-/

namespace FormulaRules

/-- A bind succeeds if both halves do. -/
theorem Except.bind_eq_ok_iff {ε α β : Type} {x : Except ε α} {f : α → Except ε β} {b : β} :
    x >>= f = .ok b ↔ ∃ a, x = .ok a ∧ f a = .ok b := by
  cases x with
  | error e => simp [bind, Except.bind]
  | ok a => simp [bind, Except.bind]

/-- A bind fails if one of its halves does. -/
theorem Except.bind_eq_error_iff {ε α β : Type} {x : Except ε α} {f : α → Except ε β} {e : ε} :
    x >>= f = .error e ↔ x = .error e ∨ ∃ a, x = .ok a ∧ f a = .error e := by
  cases x with
  | error e => simp [bind, Except.bind]
  | ok a => simp [bind, Except.bind]

/-- The error of an outcome, unless it has a value. -/
def Except.error? {ε α : Type} : Except ε α → Option ε
  | .ok _ => none
  | .error e => some e

/-- An outcome is an error if its error passes a check. -/
theorem Except.exists_of_any_error? {ε α : Type} {x : Except ε α} {p : ε → Bool}
    (h : (error? x).any p = true) : ∃ e, x = .error e ∧ p e = true := by
  cases x with
  | ok a => cases h
  | error e => exact ⟨e, rfl, h⟩

/-- Whether a cause is one of the two limits. -/
def SyntaxCause.IsLimit : SyntaxCause → Prop
  | nestedTooDeep | treeTooHigh => True
  | _ => False

/-- It is decided by the constructor whether a cause is one of the limits. -/
instance : DecidablePred SyntaxCause.IsLimit
  | .nestedTooDeep | .treeTooHigh => isTrue trivial
  | .emptyFormula | .unexpectedEnd | .unexpected _ | .missing _ _ | .trailing _ | .unbalanced
  | .strayCharacter _ | .singleCharacter _ | .numberOutOfRange _ | .malformedNumber _
  | .unterminatedString | .reported _ => isFalse not_false

/-- A tree that is not too high. -/
def Expr.bounded (e : Expr) : Except SyntaxCause Expr :=
  if maxHeight < e.height then .error .treeTooHigh else .ok e

/-- A tree is let through exactly if its height is within the limit. -/
theorem Expr.bounded_eq_ok_iff {e e' : Expr} :
    e.bounded = .ok e' ↔ e.height ≤ maxHeight ∧ e = e' := by
  unfold Expr.bounded
  split
  · next h => simp [Nat.not_le.mpr h]
  · next h => simp [Nat.not_lt.mp h]

/-- A tree is held back for its height only. -/
theorem Expr.isLimit_of_bounded {e : Expr} {cause : SyntaxCause} (h : e.bounded = .error cause) :
    cause.IsLimit := by
  unfold Expr.bounded at h
  split at h
  · cases h
    trivial
  · cases h

/-- Go on one level deeper, if the budget has a level left. -/
def deeper {α : Type} (f : Nat → Except SyntaxCause α) : Nat → Except SyntaxCause α
  | 0 => .error .nestedTooDeep
  | budget + 1 => f budget

/-- Going deeper succeeds with a budget above that of the inner part. -/
theorem deeper_eq_ok_iff {α : Type} {f : Nat → Except SyntaxCause α} {budget : Nat} {a : α} :
    deeper f budget = .ok a ↔ ∃ inner, budget = inner + 1 ∧ f inner = .ok a := by
  cases budget with
  | zero => simp [deeper]
  | succ inner => simp [deeper]

/-- Going deeper fails for the levels, or as the inner part does. -/
theorem isLimit_of_deeper {α : Type} {f : Nat → Except SyntaxCause α} {budget : Nat}
    {cause : SyntaxCause} (hf : ∀ inner, f inner = .error cause → cause.IsLimit)
    (h : deeper f budget = .error cause) : cause.IsLimit := by
  cases budget with
  | zero =>
    cases h
    trivial
  | succ inner => exact hf inner h

/-- Every tree is at least one high. -/
theorem Expr.height_pos (e : Expr) : 0 < e.height := by
  cases e with
  | literal | var => exact Nat.one_pos
  | binary | conditional | call => exact Nat.succ_pos _

/-- A sign does not make a tree lower. -/
theorem Expr.Reading.Sign.height_le_tree (sign : Expr.Reading.Sign) (e : Expr) :
    e.height ≤ (sign.tree e).height := by
  unfold tree
  split
  all_goals
    simp only [height, heightAll]
    omega

/-- A sign makes a tree at most one higher. -/
theorem Expr.Reading.Sign.height_tree_le (sign : Expr.Reading.Sign) (e : Expr) :
    (sign.tree e).height ≤ e.height + 1 := by
  have hpos := e.height_pos
  unfold tree
  split
  all_goals
    simp only [height, heightAll]
    omega

namespace Phrase

mutual

/-- The tree of a phrase under a budget of levels, or the first limit that is met. -/
def elaborate : Phrase → (budget : Nat) → Except SyntaxCause Expr
  | number x, _ => .ok (.number x)
  | string s, _ => .ok (.string s)
  | boolean b, _ => .ok (.boolean b)
  | var name, _ => .ok (.var name)
  | call name args, budget => do
    let es ← elaborateAll args budget
    (Expr.call name es).bounded
  | parenthesized p, budget => deeper p.elaborate budget
  | signed sign p, budget => do
    let e ← deeper p.elaborate budget
    (sign.tree e).bounded
  | binary op a b, budget => do
    let left ← a.elaborate budget
    let right ← b.elaborate budget
    (Expr.binary op left right).bounded
  | conditional c a b, budget => do
    let condition ← c.elaborate budget
    let onTrue ← deeper a.elaborate budget
    let onFalse ← deeper b.elaborate budget
    (Expr.conditional condition onTrue onFalse).bounded

/-- The trees of a list of arguments, each one level deeper. -/
def elaborateAll : List Phrase → (budget : Nat) → Except SyntaxCause (List Expr)
  | [], _ => .ok []
  | p :: rest, budget => do
    let e ← deeper p.elaborate budget
    let es ← elaborateAll rest budget
    return e :: es

end

mutual

/-- An elaboration succeeds exactly within both limits, and its result is the tree. -/
theorem elaborate_eq_ok_iff (p : Phrase) (budget : Nat) (e : Expr) :
    p.elaborate budget = .ok e ↔
      p.levels ≤ budget ∧ p.tree.height ≤ maxHeight ∧ p.tree = e := by
  cases p with
  | number x => simp [elaborate, levels, tree, Expr.height, maxHeight]
  | string s => simp [elaborate, levels, tree, Expr.height, maxHeight]
  | boolean b => simp [elaborate, levels, tree, Expr.height, maxHeight]
  | var name => simp [elaborate, levels, tree, Expr.height, maxHeight]
  | call name args =>
    simp only [elaborate, Except.bind_eq_ok_iff, elaborateAll_eq_ok_iff args,
      Expr.bounded_eq_ok_iff, levels, tree, Expr.height]
    constructor
    · rintro ⟨es, ⟨hlevels, -, rfl⟩, hheight, rfl⟩
      exact ⟨hlevels, hheight, rfl⟩
    · rintro ⟨hlevels, hheight, rfl⟩
      exact ⟨_, ⟨hlevels, by omega, rfl⟩, hheight, rfl⟩
  | parenthesized p =>
    simp only [elaborate, deeper_eq_ok_iff, elaborate_eq_ok_iff p, levels, tree]
    constructor
    · rintro ⟨inner, rfl, hlevels, hrest⟩
      exact ⟨by omega, hrest⟩
    · rintro ⟨hlevels, hrest⟩
      exact ⟨budget - 1, by omega, by omega, hrest⟩
  | signed sign p =>
    simp only [elaborate, Except.bind_eq_ok_iff, deeper_eq_ok_iff, elaborate_eq_ok_iff p,
      Expr.bounded_eq_ok_iff, levels, tree]
    have hle := sign.height_le_tree p.tree
    constructor
    · rintro ⟨_, ⟨inner, rfl, hlevels, -, rfl⟩, hheight, rfl⟩
      exact ⟨by omega, hheight, rfl⟩
    · rintro ⟨hlevels, hheight, rfl⟩
      exact ⟨_, ⟨budget - 1, by omega, by omega, by omega, rfl⟩, hheight, rfl⟩
  | binary op a b =>
    simp only [elaborate, Except.bind_eq_ok_iff, elaborate_eq_ok_iff a, elaborate_eq_ok_iff b,
      Expr.bounded_eq_ok_iff, levels, tree, Expr.height]
    constructor
    · rintro ⟨_, ⟨hleft, -, rfl⟩, _, ⟨hright, -, rfl⟩, hheight, rfl⟩
      exact ⟨by omega, hheight, rfl⟩
    · rintro ⟨hlevels, hheight, rfl⟩
      exact ⟨_, ⟨by omega, by omega, rfl⟩, _, ⟨by omega, by omega, rfl⟩, hheight, rfl⟩
  | conditional c a b =>
    simp only [elaborate, Except.bind_eq_ok_iff, deeper_eq_ok_iff, elaborate_eq_ok_iff c,
      elaborate_eq_ok_iff a, elaborate_eq_ok_iff b, Expr.bounded_eq_ok_iff, levels, tree,
      Expr.height]
    constructor
    · rintro ⟨_, ⟨hc, -, rfl⟩, _, ⟨i, rfl, ha, -, rfl⟩, _, ⟨j, hj, hb, -, rfl⟩, hheight, rfl⟩
      exact ⟨by omega, hheight, rfl⟩
    · rintro ⟨hlevels, hheight, rfl⟩
      exact ⟨_, ⟨by omega, by omega, rfl⟩, _, ⟨budget - 1, by omega, by omega, by omega, rfl⟩, _,
        ⟨budget - 1, by omega, by omega, by omega, rfl⟩, hheight, rfl⟩

/-- A list of arguments is elaborated exactly within both limits. -/
theorem elaborateAll_eq_ok_iff (ps : List Phrase) (budget : Nat) (es : List Expr) :
    elaborateAll ps budget = .ok es ↔
      levelsAll ps ≤ budget ∧ Expr.heightAll (trees ps) ≤ maxHeight ∧ trees ps = es := by
  cases ps with
  | nil => simp [elaborateAll, levelsAll, trees, Expr.heightAll]
  | cons p rest =>
    simp only [elaborateAll, Except.bind_eq_ok_iff, deeper_eq_ok_iff, elaborate_eq_ok_iff p,
      elaborateAll_eq_ok_iff rest, levelsAll, trees, Expr.heightAll, pure, Except.pure,
      Except.ok.injEq]
    constructor
    · rintro ⟨_, ⟨inner, rfl, hp, hheight, rfl⟩, _, ⟨hrest, hheights, rfl⟩, rfl⟩
      exact ⟨by omega, by omega, rfl⟩
    · rintro ⟨hlevels, hheight, rfl⟩
      exact ⟨_, ⟨budget - 1, by omega, by omega, by omega, rfl⟩, _,
        ⟨by omega, by omega, rfl⟩, rfl⟩

end

/-- One level deeper an elaboration succeeds with a budget above the levels of the phrase. -/
theorem deeper_elaborate_eq_ok_iff {p : Phrase} {budget : Nat} {e : Expr} :
    deeper p.elaborate budget = .ok e ↔
      p.levels + 1 ≤ budget ∧ p.tree.height ≤ maxHeight ∧ p.tree = e := by
  rw [deeper_eq_ok_iff]
  constructor
  · rintro ⟨inner, rfl, hbuild⟩
    obtain ⟨hlevels, hrest⟩ := (elaborate_eq_ok_iff p inner e).mp hbuild
    exact ⟨Nat.succ_le_succ hlevels, hrest⟩
  · rintro ⟨hlevels, hrest⟩
    refine ⟨budget - 1, by omega, (elaborate_eq_ok_iff p _ e).mpr ⟨by omega, hrest⟩⟩

mutual

/-- An elaboration fails for the limits only. -/
theorem isLimit_of_elaborate (p : Phrase) {budget : Nat} {cause : SyntaxCause}
    (h : p.elaborate budget = .error cause) : cause.IsLimit := by
  cases p with
  | number | string | boolean | var => cases h
  | call name args =>
    rw [elaborate, Except.bind_eq_error_iff] at h
    rcases h with hargs | ⟨es, -, hbounded⟩
    · exact isLimit_of_elaborateAll args hargs
    · exact Expr.isLimit_of_bounded hbounded
  | parenthesized p => exact isLimit_of_deeper (fun _ => isLimit_of_elaborate p) h
  | signed sign p =>
    rw [elaborate, Except.bind_eq_error_iff] at h
    rcases h with hoperand | ⟨e, -, hbounded⟩
    · exact isLimit_of_deeper (fun _ => isLimit_of_elaborate p) hoperand
    · exact Expr.isLimit_of_bounded hbounded
  | binary op a b =>
    simp only [elaborate, Except.bind_eq_error_iff] at h
    rcases h with hleft | ⟨_, -, hright | ⟨_, -, hbounded⟩⟩
    · exact isLimit_of_elaborate a hleft
    · exact isLimit_of_elaborate b hright
    · exact Expr.isLimit_of_bounded hbounded
  | conditional c a b =>
    simp only [elaborate, Except.bind_eq_error_iff] at h
    rcases h with hcondition | ⟨_, -, htrue | ⟨_, -, hfalse | ⟨_, -, hbounded⟩⟩⟩
    · exact isLimit_of_elaborate c hcondition
    · exact isLimit_of_deeper (fun _ => isLimit_of_elaborate a) htrue
    · exact isLimit_of_deeper (fun _ => isLimit_of_elaborate b) hfalse
    · exact Expr.isLimit_of_bounded hbounded

/-- A list of arguments is held back for the limits only. -/
theorem isLimit_of_elaborateAll (ps : List Phrase) {budget : Nat} {cause : SyntaxCause}
    (h : elaborateAll ps budget = .error cause) : cause.IsLimit := by
  cases ps with
  | nil => cases h
  | cons p rest =>
    simp only [elaborateAll, Except.bind_eq_error_iff] at h
    rcases h with hfirst | ⟨_, -, hrest | ⟨_, -, hpure⟩⟩
    · exact isLimit_of_deeper (fun _ => isLimit_of_elaborate p) hfirst
    · exact isLimit_of_elaborateAll rest hrest
    · cases hpure

end

end Phrase

end FormulaRules
