import FormulaRules.Proofs.Reading.Complete
import Mathlib

/-!
# The heights that a reading keeps

A reading carries the height of every tree it has built along with the tree, and compares only
this number with the limit. Main statement: on every node that is made on the way, in whatever
loop and behind whatever tokens, the number is the height of the tree, and within the limit.
-/

namespace FormulaRules.Expr.Reading

variable {α : Type}

/-- A reading has values with a property if every run that succeeds has one. -/
theorem satisfiesM_iff {P : α → Prop} {r : Reading α} :
    SatisfiesM P r ↔ ∀ c a c', r.run c = .ok (a, c') → P a := by
  rw [SatisfiesM_StateT_eq]
  simp only [SatisfiesM_Except_eq]
  exact ⟨fun h c a c' hrun => h c (a, c') hrun, fun h c p hrun => h c p.1 p.2 hrun⟩

/-- A reading that fails has no value. -/
theorem satisfiesM_fail {P : α → Prop} (cause : SyntaxCause) :
    SatisfiesM P (fail cause : Reading α) :=
  satisfiesM_iff.mpr nofun

/-- Reading deeper has the same values. -/
theorem satisfiesM_within {P : α → Prop} {r : Reading α} (h : SatisfiesM P r) :
    SatisfiesM P (within r) := by
  refine SatisfiesM.bind .trivial fun _ _ => SatisfiesM.bind h fun a ha =>
    SatisfiesM.bind .trivial fun c _ => ?_
  split
  · exact satisfiesM_fail _
  · exact SatisfiesM.bind .trivial fun _ _ => .pure ha

end FormulaRules.Expr.Reading

namespace FormulaRules.Expr

open Reading

/-- Whether the number kept with a tree is its height, and within the limit. -/
structure Node.IsExact (n : Node) : Prop where
  height_eq : n.height = n.expr.height
  height_le : n.height ≤ maxHeight

/-- A tree without children is one high. -/
theorem Node.isExact_leaf {e : Expr} (h : e.height = 1) : (leaf e).IsExact :=
  ⟨h.symm, (by decide : 1 ≤ maxHeight)⟩

namespace Reading

/-- A node is exact if its height is computed from those of its children. -/
theorem isExact_build {e : Expr} {heights : List Nat} (h : heights.foldl max 0 + 1 = e.height) :
    SatisfiesM Node.IsExact (build e heights) := by
  rw [build]
  split
  · exact satisfiesM_fail _
  · next hlow => exact .pure ⟨h, Nat.not_lt.mp hlow⟩

/-- Exact operands are joined to an exact node. -/
theorem isExact_join (op : Operator) {left right : Node} (hleft : left.IsExact)
    (hright : right.IsExact) : SatisfiesM Node.IsExact (join op left right) :=
  isExact_build (by simp [height, hleft.height_eq, hright.height_eq])

/-- A sign before an exact operand gives an exact node, also where it changes a literal. -/
theorem isExact_applySign (sign : Sign) {operand : Node} (h : operand.IsExact) :
    SatisfiesM Node.IsExact (applySign sign operand) := by
  have hzero : (leaf (.number 0)).IsExact := Node.isExact_leaf rfl
  unfold applySign
  split
  · exact .pure (Node.isExact_leaf rfl)
  · exact .pure (Node.isExact_leaf rfl)
  · exact isExact_join .subtract hzero h
  · exact isExact_join .add hzero h
  · exact isExact_build (by simp [height, heightAll, h.height_eq])

/-- A loop over operators keeps the node to the left exact. -/
theorem isExact_chain (ops : List Operator) {operand : Reading Node}
    (h : SatisfiesM Node.IsExact operand) (links : Nat) {left : Node} (hleft : left.IsExact) :
    SatisfiesM Node.IsExact (chain ops operand links left) := by
  induction links generalizing left with
  | zero => exact .pure hleft
  | succ links ih =>
    rw [chain]
    refine SatisfiesM.bind .trivial fun found _ => ?_
    split
    · split
      · refine SatisfiesM.bind .trivial fun _ _ => SatisfiesM.bind h fun right hright => ?_
        exact SatisfiesM.bind (isExact_join _ hleft hright) fun node hnode => ih hnode
      · exact .pure hleft
    · exact .pure hleft

/-- Operands that are joined give an exact node. -/
theorem isExact_chained (bound : Nat) (ops : List Operator) {operand : Reading Node}
    (h : SatisfiesM Node.IsExact operand) : SatisfiesM Node.IsExact (chained bound ops operand) :=
  SatisfiesM.bind h fun _ hfirst => isExact_chain ops h bound hfirst

/-- A conditional of exact parts is exact. -/
theorem isExact_ternary (bound : Nat) {operand nested : Reading Node}
    (hoperand : SatisfiesM Node.IsExact operand) (hnested : SatisfiesM Node.IsExact nested) :
    SatisfiesM Node.IsExact (ternary bound operand nested) := by
  have hoperation : SatisfiesM Node.IsExact (operation bound operand) :=
    isExact_chained bound _ (isExact_chained bound _ (isExact_chained bound _
      (isExact_chained bound _ (isExact_chained bound _ (isExact_chained bound _ hoperand)))))
  refine SatisfiesM.bind hoperation fun c hc => SatisfiesM.bind .trivial fun found _ => ?_
  split
  · refine SatisfiesM.bind .trivial fun _ _ => SatisfiesM.bind hnested fun a ha =>
      SatisfiesM.bind .trivial fun _ _ => SatisfiesM.bind hnested fun b hb => ?_
    exact isExact_build (by simp [height, hc.height_eq, ha.height_eq, hb.height_eq])
  · exact .pure hc

/-- All arguments are exact. -/
theorem isExact_arguments {nested : Reading Node} (h : SatisfiesM Node.IsExact nested)
    (count : Nat) : SatisfiesM (∀ n ∈ ·, n.IsExact) (arguments nested count) := by
  induction count with
  | zero => exact .pure fun n hn => absurd hn List.not_mem_nil
  | succ count ih =>
    rw [arguments]
    refine SatisfiesM.bind h fun arg harg => SatisfiesM.bind .trivial fun found _ => ?_
    split
    · refine SatisfiesM.bind .trivial fun _ _ => SatisfiesM.bind ih fun rest hrest => ?_
      exact .pure (List.forall_mem_cons.mpr ⟨harg, hrest⟩)
    · exact .pure (List.forall_mem_singleton.mpr harg)

/-- Exact nodes are those of their trees. -/
theorem map_node_of_isExact {nodes : List Node} (h : ∀ n ∈ nodes, n.IsExact) :
    (nodes.map Node.expr).map node = nodes := by
  rw [List.map_map]
  refine (List.map_congr_left fun n hn => ?_).trans (List.map_id' nodes)
  exact congrArg (Node.mk n.expr) (h n hn).height_eq.symm

/-- Behind its exact arguments a call is exact, also if there are none. -/
theorem isExact_closeCall (name : String) {args : List Node} (h : ∀ n ∈ args, n.IsExact) :
    SatisfiesM Node.IsExact (closeCall name args) := by
  refine SatisfiesM.bind .trivial fun _ _ => isExact_build ?_
  have hheights := foldl_max_heights (args.map Node.expr) 0
  rw [map_node_of_isExact h, Nat.zero_max] at hheights
  rw [hheights, height]

/-- A call is exact. -/
theorem isExact_callOf (bound : Nat) {nested : Reading Node} (h : SatisfiesM Node.IsExact nested)
    (name : String) : SatisfiesM Node.IsExact (callOf bound nested name) := by
  refine SatisfiesM.bind .trivial fun _ _ => SatisfiesM.bind .trivial fun found _ => ?_
  split
  · exact isExact_closeCall name fun n hn => absurd hn List.not_mem_nil
  · exact SatisfiesM.bind (isExact_arguments h bound) fun args => isExact_closeCall name

/-- A literal, a variable, a call or an expression in parentheses is exact. -/
theorem isExact_primary (bound : Nat) {nested : Reading Node} (h : SatisfiesM Node.IsExact nested) :
    SatisfiesM Node.IsExact (primary bound nested) := by
  have hleaf {e : Expr} (he : e.height = 1) :
      SatisfiesM Node.IsExact (advance >>= fun _ => pure (leaf e) : Reading Node) :=
    SatisfiesM.bind .trivial fun _ _ => .pure (Node.isExact_leaf he)
  refine SatisfiesM.bind .trivial fun found _ => ?_
  split
  · exact hleaf rfl
  · exact hleaf rfl
  · exact hleaf rfl
  · refine SatisfiesM.bind .trivial fun _ _ => SatisfiesM.bind .trivial fun next _ => ?_
    split
    · exact isExact_callOf bound h _
    · exact .pure (Node.isExact_leaf rfl)
  · refine SatisfiesM.bind .trivial fun _ _ => SatisfiesM.bind h fun inner hinner => ?_
    exact SatisfiesM.bind .trivial fun _ _ => .pure hinner
  · exact satisfiesM_fail _
  · exact satisfiesM_fail _

/-- An operand with or without a sign is exact. -/
theorem isExact_signed {operand primary : Reading Node}
    (hoperand : SatisfiesM Node.IsExact operand) (hprimary : SatisfiesM Node.IsExact primary) :
    SatisfiesM Node.IsExact (signed operand primary) := by
  refine SatisfiesM.bind .trivial fun found _ => ?_
  split
  · refine SatisfiesM.bind .trivial fun _ _ => SatisfiesM.bind hoperand fun inner hinner => ?_
    exact isExact_applySign _ hinner
  · exact hprimary

/-- The readings at every budget give exact nodes. -/
theorem isExact_levels (bound budget : Nat) :
    SatisfiesM Node.IsExact (levels bound budget).nested ∧
      SatisfiesM Node.IsExact (levels bound budget).operand := by
  induction budget with
  | zero =>
    have hnested : SatisfiesM Node.IsExact (levels bound 0).nested := satisfiesM_fail _
    exact ⟨hnested, isExact_signed (satisfiesM_fail _) (isExact_primary bound hnested)⟩
  | succ budget ih =>
    have hnested : SatisfiesM Node.IsExact (levels bound (budget + 1)).nested :=
      satisfiesM_within (isExact_ternary bound ih.2 ih.1)
    exact ⟨hnested, isExact_signed (satisfiesM_within ih.2) (isExact_primary bound hnested)⟩

/-- The readings of nodes that the reading of an expression is put together from. -/
inductive Part (bound : Nat) : Reading Node → Prop
  | nested (budget : Nat) : Part bound (levels bound budget).nested
  | operand (budget : Nat) : Part bound (levels bound budget).operand
  | primary {nested : Reading Node} : Part bound nested → Part bound (primary bound nested)
  | callOf {nested : Reading Node} (name : String) :
    Part bound nested → Part bound (callOf bound nested name)
  | chained {operand : Reading Node} (ops : List Operator) :
    Part bound operand → Part bound (chained bound ops operand)
  | ternary {operand nested : Reading Node} :
    Part bound operand → Part bound nested → Part bound (ternary bound operand nested)

/-- The nodes that a reading makes on the way: the results of its parts, arguments, the zero that a
sign puts before its operand, and what loops over operators and signs make of other nodes. -/
inductive Made (bound : Nat) : Node → Prop
  | result {r : Reading Node} {c c' : Cursor} {n : Node} :
    Part bound r → r.run c = .ok (n, c') → Made bound n
  | argument {nested : Reading Node} {count : Nat} {c c' : Cursor} {nodes : List Node} {n : Node} :
    Part bound nested → (arguments nested count).run c = .ok (nodes, c') → n ∈ nodes →
      Made bound n
  | zero : Made bound (leaf (.number 0))
  | joined {op : Operator} {left right n : Node} {c c' : Cursor} :
    Made bound left → Made bound right → (join op left right).run c = .ok (n, c') → Made bound n
  | chained {operand : Reading Node} {ops : List Operator} {links : Nat} {left n : Node}
    {c c' : Cursor} :
    Part bound operand → Made bound left →
      (chain ops operand links left).run c = .ok (n, c') → Made bound n
  | signed {sign : Sign} {operand n : Node} {c c' : Cursor} :
    Made bound operand → (applySign sign operand).run c = .ok (n, c') → Made bound n

/-- Every part gives exact nodes. -/
theorem Part.isExact {bound : Nat} {r : Reading Node} (h : Part bound r) :
    SatisfiesM Node.IsExact r := by
  induction h with
  | nested budget => exact (isExact_levels bound budget).1
  | operand budget => exact (isExact_levels bound budget).2
  | primary _ ih => exact isExact_primary bound ih
  | callOf name _ ih => exact isExact_callOf bound ih name
  | chained ops _ ih => exact isExact_chained bound ops ih
  | ternary _ _ ihoperand ihnested => exact isExact_ternary bound ihoperand ihnested

/-- Every node that is made on the way is exact. -/
theorem Made.isExact {bound : Nat} {n : Node} (h : Made bound n) : n.IsExact := by
  induction h with
  | result hpart hrun => exact satisfiesM_iff.mp hpart.isExact _ _ _ hrun
  | argument hpart hrun hmem =>
    exact satisfiesM_iff.mp (isExact_arguments hpart.isExact _) _ _ _ hrun _ hmem
  | zero => exact Node.isExact_leaf rfl
  | joined _ _ hrun ihleft ihright =>
    exact satisfiesM_iff.mp (isExact_join _ ihleft ihright) _ _ _ hrun
  | chained hpart _ hrun ih =>
    exact satisfiesM_iff.mp (isExact_chain _ hpart.isExact _ ih) _ _ _ hrun
  | signed _ hrun ih => exact satisfiesM_iff.mp (isExact_applySign _ ih) _ _ _ hrun

end Reading

end FormulaRules.Expr
