import FormulaRules.Expr

/-!
# The parts of a tree

A part of a tree is the tree itself or a part of one of its children. The names that a tree
collects are those of the variables among its parts, each once and in ascending order.
-/

namespace FormulaRules.Expr

/-- Whether a tree is a part of another one. -/
inductive IsPart (part : Expr) : Expr → Prop
  | whole : IsPart part part
  | left {op : Operator} {a b : Expr} : IsPart part a → IsPart part (binary op a b)
  | right {op : Operator} {a b : Expr} : IsPart part b → IsPart part (binary op a b)
  | condition {c a b : Expr} : IsPart part c → IsPart part (conditional c a b)
  | onTrue {c a b : Expr} : IsPart part a → IsPart part (conditional c a b)
  | onFalse {c a b : Expr} : IsPart part b → IsPart part (conditional c a b)
  | argument {name : String} {args : List Expr} {arg : Expr} :
    arg ∈ args → IsPart part arg → IsPart part (call name args)

/-- The occurrences in a list of trees are those in its members. -/
theorem mem_occurrencesAll_iff {name : String} {es : List Expr} :
    name ∈ occurrencesAll es ↔ ∃ e ∈ es, name ∈ e.occurrences := by
  induction es with
  | nil => simp [occurrencesAll]
  | cons e rest ih => simp [occurrencesAll, ih]

/-- A variable among the parts of a tree occurs in the tree. -/
theorem IsPart.mem_occurrences {name : String} {e : Expr} (h : (var name).IsPart e) :
    name ∈ e.occurrences := by
  induction h with
  | whole => exact List.mem_singleton_self name
  | left _ ih => exact List.mem_append_left _ ih
  | right _ ih => exact List.mem_append_right _ ih
  | condition _ ih => exact List.mem_append_left _ (List.mem_append_left _ ih)
  | onTrue _ ih => exact List.mem_append_left _ (List.mem_append_right _ ih)
  | onFalse _ ih => exact List.mem_append_right _ ih
  | argument harg _ ih => exact mem_occurrencesAll_iff.mpr ⟨_, harg, ih⟩

/-- A variable that occurs in a tree is among its parts. -/
theorem isPart_of_mem_occurrences {name : String} (e : Expr) (h : name ∈ e.occurrences) :
    (var name).IsPart e := by
  cases e with
  | literal v => cases h
  | var x =>
    obtain rfl := List.mem_singleton.mp h
    exact .whole
  | binary op a b =>
    rcases List.mem_append.mp h with ha | hb
    · exact .left (isPart_of_mem_occurrences a ha)
    · exact .right (isPart_of_mem_occurrences b hb)
  | conditional c a b =>
    rcases List.mem_append.mp h with hca | hb
    · rcases List.mem_append.mp hca with hc | ha
      · exact .condition (isPart_of_mem_occurrences c hc)
      · exact .onTrue (isPart_of_mem_occurrences a ha)
    · exact .onFalse (isPart_of_mem_occurrences b hb)
  | call f args =>
    obtain ⟨arg, harg, hname⟩ := mem_occurrencesAll_iff.mp h
    exact .argument harg (isPart_of_mem_occurrences arg hname)

/-- The variables of a tree are those that occur in it. -/
theorem mem_variableNames_iff_mem_occurrences {name : String} {e : Expr} :
    name ∈ e.variableNames ↔ name ∈ e.occurrences := by
  rw [variableNames, Dictionary.mem_names_ofList, List.map_map]
  exact Iff.of_eq (congrArg (name ∈ ·) (List.map_id' e.occurrences))

/-- The variables of a tree are those among its parts. -/
theorem mem_variableNames_iff {name : String} {e : Expr} :
    name ∈ e.variableNames ↔ (var name).IsPart e := by
  rw [mem_variableNames_iff_mem_occurrences]
  exact ⟨isPart_of_mem_occurrences e, IsPart.mem_occurrences⟩

/-- The variables of a tree ascend strictly. -/
theorem variableNames_ascending (e : Expr) : e.variableNames.Pairwise (· < ·) :=
  Dictionary.names_ascending _

end FormulaRules.Expr
