import FormulaRules.Command.Report

/-!
# The documents that commands show

A command shows at most one document, and the document of a calculation is an object with a few
named members. Main statement: the member with the variables lists a dictionary exactly, each of its
names once and with its value, and nothing else.
-/

namespace FormulaRules

universe u v

namespace Dictionary

variable {α : Type u} {β : Type v}

/-- Finding an entry in a list of named entries is looking up its name. -/
theorem find?_eq_lookup (name : String) (entries : List (String × α)) :
    find? name entries = entries.lookup name := by
  induction entries with
  | nil => rfl
  | cons head rest ih =>
    obtain ⟨key, entry⟩ := head
    by_cases h : key = name
    · subst h
      simp [find?]
    · simp [find?, h, ih, List.lookup_cons, beq_false_of_ne (Ne.symm h)]

/-- An entry that is changed with all others is found changed. -/
theorem find?_map (f : α → β) (name : String) (entries : List (String × α)) :
    find? name (entries.map fun p => (p.1, f p.2)) = (find? name entries).map f := by
  induction entries with
  | nil => rfl
  | cons head rest ih =>
    by_cases h : head.1 = name
    · simp [find?, h]
    · simp [find?, h, ih]

/-- Of entries with different names the order does not matter. -/
theorem find?_perm {left right : List (String × α)} (h : left.Perm right)
    (hnodup : (left.map Prod.fst).Nodup) (name : String) : find? name left = find? name right := by
  induction h with
  | nil => rfl
  | cons head _ ih =>
    have hrest := (List.nodup_cons.mp hnodup).2
    rw [find?, find?, ih hrest]
  | swap first second rest =>
    have hne : second.1 ≠ first.1 := by
      rw [List.map_cons, List.map_cons, List.nodup_cons] at hnodup
      exact fun heq => hnodup.1 (heq ▸ List.mem_cons_self)
    by_cases h : first.1 = name
    · have hsecond : second.1 ≠ name := h ▸ hne
      simp [find?, h, hsecond]
    · simp [find?, h]
  | trans hfirst _ ihfirst ihsecond =>
    exact (ihfirst hnodup).trans (ihsecond ((hfirst.map Prod.fst).nodup_iff.mp hnodup))

end Dictionary

/-- The document that is shown, if it is one. -/
def Output.json? : Output → Option Json
  | lines _ => none
  | document j | compact j => some j

/-- The document that a report shows, if it shows one. -/
def Report.json? (r : Report) : Option Json := r.output.bind Output.json?

namespace Json

/-- What a document has under a name. -/
def under? (name : String) : Json → Option Json
  | object members => member? name members
  | _ => none

/-- Whether a document lists a dictionary: it has each of its names once, with the document of its
value, and no other name. -/
def Lists (j : Json) (vars : Bindings) : Prop :=
  ∃ members, j = object members ∧ (members.map Prod.fst).Nodup ∧
    ∀ name, member? name members = (vars.get? name).map Value.toJson

end Json

/-- The document of variables lists them. -/
theorem Bindings.lists_toJson (vars : Bindings) : (toJson vars).Lists vars := by
  have hperm := List.mergeSort_perm vars.toList fun a b => decide (Json.quote a.1 ≤ Json.quote b.1)
  have hnames : (vars.toList.map Prod.fst).Nodup :=
    vars.names_ascending.imp String.ne_of_lt
  refine ⟨_, rfl, ?_, fun name => ?_⟩
  · rw [List.map_map]
    exact (hperm.map Prod.fst).nodup_iff.mpr hnames
  · have hsorted := Dictionary.find?_perm hperm.symm hnames name
    have hmembers := Dictionary.find?_map Value.toJson name
      (vars.toList.mergeSort fun a b => decide (Json.quote a.1 ≤ Json.quote b.1))
    rw [← hsorted] at hmembers
    rw [Json.member?, ← Dictionary.find?_eq_lookup]
    exact hmembers

namespace Calculation

/-- The document of a calculation has its value. -/
theorem under?_value (c : Calculation) :
    c.toJson.under? "value" = some (.ofFloat c.value) := rfl

/-- The document of a calculation has its variables. -/
theorem under?_variables (c : Calculation) :
    c.toJson.under? "variables" = some (Bindings.toJson c.bindings) := rfl

/-- The document of a calculation has the wording of its failure, if it has failed. -/
theorem under?_error (c : Calculation) :
    c.toJson.under? "error" = c.failure.map Json.string := by
  obtain ⟨value, formula, bindings, rule, failure⟩ := c
  cases rule <;> cases failure <;> rfl

end Calculation

end FormulaRules
