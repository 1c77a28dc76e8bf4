import FormulaRules.Function.Builtin
import Mathlib

/-!
# Registering functions

A registry is filled by registrations, one after the other, from the empty registry or from that of
the built-in functions on. Main statement: what it answers afterwards is told by the list of these
registrations. A name in any letter case finds the last function that was registered under it,
built-in functions included, and a call checks the numbers of arguments of that function.

Names with capital letters are left out: such a name is listed and never found.
-/

namespace FormulaRules

/-- The last function of a name in a list of functions. -/
def Function.last? (name : String) (fs : List Function) : Option Function :=
  (fs.filter fun f => f.name = name).getLast?

namespace Function

variable {f : Function} {fs : List Function} {name : String}

/-- A function at the end is the last one of its name. -/
theorem last?_append_singleton :
    last? name (fs ++ [f]) = if f.name = name then some f else last? name fs := by
  by_cases h : f.name = name
  · simp [last?, h]
  · simp [last?, h]

/-- There is a last function of a name unless there is none. -/
theorem last?_eq_none_iff : last? name fs = none ↔ ∀ f ∈ fs, f.name ≠ name := by
  simp [last?]

/-- A function takes the numbers of arguments between its fewest and its most. -/
theorem accepts_iff {count : Nat} :
    f.accepts count = true ↔ f.minArity ≤ count ∧ ∀ most ∈ f.maxArity, count ≤ most := by
  simp [accepts, Option.all_eq_true]

end Function

namespace Registry

variable {r : Registry} {f : Function} {fs : List Function}

/-- Register functions in order. -/
def registerAll (r : Registry) (fs : List Function) : Registry := fs.foldl register r

/-- A name is registered under itself and answers before all that was registered earlier. -/
theorem get?_register (query : String) :
    (r.register f).get? query = if f.name = Text.foldCase query then some f else r.get? query :=
  Dictionary.get?_insert r.functions f.name (Text.foldCase query) f

/-- A registration adds its name to the names. -/
theorem mem_names_register {name : String} :
    name ∈ (r.register f).names ↔ f.name = name ∨ name ∈ r.names := by
  simp only [names, Dictionary.mem_names_iff, Dictionary.contains, register, Dictionary.get?_insert]
  split
  · next h => simp [h]
  · next h => simp [h]

/-- Whether a registry answers as the functions of a list do that were registered in order. -/
structure Reflects (r : Registry) (history : List Function) : Prop where
  get?_eq : ∀ query, r.get? query = Function.last? (Text.foldCase query) history
  mem_names_iff : ∀ name, name ∈ r.names ↔ ∃ f ∈ history, f.name = name

/-- The empty registry reflects no registration. -/
theorem reflects_empty : Reflects .empty [] where
  get?_eq _ := rfl
  mem_names_iff name := by simp [names, empty, Dictionary.names, Dictionary.empty]

/-- One registration more is reflected. -/
theorem Reflects.register {history : List Function} (h : r.Reflects history) (f : Function) :
    (r.register f).Reflects (history ++ [f]) where
  get?_eq query := by rw [get?_register, Function.last?_append_singleton, h.get?_eq]
  mem_names_iff name := by
    rw [mem_names_register, h.mem_names_iff]
    simp [or_and_right, exists_or, or_comm]

/-- A run of registrations is reflected. -/
theorem Reflects.registerAll {history : List Function} (h : r.Reflects history)
    (fs : List Function) : (r.registerAll fs).Reflects (history ++ fs) := by
  induction fs generalizing r history with
  | nil => rwa [List.append_nil]
  | cons f rest ih =>
    have hrest := ih (h.register f)
    rwa [List.append_assoc, List.singleton_append] at hrest

/-- The registry of the built-in functions reflects their registrations. -/
theorem reflects_builtins : Reflects .builtins Builtin.all := reflects_empty.registerAll Builtin.all

/-- The built-in functions have names without capital letters. -/
theorem foldCase_name_of_mem_all : ∀ f ∈ Builtin.all, Text.foldCase f.name = f.name := by
  simp only [Builtin.all, List.forall_mem_cons]
  cbv
  decide

/-- A run of registrations, from the empty registry or from the built-in functions on, leaves a
registry that lists their names and finds the last function of a name in any letter case. A call
fails if there is none or if the function does not take as many arguments, and else it is that
function. -/
theorem answers_registerAll {start : Registry} {before : List Function}
    (hstart : start = .empty ∧ before = [] ∨ start = .builtins ∧ before = Builtin.all)
    (hfs : ∀ f ∈ fs, Text.foldCase f.name = f.name) :
    (start.registerAll fs).names.Pairwise (· < ·) ∧
    (∀ name, name ∈ (start.registerAll fs).names ↔ ∃ f ∈ before ++ fs, f.name = name) ∧
    (start.registerAll fs).size = (start.registerAll fs).names.length ∧
    ((start.registerAll fs).isEmpty = true ↔ (start.registerAll fs).names = []) ∧
    ∀ query, (start.registerAll fs).get? query =
        Function.last? (Text.foldCase query) (before ++ fs) ∧
      ((start.registerAll fs).get? query = none ↔
        ∀ f ∈ before ++ fs, Text.sameFolded f.name query = false) ∧
      ∀ args, (start.registerAll fs).call query args =
        match Function.last? (Text.foldCase query) (before ++ fs) with
        | none => .error (.unknownFunction query)
        | some f =>
          if f.minArity ≤ args.length ∧ ∀ most ∈ f.maxArity, args.length ≤ most then f.run args
          else .error (.arityMismatch f.name f.arityText args.length) := by
  have hreflects : (start.registerAll fs).Reflects (before ++ fs) := by
    rcases hstart with ⟨rfl, rfl⟩ | ⟨rfl, rfl⟩
    · exact reflects_empty.registerAll fs
    · exact reflects_builtins.registerAll fs
  have hsmall : ∀ f ∈ before ++ fs, Text.foldCase f.name = f.name := by
    rcases hstart with ⟨-, rfl⟩ | ⟨-, rfl⟩
    · exact hfs
    · exact List.forall_mem_append.mpr ⟨foldCase_name_of_mem_all, hfs⟩
  generalize start.registerAll fs = r at hreflects ⊢
  generalize before ++ fs = history at hreflects hsmall ⊢
  refine ⟨r.functions.names_ascending, hreflects.mem_names_iff, ?_, ?_, fun query => ?_⟩
  · exact (List.length_map _).symm
  · rw [isEmpty, names, Dictionary.isEmpty, Dictionary.names, List.isEmpty_iff, List.map_eq_nil_iff]
  · refine ⟨hreflects.get?_eq query, ?_, fun args => ?_⟩
    · rw [hreflects.get?_eq, Function.last?_eq_none_iff]
      refine forall₂_congr fun f hf => ?_
      rw [Text.sameFolded, hsmall f hf, beq_eq_false_iff_ne]
    · rw [call, hreflects.get?_eq]
      cases Function.last? (Text.foldCase query) history with
      | none => rfl
      | some f => simp only [Function.accepts_iff]

/-- The built-in `abs` is replaced by a function of two or three arguments, and `total` is new. -/
theorem answers_registerAll_replaced :
    let join : Function := ⟨"abs", 2, some 3, "Joined", fun _ => .ok (.string "joined")⟩
    let total : Function := ⟨"total", 1, none, "Counted", fun vs => .ok (.ofInt vs.length)⟩
    let r := builtins.registerAll [total, join]
    (∀ f ∈ [total, join], Text.foldCase f.name = f.name) ∧ "total" ∈ r.names ∧
    r.get? "ABS" = some join ∧ r.get? "median" = none ∧
    r.call "Abs" [.boolean true] = .error (.arityMismatch "abs" "2 to 3" 1) ∧
    r.call "abS" [.boolean true, .boolean false] = .ok (.string "joined") ∧
    r.call "Median" [] = .error (.unknownFunction "Median") := by
  intro join total r
  have hsmall : ∀ f ∈ [total, join], Text.foldCase f.name = f.name := by
    simp only [List.forall_mem_cons]
    cbv
    decide
  have habs : Function.last? "abs" (Builtin.all ++ [total, join]) = some join := by cbv
  have hmedian : Function.last? "median" (Builtin.all ++ [total, join]) = none := by cbv
  obtain ⟨-, hnames, -, -, hanswers⟩ := answers_registerAll (.inr ⟨rfl, rfl⟩) hsmall
  have hspelled : Text.foldCase "ABS" = "abs" ∧ Text.foldCase "Abs" = "abs" ∧
      Text.foldCase "abS" = "abs" ∧ Text.foldCase "median" = "median" ∧
      Text.foldCase "Median" = "median" := by
    cbv
    decide
  have htext : join.arityText = "2 to 3" := by cbv
  obtain ⟨hABS, hAbs, habS, hlower, hupper⟩ := hspelled
  refine ⟨hsmall, (hnames "total").mpr ⟨total, by simp, rfl⟩, ?_, ?_, ?_, ?_, ?_⟩
  · rw [(hanswers "ABS").1, hABS, habs]
  · rw [(hanswers "median").1, hlower, hmedian]
  · rw [(hanswers "Abs").2.2, hAbs, habs]
    simp [htext, join]
  · rw [(hanswers "abS").2.2, habS, habs]
    simp [join]
  · rw [(hanswers "Median").2.2, hupper, hmedian]

end Registry

end FormulaRules
