import Mathlib
import FormulaRules.Proofs.Command.Document
import FormulaRules.Proofs.RuleSet.Selection

/-!
# The variables of a command

A command takes its variables from the command line, from a file and from the settings, in this
order, and of two assignments on the command line to one name the later counts. Main statement: what
a command evaluates is evaluated as against one dictionary that has exactly these values, unless the
deadline comes on the way; and the record of a calculation in a JSON document lists exactly this
dictionary, also that of a calculation that fails. This holds for any readers of documents.

The deadline can come before any lookup. How much time passes before each of them is left open.
-/

namespace FormulaRules

/-- An outcome whose errors are changed is a value exactly if it was this value. -/
theorem Except.mapError_eq_ok_iff {ε ε' α : Type} {f : ε → ε'} {x : Except ε α} {a : α} :
    x.mapError f = .ok a ↔ x = .ok a := by
  cases x with
  | ok b => rw [Except.mapError, Except.ok.injEq, Except.ok.injEq]
  | error e => exact ⟨nofun, nofun⟩

namespace GivenVariables

/-- The variables of some members have the names of these, in the same order, and their values. -/
theorem names_and_values_of_take {members : List (String × Json)} {pairs : List (String × Value)}
    (h : members.mapM take = .ok pairs) : pairs.map Prod.fst = members.map Prod.fst ∧
      ∀ name, (Dictionary.find? name members).map Value.ofDocument =
        (Dictionary.find? name pairs).map .ok := by
  induction members generalizing pairs with
  | nil =>
    cases h
    exact ⟨rfl, fun name => rfl⟩
  | cons member rest ih =>
    rw [List.mapM_cons] at h
    obtain ⟨pair, hpair, h⟩ := Except.bind_eq_ok_iff.mp h
    obtain ⟨others, hothers, h⟩ := Except.bind_eq_ok_iff.mp h
    cases h
    obtain ⟨v, hv, hmember⟩ := Except.bind_eq_ok_iff.mp hpair
    cases hmember
    have hvalue : Value.ofDocument member.2 = .ok v :=
      Except.mapError_eq_ok_iff.mp (Except.mapError_eq_ok_iff.mp hv)
    obtain ⟨hnames, hvalues⟩ := ih hothers
    refine ⟨by rw [List.map_cons, List.map_cons, hnames], fun name => ?_⟩
    by_cases hname : member.1 = name
    · simp [Dictionary.find?, hname, hvalue]
    · simp [Dictionary.find?, hname, hvalues]

/-- The variables of a file are the members of its document, each with the value of its last
occurrence. -/
theorem exists_of_loadFile {formats : Formats} {files : Files} {path : String} {lower : Bindings}
    (h : loadFile files path formats = .ok lower) :
    ∃ text members, files path = .ok text ∧ documents? formats text = some members ∧
      ∀ name, (members.get? name).map Value.ofDocument = (lower.get? name).map .ok := by
  obtain ⟨text, htext, h⟩ := Except.bind_eq_ok_iff.mp h
  have hread : files path = .ok text :=
    Except.mapError_eq_ok_iff.mp (Except.mapError_eq_ok_iff.mp htext)
  split at h
  · cases h
  · next members hmembers =>
    obtain ⟨pairs, hpairs, h⟩ := Except.bind_eq_ok_iff.mp h
    cases h
    obtain ⟨hnames, hvalues⟩ := names_and_values_of_take hpairs
    have hascending : Ascending pairs :=
      List.pairwise_map.mp (hnames ▸ List.pairwise_map.mpr members.ascending)
    refine ⟨text, members, hread, hmembers, fun name => ?_⟩
    rw [Dictionary.get?_ofList, Dictionary.find?_reverse hascending, ← hvalues, Dictionary.get?]

/-- The assignments are laid over the variables of the file. -/
theorem load_of_loadBelow {formats : Formats} {files : Files} {given : GivenVariables}
    {lower : Bindings} (h : given.loadBelow files formats = .ok lower) :
    given.load files formats = .ok (given.laidOver lower) := by
  rw [load, h]
  rfl

end GivenVariables

namespace Settings

/-- The variables of a command: the assignments over those of its file, and these over the
defaults. -/
def merged (s : Settings) (given : GivenVariables) (lower : Bindings) : Bindings :=
  (given.laidOver lower).layOver s.defaults

/-- The dictionaries of a command, put together as its source is. -/
def sources (s : Settings) (vars : Bindings) : Composition :=
  .checked (.layered (.dictionary vars) (.dictionary s.defaults))

/-- The dictionaries of a command have its variables. -/
theorem bindings_sources (s : Settings) (given : GivenVariables) (lower : Bindings) :
    (s.sources (given.laidOver lower)).bindings = s.merged given lower := rfl

/-- The last assignment to a name counts, then the file, then the defaults. -/
theorem get?_merged (s : Settings) (given : GivenVariables) (lower : Bindings) (name : String) :
    (s.merged given lower).get? name =
      (given.assignments.reverse.lookup name).or ((lower.get? name).or (s.defaults.get? name)) := by
  rw [merged, Dictionary.get?_layOver, GivenVariables.laidOver, Dictionary.get?_foldl_insert,
    Dictionary.find?_eq_lookup, Option.or_assoc]

/-- Whether an error says that the deadline has come, and it comes within some time. -/
def Late (s : Settings) (time : Nat) (e : EvalError) : Prop :=
  e = .deadlineExceeded ∧ ∃ deadline, s.deadline = some deadline ∧ deadline ≤ time

/-- A command has no token, so it is only stopped when the deadline has come. -/
theorem late_of_stop? {s : Settings} {w : World (List Nat)} {e : EvalError} {time : Nat}
    (h : s.context.stop? w = some e) (hnow : w.now ≤ time) : s.Late time e := by
  rw [Context.stop?] at h
  split at h
  · next hcancelled => cases hcancelled
  · split at h
    · next hexpired =>
      cases h
      obtain ⟨deadline, hdeadline, hle⟩ := (Option.any_eq_true ..).mp hexpired
      exact ⟨rfl, deadline, hdeadline, Nat.le_trans (of_decide_eq_true hle) hnow⟩
    · cases h

end Settings

/-- The time that has passed and the time that is to pass add up to the same at every moment. -/
theorem World.now_add_sum_tick (w : World (List Nat)) :
    w.tick.now + w.tick.store.sum = w.now + w.store.sum := by
  obtain ⟨cancelled, now, store⟩ := w
  cases store with
  | nil => rfl
  | cons time rest => simp [tick, Nat.add_assoc]

/-- The source of a command lets time pass and then asks its dictionaries. -/
theorem Settings.run_lookup_resolver (s : Settings) (vars : Bindings) (name : String)
    (w : World (List Nat)) :
    ((s.resolver vars).lookup s.context name).run.run w =
      ((s.sources vars).resolver.lookup s.context name).run.run w.tick := rfl

/-- The source of a command looks its variables up in one dictionary, unless the deadline has come.
The time that passes before each lookup is taken off the time that is to pass. -/
theorem Settings.simulates_lookup {τ : Type} (s : Settings) (given : GivenVariables)
    (lower : Bindings) (ctx : Context) (time : Nat) (name : String) :
    Run.Simulates (fun w _ => w.now + w.store.sum = time) (s.Late time) Eq
      ((s.resolver (given.laidOver lower)).lookup s.context name)
      ((Resolver.ofBindings (s.merged given lower) : Resolver τ).lookup ctx name) := by
  intro w v htime
  have hleft : w.tick.now + w.tick.store.sum = time := w.now_add_sum_tick.trans htime
  rw [run_lookup_resolver, Resolver.run_lookup_ofBindings]
  rcases (s.sources (given.laidOver lower)).run_lookup s.context name w.tick with
    hanswer | ⟨e, hstop, hfails⟩
  · rw [hanswer, bindings_sources]
    cases (s.merged given lower).answer name with
    | ok value => exact .ok rfl hleft
    | error e => exact .error hleft
  · rw [hfails]
    exact .excused (late_of_stop? hstop (hleft ▸ Nat.le_add_right _ _))

/-- Whether an outcome is the error of an evaluation that was stopped for the deadline, and the
deadline comes within some time. -/
def Settings.Stopped {α : Type} (s : Settings) (time : Nat) (outcome : Except FormulaError α) :
    Prop :=
  ∃ x, outcome = .error x ∧ x.Excused (s.Late time)

/-- An evaluation at a pace that is simulated has the same outcome, or is stopped for the
deadline. -/
theorem Run.Simulates.answer_eq_or_stopped {τ α : Type} {s : Settings} {pace : List Nat}
    {R : α → α → Prop} {r : Run (List Nat) FormulaError α} {t : Run τ FormulaError α}
    (h : Simulates (fun w (_ : World τ) => w.now + w.store.sum = pace.sum)
      (FormulaError.Excused (s.Late pace.sum)) R r t)
    (hvalue : ∀ a b, R a b → a = b) (v : World τ) :
    Report.answer pace r = t.outcome v ∨ s.Stopped pace.sum (Report.answer pace r) := by
  have hstart : (World.start pace).now + (World.start pace).store.sum = pace.sum :=
    Nat.zero_add pace.sum
  exact (h hstart (v := v)).eq_or_excused hvalue

namespace Report

/-- The document of a calculation has the variables it is given. -/
theorem under?_variables_ofCalculation {s : Settings} (h : s.format = .json) (formula : String)
    (vars : Bindings) (outcome : Except FormulaError Float) :
    (ofCalculation s formula vars outcome).json?.bind (Json.under? "variables") =
      some (Bindings.toJson vars) := by
  cases outcome with
  | ok value =>
    rw [ofCalculation, h]
    exact Calculation.under?_variables _
  | error x =>
    rw [ofCalculation, failedCalculation, h]
    exact Calculation.under?_variables _

/-- The document of a calculation by rules has the variables it is given, if the calculation has put
them on record. -/
theorem under?_variables_ofRules {s : Settings} (h : s.format = .json) (rules : List Rule)
    (vars : Bindings) (outcome : Except FormulaError Calculation)
    (hbindings : ∀ c, outcome = .ok c → c.bindings = vars) :
    (ofRules s rules vars outcome).json?.bind (Json.under? "variables") =
      some (Bindings.toJson vars) := by
  cases outcome with
  | ok c =>
    rw [ofRules, h, ← hbindings c rfl]
    exact Calculation.under?_variables _
  | error x =>
    rw [ofRules, failedCalculation, h]
    exact Calculation.under?_variables _

end Report

/-- Rules are evaluated against the source of a command as against one dictionary, unless the
deadline comes. -/
theorem RuleSet.simulates_evaluate_command {τ : Type} (s : Settings) (given : GivenVariables)
    (lower : Bindings) (ctx : Context) (time : Nat) (rules : List Rule) :
    Run.Simulates (fun w (_ : World τ) => w.now + w.store.sum = time)
      (FormulaError.Excused (s.Late time)) (Calculation.Alike Eq)
      (evaluate s.context (s.resolver (given.laidOver lower)) rules)
      (evaluate ctx (.ofBindings (s.merged given lower)) rules) :=
  simulates_evaluateFrom (fun name => s.simulates_lookup given lower ctx time name)
    (fun _ _ htime => ⟨rfl, htime⟩) 0 rules

/-- Rules put on record what their source names. -/
theorem RuleSet.bindings_of_evaluate {σ : Type} {ctx : Context} {source : Resolver σ}
    {vars : Bindings} (hall : ∀ w, (source.all.run w).1 = vars) {rules : List Rule} {w : World σ}
    {c : Calculation} (h : (evaluate ctx source rules).outcome w = .ok c) : c.bindings = vars := by
  have hrun : (evaluateFrom ctx source 0 rules).run.run w =
      (.ok c, ((evaluate ctx source rules).run.run w).2) := Prod.ext h rfl
  obtain ⟨-, -, -, -, -, last, -, -, -, -, hbindings, -⟩ := exists_of_evaluateFrom_ok hrun
  rw [← hall last, hbindings]

/-- The variables of a command are the values of the last assignments to their names, else those of
the file, else the defaults; a file gives each name the value of its last member. Calculations,
checks and rules are evaluated as against a dictionary of exactly these, which misses every other
name, unless the deadline comes within the time that passes and stops them. The JSON document of a
calculation, with rules or without, lists this dictionary whether or not it fails. -/
theorem variables_of_command (formats : Formats) (s : Settings) (files : Files)
    (given : GivenVariables) (lower : Bindings) (h : given.loadBelow files formats = .ok lower) :
    let merged := s.merged given lower
    let source : Resolver Unit := .ofBindings merged
    let ctx := Context.background
    let w := World.start ()
    (∀ name, merged.get? name =
      (given.assignments.reverse.lookup name).or ((lower.get? name).or (s.defaults.get? name))) ∧
    (∀ path, given.file = some path → ∃ text members, files path = .ok text ∧
      GivenVariables.documents? formats text = some members ∧
      ∀ name, (members.get? name).map Value.ofDocument = (lower.get? name).map .ok) ∧
    (given.file = none → ∀ name, lower.get? name = none) ∧
    (∀ name, (source.lookup ctx name).outcome w = match merged.get? name with
      | some v => .ok v
      | none => .error (.variableNotFound name)) ∧
    (∀ pace formula, ∃ outcome, Report.calculate s files pace formula given formats =
        Report.ofCalculation s formula merged outcome ∧
      (outcome = (Formula.calculate ctx source formula).outcome w ∨ s.Stopped pace.sum outcome)) ∧
    (∀ pace condition, ∃ outcome, Report.check s files pace condition given formats =
        Report.ofCheck s condition outcome ∧
      (outcome = (Condition.holds ctx source condition).outcome w ∨ s.Stopped pace.sum outcome)) ∧
    (∀ pace path rules, RuleSet.load files path formats = .ok rules → ∃ outcome,
      Report.applyRules s files pace path given formats = Report.ofRules s rules merged outcome ∧
      (outcome = (RuleSet.evaluate ctx source rules).outcome w ∨ s.Stopped pace.sum outcome)) ∧
    (s.format = .json → ∃ listed : Json, listed.Lists merged ∧
      (∀ pace formula, (Report.calculate s files pace formula given formats).json?.bind
        (Json.under? "variables") = some listed) ∧
      ∀ pace path rules, RuleSet.load files path formats = .ok rules →
        (Report.applyRules s files pace path given formats).json?.bind (Json.under? "variables") =
          some listed) := by
  intro merged source ctx w
  have hload := GivenVariables.load_of_loadBelow h
  have hboth (path : String) (rules : List Rule)
      (hrules : RuleSet.load files path formats = .ok rules) :
      Report.loadBoth files path given formats = .ok (rules, given.laidOver lower) := by
    rw [Report.loadBoth, hrules, hload]
    rfl
  have hlookups (time : Nat) (name : String) :=
    s.simulates_lookup (τ := Unit) given lower ctx time name
  refine ⟨s.get?_merged given lower, fun path hpath => ?_, fun hnone name => ?_, fun name => ?_,
    fun pace formula => ?_, fun pace condition => ?_, fun pace path rules hrules => ?_,
    fun hjson => ?_⟩
  · rw [GivenVariables.loadBelow, hpath] at h
    exact GivenVariables.exists_of_loadFile h
  · rw [GivenVariables.loadBelow, hnone] at h
    cases h
    exact Dictionary.get?_empty name
  · rw [Run.outcome, Resolver.run_lookup_ofBindings]
    rfl
  · refine ⟨_, by rw [Report.calculate, hload]; rfl, ?_⟩
    exact (Formula.simulates_calculate (hlookups pace.sum) formula).answer_eq_or_stopped
      (fun _ _ => id) w
  · refine ⟨_, by rw [Report.check, hload], ?_⟩
    exact (Condition.simulates_holds (hlookups pace.sum) condition).answer_eq_or_stopped
      (fun _ _ => id) w
  · refine ⟨_, by rw [Report.applyRules, hboth path rules hrules]; rfl, ?_⟩
    exact (RuleSet.simulates_evaluate_command s given lower ctx pace.sum rules).answer_eq_or_stopped
      (fun _ _ => Calculation.Alike.eq) w
  · refine ⟨Bindings.toJson merged, Bindings.lists_toJson merged, fun pace formula => ?_,
      fun pace path rules hrules => ?_⟩
    · rw [Report.calculate, hload]
      exact Report.under?_variables_ofCalculation hjson formula merged _
    · rw [Report.applyRules, hboth path rules hrules]
      exact Report.under?_variables_ofRules hjson rules merged _ fun c hc =>
        RuleSet.bindings_of_evaluate (fun _ => rfl) hc

/-- A file names a tier twice, the command line gives another one and changes its mind about the
rush, and the settings have a currency. A check that ends before the deadline is not stopped, and a
calculation that comes to a missing variable lists all the others. -/
theorem variables_of_command_shadowed :
    let files : Files := fun path =>
      if path = "order.json" then
        .ok "\x7b\"tier\": \"none\", \"region\": \"north\", \"tier\": \"silver\"\x7d"
      else .error .notFound
    let given : GivenVariables :=
      ⟨[("rush", .boolean false), ("tier", .string "gold"), ("rush", .boolean true)],
        some "order.json"⟩
    let s : Settings :=
      { format := .json
        deadline := some 10
        defaults := Dictionary.ofList [("region", .string "south"), ("currency", .string "EUR")] }
    ∃ lower, given.loadBelow files .standard = .ok lower ∧
      (s.merged given lower).get? "rush" = some (.boolean true) ∧
      (s.merged given lower).get? "tier" = some (.string "gold") ∧
      (s.merged given lower).get? "region" = some (.string "north") ∧
      (s.merged given lower).get? "currency" = some (.string "EUR") ∧
      (s.merged given lower).get? "weight" = none ∧
      Report.check s files [4, 5] "rush && tier == 'gold'" given .standard =
        Report.ofCheck s "rush && tier == 'gold'"
          ((Condition.holds Context.background
            (.ofBindings (s.merged given lower) : Resolver Unit)
            "rush && tier == 'gold'").outcome (World.start ())) ∧
      ∃ listed : Json, listed.Lists (s.merged given lower) ∧
        (Report.calculate s files [4, 8] "weight * 2" given .standard).json?.bind
          (Json.under? "variables") = some listed := by
  intro files given s
  have hfile : (given.loadBelow files .standard).toOption.any (fun lower =>
      (lower.get? "region").any (· == .string "north") &&
        (!lower.contains "currency" && !lower.contains "weight")) = true := by
    decide +kernel +revert
  cases hload : given.loadBelow files .standard with
  | error e =>
    rw [hload] at hfile
    cases hfile
  | ok lower =>
    rw [hload] at hfile
    obtain ⟨hregion, hothers⟩ := (Bool.and_eq_true ..).mp hfile
    obtain ⟨v, hv, hnorth⟩ := (Option.any_eq_true ..).mp hregion
    obtain rfl : v = .string "north" := by
      cases v with
      | string text => rw [eq_of_beq (show (text == "north") = true from hnorth)]
      | number | boolean => cases hnorth
    have hmissing (name : String) (h : (!lower.contains name) = true) : lower.get? name = none := by
      simpa [Dictionary.contains] using h
    obtain ⟨hcurrency, hweight⟩ := (Bool.and_eq_true ..).mp hothers
    obtain ⟨hget, -, -, -, -, hcheck, -, hjson⟩ :=
      variables_of_command .standard s files given lower hload
    refine ⟨lower, rfl, ?_, ?_, ?_, ?_, ?_, ?_, ?_⟩
    · rw [hget]
      rfl
    · rw [hget]
      rfl
    · rw [hget, hv]
      rfl
    · rw [hget, hmissing _ hcurrency]
      rfl
    · rw [hget, hmissing _ hweight]
      rfl
    · obtain ⟨outcome, hreport, hsame | hstopped⟩ := hcheck [4, 5] "rush && tier == 'gold'"
      · rw [hreport, hsame]
      · obtain ⟨-, -, -, -, -, deadline, hdeadline, hlate⟩ := hstopped
        cases hdeadline
        exact absurd hlate (by decide)
    · obtain ⟨listed, hlists, hcalculation, -⟩ := hjson rfl
      exact ⟨listed, hlists, hcalculation [4, 8] _⟩

end FormulaRules
