import FormulaRules.Proofs.Command.Document
import FormulaRules.Proofs.Evaluation.Finite

/-!
# What a command shows and how it ends

A command shows its result or fails, and what it shows never contradicts how it ends. Main
statement: written for people, a command fails exactly if it shows nothing. Written as JSON, a
command that ends well shows one document without an error, and a document with an error is shown
exactly by a command that fails, with the wording of the error that it fails with. The value of a
calculation is null exactly if the command fails, which rests on all results being finite.
-/

namespace FormulaRules

/-- The error of the formula or the rules at the root of a failure, if it comes from them. -/
def Failure.engineError? : Failure → Option FormulaError
  | formula e => some e
  | during _ cause => cause.engineError?
  | _ => none

/-- A text of at least one line is not blank. -/
theorem Output.text_lines_ne (formats : Formats) (line : String) (rest : List String) :
    (lines (line :: rest)).text formats ≠ "" := by
  intro h
  have hlist := congrArg String.toList h
  rw [text, String.toList_join, List.map_cons, List.flatMap_cons, String.toList_append] at hlist
  simp at hlist

/-- The text of a document is what is written of it on one line or over several, and the end of the
line. -/
theorem Output.text_of_json? (formats : Formats) {output : Output} {doc : Json}
    (h : output.json? = some doc) :
    output.text formats = formats.writePretty doc ++ "\n" ∨
      output.text formats = formats.writeCompact doc ++ "\n" := by
  cases output with
  | lines ls => cases h
  | document j =>
    cases h
    exact .inl rfl
  | compact j =>
    cases h
    exact .inr rfl

namespace Report

/-- What a command shows and how it ends, in agreement. -/
inductive Agrees (format : OutputFormat) : Report → Prop
  /-- It ends well and shows some lines. -/
  | lines {line : String} {rest : List String} :
    format = .text → Agrees format (shown (.lines (line :: rest)))
  /-- It ends well and shows a document without an error. -/
  | document {output : Output} {doc : Json} : format = .json → output.json? = some doc →
    doc.under? "error" = none → Agrees format (shown output)
  /-- It fails and shows nothing. -/
  | silent (failure : Failure) : Agrees format (failed failure)
  /-- It fails and shows a document with its error. -/
  | record {output : Output} {doc : Json} {failure : Failure} {e : FormulaError} :
    format = .json → output.json? = some doc → failure.engineError? = some e →
      doc.under? "error" = some (.string e.message) → Agrees format ⟨some output, some failure⟩

/-- A calculation that fails is put on record as such. -/
theorem agrees_failedCalculation (s : Settings) (formula : String) (vars : Bindings)
    (e : FormulaError) : Agrees s.format (failedCalculation s formula vars e) := by
  rw [failedCalculation]
  cases hformat : s.format with
  | text => exact .silent _
  | json => exact .record rfl rfl rfl (Calculation.under?_error _)

/-- The report of a calculation agrees with its outcome. -/
theorem agrees_ofCalculation (s : Settings) (formula : String) (vars : Bindings)
    (outcome : Except FormulaError Float) :
    Agrees s.format (ofCalculation s formula vars outcome) := by
  cases outcome with
  | error e => exact agrees_failedCalculation s formula vars e
  | ok value =>
    rw [ofCalculation]
    cases hformat : s.format with
    | text => exact .lines rfl
    | json => exact .document rfl rfl (Calculation.under?_error _)

/-- The report of a check agrees with its outcome. -/
theorem agrees_ofCheck (s : Settings) (condition : String) (outcome : Except FormulaError Bool) :
    Agrees s.format (ofCheck s condition outcome) := by
  cases outcome with
  | error e => exact .silent _
  | ok holds =>
    rw [ofCheck]
    cases hformat : s.format with
    | text => exact .lines rfl
    | json => exact .document rfl rfl rfl

/-- The report of a calculation by rules agrees with its outcome, if a calculation that is given has
not failed. -/
theorem agrees_ofRules (s : Settings) (rules : List Rule) (vars : Bindings)
    (outcome : Except FormulaError Calculation)
    (hsuccess : ∀ c, outcome = .ok c → c.failure = none) :
    Agrees s.format (ofRules s rules vars outcome) := by
  cases outcome with
  | error e => exact agrees_failedCalculation s "" vars e
  | ok c =>
    rw [ofRules]
    cases hformat : s.format with
    | text => exact .lines rfl
    | json =>
      refine .document rfl rfl ?_
      rw [Calculation.under?_error, hsuccess c rfl]
      rfl

/-- The report of a text that was checked agrees with the outcome. -/
theorem agrees_ofValidation (s : Settings) (kind : TextKind) (outcome : Except FormulaError Unit) :
    Agrees s.format (ofValidation s kind outcome) := by
  rw [ofValidation.eq_def]
  cases outcome with
  | ok u =>
    cases hformat : s.format with
    | text => exact .lines rfl
    | json => exact .document rfl rfl rfl
  | error e =>
    cases hformat : s.format with
    | text => exact .silent _
    | json => exact .record rfl rfl rfl rfl

/-- The document about an expression has no error. -/
theorem under?_error_explainDocument (e : Expr) :
    (explainDocument e).under? "error" = none := by
  rw [explainDocument, Json.sorted, Json.under?, Json.member?, ← Dictionary.find?_eq_lookup]
  exact Dictionary.get?_ofList _ _

/-- The report of an explanation agrees with its outcome. -/
theorem agrees_explain (s : Settings) (formula : String) :
    Agrees s.format (explain s formula) := by
  rw [explain]
  cases Formula.parse formula with
  | error e => exact .silent _
  | ok e =>
    cases hformat : s.format with
    | text => exact .lines rfl
    | json => exact .document rfl rfl (under?_error_explainDocument e)

/-- The report of a calculation by the rules of a file agrees with how it ends. -/
theorem agrees_applyRules (s : Settings) (files : Files) (pace : List Nat) (path : String)
    (given : GivenVariables) (formats : Formats) :
    Agrees s.format (applyRules s files pace path given formats) := by
  rw [applyRules]
  cases loadBoth files path given formats with
  | error e => exact .silent e
  | ok loaded =>
    obtain ⟨rules, vars⟩ := loaded
    refine agrees_ofRules s rules _ _ fun c hc => ?_
    -- Rules fail as a whole, and the calculation that they give is never the record of a failure.
    obtain ⟨-, rule, -, -, -, -, -, -, -, -, -, hrecord⟩ :=
      RuleSet.exists_of_evaluateFrom_ok (Prod.ext hc rfl)
    exact congrArg Calculation.failure hrecord

/-- What a command shows agrees with how it ends. -/
theorem agrees_ofCommand (s : Settings) (files : Files) (pace : List Nat) (command : Command)
    (formats : Formats) : Agrees s.format (ofCommand s files pace command formats) := by
  cases command with
  | calculate formula given =>
    rw [ofCommand, calculate]
    cases given.load files formats with
    | error e => exact .silent e
    | ok vars => exact agrees_ofCalculation ..
  | check condition given =>
    rw [ofCommand, check]
    cases given.load files formats with
    | error e => exact .silent e
    | ok vars => exact agrees_ofCheck ..
  | rules path given => exact agrees_applyRules s files pace path given formats
  | validate text kind => cases kind <;> exact agrees_ofValidation ..
  | explain formula => exact agrees_explain s formula

/-- In a report for people that agrees with how its command ends, failing is showing nothing. -/
theorem Agrees.text {r : Report} (h : Agrees .text r) (formats : Formats) :
    r.failure.isSome = true ↔ r.text formats = "" := by
  cases h with
  | lines _ => exact ⟨nofun, fun hblank => absurd hblank (Output.text_lines_ne formats _ _)⟩
  | document hformat _ _ => cases hformat
  | silent failure => exact ⟨fun _ => rfl, fun _ => rfl⟩
  | record hformat _ _ _ => cases hformat

/-- A JSON report that agrees with how its command ends shows one document, or nothing if the
command fails. -/
theorem Agrees.json {r : Report} (h : Agrees .json r) (formats : Formats) :
    (r.text formats = "" ∧ r.failure.isSome = true) ∨ ∃ doc, r.json? = some doc ∧
      (r.text formats = formats.writePretty doc ++ "\n" ∨
        r.text formats = formats.writeCompact doc ++ "\n") := by
  cases h with
  | lines hformat => cases hformat
  | document _ hdoc _ => exact .inr ⟨_, hdoc, Output.text_of_json? formats hdoc⟩
  | silent failure => exact .inl ⟨rfl, rfl⟩
  | record _ hdoc _ _ => exact .inr ⟨_, hdoc, Output.text_of_json? formats hdoc⟩

/-- The document of a report that agrees with how its command ends has the wording of the error
that the command fails with, and none if it ends well. -/
theorem Agrees.under?_error {r : Report} {format : OutputFormat} (h : Agrees format r) {doc : Json}
    (hdoc : r.json? = some doc) : (r.failure = none ∧ doc.under? "error" = none) ∨
      ∃ failure e, r.failure = some failure ∧ failure.engineError? = some e ∧
        doc.under? "error" = some (.string e.message) := by
  cases h with
  | lines _ => cases hdoc
  | document _ hshown hnone =>
    cases hshown.symm.trans hdoc
    exact .inl ⟨rfl, hnone⟩
  | silent failure => cases hdoc
  | record _ hshown hcause herror =>
    cases hshown.symm.trans hdoc
    exact .inr ⟨_, _, rfl, hcause, herror⟩

/-- Whether the value in a document is null exactly if the command fails, and a number that can be
written otherwise. -/
def ValueAgrees (r : Report) : Prop :=
  ∀ doc, r.json? = some doc → ∃ value, doc.under? "value" = some value ∧
    (value = .null ↔ r.failure.isSome = true) ∧ ∀ x, value = .real x → x.isFinite = true

/-- The value of a calculation that fails is null. -/
theorem valueAgrees_failedCalculation (s : Settings) (formula : String) (vars : Bindings)
    (e : FormulaError) : (failedCalculation s formula vars e).ValueAgrees := by
  rw [failedCalculation]
  cases s.format with
  | text => exact nofun
  | json =>
    intro doc hdoc
    cases hdoc
    have hnull : Json.ofFloat (0 / 0) = .null := if_neg (by decide +kernel)
    exact ⟨_, Calculation.under?_value _, ⟨fun _ => rfl, fun _ => hnull⟩,
      fun x hx => by cases hnull.symm.trans hx⟩

/-- The value of a calculation that succeeds with a finite number is this number. -/
theorem valueAgrees_shown {c : Calculation} (h : c.value.isFinite = true) :
    (shown (.document c.toJson)).ValueAgrees := by
  intro doc hdoc
  cases hdoc
  have hreal : Json.ofFloat c.value = .real c.value := if_pos h
  refine ⟨_, Calculation.under?_value c, ⟨fun hnull => ?_, nofun⟩, fun x hx => ?_⟩
  · cases hreal.symm.trans hnull
  · cases hreal.symm.trans hx
    exact h

/-- The value of a calculation is null exactly if it fails, if a number that is given is finite. -/
theorem valueAgrees_ofCalculation (s : Settings) (formula : String) (vars : Bindings)
    (outcome : Except FormulaError Float) (h : ∀ x, outcome = .ok x → x.isFinite = true) :
    (ofCalculation s formula vars outcome).ValueAgrees := by
  cases outcome with
  | error e => exact valueAgrees_failedCalculation s formula vars e
  | ok value =>
    rw [ofCalculation]
    cases s.format with
    | text => exact nofun
    | json => exact valueAgrees_shown (h value rfl)

/-- The value of a calculation by rules is null exactly if it fails, if a number that is given is
finite. -/
theorem valueAgrees_ofRules (s : Settings) (rules : List Rule) (vars : Bindings)
    (outcome : Except FormulaError Calculation)
    (h : ∀ c, outcome = .ok c → c.value.isFinite = true) :
    (ofRules s rules vars outcome).ValueAgrees := by
  cases outcome with
  | error e => exact valueAgrees_failedCalculation s "" vars e
  | ok c =>
    rw [ofRules]
    cases s.format with
    | text => exact nofun
    | json => exact valueAgrees_shown (h c rfl)

end Report

/-- Whether a command calculates a number, by a formula or by rules. -/
def Command.isCalculation : Command → Bool
  | calculate .. | rules .. => true
  | check .. | validate .. | explain .. => false

namespace Report

/-- The value of a calculation is null exactly if the command fails. -/
theorem valueAgrees_ofCommand (s : Settings) (files : Files) (pace : List Nat) {command : Command}
    (h : command.isCalculation = true) (formats : Formats) :
    (ofCommand s files pace command formats).ValueAgrees := by
  cases command with
  | calculate formula given =>
    rw [ofCommand, calculate]
    cases given.load files formats with
    | error e => exact nofun
    | ok vars =>
      refine valueAgrees_ofCalculation s formula _ _ fun x hx => ?_
      exact Run.satisfiesM_iff.mp (Formula.isFinite_calculate ..) _ x _ (Prod.ext hx rfl)
  | rules path given =>
    rw [ofCommand, applyRules]
    cases loadBoth files path given formats with
    | error e => exact nofun
    | ok loaded =>
      obtain ⟨rules, vars⟩ := loaded
      refine valueAgrees_ofRules s rules _ _ fun c hc => ?_
      obtain ⟨-, rule, -, -, w, w', -, -, -, hvalue, -, -⟩ :=
        RuleSet.exists_of_evaluateFrom_ok (Prod.ext hc rfl)
      exact Run.satisfiesM_iff.mp (Formula.isFinite_calculate ..) w c.value w' hvalue
  | check | validate | explain => cases h

/-- A command never shows anything that contradicts how it ends, whatever the settings, the files,
the pace, and the readers and printers of documents. For people, it fails exactly if it shows
nothing. As JSON, it shows at most one document, and one if it ends well; a document has an error
that is not null exactly if the command fails, and this is the wording of the error of the engine
that it fails with; and the value of a calculation is null exactly if the command fails. -/
theorem report_of_command (formats : Formats) (s : Settings) (files : Files) (pace : List Nat)
    (command : Command) :
    let r := ofCommand s files pace command formats
    (s.format = .text → (r.failure.isSome = true ↔ r.text formats = "")) ∧
    (s.format = .json →
      (r.text formats = "" ∨ ∃ doc, r.json? = some doc ∧
        (r.text formats = formats.writePretty doc ++ "\n" ∨
          r.text formats = formats.writeCompact doc ++ "\n")) ∧
      (r.failure = none → r.json?.isSome = true) ∧
      ∀ doc, r.json? = some doc →
        ((∃ j, doc.under? "error" = some j ∧ j ≠ .null) ↔ r.failure.isSome = true) ∧
        (∀ failure, r.failure = some failure → ∃ e, failure.engineError? = some e ∧
          doc.under? "error" = some (.string e.message)) ∧
        (command.isCalculation = true → ∃ value, doc.under? "value" = some value ∧
          (value = .null ↔ r.failure.isSome = true) ∧
          ∀ x, value = .real x → x.isFinite = true)) := by
  intro r
  have hagrees : Agrees s.format r := agrees_ofCommand s files pace command formats
  refine ⟨fun hformat => (hformat ▸ hagrees).text formats, fun hformat => ?_⟩
  have hshown := (hformat ▸ hagrees).json formats
  refine ⟨hshown.imp_left And.left, fun hsuccess => ?_, fun doc hdoc => ⟨?_, ?_, fun h => ?_⟩⟩
  · obtain ⟨-, hfails⟩ | ⟨doc, hdoc, -⟩ := hshown
    · rw [hsuccess] at hfails
      cases hfails
    · rw [hdoc]
      rfl
  · obtain ⟨hsuccess, hnone⟩ | ⟨failure, e, hfailure, -, herror⟩ := hagrees.under?_error hdoc
    · rw [hsuccess, hnone]
      exact ⟨nofun, nofun⟩
    · rw [hfailure, herror]
      exact ⟨fun _ => rfl, fun _ => ⟨_, rfl, nofun⟩⟩
  · intro failure hfailure
    obtain ⟨hsuccess, -⟩ | ⟨other, e, hother, hcause, herror⟩ := hagrees.under?_error hdoc
    · cases hsuccess.symm.trans hfailure
    · cases hother.symm.trans hfailure
      exact ⟨e, hcause, herror⟩
  · exact valueAgrees_ofCommand s files pace h formats doc hdoc

/-- A share of nothing fails: people are shown no text, and a JSON document has the error and a
value that is null. A share of something is a document with a value. -/
theorem report_of_command_share :
    let files : Files := fun _ => .error .notFound
    let share (count : Float) : Command :=
      .calculate "12 / count" ⟨[("count", .number count)], none⟩
    let people := ofCommand { format := .text } files [] (share 0) .standard
    let failing := ofCommand { format := .json } files [] (share 0) .standard
    let succeeding := ofCommand { format := .json } files [] (share 4) .standard
    people.text .standard = "" ∧
    (∃ doc failure e, failing.json? = some doc ∧ failing.failure = some failure ∧
      failure.engineError? = some e ∧ doc.under? "error" = some (.string e.message) ∧
      doc.under? "value" = some .null) ∧
    ∃ doc value, succeeding.json? = some doc ∧ succeeding.failure = none ∧
      doc.under? "value" = some value ∧ value ≠ .null := by
  intro files share people failing succeeding
  have hsilent : people.failure.isSome = true := by
    decide +kernel +revert
  have hfails : (failing.failure.isSome && failing.json?.isSome) = true := by
    decide +kernel +revert
  have hsucceeds : succeeding.failure.isNone = true := by
    decide +kernel +revert
  refine ⟨?_, ?_, ?_⟩
  · exact ((report_of_command .standard { format := .text } files [] (share 0)).1 rfl).mp hsilent
  · obtain ⟨hfailed, hshown⟩ := (Bool.and_eq_true ..).mp hfails
    obtain ⟨failure, hfailure⟩ := Option.isSome_iff_exists.mp hfailed
    obtain ⟨doc, hdoc⟩ := Option.isSome_iff_exists.mp hshown
    obtain ⟨-, -, hdocument⟩ :=
      (report_of_command .standard { format := .json } files [] (share 0)).2 rfl
    obtain ⟨-, herror, hvalue⟩ := hdocument doc hdoc
    obtain ⟨e, hcause, herror⟩ := herror failure hfailure
    obtain ⟨value, hvalue, hnull, -⟩ := hvalue rfl
    exact ⟨doc, failure, e, hdoc, hfailure, hcause, herror, hnull.mpr hfailed ▸ hvalue⟩
  · have hnone : succeeding.failure = none := Option.isNone_iff_eq_none.mp hsucceeds
    obtain ⟨-, hexists, hdocument⟩ :=
      (report_of_command .standard { format := .json } files [] (share 4)).2 rfl
    obtain ⟨doc, hdoc⟩ := Option.isSome_iff_exists.mp (hexists hnone)
    obtain ⟨-, -, hvalue⟩ := hdocument doc hdoc
    obtain ⟨value, hvalue, hnull, -⟩ := hvalue rfl
    refine ⟨doc, value, hdoc, hnone, hvalue, fun h => ?_⟩
    exact absurd (hnull.mp h) (by rw [hnone]; exact Bool.false_ne_true)

end Report

end FormulaRules
