import FormulaRules.Command.Input
import FormulaRules.Expr.Document
import FormulaRules.Expr.Render

/-!
# Reports of commands

A command shows at most one thing and then ends well or with a failure. A failed command
shows nothing to people; written as JSON, a calculation that fails still shows a record of
the failure, and so does a text that is not valid.

Time passes before the lookups of variables, at a pace that is handed in. A deadline stops a
command only at a variable; at no pace at all it has to have come when the command starts.

Numbers are written for people with any number of decimal places that the settings ask for. Limits
on this number when a text is formatted, and limits of memory, are not modelled.
-/

namespace FormulaRules

/-- What a command shows. -/
inductive Output
  | lines (ls : List String)
  /-- A document over several lines. -/
  | document (j : Json)
  /-- A document on one line. -/
  | compact (j : Json)

/-- The text that a command shows; every line is ended. -/
def Output.text (formats : Formats) : Output → String
  | lines ls => String.join (ls.map (· ++ "\n"))
  | document j => formats.writePretty j ++ "\n"
  | compact j => formats.writeCompact j ++ "\n"

/-- What a command shows, and the failure it ends with, if any. -/
structure Report where
  output : Option Output
  failure : Option Failure

namespace Report

/-- The report of a command that ends well. -/
def shown (output : Output) : Report := ⟨some output, none⟩

/-- The report of a command that fails without a word. -/
def failed (failure : Failure) : Report := ⟨none, some failure⟩

/-- The text that a command shows. -/
def text (r : Report) (formats : Formats := .standard) : String :=
  (r.output.map (Output.text formats)).getD ""

end Report

/-- Let the next of the times that a world remembers pass, and none behind the last. -/
def World.tick (w : World (List Nat)) : World (List Nat) :=
  { w with now := w.now + w.store.headD 0, store := w.store.tail }

/-- The resolver that lets time pass before every lookup. -/
def Resolver.paced (inner : Resolver (List Nat)) : Resolver (List Nat) where
  lookup ctx name := do
    modify World.tick
    inner.lookup ctx name
  has := inner.has
  all := inner.all

namespace Settings

/-- The source of variables of a command: the given ones, then the defaults. -/
def resolver (s : Settings) (given : Bindings) : Resolver (List Nat) :=
  .paced (.checked (.layered (.ofBindings given) (.ofBindings s.defaults)))

/-- The text of a number for people, with as many decimal places as the settings ask for. No limit
on their number and none of memory is modelled. -/
def numberText (s : Settings) (x : Float) : String :=
  match s.precision with
  | some places => Number.fixed places x
  | none => Number.plain x

end Settings

namespace Report

/-- All variables of a source. -/
def allOf (source : Resolver (List Nat)) : Bindings := (source.all.run (World.start [])).1

/-- The result of an evaluation that starts now and goes on at a pace. -/
def answer {α ε : Type} (pace : List Nat) (run : Run (List Nat) ε α) : Except ε α :=
  (run.run.run (World.start pace)).1

/-- The report of a calculation that fails. -/
def failedCalculation (s : Settings) (formula : String) (vars : Bindings) (e : FormulaError) :
    Report :=
  match s.format with
  | .text => .failed (.formula e)
  | .json => ⟨some (.document (Calculation.failed formula vars e).toJson), some (.formula e)⟩

/-- The report of a calculation. -/
def ofCalculation (s : Settings) (formula : String) (vars : Bindings) :
    Except FormulaError Float → Report
  | .error e => failedCalculation s formula vars e
  | .ok value =>
    match s.format with
    | .text => .shown (.lines [s.numberText value])
    | .json => .shown (.document (Calculation.ofValue value formula vars).toJson)

/-- Calculate a formula. -/
def calculate (s : Settings) (files : Files) (pace : List Nat) (formula : String)
    (given : GivenVariables) (formats : Formats) : Report :=
  match given.load files formats with
  | .error e => .failed e
  | .ok vars =>
    let source := s.resolver vars
    ofCalculation s formula (allOf source)
      (answer pace (Formula.calculate s.context source formula))

/-- The report of a checked condition. -/
def ofCheck (s : Settings) (condition : String) : Except FormulaError Bool → Report
  | .error e => .failed (.during (.check condition) (.formula e))
  | .ok holds =>
    match s.format with
    | .text => .shown (.lines [if holds then "true" else "false"])
    | .json =>
      .shown (.document (.object [("condition", .string condition), ("result", .boolean holds)]))

/-- Check a condition. -/
def check (s : Settings) (files : Files) (pace : List Nat) (condition : String)
    (given : GivenVariables) (formats : Formats) : Report :=
  match given.load files formats with
  | .error e => .failed e
  | .ok vars =>
    ofCheck s condition (answer pace (Condition.holds s.context (s.resolver vars) condition))

/-- The lines about a calculation by rules. -/
def ruleLines (s : Settings) (rules : List Rule) (c : Calculation) : List String :=
  let applied := do
    let rule ← c.ruleApplied
    let index ← RuleSet.indexOf? rule rules
    return "rule " ++ Nat.repr index ++ ": " ++ rule.condition ++ " => " ++ rule.calculation
  s.numberText c.value :: applied.toList

/-- The rules of a file and the given variables. -/
def loadBoth (files : Files) (path : String) (given : GivenVariables) (formats : Formats) :
    Except Failure (List Rule × Bindings) := do
  return (← RuleSet.load files path formats, ← given.load files formats)

/-- The report of a calculation by rules. -/
def ofRules (s : Settings) (rules : List Rule) (vars : Bindings) :
    Except FormulaError Calculation → Report
  | .error e => failedCalculation s "" vars e
  | .ok c =>
    match s.format with
    | .text => .shown (.lines (ruleLines s rules c))
    | .json => .shown (.document c.toJson)

/-- Apply the rules of a file. -/
def applyRules (s : Settings) (files : Files) (pace : List Nat) (path : String)
    (given : GivenVariables) (formats : Formats) : Report :=
  match loadBoth files path given formats with
  | .error e => .failed e
  | .ok (rules, vars) =>
    let source := s.resolver vars
    ofRules s rules (allOf source) (answer pace (RuleSet.evaluate s.context source rules))

/-- The record of a text that is not valid. -/
def invalidRecord (kind : TextKind) (e : FormulaError) : Json :=
  let position := match e.syntaxError? with
    | some e => Json.integer e.position
    | none => .null
  .object [("error", .string e.message), ("kind", .string kind.name), ("position", position),
    ("valid", .boolean false)]

/-- The report of a text that was checked. -/
def ofValidation (s : Settings) (kind : TextKind) : Except FormulaError Unit → Report
  | .ok _ =>
    match s.format with
    | .text => .shown (.lines ["valid " ++ kind.name])
    | .json => .shown (.compact (.object [("kind", .string kind.name), ("valid", .boolean true)]))
  | .error e =>
    let failure := .during (.validate kind) (.formula e)
    match s.format with
    | .text => .failed failure
    | .json => ⟨some (.compact (invalidRecord kind e)), some failure⟩

/-- Check that a text is a formula or a condition. -/
def validate (s : Settings) (text : String) : TextKind → Report
  | .formula => ofValidation s .formula (Formula.validate text)
  | .condition => ofValidation s .condition (Condition.validate text)

/-- The lines about an expression. -/
def explainLines (e : Expr) : List String :=
  let vars := e.variableNames
  ["canonical: " ++ e.render, "type:      " ++ e.resultType.name,
    "variables: " ++ if vars.isEmpty then "(none)" else ", ".intercalate vars]

/-- The document about an expression, with the members of every object in order. -/
def explainDocument (e : Expr) : Json :=
  Json.sorted (.object [("canonical", .string e.render),
    ("expected_type", .string e.resultType.name), ("tree", e.toJson),
    ("variables", .array (e.variableNames.map .string))])

/-- Explain a formula. -/
def explain (s : Settings) (formula : String) : Report :=
  match Formula.parse formula with
  | .error e => .failed (.during .explain (.formula e))
  | .ok e =>
    match s.format with
    | .text => .shown (.lines (explainLines e))
    | .json => .shown (.document (explainDocument e))

/-- The report of a command. -/
def ofCommand (s : Settings) (files : Files) (pace : List Nat) (command : Command)
    (formats : Formats) : Report :=
  match command with
  | .calculate formula given => calculate s files pace formula given formats
  | .check condition given => check s files pace condition given formats
  | .rules path given => applyRules s files pace path given formats
  | .validate text kind => validate s text kind
  | .explain formula => explain s formula

end Report

namespace Invocation

/-- The paths that a run reads, in order. -/
def paths (env : Environment) (i : Invocation) : List String :=
  Settings.path env i.settings :: i.command.paths

/-- The file that the settings come from, if there is one, and the report of the command. -/
def run (files : Files) (env : Environment) (i : Invocation) (pace : List Nat := [])
    (formats : Formats := .standard) : Option String × Report :=
  match Settings.load files env i.settings formats with
  | .error e => (none, .failed e)
  | .ok s =>
    let s := { s with format := i.format.getD s.format }
    (s.source, Report.ofCommand s files pace i.command formats)

end Invocation

end FormulaRules
