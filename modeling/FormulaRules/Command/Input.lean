import FormulaRules.Command
import FormulaRules.RuleSet.Document
import FormulaRules.Settings.Document

/-!
# Files of rules and variables

Rules are the items of a JSON array, or the array `rules` of a TOML document. The ending of
the file name tells which, in any letter case. Variables are the members of a JSON object;
of a repeated name the last counts. Assignments on the command line go before the file.
-/

namespace FormulaRules

/-- The rule of a TOML value. -/
def Rule.ofToml? (v : Toml) : Option Rule := do
  match ← v.fields? ["condition", "calculation"] with
  | [some condition, some calculation] => return ⟨← condition.text?, ← calculation.text?⟩
  | _ => none

namespace RuleSet

/-- The rules of a TOML document. -/
def ofToml? (document : Toml) : Option (List Rule) := do
  match ← document.fields? ["rules"] with
  | [some rules] => (← rules.items?).mapM Rule.ofToml?
  | _ => none

/-- The rules of a text in a format. -/
def ofText? (formats : Formats) : FileFormat → String → Option (List Rule)
  | .json, text => (formats.readJson? text).bind ofJson?
  | .toml, text => (formats.readToml? text).bind ofToml?

/-- The format of a file of rules. -/
def format? (path : String) : Option FileFormat := do
  match Text.foldCase (← Path.extension? path) with
  | "json" => some .json
  | "toml" => some .toml
  | _ => none

/-- The rules of a file. -/
def load (files : Files) (path : String) (formats : Formats := .standard) :
    Except Failure (List Rule) := do
  let text ← during (.readRules path) ((files path).mapError .unreadable)
  match format? path with
  | none => throw (.unsupportedRules path)
  | some format =>
    match ofText? formats format text with
    | some rules => return rules
    | none => throw (.during (.parseRules format path) (.malformed format))

end RuleSet

namespace GivenVariables

/-- The members of a document by name. -/
def documents? (formats : Formats) (text : String) : Option (Dictionary Json) := do
  match ← (← formats.readJson? text).whole? with
  | .object members => some (Dictionary.ofList members)
  | _ => none

/-- A variable of a document. -/
def take (member : String × Json) : Except Failure (String × Value) := do
  let v ← during (.takeVariable member.1) ((Value.ofDocument member.2).mapError .noValue)
  return (member.1, v)

/-- The variables of a file. -/
def loadFile (files : Files) (path : String) (formats : Formats) : Except Failure Bindings := do
  let text ← during (.readVariables path) ((files path).mapError .unreadable)
  match documents? formats text with
  | none => throw (.during (.parseVariables path) (.malformed .json))
  | some members => return Dictionary.ofList (← members.toList.mapM take)

/-- The variables of the given file, none without a file. -/
def loadBelow (files : Files) (given : GivenVariables) (formats : Formats) :
    Except Failure Bindings :=
  match given.file with
  | some path => loadFile files path formats
  | none => pure Dictionary.empty

/-- The assignments over other variables; of two assignments to one name the later counts. -/
def laidOver (given : GivenVariables) (lower : Bindings) : Bindings :=
  given.assignments.foldl (fun vars assignment => vars.insert assignment.1 assignment.2) lower

/-- The given variables. -/
def load (files : Files) (given : GivenVariables) (formats : Formats) :
    Except Failure Bindings := do
  return given.laidOver (← given.loadBelow files formats)

end GivenVariables

/-- The paths that a command reads, in order. -/
def Command.paths : Command → List String
  | .calculate _ given => given.file.toList
  | .check _ given => given.file.toList
  | .rules path given => path :: given.file.toList
  | .validate _ _ => []
  | .explain _ => []

end FormulaRules
