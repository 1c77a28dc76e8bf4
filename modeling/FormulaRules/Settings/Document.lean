import FormulaRules.Formats
import FormulaRules.Settings

/-!
# Files of settings

The file has four sections, `logging`, `output`, `evaluation` and `defaults`. A missing
section or field keeps its value, and other names are skipped. A field of the wrong type
makes the whole file unusable.

Without a path on the command line the environment names the file, and without that it is
`formulary.toml`. Then a missing file is the same as an empty one.
-/

namespace FormulaRules

/-- The value of a TOML value. -/
def Value.ofToml? : Toml → Option Value
  | .integer n => some (ofInt n)
  | .real x => some (number x)
  | .boolean b => some (boolean b)
  | .text s => some (string s)
  | _ => none

/-- The variables of a TOML table. -/
def Bindings.ofToml? (v : Toml) : Option Bindings := do
  let pairs ← (← v.members?).mapM fun (name, v) => (Value.ofToml? v).map fun v => (name, v)
  return Dictionary.ofList pairs

/-- The format that a TOML value names. -/
def OutputFormat.ofToml? (v : Toml) : Option OutputFormat := do ofName? (← v.bareName?)

namespace Settings

/-- Read something that may be missing, or keep what there is. -/
def keepOr {α : Type} (old : α) (read : Toml → Option α) : Option Toml → Option α
  | none => some old
  | some v => read v

/-- Take over the section about log lines. -/
def takeLogging (s : Settings) (v : Toml) : Option Settings := do
  match ← v.fields? ["filter", "json"] with
  | [filter, json] =>
    return { s with
      logFilter := ← keepOr s.logFilter Toml.text? filter
      jsonLogs := ← keepOr s.jsonLogs Toml.boolean? json }
  | _ => none

/-- Take over the section about results. -/
def takeOutput (s : Settings) (v : Toml) : Option Settings := do
  match ← v.fields? ["format", "precision"] with
  | [format, precision] =>
    return { s with
      format := ← keepOr s.format OutputFormat.ofToml? format
      precision := ← keepOr s.precision (fun v => v.count?.map some) precision }
  | _ => none

/-- Take over the section about evaluation. -/
def takeEvaluation (s : Settings) (v : Toml) : Option Settings := do
  match ← v.fields? ["deadline_ms"] with
  | [deadline] =>
    return { s with deadline := ← keepOr s.deadline (fun v => v.count?.map some) deadline }
  | _ => none

/-- Take over the default variables. -/
def takeDefaults (s : Settings) (v : Toml) : Option Settings := do
  return { s with defaults := ← Bindings.ofToml? v }

/-- The settings of a document. -/
def ofToml? (document : Toml) : Option Settings := do
  match ← document.fields? ["logging", "output", "evaluation", "defaults"] with
  | [logging, output, evaluation, defaults] =>
    let s ← keepOr standard (takeLogging standard) logging
    let s ← keepOr s (takeOutput s) output
    let s ← keepOr s (takeEvaluation s) evaluation
    keepOr s (takeDefaults s) defaults
  | _ => none

/-- The settings of a text. -/
def ofText (text : String) (formats : Formats := .standard) : Except Failure Settings :=
  match (formats.readToml? text).bind ofToml? with
  | some s => return s
  | none => throw (.malformed .toml)

/-- The file of settings if none is named. -/
def standardPath : String := "formulary.toml"

/-- The file of settings. -/
def path (env : Environment) (given : Option String) : String :=
  (given.or (env "FORMULARY_CONFIG_PATH")).getD standardPath

/-- The settings of a file, before the environment replaces any. -/
def read (files : Files) (env : Environment) (given : Option String) (formats : Formats) :
    Except Failure Settings :=
  let path := path env given
  match files path with
  | .ok text => do
    return { ← during (.parseSettings path) (ofText text formats) with source := some path }
  | .error fault =>
    if fault = .notFound ∧ given.isNone then return standard
    else throw (.during (.readSettings path) (.unreadable fault))

/-- The settings of a run. -/
def load (files : Files) (env : Environment) (given : Option String) (formats : Formats) :
    Except Failure Settings := do
  override env (← during .loadSettings (read files env given formats))

end Settings

end FormulaRules
