import FormulaRules.Failure
import FormulaRules.Text.Blank

/-!
# Formats of results

Results are written for people or as JSON. A command line and a file of settings name a
format exactly; in the environment blanks around the name and the case of its letters do
not matter.
-/

namespace FormulaRules

/-- How results are written. -/
inductive OutputFormat
  | text
  | json
deriving DecidableEq, Repr, Inhabited

namespace OutputFormat

/-- The name of a format. -/
def name : OutputFormat → String
  | text => "text"
  | json => "json"

/-- The format of a name. -/
def ofName? (s : String) : Option OutputFormat := [text, json].find? fun format => format.name == s

/-- The format that a text names. -/
def ofText (s : String) : Except Failure OutputFormat :=
  let word := Text.foldCase (Text.trim s)
  match ofName? word with
  | some format => return format
  | none => throw (.unknownFormat word)

end OutputFormat

end FormulaRules
