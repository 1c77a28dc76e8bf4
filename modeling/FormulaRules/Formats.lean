import FormulaRules.Json.Printer
import FormulaRules.Json.Reader
import FormulaRules.Toml.Reader

/-!
# Readers and printers of documents

Files hold JSON or TOML, and results are written as JSON. Commands take the readers and printers of
the two languages as they are given and ask nothing of them.
-/

namespace FormulaRules

/-- How documents are read from texts and written as texts. -/
structure Formats where
  readJson? : String → Option Json
  readToml? : String → Option Toml
  /-- A document on one line. -/
  writeCompact : Json → String
  /-- A document over several lines. -/
  writePretty : Json → String

/-- The readers and printers of this library. -/
def Formats.standard : Formats := ⟨Json.ofText?, Toml.ofText?, Json.render, Json.renderPretty⟩

end FormulaRules
