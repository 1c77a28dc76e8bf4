/-!
# TOML documents

A document is a table. Its names are unique in every table, so the order of the members
carries no meaning. Dates and times of day are recognised and not kept: nothing that is
read from a document holds one.
-/

namespace FormulaRules

/-- A value in a TOML document. -/
inductive Toml
  | text (s : String)
  | integer (n : Int)
  | real (x : Float)
  | boolean (b : Bool)
  /-- A date, a time of day, or both. -/
  | moment
  | array (items : List Toml)
  | table (members : List (String × Toml))
deriving Inhabited

namespace Toml

/-- The text that a value is. -/
def text? : Toml → Option String
  | text s => some s
  | _ => none

/-- The boolean that a value is. -/
def boolean? : Toml → Option Bool
  | boolean b => some b
  | _ => none

/-- The count that a value is: a whole number that is not negative. -/
def count? : Toml → Option Nat
  | integer n => n.toNat?
  | _ => none

/-- The items of an array. -/
def items? : Toml → Option (List Toml)
  | array items => some items
  | _ => none

/-- The members of a table. -/
def members? : Toml → Option (List (String × Toml))
  | table members => some members
  | _ => none

/-- The fields of a record by declared names; a missing field is none.

A record is a table, or an array of its fields in the declared order. Other members and
further items are skipped. A date has none of the fields. -/
def fields? (names : List String) : Toml → Option (List (Option Toml))
  | table members => some (names.map fun name => members.lookup name)
  | array items => some ((List.range names.length).map fun i => items[i]?)
  | moment => some (names.map fun _ => none)
  | _ => none

/-- The name of an alternative: its text, or the name of an empty member that stands alone. -/
def bareName? : Toml → Option String
  | text name => some name
  | table [(name, table [])] => some name
  | table [(name, array [])] => some name
  | _ => none

end Toml

end FormulaRules
