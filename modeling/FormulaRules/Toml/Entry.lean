import FormulaRules.Toml

/-!
# Building the tables of a TOML document

A table can come to be in three ways: by its own header, because the header of a table
inside it names it, or because a dotted key names it. What may still be added depends on
this. A header may complete a table that was only implied, dotted keys may extend a table
that dotted keys made, and everything else that names a table twice is refused. A value is
complete as it stands, so nothing is added to an inline table or to an array.

A name that leads through an array of tables means its last table.
-/

namespace FormulaRules.Toml

/-- How a table came to be. -/
inductive Origin
  /-- Named by the header of a table inside it. -/
  | implied
  /-- Named by a dotted key. -/
  | dotted
  /-- Named by its own header, or written as an item of an array of tables. -/
  | header
deriving DecidableEq, Repr

/-- What a name stands for while a document is being read. -/
inductive Entry
  | value (v : Toml)
  | table (origin : Origin) (members : List (String × Entry))
  | tables (items : List (List (String × Entry)))

/-- The members of a table while a document is being read. -/
abbrev Entries := List (String × Entry)

/-- A dotted key: the names that lead to a table, and the name in it. -/
structure Key where
  path : List String
  name : String
deriving Repr

mutual

/-- The finished value of an entry. -/
def Entry.finish : Entry → Toml
  | .value v => v
  | .table _ members => .table (finishMembers members)
  | .tables items => .array (finishTables items)

/-- The finished members of a table. -/
def finishMembers : Entries → List (String × Toml)
  | [] => []
  | (name, e) :: rest => (name, e.finish) :: finishMembers rest

/-- The finished tables of an array. -/
def finishTables : List Entries → List Toml
  | [] => []
  | members :: rest => .table (finishMembers members) :: finishTables rest

end

namespace Entries

/-- Change the entry of a name, or add one. -/
def alter? (name : String) (f : Option Entry → Option Entry) : Entries → Option Entries
  | [] => (f none).map fun e => [(name, e)]
  | (key, e) :: rest =>
    if key = name then (f (some e)).map fun e => (key, e) :: rest
    else (alter? name f rest).map ((key, e) :: ·)

/-- Change the last item of a list, if there is one. -/
def changeLast? (f : Entries → Option Entries) (items : List Entries) : Option (List Entries) :=
  match items.getLast? with
  | some last => (f last).map fun last => items.dropLast ++ [last]
  | none => none

/-- Change the table to which names lead. Missing tables on the way are made.

Dotted keys do not lead into a table that has its own header. -/
def within? (made : Origin) (f : Origin → Entries → Option Entries) :
    (path : List String) → Origin → Entries → Option Entries
  | [], origin, members => f origin members
  | name :: path, _, members => members.alter? name fun
    | none => (within? made f path made []).map (.table made)
    | some (.table origin inner) =>
      if made = .dotted ∧ origin = .header then none
      else (within? made f path origin inner).map (.table origin)
    | some (.tables items) => (changeLast? (within? made f path .header) items).map .tables
    | some (.value _) => none

/-- Give a value to a key, which has none yet. A dotted key leads to a table that dotted keys
made. -/
def assign? (key : Key) (v : Toml) (members : Entries) : Option Entries :=
  within? .dotted (fun origin inner =>
      if key.path.isEmpty ∨ origin = .dotted then
        inner.alter? key.name fun
          | none => some (.value v)
          | some _ => none
      else none)
    key.path .header members

/-- Give values to keys in order. -/
def assignAll? (pairs : List (Key × Toml)) (members : Entries) : Option Entries :=
  pairs.foldlM (fun members (key, v) => members.assign? key v) members

/-- Add a table with its own header, or complete one that was implied. -/
def addTable? (key : Key) (pairs : List (Key × Toml)) (members : Entries) : Option Entries :=
  within? .implied (fun _ inner => inner.alter? key.name fun
      | none => (assignAll? pairs []).map (.table .header)
      | some (.table .implied old) => (assignAll? pairs old).map (.table .header)
      | some _ => none)
    key.path .header members

/-- Add a table to the end of an array of tables. -/
def addItem? (key : Key) (pairs : List (Key × Toml)) (members : Entries) : Option Entries :=
  within? .implied (fun _ inner => inner.alter? key.name fun
      | none => (assignAll? pairs []).map fun item => .tables [item]
      | some (.tables items) => (assignAll? pairs []).map fun item => .tables (items ++ [item])
      | some _ => none)
    key.path .header members

end Entries

/-- The table of an inline table with the given keys and values. -/
def ofPairs? (pairs : List (Key × Toml)) : Option Toml :=
  (Entries.assignAll? pairs []).map fun members => .table (finishMembers members)

end FormulaRules.Toml
