import FormulaRules.Json

/-!
# Records and alternatives in documents

A record is an object with the declared names, or an array of its fields in the declared
order. Other members of the object are skipped, a declared name may not occur twice, and
an array may be shorter but not longer than the declaration. An alternative is an object
with the name of the alternative as its only member; one without content is also written
as its bare name.

Documents that are read may hold at most `maxDepth` arrays and objects inside one another.
Skipped parts do not count, nor do they have to be readable.
-/

namespace FormulaRules.Json

/-- The most arrays and objects that may stand inside one another. -/
def maxDepth : Nat := 127

/-- The whole document, if it has a value and is not too deep. -/
def whole? (j : Json) : Option Json :=
  if j.isReadable && decide (j.depth ≤ maxDepth) then some j else none

/-- The member of a name. -/
def member? (name : String) (members : List (String × Json)) : Option Json := members.lookup name

/-- The fields of a record by declared names; a missing field is none. -/
def fields? (names : List String) : Json → Option (List (Option Json))
  | object members =>
    if names.all fun name => decide (members.countP (fun m => m.1 == name) ≤ 1) then
      some (names.map fun name => member? name members)
    else none
  | array items =>
    if items.length ≤ names.length then
      some (items.map some ++ List.replicate (names.length - items.length) none)
    else none
  | _ => none

/-- The name of an alternative and its content. -/
def alternative? : Json → Option (String × Json)
  | object [(name, content)] => some (name, content)
  | _ => none

/-- The name of an alternative without content. -/
def bareName? : Json → Option String
  | string name => some name
  | object [(name, null)] => some name
  | _ => none

/-- The items of an array. -/
def items? : Json → Option (List Json)
  | array items => some items
  | _ => none

end FormulaRules.Json
