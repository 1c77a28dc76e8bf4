import FormulaRules.Dictionary
import FormulaRules.Number.Layout

/-!
# JSON documents

A document as it was read or is to be written. Objects keep their members in the order
they were given, repeated names included; whoever reads an object decides what a repeated
name means.

Some texts are well formed and still have no value: a number beyond the doubles, and a
text or a name with half of a surrogate pair. They may stand where a document is skipped,
so they are part of it and marked as unreadable.
-/

namespace FormulaRules

/-- A JSON document. -/
inductive Json
  | null
  | boolean (b : Bool)
  /-- A number written without a point and without an exponent. -/
  | integer (n : Int)
  | real (x : Float)
  | string (s : String)
  | array (items : List Json)
  | object (members : List (String × Json))
  /-- Something well formed that has no value. -/
  | unreadable
deriving Inhabited

namespace Json

mutual

/-- The number of arrays and objects inside one another, zero for a scalar. -/
def depth : Json → Nat
  | array items => depthItems items + 1
  | object members => depthMembers members + 1
  | _ => 0

/-- The greatest depth of an item. -/
def depthItems : List Json → Nat
  | [] => 0
  | j :: rest => max j.depth (depthItems rest)

/-- The greatest depth of a member. -/
def depthMembers : List (String × Json) → Nat
  | [] => 0
  | (_, j) :: rest => max j.depth (depthMembers rest)

end

mutual

/-- Whether every part of a document has a value. -/
def isReadable : Json → Bool
  | array items => readableItems items
  | object members => readableMembers members
  | unreadable => false
  | _ => true

/-- Whether every item is readable. -/
def readableItems : List Json → Bool
  | [] => true
  | j :: rest => j.isReadable && readableItems rest

/-- Whether every member is readable. -/
def readableMembers : List (String × Json) → Bool
  | [] => true
  | (_, j) :: rest => j.isReadable && readableMembers rest

end

/-- The number that a document is. -/
def number? : Json → Option Float
  | integer n => some (Float.ofInt n)
  | real x => some x
  | _ => none

/-- The text that a document is. -/
def string? : Json → Option String
  | string s => some s
  | _ => none

/-- The document of a number; one that is not finite has none and is written as null. -/
def ofFloat (x : Float) : Json := if x.isFinite then real x else null

mutual

/-- A document whose objects have their names in ascending order, each with its last member. -/
def sorted : Json → Json
  | array items => array (sortedItems items)
  | object members => object (Dictionary.ofList (sortedMembers members)).toList
  | j => j

/-- The items with their objects sorted. -/
def sortedItems : List Json → List Json
  | [] => []
  | j :: rest => j.sorted :: sortedItems rest

/-- The members with the objects inside them sorted. -/
def sortedMembers : List (String × Json) → List (String × Json)
  | [] => []
  | (name, j) :: rest => (name, j.sorted) :: sortedMembers rest

end

end Json

end FormulaRules
