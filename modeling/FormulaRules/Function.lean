import FormulaRules.Dictionary
import FormulaRules.EvalError
import FormulaRules.Value

/-!
# Functions and their registry

A function has a name, the numbers of arguments it takes, and an implementation. A registry
finds functions by name, whatever the case of the letters, and checks the number of
arguments before it calls one. The last registration under a name counts.
-/

namespace FormulaRules

/-- A function that formulas can call. -/
structure Function where
  /-- The name, without capital letters. -/
  name : String
  /-- The fewest arguments. -/
  minArity : Nat
  /-- The most arguments; without one there is no limit. -/
  maxArity : Option Nat
  description : String
  run : List Value → Except EvalError Value

namespace Function

/-- The numbers of arguments a function takes, in words. -/
def arityText (f : Function) : String :=
  match f.maxArity with
  | none => "at least " ++ Nat.repr f.minArity
  | some most =>
    if most = f.minArity then Nat.repr most
    else Nat.repr f.minArity ++ " to " ++ Nat.repr most

/-- Whether a function takes a number of arguments. -/
def accepts (f : Function) (count : Nat) : Bool :=
  decide (f.minArity ≤ count) && f.maxArity.all fun most => decide (count ≤ most)

end Function

/-- Functions by name. -/
structure Registry where
  functions : Dictionary Function

namespace Registry

/-- The registry without functions. -/
def empty : Registry := ⟨Dictionary.empty⟩

/-- Add a function, replacing one of the same name. -/
def register (r : Registry) (f : Function) : Registry := ⟨r.functions.insert f.name f⟩

/-- The function of a name in any letter case. -/
def get? (r : Registry) (name : String) : Option Function := r.functions.get? (Text.foldCase name)

/-- Call a function by name, if it takes as many arguments. -/
def call (r : Registry) (name : String) (args : List Value) : Except EvalError Value :=
  match r.get? name with
  | none => .error (.unknownFunction name)
  | some f =>
    if f.accepts args.length then f.run args
    else .error (.arityMismatch f.name f.arityText args.length)

/-- The registered names, ascending. -/
def names (r : Registry) : List String := r.functions.names

/-- The number of registered functions. -/
def size (r : Registry) : Nat := r.functions.size

/-- Whether no function is registered. -/
def isEmpty (r : Registry) : Bool := r.functions.isEmpty

end Registry

end FormulaRules
