import FormulaRules.Context
import FormulaRules.Dictionary
import FormulaRules.Value

/-!
# Sources of variables

A resolver answers three questions: the value of a name, whether a name has a value, and
all names with their values. Answers may depend on the world and may change it, so a
resolver can keep a record of what it was asked.

Three resolvers are built here: one that answers from a dictionary, one that falls back to
a second resolver for the names the first one misses, and one that asks the context before
every lookup. Only a missing variable falls through to the second resolver; any other
failure of the first one stands.
-/

namespace FormulaRules

/-- The values of variables by name. -/
abbrev Bindings := Dictionary Value

/-- A source of values for variables. -/
structure Resolver (σ : Type) where
  /-- The value of a name. -/
  lookup : Context → String → Run σ EvalError Value
  /-- Whether a name has a value. -/
  has : String → StateM (World σ) Bool
  /-- All names with their values. -/
  all : StateM (World σ) Bindings

namespace Resolver

variable {σ : Type}

/-- The resolver that answers from a dictionary. -/
def ofBindings (vars : Bindings) : Resolver σ where
  lookup _ name :=
    match vars.get? name with
    | some v => return v
    | none => throw (.variableNotFound name)
  has name := return vars.contains name
  all := return vars

/-- The resolver that asks the second source for what the first one misses. -/
def layered (primary fallback : Resolver σ) : Resolver σ where
  lookup ctx name :=
    tryCatch (primary.lookup ctx name) fun
      | .variableNotFound _ => fallback.lookup ctx name
      | e => throw e
  has name := do if ← primary.has name then return true else fallback.has name
  all := do
    let lower ← fallback.all
    let upper ← primary.all
    return upper.layOver lower

/-- The resolver that asks the context before every lookup. -/
def checked (inner : Resolver σ) : Resolver σ where
  lookup ctx name := do
    ctx.check
    inner.lookup ctx name
  has := inner.has
  all := inner.all

end Resolver

end FormulaRules
