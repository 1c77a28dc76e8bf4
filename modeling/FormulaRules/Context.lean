import FormulaRules.EvalError

/-!
# Cancellation and deadlines

A context names a token that may be cancelled and a deadline. Whether the token was
cancelled and what time it is are facts about the world, which can change between two
lookups of one evaluation. An evaluation itself never asks for them; a source of values
may, before it answers.
-/

namespace FormulaRules

/-- The name of a cancellation token. -/
abbrev TokenId := Nat

/-- What an evaluation can find changed from one lookup to the next. -/
structure World (σ : Type) where
  /-- The tokens that were cancelled. -/
  cancelled : List TokenId
  /-- The time, in milliseconds. -/
  now : Nat
  /-- What the sources of values remember. -/
  store : σ

/-- A world in which nothing was cancelled, at time zero. -/
def World.start {σ : Type} (store : σ) : World σ := ⟨[], 0, store⟩

/-- A computation in the world that may fail. -/
abbrev Run (σ ε : Type) := ExceptT ε (StateM (World σ))

/-- The token and the deadline of one evaluation. -/
structure Context where
  token : Option TokenId
  deadline : Option Nat
deriving DecidableEq, Repr, Inhabited

namespace Context

/-- The context without a token and without a deadline. -/
def background : Context := ⟨none, none⟩

variable {σ : Type}

/-- Whether the token of a context was cancelled. -/
def isCancelled (ctx : Context) (w : World σ) : Bool :=
  ctx.token.any fun token => w.cancelled.contains token

/-- Whether the deadline of a context has come. -/
def isExpired (ctx : Context) (w : World σ) : Bool :=
  ctx.deadline.any fun deadline => decide (deadline ≤ w.now)

/-- The time left before the deadline, zero once it has come. -/
def remaining (ctx : Context) (w : World σ) : Option Nat :=
  ctx.deadline.map fun deadline => deadline - w.now

/-- Why a context asks to stop, if it does. Cancellation counts before the deadline. -/
def stop? (ctx : Context) (w : World σ) : Option EvalError :=
  if ctx.isCancelled w then some .cancelled
  else if ctx.isExpired w then some .deadlineExceeded
  else none

/-- Fail if the context asks to stop. -/
def check (ctx : Context) : Run σ EvalError Unit := do
  match ctx.stop? (← get) with
  | some e => throw e
  | none => return ()

end Context

end FormulaRules
