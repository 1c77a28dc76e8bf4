import FormulaRules.Condition
import FormulaRules.Proofs.Reading.Refusal

/-!
# The levels that a reading opens and closes

A reading that fails says nothing about where it stood, and it may open as many levels as its budget
allows. Here the same grammar is read with a counter that outlives a failure: opening a level adds
one to the counter and fails if that is too many, closing one subtracts one, and the level around a
part is closed whether or not the part fails. Closing a level where none is open is marked, and so
is a budget that runs out. Whatever is done to the counter is written down.

Main statements: such a reading has the outcome of the plain one for every text, so neither mark is
ever met; up to every moment no more levels have been closed than opened, and at most one more than
the limit is open; and behind a reading that succeeds all levels are closed, while one that fails
leaves at most the level open that was one too many.
-/

namespace FormulaRules

/-- What may be done to the number of open levels. -/
inductive LevelEvent
  | opened
  | closed
deriving DecidableEq

namespace LevelEvent

/-- Events that lead from one number of open levels to another. A level is opened only within the
limit, except for one that is too many, and closed only if it is open. -/
inductive Walk : Nat → Nat → List LevelEvent → Prop
  | nil (n : Nat) : Walk n n []
  | opened {n m : Nat} {es : List LevelEvent} :
    n ≤ maxNesting → Walk (n + 1) m es → Walk n m (.opened :: es)
  | closed {n m : Nat} {es : List LevelEvent} : Walk n m es → Walk (n + 1) m (.closed :: es)

namespace Walk

variable {n m : Nat} {es : List LevelEvent}

/-- Walks follow each other. -/
theorem append {k : Nat} {es' : List LevelEvent} (h : Walk n m es) (h' : Walk m k es') :
    Walk n k (es ++ es') := by
  induction h with
  | nil n => exact h'
  | opened hn _ ih => exact .opened hn (ih h')
  | closed _ ih => exact .closed (ih h')

/-- The beginning of a walk is a walk. -/
theorem exists_of_prefix {pre : List LevelEvent} (h : Walk n m es) (hpre : pre <+: es) :
    ∃ k, Walk n k pre := by
  induction h generalizing pre with
  | nil n => exact ⟨n, List.prefix_nil.mp hpre ▸ .nil n⟩
  | opened hn _ ih =>
    obtain rfl | ⟨rest, rfl, hrest⟩ := List.prefix_cons_iff.mp hpre
    · exact ⟨_, .nil _⟩
    · exact (ih hrest).imp fun _ => .opened hn
  | closed _ ih =>
    obtain rfl | ⟨rest, rfl, hrest⟩ := List.prefix_cons_iff.mp hpre
    · exact ⟨_, .nil _⟩
    · exact (ih hrest).imp fun _ => .closed

/-- The levels at the end are those at the start and those opened on the way, less those closed. -/
theorem add_count (h : Walk n m es) : n + es.count .opened = m + es.count .closed := by
  induction h with
  | nil n => rfl
  | opened hn _ ih =>
    rw [List.count_cons_self, List.count_cons_of_ne (by decide)]
    omega
  | closed _ ih =>
    rw [List.count_cons_self, List.count_cons_of_ne (by decide)]
    omega

/-- No walk leads more than one level above the limit. -/
theorem le_of_le (h : Walk n m es) (hn : n ≤ maxNesting + 1) : m ≤ maxNesting + 1 := by
  induction h with
  | nil n => exact hn
  | opened hlimit _ ih => exact ih (Nat.succ_le_succ hlimit)
  | closed _ ih => exact ih (by omega)

end Walk

end LevelEvent

/-- Where a reading stands, and what has been done to the number of open levels before. -/
structure Track extends Cursor where
  events : List LevelEvent

/-- A reading that still stands somewhere when it has failed. -/
abbrev Tracked := ExceptT SyntaxFault (StateM Track)

namespace Tracked

open FormulaRules.Expr (Node)
open Expr.Reading (peek fail moveTo advance expect build leaf join applySign sign?)

variable {α β : Type}

/-- The outcome of a reading, and where it stands then. -/
def runFrom (t : Tracked α) (c : Track) : Except SyntaxFault α × Track := (ExceptT.run t).run c

/-- A bind runs its second half where the first has stopped. -/
theorem runFrom_bind (t : Tracked α) (f : α → Tracked β) (c : Track) :
    (t >>= f).runFrom c = match t.runFrom c with
      | (.ok a, c') => (f a).runFrom c'
      | (.error fault, c') => (.error fault, c') := by
  unfold runFrom ExceptT.run StateT.run
  simp only [bind, ExceptT.bind, ExceptT.mk, StateT.bind, ExceptT.bindCont]
  rcases t c with ⟨_ | a, c'⟩ <;> rfl

/-- Observing a reading turns its outcome into a value. -/
theorem runFrom_observing (t : Tracked α) (c : Track) :
    (observing t).runFrom c = (.ok (t.runFrom c).1, (t.runFrom c).2) := by
  unfold runFrom ExceptT.run StateT.run
  simp only [observing, tryCatch, tryCatchThe, MonadExceptOf.tryCatch, ExceptT.tryCatch, bind,
    ExceptT.bind, ExceptT.mk, StateT.bind]
  rcases t c with ⟨_ | a, c'⟩ <;> rfl

/-- A reading that leaves the levels alone. -/
def step (r : Reading α) : Tracked α :=
  ExceptT.mk fun c =>
    match r.run c.toCursor with
    | .ok (a, cursor) => (.ok a, ⟨cursor, c.events⟩)
    | .error fault => (.error fault, c)

/-- Open a level. It stays open if it is one too many. -/
def enter : Tracked Unit := do
  modify fun c => { c with level := c.level + 1, events := c.events ++ [.opened] }
  if maxNesting < (← get).level then step (fail .nestedTooDeep)

/-- Close a level. It is marked if none is open. -/
def leave : Tracked Unit := do
  modify fun c => { c with events := c.events ++ [.closed] }
  match (← get).level with
  | 0 => step (fail .unbalanced)
  | level + 1 => modify fun c => { c with level }

/-- Read one level deeper. The level is closed also behind a failure. -/
def within (body : Tracked α) : Tracked α := do
  enter
  let result ← observing body
  leave
  ofExcept result

/-- Join further operands to the left one by any of the given operators. -/
def chain (ops : List Operator) (operand : Tracked Node) : (bound : Nat) → Node → Tracked Node
  | 0, left => return left
  | bound + 1, left => do
    match ← step peek with
    | some (.operator op) =>
      if op ∈ ops then
        step advance
        let right ← operand
        let node ← step (join op left right)
        chain ops operand bound node
      else return left
    | _ => return left

/-- Operands joined by any of the given operators. -/
def chained (bound : Nat) (ops : List Operator) (operand : Tracked Node) : Tracked Node := do
  let first ← operand
  chain ops operand bound first

/-- Operands joined by any operators. Each level has its own, and takes its operands from the next
tighter one. -/
def operation (bound : Nat) (operand : Tracked Node) : Tracked Node :=
  let product := chained bound [.multiply, .divide, .modulo] operand
  let sum := chained bound [.add, .subtract] product
  let relation := chained bound [.less, .lessOrEqual, .greater, .greaterOrEqual] sum
  let equality := chained bound [.equal, .notEqual] relation
  let conjunction := chained bound [.and] equality
  chained bound [.or] conjunction

/-- A conditional, or an operation without one. -/
def ternary (bound : Nat) (operand nested : Tracked Node) : Tracked Node := do
  let condition ← operation bound operand
  if (← step peek) == some .question then
    step advance
    let onTrue ← nested
    step (expect .colon)
    let onFalse ← nested
    step <| build (.conditional condition.expr onTrue.expr onFalse.expr)
      [condition.height, onTrue.height, onFalse.height]
  else return condition

/-- The arguments of a call from one argument on, in order. -/
def arguments (nested : Tracked Node) : (bound : Nat) → Tracked (List Node)
  | 0 => return []
  | bound + 1 => do
    let arg ← nested
    if (← step peek) == some .comma then
      step advance
      let rest ← arguments nested bound
      return arg :: rest
    else return [arg]

/-- The arguments of a call and the parentheses around them. -/
def callOf (bound : Nat) (nested : Tracked Node) (name : String) : Tracked Node := do
  step advance
  let args ← if (← step peek) == some .closeParen then pure [] else arguments nested bound
  step (expect .closeParen)
  step <| build (.call name (args.map Node.expr)) (args.map Node.height)

/-- A literal, a variable, a call or an expression in parentheses. -/
def primary (bound : Nat) (nested : Tracked Node) : Tracked Node := do
  match ← step peek with
  | some (.number x) => step advance; return leaf (.number x)
  | some (.string s) => step advance; return leaf (.string s)
  | some (.boolean b) => step advance; return leaf (.boolean b)
  | some (.identifier name) =>
    step advance
    if (← step peek) == some .openParen then callOf bound nested name else return leaf (.var name)
  | some .openParen =>
    step advance
    let node ← nested
    step (expect .closeParen)
    return node
  | some found => step (fail (.unexpected found))
  | none => step (fail .unexpectedEnd)

/-- A sign before an operand, or an operand without one. -/
def signed (operand primary : Tracked Node) : Tracked Node := do
  match sign? (← step peek) with
  | some sign =>
    step advance
    let node ← operand
    step (applySign sign node)
  | none => primary

/-- The two readings that open levels: an expression of its own and an operand with signs. -/
structure Levels where
  nested : Tracked Node
  operand : Tracked Node

/-- The readings at a budget of levels. The counter decides which level is too many, so a budget
that runs out is marked. -/
def levels (bound : Nat) : (budget : Nat) → Levels
  | 0 => ⟨step (fail .unbalanced), step (fail .unbalanced)⟩
  | budget + 1 =>
    let inner := levels bound budget
    let nested := within (ternary bound inner.operand inner.nested)
    ⟨nested, signed (within inner.operand) (primary bound nested)⟩

/-- An expression, the first token of the text included. -/
def expression (text : TokenStream) : Tracked Expr := do
  step (moveTo text)
  let node ← (levels text.count (maxNesting + 1)).nested
  return node.expr

/-- An expression that ends with the text. -/
def complete (text : TokenStream) : Tracked Expr := do
  let expr ← expression text
  match ← step peek with
  | some found => step (fail (.trailing found))
  | none => return expr

/-- How a tracked run from a number of open levels ends, compared with the plain run. -/
inductive Ends (level : Nat) : Except SyntaxFault α × Track → Except SyntaxFault (α × Cursor) → Prop
  /-- Both have read the same, and stand at the same place. -/
  | value {a : α} {c : Track} : c.level = level → Ends level (.ok a, c) (.ok (a, c.toCursor))
  /-- Both have failed, and all levels that were opened are closed. -/
  | fault {fault : SyntaxFault} {c : Track} :
    c.level = level → Ends level (.error fault, c) (.error fault)
  /-- Both have failed at a level that is one too many, and it is still open. -/
  | tooDeep {position : Nat} {c : Track} : c.level = level + 1 →
    Ends level (.error ⟨.nestedTooDeep, position⟩, c) (.error ⟨.nestedTooDeep, position⟩)

/-- Whether a tracked reading ends like a plain one, from every place with some open levels, and
walks from the levels at the start to those at the end. -/
def Tracks (level : Nat) (t : Tracked α) (r : Reading α) : Prop :=
  ∀ c : Track, c.level = level → Ends level (t.runFrom c) (r.run c.toCursor) ∧
    ∃ es, (t.runFrom c).2.events = c.events ++ es ∧ LevelEvent.Walk level (t.runFrom c).2.level es

/-- A reading that does nothing ends at once. -/
theorem tracks_pure (n : Nat) (a : α) : Tracks n (pure a) (pure a) :=
  fun _ hc => ⟨.value hc, [], (List.append_nil _).symm, hc ▸ .nil n⟩

/-- Binds of readings that end alike end alike. -/
theorem Tracks.bind {n : Nat} {t : Tracked α} {r : Reading α} {f : α → Tracked β}
    {g : α → Reading β} (h : Tracks n t r) (hf : ∀ a, Tracks n (f a) (g a)) :
    Tracks n (t >>= f) (r >>= g) := by
  intro c hc
  obtain ⟨hends, es, hes, hwalk⟩ := h c hc
  rw [runFrom_bind, Expr.Reading.run_bind]
  generalize t.runFrom c = out, r.run c.toCursor = plain at hends hes hwalk
  cases hends with
  | @value a c' hc' =>
    obtain ⟨hends', es', hes', hwalk'⟩ := hf a c' hc'
    refine ⟨hends', es ++ es', ?_, (hc' ▸ hwalk).append hwalk'⟩
    rw [hes', hes, List.append_assoc]
  | fault hc' => exact ⟨.fault hc', es, hes, hwalk⟩
  | tooDeep hc' => exact ⟨.tooDeep hc', es, hes, hwalk⟩

/-- Whether a reading that succeeds has left the levels alone. -/
def KeepsLevel (r : Reading α) : Prop :=
  ∀ c a c', r.run c = .ok (a, c') → c'.level = c.level

/-- A step ends like the reading it takes. -/
theorem tracks_step (n : Nat) {r : Reading α} (h : KeepsLevel r) : Tracks n (step r) r := by
  intro c hc
  have hstep : (step r).runFrom c = match r.run c.toCursor with
      | .ok (a, cursor) => (.ok a, ⟨cursor, c.events⟩)
      | .error fault => (.error fault, c) := rfl
  rw [hstep]
  cases hrun : r.run c.toCursor with
  | error fault => exact ⟨.fault hc, [], (List.append_nil _).symm, hc ▸ .nil n⟩
  | ok p =>
    have hlevel : p.2.level = n := (h _ _ _ hrun).trans hc
    exact ⟨.value hlevel, [], (List.append_nil _).symm, hlevel ▸ .nil n⟩

/-- Looking at the next token leaves the levels alone. -/
theorem keepsLevel_peek : KeepsLevel peek := by
  rintro c a c' ⟨⟩
  rfl

/-- A failure leaves no levels behind. -/
theorem keepsLevel_fail (cause : SyntaxCause) : KeepsLevel (fail cause : Reading α) :=
  nofun

/-- Moving leaves the levels alone. -/
theorem keepsLevel_moveTo (ahead : TokenStream) : KeepsLevel (moveTo ahead) := by
  intro c a c' h
  cases ahead with
  | fault => cases h
  | token | finish =>
    cases h
    rfl

/-- Taking a token leaves the levels alone. -/
theorem keepsLevel_advance : KeepsLevel advance := by
  rintro ⟨ahead, level⟩ a c' h
  cases ahead with
  | token t start stop next => exact keepsLevel_moveTo next _ _ _ h
  | finish position => exact keepsLevel_moveTo (.finish position) _ _ _ h
  | fault cause position => exact keepsLevel_moveTo (.fault cause position) _ _ _ h

/-- Wanting a token leaves the levels alone. -/
theorem keepsLevel_expect (wanted : Token) : KeepsLevel (expect wanted) := by
  intro c a c' h
  rw [expect, Expr.Reading.run_peek_bind] at h
  split at h
  · exact keepsLevel_advance _ _ _ h
  · exact keepsLevel_fail _ _ _ _ h

/-- Building a node leaves the levels alone. -/
theorem keepsLevel_build (e : Expr) (heights : List Nat) : KeepsLevel (build e heights) := by
  intro c a c' h
  rw [build] at h
  split at h
  · cases h
  · cases h
    rfl

/-- Applying a sign leaves the levels alone. -/
theorem keepsLevel_applySign (sign : Expr.Reading.Sign) (operand : Node) :
    KeepsLevel (applySign sign operand) := by
  unfold applySign
  split
  · rintro c a c' ⟨⟩
    rfl
  · rintro c a c' ⟨⟩
    rfl
  · exact keepsLevel_build _ _
  · exact keepsLevel_build _ _
  · exact keepsLevel_build _ _

/-- A loop over operators ends like the plain one. -/
theorem Tracks.chain {n : Nat} {operand : Tracked Node} {plain : Reading Node}
    (h : Tracks n operand plain) (ops : List Operator) (links : Nat) (left : Node) :
    Tracks n (chain ops operand links left) (Expr.Reading.chain ops plain links left) := by
  induction links generalizing left with
  | zero => exact tracks_pure n left
  | succ links ih =>
    refine (tracks_step n keepsLevel_peek).bind fun found => ?_
    rcases found with _ | t
    · exact tracks_pure n left
    cases t with
    | operator op =>
      change Tracks n (if op ∈ ops then _ else _) (if op ∈ ops then _ else _)
      split
      · refine (tracks_step n keepsLevel_advance).bind fun _ => h.bind fun right => ?_
        exact (tracks_step n (keepsLevel_build _ _)).bind fun node => ih node
      · exact tracks_pure n left
    | _ => exact tracks_pure n left

/-- Operands that are joined end like the plain ones. -/
theorem Tracks.chained {n : Nat} {operand : Tracked Node} {plain : Reading Node}
    (h : Tracks n operand plain) (bound : Nat) (ops : List Operator) :
    Tracks n (chained bound ops operand) (Expr.Reading.chained bound ops plain) :=
  h.bind (h.chain ops bound)

/-- A conditional ends like the plain one. -/
theorem Tracks.ternary {n : Nat} {operand nested : Tracked Node} {plain plainNested : Reading Node}
    (hoperand : Tracks n operand plain) (hnested : Tracks n nested plainNested) (bound : Nat) :
    Tracks n (ternary bound operand nested) (Expr.Reading.ternary bound plain plainNested) := by
  have hoperation : Tracks n (operation bound operand) (Expr.Reading.operation bound plain) :=
    (((((hoperand.chained bound _).chained bound _).chained bound _).chained bound _).chained bound
      _).chained bound _
  refine hoperation.bind fun condition => (tracks_step n keepsLevel_peek).bind fun found => ?_
  split
  · exact (tracks_step n keepsLevel_advance).bind fun _ => hnested.bind fun onTrue =>
      (tracks_step n (keepsLevel_expect _)).bind fun _ => hnested.bind fun onFalse =>
        tracks_step n (keepsLevel_build _ _)
  · exact tracks_pure n condition

/-- A loop over arguments ends like the plain one. -/
theorem Tracks.arguments {n : Nat} {nested : Tracked Node} {plain : Reading Node}
    (h : Tracks n nested plain) (count : Nat) :
    Tracks n (arguments nested count) (Expr.Reading.arguments plain count) := by
  induction count with
  | zero => exact tracks_pure n []
  | succ count ih =>
    refine h.bind fun arg => (tracks_step n keepsLevel_peek).bind fun found => ?_
    split
    · exact (tracks_step n keepsLevel_advance).bind fun _ => ih.bind fun rest => tracks_pure n _
    · exact tracks_pure n [arg]

/-- A call ends like the plain one. -/
theorem Tracks.callOf {n : Nat} {nested : Tracked Node} {plain : Reading Node}
    (h : Tracks n nested plain) (bound : Nat) (name : String) :
    Tracks n (callOf bound nested name) (Expr.Reading.callOf bound plain name) := by
  have hclose (args : List Node) : Tracks n
      (step (expect .closeParen) >>= fun _ =>
        step (build (.call name (args.map Node.expr)) (args.map Node.height)))
      (Expr.Reading.closeCall name args) :=
    (tracks_step n (keepsLevel_expect _)).bind fun _ => tracks_step n (keepsLevel_build _ _)
  refine (tracks_step n keepsLevel_advance).bind fun _ =>
    (tracks_step n keepsLevel_peek).bind fun found => ?_
  split
  · exact hclose []
  · exact (h.arguments bound).bind hclose

/-- A literal, a variable, a call or an expression in parentheses ends like the plain one. -/
theorem Tracks.primary {n : Nat} {nested : Tracked Node} {plain : Reading Node}
    (h : Tracks n nested plain) (bound : Nat) :
    Tracks n (primary bound nested) (Expr.Reading.primary bound plain) := by
  have hadvance {t : Tracked Node} {r : Reading Node} (htr : Tracks n t r) :
      Tracks n (step advance >>= fun _ => t) (advance >>= fun _ => r) :=
    (tracks_step n keepsLevel_advance).bind fun _ => htr
  refine (tracks_step n keepsLevel_peek).bind fun found => ?_
  rcases found with _ | t
  · exact tracks_step n (keepsLevel_fail _)
  cases t with
  | number | string | boolean => exact hadvance (tracks_pure n _)
  | identifier name =>
    refine hadvance ((tracks_step n keepsLevel_peek).bind fun next => ?_)
    split
    · exact h.callOf bound name
    · exact tracks_pure n _
  | openParen =>
    exact hadvance (h.bind fun inner => (tracks_step n (keepsLevel_expect _)).bind fun _ =>
      tracks_pure n inner)
  | _ => exact tracks_step n (keepsLevel_fail _)

/-- An operand with or without a sign ends like the plain one. -/
theorem Tracks.signed {n : Nat} {operand primary : Tracked Node}
    {plain plainPrimary : Reading Node} (hoperand : Tracks n operand plain)
    (hprimary : Tracks n primary plainPrimary) :
    Tracks n (signed operand primary) (Expr.Reading.signed plain plainPrimary) := by
  refine (tracks_step n keepsLevel_peek).bind fun found => ?_
  rcases sign? found with _ | sign
  · exact hprimary
  · exact (tracks_step n keepsLevel_advance).bind fun _ => hoperand.bind fun operand =>
      tracks_step n (keepsLevel_applySign sign operand)

/-- A place with one more level open. -/
def opened (c : Track) : Track :=
  { c with level := c.level + 1, events := c.events ++ [.opened] }

/-- A level within the limit is opened. -/
theorem runFrom_enter {c : Track} (h : c.level < maxNesting) :
    enter.runFrom c = (.ok (), opened c) := by
  have hlimit : ¬maxNesting < c.level + 1 := Nat.not_lt.mpr h
  change (if maxNesting < c.level + 1 then step (fail .nestedTooDeep) else pure () :
    Tracked Unit).runFrom (opened c) = _
  rw [if_neg hlimit]
  rfl

/-- At the limit a level is opened and refused. -/
theorem runFrom_enter_full {c : Track} (h : c.level = maxNesting) :
    enter.runFrom c = (.error ⟨.nestedTooDeep, c.ahead.position⟩, opened c) := by
  have hlimit : maxNesting < c.level + 1 := Nat.lt_succ_of_le (Nat.le_of_eq h.symm)
  change (if maxNesting < c.level + 1 then step (fail .nestedTooDeep) else pure () :
    Tracked Unit).runFrom (opened c) = _
  rw [if_pos hlimit]
  rfl

/-- What is read in an open level ends as it does there, with the level closed. -/
theorem runFrom_within {body : Tracked α} {c c' : Track} {out : Except SyntaxFault α} {level : Nat}
    (h : c.level < maxNesting) (hrun : body.runFrom (opened c) = (out, c'))
    (hlevel : c'.level = level + 1) :
    (within body).runFrom c = (out, ⟨⟨c'.ahead, level⟩, c'.events ++ [.closed]⟩) := by
  have hobserved : (observing body).runFrom (opened c) = (.ok out, c') := by
    rw [runFrom_observing, hrun]
  have hleave : leave.runFrom c' = (.ok (), ⟨⟨c'.ahead, level⟩, c'.events ++ [.closed]⟩) := by
    obtain ⟨⟨ahead, k⟩, events⟩ := c'
    obtain rfl : k = level + 1 := hlevel
    rfl
  simp only [within, runFrom_bind, runFrom_enter h, hobserved, hleave]
  cases out with
  | ok a => rfl
  | error fault => rfl

/-- A reading one level deeper ends like the plain one. -/
theorem Tracks.within {n : Nat} {t : Tracked α} {r : Reading α} (h : Tracks (n + 1) t r)
    (hn : n < maxNesting) : Tracks n (within t) (Expr.Reading.within r) := by
  intro c hc
  have hlow : c.level < maxNesting := hc.symm ▸ hn
  obtain ⟨hends, es, hes, hwalk⟩ := h (opened c) (congrArg (· + 1) hc)
  have hplain : (Expr.Reading.within r).run c.toCursor =
      (r >>= fun a => do
        match (← get).level with
        | 0 => fail .unbalanced
        | level + 1 => modify fun c => { c with level }; return a).run (opened c).toCursor := rfl
  rw [hplain, Expr.Reading.run_bind]
  rcases hrun : t.runFrom (opened c) with ⟨out, ⟨⟨ahead, last⟩, events⟩⟩
  rw [hrun] at hends hes hwalk
  have hclosed {level : Nat} (hlast : last = level + 1) :
      ∃ es', events ++ [.closed] = c.events ++ es' ∧ LevelEvent.Walk n level es' := by
    have hevents : events = c.events ++ [.opened] ++ es := hes
    refine ⟨.opened :: (es ++ [.closed]), ?_, .opened (Nat.le_of_lt hn) ?_⟩
    · rw [hevents, List.append_assoc, List.append_assoc, List.singleton_append]
    · exact hwalk.append (hlast ▸ .closed (.nil level))
  generalize r.run (opened c).toCursor = plain at hends
  cases hends with
  | value hlast =>
    obtain rfl : last = n + 1 := hlast
    rw [runFrom_within hlow hrun rfl]
    exact ⟨.value rfl, hclosed rfl⟩
  | fault hlast =>
    rw [runFrom_within hlow hrun hlast]
    exact ⟨.fault rfl, hclosed hlast⟩
  | tooDeep hlast =>
    rw [runFrom_within hlow hrun hlast]
    exact ⟨.tooDeep rfl, hclosed hlast⟩

/-- At the limit a reading one level deeper ends like a refusal. -/
theorem tracks_within_full (t : Tracked α) :
    Tracks maxNesting (within t) (fail .nestedTooDeep) := by
  intro c hc
  have hrun : (within t).runFrom c =
      (.error ⟨.nestedTooDeep, c.ahead.position⟩, opened c) := by
    simp only [within, runFrom_bind, runFrom_enter_full hc]
  rw [hrun]
  refine ⟨.tooDeep (congrArg (· + 1) hc), [.opened], rfl, ?_⟩
  exact .opened (Nat.le_refl _) (congrArg (· + 1) hc ▸ .nil _)

/-- The readings at a number of open levels end like those at the rest of the limit. -/
theorem tracks_levels (bound : Nat) {level budget : Nat} (h : level + budget = maxNesting) :
    Tracks level (levels bound (budget + 1)).nested (Expr.Reading.levels bound budget).nested ∧
      Tracks level (levels bound (budget + 1)).operand
        (Expr.Reading.levels bound budget).operand := by
  induction budget generalizing level with
  | zero =>
    obtain rfl : level = maxNesting := h
    have hnested := tracks_within_full
      (ternary bound (levels bound 0).operand (levels bound 0).nested)
    exact ⟨hnested, (tracks_within_full (levels bound 0).operand).signed (hnested.primary bound)⟩
  | succ budget ih =>
    have hdeeper : level + 1 + budget = maxNesting := by omega
    obtain ⟨hinner, hoperand⟩ := ih hdeeper
    have hnested := (hoperand.ternary hinner bound).within (by omega)
    exact ⟨hnested, (hoperand.within (by omega)).signed (hnested.primary bound)⟩

/-- The expression at the head of a text ends like the plain one. -/
theorem tracks_expression (text : TokenStream) :
    Tracks 0 (expression text) (Expr.Reading.expression text) :=
  (tracks_step 0 (keepsLevel_moveTo text)).bind fun _ =>
    (tracks_levels text.count (Nat.zero_add maxNesting)).1.bind fun node => tracks_pure 0 node.expr

/-- The expression that fills a text ends like the plain one. -/
theorem tracks_complete (text : TokenStream) :
    Tracks 0 (complete text) (Expr.Reading.complete text) := by
  refine (tracks_expression text).bind fun e => (tracks_step 0 keepsLevel_peek).bind fun found => ?_
  rcases found with _ | found
  · exact tracks_pure 0 e
  · exact tracks_step 0 (keepsLevel_fail _)

/-- The run of a reading from the start of a text, with no level open. -/
def onText (reading : TokenStream → Tracked Expr) (s : String) : Except SyntaxFault Expr × Track :=
  (reading (TokenStream.ofText s)).runFrom ⟨⟨TokenStream.ofText s, 0⟩, []⟩

/-- A text is read by a tracked reading as by the plain one. -/
theorem readWith_eq {reading : TokenStream → Tracked Expr} {plain : TokenStream → Reading Expr}
    (h : ∀ text, Tracks 0 (reading text) (plain text)) (s : String) :
    Expr.readWith plain s = (onText reading s).1.mapError fun fault => ⟨fault, s⟩ := by
  have hends := (h (TokenStream.ofText s) ⟨⟨TokenStream.ofText s, 0⟩, []⟩ rfl).1
  rw [Expr.readWith, onText]
  generalize (reading (TokenStream.ofText s)).runFrom _ = out at hends
  dsimp only at hends ⊢
  generalize (plain (TokenStream.ofText s)).run _ = expected at hends
  cases hends with
  | value | fault | tooDeep => rfl

/-- What holds of a run that started with no level open and has met no mark. -/
structure Balanced (run : Except SyntaxFault α × Track) : Prop where
  /-- No level is closed that is not open, and the budget does not run out. -/
  unmarked : ∀ fault, run.1 = .error fault → fault.cause ≠ .unbalanced
  /-- Up to every moment no more levels are closed than opened. -/
  closed_le : ∀ pre, pre <+: run.2.events → pre.count .closed ≤ pre.count .opened
  /-- At every moment at most one level more than the limit is open. -/
  opened_le : ∀ pre, pre <+: run.2.events →
    pre.count .opened ≤ pre.count .closed + (maxNesting + 1)
  /-- The counter is the number of levels that have been opened and not closed. -/
  opened_eq : run.2.events.count .opened = run.2.events.count .closed + run.2.level
  /-- A reading that succeeds has closed all levels. -/
  restored : ∀ a, run.1 = .ok a → run.2.level = 0
  /-- So has one that fails, except for a level that was one too many. -/
  restored_of_error : ∀ fault, run.1 = .error fault →
    run.2.level = 0 ∨ run.2.level = 1 ∧ fault.cause = .nestedTooDeep

/-- A tracked reading of a text is balanced if the plain one meets no mark. -/
theorem Tracks.balanced {t : Tracked α} {r : Reading α} {text : TokenStream} (h : Tracks 0 t r)
    (hmark : ∀ fault, r.run ⟨text, 0⟩ = .error fault → fault.cause ≠ .unbalanced) :
    Balanced (t.runFrom ⟨⟨text, 0⟩, []⟩) := by
  obtain ⟨hends, es, hes, hwalk⟩ := h ⟨⟨text, 0⟩, []⟩ rfl
  dsimp only at hends
  rw [List.nil_append] at hes
  subst hes
  generalize t.runFrom ⟨⟨text, 0⟩, []⟩ = run at hends hwalk
  generalize r.run ⟨text, 0⟩ = plain at hends hmark
  have hbegins (pre : List LevelEvent) (hpre : pre <+: run.2.events) :
      ∃ k ≤ maxNesting + 1, 0 + pre.count .opened = k + pre.count .closed := by
    obtain ⟨k, hk⟩ := hwalk.exists_of_prefix hpre
    exact ⟨k, hk.le_of_le (Nat.zero_le _), hk.add_count⟩
  have hall := hwalk.add_count
  refine ⟨fun fault hfault => ?_, fun pre hpre => ?_, fun pre hpre => ?_, by omega,
    fun a ha => ?_, fun fault hfault => ?_⟩
  · cases hends with
    | value => cases hfault
    | fault | tooDeep =>
      cases hfault
      exact hmark _ rfl
  · obtain ⟨k, -, hk⟩ := hbegins pre hpre
    omega
  · obtain ⟨k, hlimit, hk⟩ := hbegins pre hpre
    omega
  · cases hends with
    | value hlevel => exact hlevel
    | fault | tooDeep => cases ha
  · cases hends with
    | value => cases hfault
    | fault hlevel => exact .inl hlevel
    | tooDeep hlevel =>
      cases hfault
      exact .inr ⟨hlevel, rfl⟩

end Tracked

namespace Expr

/-- What is refused is never refused for closing a level that is not open. -/
theorem Reading.unmarked_of_complete {s : String} {fault : SyntaxFault}
    (h : (complete (TokenStream.ofText s)).run ⟨TokenStream.ofText s, 0⟩ = .error fault) :
    fault.cause ≠ .unbalanced := by
  cases refusal_of_complete h with
  | lexical hspan =>
    rintro rfl
    exact TokenStream.isLexical_of_spans_ofChars hspan
  | misplaced hcause =>
    rintro rfl
    exact hcause
  | nesting | height => nofun

/-- Neither is the expression at the head of a text. -/
theorem Reading.unmarked_of_expression {s : String} {fault : SyntaxFault}
    (h : (expression (TokenStream.ofText s)).run ⟨TokenStream.ofText s, 0⟩ = .error fault) :
    fault.cause ≠ .unbalanced :=
  unmarked_of_complete (run_bind_eq_error_iff.mpr (.inl h))

/-- A formula is never refused for closing a level that is not open. -/
theorem unmarked_of_parseFormula {s : String} {x : SyntaxError} (h : parseFormula s = .error x) :
    x.cause ≠ .unbalanced := by
  rw [parseFormula] at h
  split at h
  · cases h
    intro hcause
    cases hcause
  · exact Reading.unmarked_of_complete (run_complete_of_parseComplete h).2

end Expr

/-- A condition is never refused for closing a level that is not open. -/
theorem Condition.unmarked_of_read {s : String} {x : SyntaxError} (h : read s = .error x) :
    x.cause ≠ .unbalanced := by
  rw [read] at h
  split at h
  · cases h
  · exact Expr.Reading.unmarked_of_complete (Expr.run_complete_of_parseComplete h).2

end FormulaRules
