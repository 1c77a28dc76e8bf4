import FormulaRules.Proofs.Grammar.Elaboration

/-!
# How a reading runs

Equations for the steps of a reading, and a relation that compares a run with an outcome
computed without tokens. A failing run has to give the cause of the outcome; the position is
left open.

A stream spans tokens up to a place if the tokens stand before that place. All positions are
forgotten by this relation.
-/

namespace FormulaRules

namespace TokenStream

/-- Whether a stream starts with a lexical fault. -/
def IsFault : TokenStream → Prop
  | fault _ _ => True
  | _ => False

/-- A token is no fault. -/
theorem not_isFault_token {t : Token} {start stop : Nat} {next : TokenStream} :
    ¬(token t start stop next).IsFault :=
  not_false

/-- Tokens that stand in a stream before a place of it. -/
inductive Spans : TokenStream → List Token → TokenStream → Prop
  | nil (s : TokenStream) : Spans s [] s
  | cons {t : Token} {start stop : Nat} {next rest : TokenStream} {ts : List Token} :
      Spans next ts rest → Spans (token t start stop next) (t :: ts) rest

/-- No tokens stand before the place where a stream starts. -/
@[simp] theorem spans_nil_iff {s rest : TokenStream} : Spans s [] rest ↔ s = rest := by
  constructor
  · rintro ⟨⟩
    rfl
  · rintro rfl
    exact .nil s

/-- The first token of a span is the next token. -/
theorem spans_cons_iff {s rest : TokenStream} {t : Token} {ts : List Token} :
    Spans s (t :: ts) rest ↔ ∃ start stop next, s = token t start stop next ∧ Spans next ts rest := by
  constructor
  · rintro (_ | h)
    exact ⟨_, _, _, rfl, h⟩
  · rintro ⟨start, stop, next, rfl, h⟩
    exact .cons h

/-- A span of two lists goes through a place between them. -/
theorem spans_append_iff {s rest : TokenStream} {ts us : List Token} :
    Spans s (ts ++ us) rest ↔ ∃ mid, Spans s ts mid ∧ Spans mid us rest := by
  induction ts generalizing s with
  | nil => simp
  | cons t ts ih =>
    simp only [List.cons_append, spans_cons_iff, ih]
    constructor
    · rintro ⟨start, stop, next, rfl, mid, hts, hus⟩
      exact ⟨mid, ⟨start, stop, next, rfl, hts⟩, hus⟩
    · rintro ⟨mid, ⟨start, stop, next, rfl, hts⟩, hus⟩
      exact ⟨start, stop, next, rfl, mid, hts, hus⟩

/-- A span that ends before a fault does not end after it. -/
theorem Spans.not_isFault {s rest : TokenStream} {ts : List Token} (h : Spans s ts rest)
    (hrest : ¬rest.IsFault) : ¬s.IsFault := by
  cases h with
  | nil => exact hrest
  | cons _ => exact not_isFault_token

/-- Spans follow each other. -/
theorem Spans.append {s mid rest : TokenStream} {ts us : List Token} (hts : Spans s ts mid)
    (hus : Spans mid us rest) : Spans s (ts ++ us) rest :=
  spans_append_iff.mpr ⟨mid, hts, hus⟩

/-- The tokens of a span are no longer ahead behind it. -/
theorem Spans.count_add_length {s rest : TokenStream} {ts : List Token} (h : Spans s ts rest) :
    rest.count + ts.length = s.count := by
  induction h with
  | nil => rfl
  | cons _ ih =>
    rw [List.length_cons, ← Nat.add_assoc, ih]
    rfl

end TokenStream

/-- Whether a token carries nothing but itself. -/
def Token.IsMark : Token → Prop
  | .number _ | .string _ | .boolean _ | .identifier _ | .operator _ => False
  | _ => True

/-- Comparing the next token with a mark decides whether it is that mark. -/
theorem Token.beq_mark_iff {t : Option Token} (mark : Token) (h : mark.IsMark) :
    (t == some mark) = true ↔ t = some mark := by
  cases t with
  | none => simp
  | some t =>
    cases mark <;> first | exact h.elim | (cases t <;> simp <;> rfl)

/-- A run ends with the cause of an outcome at some position, or goes on as its value says. -/
def Follows {α β : Type} (run : Except SyntaxFault β) :
    Except SyntaxCause α → (α → Except SyntaxFault β) → Prop
  | .ok a, next => run = next a
  | .error cause, _ => ∃ position, run = .error ⟨cause, position⟩

namespace Follows

variable {α β γ : Type}

/-- Continuations compose along a bind of outcomes. -/
theorem trans {run : Except SyntaxFault β} {out : Except SyntaxCause α}
    {mid : α → Except SyntaxFault β} {f : α → Except SyntaxCause γ}
    {next : γ → Except SyntaxFault β} (h : Follows run out mid)
    (hmid : ∀ a, Follows (mid a) (f a) next) : Follows run (out >>= f) next := by
  cases out with
  | error cause => exact h
  | ok a =>
    have hrun : run = mid a := h
    rw [hrun]
    exact hmid a

/-- A continuation may be replaced by an equal one. -/
theorem mono {run : Except SyntaxFault β} {out : Except SyntaxCause α}
    {next next' : α → Except SyntaxFault β} (h : Follows run out next)
    (heq : ∀ a, next a = next' a) : Follows run out next' := by
  rwa [← funext heq]

end Follows

namespace Expr.Reading

open TokenStream

/-- The node of a tree. -/
def node (e : Expr) : Node := ⟨e, e.height⟩

variable {α β γ : Type}

/-- A bind runs its halves one after the other. -/
theorem run_bind (r : Reading α) (f : α → Reading β) (c : Cursor) :
    (r >>= f).run c = r.run c >>= fun p => (f p.1).run p.2 := rfl

/-- Looking at the next token changes nothing. -/
theorem run_peek_bind (f : Option Token → Reading β) (c : Cursor) :
    (peek >>= f).run c = (f c.ahead.head?).run c := rfl

/-- What follows a reading runs where the reading has stopped. -/
theorem follows_bind {r : Reading α} {f : α → Reading β} {c c' : Cursor}
    {out : Except SyntaxCause γ} {value : γ → α}
    (h : Follows (r.run c) out fun a => .ok (value a, c')) :
    Follows ((r >>= f).run c) out fun a => (f (value a)).run c' := by
  rw [run_bind]
  cases out with
  | error cause =>
    obtain ⟨position, hrun⟩ := h
    exact ⟨position, by rw [hrun]; rfl⟩
  | ok a =>
    have hrun : r.run c = .ok (value a, c') := h
    rw [hrun]
    rfl

/-- Failing fails with the given cause. -/
theorem follows_fail {cause : SyntaxCause} {c : Cursor} {f : γ → Except SyntaxFault (α × Cursor)} :
    Follows ((fail cause : Reading α).run c) (.error cause) f :=
  ⟨c.ahead.position, rfl⟩

/-- Taking a token moves to what follows it. -/
theorem run_advance (t : Token) (start stop : Nat) {next : TokenStream} (level : Nat)
    (h : ¬next.IsFault) :
    advance.run ⟨.token t start stop next, level⟩ = .ok ((), ⟨next, level⟩) := by
  cases next with
  | fault cause position => exact absurd trivial h
  | token t start stop next => rfl
  | finish position => rfl

/-- A reading goes on behind a token that it takes. -/
theorem run_advance_bind (f : Unit → Reading β) (t : Token) (start stop : Nat)
    {next : TokenStream} (level : Nat) (h : ¬next.IsFault) :
    (advance >>= f).run ⟨.token t start stop next, level⟩ = (f ()).run ⟨next, level⟩ := by
  rw [run_bind, run_advance t start stop level h]
  rfl

/-- A reading goes on behind a mark that it wants. -/
theorem run_expect_bind (f : Unit → Reading β) (mark : Token) (hmark : mark.IsMark)
    (start stop : Nat) {next : TokenStream} (level : Nat) (h : ¬next.IsFault) :
    (expect mark >>= f).run ⟨.token mark start stop next, level⟩ = (f ()).run ⟨next, level⟩ := by
  have hbeq : (some mark == some mark) = true := (Token.beq_mark_iff mark hmark).mpr rfl
  rw [run_bind]
  change ((if some mark == some mark then advance else fail _ : Reading Unit).run _ >>= _) = _
  rw [if_pos hbeq, run_advance mark start stop level h]
  rfl

/-- Reading deeper changes nothing but the level in between. -/
theorem follows_within {r : Reading Node} {s rest : TokenStream} {out : Except SyntaxCause Expr}
    (h : ∀ level, Follows (r.run ⟨s, level⟩) out fun e => .ok (node e, ⟨rest, level⟩))
    (level : Nat) :
    Follows ((within r).run ⟨s, level⟩) out fun e => .ok (node e, ⟨rest, level⟩) := by
  cases out with
  | error cause =>
    obtain ⟨position, hrun⟩ := h (level + 1)
    refine ⟨position, ?_⟩
    change (r.run ⟨s, level + 1⟩ >>= _) = _
    rw [hrun]
    rfl
  | ok e =>
    have hrun : r.run ⟨s, level + 1⟩ = .ok (node e, ⟨rest, level + 1⟩) := h (level + 1)
    change (r.run ⟨s, level + 1⟩ >>= _) = _
    rw [hrun]
    rfl

/-- Building a node checks the height of its tree. -/
theorem follows_build {e : Expr} {heights : List Nat} (h : heights.foldl max 0 + 1 = e.height)
    (c : Cursor) : Follows ((build e heights).run c) e.bounded fun e => .ok (node e, c) := by
  simp only [build, bounded, h]
  by_cases hheight : maxHeight < e.height
  · rw [if_pos hheight, if_pos hheight]
    exact follows_fail
  · rw [if_neg hheight, if_neg hheight]
    rfl

/-- Joining two operands builds their tree. -/
theorem follows_join (op : Operator) (a b : Expr) (c : Cursor) :
    Follows ((join op (node a) (node b)).run c) (Expr.binary op a b).bounded
      fun e => .ok (node e, c) :=
  follows_build (by simp [node, height]) c

/-- The greatest of the heights of a list of nodes. -/
theorem foldl_max_heights (es : List Expr) (n : Nat) :
    ((es.map node).map Node.height).foldl max n = max n (heightAll es) := by
  induction es generalizing n with
  | nil => simp [heightAll]
  | cons e rest ih =>
    simp only [List.map_cons, List.foldl_cons, ih, heightAll, node]
    omega

/-- The node of a call is built from the nodes of its arguments. -/
theorem follows_build_call (name : String) (es : List Expr) (c : Cursor) :
    Follows ((build (.call name ((es.map node).map Node.expr))
        ((es.map node).map Node.height)).run c) (Expr.call name es).bounded
      fun e => .ok (node e, c) := by
  have hexprs : (es.map node).map Node.expr = es := by simp [node, Function.comp_def]
  rw [hexprs]
  refine follows_build ?_ c
  rw [foldl_max_heights, height, Nat.zero_max]

/-- The node of a number needs no check. -/
theorem follows_number (x : Float) (c : Cursor) :
    Follows ((pure (leaf (.number x)) : Reading Node).run c) (Expr.number x).bounded
      fun e => .ok (node e, c) := by
  have hbounded : (Expr.number x).bounded = .ok (.number x) :=
    bounded_eq_ok_iff.mpr ⟨by simp [height, maxHeight], rfl⟩
  rw [hbounded]
  rfl

/-- A sign is applied to the tree of its operand. -/
theorem follows_applySign (sign : Sign) (e : Expr) (c : Cursor) :
    Follows ((applySign sign (node e)).run c) (sign.tree e).bounded fun e => .ok (node e, c) := by
  cases sign with
  | negation => exact follows_build (by simp [node, height, heightAll]) c
  | minus =>
    cases e with
    | literal v =>
      cases v with
      | number x => exact follows_number (-x) c
      | boolean b => exact follows_join .subtract (.number 0) (.boolean b) c
      | string s => exact follows_join .subtract (.number 0) (.string s) c
    | var | binary | conditional | call => exact follows_join .subtract (.number 0) _ c
  | plus =>
    cases e with
    | literal v =>
      cases v with
      | number x => exact follows_number x c
      | boolean b => exact follows_join .add (.number 0) (.boolean b) c
      | string s => exact follows_join .add (.number 0) (.string s) c
    | var | binary | conditional | call => exact follows_join .add (.number 0) _ c

end Expr.Reading

end FormulaRules
