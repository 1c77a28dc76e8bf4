import FormulaRules.Proofs.Reading.Outcome

/-!
# Reading the tokens of a phrase

Every phrase of the grammar is read as its elaboration says, whatever follows it, as long as
the next token cannot belong to the phrase. The induction is on the derivation. A chain of
operators grows at its right end while the derivation descends on its left, so for chains the
induction carries the loop that still has to run and not its result.
-/

namespace FormulaRules

open TokenStream

/-- Every phrase starts with a token that closes nothing. -/
theorem Phrase.tokens_eq_cons : (p : Phrase) → ∃ t ts, p.tokens = t :: ts ∧ t ≠ .closeParen
  | number x => ⟨.number x, [], by simp [tokens]⟩
  | string s => ⟨.string s, [], by simp [tokens]⟩
  | boolean b => ⟨.boolean b, [], by simp [tokens]⟩
  | var name => ⟨.identifier name, [], by simp [tokens]⟩
  | call name [] => ⟨.identifier name, [.openParen, .closeParen], by simp [tokens]⟩
  | call name (arg :: args) => ⟨.identifier name, _, by rw [tokens], by simp⟩
  | parenthesized p => ⟨.openParen, _, by rw [tokens], by simp⟩
  | signed sign p => ⟨sign.token, _, by rw [tokens], by cases sign <;> simp [Expr.Reading.Sign.token]⟩
  | binary op a b => by
    obtain ⟨t, ts, hts, ht⟩ := a.tokens_eq_cons
    exact ⟨t, ts ++ .operator op :: b.tokens, by simp [tokens, hts], ht⟩
  | conditional c a b => by
    obtain ⟨t, ts, hts, ht⟩ := c.tokens_eq_cons
    exact ⟨t, ts ++ .question :: (a.tokens ++ .colon :: b.tokens), by simp [tokens, hts], ht⟩

/-- A phrase has a token. -/
theorem Phrase.tokens_length_pos (p : Phrase) : 0 < p.tokens.length := by
  obtain ⟨t, ts, hts, -⟩ := p.tokens_eq_cons
  simp [hts]

/-- There are at least as many tokens as arguments after the first. -/
theorem Phrase.length_le_tokensRest (args : List Phrase) :
    args.length ≤ (tokensRest args).length := by
  induction args with
  | nil => exact Nat.zero_le _
  | cons arg args ih =>
    simp only [tokensRest, List.length_cons, List.length_append]
    omega

/-- A stream that starts with a phrase starts with no fault. -/
theorem TokenStream.Spans.not_isFault_phrase {s rest : TokenStream} {p : Phrase}
    (h : Spans s p.tokens rest) : ¬s.IsFault := by
  obtain ⟨t, ts, hts, -⟩ := p.tokens_eq_cons
  rw [hts, spans_cons_iff] at h
  obtain ⟨start, stop, next, rfl, -⟩ := h
  exact not_isFault_token

namespace Symbol

/-- How tightly the phrases of a symbol hold together. -/
def rank : Symbol → Nat
  | expression => 0
  | disjunction => 1
  | conjunction => 2
  | equality => 3
  | relation => 4
  | sum => 5
  | product => 6
  | signed => 7
  | primary => 8

/-- The symbols whose phrases are chains of operators, from the loosest to the tightest. -/
def chains : List Symbol := [disjunction, conjunction, equality, relation, sum, product]

/-- The operators listed for a symbol have the precedence of its rank. -/
theorem precedence_eq_rank {s : Symbol} {op : Operator} (h : op ∈ s.operators) :
    op.precedence = s.rank := by
  cases s <;> simp only [operators, List.mem_cons, List.not_mem_nil, or_false] at h
  all_goals rcases h with rfl | rfl | rfl | rfl
  all_goals rfl

/-- An operator with the precedence of the rank of a symbol is listed for it. -/
theorem mem_operators {s : Symbol} {op : Operator} (h : op.precedence = s.rank) :
    op ∈ s.operators := by
  cases s <;> cases op <;> simp_all [operators, rank, Operator.precedence]

/-- Operands hold together at least as tightly as the whole. -/
theorem rank_le_rank_operand (s : Symbol) : s.rank ≤ s.operand.rank := by
  cases s <;> decide

/-- The operands of a chain hold together one rank more tightly. -/
theorem rank_operand {s : Symbol} (h : s ≠ .primary) : s.operand.rank = s.rank + 1 := by
  cases s <;> first | rfl | exact absurd rfl h

/-- The operands of a chain hold together more tightly than the chain. -/
theorem rank_lt_rank_operand {s : Symbol} (h : s ≠ .primary) : s.rank < s.operand.rank := by
  rw [rank_operand h]
  exact Nat.lt_succ_self _

/-- The ranks of two symbols differ. -/
theorem rank_injective {s t : Symbol} (h : s.rank = t.rank) : s = t := by
  cases s <;> cases t <;> first | rfl | exact absurd h (by decide)

end Symbol

/-- A phrase may stand where one of a looser symbol may. -/
theorem Derives.loosen {s t : Symbol} {p : Phrase} (h : Derives t p) (hle : s.rank ≤ t.rank) :
    Derives s p := by
  induction hgap : t.rank - s.rank generalizing s with
  | zero =>
    obtain rfl : s = t := Symbol.rank_injective (by omega)
    exact h
  | succ gap ih =>
    have hs : s ≠ .primary := by
      intro heq
      subst heq
      have htop : t.rank ≤ Symbol.primary.rank := by cases t <;> decide
      omega
    have hoperand := Symbol.rank_operand hs
    exact .tighter (ih (by omega) (by omega))

/-- How tightly a token binds to the phrase before it, if it can do so at all. -/
def Token.grip? : Token → Option Nat
  | .openParen => some 8
  | .operator op => some op.precedence
  | .question => some 0
  | _ => none

/-- Whether a phrase of a symbol ends where a stream starts. -/
def Symbol.EndsAt (s : Symbol) (rest : TokenStream) : Prop :=
  ∀ t ∈ rest.head?, ∀ grip ∈ t.grip?, grip < s.rank

/-- An operand ends where the whole ends. -/
theorem Symbol.EndsAt.operand {s : Symbol} {rest : TokenStream} (h : s.EndsAt rest) :
    s.operand.EndsAt rest :=
  fun t ht grip hgrip => Nat.lt_of_lt_of_le (h t ht grip hgrip) s.rank_le_rank_operand

/-- A phrase ends before a token that binds less tightly. -/
theorem Symbol.endsAt_token {s : Symbol} {t : Token} {start stop : Nat} {next : TokenStream}
    (h : ∀ grip ∈ t.grip?, grip < s.rank) : s.EndsAt (.token t start stop next) := by
  rintro _ ⟨⟩
  exact h

namespace Expr.Reading

/-- The reading of the phrases of a symbol. A chain is read from the symbols at least as tight. -/
def ofSymbol (bound budget : Nat) : Symbol → Reading Node
  | .expression => ternary bound (levels bound budget).operand (levels bound budget).nested
  | .primary => primary bound (levels bound budget).nested
  | s =>
    (Symbol.chains.drop (s.rank - 1)).foldr (fun t => chained bound t.operators)
      (levels bound budget).operand

/-- A chain is read as a first operand and a loop over operators. -/
theorem ofSymbol_chain (bound budget : Nat) {s : Symbol} (h : s.operators ≠ []) :
    ofSymbol bound budget s =
      ofSymbol bound budget s.operand >>=
        chain s.operators (ofSymbol bound budget s.operand) bound := by
  cases s <;> first | rfl | exact absurd rfl h

/-- A loop over operators stops where none of them follows. -/
theorem run_chain_stop {ops : List Operator} {rest : TokenStream}
    (h : ∀ op, rest.head? = some (.operator op) → op ∉ ops) (operand : Reading Node)
    (bound : Nat) (left : Node) (level : Nat) :
    (chain ops operand bound left).run ⟨rest, level⟩ = .ok (left, ⟨rest, level⟩) := by
  cases bound with
  | zero => rfl
  | succ bound =>
    rw [chain, run_peek_bind]
    split
    · next op hop =>
      rw [if_neg (h op hop)]
      rfl
    · rfl

/-- A loop over operators takes one of them and an operand. -/
theorem run_chain_operator {ops : List Operator} {op : Operator} (h : op ∈ ops)
    (operand : Reading Node) (bound : Nat) (left : Node) (start stop : Nat) {next : TokenStream}
    (hnext : ¬next.IsFault) (level : Nat) :
    (chain ops operand (bound + 1) left).run ⟨.token (.operator op) start stop next, level⟩ =
      (do
        let right ← operand
        let joined ← join op left right
        chain ops operand bound joined : Reading Node).run ⟨next, level⟩ := by
  rw [chain, run_peek_bind]
  change ((if op ∈ ops then _ else pure left : Reading Node).run _) = _
  rw [if_pos h, run_advance_bind _ _ _ _ _ hnext]

/-- Reading an expression of its own opens a level. -/
theorem follows_nested {bound : Nat} {p : Phrase} {st rest : TokenStream}
    (h : ∀ budget level, Follows ((ofSymbol bound budget .expression).run ⟨st, level⟩)
      (p.elaborate budget) fun e => .ok (node e, ⟨rest, level⟩)) (budget level : Nat) :
    Follows ((levels bound budget).nested.run ⟨st, level⟩) (deeper p.elaborate budget)
      fun e => .ok (node e, ⟨rest, level⟩) := by
  cases budget with
  | zero => exact follows_fail
  | succ budget => exact follows_within (h budget) level

/-- What the derivation of a phrase has to give: the phrase is read as it is elaborated. -/
def Reads (s : Symbol) (p : Phrase) : Prop :=
  ∀ (bound budget : Nat) (st rest : TokenStream) (level : Nat), p.tokens.length ≤ bound →
    st.Spans p.tokens rest → ¬rest.IsFault → s.EndsAt rest →
    Follows ((ofSymbol bound budget s).run ⟨st, level⟩) (p.elaborate budget)
      fun e => .ok (node e, ⟨rest, level⟩)

/-- What the derivation of a chain has to give: the chain is read as it is elaborated, and the
loop goes on behind it with what is left of its bound. -/
def Links (s : Symbol) (p : Phrase) : Prop :=
  ∃ links < p.tokens.length, ∀ (bound budget : Nat) (st rest : TokenStream) (level : Nat),
    p.tokens.length ≤ bound → st.Spans p.tokens rest → ¬rest.IsFault → s.operand.EndsAt rest →
    Follows ((ofSymbol bound budget s).run ⟨st, level⟩) (p.elaborate budget) fun e =>
      (chain s.operators (ofSymbol bound budget s.operand) (bound - links) (node e)).run
        ⟨rest, level⟩

/-- A loop that stops behind a chain returns the chain. -/
theorem Links.reads {s : Symbol} {p : Phrase} (h : Links s p) : Reads s p := by
  obtain ⟨links, -, hlinks⟩ := h
  intro bound budget st rest level hbound hspan hrest hends
  have hfollows := hlinks bound budget st rest level hbound hspan hrest hends.operand
  have hstop : ∀ op, rest.head? = some (.operator op) → op ∉ s.operators :=
    fun op hop hmem => Nat.ne_of_lt (hends _ hop _ rfl) (Symbol.precedence_eq_rank hmem)
  simpa only [run_chain_stop hstop] using hfollows

/-- A chain may consist of one operand. -/
theorem Reads.links_of_operand {s : Symbol} {p : Phrase} (hs : s.operators ≠ [])
    (h : Reads s.operand p) : Links s p := by
  refine ⟨0, p.tokens_length_pos, fun bound budget st rest level hbound hspan hrest hends => ?_⟩
  rw [ofSymbol_chain bound budget hs]
  exact follows_bind (h bound budget st rest level hbound hspan hrest hends)

/-- A chain may end with an operator and one more operand. -/
theorem Links.links_binary {s : Symbol} {op : Operator} {a b : Phrase} (hop : op ∈ s.operators)
    (ha : Links s a) (hb : Reads s.operand b) : Links s (.binary op a b) := by
  have hs : s ≠ .primary := by
    intro heq
    subst heq
    exact List.not_mem_nil hop
  have hrank : op.precedence = s.rank := Symbol.precedence_eq_rank hop
  obtain ⟨links, hlt, hlinks⟩ := ha
  refine ⟨links + 1, by simp only [Phrase.tokens, List.length_append, List.length_cons]; omega, ?_⟩
  intro bound budget st rest level hbound hspan hrest hends
  simp only [Phrase.tokens, List.length_append, List.length_cons] at hbound
  simp only [Phrase.tokens, spans_append_iff, spans_cons_iff] at hspan
  obtain ⟨_, hspanA, start, stop, next, rfl, hspanB⟩ := hspan
  have hnext := hspanB.not_isFault_phrase
  have hmid : s.operand.EndsAt (.token (.operator op) start stop next) := by
    refine Symbol.endsAt_token fun grip hgrip => ?_
    obtain rfl : op.precedence = grip := Option.some.inj hgrip
    rw [hrank]
    exact Symbol.rank_lt_rank_operand hs
  refine (hlinks bound budget st _ level (by omega) hspanA not_isFault_token hmid).trans fun left => ?_
  obtain ⟨left', hleft⟩ : ∃ left', bound - links = left' + 1 := ⟨bound - links - 1, by omega⟩
  rw [hleft, run_chain_operator hop _ _ _ _ _ hnext]
  refine (follows_bind (hb bound budget next rest level (by omega) hspanB hrest hends)).trans
    fun right => ?_
  have hbound' : left' = bound - (links + 1) := by omega
  rw [hbound']
  exact follows_bind (follows_join op left right ⟨rest, level⟩)

/-- A conditional is read from its three parts. -/
theorem Reads.conditional {c a b : Phrase} (hc : Reads .disjunction c) (ha : Reads .expression a)
    (hb : Reads .expression b) : Reads .expression (.conditional c a b) := by
  intro bound budget st rest level hbound hspan hrest hends
  simp only [Phrase.tokens, List.length_append, List.length_cons] at hbound
  simp only [Phrase.tokens, spans_append_iff, spans_cons_iff] at hspan
  obtain ⟨_, hspanC, start, stop, next, rfl, _, hspanA, start', stop', next', rfl, hspanB⟩ := hspan
  have hnext := hspanA.not_isFault_phrase
  have hnext' := hspanB.not_isFault_phrase
  have hmid : Symbol.EndsAt .disjunction (.token .question start stop next) :=
    Symbol.endsAt_token (by rintro _ ⟨⟩; decide)
  have hmid' : Symbol.EndsAt .expression (.token .colon start' stop' next') :=
    Symbol.endsAt_token (by rintro _ ⟨⟩)
  refine (follows_bind (hc bound budget st _ level (by omega) hspanC not_isFault_token hmid)).trans
    fun condition => ?_
  rw [run_peek_bind, if_pos (by rfl), run_advance_bind _ _ _ _ _ hnext]
  refine (follows_bind (follows_nested (fun budget level =>
    ha bound budget next _ level (by omega) hspanA not_isFault_token hmid') budget level)).trans
    fun onTrue => ?_
  rw [run_expect_bind _ .colon trivial _ _ _ hnext']
  refine (follows_bind (follows_nested (fun budget level =>
    hb bound budget next' rest level (by omega) hspanB hrest hends) budget level)).trans
    fun onFalse => ?_
  exact follows_build (by simp [node, height]) _

/-- An expression that is no conditional is a disjunction. -/
theorem Reads.expression_of_disjunction {p : Phrase} (h : Reads .disjunction p) :
    Reads .expression p := by
  intro bound budget st rest level hbound hspan hrest hends
  have hquestion : ¬(rest.head? == some .question) = true := by
    rw [Token.beq_mark_iff .question trivial]
    intro hhead
    exact Nat.not_lt_zero 0 (hends _ hhead 0 rfl)
  have hfollows := h bound budget st rest level hbound hspan hrest hends.operand
  refine (follows_bind hfollows).mono fun e => ?_
  rw [run_peek_bind, if_neg hquestion]
  rfl

/-- A sign is taken and applied to the operand behind it. -/
theorem run_signed_of_some {operand primary : Reading Node} {c : Cursor} {sign : Sign}
    (h : sign? c.ahead.head? = some sign) :
    (Reading.signed operand primary).run c =
      (advance >>= fun _ => operand >>= applySign sign).run c := by
  rw [Reading.signed, run_peek_bind, h]

/-- An operand without a sign is read as a primary. -/
theorem run_signed_of_none {operand primary : Reading Node} {c : Cursor}
    (h : sign? c.ahead.head? = none) :
    (Reading.signed operand primary).run c = primary.run c := by
  rw [Reading.signed, run_peek_bind, h]

/-- A sign and an operand are read one level deeper. -/
theorem Reads.signed (sign : Sign) {p : Phrase} (h : Reads .signed p) :
    Reads .signed (.signed sign p) := by
  intro bound budget st rest level hbound hspan hrest hends
  simp only [Phrase.tokens, List.length_cons] at hbound
  simp only [Phrase.tokens, spans_cons_iff] at hspan
  obtain ⟨start, stop, next, rfl, hspan⟩ := hspan
  have hnext := hspan.not_isFault_phrase
  have hsign : sign? (some sign.token) = some sign := by cases sign <;> rfl
  have hrun (inner outer : Reading Node) :
      (Reading.signed inner outer).run ⟨.token sign.token start stop next, level⟩ =
        (inner >>= applySign sign).run ⟨next, level⟩ := by
    rw [run_signed_of_some (c := ⟨.token sign.token start stop next, level⟩) hsign]
    exact run_advance_bind _ _ _ _ _ hnext
  have hdeep (level : Nat) (budget : Nat) :=
    h bound budget next rest level (by omega) hspan hrest hends
  cases budget with
  | zero =>
    change Follows ((Reading.signed (fail .nestedTooDeep) _).run _) _ _
    rw [hrun]
    exact (follows_bind follows_fail).trans fun e => follows_applySign sign e _
  | succ budget =>
    change Follows ((Reading.signed (within _) _).run _) _ _
    rw [hrun]
    refine (follows_bind (follows_within (fun level => hdeep level budget) level)).trans
      fun e => follows_applySign sign e _

/-- A primary phrase does not start with a sign. -/
theorem sign?_of_derives_primary {s : Symbol} {p : Phrase} (h : Derives s p) (hs : s = .primary) :
    ∀ t ∈ p.tokens.head?, sign? (some t) = none := by
  induction h with
  | conditional | signed => cases hs
  | binary hop =>
    subst hs
    exact absurd hop List.not_mem_nil
  | tighter _ ih =>
    subst hs
    exact ih rfl
  | number | string | boolean | var | parenthesized =>
    intro t ht
    cases ht
    rfl
  | @call name args =>
    cases args
    all_goals
      intro t ht
      cases ht
      rfl

/-- An operand without a sign is a primary phrase. -/
theorem Reads.signed_of_primary {p : Phrase} (hp : Derives .primary p) (h : Reads .primary p) :
    Reads .signed p := by
  intro bound budget st rest level hbound hspan hrest hends
  obtain ⟨t, ts, hts, -⟩ := p.tokens_eq_cons
  have hsign : sign? (some t) = none := sign?_of_derives_primary hp rfl t (by simp [hts])
  have hfollows := h bound budget st rest level hbound hspan hrest hends.operand
  rw [hts, spans_cons_iff] at hspan
  obtain ⟨start, stop, next, rfl, -⟩ := hspan
  have hrun (inner outer : Reading Node) :
      (Reading.signed inner outer).run ⟨.token t start stop next, level⟩ =
        outer.run ⟨.token t start stop next, level⟩ :=
    run_signed_of_none (c := ⟨.token t start stop next, level⟩) hsign
  cases budget with
  | zero => exact (hrun _ _).symm ▸ hfollows
  | succ budget => exact (hrun _ _).symm ▸ hfollows

/-- A literal or a variable is read by taking its token. -/
theorem run_advance_leaf (e : Expr) (t : Token) (start stop : Nat) {rest : TokenStream}
    (level : Nat) (h : ¬rest.IsFault) :
    (advance >>= fun _ => pure (leaf e) : Reading Node).run ⟨.token t start stop rest, level⟩ =
      .ok (leaf e, ⟨rest, level⟩) := by
  rw [run_advance_bind _ _ _ _ _ h]
  rfl

/-- Numbers, strings and booleans are read as literals. -/
theorem Reads.literal {p : Phrase} (h : (∃ x, p = .number x) ∨ (∃ s, p = .string s) ∨ ∃ b, p = .boolean b) :
    Reads .primary p := by
  intro bound budget st rest level hbound hspan hrest hends
  rcases h with ⟨x, rfl⟩ | ⟨s, rfl⟩ | ⟨b, rfl⟩
  all_goals
    simp only [Phrase.tokens, spans_cons_iff, spans_nil_iff] at hspan
    obtain ⟨start, stop, _, rfl, rfl⟩ := hspan
    exact run_advance_leaf _ _ _ _ _ hrest

/-- A name that no parenthesis follows is read as a variable. -/
theorem Reads.var (name : String) : Reads .primary (.var name) := by
  intro bound budget st rest level hbound hspan hrest hends
  simp only [Phrase.tokens, spans_cons_iff, spans_nil_iff] at hspan
  obtain ⟨start, stop, rest, rfl, rfl⟩ := hspan
  have hparen : ¬(rest.head? == some .openParen) = true := by
    rw [Token.beq_mark_iff .openParen trivial]
    intro hhead
    exact Nat.lt_irrefl 8 (hends _ hhead 8 rfl)
  change ((advance >>= fun _ => _ : Reading Node).run _) = _
  rw [run_advance_bind _ _ _ _ _ hrest, run_peek_bind, if_neg hparen]
  rfl

/-- An expression in parentheses is read one level deeper. -/
theorem Reads.parenthesized {p : Phrase} (h : Reads .expression p) :
    Reads .primary (.parenthesized p) := by
  intro bound budget st rest level hbound hspan hrest hends
  simp only [Phrase.tokens, List.length_append, List.length_cons] at hbound
  simp only [Phrase.tokens, spans_append_iff, spans_cons_iff, spans_nil_iff] at hspan
  obtain ⟨start, stop, next, rfl, _, hspan, start', stop', rest, rfl, rfl⟩ := hspan
  have hmid : Symbol.EndsAt .expression (.token .closeParen start' stop' rest) :=
    Symbol.endsAt_token (by rintro _ ⟨⟩)
  change Follows ((advance >>= fun _ => _ : Reading Node).run _) _ _
  rw [run_advance_bind _ _ _ _ _ hspan.not_isFault_phrase]
  refine (follows_bind (follows_nested (fun budget level =>
    h bound budget next _ level (by omega) hspan not_isFault_token hmid) budget level)).mono fun e => ?_
  rw [run_expect_bind _ .closeParen trivial _ _ _ hrest]
  rfl

/-- Arguments are read one level deeper each, up to the closing parenthesis. -/
theorem follows_arguments {bound : Nat} {args : List Phrase} (hargs : ∀ p ∈ args, Reads .expression p)
    {arg : Phrase} (harg : Reads .expression arg) {count : Nat} (hcount : args.length < count)
    (hbound : (arg.tokens ++ Phrase.tokensRest args).length ≤ bound) {st : TokenStream}
    {start stop : Nat} {next : TokenStream}
    (hspan : st.Spans (arg.tokens ++ Phrase.tokensRest args) (.token .closeParen start stop next))
    (budget level : Nat) :
    Follows ((arguments (levels bound budget).nested count).run ⟨st, level⟩)
      (Phrase.elaborateAll (arg :: args) budget)
      fun es => .ok (es.map node, ⟨.token .closeParen start stop next, level⟩) := by
  obtain ⟨count, rfl⟩ : ∃ n, count = n + 1 := ⟨count - 1, by omega⟩
  induction args generalizing arg count st with
  | nil =>
    simp only [Phrase.tokensRest, List.append_nil] at hspan hbound
    have hends : Symbol.EndsAt .expression (.token .closeParen start stop next) :=
      Symbol.endsAt_token (by rintro _ ⟨⟩)
    refine (follows_bind (follows_nested (fun budget level =>
      harg bound budget st _ level hbound hspan not_isFault_token hends) budget level)).trans fun e => ?_
    rfl
  | cons p args ih =>
    simp only [Phrase.tokensRest, List.length_append, List.length_cons] at hbound hcount
    simp only [Phrase.tokensRest, spans_append_iff, spans_cons_iff] at hspan
    obtain ⟨_, hspan, start', stop', mid, rfl, hrest⟩ := hspan
    rw [← spans_append_iff] at hrest
    have hends : Symbol.EndsAt .expression (.token .comma start' stop' mid) :=
      Symbol.endsAt_token (by rintro _ ⟨⟩)
    obtain ⟨count, rfl⟩ : ∃ n, count = n + 1 := ⟨count - 1, by omega⟩
    have htail := ih (fun q hq => hargs q (List.mem_cons_of_mem _ hq)) (hargs p List.mem_cons_self)
      (by rw [List.length_append]; omega) hrest count (by omega)
    refine (follows_bind (follows_nested (fun budget level =>
      harg bound budget st _ level (by omega) hspan not_isFault_token hends) budget level)).trans fun e => ?_
    rw [run_peek_bind, if_pos (by rfl), run_advance_bind _ _ _ _ _ (hrest.not_isFault not_isFault_token)]
    refine (follows_bind htail).trans fun es => ?_
    rfl

/-- What a call reads behind its arguments. -/
def closeCall (name : String) (args : List Node) : Reading Node := do
  expect .closeParen
  build (.call name (args.map Node.expr)) (args.map Node.height)

/-- A name and an opening parenthesis start a call. -/
theorem run_primary_call (bound : Nat) (nested : Reading Node) (name : String)
    (start stop start' stop' : Nat) {next : TokenStream} (level : Nat) (h : ¬next.IsFault) :
    (primary bound nested).run
        ⟨.token (.identifier name) start stop (.token .openParen start' stop' next), level⟩ =
      ((if next.head? == some .closeParen then pure [] else arguments nested bound) >>=
        closeCall name).run ⟨next, level⟩ := by
  have hcall : (primary bound nested).run
      ⟨.token (.identifier name) start stop (.token .openParen start' stop' next), level⟩ =
        (callOf bound nested name).run ⟨.token .openParen start' stop' next, level⟩ := rfl
  rw [hcall, callOf, run_advance_bind _ _ _ _ _ h, run_peek_bind]
  by_cases hclose : (next.head? == some .closeParen) = true
  · rw [if_pos hclose, if_pos hclose]
    rfl
  · rw [if_neg hclose, if_neg hclose]
    rfl

/-- Behind its arguments a call is built. -/
theorem follows_closeCall (name : String) (es : List Expr) (start stop : Nat) {rest : TokenStream}
    (level : Nat) (h : ¬rest.IsFault) :
    Follows ((closeCall name (es.map node)).run ⟨.token .closeParen start stop rest, level⟩)
      (Expr.call name es).bounded fun e => .ok (node e, ⟨rest, level⟩) := by
  rw [closeCall, run_expect_bind _ .closeParen trivial _ _ _ h]
  exact follows_build_call name es _

/-- A call is read from its name, its arguments and the parentheses around them. -/
theorem Reads.call (name : String) {args : List Phrase} (hargs : ∀ p ∈ args, Reads .expression p) :
    Reads .primary (.call name args) := by
  intro bound budget st rest level hbound hspan hrest hends
  cases args with
  | nil =>
    simp only [Phrase.tokens, spans_cons_iff, spans_nil_iff] at hspan
    obtain ⟨start, stop, _, rfl, _, _, _, rfl, start', stop', rest, rfl, rfl⟩ := hspan
    change Follows ((primary bound _).run _) _ _
    rw [run_primary_call _ _ _ _ _ _ _ _ not_isFault_token, if_pos (by rfl)]
    exact follows_closeCall name [] _ _ _ hrest
  | cons arg args =>
    simp only [Phrase.tokens, List.length_append, List.length_cons] at hbound
    simp only [Phrase.tokens, spans_cons_iff] at hspan
    obtain ⟨start, stop, _, rfl, _, _, next, rfl, hspan⟩ := hspan
    rw [spans_append_iff] at hspan
    simp only [spans_cons_iff, spans_nil_iff] at hspan
    obtain ⟨_, hspan, start', stop', rest, rfl, rfl⟩ := hspan
    have hopen : ¬(next.head? == some .closeParen) = true := by
      obtain ⟨t, ts, hts, ht⟩ := arg.tokens_eq_cons
      rw [hts, List.cons_append, spans_cons_iff] at hspan
      obtain ⟨_, _, _, rfl, -⟩ := hspan
      rw [Token.beq_mark_iff .closeParen trivial]
      exact fun hhead => ht (Option.some.inj hhead)
    have hcount : args.length < bound := by
      have hle := Phrase.length_le_tokensRest args
      omega
    have hlength : (arg.tokens ++ Phrase.tokensRest args).length ≤ bound := by
      rw [List.length_append]
      omega
    have hfollows := follows_arguments (fun p hp => hargs p (List.mem_cons_of_mem _ hp))
      (hargs arg List.mem_cons_self) hcount hlength hspan budget level
    change Follows ((primary bound _).run _) _ _
    rw [run_primary_call _ _ _ _ _ _ _ _ (hspan.not_isFault not_isFault_token), if_neg hopen]
    exact (follows_bind hfollows).trans fun es => follows_closeCall name es _ _ _ hrest

/-- Every phrase of the grammar is read as it is elaborated. -/
theorem reads_of_derives {s : Symbol} {p : Phrase} (h : Derives s p) :
    Reads s p ∧ (s.operators ≠ [] → Links s p) := by
  induction h with
  | conditional _ _ _ ihc iha ihb =>
    exact ⟨Reads.conditional ihc.1 iha.1 ihb.1, fun hs => absurd rfl hs⟩
  | binary hop _ _ iha ihb =>
    have hlinks := (iha.2 (List.ne_nil_of_mem hop)).links_binary hop ihb.1
    exact ⟨hlinks.reads, fun _ => hlinks⟩
  | signed sign _ ih => exact ⟨ih.1.signed sign, fun hs => absurd rfl hs⟩
  | number x => exact ⟨Reads.literal (.inl ⟨x, rfl⟩), fun hs => absurd rfl hs⟩
  | string s => exact ⟨Reads.literal (.inr (.inl ⟨s, rfl⟩)), fun hs => absurd rfl hs⟩
  | boolean b => exact ⟨Reads.literal (.inr (.inr ⟨b, rfl⟩)), fun hs => absurd rfl hs⟩
  | var name => exact ⟨Reads.var name, fun hs => absurd rfl hs⟩
  | call name _ ih => exact ⟨Reads.call name fun p hp => (ih p hp).1, fun hs => absurd rfl hs⟩
  | parenthesized _ ih => exact ⟨ih.1.parenthesized, fun hs => absurd rfl hs⟩
  | @tighter s p h ih =>
    by_cases hs : s.operators = []
    · refine ⟨?_, fun hne => absurd hs hne⟩
      cases s with
      | expression => exact ih.1.expression_of_disjunction
      | signed => exact Reads.signed_of_primary h ih.1
      | primary => exact ih.1
      | disjunction | conjunction | equality | relation | sum | product => cases hs
    · have hlinks := ih.1.links_of_operand hs
      exact ⟨hlinks.reads, fun _ => hlinks⟩

end Expr.Reading

end FormulaRules
