import FormulaRules.Proofs.Reading.Refusal

/-!
# What a reading has looked at

A reading takes tokens and stops at the next one, which it may look at. Nothing further on, and
none of the positions, has a part in what it comes to. Main statement: two streams that share the
tokens up to the place where a reading of the first one stops, and the next token, are read alike.

The two readings may have different bounds for their loops, as each text brings its own. Both
bounds have to be as large as the numbers of tokens ahead.
-/

namespace FormulaRules

namespace TokenStream

/-- Whether two streams start with the same token, or both with the end of the text. -/
structure SameHead (st st' : TokenStream) : Prop where
  not_isFault : ¬st.IsFault
  not_isFault' : ¬st'.IsFault
  head?_eq : st'.head? = st.head?

/-- Streams that share tokens up to places with the same next token start alike. -/
theorem SameHead.of_spans {st st' rest rest' : TokenStream} {ts : List Token}
    (h : rest.SameHead rest') (hspan : st.Spans ts rest) (hspan' : st'.Spans ts rest') :
    st.SameHead st' := by
  cases hspan with
  | nil =>
    cases hspan'
    exact h
  | cons _ =>
    cases hspan'
    exact ⟨not_isFault_token, not_isFault_token, rfl⟩

/-- A stream that starts like a token is this token and what follows. -/
theorem SameHead.eq_token {t : Token} {start stop : Nat} {next st' : TokenStream}
    (h : (token t start stop next).SameHead st') :
    ∃ start' stop' next', st' = token t start' stop' next' := by
  cases st' with
  | token t' start' stop' next' =>
    cases h.head?_eq
    exact ⟨start', stop', next', rfl⟩
  | finish position => cases h.head?_eq
  | fault cause position => cases h.head?_eq

end TokenStream

namespace Expr.Reading

open TokenStream

variable {α β : Type}

/-- What a reading comes to where it stops: a value at a number of open levels, or a refusal. -/
inductive Verdict (α : Type)
  | value (a : α) (level : Nat)
  | refusal (cause : SyntaxCause)

/-- The result of a run that comes to a verdict at a place. -/
def Verdict.at (rest : TokenStream) : Verdict α → Except SyntaxFault (α × Cursor)
  | value a level => .ok (a, ⟨rest, level⟩)
  | refusal cause => .error ⟨cause, rest.position⟩

/-- Whether the result of a run is decided by the tokens it has looked at. Either it is a lexical
fault, or `twin` comes to the same verdict on every stream of at most `bound` tokens that shares
them. -/
inductive Decided (bound : Nat) (twin : Reading α) (st : TokenStream) (level : Nat)
    (run : Except SyntaxFault (α × Cursor)) : Prop
  | lexical {ts : List Token} {cause : SyntaxCause} {position : Nat} :
    st.Spans ts (.fault cause position) → run = .error ⟨cause, position⟩ →
      Decided bound twin st level run
  | verdict {ts : List Token} {rest : TokenStream} (v : Verdict α) :
    st.Spans ts rest → ¬rest.IsFault → run = v.at rest →
      (∀ st' rest', st'.count ≤ bound → st'.Spans ts rest' → rest.SameHead rest' →
        twin.run ⟨st', level⟩ = v.at rest') →
      Decided bound twin st level run

section

variable {bound : Nat} {twin twin' : Reading α} {st : TokenStream} {level : Nat}
  {run : Except SyntaxFault (α × Cursor)}

/-- A verdict may be reached at once. -/
theorem Decided.here (v : Verdict α) (hst : ¬st.IsFault) (hrun : run = v.at st)
    (htwin : ∀ st', st.SameHead st' → twin.run ⟨st', level⟩ = v.at st') :
    Decided bound twin st level run := by
  refine .verdict v (.nil st) hst hrun fun st' rest' _ hspan hhead => ?_
  cases hspan
  exact htwin st' hhead

/-- A twin that is right on longer streams is right on shorter ones. -/
theorem Decided.anti {bound' : Nat} (h : Decided bound twin st level run) (hle : bound' ≤ bound) :
    Decided bound' twin st level run := by
  cases h with
  | lexical hspan hrun => exact .lexical hspan hrun
  | verdict v hspan hrest hrun htwin =>
    exact .verdict v hspan hrest hrun fun st' rest' hbound =>
      htwin st' rest' (Nat.le_trans hbound hle)

/-- The twin may be replaced by one that runs alike on all streams that start alike. -/
theorem Decided.congr (h : Decided bound twin st level run)
    (heq : ∀ st', st'.count ≤ bound → st.SameHead st' →
      twin'.run ⟨st', level⟩ = twin.run ⟨st', level⟩) : Decided bound twin' st level run := by
  cases h with
  | lexical hspan hrun => exact .lexical hspan hrun
  | verdict v hspan hrest hrun htwin =>
    refine .verdict v hspan hrest hrun fun st' rest' hbound hspan' hhead => ?_
    rw [heq st' hbound (hhead.of_spans hspan hspan')]
    exact htwin st' rest' hbound hspan' hhead

/-- What follows a token that is taken is decided with it. -/
theorem Decided.advance_bind {t : Token} {start stop : Nat} {next : TokenStream}
    {f g : Unit → Reading α}
    (h : ¬next.IsFault → Decided (bound - 1) (g ()) next level ((f ()).run ⟨next, level⟩)) :
    Decided bound (advance >>= g) (.token t start stop next) level
      ((advance >>= f).run ⟨.token t start stop next, level⟩) := by
  by_cases hnext : next.IsFault
  · cases next with
    | fault cause position => exact .lexical (.cons (.nil _)) rfl
    | token | finish => exact absurd hnext not_false
  · rw [run_advance_bind _ _ _ _ _ hnext]
    cases h hnext with
    | lexical hspan hrun => exact .lexical (.cons hspan) hrun
    | verdict v hspan hrest hrun htwin =>
      refine .verdict v (.cons hspan) hrest hrun fun st' rest' hbound hspan' hhead => ?_
      obtain ⟨start', stop', next', rfl, hnextSpan⟩ := spans_cons_iff.mp hspan'
      rw [run_advance_bind _ _ _ _ _ (hnextSpan.not_isFault hhead.not_isFault')]
      exact htwin next' rest' (Nat.le_sub_one_of_lt hbound) hnextSpan hhead

end

/-- Two readings of which the second comes to the same as the first wherever it meets the tokens
that the first has looked at. At most `n` tokens may be ahead of the first and `n'` of the second. -/
def Local (n n' : Nat) (r twin : Reading α) : Prop :=
  ∀ st level, st.count ≤ n → ¬st.IsFault → Decided n' twin st level (r.run ⟨st, level⟩)

section

variable {n n' : Nat}

/-- Two such readings are such readings of fewer tokens. -/
theorem Local.anti {r twin : Reading α} {m m' : Nat} (h : Local n n' r twin) (hm : m ≤ n)
    (hm' : m' ≤ n') : Local m m' r twin :=
  fun st level hcount hst => (h st level (Nat.le_trans hcount hm) hst).anti hm'

/-- A value is decided without looking. -/
theorem local_pure (a : α) : Local n n' (pure a) (pure a) :=
  fun _ level _ hst => .here (.value a level) hst rfl fun _ _ => rfl

/-- A failure is decided without looking. -/
theorem local_fail (cause : SyntaxCause) : Local n n' (fail cause : Reading α) (fail cause) :=
  fun _ _ _ hst => .here (.refusal cause) hst rfl fun _ _ => rfl

/-- Looking at the next token decides what follows if every next token does. -/
theorem Local.peek_bind {f g : Option Token → Reading α}
    (h : ∀ st level, st.count ≤ n → ¬st.IsFault →
      Decided n' (g st.head?) st level ((f st.head?).run ⟨st, level⟩)) :
    Local n n' (peek >>= f) (peek >>= g) := by
  intro st level hn hst
  rw [run_peek_bind]
  refine (h st level hn hst).congr fun st' _ hhead => ?_
  rw [run_peek_bind, hhead.head?_eq]

/-- Readings that follow each other are decided if each is. -/
theorem Local.bind {r twin : Reading α} {f g : α → Reading β} (h : Local n n' r twin)
    (hf : ∀ a, Local n n' (f a) (g a)) : Local n n' (r >>= f) (twin >>= g) := by
  intro st level hn hst
  cases h st level hn hst with
  | lexical hspan hrun => exact .lexical hspan (by rw [run_bind, hrun]; rfl)
  | @verdict ts rest v hspan hrest hrun htwin =>
    cases v with
    | refusal cause =>
      refine .verdict (.refusal cause) hspan hrest (by rw [run_bind, hrun]; rfl) ?_
      intro st' rest' hn' hspan' hhead
      rw [run_bind, htwin st' rest' hn' hspan' hhead]
      rfl
    | value a level' =>
      have hcount := hspan.count_add_length
      rw [run_bind_of_ok hrun]
      cases hf a rest level' (by omega) hrest with
      | lexical hspan₂ hrun₂ => exact .lexical (hspan.append hspan₂) hrun₂
      | verdict v hspan₂ hrest₂ hrun₂ htwin₂ =>
        refine .verdict v (hspan.append hspan₂) hrest₂ hrun₂ fun st' rest' hn' hspan' hhead => ?_
        obtain ⟨mid, hspan', hspan₂'⟩ := spans_append_iff.mp hspan'
        have hcount' := hspan'.count_add_length
        rw [run_bind_of_ok (htwin st' mid hn' hspan' (hhead.of_spans hspan₂ hspan₂'))]
        exact htwin₂ mid rest' (by omega) hspan₂' hhead

/-- Taking a token is decided by this token. -/
theorem local_advance : Local n n' advance advance := by
  intro st level hn hst
  cases st with
  | fault cause position => exact absurd trivial hst
  | finish position =>
    refine .here (.value () level) hst rfl fun st' hhead => ?_
    cases st' with
    | finish position' => rfl
    | token => cases hhead.head?_eq
    | fault => exact absurd trivial hhead.not_isFault'
  | token t start stop next =>
    have htaken : Decided n' (advance >>= pure) (.token t start stop next) level
        ((advance >>= pure).run ⟨.token t start stop next, level⟩) :=
      .advance_bind fun hnext => local_pure () next level (Nat.le_refl _) hnext
    rwa [bind_pure] at htaken

/-- Wanting a token is decided by the next one. -/
theorem local_expect (wanted : Token) : Local n n' (expect wanted) (expect wanted) := by
  refine Local.peek_bind fun st level hn hst => ?_
  split
  · exact local_advance st level hn hst
  · exact local_fail _ st level hn hst

/-- Reading deeper is decided if the reading is. -/
theorem Local.within {r twin : Reading α} (h : Local n n' r twin) :
    Local n n' (within r) (within twin) := by
  have hopen : Local n n' (modify fun c => { c with level := c.level + 1 } : Reading Unit)
      (modify fun c => { c with level := c.level + 1 }) :=
    fun st level _ hst => .here (.value () (level + 1)) hst rfl fun _ _ => rfl
  refine hopen.bind fun _ => h.bind fun a st level _ hst => ?_
  cases level with
  | zero => exact .here (.refusal .unbalanced) hst rfl fun _ _ => rfl
  | succ level => exact .here (.value a level) hst rfl fun _ _ => rfl

/-- Building a node is decided without looking. -/
theorem local_build (e : Expr) (heights : List Nat) :
    Local n n' (build e heights) (build e heights) := by
  simp only [build]
  split
  · exact local_fail _
  · exact local_pure _

/-- Joining two operands is decided without looking. -/
theorem local_join (op : Operator) (left right : Node) :
    Local n n' (join op left right) (join op left right) :=
  local_build _ _

/-- A sign is applied without looking. -/
theorem local_applySign (sign : Sign) (operand : Node) :
    Local n n' (applySign sign operand) (applySign sign operand) := by
  unfold applySign
  split
  · exact local_pure _
  · exact local_pure _
  · exact local_join _ _ _
  · exact local_join _ _ _
  · exact local_build _ _

/-- What a loop over operators reads behind an operator: an operand and the rest of the loop. -/
def link (ops : List Operator) (op : Operator) (operand : Reading Node) (links : Nat)
    (left : Node) : Reading Node := do
  let right ← operand
  let joined ← join op left right
  chain ops operand links joined

/-- A loop over operators takes one of them. -/
theorem run_chain_take {ops : List Operator} {op : Operator} (h : op ∈ ops)
    (operand : Reading Node) (links : Nat) (left : Node) (start stop : Nat) (next : TokenStream)
    (level : Nat) :
    (chain ops operand (links + 1) left).run ⟨.token (.operator op) start stop next, level⟩ =
      (advance >>= fun _ => link ops op operand links left).run
        ⟨.token (.operator op) start stop next, level⟩ := by
  rw [chain, run_peek_bind]
  change (if op ∈ ops then _ else _ : Reading Node).run _ = _
  rw [if_pos h]
  rfl

/-- A loop over operators that stops is decided by the token it stops at. -/
theorem decided_chain_stop {ops : List Operator} {operand twin : Reading Node} {links links' : Nat}
    {left : Node} {st : TokenStream} {level : Nat} (hst : ¬st.IsFault)
    (h : ∀ op, st.head? = some (.operator op) → op ∉ ops) :
    Decided n' (chain ops twin links' left) st level
      ((chain ops operand links left).run ⟨st, level⟩) :=
  .here (.value left level) hst (run_chain_stop h _ _ _ _) fun _ hhead =>
    run_chain_stop (fun op hop => h op (hhead.head?_eq ▸ hop)) _ _ _ _

/-- A loop over operators is decided if its operands are. -/
theorem Local.chain {b b' : Nat} {operand twin : Reading Node} (h : Local b b' operand twin)
    (ops : List Operator) {links links' : Nat} (hn : n ≤ b) (hn' : n' ≤ b') (hlinks : n ≤ links)
    (hlinks' : n' ≤ links') (left : Node) :
    Local n n' (chain ops operand links left) (chain ops twin links' left) := by
  induction links generalizing n n' links' left with
  | zero =>
    intro st level hcount hst
    refine decided_chain_stop hst fun op hop => ?_
    cases st with
    | fault cause position => cases hop
    | finish position => cases hop
    | token t start stop next =>
      have hpos : next.count + 1 ≤ n := hcount
      omega
  | succ links ih =>
    intro st level hcount hst
    by_cases hop : ∃ op, st.head? = some (.operator op) ∧ op ∈ ops
    · obtain ⟨op, hhead, hmem⟩ := hop
      cases st with
      | fault cause position => cases hhead
      | finish position => cases hhead
      | token t start stop next =>
        cases hhead
        have hpos : next.count + 1 ≤ n := hcount
        -- Behind the operator both loops have one turn less, and one token less to read.
        have hlink : Local (n - 1) (n' - 1) (link ops op operand links left)
            (link ops op twin (links' - 1) left) :=
          (h.anti (by omega) (by omega)).bind fun right => (local_join op left right).bind
            (ih (by omega) (by omega) (by omega) (by omega))
        rw [run_chain_take hmem]
        refine (Decided.advance_bind (f := fun _ => link ops op operand links left)
          (g := fun _ => link ops op twin (links' - 1) left)
          fun hnext => hlink next level (by omega) hnext).congr fun st' hcount' hhead => ?_
        obtain ⟨start', stop', next', rfl⟩ := hhead.eq_token
        have hpos' : next'.count + 1 ≤ n' := hcount'
        obtain ⟨links', rfl⟩ : ∃ m, links' = m + 1 := ⟨links' - 1, by omega⟩
        exact run_chain_take hmem _ _ _ _ _ _ _
    · exact decided_chain_stop hst fun op hhead hmem => hop ⟨op, hhead, hmem⟩

end

section

variable {bound bound' : Nat}

/-- Operands that are joined are decided if the operands are. -/
theorem Local.chained {operand twin : Reading Node} (h : Local bound bound' operand twin)
    (ops : List Operator) :
    Local bound bound' (chained bound ops operand) (chained bound' ops twin) :=
  h.bind (h.chain ops (Nat.le_refl _) (Nat.le_refl _) (Nat.le_refl _) (Nat.le_refl _))

/-- The six levels of operators are decided if their operands are. -/
theorem Local.operation {operand twin : Reading Node} (h : Local bound bound' operand twin) :
    Local bound bound' (operation bound operand) (operation bound' twin) :=
  (((((h.chained _).chained _).chained _).chained _).chained _).chained _

/-- A conditional is decided if its parts are. -/
theorem Local.ternary {operand twin nested nestedTwin : Reading Node}
    (hoperand : Local bound bound' operand twin) (hnested : Local bound bound' nested nestedTwin) :
    Local bound bound' (ternary bound operand nested) (ternary bound' twin nestedTwin) := by
  refine hoperand.operation.bind fun c => Local.peek_bind fun st level hcount hst => ?_
  split
  · exact (local_advance.bind fun _ => hnested.bind fun _ => (local_expect .colon).bind fun _ =>
      hnested.bind fun _ => local_build _ _) st level hcount hst
  · exact local_pure c st level hcount hst

/-- A loop over arguments is decided if its arguments are. -/
theorem Local.arguments {nested twin : Reading Node} (h : Local bound bound' nested twin)
    {n n' count count' : Nat} (hn : n ≤ bound) (hn' : n' ≤ bound') (hcount : n < count)
    (hcount' : n' < count') : Local n n' (arguments nested count) (arguments twin count') := by
  induction count generalizing n n' count' with
  | zero => exact absurd hcount (Nat.not_lt_zero _)
  | succ count ih =>
    obtain ⟨count', rfl⟩ : ∃ m, count' = m + 1 := ⟨count' - 1, by omega⟩
    refine (h.anti hn hn').bind fun arg => Local.peek_bind fun st level hst' hst => ?_
    split
    case isFalse => exact local_pure _ st level hst' hst
    case isTrue hcomma =>
      obtain ⟨start, stop, next, rfl⟩ := eq_token_of_beq_head? .comma trivial hcomma
      have hpos : next.count + 1 ≤ n := hst'
      have hrest : Local (n - 1) (n' - 1)
          (Reading.arguments nested count >>= fun rest => pure (arg :: rest))
          (Reading.arguments twin (count' - 1 + 1) >>= fun rest => pure (arg :: rest)) :=
        (ih (by omega) (by omega) (by omega) (by omega)).bind fun rest => local_pure _
      refine (Decided.advance_bind (f := fun _ => _ >>= _) (g := fun _ => _ >>= _) fun hnext =>
        hrest next level (by omega) hnext).congr fun st' hcount'' hhead => ?_
      obtain ⟨start', stop', next', rfl⟩ := hhead.eq_token
      have hpos' : next'.count + 1 ≤ n' := hcount''
      rw [Nat.sub_add_cancel (by omega)]

/-- What is read behind the arguments of a call is decided. -/
theorem local_closeCall {n n' : Nat} (name : String) (args : List Node) :
    Local n n' (closeCall name args) (closeCall name args) :=
  (local_expect .closeParen).bind fun _ => local_build _ _

/-- A call is decided if its arguments are. -/
theorem Local.callOf {nested twin : Reading Node} (h : Local bound bound' nested twin)
    (hpos : 0 < bound') (name : String) {st : TokenStream} {level : Nat}
    (hcount : st.count ≤ bound) (hparen : (st.head? == some .openParen) = true) :
    Decided bound' (callOf bound' twin name) st level
      ((callOf bound nested name).run ⟨st, level⟩) := by
  obtain ⟨start, stop, next, rfl⟩ := eq_token_of_beq_head? .openParen trivial hparen
  have hnext : next.count ≤ bound - 1 := Nat.le_sub_one_of_lt hcount
  have hsome : 0 < bound := Nat.lt_of_lt_of_le (Nat.succ_pos _) hcount
  refine Decided.advance_bind fun hclean =>
    Local.peek_bind (fun st level hst' hst => ?_) next level hnext hclean
  split
  · exact local_closeCall name [] st level hst' hst
  · exact ((h.arguments (by omega) (by omega) (by omega) (by omega)).bind
      (local_closeCall name)) st level hst' hst

/-- A literal, a variable, a call or an expression in parentheses is decided if what is nested in it
is. -/
theorem Local.primary {nested twin : Reading Node} (h : Local bound bound' nested twin)
    (hpos : 0 < bound') : Local bound bound' (primary bound nested) (primary bound' twin) := by
  have hleaf (e : Expr) : Local bound bound' (advance >>= fun _ => pure (leaf e) : Reading Node)
      (advance >>= fun _ => pure (leaf e)) :=
    local_advance.bind fun _ => local_pure _
  refine Local.peek_bind fun st level hcount hst => ?_
  split
  · exact hleaf _ st level hcount hst
  · exact hleaf _ st level hcount hst
  · exact hleaf _ st level hcount hst
  · next name _ =>
    refine (local_advance.bind fun _ => Local.peek_bind fun st level hcount hst => ?_) st level
      hcount hst
    split
    case isTrue hparen => exact h.callOf hpos name hcount hparen
    case isFalse => exact local_pure _ st level hcount hst
  · exact (local_advance.bind fun _ => h.bind fun inner => (local_expect .closeParen).bind fun _ =>
      local_pure inner) st level hcount hst
  · exact local_fail _ st level hcount hst
  · exact local_fail _ st level hcount hst

/-- An operand with or without a sign is decided. -/
theorem Local.signed {operand twin primary primaryTwin : Reading Node}
    (hoperand : Local bound bound' operand twin)
    (hprimary : Local bound bound' primary primaryTwin) :
    Local bound bound' (signed operand primary) (signed twin primaryTwin) := by
  refine Local.peek_bind fun st level hcount hst => ?_
  split
  · next sign _ =>
    exact (local_advance.bind fun _ => hoperand.bind (local_applySign sign)) st level hcount hst
  · exact hprimary st level hcount hst

/-- The readings at every budget are decided. -/
theorem local_levels (hpos : 0 < bound') (budget : Nat) :
    Local bound bound' (levels bound budget).nested (levels bound' budget).nested ∧
      Local bound bound' (levels bound budget).operand (levels bound' budget).operand := by
  induction budget with
  | zero =>
    have hnested : Local bound bound' (levels bound 0).nested (levels bound' 0).nested :=
      local_fail .nestedTooDeep
    exact ⟨hnested, Local.signed (local_fail .nestedTooDeep) (hnested.primary hpos)⟩
  | succ budget ih =>
    have hnested : Local bound bound' (levels bound (budget + 1)).nested
        (levels bound' (budget + 1)).nested := (ih.2.ternary ih.1).within
    exact ⟨hnested, ih.2.within.signed (hnested.primary hpos)⟩

/-- The reading of an expression that ends with the text, behind the look at its first token. -/
def toEnd (bound : Nat) : Reading Expr := do
  let found ← (levels bound maxNesting).nested
  match ← peek with
  | some next => fail (.trailing next)
  | none => return found.expr

/-- A text that starts with no fault is read to its end. -/
theorem run_complete {text : TokenStream} (h : ¬text.IsFault) :
    (complete text).run ⟨text, 0⟩ = (toEnd text.count).run ⟨text, 0⟩ := by
  rw [complete, expression, bind_assoc, run_bind_of_ok (run_moveTo h), bind_assoc]
  rfl

/-- Reading to the end of the text is decided. -/
theorem local_toEnd (hpos : 0 < bound') : Local bound bound' (toEnd bound) (toEnd bound') := by
  refine (local_levels hpos maxNesting).1.bind fun found => Local.peek_bind
    fun st level hcount hst => ?_
  split
  · exact local_fail _ st level hcount hst
  · exact local_pure _ st level hcount hst

end

/-- A refused text is refused for a lexical fault, or at a token, and with the same cause is every
text refused that shares the tokens up to there and the next one. -/
theorem complete_eq_error_of_shared {text text' : TokenStream} {fault : SyntaxFault}
    (h : (complete text).run ⟨text, 0⟩ = .error fault) (hpos : 0 < text'.count) :
    (∃ ts, text.Spans ts (.fault fault.cause fault.position)) ∨
      ∃ ts rest, text.Spans ts rest ∧ ¬rest.IsFault ∧ fault.position = rest.position ∧
        ∀ rest', text'.Spans ts rest' → rest.SameHead rest' →
          (complete text').run ⟨text', 0⟩ = .error ⟨fault.cause, rest'.position⟩ := by
  by_cases htext : text.IsFault
  · cases text with
    | fault cause position =>
      cases h
      exact .inl ⟨[], .nil _⟩
    | token | finish => exact absurd htext not_false
  · rw [run_complete htext] at h
    cases local_toEnd hpos text 0 (Nat.le_refl _) htext with
    | lexical hspan hrun =>
      cases h.symm.trans hrun
      exact .inl ⟨_, hspan⟩
    | @verdict ts rest v hspan hrest hrun htwin =>
      cases v with
      | value a level => cases h.symm.trans hrun
      | refusal cause =>
        cases h.symm.trans hrun
        refine .inr ⟨ts, rest, hspan, hrest, rfl, fun rest' hspan' hhead => ?_⟩
        rw [run_complete (hspan'.not_isFault hhead.not_isFault')]
        exact htwin text' rest' (Nat.le_refl _) hspan' hhead

end Expr.Reading

end FormulaRules
