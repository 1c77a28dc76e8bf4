import FormulaRules.Proofs.Reading.Complete

/-!
# What a successful reading has read

A reading that succeeds has taken the tokens of a phrase of its symbol, and its result is the
elaboration of that phrase. The induction is on the budget of levels; inside it the loops
over operators and arguments are followed step by step.
-/

namespace FormulaRules

open TokenStream

/-- A run that follows an outcome and succeeds has a value as its outcome. -/
theorem Follows.exists_of_ok {α β : Type} {run : Except SyntaxFault β} {out : Except SyntaxCause α}
    {next : α → Except SyntaxFault β} {b : β} (h : Follows run out next) (hrun : run = .ok b) :
    ∃ a, out = .ok a ∧ next a = .ok b := by
  cases out with
  | error cause =>
    obtain ⟨position, hfail⟩ := h
    rw [hrun] at hfail
    cases hfail
  | ok a => exact ⟨a, rfl, h.symm.trans hrun⟩

namespace Expr.Reading

variable {α β : Type}

/-- A bind that succeeds has run both halves. -/
theorem run_bind_eq_ok_iff {r : Reading α} {f : α → Reading β} {c : Cursor} {result : β × Cursor} :
    (r >>= f).run c = .ok result ↔ ∃ a c', r.run c = .ok (a, c') ∧ (f a).run c' = .ok result := by
  rw [run_bind, Except.bind_eq_ok_iff]
  exact ⟨fun ⟨p, h, h'⟩ => ⟨p.1, p.2, h, h'⟩, fun ⟨a, c', h, h'⟩ => ⟨(a, c'), h, h'⟩⟩

/-- Taking a token succeeds only before a token or the end. -/
theorem advance_eq_ok {t : Token} {start stop level : Nat} {next : TokenStream} {u : Unit}
    {c : Cursor} (h : advance.run ⟨.token t start stop next, level⟩ = .ok (u, c)) :
    ¬next.IsFault ∧ c = ⟨next, level⟩ := by
  cases next with
  | fault cause position => cases h
  | token t start stop next =>
    cases h
    exact ⟨not_isFault_token, rfl⟩
  | finish position =>
    cases h
    exact ⟨not_false, rfl⟩

/-- What follows the taking of a token runs behind it. -/
theorem advance_bind_eq_ok {f : Unit → Reading α} {t : Token} {start stop level : Nat}
    {next : TokenStream} {result : α × Cursor}
    (h : (advance >>= f).run ⟨.token t start stop next, level⟩ = .ok result) :
    ¬next.IsFault ∧ (f ()).run ⟨next, level⟩ = .ok result := by
  rw [run_bind_eq_ok_iff] at h
  obtain ⟨u, c, hadvance, hrun⟩ := h
  obtain ⟨hnext, rfl⟩ := advance_eq_ok hadvance
  exact ⟨hnext, hrun⟩

/-- A stream with a mark at its head is a token of this mark and what follows. -/
theorem eq_token_of_beq_head? (mark : Token) (hmark : mark.IsMark) {st : TokenStream}
    (h : (st.head? == some mark) = true) :
    ∃ start stop next, st = .token mark start stop next := by
  rw [Token.beq_mark_iff mark hmark] at h
  cases st with
  | fault cause position => cases h
  | finish position => cases h
  | token t start stop next =>
    cases h
    exact ⟨start, stop, next, rfl⟩

/-- What follows a wanted mark runs behind it, and the mark stands next. -/
theorem expect_bind_eq_ok (mark : Token) (hmark : mark.IsMark) {f : Unit → Reading α}
    {st : TokenStream} {level : Nat} {result : α × Cursor}
    (h : (expect mark >>= f).run ⟨st, level⟩ = .ok result) :
    ∃ start stop next, st = .token mark start stop next ∧ ¬next.IsFault ∧
      (f ()).run ⟨next, level⟩ = .ok result := by
  rw [run_bind_eq_ok_iff] at h
  obtain ⟨u, c, hexpect, hrun⟩ := h
  rw [expect, run_peek_bind] at hexpect
  split at hexpect
  · next hbeq =>
    obtain ⟨start, stop, next, rfl⟩ := eq_token_of_beq_head? mark hmark hbeq
    obtain ⟨hnext, rfl⟩ := advance_eq_ok hexpect
    exact ⟨start, stop, next, rfl, hnext, hrun⟩
  · cases hexpect

/-- What a run from a stream has to have read: a phrase whose elaboration is the result. -/
def Explains (s : Symbol) (elaborated : Phrase → Except SyntaxCause Expr) (st : TokenStream)
    (level : Nat) (result : Node × Cursor) : Prop :=
  ∃ p e rest, Derives s p ∧ elaborated p = .ok e ∧ result = (node e, ⟨rest, level⟩) ∧
    st.Spans p.tokens rest ∧ ¬rest.IsFault

/-- A reading that reads nothing but phrases of a symbol, as long as no more tokens are ahead than
its loops may take. -/
def Sound (bound : Nat) (s : Symbol) (elaborated : Phrase → Except SyntaxCause Expr)
    (r : Reading Node) : Prop :=
  ∀ st level result, st.count ≤ bound → ¬st.IsFault → r.run ⟨st, level⟩ = .ok result →
    Explains s elaborated st level result

/-- What follows a sound reading runs behind a phrase. -/
theorem Sound.bind_eq_ok {bound : Nat} {s : Symbol} {elaborated : Phrase → Except SyntaxCause Expr}
    {r : Reading Node} (h : Sound bound s elaborated r) {f : Node → Reading α} {st : TokenStream}
    {level : Nat} {result : α × Cursor} (hbound : st.count ≤ bound) (hst : ¬st.IsFault)
    (hrun : (r >>= f).run ⟨st, level⟩ = .ok result) :
    ∃ p e rest, Derives s p ∧ elaborated p = .ok e ∧ st.Spans p.tokens rest ∧ ¬rest.IsFault ∧
      (f (node e)).run ⟨rest, level⟩ = .ok result := by
  rw [run_bind_eq_ok_iff] at hrun
  obtain ⟨first, c, hfirst, hrun⟩ := hrun
  obtain ⟨p, e, rest, hp, hbuild, hresult, hspan, hrest⟩ := h st level _ hbound hst hfirst
  cases hresult
  exact ⟨p, e, rest, hp, hbuild, hspan, hrest, hrun⟩

/-- A phrase of the operand symbol is a phrase of the symbol. -/
theorem Explains.tighter (s : Symbol) {elaborated : Phrase → Except SyntaxCause Expr}
    {st : TokenStream} {level : Nat} {result : Node × Cursor}
    (h : Explains s.operand elaborated st level result) : Explains s elaborated st level result := by
  obtain ⟨p, e, rest, hp, hrest⟩ := h
  exact ⟨p, e, rest, .tighter hp, hrest⟩

/-- A loop over operators extends the phrase to its left. -/
theorem explains_chain {bound : Nat} {s : Symbol} {budget : Nat} {operand : Reading Node}
    (hoperand : Sound bound s.operand (·.elaborate budget) operand) (links : Nat) {left : Phrase}
    {e : Expr} {st mid : TokenStream} {level : Nat} {result : Node × Cursor}
    (hbound : st.count ≤ bound) (hleft : Derives s left) (hbuild : left.elaborate budget = .ok e)
    (hspan : st.Spans left.tokens mid) (hmid : ¬mid.IsFault)
    (hrun : (chain s.operators operand links (node e)).run ⟨mid, level⟩ = .ok result) :
    Explains s (·.elaborate budget) st level result := by
  induction links generalizing left e mid with
  | zero =>
    cases hrun
    exact ⟨left, e, mid, hleft, hbuild, rfl, hspan, hmid⟩
  | succ links ih =>
    by_cases hop : ∃ op, mid.head? = some (.operator op) ∧ op ∈ s.operators
    · obtain ⟨op, hhead, hmem⟩ := hop
      cases mid with
      | fault cause position => cases hhead
      | finish position => cases hhead
      | token t start stop next =>
        cases hhead
        rw [chain, run_peek_bind] at hrun
        change (if op ∈ s.operators then _ else _ : Reading Node).run _ = _ at hrun
        rw [if_pos hmem] at hrun
        obtain ⟨hnext, hrun⟩ := advance_bind_eq_ok hrun
        have hcount := (hspan.append (.cons (.nil next))).count_add_length
        obtain ⟨q, e', rest, hq, hbuild', hspan', hrest, hrun⟩ :=
          hoperand.bind_eq_ok (by omega) hnext hrun
        rw [run_bind_eq_ok_iff] at hrun
        obtain ⟨joined, c, hjoin, hrun⟩ := hrun
        obtain ⟨e'', hbounded, hjoined⟩ := (follows_join op e e' _).exists_of_ok hjoin
        cases hjoined
        refine ih (.binary hmem hleft hq) ?_ ?_ hrest hrun
        · simp only [Phrase.elaborate, hbuild, hbuild']
          exact hbounded
        · exact hspan.append (.cons hspan')
    · rw [run_chain_stop fun op hhead hmem => hop ⟨op, hhead, hmem⟩] at hrun
      cases hrun
      exact ⟨left, e, mid, hleft, hbuild, rfl, hspan, hmid⟩

/-- A chain of a symbol is read if its operands are. -/
theorem Sound.chained (s : Symbol) {bound budget : Nat} {operand : Reading Node}
    (h : Sound bound s.operand (·.elaborate budget) operand) :
    Sound bound s (·.elaborate budget) (chained bound s.operators operand) := by
  intro st level result hbound hst hrun
  obtain ⟨p, e, rest, hp, hbuild, hspan, hrest, hrun⟩ := h.bind_eq_ok hbound hst hrun
  exact explains_chain h bound hbound (.tighter hp) hbuild hspan hrest hrun

/-- The six levels of operators are read from signed operands. -/
theorem Sound.operation {bound budget : Nat} {operand : Reading Node}
    (h : Sound bound .signed (·.elaborate budget) operand) :
    Sound bound .disjunction (·.elaborate budget) (operation bound operand) := by
  have hproduct := Sound.chained .product h
  have hsum := Sound.chained .sum hproduct
  have hrelation := Sound.chained .relation hsum
  have hequality := Sound.chained .equality hrelation
  have hconjunction := Sound.chained .conjunction hequality
  exact Sound.chained .disjunction hconjunction

/-- A conditional is read, or the disjunction that would be its condition. -/
theorem Sound.ternary {bound budget : Nat} {operand nested : Reading Node}
    (hoperand : Sound bound .signed (·.elaborate budget) operand)
    (hnested : Sound bound .expression (fun p => deeper p.elaborate budget) nested) :
    Sound bound .expression (·.elaborate budget) (ternary bound operand nested) := by
  intro st level result hbound hst hrun
  obtain ⟨p, e, rest, hp, hbuild, hspan, hrest, hrun⟩ :=
    hoperand.operation.bind_eq_ok hbound hst hrun
  rw [run_peek_bind] at hrun
  split at hrun
  · next hquestion =>
    obtain ⟨start, stop, next, rfl⟩ := eq_token_of_beq_head? .question trivial hquestion
    obtain ⟨hnext, hrun⟩ := advance_bind_eq_ok hrun
    have hcount := (hspan.append (.cons (.nil next))).count_add_length
    obtain ⟨a, ea, rest, ha, hbuildA, hspanA, hrest, hrun⟩ :=
      hnested.bind_eq_ok (by omega) hnext hrun
    obtain ⟨start', stop', next', rfl, hnext', hrun⟩ := expect_bind_eq_ok .colon trivial hrun
    have hcount' := (hspanA.append (.cons (.nil next'))).count_add_length
    obtain ⟨b, eb, rest, hb, hbuildB, hspanB, hrest, hrun⟩ :=
      hnested.bind_eq_ok (by omega) hnext' hrun
    have hheight : [e.height, ea.height, eb.height].foldl max 0 + 1 =
        (Expr.conditional e ea eb).height := by simp [height]
    obtain ⟨e', hbounded, hbuilt⟩ := (follows_build hheight _).exists_of_ok hrun
    cases hbuilt
    refine ⟨.conditional p a b, e', rest, .conditional hp ha hb, ?_, rfl, ?_, hrest⟩
    · simp only [Phrase.elaborate, hbuild, hbuildA, hbuildB]
      exact hbounded
    · exact hspan.append (.cons (hspanA.append (.cons hspanB)))
  · cases hrun
    exact ⟨p, e, rest, .tighter hp, hbuild, rfl, hspan, hrest⟩

/-- A loop over arguments reads an argument and further ones behind commas. -/
theorem arguments_eq_ok {bound budget : Nat} {nested : Reading Node}
    (hnested : Sound bound .expression (fun p => deeper p.elaborate budget) nested) {count : Nat}
    {st : TokenStream} {level : Nat} {nodes : List Node} {c : Cursor} (hbound : st.count ≤ bound)
    (hcount : st.count < count) (hst : ¬st.IsFault)
    (hrun : (arguments nested count).run ⟨st, level⟩ = .ok (nodes, c)) :
    ∃ arg args es rest, (∀ p ∈ arg :: args, Derives .expression p) ∧
      Phrase.elaborateAll (arg :: args) budget = .ok es ∧ nodes = es.map node ∧
      c = ⟨rest, level⟩ ∧ st.Spans (arg.tokens ++ Phrase.tokensRest args) rest ∧ ¬rest.IsFault := by
  induction count generalizing st nodes c with
  | zero => exact absurd hcount (Nat.not_lt_zero _)
  | succ count ih =>
    obtain ⟨p, e, rest, hp, hbuild, hspan, hrest, hrun⟩ := hnested.bind_eq_ok hbound hst hrun
    rw [run_peek_bind] at hrun
    split at hrun
    · next hcomma =>
      obtain ⟨start, stop, next, rfl⟩ := eq_token_of_beq_head? .comma trivial hcomma
      obtain ⟨hnext, hrun⟩ := advance_bind_eq_ok hrun
      rw [run_bind_eq_ok_iff] at hrun
      obtain ⟨others, c, hothers, hrun⟩ := hrun
      have hnextCount := (hspan.append (.cons (.nil next))).count_add_length
      rw [List.length_append, List.length_singleton] at hnextCount
      obtain ⟨q, qs, es, rest, hqs, hbuilds, rfl, rfl, hspans, hrest⟩ :=
        ih (by omega) (by omega) hnext hothers
      cases hrun
      refine ⟨p, q :: qs, e :: es, rest, ?_, ?_, rfl, rfl, ?_, hrest⟩
      · exact List.forall_mem_cons.mpr ⟨hp, hqs⟩
      · rw [Phrase.elaborateAll]
        simp only [hbuild, hbuilds]
        rfl
      · exact hspan.append (.cons hspans)
    · cases hrun
      refine ⟨p, [], [e], rest, ?_, ?_, rfl, rfl, ?_, hrest⟩
      · exact List.forall_mem_singleton.mpr hp
      · rw [Phrase.elaborateAll]
        simp only [hbuild]
        rfl
      · simpa [Phrase.tokensRest] using hspan

/-- Behind the arguments of a call its closing parenthesis is read. -/
theorem closeCall_eq_ok {name : String} {es : List Expr} {st : TokenStream} {level : Nat}
    {result : Node × Cursor}
    (hrun : (closeCall name (es.map node)).run ⟨st, level⟩ = .ok result) :
    ∃ e start stop rest, (Expr.call name es).bounded = .ok e ∧
      st = .token .closeParen start stop rest ∧ ¬rest.IsFault ∧ result = (node e, ⟨rest, level⟩) := by
  obtain ⟨start, stop, rest, rfl, hrest, hrun⟩ := expect_bind_eq_ok .closeParen trivial hrun
  obtain ⟨e, hbounded, hbuilt⟩ := (follows_build_call name es _).exists_of_ok hrun
  cases hbuilt
  exact ⟨e, start, stop, rest, hbounded, rfl, hrest, rfl⟩

/-- A call is read from its name and the opening parenthesis on. -/
theorem explains_call {bound budget : Nat} {nested : Reading Node}
    (hnested : Sound bound .expression (fun p => deeper p.elaborate budget) nested) {name : String}
    {start stop start' stop' level : Nat} {next : TokenStream} {result : Node × Cursor}
    (hbound : next.count < bound)
    (hrun : (callOf bound nested name).run ⟨.token .openParen start' stop' next, level⟩ =
      .ok result) :
    Explains .primary (·.elaborate budget)
      (.token (.identifier name) start stop (.token .openParen start' stop' next)) level result := by
  obtain ⟨hnext, hrun⟩ := advance_bind_eq_ok hrun
  rw [run_peek_bind] at hrun
  split at hrun
  · change (closeCall name ([].map node)).run _ = _ at hrun
    obtain ⟨e, start, stop, rest, hbounded, rfl, hrest, rfl⟩ := closeCall_eq_ok hrun
    refine ⟨.call name [], e, rest, .call name fun p hp => absurd hp List.not_mem_nil, ?_, rfl,
      .cons (.cons (.cons (.nil rest))), hrest⟩
    exact hbounded
  · rw [run_bind_eq_ok_iff] at hrun
    obtain ⟨nodes, c, harguments, hrun⟩ := hrun
    obtain ⟨arg, args, es, rest, hargs, hbuild, rfl, rfl, hspan, hrest⟩ :=
      arguments_eq_ok hnested (Nat.le_of_lt hbound) hbound hnext harguments
    obtain ⟨e, start, stop, rest, hbounded, rfl, hrest, rfl⟩ := closeCall_eq_ok hrun
    refine ⟨.call name (arg :: args), e, rest, .call name hargs, ?_, rfl,
      .cons (.cons (hspan.append (.cons (.nil rest)))), hrest⟩
    simp only [Phrase.elaborate, hbuild]
    exact hbounded

/-- A literal or a variable is read by taking its token. -/
theorem explains_leaf {p : Phrase} {e : Expr} {t : Token} {start stop level budget : Nat}
    {next : TokenStream} {result : Node × Cursor} (hp : Derives .primary p)
    (htokens : p.tokens = [t]) (hbuild : p.elaborate budget = .ok e) (hheight : e.height = 1)
    (hrun : (advance >>= fun _ => pure (leaf e) : Reading Node).run
      ⟨.token t start stop next, level⟩ = .ok result) :
    Explains .primary (·.elaborate budget) (.token t start stop next) level result := by
  obtain ⟨hnext, hrun⟩ := advance_bind_eq_ok hrun
  cases hrun
  refine ⟨p, e, next, hp, hbuild, ?_, ?_, hnext⟩
  · rw [node, leaf, hheight]
  · rw [htokens]
    exact .cons (.nil next)

/-- A literal, a variable, a call or an expression in parentheses is read. -/
theorem Sound.primary {bound budget : Nat} {nested : Reading Node}
    (hnested : Sound bound .expression (fun p => deeper p.elaborate budget) nested) :
    Sound bound .primary (·.elaborate budget) (primary bound nested) := by
  intro st level result hbound hst hrun
  rw [Reading.primary, run_peek_bind] at hrun
  cases st with
  | fault cause position => exact absurd trivial hst
  | finish position => cases hrun
  | token t start stop next =>
    cases t with
    | number x => exact explains_leaf (.number x) rfl rfl rfl hrun
    | string s => exact explains_leaf (.string s) rfl rfl rfl hrun
    | boolean b => exact explains_leaf (.boolean b) rfl rfl rfl hrun
    | operator | not | question | colon | closeParen | comma => cases hrun
    | identifier name =>
      obtain ⟨hnext, hrun⟩ := advance_bind_eq_ok hrun
      rw [run_peek_bind] at hrun
      split at hrun
      · next hparen =>
        obtain ⟨start', stop', next, rfl⟩ :=
          eq_token_of_beq_head? .openParen trivial hparen
        have hcount : next.count + 1 + 1 ≤ bound := hbound
        exact explains_call hnested (by omega) hrun
      · cases hrun
        exact ⟨.var name, .var name, next, .var name, rfl, rfl, .cons (.nil next), hnext⟩
    | openParen =>
      obtain ⟨hnext, hrun⟩ := advance_bind_eq_ok hrun
      obtain ⟨p, e, rest, hp, hbuild, hspan, hrest, hrun⟩ :=
        hnested.bind_eq_ok (Nat.le_of_succ_le hbound) hnext hrun
      obtain ⟨start', stop', rest, rfl, hrest, hrun⟩ := expect_bind_eq_ok .closeParen trivial hrun
      cases hrun
      exact ⟨.parenthesized p, e, rest, .parenthesized hp, hbuild, rfl,
        .cons (hspan.append (.cons (.nil rest))), hrest⟩

/-- A stream with a sign at its head is the token of this sign and what follows. -/
theorem eq_token_of_sign? {st : TokenStream} {sign : Sign} (h : sign? st.head? = some sign) :
    ∃ start stop next, st = .token sign.token start stop next := by
  cases st with
  | fault cause position => cases h
  | finish position => cases h
  | token t start stop next =>
    have ht : t = sign.token := by
      cases t with
      | operator op => cases op <;> cases h <;> rfl
      | not => cases h; rfl
      | _ => cases h
    exact ⟨start, stop, next, congrArg (TokenStream.token · start stop next) ht⟩

/-- A sign before an operand, or an operand without one, is read. -/
theorem Sound.signed {bound budget : Nat} {deeperOperand primary : Reading Node}
    (hoperand : Sound bound .signed (fun p => deeper p.elaborate budget) deeperOperand)
    (hprimary : Sound bound .primary (·.elaborate budget) primary) :
    Sound bound .signed (·.elaborate budget) (signed deeperOperand primary) := by
  intro st level result hbound hst hrun
  cases hsign : sign? st.head? with
  | none =>
    rw [run_signed_of_none hsign] at hrun
    exact Explains.tighter .signed (hprimary st level result hbound hst hrun)
  | some sign =>
    rw [run_signed_of_some hsign] at hrun
    obtain ⟨start, stop, next, rfl⟩ := eq_token_of_sign? hsign
    obtain ⟨hnext, hrun⟩ := advance_bind_eq_ok hrun
    obtain ⟨p, e, rest, hp, hbuild, hspan, hrest, hrun⟩ :=
      hoperand.bind_eq_ok (Nat.le_of_succ_le hbound) hnext hrun
    obtain ⟨e', hbounded, happlied⟩ := (follows_applySign sign e _).exists_of_ok hrun
    cases happlied
    refine ⟨.signed sign p, e', rest, .signed sign hp, ?_, rfl, .cons hspan, hrest⟩
    simp only [Phrase.elaborate, hbuild]
    exact hbounded

/-- Failing reads nothing. -/
theorem sound_fail (bound : Nat) (s : Symbol) (elaborated : Phrase → Except SyntaxCause Expr)
    (cause : SyntaxCause) : Sound bound s elaborated (fail cause) := by
  intro st level result hbound hst hrun
  cases hrun

/-- Reading deeper reads what is elaborated deeper. -/
theorem Sound.within {bound : Nat} {s : Symbol} {budget : Nat} {r : Reading Node}
    (h : Sound bound s (·.elaborate budget) r) :
    Sound bound s (fun p => deeper p.elaborate (budget + 1)) (within r) := by
  intro st level result hbound hst hrun
  change (r.run ⟨st, level + 1⟩ >>= _) = _ at hrun
  obtain ⟨inner, hbody, hrun⟩ := Except.bind_eq_ok_iff.mp hrun
  obtain ⟨p, e, rest, hp, hbuild, rfl, hspan, hrest⟩ := h st (level + 1) inner hbound hst hbody
  cases hrun
  exact ⟨p, e, rest, hp, hbuild, rfl, hspan, hrest⟩

/-- The readings at every budget read phrases, elaborated under this budget. -/
theorem sound_levels (bound budget : Nat) :
    Sound bound .expression (fun p => deeper p.elaborate budget) (levels bound budget).nested ∧
      Sound bound .signed (·.elaborate budget) (levels bound budget).operand := by
  induction budget with
  | zero =>
    have hnested := sound_fail bound .expression (fun p => deeper p.elaborate 0) .nestedTooDeep
    exact ⟨hnested, Sound.signed (sound_fail _ _ _ _) (Sound.primary hnested)⟩
  | succ budget ih =>
    have hnested := (Sound.ternary ih.2 ih.1).within
    exact ⟨hnested, Sound.signed ih.2.within (Sound.primary hnested)⟩

end Expr.Reading

end FormulaRules
