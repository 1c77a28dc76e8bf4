import FormulaRules.Proofs.Grammar.Beginnings
import FormulaRules.Proofs.Reading.Acceptance

/-!
# Why and where a text is refused

A refused text has been read up to a place, and the fault is found there. Main statement: either
the characters at this place are no token, or the token there is misplaced, or a level is opened
there that is one too many, or a phrase ends there whose tree is one higher than the limit. No
other cause comes up, a token is never called misplaced behind tokens that begin no expression, and
a tree is never refused for a height it does not have.
-/

namespace FormulaRules

namespace SyntaxCause

/-- Whether a cause is about characters that are no token. -/
def IsLexical : SyntaxCause → Prop
  | strayCharacter _ | singleCharacter _ | numberOutOfRange _ | malformedNumber _
  | unterminatedString => True
  | _ => False

/-- Whether a cause is about a token, or the end, at a place where it cannot stand. -/
def IsMisplaced : SyntaxCause → Prop
  | unexpectedEnd | unexpected _ | missing _ _ | trailing _ => True
  | _ => False

end SyntaxCause

/-- It is decided by the constructor whether a cause is about characters. -/
instance : DecidablePred SyntaxCause.IsLexical
  | .strayCharacter _ | .singleCharacter _ | .numberOutOfRange _ | .malformedNumber _
  | .unterminatedString => isTrue trivial
  | .emptyFormula | .unexpectedEnd | .unexpected _ | .missing _ _ | .trailing _ | .nestedTooDeep
  | .treeTooHigh | .unbalanced | .reported _ => isFalse not_false

namespace Token

/-- A number is refused for its characters. -/
theorem isLexical_of_readNumber {cs : List Char} {cause : SyntaxCause}
    (h : readNumber cs = .error cause) : cause.IsLexical := by
  rw [readNumber] at h
  split at h
  · split at h
    · cases h
    · cases h
      trivial
  · cases h
    trivial

/-- A character that has to be doubled is refused for itself. -/
theorem isLexical_of_doubled {c : Char} {t : Token} {cs : List Char} {cause : SyntaxCause}
    (h : doubled c t cs = .error cause) : cause.IsLexical := by
  unfold doubled at h
  split at h
  · split at h
    · cases h
    · cases h
      trivial
  · cases h
    trivial

/-- What cannot be read as a token is refused for its characters. -/
theorem isLexical_of_read {c : Char} {rest : List Char} {cause : SyntaxCause}
    (h : read c rest = .error cause) : cause.IsLexical := by
  unfold read at h
  split at h
  · exact isLexical_of_readNumber h
  · split at h
    · cases h
    · split at h
      case h_1 =>
        split at h
        · exact isLexical_of_readNumber h
        · cases h
          trivial
      case h_2 | h_3 =>
        split at h
        · cases h
        · cases h
          trivial
      case h_17 | h_18 | h_19 => exact isLexical_of_doubled h
      all_goals
        cases h
      trivial

end Token

namespace TokenStream

/-- The fault that the tokens of a text end at is one of its characters. -/
theorem isLexical_of_spans_ofChars {n position place : Nat} {cs : List Char} {ts : List Token}
    {cause : SyntaxCause} (h : (ofChars n position cs).Spans ts (.fault cause place)) :
    cause.IsLexical := by
  induction n generalizing position cs ts with
  | zero => cases h
  | succ n ih =>
    simp only [ofChars] at h
    split at h
    · cases h
    · split at h
      · cases h with
        | cons hspan => exact ih hspan
      · next hread =>
        cases h
        exact Token.isLexical_of_read hread

end TokenStream

/-- The faults for which a stream of tokens may be refused. Before a token that is misplaced stand
the beginnings of what was to be read. -/
inductive Refusal (begins : List Token → Prop) (st : TokenStream) : SyntaxFault → Prop
  /-- No token can be read behind some tokens. -/
  | lexical {ts : List Token} {cause : SyntaxCause} {position : Nat} :
    st.Spans ts (.fault cause position) → Refusal begins st ⟨cause, position⟩
  /-- What follows some tokens cannot stand there. -/
  | misplaced {ts : List Token} {cause : SyntaxCause} {rest : TokenStream} :
    cause.IsMisplaced → begins ts → st.Spans ts rest → ¬rest.IsFault →
      Refusal begins st ⟨cause, rest.position⟩
  /-- A level is opened behind some tokens that is one too many. -/
  | nesting {ts : List Token} {rest : TokenStream} :
    st.Spans ts rest → ¬rest.IsFault → Refusal begins st ⟨.nestedTooDeep, rest.position⟩
  /-- The last of some tokens are a phrase whose tree is one too high. -/
  | height {before : List Token} {s : Symbol} {p : Phrase} {rest : TokenStream} :
    Derives s p → p.tree.height = maxHeight + 1 → st.Spans (before ++ p.tokens) rest →
      ¬rest.IsFault → Refusal begins st ⟨.treeTooHigh, rest.position⟩

section

variable {begins begins' : List Token → Prop} {st : TokenStream} {fault : SyntaxFault}

/-- What is refused behind some tokens is refused with them. -/
theorem Refusal.behind {mid : TokenStream} {ts : List Token} (h : Refusal begins mid fault)
    (hspan : st.Spans ts mid) (hbegins : ∀ us, begins us → begins' (ts ++ us)) :
    Refusal begins' st fault := by
  cases h with
  | lexical hrest => exact .lexical (hspan.append hrest)
  | misplaced hcause hts hrest hclean =>
    exact .misplaced hcause (hbegins _ hts) (hspan.append hrest) hclean
  | nesting hrest hclean => exact .nesting (hspan.append hrest) hclean
  | @height before s p rest hp hheight hrest hclean =>
    have hall := hspan.append hrest
    rw [← List.append_assoc] at hall
    exact .height hp hheight hall hclean

/-- A refusal may be put in other terms. -/
theorem Refusal.mono (h : Refusal begins st fault) (hbegins : ∀ us, begins us → begins' us) :
    Refusal begins' st fault :=
  h.behind (.nil st) hbegins

/-- A phrase whose tree is just too high is refused where it ends. -/
theorem Refusal.of_height {rest : TokenStream} {s : Symbol} {p : Phrase} (hp : Derives s p)
    (hhigh : maxHeight < p.tree.height) (hlow : p.tree.height ≤ maxHeight + 1)
    (hspan : st.Spans p.tokens rest) (hrest : ¬rest.IsFault) :
    Refusal begins st ⟨.treeTooHigh, rest.position⟩ :=
  .height hp (Nat.le_antisymm hlow hhigh) ((List.nil_append p.tokens).symm ▸ hspan) hrest

/-- What is refused is refused behind some of its tokens. -/
theorem Refusal.exists_place (h : Refusal begins st fault) :
    ∃ ts rest, st.Spans ts rest ∧ fault.position = rest.position := by
  cases h with
  | lexical hspan => exact ⟨_, _, hspan, rfl⟩
  | misplaced _ _ hspan => exact ⟨_, _, hspan, rfl⟩
  | nesting hspan => exact ⟨_, _, hspan, rfl⟩
  | height _ _ hspan => exact ⟨_, _, hspan, rfl⟩

/-- A text that is refused for a height has a phrase whose tree is just too high, up to the place of
the fault. -/
theorem Refusal.exists_of_treeTooHigh {s : String} (h : Refusal begins (TokenStream.ofText s) fault)
    (hcause : fault.cause = .treeTooHigh) :
    ∃ before symbol p rest, Derives symbol p ∧ p.tree.height = maxHeight + 1 ∧
      (TokenStream.ofText s).Spans (before ++ p.tokens) rest ∧ fault.position = rest.position := by
  cases h with
  | lexical hspan =>
    obtain rfl := hcause
    exact absurd (TokenStream.isLexical_of_spans_ofChars hspan) id
  | misplaced hmisplaced =>
    obtain rfl := hcause
    exact absurd hmisplaced id
  | nesting => cases hcause
  | height hp hheight hspan => exact ⟨_, _, _, _, hp, hheight, hspan, rfl⟩

end

namespace Expr.Reading

open TokenStream

variable {α : Type}

/-- What follows a reading that succeeds runs where it has stopped. -/
theorem run_bind_of_ok {r : Reading α} {β : Type} {f : α → Reading β} {c c' : Cursor} {a : α}
    (h : r.run c = .ok (a, c')) : (r >>= f).run c = (f a).run c' := by
  rw [run_bind, h]
  rfl

/-- A bind fails in one of its halves. -/
theorem run_bind_eq_error_iff {r : Reading α} {β : Type} {f : α → Reading β} {c : Cursor}
    {fault : SyntaxFault} :
    (r >>= f).run c = .error fault ↔
      r.run c = .error fault ∨ ∃ a c', r.run c = .ok (a, c') ∧ (f a).run c' = .error fault := by
  rw [run_bind]
  cases r.run c with
  | error e =>
    constructor
    · rintro ⟨⟩
      exact .inl rfl
    · rintro (⟨⟨⟩⟩ | ⟨a, c', ⟨⟩, -⟩)
      rfl
  | ok p =>
    constructor
    · exact fun h => .inr ⟨p.1, p.2, rfl, h⟩
    · rintro (⟨⟨⟩⟩ | ⟨a, c', hp, h⟩)
      cases hp
      exact h

/-- Taking a token fails only before characters that are none. -/
theorem advance_bind_eq_error {f : Unit → Reading α} {t : Token} {start stop level : Nat}
    {next : TokenStream} {fault : SyntaxFault}
    (h : (advance >>= f).run ⟨.token t start stop next, level⟩ = .error fault) :
    Refusal (fun _ => False) (.token t start stop next) fault ∨
      ¬next.IsFault ∧ (f ()).run ⟨next, level⟩ = .error fault := by
  cases next with
  | fault cause position =>
    cases h
    exact .inl (.lexical (.cons (.nil _)))
  | token | finish => exact .inr ⟨not_false, h⟩

/-- Wanting a mark fails before something else, or behind the mark. -/
theorem expect_bind_eq_error (mark : Token) (hmark : mark.IsMark) {f : Unit → Reading α}
    {st : TokenStream} {level : Nat} {fault : SyntaxFault} (hst : ¬st.IsFault)
    (h : (expect mark >>= f).run ⟨st, level⟩ = .error fault) :
    Refusal (· = []) st fault ∨ ∃ start stop next, st = .token mark start stop next ∧
      ¬next.IsFault ∧ (f ()).run ⟨next, level⟩ = .error fault := by
  by_cases hbeq : (st.head? == some mark) = true
  · obtain ⟨start, stop, next, rfl⟩ := eq_token_of_beq_head? mark hmark hbeq
    have hadvance : (expect mark).run ⟨.token mark start stop next, level⟩ =
        advance.run ⟨.token mark start stop next, level⟩ := by
      rw [expect, run_peek_bind, if_pos hbeq]
    rw [run_bind, hadvance, ← run_bind] at h
    exact (advance_bind_eq_error h).imp (·.mono fun _ => False.elim)
      fun hnext => ⟨start, stop, next, rfl, hnext⟩
  · rw [run_bind_eq_error_iff, expect, run_peek_bind, if_neg hbeq] at h
    rcases h with h | ⟨_, _, h, _⟩
    · cases h
      exact .inl (.misplaced trivial rfl (.nil st) hst)
    · cases h

/-- Building a node fails only if its tree is too high, where the reading stands. -/
theorem build_eq_error {e : Expr} {heights : List Nat} {c : Cursor} {fault : SyntaxFault}
    (hheight : heights.foldl max 0 + 1 = e.height) (h : (build e heights).run c = .error fault) :
    maxHeight < e.height ∧ fault = ⟨.treeTooHigh, c.ahead.position⟩ := by
  simp only [build, hheight] at h
  split at h
  · next hhigh =>
    cases h
    exact ⟨hhigh, rfl⟩
  · cases h

/-- Joining two operands fails only if their tree is too high. -/
theorem join_eq_error {op : Operator} {a b : Expr} {c : Cursor} {fault : SyntaxFault}
    (h : (join op (node a) (node b)).run c = .error fault) :
    maxHeight < (binary op a b).height ∧ fault = ⟨.treeTooHigh, c.ahead.position⟩ :=
  build_eq_error (by simp [node, height]) h

/-- A sign fails only if the tree with it is too high. -/
theorem applySign_eq_error {sign : Sign} {e : Expr} {c : Cursor} {fault : SyntaxFault}
    (h : (applySign sign (node e)).run c = .error fault) :
    maxHeight < (sign.tree e).height ∧ fault = ⟨.treeTooHigh, c.ahead.position⟩ := by
  cases sign with
  | negation => exact build_eq_error (by simp [Sign.tree, node, height, heightAll]) h
  | minus | plus =>
    cases e with
    | literal v =>
      cases v with
      | number x => cases h
      | boolean | string => exact join_eq_error h
    | var | binary | conditional | call => exact join_eq_error h

/-- Building a call fails only if its tree is too high. -/
theorem build_call_eq_error {name : String} {es : List Expr} {c : Cursor} {fault : SyntaxFault}
    (h : (build (.call name ((es.map node).map Node.expr)) ((es.map node).map Node.height)).run c =
      .error fault) :
    maxHeight < (call name es).height ∧ fault = ⟨.treeTooHigh, c.ahead.position⟩ := by
  have hexprs : (es.map node).map Node.expr = es := by simp [node, Function.comp_def]
  rw [hexprs] at h
  refine build_eq_error ?_ h
  rw [foldl_max_heights, height, Nat.zero_max]

/-- A reading of the phrases of a symbol that is refused for nothing else, as long as no more tokens
are ahead than its loops may take. -/
def Refuses (bound : Nat) (s : Symbol) (r : Reading α) : Prop :=
  ∀ st level fault, st.count ≤ bound → ¬st.IsFault → r.run ⟨st, level⟩ = .error fault →
    Refusal s.Begins st fault

/-- What follows a sound reading fails with it or behind a phrase. -/
theorem Refuses.bind_eq_error {bound : Nat} {s : Symbol}
    {elaborated : Phrase → Except SyntaxCause Expr} {r : Reading Node} (h : Refuses bound s r)
    (hsound : Sound bound s elaborated r) {f : Node → Reading α} {st : TokenStream} {level : Nat}
    {fault : SyntaxFault} (hbound : st.count ≤ bound) (hst : ¬st.IsFault)
    (hrun : (r >>= f).run ⟨st, level⟩ = .error fault) :
    Refusal s.Begins st fault ∨ ∃ p e rest, Derives s p ∧ elaborated p = .ok e ∧
      st.Spans p.tokens rest ∧
      ¬rest.IsFault ∧ (f (node e)).run ⟨rest, level⟩ = .error fault := by
  rw [run_bind_eq_error_iff] at hrun
  rcases hrun with hfirst | ⟨first, c, hfirst, hrun⟩
  · exact .inl (h st level fault hbound hst hfirst)
  · obtain ⟨p, e, rest, hp, hbuild, hresult, hspan, hrest⟩ := hsound st level _ hbound hst hfirst
    cases hresult
    exact .inr ⟨p, e, rest, hp, hbuild, hspan, hrest, hrun⟩

/-- The tree of a phrase that was elaborated is within the limit of height. -/
theorem height_le_of_elaborate {p : Phrase} {budget : Nat} {e : Expr}
    (h : p.elaborate budget = .ok e) : p.tree = e ∧ e.height ≤ maxHeight := by
  obtain ⟨-, hheight, rfl⟩ := (p.elaborate_eq_ok_iff budget e).mp h
  exact ⟨rfl, hheight⟩

/-- So is the tree of a phrase that was elaborated one level deeper. -/
theorem height_le_of_deeper {p : Phrase} {budget : Nat} {e : Expr}
    (h : deeper p.elaborate budget = .ok e) : p.tree = e ∧ e.height ≤ maxHeight := by
  obtain ⟨inner, -, hbuild⟩ := deeper_eq_ok_iff.mp h
  exact height_le_of_elaborate hbuild

/-- A loop over operators is refused in one of its operands or where an operand has been joined. -/
theorem refusal_chain {bound : Nat} {s : Symbol} {budget : Nat} {operand : Reading Node}
    (hsound : Sound bound s.operand (·.elaborate budget) operand)
    (hoperand : Refuses bound s.operand operand) (links : Nat) {left : Phrase} {e : Expr}
    {st mid : TokenStream} {level : Nat}
    {fault : SyntaxFault} (hbound : st.count ≤ bound) (hleft : Derives s left)
    (hbuild : left.elaborate budget = .ok e) (hspan : st.Spans left.tokens mid)
    (hrun : (chain s.operators operand links (node e)).run ⟨mid, level⟩ = .error fault) :
    Refusal s.Begins st fault := by
  induction links generalizing left e mid with
  | zero => cases hrun
  | succ links ih =>
    by_cases hop : ∃ op, mid.head? = some (.operator op) ∧ op ∈ s.operators
    · obtain ⟨op, hhead, hmem⟩ := hop
      cases mid with
      | fault cause position => cases hhead
      | finish position => cases hhead
      | token t start stop next =>
        cases hhead
        rw [chain, run_peek_bind] at hrun
        change (if op ∈ s.operators then _ else _ : Reading Node).run _ = _ at hrun
        rw [if_pos hmem] at hrun
        rcases advance_bind_eq_error hrun with hrefused | ⟨hnext, hrun⟩
        · exact hrefused.behind hspan fun _ => False.elim
        have hnextSpan := hspan.append (.cons (.nil next))
        have hcount := hnextSpan.count_add_length
        rcases hoperand.bind_eq_error hsound (by omega) hnext hrun with hrefused |
          ⟨q, e', rest, hq, hbuild', hspan', hrest, hrun⟩
        · exact hrefused.behind hnextSpan fun us => .binary hmem hleft
        obtain ⟨rfl, hlow⟩ := height_le_of_elaborate hbuild
        obtain ⟨rfl, hlow'⟩ := height_le_of_elaborate hbuild'
        have hjoined : Derives s (.binary op left q) :=
          .binary hmem hleft hq
        have hall : st.Spans (Phrase.binary op left q).tokens rest := hspan.append (.cons hspan')
        rw [run_bind_eq_error_iff] at hrun
        rcases hrun with hjoin | ⟨joined, c, hjoin, hrun⟩
        · obtain ⟨hhigh, rfl⟩ := join_eq_error hjoin
          refine .of_height hjoined hhigh ?_ hall hrest
          simp only [Phrase.tree, height]
          omega
        · obtain ⟨e'', hbounded, hbuilt⟩ := (follows_join op _ _ _).exists_of_ok hjoin
          cases hbuilt
          refine ih hjoined ?_ hall hrun
          simp only [Phrase.elaborate, hbuild, hbuild']
          exact hbounded
    · rw [run_chain_stop fun op hhead hmem => hop ⟨op, hhead, hmem⟩] at hrun
      cases hrun

/-- A chain of a symbol is refused as its operands are. -/
theorem Refuses.chained (s : Symbol) {bound budget : Nat} {operand : Reading Node}
    (h : Refuses bound s.operand operand)
    (hsound : Sound bound s.operand (·.elaborate budget) operand) :
    Refuses bound s (chained bound s.operators operand) := by
  intro st level fault hbound hst hrun
  rcases h.bind_eq_error hsound hbound hst hrun with hrefused |
    ⟨p, e, rest, hp, hbuild, hspan, hrest, hrun⟩
  · exact hrefused.mono fun us => .tighter s
  · exact refusal_chain hsound h bound hbound (.tighter hp) hbuild hspan hrun

/-- The six levels of operators are refused as signed operands are. -/
theorem Refuses.operation {bound budget : Nat} {operand : Reading Node}
    (h : Refuses bound .signed operand) (hsound : Sound bound .signed (·.elaborate budget) operand) :
    Refuses bound .disjunction (operation bound operand) := by
  have hproduct := Sound.chained .product hsound
  have hsum := Sound.chained .sum hproduct
  have hrelation := Sound.chained .relation hsum
  have hequality := Sound.chained .equality hrelation
  have hconjunction := Sound.chained .conjunction hequality
  exact (((((h.chained .product hsound).chained .sum hproduct).chained .relation hsum).chained
    .equality hrelation).chained .conjunction hequality).chained .disjunction hconjunction

/-- A conditional is refused in one of its parts, at a missing colon or where it ends. -/
theorem Refuses.ternary {bound budget : Nat} {operand nested : Reading Node}
    (hoperand : Refuses bound .signed operand) (hnested : Refuses bound .expression nested)
    (hsoundOperand : Sound bound .signed (·.elaborate budget) operand)
    (hsoundNested : Sound bound .expression (fun p => deeper p.elaborate budget) nested) :
    Refuses bound .expression (ternary bound operand nested) := by
  intro st level fault hbound hst hrun
  rcases (hoperand.operation hsoundOperand).bind_eq_error hsoundOperand.operation hbound hst hrun
    with hrefused | ⟨p, e, rest, hp, hbuild, hspan, hrest, hrun⟩
  · exact hrefused.mono fun us => .tighter .expression
  rw [run_peek_bind] at hrun
  split at hrun
  case isFalse => cases hrun
  case isTrue hquestion =>
    obtain ⟨start, stop, next, rfl⟩ := eq_token_of_beq_head? .question trivial hquestion
    rcases advance_bind_eq_error hrun with hrefused | ⟨hnext, hrun⟩
    · exact hrefused.behind hspan fun _ => False.elim
    have hspanC := hspan.append (.cons (.nil next))
    have hcount := hspanC.count_add_length
    rcases hnested.bind_eq_error hsoundNested (by omega) hnext hrun with hrefused |
      ⟨a, ea, rest, ha, hbuildA, hspanA, hrest, hrun⟩
    · exact hrefused.behind hspanC fun us => .onTrue hp
    rcases expect_bind_eq_error .colon trivial hrest hrun with hrefused |
      ⟨start', stop', next', rfl, hnext', hrun⟩
    · refine hrefused.behind (hspanC.append hspanA) ?_
      rintro _ rfl
      rw [List.append_nil]
      exact .onTrue hp (.of_derives ha)
    have hspanA' := hspanA.append (.cons (.nil next'))
    have hcount' := hspanA'.count_add_length
    rcases hnested.bind_eq_error hsoundNested (by omega) hnext' hrun with hrefused |
      ⟨b, eb, rest, hb, hbuildB, hspanB, hrest, hrun⟩
    · exact hrefused.behind (hspanC.append hspanA') fun us => .onFalse hp ha
    obtain ⟨rfl, hlow⟩ := height_le_of_elaborate hbuild
    obtain ⟨rfl, hlowA⟩ := height_le_of_deeper hbuildA
    obtain ⟨rfl, hlowB⟩ := height_le_of_deeper hbuildB
    obtain ⟨hhigh, rfl⟩ := build_eq_error (by simp [height, node]) hrun
    refine .of_height (.conditional hp ha hb) hhigh ?_
      (hspan.append (.cons (hspanA.append (.cons hspanB)))) hrest
    simp only [Phrase.tree, height]
    omega

/-- A loop over arguments is refused in one of them. -/
theorem refusal_arguments {bound budget : Nat} {nested : Reading Node}
    (h : Refuses bound .expression nested)
    (hsound : Sound bound .expression (fun p => deeper p.elaborate budget) nested) {count : Nat}
    {st : TokenStream} {level : Nat} {fault : SyntaxFault} (hbound : st.count ≤ bound)
    (hst : ¬st.IsFault) (hrun : (arguments nested count).run ⟨st, level⟩ = .error fault) :
    Refusal BeginsArguments st fault := by
  induction count generalizing st with
  | zero => cases hrun
  | succ count ih =>
    rcases h.bind_eq_error hsound hbound hst hrun with hrefused |
      ⟨p, e, rest, hp, hbuild, hspan, hrest, hrun⟩
    · exact hrefused.mono fun us => .first
    rw [run_peek_bind] at hrun
    split at hrun
    case isFalse => cases hrun
    case isTrue hcomma =>
      obtain ⟨start, stop, next, rfl⟩ := eq_token_of_beq_head? .comma trivial hcomma
      rcases advance_bind_eq_error hrun with hrefused | ⟨hnext, hrun⟩
      · exact hrefused.behind hspan fun _ => False.elim
      have hnextSpan := hspan.append (.cons (.nil next))
      have hcount := hnextSpan.count_add_length
      rw [run_bind_eq_error_iff] at hrun
      rcases hrun with hrest | ⟨_, _, _, hpure⟩
      · exact (ih (by omega) hnext hrest).behind hnextSpan fun us => .more hp
      · cases hpure

/-- Behind its arguments a call is refused for its closing parenthesis or where it ends. -/
theorem closeCall_eq_error {name : String} {es : List Expr} {st : TokenStream} {level : Nat}
    {fault : SyntaxFault} (hst : ¬st.IsFault)
    (hrun : (closeCall name (es.map node)).run ⟨st, level⟩ = .error fault) :
    Refusal (· = []) st fault ∨ ∃ start stop rest, st = .token .closeParen start stop rest ∧
      ¬rest.IsFault ∧ maxHeight < (call name es).height ∧
      fault = ⟨.treeTooHigh, rest.position⟩ := by
  rcases expect_bind_eq_error .closeParen trivial hst hrun with hrefused |
    ⟨start, stop, rest, rfl, hrest, hrun⟩
  · exact .inl hrefused
  · exact .inr ⟨start, stop, rest, rfl, hrest, build_call_eq_error hrun⟩

/-- A call is refused in one of its arguments or behind them. -/
theorem refusal_callOf {bound budget : Nat} {nested : Reading Node}
    (h : Refuses bound .expression nested)
    (hsound : Sound bound .expression (fun p => deeper p.elaborate budget) nested) {name : String}
    {start stop start' stop' level : Nat} {next : TokenStream} {fault : SyntaxFault}
    (hbound : next.count < bound)
    (hrun : (callOf bound nested name).run ⟨.token .openParen start' stop' next, level⟩ =
      .error fault) :
    Refusal Symbol.primary.Begins
      (.token (.identifier name) start stop (.token .openParen start' stop' next)) fault := by
  have hopen : (TokenStream.token (.identifier name) start stop
      (.token .openParen start' stop' next)).Spans [.identifier name, .openParen] next :=
    .cons (.cons (.nil next))
  rcases advance_bind_eq_error hrun with hrefused | ⟨hnext, hrun⟩
  · exact hrefused.behind (.cons (.nil _)) fun _ => False.elim
  rw [run_peek_bind] at hrun
  split at hrun
  · change (closeCall name ([].map node)).run _ = _ at hrun
    rcases closeCall_eq_error hnext hrun with hrefused | ⟨_, _, rest, rfl, hrest, hhigh, rfl⟩
    · refine hrefused.behind hopen ?_
      rintro _ rfl
      exact BeginsArguments.call name (.first (.nil _))
    · exact absurd hhigh (by simp [height, heightAll, maxHeight])
  · rw [run_bind_eq_error_iff] at hrun
    rcases hrun with hargs | ⟨nodes, c, hargs, hrun⟩
    · exact (refusal_arguments h hsound (Nat.le_of_lt hbound) hnext hargs).behind hopen
        fun us => BeginsArguments.call name
    obtain ⟨arg, args, es, mid, hderives, hbuild, rfl, rfl, hspan, hmid⟩ :=
      arguments_eq_ok hsound (Nat.le_of_lt hbound) hbound hnext hargs
    rcases closeCall_eq_error hmid hrun with hrefused | ⟨_, _, rest, rfl, hrest, hhigh, rfl⟩
    · refine hrefused.behind (hopen.append hspan) ?_
      rintro _ rfl
      rw [List.append_nil]
      exact BeginsArguments.call name ⟨arg, args, hderives, List.prefix_rfl⟩
    · obtain ⟨-, hlow, rfl⟩ := (Phrase.elaborateAll_eq_ok_iff _ _ _).mp hbuild
      exact .of_height (.call name hderives) hhigh (Nat.succ_le_succ hlow)
        (.cons (.cons (hspan.append (.cons (.nil rest))))) hrest

/-- A literal, a variable, a call or an expression in parentheses is refused for its first token or
behind it. -/
theorem Refuses.primary {bound budget : Nat} {nested : Reading Node}
    (h : Refuses bound .expression nested)
    (hsound : Sound bound .expression (fun p => deeper p.elaborate budget) nested) :
    Refuses bound .primary (primary bound nested) := by
  intro st level fault hbound hst hrun
  have hleaf {e : Expr} {t : Token} {start stop : Nat} {next : TokenStream}
      (hrun : (advance >>= fun _ => pure (leaf e) : Reading Node).run
        ⟨.token t start stop next, level⟩ = .error fault) :
      Refusal Symbol.primary.Begins (.token t start stop next) fault := by
    rcases advance_bind_eq_error hrun with hrefused | ⟨-, hpure⟩
    · exact hrefused.mono fun _ => False.elim
    · cases hpure
  rw [Reading.primary, run_peek_bind] at hrun
  cases st with
  | fault cause position => exact absurd trivial hst
  | finish position =>
    cases hrun
    exact .misplaced trivial (.nil _) (.nil _) hst
  | token t start stop next =>
    cases t with
    | number | string | boolean => exact hleaf hrun
    | operator | not | question | colon | closeParen | comma =>
      cases hrun
      exact .misplaced trivial (.nil _) (.nil _) hst
    | identifier name =>
      rcases advance_bind_eq_error hrun with hrefused | ⟨hnext, hrun⟩
      · exact hrefused.mono fun _ => False.elim
      rw [run_peek_bind] at hrun
      split at hrun
      · next hparen =>
        obtain ⟨start', stop', next, rfl⟩ := eq_token_of_beq_head? .openParen trivial hparen
        have hcount : next.count + 1 + 1 ≤ bound := hbound
        exact refusal_callOf h hsound (by omega) hrun
      · cases hrun
    | openParen =>
      have hopen : (TokenStream.token .openParen start stop next).Spans [.openParen] next :=
        .cons (.nil next)
      rcases advance_bind_eq_error hrun with hrefused | ⟨hnext, hrun⟩
      · exact hrefused.mono fun _ => False.elim
      rcases h.bind_eq_error hsound (Nat.le_of_succ_le hbound) hnext hrun with hrefused |
        ⟨p, e, rest, hp, hbuild, hspan, hrest, hrun⟩
      · exact hrefused.behind hopen fun us => .parenthesized
      rcases expect_bind_eq_error .closeParen trivial hrest hrun with hrefused |
        ⟨start', stop', rest, rfl, hrest, hrun⟩
      · refine hrefused.behind (hopen.append hspan) ?_
        rintro _ rfl
        rw [List.append_nil]
        exact .parenthesized (.of_derives hp)
      · cases hrun

/-- An operand is refused as one without a sign, or behind its sign, or where it ends. -/
theorem Refuses.signed {bound budget : Nat} {deeperOperand primary : Reading Node}
    (hoperand : Refuses bound .signed deeperOperand) (hprimary : Refuses bound .primary primary)
    (hsound : Sound bound .signed (fun p => deeper p.elaborate budget) deeperOperand) :
    Refuses bound .signed (signed deeperOperand primary) := by
  intro st level fault hbound hst hrun
  cases hsign : sign? st.head? with
  | none =>
    rw [run_signed_of_none hsign] at hrun
    exact (hprimary st level fault hbound hst hrun).mono fun us => .tighter .signed
  | some sign =>
    rw [run_signed_of_some hsign] at hrun
    obtain ⟨start, stop, next, rfl⟩ := eq_token_of_sign? hsign
    rcases advance_bind_eq_error hrun with hrefused | ⟨hnext, hrun⟩
    · exact hrefused.mono fun _ => False.elim
    rcases hoperand.bind_eq_error hsound (Nat.le_of_succ_le hbound) hnext hrun with hrefused |
      ⟨p, e, rest, hp, hbuild, hspan, hrest, hrun⟩
    · exact hrefused.behind (.cons (.nil next)) fun us => .signed sign
    obtain ⟨rfl, hlow⟩ := height_le_of_deeper hbuild
    obtain ⟨hhigh, rfl⟩ := applySign_eq_error hrun
    exact .of_height (.signed sign hp) hhigh
      (Nat.le_trans (sign.height_tree_le p.tree) (Nat.succ_le_succ hlow)) (.cons hspan) hrest

/-- Opening a level too many is refused where it is opened. -/
theorem refuses_nestedTooDeep (bound : Nat) (s : Symbol) :
    Refuses bound s (fail .nestedTooDeep : Reading α) := by
  intro st level fault hbound hst hrun
  cases hrun
  exact .nesting (.nil st) hst

/-- Reading deeper is refused for the same faults. -/
theorem Refuses.within {bound : Nat} {s : Symbol} {elaborated : Phrase → Except SyntaxCause Expr}
    {r : Reading Node} (h : Refuses bound s r) (hsound : Sound bound s elaborated r) :
    Refuses bound s (within r) := by
  intro st level fault hbound hst hrun
  have hopened : (modify fun c => { c with level := c.level + 1 } : Reading Unit).run
      ⟨st, level⟩ = .ok ((), ⟨st, level + 1⟩) := rfl
  rw [Reading.within, run_bind_of_ok hopened] at hrun
  rcases h.bind_eq_error hsound hbound hst hrun with hrefused | ⟨p, e, rest, -, -, -, -, hrun⟩
  · exact hrefused
  · -- The level that was opened is still open, so it can be closed.
    cases hrun

/-- The readings at every budget are refused for nothing else. -/
theorem refuses_levels (bound budget : Nat) :
    Refuses bound .expression (levels bound budget).nested ∧
      Refuses bound .signed (levels bound budget).operand := by
  induction budget with
  | zero =>
    obtain ⟨hsound, -⟩ := sound_levels bound 0
    have hnested : Refuses bound .expression (levels bound 0).nested :=
      refuses_nestedTooDeep bound .expression
    exact ⟨hnested, (refuses_nestedTooDeep bound .signed).signed (hnested.primary hsound)
      (sound_fail _ _ (fun p => deeper p.elaborate 0) _)⟩
  | succ budget ih =>
    obtain ⟨hsoundNested, hsoundOperand⟩ := sound_levels bound budget
    obtain ⟨hsound, -⟩ := sound_levels bound (budget + 1)
    have hnested : Refuses bound .expression (levels bound (budget + 1)).nested :=
      (ih.2.ternary ih.1 hsoundOperand hsoundNested).within (hsoundOperand.ternary hsoundNested)
    exact ⟨hnested, (ih.2.within hsoundOperand).signed (hnested.primary hsound)
      hsoundOperand.within⟩

/-- A text is refused for the faults of its tokens. -/
theorem refusal_of_complete {text : TokenStream} {fault : SyntaxFault}
    (h : (complete text).run ⟨text, 0⟩ = .error fault) :
    Refusal Symbol.expression.Begins text fault := by
  by_cases htext : text.IsFault
  · cases text with
    | fault cause position =>
      cases h
      exact .lexical (.nil _)
    | token | finish => exact absurd htext not_false
  · have hsound := (sound_levels text.count maxNesting).1
    have hrefuses := (refuses_levels text.count maxNesting).1
    rw [complete, expression, bind_assoc, run_bind_of_ok (run_moveTo htext), bind_assoc] at h
    rcases hrefuses.bind_eq_error hsound (Nat.le_refl _) htext h with hrefused |
      ⟨p, e, rest, hp, -, hspan, hrest, hrun⟩
    · exact hrefused
    · cases rest with
      | fault cause position => exact absurd trivial hrest
      | finish position => cases hrun
      | token t start stop next =>
        cases hrun
        exact .misplaced trivial (.of_derives hp) hspan hrest

end Expr.Reading

namespace Expr

/-- A text is refused as its stream of tokens is. -/
theorem run_complete_of_parseComplete {s : String} {e : SyntaxError}
    (h : parseComplete s = .error e) : e.source = s ∧
      (Reading.complete (TokenStream.ofText s)).run ⟨TokenStream.ofText s, 0⟩ =
        .error e.toSyntaxFault := by
  rw [parseComplete, readWith] at h
  split at h
  · cases h
  · next fault hrun =>
    cases h
    exact ⟨rfl, hrun⟩

/-- A refused text is kept in the error, and is refused for the faults of its tokens. -/
theorem refusal_of_parseComplete {s : String} {e : SyntaxError} (h : parseComplete s = .error e) :
    e.source = s ∧ Refusal Symbol.expression.Begins (TokenStream.ofText s) e.toSyntaxFault :=
  (run_complete_of_parseComplete h).imp_right Reading.refusal_of_complete

end Expr

end FormulaRules
