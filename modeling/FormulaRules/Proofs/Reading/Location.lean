import FormulaRules.Proofs.Reading.Lookahead
import FormulaRules.Proofs.Reading.WellFormed
import FormulaRules.Proofs.Token.Places

/-!
# Where a syntax error points

Main statements. Every syntax error stands at the end of its text or at a character that is not
blank, where the reading of tokens starts one or fails to. And a formula that is refused neither
for its characters nor for a limit is refused at the first token that fits nothing: the tokens
before it begin an expression, and no expression begins with them and goes on with it.

That the tokens begin an expression is known of every refusal. That the next token fits nothing
follows from the acceptance of phrases: a reading has not looked further than this token, so a
phrase that goes on with it would be refused for the same cause.
-/

namespace FormulaRules

/-- Some items, and a next one or an end mark, stand at the start of a list that goes on with it. -/
theorem List.exists_append_of_marked_prefix {α : Type} {ts us : List α} {next : Option α}
    (h : ts.map some ++ [next] <+: us.map some ++ [none]) :
    ∃ vs, us = ts ++ vs ∧ vs.head? = next := by
  induction ts generalizing us with
  | nil =>
    refine ⟨us, rfl, ?_⟩
    cases us with
    | nil => exact (List.cons_prefix_cons.mp h).1.symm
    | cons u us => exact (List.cons_prefix_cons.mp h).1.symm
  | cons t ts ih =>
    cases us with
    | nil =>
      have hmark := (List.cons_prefix_cons.mp h).1
      cases hmark
    | cons u us =>
      obtain ⟨hhead, htail⟩ := List.cons_prefix_cons.mp h
      obtain rfl := Option.some.inj hhead
      obtain ⟨vs, rfl, hnext⟩ := ih htail
      exact ⟨vs, rfl, hnext⟩

namespace TokenStream

/-- A stream of some tokens, all at one place. -/
def ofTokens : List Token → TokenStream
  | [] => finish 0
  | t :: ts => token t 0 0 (ofTokens ts)

/-- The first tokens of a list stand before the others. -/
theorem spans_ofTokens (ts us : List Token) : (ofTokens (ts ++ us)).Spans ts (ofTokens us) := by
  induction ts with
  | nil => exact .nil _
  | cons t ts ih => exact .cons ih

/-- A stream of tokens ends with no fault. -/
theorem not_isFault_ofTokens (ts : List Token) : ¬(ofTokens ts).IsFault := by
  cases ts with
  | nil => exact not_false
  | cons => exact not_isFault_token

/-- The stream of some tokens starts with the first of them. -/
theorem head?_ofTokens (ts : List Token) : (ofTokens ts).head? = ts.head? := by
  cases ts with
  | nil => rfl
  | cons => rfl

/-- Whether a position of a text is that of the next token, or of the end if there is none, behind
some tokens. In a blank text position zero stands for the end. -/
def PointsAt (s : String) (position : Nat) (ts : List Token) (next : Option Token) : Prop :=
  ∃ rest, (ofText s).Spans ts rest ∧ ¬rest.IsFault ∧ rest.head? = next ∧
    position = if (Text.skipBlanks s.toList).isEmpty then 0 else rest.position

end TokenStream

/-- Whether no expression goes on with a token, or ends, behind some tokens. -/
def Misfit (ts : List Token) (next : Option Token) : Prop :=
  ∀ p, Derives .expression p → ¬ts.map some ++ [next] <+: p.tokens.map some ++ [none]

/-- No expression ends before its first token. -/
theorem misfit_nil : Misfit [] none := by
  intro p _ hprefix
  obtain ⟨vs, htokens, hnext⟩ := List.exists_append_of_marked_prefix hprefix
  obtain ⟨t, us, hcons, -⟩ := p.tokens_eq_cons
  rw [List.nil_append] at htokens
  rw [← htokens, hcons] at hnext
  cases hnext

namespace Expr

open Reading TokenStream

/-- The tokens of an expression are refused for the limits only. -/
theorem isLimit_of_complete_ofTokens {p : Phrase} (hp : Derives .expression p) {fault : SyntaxFault}
    (h : (complete (ofTokens p.tokens)).run ⟨ofTokens p.tokens, 0⟩ = .error fault) :
    fault.cause.IsLimit := by
  have hspan := spans_ofTokens p.tokens []
  rw [List.append_nil] at hspan
  have hfollows := follows_complete hp hspan
  cases hbuild : deeper p.elaborate maxNesting with
  | ok e =>
    rw [hbuild] at hfollows
    cases h.symm.trans hfollows
  | error cause =>
    rw [hbuild] at hfollows
    obtain ⟨position, hrun⟩ := hfollows
    cases h.symm.trans hrun
    exact isLimit_of_deeper (fun _ => p.isLimit_of_elaborate) hbuild

section

variable {s : String} {x : SyntaxError} {ts : List Token} {rest : TokenStream}

/-- The tokens before a syntax error begin an expression. -/
theorem exists_begins_of_parseComplete (h : parseComplete s = .error x)
    (hlexical : ¬x.cause.IsLexical) (hlimit : ¬x.cause.IsLimit) :
    ∃ ts rest, (ofText s).Spans ts rest ∧ ¬rest.IsFault ∧ x.position = rest.position ∧
      Symbol.expression.Begins ts := by
  obtain ⟨⟨cause, position⟩, source⟩ := x
  cases (refusal_of_parseComplete h).2 with
  | lexical hspan => exact absurd (isLexical_of_spans_ofChars hspan) hlexical
  | misplaced _ hbegins hspan hrest => exact ⟨_, _, hspan, hrest, rfl, hbegins⟩
  | nesting | height => exact absurd trivial hlimit

/-- The token that a syntax error points at fits nothing. -/
theorem misfit_of_parseComplete (h : parseComplete s = .error x) (hlexical : ¬x.cause.IsLexical)
    (hlimit : ¬x.cause.IsLimit) (hspan : (ofText s).Spans ts rest)
    (hposition : x.position = rest.position) : Misfit ts rest.head? := by
  intro p hp hprefix
  obtain ⟨vs, htokens, hnext⟩ := List.exists_append_of_marked_prefix hprefix
  obtain ⟨-, hrun⟩ := run_complete_of_parseComplete h
  have hpos : 0 < (ofTokens p.tokens).count := by
    obtain ⟨t, us, hcons, -⟩ := p.tokens_eq_cons
    rw [hcons]
    exact Nat.succ_pos _
  rcases complete_eq_error_of_shared hrun hpos with ⟨us, hfault⟩ |
    ⟨us, rest', hspan', hrest', hposition', hshared⟩
  · exact hlexical (isLexical_of_spans_ofChars hfault)
  · obtain ⟨rfl, rfl⟩ := eq_of_position_eq hspan hspan' (hposition.symm.trans hposition')
    have htwin : (ofTokens p.tokens).Spans ts (ofTokens vs) := htokens ▸ spans_ofTokens ts vs
    have hhead : rest.SameHead (ofTokens vs) :=
      ⟨hrest', not_isFault_ofTokens vs, (head?_ofTokens vs).trans hnext⟩
    have hcause := isLimit_of_complete_ofTokens hp (hshared _ htwin hhead)
    exact hlimit hcause

end

/-- A formula that is refused neither for its characters nor for a limit is refused at the first
token that fits nothing. The tokens before it begin an expression, and with it they do not. -/
theorem misfit_of_parseFormula {s : String} {x : SyntaxError} (h : parseFormula s = .error x)
    (hlexical : ¬x.cause.IsLexical) (hlimit : ¬x.cause.IsLimit) :
    (∃ ts next, PointsAt s x.position ts next) ∧
      ∀ ts next, PointsAt s x.position ts next → Symbol.expression.Begins ts ∧ Misfit ts next := by
  rcases parseFormula_eq_error h with ⟨hblank, rfl⟩ | ⟨hblank, hcomplete⟩
  · obtain ⟨position, htext⟩ := ofText_of_blank hblank
    refine ⟨⟨[], none, ?_⟩, ?_⟩
    · exact ⟨.finish position, htext ▸ .nil _, not_false, rfl, (if_pos hblank).symm⟩
    · rintro ts next ⟨rest, hspan, -, rfl, -⟩
      rw [htext] at hspan
      cases hspan
      exact ⟨.nil _, misfit_nil⟩
  · have hnonblank : ¬(Text.skipBlanks s.toList).isEmpty = true := Bool.eq_false_iff.mp hblank
    obtain ⟨us, place, hus, hplace, hposition, hbegins⟩ :=
      exists_begins_of_parseComplete hcomplete hlexical hlimit
    refine ⟨⟨us, _, place, hus, hplace, rfl, (if_neg hnonblank).symm ▸ hposition⟩, ?_⟩
    rintro ts next ⟨rest, hspan, -, rfl, hpoint⟩
    rw [if_neg hnonblank] at hpoint
    obtain ⟨rfl, -⟩ := eq_of_position_eq hus hspan (hposition.symm.trans hpoint)
    exact ⟨hbegins, misfit_of_parseComplete hcomplete hlexical hlimit hspan hpoint⟩

/-- A call that is closed before the colon of a conditional is refused where it is closed. -/
theorem misfit_of_missing_colon :
    ∃ x, parseFormula "max(x, a ? b) + y" = .error x ∧ x.position = 12 ∧
      Symbol.expression.Begins [.identifier "max", .openParen, .identifier "x", .comma,
        .identifier "a", .question, .identifier "b"] ∧
      Misfit [.identifier "max", .openParen, .identifier "x", .comma, .identifier "a", .question,
        .identifier "b"] (some .closeParen) := by
  have hrefused : (Except.error? (parseFormula "max(x, a ? b) + y")).any (fun x =>
      decide (x.position = 12 ∧ ¬x.cause.IsLexical ∧ ¬x.cause.IsLimit)) = true := by
    decide +kernel
  have hnonblank : ¬(Text.skipBlanks "max(x, a ? b) + y".toList).isEmpty = true := by
    decide +kernel
  have htext : ofText "max(x, a ? b) + y" =
      .token (.identifier "max") 0 3 (.token .openParen 3 4 (.token (.identifier "x") 4 5
        (.token .comma 5 6 (.token (.identifier "a") 7 8 (.token .question 9 10
          (.token (.identifier "b") 11 12 (.token .closeParen 12 13
            (.token (.operator .add) 14 15 (.token (.identifier "y") 16 17
              (.finish 17)))))))))) := by
    cbv
  have hspan := (spans_nil_iff.mpr htext).append
    (.cons (.cons (.cons (.cons (.cons (.cons (.cons (.nil _))))))))
  obtain ⟨x, hparse, hx⟩ := Except.exists_of_any_error? hrefused
  obtain ⟨hposition, hlexical, hlimit⟩ := of_decide_eq_true hx
  obtain ⟨-, hpoints⟩ := misfit_of_parseFormula hparse hlexical hlimit
  refine ⟨x, hparse, hposition, hpoints _ _ ⟨_, hspan, not_false, rfl, ?_⟩⟩
  rw [if_neg hnonblank]
  exact hposition

/-- A formula or condition that is refused is blank, or is refused behind some of its tokens. -/
theorem exists_place_of_refused {s : String} {x : SyntaxError}
    (h : parseFormula s = .error x ∨ Condition.read s = .error x) :
    x.source = s ∧ (((Text.skipBlanks s.toList).isEmpty = true ∧ x.position = 0) ∨
      ∃ ts rest, (ofText s).Spans ts rest ∧ x.position = rest.position) := by
  rcases h with hformula | hcondition
  · rcases parseFormula_eq_error hformula with ⟨hblank, rfl⟩ | ⟨-, hcomplete⟩
    · exact ⟨rfl, .inl ⟨hblank, rfl⟩⟩
    · obtain ⟨hsource, hrefused⟩ := refusal_of_parseComplete hcomplete
      exact ⟨hsource, .inr hrefused.exists_place⟩
  · rcases Condition.read_eq s with ⟨b, hread⟩ | hread
    · cases hcondition.symm.trans hread
    · obtain ⟨hsource, hrefused⟩ := refusal_of_parseComplete (hread.symm.trans hcondition)
      exact ⟨hsource, .inr hrefused.exists_place⟩

/-- Every syntax error carries its text and points into it: at the end, or at a character that is
not blank and stands behind the blank characters at an offset that the reading of tokens comes
to. -/
theorem located_of_refused {s : String} {x : SyntaxError}
    (h : parseFormula s = .error x ∨ Condition.read s = .error x) :
    x.source = s ∧ x.position ≤ s.length ∧
      ((∃ c ∈ s.toList, Text.isBlank c = false) → ∃ offset, Reaches s.toList offset ∧
        x.position = offset + Text.leadingBlanks (s.toList.drop offset) ∧
          (x.position = s.length ∨
            ∃ c, s.toList[x.position]? = some c ∧ Text.isBlank c = false)) := by
  obtain ⟨hsource, ⟨hblank, hzero⟩ | ⟨ts, rest, hspan, hposition⟩⟩ := exists_place_of_refused h
  · refine ⟨hsource, hzero ▸ Nat.zero_le _, fun hnonblank => ?_⟩
    obtain ⟨c, hc, hnonblank⟩ := hnonblank
    rw [List.isEmpty_iff, Text.skipBlanks, List.dropWhile_eq_nil_iff] at hblank
    rw [hblank c hc] at hnonblank
    cases hnonblank
  · obtain ⟨n, offset, hreaches, hn, rfl⟩ := exists_reaches_of_spans hspan
    rw [position_ofChars hn] at hposition
    have hend := hreaches.end_or_getElem?
    rw [← hposition, String.length_toList] at hend
    refine ⟨hsource, ?_, fun _ => ⟨offset, hreaches, hposition, hend⟩⟩
    rcases hend with hend | ⟨c, hc, -⟩
    · exact hend.le
    · rw [← String.length_toList]
      exact (List.getElem?_eq_some_iff.mp hc).1.le

/-- A stray letter behind a wide blank is located by characters, and a condition without its right
operand at its end. -/
theorem located_of_refused_texts :
    (∃ x offset, parseFormula "a +\u3000é" = .error x ∧ x.source = "a +\u3000é" ∧ x.position = 4 ∧
      Reaches "a +\u3000é".toList offset ∧
      4 = offset + Text.leadingBlanks ("a +\u3000é".toList.drop offset)) ∧
    ∃ x, Condition.read "rate > " = .error x ∧ x.source = "rate > " ∧ x.position = 7 ∧
      x.position ≤ "rate > ".length := by
  have hstray : (Except.error? (parseFormula "a +\u3000é")).any (·.position == 4) = true := by
    decide +kernel
  have hend : (Except.error? (Condition.read "rate > ")).any (·.position == 7) = true := by
    decide +kernel
  constructor
  · obtain ⟨x, hparse, hx⟩ := Except.exists_of_any_error? hstray
    have hfour : x.position = 4 := eq_of_beq hx
    obtain ⟨hsource, -, hplace⟩ := located_of_refused (.inl hparse)
    obtain ⟨offset, hreaches, hposition, -⟩ := hplace ⟨'a', by decide +kernel, rfl⟩
    exact ⟨x, offset, hparse, hsource, hfour, hreaches, hfour.symm.trans hposition⟩
  · obtain ⟨x, hread, hx⟩ := Except.exists_of_any_error? hend
    obtain ⟨hsource, hle, -⟩ := located_of_refused (.inr hread)
    exact ⟨x, hread, hsource, eq_of_beq hx, hle⟩

end Expr

end FormulaRules
