import FormulaRules.Proofs.Reading.Sound

/-!
# Which formulas are accepted

A formula is accepted exactly if its text is read to the end, its tokens are those of a phrase
of the grammar, and the phrase stays within the limits of nesting and height. The result
is the tree of the phrase.
-/

namespace FormulaRules

namespace TokenStream

/-- Whether the whole text has been read into tokens. -/
def EndsClean : TokenStream → Prop
  | token _ _ _ next => next.EndsClean
  | finish _ => True
  | fault _ _ => False

/-- All tokens of a text stand before its end. -/
theorem endsClean_and_tokens_eq_iff {st : TokenStream} {ts : List Token} :
    st.EndsClean ∧ st.tokens = ts ↔ ∃ position, st.Spans ts (.finish position) := by
  induction st generalizing ts with
  | token t start stop next ih =>
    constructor
    · rintro ⟨hclean, rfl⟩
      obtain ⟨position, hspan⟩ := ih.mp ⟨hclean, rfl⟩
      exact ⟨position, .cons hspan⟩
    · rintro ⟨position, hspan⟩
      cases hspan with
      | cons hspan =>
      obtain ⟨hclean, htokens⟩ := ih.mpr ⟨position, hspan⟩
      exact ⟨hclean, congrArg (t :: ·) htokens⟩
  | finish position =>
    constructor
    · rintro ⟨-, rfl⟩
      exact ⟨position, .nil _⟩
    · rintro ⟨position, ⟨⟩⟩
      exact ⟨trivial, rfl⟩
  | fault cause position =>
    constructor
    · rintro ⟨⟨⟩, -⟩
    · rintro ⟨position, ⟨⟩⟩

/-- A blank text is an end. -/
theorem ofText_of_blank {s : String} (h : (Text.skipBlanks s.toList).isEmpty) :
    ∃ position, ofText s = finish position := by
  rw [List.isEmpty_iff] at h
  unfold ofText
  cases s.toList.length with
  | zero => exact ⟨0, rfl⟩
  | succ n => exact ⟨_, by simp only [ofChars, h]; rfl⟩

/-- A blank text has no tokens. -/
theorem tokens_ofText_of_blank {s : String} (h : (Text.skipBlanks s.toList).isEmpty) :
    (ofText s).tokens = [] := by
  obtain ⟨position, htext⟩ := ofText_of_blank h
  rw [htext, tokens]

end TokenStream

namespace Expr

open Reading TokenStream

/-- The tokens of a phrase are no blank text. -/
theorem not_isEmpty_skipBlanks {s : String} {p : Phrase}
    (htokens : (TokenStream.ofText s).tokens = p.tokens) :
    ¬(Text.skipBlanks s.toList).isEmpty = true := by
  intro hblank
  have hlength := p.tokens_length_pos
  rw [← htokens, tokens_ofText_of_blank hblank] at hlength
  exact Nat.lt_irrefl 0 hlength

/-- Moving to the tokens of a text fails only at a fault. -/
theorem run_moveTo {text : TokenStream} (h : ¬text.IsFault) :
    (moveTo text).run ⟨text, 0⟩ = .ok ((), ⟨text, 0⟩) := by
  cases text with
  | fault cause position => exact absurd trivial h
  | token t start stop next => rfl
  | finish position => rfl

/-- A text with the tokens of a phrase is read as the phrase is elaborated, one level deep. -/
theorem follows_complete {text : TokenStream} {p : Phrase} (hp : Derives .expression p)
    {position : Nat} (hspan : text.Spans p.tokens (.finish position)) :
    Follows ((complete text).run ⟨text, 0⟩) (deeper p.elaborate maxNesting)
      fun e => .ok (e, ⟨.finish position, 0⟩) := by
  have hbound : p.tokens.length ≤ text.count := by
    have hcount := hspan.count_add_length
    omega
  have hends : Symbol.EndsAt .expression (.finish position) := by rintro t ⟨⟩
  have hnested := follows_nested (fun budget level => (reads_of_derives hp).1 text.count budget
    text _ level hbound hspan not_false hends) maxNesting 0
  have hexpression : Follows ((expression text).run ⟨text, 0⟩) (deeper p.elaborate maxNesting)
      fun e => .ok (e, ⟨.finish position, 0⟩) := by
    rw [expression, run_bind, run_moveTo (hspan.not_isFault not_false)]
    change Follows (((levels text.count maxNesting).nested >>= fun found => pure found.expr).run _) _ _
    exact follows_bind hnested
  rw [complete]
  exact follows_bind hexpression

/-- A text with the tokens of a phrase is parsed as the phrase is elaborated, one level deep. -/
theorem follows_parseFormula {s : String} {p : Phrase} (hp : Derives .expression p)
    (hclean : (TokenStream.ofText s).EndsClean)
    (htokens : (TokenStream.ofText s).tokens = p.tokens) :
    match deeper p.elaborate maxNesting with
    | .ok e => parseFormula s = .ok e
    | .error cause => ∃ position, parseFormula s = .error ⟨⟨cause, position⟩, s⟩ := by
  obtain ⟨position, hspan⟩ := endsClean_and_tokens_eq_iff.mp ⟨hclean, htokens⟩
  have hfollows := follows_complete hp hspan
  rw [parseFormula, if_neg (not_isEmpty_skipBlanks htokens), parseComplete, readWith]
  cases hout : deeper p.elaborate maxNesting with
  | ok e =>
    rw [hout] at hfollows
    simp only [show (complete (TokenStream.ofText s)).run _ = _ from hfollows]
  | error cause =>
    rw [hout] at hfollows
    obtain ⟨position, hfail⟩ := hfollows
    exact ⟨position, by simp only [hfail]⟩

/-- A text that is read to its end has the tokens of a phrase whose elaboration is the result. -/
theorem exists_derives_of_parseComplete {s : String} {e : Expr} (h : parseComplete s = .ok e) :
    ∃ p, Derives .expression p ∧ (TokenStream.ofText s).EndsClean ∧
      (TokenStream.ofText s).tokens = p.tokens ∧ deeper p.elaborate maxNesting = .ok e := by
  rw [parseComplete, readWith] at h
  split at h
  · next e' c hrun =>
    cases h
    generalize TokenStream.ofText s = text at hrun ⊢
    rw [complete, run_bind_eq_ok_iff] at hrun
    obtain ⟨e', c', hexpression, hrun⟩ := hrun
    rw [expression, run_bind_eq_ok_iff] at hexpression
    obtain ⟨u, c'', hmove, hexpression⟩ := hexpression
    have htext : ¬text.IsFault := by
      intro hfault
      cases text with
      | fault cause position => cases hmove
      | token | finish => exact hfault
    rw [run_moveTo htext] at hmove
    cases hmove
    rw [run_bind_eq_ok_iff] at hexpression
    obtain ⟨found, c'', hnested, hexpression⟩ := hexpression
    obtain ⟨p, e'', rest, hp, hbuild, hresult, hspan, hrest⟩ :=
      (sound_levels text.count maxNesting).1 text 0 _ (Nat.le_refl _) htext hnested
    cases hresult
    cases hexpression
    cases rest with
    | token t start stop next => cases hrun
    | fault cause position => exact absurd trivial hrest
    | finish position =>
      cases hrun
      obtain ⟨hclean, htokens⟩ := endsClean_and_tokens_eq_iff.mpr ⟨position, hspan⟩
      exact ⟨p, hp, hclean, htokens, hbuild⟩
  · cases h

/-- A formula is read as any text that is not blank. -/
theorem parseComplete_of_parseFormula {s : String} {e : Expr} (h : parseFormula s = .ok e) :
    parseComplete s = .ok e := by
  rw [parseFormula] at h
  split at h
  · cases h
  · exact h

/-- An accepted formula has the tokens of a phrase whose elaboration is the result. -/
theorem exists_derives_of_parseFormula {s : String} {e : Expr} (h : parseFormula s = .ok e) :
    ∃ p, Derives .expression p ∧ (TokenStream.ofText s).EndsClean ∧
      (TokenStream.ofText s).tokens = p.tokens ∧ deeper p.elaborate maxNesting = .ok e :=
  exists_derives_of_parseComplete (parseComplete_of_parseFormula h)

/-- A text with the tokens of a phrase is accepted exactly within the limits, and the result is the
tree of the phrase. -/
theorem parseFormula_of_tokens {s : String} {p : Phrase} (hp : Derives .expression p)
    (hclean : (TokenStream.ofText s).EndsClean) (htokens : (TokenStream.ofText s).tokens = p.tokens)
    {e : Expr} :
    parseFormula s = .ok e ↔
      p.levels + 1 ≤ maxNesting ∧ p.tree.height ≤ maxHeight ∧ p.tree = e := by
  have hparse := follows_parseFormula hp hclean htokens
  rw [← Phrase.deeper_elaborate_eq_ok_iff]
  cases hbuild : deeper p.elaborate maxNesting with
  | ok e' =>
    rw [hbuild] at hparse
    rw [hparse, Except.ok.injEq, Except.ok.injEq]
  | error cause =>
    rw [hbuild] at hparse
    obtain ⟨position, herror⟩ := hparse
    rw [herror]
    exact ⟨nofun, nofun⟩

/-- A formula is accepted exactly if its text is read to the end into the tokens of a phrase that
opens at most `maxNesting` levels, the whole expression included, and whose tree is at most
`maxHeight` high. The result is that tree. -/
theorem parseFormula_eq_ok_iff {s : String} {e : Expr} :
    parseFormula s = .ok e ↔
      ∃ p, Derives .expression p ∧ (TokenStream.ofText s).EndsClean ∧
        (TokenStream.ofText s).tokens = p.tokens ∧ p.levels + 1 ≤ maxNesting ∧
        p.tree.height ≤ maxHeight ∧ p.tree = e := by
  constructor
  · intro h
    obtain ⟨p, hp, hclean, htokens, -⟩ := exists_derives_of_parseFormula h
    exact ⟨p, hp, hclean, htokens, (parseFormula_of_tokens hp hclean htokens).mp h⟩
  · rintro ⟨p, hp, hclean, htokens, hlimits⟩
    exact (parseFormula_of_tokens hp hclean htokens).mpr hlimits

end Expr

end FormulaRules
