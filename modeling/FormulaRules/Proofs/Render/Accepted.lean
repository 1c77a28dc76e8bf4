import FormulaRules.Proofs.Render.RoundTrip

/-!
# The canonical texts of accepted formulas

The tree of an accepted formula always has a canonical text. That text shows every operator
with its parentheses, so it may be nested deeper than the formula was, and then it is not
accepted itself. A long sum is the simplest case.
-/

namespace FormulaRules

namespace Token

/-- Whether a token can be written: its number is finite or its name is a name. -/
def writable : Token → Bool
  | number x => x.isFinite
  | identifier name => isName name
  | _ => true

/-- A number is read only if it is finite. -/
theorem writable_of_readNumber {cs : List Char} {t : Token} {width : Nat}
    (h : readNumber cs = .ok (t, width)) : t.writable = true := by
  rw [readNumber] at h
  split at h
  · split at h
    · next hx =>
      cases h
      exact hx
    · cases h
  · cases h

/-- A word of letters is a keyword or a name. -/
theorem writable_readName {c : Char} (rest : List Char) (hc : isNameStart c = true) :
    (readName (c :: rest)).1.writable = true := by
  have htake : (c :: rest).takeWhile isNameChar = c :: rest.takeWhile isNameChar :=
    List.takeWhile_cons_of_pos (isNameChar_of_isNameStart hc)
  have hall : (rest.takeWhile isNameChar).all isNameChar = true := List.all_takeWhile
  simp only [readName, htake]
  split
  · rfl
  · next htrue =>
    split
    · rfl
    · next hfalse =>
      rw [Bool.not_eq_true] at htrue hfalse
      simp only [writable, isName, String.toList_ofList, hc, hall, htrue, hfalse]
      rfl

/-- A token with an optional equals sign is one of two. -/
theorem writable_withEquals {long short : Token} (hlong : long.writable = true)
    (hshort : short.writable = true) (cs : List Char) :
    (withEquals long short cs).1.writable = true := by
  unfold withEquals
  split
  · exact hlong
  · exact hshort

/-- A doubled character is a certain token. -/
theorem writable_of_doubled {c : Char} {t u : Token} {cs : List Char} {width : Nat}
    (ht : t.writable = true) (h : doubled c t cs = .ok (u, width)) : u.writable = true := by
  unfold doubled at h
  split at h
  · split at h
    · cases h
      exact ht
    · cases h
  · cases h

/-- Every token that is read can be written. -/
theorem writable_of_read {c : Char} {rest : List Char} {t : Token} {width : Nat}
    (h : read c rest = .ok (t, width)) : t.writable = true := by
  unfold read at h
  split at h
  · exact writable_of_readNumber h
  · split at h
    · next hc =>
      cases h
      exact writable_readName rest hc
    · split at h
      case h_1 =>
        split at h
        · exact writable_of_readNumber h
        · cases h
      case h_2 | h_3 =>
        split at h
        · cases h
          rfl
        · cases h
      case h_14 | h_15 | h_16 =>
        obtain rfl : _ = t := congrArg Prod.fst (Except.ok.inj h)
        exact writable_withEquals rfl rfl rest
      case h_17 | h_18 | h_19 => exact writable_of_doubled rfl h
      case h_20 => cases h
      all_goals
        cases h
        rfl

end Token

/-- Every token of a text can be written. -/
theorem TokenStream.writable_of_mem_ofChars {n position : Nat} {cs : List Char} {t : Token}
    (h : t ∈ (TokenStream.ofChars n position cs).tokens) : t.writable = true := by
  induction n generalizing position cs with
  | zero => cases h
  | succ n ih =>
    simp only [ofChars] at h
    split at h
    · cases h
    · split at h
      · next hread =>
        rcases List.mem_cons.mp h with rfl | h
        · exact Token.writable_of_read hread
        · exact ih h
      · cases h

/-- A sign keeps a tree writable. -/
theorem Expr.Reading.Sign.writable_tree (sign : Expr.Reading.Sign) {e : Expr}
    (he : e.writable = true) : (sign.tree e).writable = true := by
  have hzero : (Expr.number 0).writable = true := by decide +kernel
  have hnot : Token.isName "not" = true := by decide +kernel
  unfold tree
  split
  · next x =>
    have hx : x.isFinite = true := he
    exact (Number.isFinite_neg x).trans hx
  · exact he
  · rw [Expr.writable, hzero, he]
    rfl
  · rw [Expr.writable, hzero, he]
    rfl
  · rw [Expr.writable, Expr.writableAll, Expr.writableAll, hnot, he]
    rfl

mutual

/-- A phrase of tokens that can be written has a tree with a text. -/
theorem Phrase.writable_tree (p : Phrase) (h : ∀ t ∈ p.tokens, t.writable = true) :
    p.tree.writable = true := by
  cases p with
  | number x => exact h _ List.mem_cons_self
  | string s => rfl
  | boolean b => rfl
  | var name => exact h _ List.mem_cons_self
  | parenthesized p =>
    simp only [tokens, List.mem_cons, List.mem_append] at h
    exact writable_tree p fun t ht => h t (.inr (.inl ht))
  | signed sign p =>
    simp only [tokens, List.mem_cons] at h
    exact sign.writable_tree (writable_tree p fun t ht => h t (.inr ht))
  | binary op a b =>
    simp only [tokens, List.mem_cons, List.mem_append] at h
    have ha := writable_tree a fun t ht => h t (.inl ht)
    have hb := writable_tree b fun t ht => h t (.inr (.inr ht))
    rw [tree, Expr.writable, ha, hb]
    rfl
  | conditional c a b =>
    simp only [tokens, List.mem_cons, List.mem_append] at h
    have hc := writable_tree c fun t ht => h t (.inl ht)
    have ha := writable_tree a fun t ht => h t (.inr (.inr (.inl ht)))
    have hb := writable_tree b fun t ht => h t (.inr (.inr (.inr (.inr ht))))
    rw [tree, Expr.writable, hc, ha, hb]
    rfl
  | call name args =>
    cases args with
    | nil =>
      have hname : Token.isName name = true := h _ List.mem_cons_self
      rw [tree, Expr.writable, hname]
      rfl
    | cons arg args =>
      simp only [tokens, List.mem_cons, List.mem_append] at h
      have hname : Token.isName name = true := h _ (.inl rfl)
      have harg := writable_tree arg fun t ht => h t (.inr (.inr (.inl (.inl ht))))
      have hargs := writableAll_trees args fun t ht => h t (.inr (.inr (.inl (.inr ht))))
      rw [tree, Expr.writable, trees, Expr.writableAll, hname, harg, hargs]
      rfl

/-- Further arguments of tokens that can be written have trees with texts. -/
theorem Phrase.writableAll_trees (ps : List Phrase)
    (h : ∀ t ∈ tokensRest ps, t.writable = true) : Expr.writableAll (trees ps) = true := by
  cases ps with
  | nil => rfl
  | cons p ps =>
    simp only [tokensRest, List.mem_cons, List.mem_append] at h
    have hp := writable_tree p fun t ht => h t (.inr (.inl ht))
    have hps := writableAll_trees ps fun t ht => h t (.inr (.inr ht))
    rw [trees, Expr.writableAll, hp, hps]
    rfl

end

namespace Expr

/-- The tree of a text that is read to its end has a canonical text. -/
theorem writable_of_parseComplete {s : String} {e : Expr} (h : parseComplete s = .ok e) :
    e.writable = true := by
  obtain ⟨p, -, -, htokens, hbuild⟩ := exists_derives_of_parseComplete h
  obtain ⟨-, -, rfl⟩ := Phrase.deeper_elaborate_eq_ok_iff.mp hbuild
  refine p.writable_tree fun t ht => ?_
  rw [← htokens] at ht
  exact TokenStream.writable_of_mem_ofChars ht

/-- The tree of an accepted formula has a canonical text. -/
theorem writable_of_parseFormula {s : String} {e : Expr} (h : parseFormula s = .ok e) :
    e.writable = true :=
  writable_of_parseComplete (parseComplete_of_parseFormula h)

/-- The canonical text of an accepted formula is parsed back exactly if it is not nested too deep,
and is refused for its nesting otherwise. -/
theorem parseFormula_render_of_accepted {s : String} {e : Expr} (h : parseFormula s = .ok e) :
    (e.nesting < maxNesting → parseFormula e.render = .ok e) ∧
      (maxNesting ≤ e.nesting →
        ∃ position, parseFormula e.render = .error ⟨⟨.nestedTooDeep, position⟩, e.render⟩) := by
  have he := writable_of_parseFormula h
  exact ⟨parseFormula_render_of_lt he, parseFormula_render_of_le he⟩

/-- The sum of a variable with itself, with a number of plus signs. -/
def longSum : Nat → Expr
  | 0 => var "x"
  | n + 1 => binary .add (longSum n) (var "x")

/-- A long sum written without blanks and parentheses. -/
def longSumText : Nat → List Char
  | 0 => ['x']
  | n + 1 => longSumText n ++ ['+', 'x']

/-- The phrase of a long sum without parentheses. -/
def longSumPhrase : Nat → Phrase
  | 0 => .var "x"
  | n + 1 => .binary .add (longSumPhrase n) (.var "x")

/-- A long sum is a phrase of the grammar. -/
theorem derives_longSumPhrase (n : Nat) : Derives .sum (longSumPhrase n) := by
  have hx : Derives .primary (.var "x") := .var "x"
  induction n with
  | zero => exact hx.loosen (by decide)
  | succ n ih => exact .binary (by decide) ih (hx.loosen (by decide))

/-- The text of a long sum is read into the tokens of its phrase. -/
theorem lexes_longSumText (n : Nat) {rest : List Char} (hrest : Token.Closes rest) :
    Lexes (longSumText n ++ rest) (longSumPhrase n).tokens rest := by
  have hname : Token.isName "x" = true := by decide +kernel
  induction n generalizing rest with
  | zero => exact Lexes.name hname hrest
  | succ n ih =>
    have hsum := ih (Token.closes_cons '+' (by decide) ('x' :: rest))
    have hx : Lexes ('x' :: rest) [.identifier "x"] rest := Lexes.name hname hrest
    have h := hsum.trans ((Lexes.single (t := .operator .add) rfl (fun _ => rfl) _).trans hx)
    simpa [longSumText, longSumPhrase, Phrase.tokens] using h

/-- A long sum opens no levels, is as high as it is long, and is nested as deep. -/
theorem longSum_measures (n : Nat) :
    (longSumPhrase n).levels = 0 ∧ (longSumPhrase n).tree = longSum n ∧
      (longSum n).height = n + 1 ∧ (longSum n).nesting = n := by
  induction n with
  | zero => exact ⟨rfl, rfl, rfl, rfl⟩
  | succ n ih =>
    obtain ⟨hlevels, htree, hheight, hnesting⟩ := ih
    refine ⟨?_, ?_, ?_, ?_⟩
    · simp [longSumPhrase, Phrase.levels, hlevels]
    · simp [longSumPhrase, Phrase.tree, longSum, htree]
    · simp [longSum, height, hheight]
    · simp [longSum, nesting, hnesting]

/-- The text of a long sum is read to its end. -/
theorem tokens_longSumText (n : Nat) :
    (TokenStream.ofText (String.ofList (longSumText n))).EndsClean ∧
      (TokenStream.ofText (String.ofList (longSumText n))).tokens = (longSumPhrase n).tokens := by
  have hlexes : Lexes (String.ofList (longSumText n)).toList (longSumPhrase n).tokens [] := by
    have hsum : Lexes (longSumText n ++ []) _ [] := lexes_longSumText n Token.closes_nil
    rwa [List.append_nil, ← String.toList_ofList (l := longSumText n)] at hsum
  exact hlexes.endsClean_ofText

/-- A long sum is elaborated up to the limit of height, whatever the limit of nesting. -/
theorem elaborate_longSumPhrase {n : Nat} (h : n < maxHeight) (budget : Nat) :
    (longSumPhrase n).elaborate budget = .ok (longSum n) := by
  obtain ⟨hlevels, htree, hheight, -⟩ := longSum_measures n
  exact (Phrase.elaborate_eq_ok_iff _ _ _).mpr ⟨by rw [hlevels]; exact Nat.zero_le _, by
    rw [htree, hheight]; exact h, htree⟩

/-- A long sum is accepted up to the limit of height. -/
theorem parseFormula_longSumText {n : Nat} (h : n < maxHeight) :
    parseFormula (String.ofList (longSumText n)) = .ok (longSum n) := by
  obtain ⟨hclean, htokens⟩ := tokens_longSumText n
  have hbuild : deeper (longSumPhrase n).elaborate maxNesting = .ok (longSum n) :=
    elaborate_longSumPhrase h _
  have hparse := follows_parseFormula ((derives_longSumPhrase n).loosen (Nat.zero_le _)) hclean
    htokens
  rwa [hbuild] at hparse

/-- Sums of 63 and of 64 plus signs are both accepted, but only the first one is parsed back from
its canonical text. -/
theorem parseFormula_render_longSum :
    parseFormula (String.ofList (longSumText 63)) = .ok (longSum 63) ∧
      parseFormula (longSum 63).render = .ok (longSum 63) ∧
      parseFormula (String.ofList (longSumText 64)) = .ok (longSum 64) ∧
      ∃ position, parseFormula (longSum 64).render =
        .error ⟨⟨.nestedTooDeep, position⟩, (longSum 64).render⟩ := by
  have hshort := parseFormula_longSumText (n := 63) (by decide)
  have hlong := parseFormula_longSumText (n := 64) (by decide)
  have hshortNesting := (longSum_measures 63).2.2.2
  have hlongNesting := (longSum_measures 64).2.2.2
  refine ⟨hshort, (parseFormula_render_of_accepted hshort).1 ?_, hlong,
    (parseFormula_render_of_accepted hlong).2 ?_⟩
  · rw [hshortNesting]
    decide
  · rw [hlongNesting]
    decide

/-- A sum of 64 plus signs is accepted, and its canonical text is not. -/
theorem longSum_not_parsed_back :
    parseFormula (String.ofList (longSumText 64)) = .ok (longSum 64) ∧
      ∀ e, parseFormula (longSum 64).render ≠ .ok e := by
  have hlong := parseFormula_longSumText (n := 64) (by decide)
  have hnesting : maxNesting ≤ (longSum 64).nesting := by
    rw [(longSum_measures 64).2.2.2]
    decide
  obtain ⟨position, hrefused⟩ :=
    parseFormula_render_of_le (writable_of_parseFormula hlong) hnesting
  refine ⟨hlong, fun e h => ?_⟩
  rw [hrefused] at h
  cases h

end Expr

end FormulaRules
