import FormulaRules.Proofs.Token.Words

/-!
# The places of a text

Tokens are read off a text one after the other. Each takes at least one character and none behind
the end of the text, and the blank characters before it are skipped. So the places of its stream,
where tokens, the end or a fault stand, are those that this repeated reading comes to. They have
positions of their own, which are characters that are not blank, or the end.
-/

namespace FormulaRules

/-- The number of blank characters at the head of a text. -/
def Text.leadingBlanks (cs : List Char) : Nat := (cs.takeWhile isBlank).length

/-- Skipping the blank characters drops as many characters. -/
theorem Text.skipBlanks_eq_drop (cs : List Char) : skipBlanks cs = cs.drop (leadingBlanks cs) := by
  have hdrop : (cs.takeWhile isBlank ++ cs.dropWhile isBlank).drop (cs.takeWhile isBlank).length =
      cs.dropWhile isBlank := List.drop_left
  rw [List.takeWhile_append_dropWhile] at hdrop
  exact hdrop.symm

/-- No blank character is left at the head. -/
theorem Text.isBlank_of_skipBlanks {cs rest : List Char} {c : Char}
    (h : skipBlanks cs = c :: rest) : isBlank c = false := by
  have hhead := List.head?_dropWhile_not isBlank cs
  rw [skipBlanks] at h
  simpa [h] using hhead

namespace Token

/-- The characters of a number are the first ones of the text. -/
theorem isPrefix_numberText (cs : List Char) : numberText cs <+: cs := by
  simp only [numberText, Number.spanDigits]
  split
  · next rest hrest =>
    have hcs := List.takeWhile_append_dropWhile (p := Char.isDigit) (l := cs)
    rw [hrest] at hcs
    have hfraction : cs.takeWhile Char.isDigit ++ '.' :: rest.takeWhile Char.isDigit <+:
        cs.takeWhile Char.isDigit ++ '.' :: rest := by
      simpa using List.takeWhile_prefix Char.isDigit
    rwa [hcs] at hfraction
  · exact List.takeWhile_prefix Char.isDigit

/-- A number that starts with a digit or a point has a character. -/
theorem numberText_length_pos {c : Char} (rest : List Char) (hc : c.isDigit = true ∨ c = '.') :
    0 < (numberText (c :: rest)).length := by
  simp only [numberText, Number.spanDigits]
  rcases hc with hdigit | rfl
  · rw [List.takeWhile_cons_of_pos hdigit]
    split <;> simp
  · have hpoint : ¬('.'.isDigit = true) := by decide
    rw [List.dropWhile_cons_of_neg hpoint]
    simp

/-- A number is as wide as its characters. -/
theorem width_of_readNumber {c : Char} {rest : List Char} {t : Token} {width : Nat}
    (hc : c.isDigit = true ∨ c = '.') (h : readNumber (c :: rest) = .ok (t, width)) :
    0 < width ∧ width ≤ rest.length + 1 := by
  have hwidth : width = (numberText (c :: rest)).length := by
    rw [readNumber] at h
    split at h
    · split at h
      · cases h
        rfl
      · cases h
    · cases h
  rw [hwidth]
  exact ⟨numberText_length_pos rest hc, (isPrefix_numberText (c :: rest)).length_le⟩

/-- A closing quote stands in the text, and so do the characters before it. -/
theorem width_of_quotedText {quote : Char} {cs text : List Char} {width : Nat}
    (h : quotedText quote cs = some (text, width)) : width ≤ cs.length := by
  fun_induction quotedText quote cs generalizing text width with
  | case1 => cases h
  | case2 => cases h
  | case3 c rest ih =>
    obtain ⟨⟨inner, width⟩, hinner, hwidth⟩ := Option.map_eq_some_iff.mp h
    cases hwidth
    exact Nat.succ_le_succ (Nat.succ_le_succ (ih hinner))
  | case4 =>
    cases h
    exact Nat.succ_le_succ (Nat.zero_le _)
  | case5 c rest _ _ hquote ih =>
    obtain ⟨⟨inner, width⟩, hinner, hwidth⟩ := Option.map_eq_some_iff.mp h
    cases hwidth
    exact Nat.succ_le_succ (ih hinner)

/-- A name is as wide as its characters. -/
theorem width_readName {c : Char} (rest : List Char) (hc : isNameChar c = true) :
    0 < (readName (c :: rest)).2 ∧ (readName (c :: rest)).2 ≤ rest.length + 1 := by
  have hlength : ((c :: rest).takeWhile isNameChar).length ≤ (c :: rest).length :=
    List.IsPrefix.length_le <| List.takeWhile_prefix isNameChar
  have hcons : (c :: rest).takeWhile isNameChar = c :: rest.takeWhile isNameChar :=
    List.takeWhile_cons_of_pos hc
  refine ⟨?_, hlength⟩
  rw [readName, hcons]
  exact Nat.succ_pos _

/-- A token with an optional equals sign takes one character or two. -/
theorem width_withEquals (long short : Token) (rest : List Char) :
    0 < (withEquals long short rest).2 ∧ (withEquals long short rest).2 ≤ rest.length + 1 := by
  unfold withEquals
  split
  · simp
  · simp

/-- A doubled character takes two characters. -/
theorem width_of_doubled {c : Char} {t u : Token} {rest : List Char} {width : Nat}
    (h : doubled c t rest = .ok (u, width)) : 0 < width ∧ width ≤ rest.length + 1 := by
  unfold doubled at h
  split at h
  · split at h
    · cases h
      simp
    · cases h
  · cases h

/-- A token takes at least one character and none behind the end of the text. -/
theorem width_of_read {c : Char} {rest : List Char} {t : Token} {width : Nat}
    (h : read c rest = .ok (t, width)) : 0 < width ∧ width ≤ rest.length + 1 := by
  unfold read at h
  split at h
  · next hdigit => exact width_of_readNumber (.inl hdigit) h
  · split at h
    · next hname =>
      obtain rfl : _ = width := congrArg Prod.snd (Except.ok.inj h)
      exact width_readName rest (isNameChar_of_isNameStart hname)
    · split at h
      case h_1 =>
        split at h
        · exact width_of_readNumber (.inr rfl) h
        · cases h
      case h_2 | h_3 =>
        split at h
        · next hquoted =>
          cases h
          exact ⟨Nat.succ_pos _, Nat.succ_le_succ (width_of_quotedText hquoted)⟩
        · cases h
      case h_14 | h_15 | h_16 =>
        obtain rfl : _ = width := congrArg Prod.snd (Except.ok.inj h)
        exact width_withEquals _ _ rest
      case h_17 | h_18 | h_19 => exact width_of_doubled h
      case h_20 => cases h
      all_goals
        cases h
        exact ⟨Nat.one_pos, Nat.succ_pos _⟩

end Token

namespace TokenStream

/-- The offsets that reading tokens off a text comes to: its start, and the end of a token that
starts behind the blank characters at such an offset. -/
inductive Reaches (cs : List Char) : (offset : Nat) → Prop
  | start : Reaches cs 0
  | token {offset width : Nat} {c : Char} {rest : List Char} {t : Token} :
    Reaches cs offset → Text.skipBlanks (cs.drop offset) = c :: rest →
      Token.read c rest = .ok (t, width) →
      Reaches cs (offset + Text.leadingBlanks (cs.drop offset) + width)

/-- Reading comes to no offset behind the end. -/
theorem Reaches.le_length {cs : List Char} {offset : Nat} (h : Reaches cs offset) :
    offset ≤ cs.length := by
  induction h with
  | start => exact Nat.zero_le _
  | @token offset width c rest t _ hskip hread ih =>
    have hlength := congrArg List.length hskip
    rw [Text.skipBlanks_eq_drop, List.length_drop, List.length_drop, List.length_cons] at hlength
    have hwidth := (Token.width_of_read hread).2
    omega

/-- The stream of a text starts behind its blank characters. -/
theorem position_ofChars {n offset : Nat} {cs : List Char} (h : cs.length ≤ n) :
    (ofChars n offset cs).position = offset + Text.leadingBlanks cs := by
  cases n with
  | zero =>
    obtain rfl : cs = [] := List.eq_nil_of_length_eq_zero (Nat.le_zero.mp h)
    rfl
  | succ n =>
    simp only [ofChars]
    split
    · rfl
    · split <;> rfl

/-- Every place of a text is the start of the stream of the characters from a reached offset on. -/
theorem exists_reaches_of_spans_ofChars {cs : List Char} {n offset : Nat} {ts : List Token}
    {rest : TokenStream} (hoffset : Reaches cs offset) (hn : (cs.drop offset).length ≤ n)
    (h : (ofChars n offset (cs.drop offset)).Spans ts rest) :
    ∃ m offset', Reaches cs offset' ∧ (cs.drop offset').length ≤ m ∧
      rest = ofChars m offset' (cs.drop offset') := by
  induction n generalizing offset ts with
  | zero =>
    cases h
    exact ⟨0, offset, hoffset, hn, rfl⟩
  | succ n ih =>
    cases ts with
    | nil =>
      rw [spans_nil_iff] at h
      exact ⟨n + 1, offset, hoffset, hn, h.symm⟩
    | cons t ts =>
      simp only [ofChars] at h
      split at h
      · cases h
      · next c tail hskip =>
        split at h
        · next t' width hread =>
          have hnext := hoffset.token hskip hread
          have hdrop : (c :: tail).drop width =
              cs.drop (offset + Text.leadingBlanks (cs.drop offset) + width) := by
            rw [← hskip, Text.skipBlanks_eq_drop, List.drop_drop, List.drop_drop, Nat.add_assoc]
          cases h with
          | cons hspan =>
          rw [hdrop] at hspan
          refine ih hnext ?_ hspan
          have hwidth := (Token.width_of_read hread).1
          rw [List.length_drop] at hn ⊢
          omega
        · cases h

/-- The places of a stream do not lie before its start. -/
theorem le_position_of_spans {n offset : Nat} {cs : List Char} {ts : List Token}
    {rest : TokenStream} (h : (ofChars n offset cs).Spans ts rest) : offset ≤ rest.position := by
  induction n generalizing offset cs ts with
  | zero =>
    cases h
    exact Nat.le_refl _
  | succ n ih =>
    simp only [ofChars] at h
    split at h
    · cases h
      exact Nat.le_add_right _ _
    · split at h
      · cases h with
        | nil => exact Nat.le_add_right _ _
        | cons hspan => exact Nat.le_trans (by omega) (ih hspan)
      · cases h
        exact Nat.le_add_right _ _

/-- Behind a token the places lie further on than the token. -/
theorem position_lt_of_spans_cons {n offset : Nat} {cs : List Char} {t : Token} {ts : List Token}
    {rest : TokenStream} (h : (ofChars n offset cs).Spans (t :: ts) rest) :
    (ofChars n offset cs).position < rest.position := by
  cases n with
  | zero => cases h
  | succ n =>
    simp only [ofChars] at h ⊢
    split at h
    · cases h
    · split at h
      · next hread =>
        cases h with
        | cons hspan =>
        have hwidth := (Token.width_of_read hread).1
        exact Nat.lt_of_lt_of_le (Nat.lt_add_of_pos_right hwidth) (le_position_of_spans hspan)
      · cases h

/-- Of two places of a stream one lies behind the other. -/
theorem Spans.comparable {st rest rest' : TokenStream} {ts us : List Token} (h : st.Spans ts rest)
    (h' : st.Spans us rest') :
    (∃ vs, us = ts ++ vs ∧ rest.Spans vs rest') ∨ ∃ vs, ts = us ++ vs ∧ rest'.Spans vs rest := by
  induction h generalizing us with
  | nil => exact .inl ⟨us, rfl, h'⟩
  | @cons t start stop next rest ts hspan ih =>
    cases us with
    | nil =>
      rw [spans_nil_iff] at h'
      exact .inr ⟨t :: ts, rfl, h' ▸ .cons hspan⟩
    | cons u us =>
      cases h' with
      | cons hspan' =>
      rcases ih hspan' with ⟨vs, rfl, hrest⟩ | ⟨vs, rfl, hrest⟩
      · exact .inl ⟨vs, rfl, hrest⟩
      · exact .inr ⟨vs, rfl, hrest⟩

/-- Every place of a text is the start of the stream of the characters from a reached offset on. -/
theorem exists_reaches_of_spans {s : String} {ts : List Token} {rest : TokenStream}
    (h : (ofText s).Spans ts rest) :
    ∃ n offset, Reaches s.toList offset ∧ (s.toList.drop offset).length ≤ n ∧
      rest = ofChars n offset (s.toList.drop offset) :=
  exists_reaches_of_spans_ofChars .start (Nat.le_refl _) h

/-- No two places of a text have the same position. -/
theorem eq_nil_of_position_eq {s : String} {ts vs : List Token} {rest rest' : TokenStream}
    (h : (ofText s).Spans ts rest) (h' : rest.Spans vs rest')
    (hposition : rest.position = rest'.position) : vs = [] := by
  cases vs with
  | nil => rfl
  | cons v vs =>
    obtain ⟨n, offset, -, -, rfl⟩ := exists_reaches_of_spans h
    exact absurd hposition (Nat.ne_of_lt (position_lt_of_spans_cons h'))

/-- The position of a place tells which tokens stand before it. -/
theorem eq_of_position_eq {s : String} {ts us : List Token} {rest rest' : TokenStream}
    (h : (ofText s).Spans ts rest) (h' : (ofText s).Spans us rest')
    (hposition : rest.position = rest'.position) : ts = us ∧ rest = rest' := by
  rcases h.comparable h' with ⟨vs, rfl, hrest⟩ | ⟨vs, rfl, hrest⟩
  · obtain rfl := eq_nil_of_position_eq h hrest hposition
    exact ⟨(List.append_nil ts).symm, spans_nil_iff.mp hrest⟩
  · obtain rfl := eq_nil_of_position_eq h' hrest hposition.symm
    exact ⟨List.append_nil us, (spans_nil_iff.mp hrest).symm⟩

/-- Behind the blank characters at a reached offset the text ends, or a character follows that is
not blank. -/
theorem Reaches.end_or_getElem? {cs : List Char} {offset : Nat} (h : Reaches cs offset) :
    offset + Text.leadingBlanks (cs.drop offset) = cs.length ∨
      ∃ c, cs[offset + Text.leadingBlanks (cs.drop offset)]? = some c ∧ Text.isBlank c = false := by
  have hrest := Text.skipBlanks_eq_drop (cs.drop offset)
  rw [List.drop_drop] at hrest
  cases hskip : Text.skipBlanks (cs.drop offset) with
  | nil =>
    left
    rw [hskip] at hrest
    have hend : cs.length ≤ offset + Text.leadingBlanks (cs.drop offset) :=
      List.drop_eq_nil_iff.mp hrest.symm
    have hblanks : ((cs.drop offset).takeWhile Text.isBlank).length ≤ (cs.drop offset).length :=
      List.IsPrefix.length_le <| List.takeWhile_prefix Text.isBlank
    have hoffset := h.le_length
    rw [List.length_drop] at hblanks
    rw [Text.leadingBlanks] at hend ⊢
    omega
  | cons c rest =>
    right
    rw [hskip] at hrest
    refine ⟨c, ?_, Text.isBlank_of_skipBlanks hskip⟩
    rw [← List.head?_drop, ← hrest]
    rfl

end TokenStream

end FormulaRules
