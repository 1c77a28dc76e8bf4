import FormulaRules.Proofs.Token.Numerals
import FormulaRules.Proofs.Token.Scan

/-!
# Tokens tile their text

A text that is read to its end is made of its tokens, one behind the other, with nothing but blank
characters between them. Each token is what its own characters are read as when they stand alone,
and the next character does not continue it. Main statement: this holds of every text without a
lexical fault, and a fault has one of four causes. Digits that show no number are not among them.
-/

namespace FormulaRules

/-- A token with the offsets before and behind its characters. -/
structure Located where
  token : Token
  start : Nat
  stop : Nat

/-- The characters of a located token. -/
def Located.text (p : Located) (s : String) : String :=
  String.ofList ((s.toList.drop p.start).take (p.stop - p.start))

namespace Token

/-- A character that has to be doubled is refused for itself. -/
theorem eq_of_doubled_eq_error {c : Char} {t : Token} {cs : List Char} {cause : SyntaxCause}
    (h : doubled c t cs = .error cause) : cause = .singleCharacter c := by
  unfold doubled at h
  split at h
  · split at h
    · cases h
    · exact (Except.error.inj h).symm
  · exact (Except.error.inj h).symm

/-- Why no token starts with a character: it starts none or not alone, its digits show too large a
number, or its closing quote is missing. -/
def CannotStart (c : Char) (rest : List Char) (cause : SyntaxCause) : Prop :=
  cause = .strayCharacter c ∨ cause = .singleCharacter c ∨
    cause = .numberOutOfRange (String.ofList (numberText (c :: rest))) ∨
    cause = .unterminatedString

/-- A character with which no token starts is refused for one of these causes. -/
theorem cannotStart_of_read {c : Char} {rest : List Char} {cause : SyntaxCause}
    (h : read c rest = .error cause) : CannotStart c rest cause := by
  unfold read at h
  split at h
  · next hdigit => exact .inr (.inr (.inl (readNumber_eq_error (.inl hdigit) h)))
  · split at h
    · cases h
    · split at h
      case h_1 =>
        split at h
        · next hnext => exact .inr (.inr (.inl (readNumber_eq_error (.inr ⟨rfl, hnext⟩) h)))
        · exact .inl (Except.error.inj h).symm
      case h_2 | h_3 =>
        split at h
        · cases h
        · exact .inr (.inr (.inr (Except.error.inj h).symm))
      case h_17 | h_18 | h_19 => exact .inr (.inl (eq_of_doubled_eq_error h))
      case h_20 => exact .inl (Except.error.inj h).symm
      all_goals cases h

end Token

namespace TokenStream

/-- The tokens of a stream with their offsets. -/
def located : TokenStream → List Located
  | token t start stop next => ⟨t, start, stop⟩ :: next.located
  | finish _ => []
  | fault _ _ => []

/-- A located token is read off the characters at its offsets. -/
theorem Scans.exists_word {offset : Nat} {cs : List Char} {st : TokenStream} {p : Located}
    (h : Scans offset cs st) (hp : p ∈ st.located) :
    ∃ before c word rest, cs = before ++ c :: (word ++ rest) ∧ p.start = offset + before.length ∧
      p.stop = p.start + (word.length + 1) ∧ Text.isBlank c = false ∧
      Token.read c (word ++ rest) = .ok (p.token, word.length + 1) := by
  induction h with
  | finish => cases hp
  | @token blanks word rest c t next offset start stop _ hc hread hstart hstop _ ih =>
    rcases List.mem_cons.mp hp with rfl | hp
    · exact ⟨blanks, c, word, rest, rfl, hstart, hstop, hc, hread⟩
    · obtain ⟨before, c', word', rest', rfl, hplace⟩ := ih hp
      refine ⟨blanks ++ c :: (word ++ before), c', word', rest', by simp, ?_, hplace.2⟩
      simp only [List.length_append, List.length_cons]
      omega
  | fault => cases hp

/-- Located tokens follow each other. -/
theorem Scans.pairwise_located {offset : Nat} {cs : List Char} {st : TokenStream}
    (h : Scans offset cs st) : st.located.Pairwise fun p q => p.stop ≤ q.start := by
  induction h with
  | finish => exact .nil
  | token _ _ _ _ _ hnext ih =>
    refine List.pairwise_cons.mpr ⟨fun q hq => ?_, ih⟩
    obtain ⟨before, c, word, rest, -, hstart, -⟩ := hnext.exists_word hq
    simp only
    omega
  | fault => exact .nil

/-- Up to the end of a text every character belongs to a token or is blank. -/
theorem Scans.blank_or_located {offset i : Nat} {cs : List Char} {st : TokenStream} {c : Char}
    (h : Scans offset cs st) (hclean : st.EndsClean) (hi : cs[i]? = some c) :
    Text.isBlank c = true ∨ ∃ p ∈ st.located, p.start ≤ offset + i ∧ offset + i < p.stop := by
  induction h generalizing i with
  | finish hblanks => exact .inl (hblanks c (List.mem_of_getElem? hi))
  | @token blanks word rest d t next offset start stop hblanks hd hread hstart hstop hnext ih =>
    -- The character stands before the token, in it, or behind it.
    by_cases hbefore : i < blanks.length
    · rw [List.getElem?_append_left hbefore] at hi
      exact .inl (hblanks c (List.mem_of_getElem? hi))
    by_cases hword : i < blanks.length + (word.length + 1)
    · exact .inr ⟨_, List.mem_cons_self, by simp only; omega, by simp only; omega⟩
    have hsplit : blanks ++ d :: (word ++ rest) = (blanks ++ d :: word) ++ rest := by simp
    rw [hsplit, List.getElem?_append_right (by simp; omega)] at hi
    rcases ih hclean hi with hblank | ⟨p, hp, hplace⟩
    · exact .inl hblank
    · have hoffset : stop + (i - (blanks ++ d :: word).length) = offset + i := by
        simp only [List.length_append, List.length_cons]
        omega
      rw [hoffset] at hplace
      exact .inr ⟨p, List.mem_cons_of_mem _ hp, hplace⟩
  | fault => exact absurd hclean not_false

/-- A stream without a fault ends where its text does. -/
theorem Scans.spans_finish {offset : Nat} {cs : List Char} {st : TokenStream}
    (h : Scans offset cs st) (hclean : st.EndsClean) :
    st.Spans st.tokens (.finish (offset + cs.length)) := by
  induction h with
  | finish _ hstop =>
    rw [hstop]
    exact .nil _
  | @token blanks word rest c t next offset start stop _ _ _ hstart hstop _ ih =>
    have hend : offset + (blanks ++ c :: (word ++ rest)).length = stop + rest.length := by
      simp only [List.length_append, List.length_cons]
      omega
    rw [hend]
    exact .cons (ih hclean)
  | fault => exact absurd hclean not_false

/-- A stream with a fault ends at a character with which no token starts. -/
theorem Scans.spans_fault {offset : Nat} {cs : List Char} {st : TokenStream}
    (h : Scans offset cs st) (hclean : ¬st.EndsClean) :
    ∃ before c rest cause, cs = before ++ c :: rest ∧ Token.CannotStart c rest cause ∧
      st.Spans st.tokens (.fault cause (offset + before.length)) := by
  induction h with
  | finish => exact absurd trivial hclean
  | @token blanks word rest c t next offset start stop _ _ _ hstart hstop _ ih =>
    obtain ⟨before, c', rest', cause, rfl, hcause, hspan⟩ := ih hclean
    refine ⟨blanks ++ c :: (word ++ before), c', rest', cause, by simp, hcause, ?_⟩
    have hplace : offset + (blanks ++ c :: (word ++ before)).length = stop + before.length := by
      simp only [List.length_append, List.length_cons]
      omega
    rw [hplace]
    exact .cons hspan
  | @fault blanks rest c cause offset start _ _ hread hstart =>
    rw [hstart]
    exact ⟨blanks, c, rest, cause, rfl, Token.cannotStart_of_read hread, .nil _⟩

/-- A word that is read as a token is a text of this token alone. -/
theorem ofText_of_read {c : Char} {word : List Char} {t : Token} (hc : Text.isBlank c = false)
    (hread : Token.read c word = .ok (t, word.length + 1)) :
    ofText (String.ofList (c :: word)) =
      .token t 0 (word.length + 1) (.finish (word.length + 1)) := by
  apply Scans.eq_ofText
  have hend : Scans (word.length + 1) [] (.finish (word.length + 1)) :=
    .finish (List.forall_mem_nil _) rfl
  have hself : Token.read c (word ++ []) = .ok (t, word.length + 1) := by rwa [List.append_nil]
  have hscan : Scans 0 ([] ++ c :: (word ++ [])) _ :=
    .token (List.forall_mem_nil _) hc hself rfl (Nat.zero_add _).symm hend
  simpa using hscan

/-- A located token of a text stands in it with a word that is read as the token alone and is not
continued. -/
theorem exists_word_of_mem_located {s : String} {p : Located} (hp : p ∈ (ofText s).located) :
    ∃ c word rest, s.toList.drop p.start = c :: (word ++ rest) ∧
      p.stop = p.start + (word.length + 1) ∧ p.text s = String.ofList (c :: word) ∧
      Text.isBlank c = false ∧ Token.read c word = .ok (p.token, word.length + 1) ∧
      ∀ d ∈ rest.head?, ¬p.token.Continues (c :: word) d := by
  obtain ⟨before, c, word, rest, htext, hstart, hstop, hc, hread⟩ := (scans_ofText s).exists_word hp
  obtain ⟨hself, hend⟩ := Token.read_append_iff.mp hread
  have hdrop : s.toList.drop p.start = c :: (word ++ rest) := by
    rw [htext, hstart, Nat.zero_add, List.drop_left]
  have hslice : p.text s = String.ofList (c :: word) := by
    rw [Located.text, hdrop, hstop, Nat.add_sub_cancel_left]
    simp
  exact ⟨c, word, rest, hdrop, hstop, hslice, hc, hself, hend⟩

end TokenStream

/-- The tokens of a text tile it. -/
structure TokenStream.Tiles (s : String) : Prop where
  /-- A token has characters of the text. -/
  nonempty : ∀ p ∈ (ofText s).located, p.start < p.stop ∧ p.stop ≤ s.length
  /-- A token starts behind those before it. -/
  ordered : (ofText s).located.Pairwise fun p q => p.stop ≤ q.start
  /-- A character of no token is blank. -/
  blank : ∀ i c, s.toList[i]? = some c →
    (∀ p ∈ (ofText s).located, ¬(p.start ≤ i ∧ i < p.stop)) → Text.isBlank c = true
  /-- The characters of a token are read as this token when they stand alone. -/
  alone : ∀ p ∈ (ofText s).located, ofText (p.text s) =
    .token p.token 0 (p.stop - p.start) (.finish (p.stop - p.start))
  /-- The character behind a token does not continue it. -/
  longest : ∀ p ∈ (ofText s).located, ∀ d, s.toList[p.stop]? = some d →
    ¬p.token.Continues (p.text s).toList d
  /-- Behind the tokens the text ends. -/
  finish : (ofText s).Spans (ofText s).tokens (.finish s.length)
  /-- The end stays the end, however often it is read again. -/
  again : ∀ n, ofChars n s.length (s.toList.drop s.length) = .finish s.length

namespace TokenStream

/-- A text without a fault is tiled by its tokens. -/
theorem tiles_of_endsClean {s : String} (hclean : (ofText s).EndsClean) : Tiles s where
  nonempty p hp := by
    obtain ⟨c, word, rest, hdrop, hstop, -⟩ := exists_word_of_mem_located hp
    have hlength := congrArg List.length hdrop
    simp only [List.length_drop, List.length_cons, List.length_append, String.length_toList]
      at hlength
    omega
  ordered := (scans_ofText s).pairwise_located
  blank i c hi hnone := by
    rcases (scans_ofText s).blank_or_located hclean hi with hblank | ⟨p, hp, hplace⟩
    · exact hblank
    · rw [Nat.zero_add] at hplace
      exact absurd hplace (hnone p hp)
  alone p hp := by
    obtain ⟨c, word, rest, -, hstop, htext, hc, hread, -⟩ := exists_word_of_mem_located hp
    rw [htext, hstop, Nat.add_sub_cancel_left]
    exact ofText_of_read hc hread
  longest p hp d hd := by
    obtain ⟨c, word, rest, hdrop, hstop, htext, -, -, hend⟩ := exists_word_of_mem_located hp
    rw [htext, String.toList_ofList]
    apply hend d
    rwa [hstop, ← List.getElem?_drop, hdrop, List.getElem?_cons_succ,
      List.getElem?_append_right (Nat.le_refl _), Nat.sub_self, ← List.head?_eq_getElem?] at hd
  finish := by
    have hfinish := (scans_ofText s).spans_finish hclean
    rwa [Nat.zero_add, String.length_toList] at hfinish
  again n := by rw [← String.length_toList, List.drop_length, ofChars_nil]

/-- Either a text is read to its end and its tokens tile it, or its tokens stop at a character with
which no token starts. -/
theorem tiles_or_fault (s : String) :
    (ofText s).EndsClean ∧ Tiles s ∨
    ¬(ofText s).EndsClean ∧ ∃ position c rest cause, s.toList.drop position = c :: rest ∧
      (ofText s).Spans (ofText s).tokens (.fault cause position) ∧
      Token.CannotStart c rest cause := by
  by_cases hclean : (ofText s).EndsClean
  · exact .inl ⟨hclean, tiles_of_endsClean hclean⟩
  · obtain ⟨before, c, rest, cause, htext, hcause, hspan⟩ := (scans_ofText s).spans_fault hclean
    rw [Nat.zero_add] at hspan
    exact .inr ⟨hclean, before.length, c, rest, cause, by simp [htext], hspan, hcause⟩

/-- An operator of two characters is one token, and blank characters belong to none. -/
example :
    (ofText "a  <=\tb").located.map (fun p => (p.start, p.stop)) = [(0, 1), (3, 5), (6, 7)] := by
  cbv

end TokenStream

end FormulaRules
