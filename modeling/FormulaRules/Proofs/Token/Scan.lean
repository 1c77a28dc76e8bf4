import FormulaRules.Proofs.Token.Longest

/-!
# The stream of a text, word by word

A relation between the characters of a text from an offset on and their stream: blank characters
are skipped, then the text ends, a word gives a token, or a character is met with which none starts.
It has no bound, so a statement about streams is one case for each way to go on.

Moving a text to another offset moves the positions of its stream and nothing else.
-/

namespace FormulaRules

/-- The characters that a token takes stand at the head of the text. -/
theorem Token.exists_word_of_read {c : Char} {rest : List Char} {t : Token} {width : Nat}
    (h : read c rest = .ok (t, width)) :
    ∃ word tail, rest = word ++ tail ∧ width = word.length + 1 := by
  obtain ⟨hpos, hle⟩ := width_of_read h
  refine ⟨rest.take (width - 1), rest.drop (width - 1), by simp, ?_⟩
  rw [List.length_take]
  omega

namespace TokenStream

/-- The stream of the characters from an offset on. -/
inductive Scans : (offset : Nat) → List Char → TokenStream → Prop
  | finish {blanks : List Char} {offset stop : Nat} :
    (∀ b ∈ blanks, Text.isBlank b = true) → stop = offset + blanks.length →
      Scans offset blanks (.finish stop)
  | token {blanks word rest : List Char} {c : Char} {t : Token} {next : TokenStream}
    {offset start stop : Nat} :
    (∀ b ∈ blanks, Text.isBlank b = true) → Text.isBlank c = false →
      Token.read c (word ++ rest) = .ok (t, word.length + 1) → start = offset + blanks.length →
      stop = start + (word.length + 1) → Scans stop rest next →
      Scans offset (blanks ++ c :: (word ++ rest)) (.token t start stop next)
  | fault {blanks rest : List Char} {c : Char} {cause : SyntaxCause} {offset start : Nat} :
    (∀ b ∈ blanks, Text.isBlank b = true) → Text.isBlank c = false →
      Token.read c rest = .error cause → start = offset + blanks.length →
      Scans offset (blanks ++ c :: rest) (.fault cause start)

/-- Blank characters move the start of a stream. -/
theorem ofChars_blanks {blanks : List Char} (h : ∀ b ∈ blanks, Text.isBlank b = true)
    (n offset : Nat) (cs : List Char) :
    ofChars (n + 1) offset (blanks ++ cs) = ofChars (n + 1) (offset + blanks.length) cs := by
  induction blanks generalizing offset with
  | nil => rfl
  | cons b blanks ih =>
    obtain ⟨hb, hblanks⟩ := List.forall_mem_cons.mp h
    rw [List.cons_append, ofChars_blank hb, ih hblanks, List.length_cons, Nat.add_assoc,
      Nat.add_comm 1]

/-- A character with which no token starts ends the stream. -/
theorem ofChars_fault {c : Char} {rest : List Char} {cause : SyntaxCause}
    (hc : Text.isBlank c = false) (hread : Token.read c rest = .error cause) (n offset : Nat) :
    ofChars (n + 1) offset (c :: rest) = .fault cause offset := by
  have hblank : ¬Text.isBlank c = true := by simp [hc]
  have hskip : Text.skipBlanks (c :: rest) = c :: rest := List.dropWhile_cons_of_neg hblank
  simp only [ofChars, hskip, hread, List.takeWhile_cons_of_neg hblank]
  rfl

/-- The relation determines the stream. -/
theorem Scans.eq_ofChars {offset n : Nat} {cs : List Char} {st : TokenStream}
    (h : Scans offset cs st) (hn : cs.length ≤ n) : ofChars n offset cs = st := by
  induction h generalizing n with
  | @finish blanks offset stop hblanks hstop =>
    cases n with
    | zero =>
      obtain rfl : blanks = [] := List.eq_nil_of_length_eq_zero (Nat.le_zero.mp hn)
      rw [hstop]
      rfl
    | succ n =>
      have hend := ofChars_blanks hblanks n offset []
      rwa [List.append_nil, ofChars_nil, ← hstop] at hend
  | token hblanks hc hread hstart hstop _ ih =>
    simp only [List.length_append, List.length_cons] at hn
    obtain ⟨n, rfl⟩ : ∃ m, n = m + 1 := ⟨n - 1, by omega⟩
    rw [ofChars_blanks hblanks, ofChars_word hc hread, ← hstart, ← hstop, ih (by omega)]
  | fault hblanks hc hread hstart =>
    simp only [List.length_append, List.length_cons] at hn
    obtain ⟨n, rfl⟩ : ∃ m, n = m + 1 := ⟨n - 1, by omega⟩
    rw [ofChars_blanks hblanks, ofChars_fault hc hread, ← hstart]

/-- Every stream of characters comes about in this way. -/
theorem scans_ofChars {n offset : Nat} {cs : List Char} (h : cs.length ≤ n) :
    Scans offset cs (ofChars n offset cs) := by
  induction n generalizing offset cs with
  | zero =>
    obtain rfl : cs = [] := List.eq_nil_of_length_eq_zero (Nat.le_zero.mp h)
    exact .finish (List.forall_mem_nil _) rfl
  | succ n ih =>
    have hblanks : ∀ b ∈ cs.takeWhile Text.isBlank, Text.isBlank b = true :=
      fun b hb => List.mem_takeWhile_imp hb
    have hcs : cs.takeWhile Text.isBlank ++ Text.skipBlanks cs = cs :=
      List.takeWhile_append_dropWhile
    generalize cs.takeWhile Text.isBlank = blanks at hblanks hcs
    cases hskip : Text.skipBlanks cs with
    | nil =>
      rw [hskip] at hcs
      rw [← hcs, ofChars_blanks hblanks, ofChars_nil, List.append_nil]
      exact .finish hblanks rfl
    | cons c rest =>
      have hc := Text.isBlank_of_skipBlanks hskip
      rw [hskip] at hcs
      rw [← hcs, ofChars_blanks hblanks]
      cases hread : Token.read c rest with
      | error cause =>
        rw [ofChars_fault hc hread]
        exact .fault hblanks hc hread rfl
      | ok found =>
        obtain ⟨t, width⟩ := found
        obtain ⟨word, tail, rfl, rfl⟩ := Token.exists_word_of_read hread
        rw [ofChars_word hc hread]
        have hlength := congrArg List.length hcs
        simp only [List.length_append, List.length_cons] at hlength
        exact .token hblanks hc hread rfl rfl (ih (by omega))

/-- The stream of a text is that of its characters from the start. -/
theorem scans_ofText (s : String) : Scans 0 s.toList (ofText s) := scans_ofChars (Nat.le_refl _)

/-- The characters of a text from the start have no other stream. -/
theorem Scans.eq_ofText {s : String} {st : TokenStream} (h : Scans 0 s.toList st) : ofText s = st :=
  h.eq_ofChars (Nat.le_refl _)

/-- Blank characters before a text move its offset. -/
theorem Scans.blanks {blanks cs : List Char} {offset : Nat} {st : TokenStream}
    (hblanks : ∀ b ∈ blanks, Text.isBlank b = true) (h : Scans (offset + blanks.length) cs st) :
    Scans offset (blanks ++ cs) st := by
  have happend {more : List Char} (hmore : ∀ b ∈ more, Text.isBlank b = true) :
      ∀ b ∈ blanks ++ more, Text.isBlank b = true := List.forall_mem_append.mpr ⟨hblanks, hmore⟩
  cases h with
  | finish hmore hstop => exact .finish (happend hmore) (by simp [hstop, Nat.add_assoc])
  | token hmore hc hread hstart hstop hnext =>
    rw [← List.append_assoc]
    exact .token (happend hmore) hc hread (by simp [hstart, Nat.add_assoc]) hstop hnext
  | fault hmore hc hread hstart =>
    rw [← List.append_assoc]
    exact .fault (happend hmore) hc hread (by simp [hstart, Nat.add_assoc])

/-- A stream with all positions moved on. -/
def shift (count : Nat) : TokenStream → TokenStream
  | token t start stop next => token t (start + count) (stop + count) (next.shift count)
  | finish position => finish (position + count)
  | fault cause position => fault cause (position + count)

/-- A text at a later offset has the same stream with all positions moved on. -/
theorem Scans.shift {offset : Nat} {cs : List Char} {st : TokenStream} (h : Scans offset cs st)
    (count : Nat) : Scans (offset + count) cs (st.shift count) := by
  induction h with
  | finish hblanks hstop => exact .finish hblanks (by omega)
  | token hblanks hc hread hstart hstop _ ih =>
    exact .token hblanks hc hread (by omega) (by omega) ih
  | fault hblanks hc hread hstart => exact .fault hblanks hc hread (by omega)

end TokenStream

end FormulaRules
