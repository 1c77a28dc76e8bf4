import FormulaRules.Proofs.Token.Places

/-!
# Tokens take as many characters as they can

A character continues a token if it would be taken with the characters of the token. Main
statement: characters at the head of a text are read as a token exactly if they are read as this
token by themselves and the next character does not continue it. So what follows a token matters
for nothing but its end, and only by its first character.
-/

namespace FormulaRules.Token

/-- Whether a character behind the characters of a token is taken with them. -/
def Continues (t : Token) (word : List Char) (d : Char) : Prop :=
  match t with
  | number _ => d.isDigit = true ∨ d = '.' ∧ '.' ∉ word
  | boolean _ | identifier _ => isNameChar d = true
  | operator .less | operator .greater | not => d = '='
  | _ => False

/-- A blank character continues no token. -/
theorem not_continues_of_isBlank {t : Token} {word : List Char} {d : Char}
    (h : Text.isBlank d = true) : ¬t.Continues word d := by
  have hname : isNameChar d = false := by
    rw [← Bool.not_eq_true]
    intro hname
    simp [isBlank_of_isNameChar hname] at h
  have hdigit : d.isDigit = false := by
    rw [← Bool.not_eq_true]
    intro hdigit
    simp [isNameChar_of_isDigit hdigit] at hname
  have hpoint : d ≠ '.' := by rintro rfl; cases h
  have hequals : d ≠ '=' := by rintro rfl; cases h
  unfold Continues
  split <;> simp [hname, hdigit, hpoint, hequals]

/-- All characters of a word are taken if each of them may be and the next one may not. -/
theorem takeWhile_append_eq_iff {good : Char → Bool} {word rest : List Char} :
    (word ++ rest).takeWhile good = word ↔
      word.takeWhile good = word ∧ ∀ d ∈ rest.head?, good d = false := by
  induction word with
  | nil => cases rest with
    | nil => simp
    | cons d rest => by_cases hd : good d = true <;> simp [hd]
  | cons c word ih => by_cases hc : good c = true <;> simp [hc, ih]

/-- Text that is taken from the head of a text and is as long as a word there is the word. -/
theorem eq_word_of_isPrefix {word rest text : List Char} (h : text <+: word ++ rest)
    (hlength : text.length = word.length) : text = word := by
  rw [List.prefix_iff_eq_take] at h
  simpa [hlength] using h

section Number

/-- A digit belongs to the number that it starts. -/
theorem numberText_cons_of_isDigit {c : Char} (hc : c.isDigit = true) (cs : List Char) :
    numberText (c :: cs) = c :: numberText cs := by
  simp only [numberText, Number.spanDigits, List.takeWhile_cons_of_pos hc,
    List.dropWhile_cons_of_pos hc]
  split <;> simp

/-- A point belongs to the number that it starts, and so do the digits behind it. -/
theorem numberText_point (cs : List Char) :
    numberText ('.' :: cs) = '.' :: cs.takeWhile Char.isDigit := by
  simp [numberText, Number.spanDigits]

/-- No other character starts a number. -/
theorem numberText_cons_of_other {c : Char} (hc : ¬c.isDigit = true) (hpoint : c ≠ '.')
    (cs : List Char) : numberText (c :: cs) = [] := by
  simp only [numberText, Number.spanDigits, List.takeWhile_cons_of_neg hc,
    List.dropWhile_cons_of_neg hc]
  split
  · next h => exact absurd (List.cons.inj h).1 hpoint
  · rfl

/-- A number ends where no digit follows and no first point. -/
theorem numberText_append_eq_iff {word rest : List Char} :
    numberText (word ++ rest) = word ↔
      numberText word = word ∧ ∀ d ∈ rest.head?, ¬(d.isDigit = true ∨ d = '.' ∧ '.' ∉ word) := by
  induction word with
  | nil =>
    cases rest with
    | nil => simp [numberText, Number.spanDigits]
    | cons d rest =>
      by_cases hd : d.isDigit = true
      · simp [numberText_cons_of_isDigit hd, hd]
      · by_cases hpoint : d = '.'
        · simp [hpoint, numberText_point]
        · simp [hd, hpoint, numberText, Number.spanDigits]
  | cons c word ih =>
    by_cases hc : c.isDigit = true
    · have hpoint : '.' ≠ c := by rintro rfl; cases hc
      simp [numberText_cons_of_isDigit hc, ih, hpoint]
    · by_cases hpoint : c = '.'
      · simp [hpoint, numberText_point, takeWhile_append_eq_iff]
      · simp [numberText_cons_of_other hc hpoint]

/-- A number is read if its characters show a finite double. -/
theorem readNumber_eq_ok_iff {cs : List Char} {t : Token} {width : Nat} :
    readNumber cs = .ok (t, width) ↔ (numberText cs).length = width ∧
      ∃ x, Number.readChars? (numberText cs) = some x ∧ x.isFinite = true ∧ number x = t := by
  rw [readNumber]
  cases Number.readChars? (numberText cs) with
  | none => simp
  | some x => by_cases hx : x.isFinite = true <;> simp [hx, and_comm]

/-- A number is read by itself and ends where nothing continues it. -/
theorem readNumber_append_iff (word : List Char) {rest : List Char} {t : Token} :
    readNumber (word ++ rest) = .ok (t, word.length) ↔
      readNumber word = .ok (t, word.length) ∧ ∀ d ∈ rest.head?, ¬t.Continues word d := by
  have htext (rest : List Char) :
      (numberText (word ++ rest)).length = word.length ↔ numberText (word ++ rest) = word :=
    ⟨eq_word_of_isPrefix (isPrefix_numberText _), congrArg List.length⟩
  have hword := htext []
  rw [List.append_nil] at hword
  rw [readNumber_eq_ok_iff, readNumber_eq_ok_iff, htext, hword, numberText_append_eq_iff]
  constructor
  · rintro ⟨⟨hself, hend⟩, x, hread, hx, rfl⟩
    rw [numberText_append_eq_iff.mpr ⟨hself, hend⟩] at hread
    exact ⟨⟨hself, x, hself.symm ▸ hread, hx, rfl⟩, hend⟩
  · rintro ⟨⟨hself, x, hread, hx, rfl⟩, hend⟩
    rw [hself] at hread
    exact ⟨⟨hself, hend⟩, x, (numberText_append_eq_iff.mpr ⟨hself, hend⟩).symm ▸ hread, hx, rfl⟩

/-- A point alone is no number. -/
theorem readNumber_point (t : Token) : readNumber ['.'] ≠ .ok (t, 1) := by
  intro h
  obtain ⟨-, x, hread, -⟩ := readNumber_eq_ok_iff.mp h
  have hnone : Number.readChars? (numberText ['.']) = none := by decide +kernel
  rw [hnone] at hread
  cases hread

end Number

/-- A name or keyword is continued by the characters of names. -/
theorem continues_readName (cs word : List Char) (d : Char) :
    (readName cs).1.Continues word d ↔ isNameChar d = true := by
  simp only [readName]
  split
  · exact Iff.rfl
  · split <;> exact Iff.rfl

/-- A name is read by itself and ends where nothing continues it. -/
theorem readName_append_iff (word : List Char) {rest : List Char} {t : Token} :
    readName (word ++ rest) = (t, word.length) ↔
      readName word = (t, word.length) ∧ ∀ d ∈ rest.head?, ¬t.Continues word d := by
  have htext (rest : List Char) : readName (word ++ rest) = (t, word.length) →
      (word ++ rest).takeWhile isNameChar = word := by
    intro h
    exact eq_word_of_isPrefix (List.takeWhile_prefix isNameChar) (congrArg Prod.snd h)
  have hcontinues {cs : List Char} (h : readName cs = (t, word.length)) (d : Char) :
      t.Continues word d ↔ isNameChar d = true := by
    rw [← continues_readName cs word d, h]
  constructor
  · intro h
    have hword := htext rest h
    obtain ⟨hself, hend⟩ := takeWhile_append_eq_iff.mp hword
    refine ⟨?_, fun d hd => ?_⟩
    · simpa only [readName, hword, hself] using h
    · simp [hcontinues h, hend d hd]
  · rintro ⟨h, hend⟩
    have hself := htext [] (by simpa using h)
    rw [List.append_nil] at hself
    have hword := takeWhile_append_eq_iff.mpr
      ⟨hself, fun d hd => by simpa [hcontinues h] using hend d hd⟩
    simpa only [readName, hword, hself] using h

/-- Characters before a quoted text add to its width. -/
theorem map_quoted_eq_some_iff {quoted : Option (List Char × Nat)} {f : List Char × Nat → List Char}
    {text : List Char} {width more : Nat} :
    quoted.map (fun found => (f found, found.2 + more)) = some (text, width + more) ↔
      ∃ inner, quoted = some (inner, width) ∧ f (inner, width) = text := by
  cases quoted with
  | none => simp
  | some found =>
    obtain ⟨inner, found⟩ := found
    constructor
    · intro h
      simp only [Option.map_some, Option.some.injEq, Prod.mk.injEq, Nat.add_right_cancel_iff] at h
      obtain ⟨rfl, rfl⟩ := h
      exact ⟨inner, rfl, rfl⟩
    · rintro ⟨inner, ⟨⟩, rfl⟩
      rfl

/-- A character other than a backslash ends a quoted text or belongs to it. -/
theorem quotedText_cons_of_ne {quote c : Char} (hc : c ≠ '\\') (cs : List Char) :
    quotedText quote (c :: cs) =
      if c = quote then some ([], 1)
      else (quotedText quote cs).map fun found => (c :: found.1, found.2 + 1) := by
  rw [quotedText]
  · exact fun h => absurd h hc
  · exact fun _ _ h => absurd h hc

/-- A quoted text takes at least its closing quote. -/
theorem quotedText_ne_of_width_zero (quote : Char) (cs text : List Char) :
    quotedText quote cs ≠ some (text, 0) := by
  fun_cases quotedText quote cs <;> simp

/-- A quoted text is read by itself, whatever follows its closing quote. -/
theorem quotedText_append_iff {quote : Char} {word rest text : List Char} :
    quotedText quote (word ++ rest) = some (text, word.length) ↔
      quotedText quote word = some (text, word.length) := by
  -- A backslash is read together with the character behind it, so two characters are taken at once.
  induction word using List.twoStepInduction generalizing text with
  | nil => simp [quotedText, quotedText_ne_of_width_zero]
  | singleton c =>
    by_cases hc : c = '\\'
    · subst hc
      cases rest with
      | nil => rfl
      | cons d rest => simp [quotedText]
    · rw [List.singleton_append, quotedText_cons_of_ne hc, quotedText_cons_of_ne hc]
      split
      · rfl
      · rw [List.length_singleton, ← Nat.zero_add 1, map_quoted_eq_some_iff, map_quoted_eq_some_iff]
        simp [quotedText, quotedText_ne_of_width_zero]
  | cons_cons c d cs ihtwo ihone =>
    by_cases hc : c = '\\'
    · subst hc
      simp only [List.cons_append, quotedText, List.length_cons]
      rw [map_quoted_eq_some_iff, map_quoted_eq_some_iff]
      simp only [ihtwo]
    · rw [List.cons_append, quotedText_cons_of_ne hc, quotedText_cons_of_ne hc]
      split
      · simp
      · rw [List.length_cons, map_quoted_eq_some_iff, map_quoted_eq_some_iff]
        simp only [ihone]

/-- A string is read by itself, whatever follows its closing quote. -/
theorem quoted_append_iff {quote : Char} {word rest cs : List Char} {t : Token} :
    (match quotedText quote (word ++ rest) with
      | some (text, width) => Except.ok (string (String.ofList text), width + 1)
      | none => .error SyntaxCause.unterminatedString) = .ok (t, word.length + 1) ↔
    (match quotedText quote word with
      | some (text, width) => Except.ok (string (String.ofList text), width + 1)
      | none => .error SyntaxCause.unterminatedString) = .ok (t, word.length + 1) ∧
        ∀ d ∈ rest.head?, ¬t.Continues cs d := by
  constructor
  · intro h
    split at h
    · next text width hquoted =>
      obtain ⟨rfl, rfl⟩ : string (String.ofList text) = t ∧ width = word.length := by simpa using h
      exact ⟨by simp only [quotedText_append_iff.mp hquoted], fun _ _ => not_false⟩
    · cases h
  · rintro ⟨h, -⟩
    split at h
    · next text width hquoted =>
      obtain ⟨rfl, rfl⟩ : string (String.ofList text) = t ∧ width = word.length := by simpa using h
      simp only [quotedText_append_iff.mpr hquoted]
    · cases h

/-- A token with an optional equals sign ends where it has one or none follows. -/
theorem withEquals_append_iff {long short t : Token} {word rest cs : List Char}
    (hlong : ∀ d, ¬long.Continues cs d) (hshort : ∀ d, short.Continues cs d ↔ d = '=') :
    withEquals long short (word ++ rest) = (t, word.length + 1) ↔
      withEquals long short word = (t, word.length + 1) ∧ ∀ d ∈ rest.head?, ¬t.Continues cs d := by
  cases word with
  | nil =>
    cases rest with
    | nil => simp
    | cons d rest =>
      by_cases hd : d = '='
      · subst hd
        simp only [withEquals, List.nil_append, List.length_nil, Prod.mk.injEq]
        constructor
        · rintro ⟨_, ⟨⟩⟩
        · rintro ⟨⟨rfl, -⟩, hend⟩
          exact absurd ((hshort '=').mpr rfl) (hend '=' rfl)
      · simp [withEquals, hd]
        rintro rfl
        simp [hshort, hd]
  | cons c word =>
    by_cases hc : c = '='
    · subst hc
      simp [withEquals]
      rintro rfl _
      simp [hlong]
    · simp [withEquals, hc]

/-- A doubled character is read by itself, whatever follows. -/
theorem doubled_append_iff {c : Char} {t u : Token} {word rest : List Char} :
    doubled c t (word ++ rest) = .ok (u, word.length + 1) ↔
      doubled c t word = .ok (u, word.length + 1) := by
  cases word with
  | nil =>
    cases rest with
    | nil => rfl
    | cons d rest => by_cases hd : d = c <;> simp [doubled, hd]
  | cons d word => rfl

/-- Only one token is a doubled character. -/
theorem eq_of_doubled {c : Char} {t u : Token} {cs : List Char} {width : Nat}
    (h : doubled c t cs = .ok (u, width)) : t = u := by
  unfold doubled at h
  split at h
  · split at h
    · exact congrArg Prod.fst (Except.ok.inj h)
    · cases h
  · cases h

/-- A token is read at the head of a text exactly if its characters are read as this token by
themselves and the next character does not continue it. -/
theorem read_append_iff {c : Char} {word rest : List Char} {t : Token} :
    read c (word ++ rest) = .ok (t, word.length + 1) ↔
      read c word = .ok (t, word.length + 1) ∧ ∀ d ∈ rest.head?, ¬t.Continues (c :: word) d := by
  unfold read
  by_cases hdigit : c.isDigit = true
  · rw [if_pos hdigit, if_pos hdigit]
    exact readNumber_append_iff (c :: word)
  rw [if_neg hdigit, if_neg hdigit]
  by_cases hname : isNameStart c = true
  · rw [if_pos hname, if_pos hname, Except.ok.injEq, Except.ok.injEq]
    exact readName_append_iff (c :: word)
  rw [if_neg hname, if_neg hname]
  split
  case h_1 =>
    cases word with
    | nil =>
      -- A point alone is no token, so no digit can follow it here.
      have hpoint : readNumber (['.'] ++ rest) ≠ .ok (t, 1) := fun h =>
        readNumber_point t ((readNumber_append_iff ['.']).mp h).1
      simp only [List.nil_append, List.head?_nil, Option.any_none, Bool.false_eq_true, if_false]
      split
      · exact iff_of_false hpoint fun h => nomatch h.1
      · exact iff_of_false nofun fun h => nomatch h.1
    | cons d word =>
      rw [List.cons_append, List.head?_cons, List.head?_cons]
      by_cases hd : Option.any Char.isDigit (some d) = true
      · rw [if_pos hd, if_pos hd]
        exact readNumber_append_iff ('.' :: d :: word)
      · rw [if_neg hd, if_neg hd]
        exact iff_of_false nofun fun h => nomatch h.1
  case h_2 | h_3 => exact quoted_append_iff
  case h_14 | h_15 | h_16 =>
    rw [Except.ok.injEq, Except.ok.injEq]
    exact withEquals_append_iff (fun _ => not_false) fun _ => Iff.rfl
  case h_17 | h_18 | h_19 =>
    rw [doubled_append_iff, iff_self_and]
    intro h
    obtain rfl := eq_of_doubled h
    exact fun _ _ => not_false
  case h_20 => exact iff_of_false nofun fun h => nomatch h.1
  all_goals
    rw [iff_self_and]
    intro h
    obtain rfl : _ = t := congrArg Prod.fst (Except.ok.inj h)
    exact fun _ _ => not_false

end FormulaRules.Token
