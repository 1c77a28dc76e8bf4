import FormulaRules.Proofs.Token.Numerals
import FormulaRules.Proofs.Token.Scan

/-!
# One token between blank characters

A text fills a token if it is read to its end and nothing else is read from it. Such a text is the
characters of the token between blank characters, so trimming it leaves these. For names, keywords
and numbers this says which trimmed texts they are.
-/

namespace FormulaRules

namespace Text

/-- A text is its trimmed text between blank characters. -/
theorem exists_blanks_trimBlanks (cs : List Char) :
    ∃ before after, (∀ b ∈ before, isBlank b = true) ∧ (∀ b ∈ after, isBlank b = true) ∧
      cs = before ++ (trimBlanks cs ++ after) := by
  refine ⟨cs.takeWhile isBlank, ((skipBlanks cs).reverse.takeWhile isBlank).reverse,
    fun _ => List.mem_takeWhile_imp, fun b hb => ?_, ?_⟩
  · exact List.mem_takeWhile_imp (List.mem_reverse.mp hb)
  · rw [trimBlanks, ← List.reverse_append]
    simp only [skipBlanks, List.takeWhile_append_dropWhile, List.reverse_reverse]

/-- Trimming takes away the blank characters around a text without blank characters at its ends. -/
theorem trimBlanks_between {before word after : List Char}
    (hbefore : ∀ b ∈ before, isBlank b = true) (hafter : ∀ b ∈ after, isBlank b = true)
    (hfirst : ∀ c ∈ word.head?, isBlank c = false)
    (hlast : ∀ c ∈ word.getLast?, isBlank c = false) :
    trimBlanks (before ++ (word ++ after)) = word := by
  have hkeep {cs : List Char} (h : ∀ c ∈ cs.head?, isBlank c = false) : skipBlanks cs = cs := by
    cases cs with
    | nil => rfl
    | cons c cs => exact List.dropWhile_cons_of_neg (by simp [h c rfl])
  have hstart : skipBlanks (word ++ after) = word ++ after ∨ word = [] := by
    cases word with
    | nil => exact .inr rfl
    | cons c word => exact .inl (hkeep hfirst)
  have hskip {blanks : List Char} (h : ∀ b ∈ blanks, isBlank b = true) (cs : List Char) :
      skipBlanks (blanks ++ cs) = skipBlanks cs := List.dropWhile_append_of_pos h
  rw [trimBlanks, hskip hbefore]
  rcases hstart with hstart | rfl
  · have hend : ∀ b ∈ after.reverse, isBlank b = true := by simpa using hafter
    rw [hstart, List.reverse_append, hskip hend, hkeep (by simpa using hlast), List.reverse_reverse]
  · have hnone : skipBlanks after = [] := List.dropWhile_eq_nil_iff.mpr hafter
    rw [List.nil_append, hnone]
    rfl

end Text

namespace Token

/-- Whether a text is read to its end into one token. -/
def Fills (t : Token) (s : String) : Prop :=
  (TokenStream.ofText s).EndsClean ∧ (TokenStream.ofText s).tokens = [t]

/-- A text of one token is the characters of the token between blank characters. -/
theorem fills_iff {t : Token} {s : String} :
    t.Fills s ↔ ∃ before c word after, (∀ b ∈ before, Text.isBlank b = true) ∧
      (∀ b ∈ after, Text.isBlank b = true) ∧ s.toList = before ++ c :: (word ++ after) ∧
      Text.isBlank c = false ∧ read c word = .ok (t, word.length + 1) := by
  have hscan := TokenStream.scans_ofText s
  constructor
  · rintro ⟨hclean, htokens⟩
    generalize TokenStream.ofText s = st at hscan hclean htokens
    generalize s.toList = cs at hscan ⊢
    cases hscan with
    | finish => cases htokens
    | fault => cases htokens
    | @token before word rest c t' next _ start stop hbefore hc hread _ _ hnext =>
      obtain ⟨rfl, hnone⟩ := List.cons.inj htokens
      refine ⟨before, c, word, rest, hbefore, ?_, rfl, hc, (read_append_iff.mp hread).1⟩
      cases hnext with
      | finish hblanks => exact hblanks
      | token => cases hnone
      | fault => exact absurd hclean not_false
  · rintro ⟨before, c, word, after, hbefore, hafter, hs, hc, hread⟩
    have hword : read c (word ++ after) = .ok (t, word.length + 1) :=
      read_append_iff.mpr ⟨hread, fun d hd =>
        not_continues_of_isBlank (hafter d (List.mem_of_mem_head? hd))⟩
    have hscan : TokenStream.Scans 0 (before ++ c :: (word ++ after)) _ :=
      .token hbefore hc hword rfl rfl (.finish hafter rfl)
    rw [Fills, TokenStream.Scans.eq_ofText (hs ▸ hscan)]
    exact ⟨trivial, rfl⟩

/-- A token is a number, a name or keyword, or starts with neither a digit nor a letter. -/
theorem read_cases {c : Char} {cs : List Char} {t : Token} {width : Nat}
    (h : read c cs = .ok (t, width)) :
    StartsNumber (c :: cs) ∧ readNumber (c :: cs) = .ok (t, width) ∨
    isNameStart c = true ∧ readName (c :: cs) = (t, width) ∨
    (∀ x, t ≠ number x) ∧ (∀ name, t ≠ identifier name) ∧ ∀ b, t ≠ boolean b := by
  unfold read at h
  split at h
  · next hdigit => exact .inl ⟨.inl hdigit, h⟩
  split at h
  · next hname => exact .inr (.inl ⟨hname, Except.ok.inj h⟩)
  split at h
  case h_1 =>
    split at h
    · next hnext => exact .inl ⟨.inr ⟨rfl, hnext⟩, h⟩
    · cases h
  case h_2 | h_3 =>
    split at h
    · cases h
      simp
    · cases h
  case h_14 | h_15 | h_16 =>
    obtain rfl : _ = t := congrArg Prod.fst (Except.ok.inj h)
    unfold withEquals
    split <;> simp
  case h_17 | h_18 | h_19 =>
    obtain rfl := eq_of_doubled h
    simp
  case h_20 => cases h
  all_goals
    cases h
    simp

/-- A text of one token without blank characters in it is trimmed to this token. -/
theorem exists_trimBlanks_of_fills {t : Token} {s : String} (h : t.Fills s)
    (hword : ∀ c word, read c word = .ok (t, word.length + 1) →
      ∀ d ∈ c :: word, Text.isBlank d = false) :
    ∃ c word, Text.trimBlanks s.toList = c :: word ∧ read c word = .ok (t, word.length + 1) := by
  obtain ⟨before, c, word, after, hbefore, hafter, hs, hc, hread⟩ := fills_iff.mp h
  have hblank := hword c word hread
  refine ⟨c, word, ?_, hread⟩
  rw [hs, ← List.cons_append]
  exact Text.trimBlanks_between hbefore hafter
    (fun d hd => hblank d (List.mem_of_mem_head? hd))
    (fun d hd => hblank d (List.mem_of_mem_getLast? hd))

/-- A trimmed text that is read up to what follows it fills its token. -/
theorem fills_of_lexes {t : Token} {s : String}
    (h : ∀ {after}, Closes after → Lexes ((Text.trim s).toList ++ after) [t] after) :
    t.Fills s := by
  obtain ⟨before, after, hbefore, hafter, hs⟩ := Text.exists_blanks_trimBlanks s.toList
  have hword := h (closes_blanks hafter)
  have hend : Lexes (after ++ []) [] [] := Lexes.blanks hafter []
  have htext : Lexes s.toList [t] [] := by
    rw [hs]
    rw [Text.trim, String.toList_ofList] at hword
    rw [List.append_nil] at hend
    exact (Lexes.blanks hbefore _).trans (hword.trans hend)
  exact htext.endsClean_ofText

/-- A name or keyword that fills a list of characters consists of characters of names. -/
theorem isNameChar_of_readName {cs : List Char} {t : Token}
    (h : readName cs = (t, cs.length)) : ∀ c ∈ cs, isNameChar c = true := by
  have hall : cs.takeWhile isNameChar = cs :=
    (List.takeWhile_prefix isNameChar).eq_of_length (congrArg Prod.snd h)
  exact List.takeWhile_eq_self_iff.mp hall

/-- Whether characters are those of a name or keyword: a letter or underscore, then letters, digits
and underscores of the ASCII range. -/
def IsWord (cs : List Char) : Prop :=
  ∃ c word, cs = c :: word ∧ isNameStart c = true ∧ ∀ d ∈ word, isNameChar d = true

/-- The name or keyword that a text fills is what its trimmed text says. -/
theorem eq_of_fills {t : Token} {s : String} (h : t.Fills s)
    (ht : (∃ name, t = identifier name) ∨ ∃ b, t = boolean b) :
    IsWord (Text.trim s).toList ∧
      t = if Text.sameFolded (Text.trim s) "true" then boolean true
        else if Text.sameFolded (Text.trim s) "false" then boolean false
        else identifier (Text.trim s) := by
  have hname {c : Char} {word : List Char} (hread : read c word = .ok (t, word.length + 1)) :
      isNameStart c = true ∧ ∀ d ∈ c :: word, isNameChar d = true := by
    rcases read_cases hread with ⟨-, hnumber⟩ | ⟨hstart, hname⟩ | ⟨-, hidentifier, hboolean⟩
    · obtain ⟨-, x, -, -, hx⟩ := readNumber_eq_ok_iff.mp hnumber
      rcases ht with ⟨name, rfl⟩ | ⟨b, rfl⟩ <;> cases hx
    · exact ⟨hstart, isNameChar_of_readName hname⟩
    · rcases ht with ⟨name, rfl⟩ | ⟨b, rfl⟩
      · exact absurd rfl (hidentifier name)
      · exact absurd rfl (hboolean b)
  obtain ⟨c, word, htrim, hread⟩ := exists_trimBlanks_of_fills h fun c word hread d hd =>
    isBlank_of_isNameChar ((hname hread).2 d hd)
  obtain ⟨hstart, hchars⟩ := hname hread
  have hword : ∀ d ∈ word, isNameChar d = true := fun d hd => hchars d (List.mem_cons_of_mem c hd)
  have hletters := read_letters hstart hword closes_nil
  rw [List.append_nil, hread] at hletters
  rw [Text.trim, String.toList_ofList, htrim]
  exact ⟨⟨c, word, rfl, hstart, hword⟩, congrArg Prod.fst (Except.ok.inj hletters)⟩

/-- A text fills a keyword if its trimmed text is the keyword in some letter case. -/
theorem boolean_fills_iff {b : Bool} {s : String} :
    (boolean b).Fills s ↔ Text.sameFolded (Text.trim s) (Value.boolean b).text = true := by
  constructor
  · intro h
    obtain ⟨-, ht⟩ := eq_of_fills h (.inr ⟨b, rfl⟩)
    split at ht
    · next htrue =>
      cases ht
      exact htrue
    · split at ht
      · next hfalse =>
        cases ht
        exact hfalse
      · cases ht
  · exact fun h => fills_of_lexes fun hafter => Lexes.keyword_of_sameFolded b h hafter

/-- A text fills a name if its trimmed text is this name and no keyword in some letter case. -/
theorem identifier_fills_iff {name s : String} :
    (identifier name).Fills s ↔ Text.trim s = name ∧ IsWord (Text.trim s).toList ∧
      ∀ b, Text.sameFolded (Text.trim s) (Value.boolean b).text = false := by
  constructor
  · intro h
    obtain ⟨hword, ht⟩ := eq_of_fills h (.inl ⟨name, rfl⟩)
    split at ht
    · cases ht
    · next htrue =>
      split at ht
      · cases ht
      · next hfalse =>
        refine ⟨(Token.identifier.inj ht).symm, hword, fun b => ?_⟩
        cases b with
        | true => exact Bool.eq_false_iff.mpr htrue
        | false => exact Bool.eq_false_iff.mpr hfalse
  · rintro ⟨rfl, ⟨c, word, htrim, hstart, hword⟩, hkeyword⟩
    refine fills_of_lexes fun hafter => Lexes.name ?_ hafter
    have htrue : Text.sameFolded (Text.trim s) "true" = false := hkeyword true
    have hfalse : Text.sameFolded (Text.trim s) "false" = false := hkeyword false
    simp only [isName, htrim, hstart, List.all_eq_true.mpr hword, htrue, hfalse]
    rfl

/-- No character of a number is blank. -/
theorem NumberForm.isBlank_eq_false {cs : List Char} (h : NumberForm cs) :
    ∀ d ∈ cs, Text.isBlank d = false := by
  intro d hd
  rcases h.isDigit_or_point d hd with hdigit | rfl
  · exact isBlank_of_isNameChar (isNameChar_of_isDigit hdigit)
  · rfl

/-- A number takes all characters of its form. -/
theorem NumberForm.numberText_eq {cs : List Char} (h : NumberForm cs) : numberText cs = cs := by
  have hend {ds : List Char} (hds : ∀ c ∈ ds, c.isDigit = true) :
      Number.spanDigits ds = (ds, []) := by
    simpa using Number.spanDigits_append hds (by simp : ∀ c ∈ ([] : List Char).head?, _)
  cases h with
  | whole _ hwhole => rw [numberText, hend hwhole]
  | point _ hwhole hfraction =>
    rw [numberText, Number.spanDigits_append hwhole (by simp)]
    simp only [hend hfraction]

/-- Every form of a number starts one. -/
theorem NumberForm.startsNumber {cs : List Char} (h : NumberForm cs) : StartsNumber cs := by
  have hdigit {c : Char} {cs : List Char} (h : ∀ d ∈ c :: cs, d.isDigit = true) :
      c.isDigit = true := h c List.mem_cons_self
  cases h with
  | whole hne hwhole =>
    cases cs with
    | nil => exact absurd rfl hne
    | cons c cs => exact .inl (hdigit hwhole)
  | @point whole fraction hne hwhole hfraction =>
    cases whole with
    | cons c cs => exact .inl (hdigit hwhole)
    | nil =>
      cases fraction with
      | nil => simp at hne
      | cons d ds => exact .inr ⟨rfl, hdigit hfraction⟩

/-- A number is read where one starts. -/
theorem read_of_startsNumber {c : Char} {cs : List Char} (h : StartsNumber (c :: cs)) :
    read c cs = readNumber (c :: cs) := by
  rcases h with hdigit | ⟨rfl, hnext⟩
  · unfold read
    rw [if_pos hdigit]
  · exact if_pos hnext

/-- Characters are read as a number if they have one of its forms and show a finite double. -/
theorem read_eq_number_iff {c : Char} {word : List Char} {x : Float} :
    read c word = .ok (number x, word.length + 1) ↔
      NumberForm (c :: word) ∧ Number.readChars? (c :: word) = some x ∧ x.isFinite = true := by
  constructor
  · intro hread
    rcases read_cases hread with ⟨hstarts, hnumber⟩ | ⟨-, hname⟩ | ⟨hnumber, -⟩
    · obtain ⟨hlength, y, hy, hfinite, heq⟩ := readNumber_eq_ok_iff.mp hnumber
      have htext := (isPrefix_numberText (c :: word)).eq_of_length hlength
      cases heq
      rw [htext] at hy
      exact ⟨htext ▸ numberForm_numberText hstarts, hy, hfinite⟩
    · have hnone := congrArg Prod.fst hname
      simp only [readName] at hnone
      split at hnone
      · cases hnone
      · split at hnone <;> cases hnone
    · exact absurd rfl (hnumber x)
  · rintro ⟨hform, hx, hfinite⟩
    rw [read_of_startsNumber hform.startsNumber, readNumber_eq_ok_iff, hform.numberText_eq]
    exact ⟨rfl, x, hx, hfinite, rfl⟩

/-- The number that a text fills is read off its trimmed text, which has one of the forms of a
number. -/
theorem readChars?_of_fills {x : Float} {s : String} (h : (number x).Fills s) :
    NumberForm (Text.trim s).toList ∧ Number.read? (Text.trim s) = some x ∧
      x.isFinite = true := by
  obtain ⟨c, word, htrim, hread⟩ := exists_trimBlanks_of_fills h fun c word hread =>
    (read_eq_number_iff.mp hread).1.isBlank_eq_false
  rw [Number.read?, Text.trim, String.toList_ofList, htrim]
  exact read_eq_number_iff.mp hread

end Token

end FormulaRules
