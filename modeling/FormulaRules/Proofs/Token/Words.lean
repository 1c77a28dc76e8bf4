import FormulaRules.Proofs.Token.Lexes
import FormulaRules.Expr.Render
import FormulaRules.Proofs.Number.Written

/-!
# The words of a written text

Names, keywords, numbers and quoted strings are read back from their texts, and keywords also in
any other letter case. Except for strings this needs a character behind the word that does not
continue it.
-/

namespace FormulaRules

namespace Token

/-- Whether a text is a name: a letter or underscore, then letters, digits and underscores of the
ASCII range, and no keyword in any letter case. -/
def isName (name : String) : Bool :=
  (match name.toList with
    | c :: cs => isNameStart c && cs.all isNameChar
    | [] => false) &&
  !Text.sameFolded name "true" && !Text.sameFolded name "false"

/-- Whether a text may follow a word: it starts with no character of a name or a number. -/
def Closes (rest : List Char) : Prop := ∀ c ∈ rest.head?, isNameChar c = false ∧ c ≠ '.'

/-- A word ends with the text. -/
theorem closes_nil : Closes [] := by simp [Closes]

/-- A word ends before a character that is neither in a name nor a point. -/
theorem closes_cons (c : Char) (h : isNameChar c = false ∧ c ≠ '.') (rest : List Char) :
    Closes (c :: rest) := by
  intro d hd
  obtain rfl := Option.some.inj hd
  exact h

/-- The code points of the characters of a name. -/
theorem toNat_of_isNameChar {c : Char} (h : isNameChar c = true) :
    (48 ≤ c.toNat ∧ c.toNat ≤ 57) ∨ (65 ≤ c.toNat ∧ c.toNat ≤ 90) ∨
      (97 ≤ c.toNat ∧ c.toNat ≤ 122) ∨ c.toNat = 95 := by
  simp only [isNameChar, Char.isAlphanum, Char.isAlpha, Char.isUpper, Char.isLower, Char.isDigit,
    Bool.or_eq_true, Bool.and_eq_true, decide_eq_true_eq, beq_iff_eq] at h
  change (((65 ≤ c.toNat ∧ c.toNat ≤ 90) ∨ (97 ≤ c.toNat ∧ c.toNat ≤ 122)) ∨
    (48 ≤ c.toNat ∧ c.toNat ≤ 57)) ∨ c = '_' at h
  rcases h with ((h | h) | h) | rfl
  · exact .inr (.inl h)
  · exact .inr (.inr (.inl h))
  · exact .inl h
  · exact .inr (.inr (.inr rfl))

/-- No character of a name is blank. -/
theorem isBlank_of_isNameChar {c : Char} (h : isNameChar c = true) : Text.isBlank c = false := by
  have hrange := toNat_of_isNameChar h
  rw [← Bool.not_eq_true]
  simp only [Text.isBlank, Bool.or_eq_true, Bool.and_eq_true, decide_eq_true_eq, beq_iff_eq]
  omega

/-- A word ends before blank characters. -/
theorem closes_blanks {after : List Char} (h : ∀ b ∈ after, Text.isBlank b = true) :
    Closes after := by
  intro c hc
  have hblank := h c (List.mem_of_mem_head? hc)
  refine ⟨?_, ?_⟩
  · rw [← Bool.not_eq_true]
    intro hname
    rw [isBlank_of_isNameChar hname] at hblank
    cases hblank
  · rintro rfl
    cases hblank

/-- The first character of a name may stand inside a name. -/
theorem isNameChar_of_isNameStart {c : Char} (h : isNameStart c = true) : isNameChar c = true := by
  simp only [isNameStart, isNameChar, Char.isAlphanum, Bool.or_eq_true] at h ⊢
  rcases h with h | h
  · exact .inl (.inl h)
  · exact .inr h

/-- A digit may stand inside a name. -/
theorem isNameChar_of_isDigit {c : Char} (h : c.isDigit = true) : isNameChar c = true := by
  simp [isNameChar, Char.isAlphanum, h]

/-- The first character of a name is no digit. -/
theorem isDigit_of_isNameStart {c : Char} (h : isNameStart c = true) : c.isDigit = false := by
  simp only [isNameStart, Char.isAlpha, Char.isUpper, Char.isLower, Bool.or_eq_true,
    Bool.and_eq_true, decide_eq_true_eq, beq_iff_eq] at h
  change ((65 ≤ c.toNat ∧ c.toNat ≤ 90) ∨ (97 ≤ c.toNat ∧ c.toNat ≤ 122)) ∨ c = '_' at h
  rw [← Bool.not_eq_true, Char.isDigit, Bool.and_eq_true, decide_eq_true_eq, decide_eq_true_eq]
  change ¬(48 ≤ c.toNat ∧ c.toNat ≤ 57)
  rcases h with (h | h) | rfl
  · omega
  · omega
  · decide

/-- Characters of a word are taken up to what follows the word. -/
theorem takeWhile_append {good : Char → Bool} {word rest : List Char}
    (hword : ∀ c ∈ word, good c = true) (hrest : ∀ c ∈ rest.head?, good c = false) :
    (word ++ rest).takeWhile good = word := by
  rw [List.takeWhile_append_of_pos hword]
  cases rest with
  | nil => simp
  | cons c rest =>
    have hc : ¬good c = true := by simp [hrest c rfl]
    rw [List.takeWhile_cons_of_neg hc, List.append_nil]

/-- A word of letters is read as a name or keyword. -/
theorem read_letters {c : Char} {cs rest : List Char} (hc : isNameStart c = true)
    (hcs : ∀ d ∈ cs, isNameChar d = true) (hrest : Closes rest) :
    read c (cs ++ rest) =
      .ok (if Text.sameFolded (String.ofList (c :: cs)) "true" then boolean true
        else if Text.sameFolded (String.ofList (c :: cs)) "false" then boolean false
        else identifier (String.ofList (c :: cs)), cs.length + 1) := by
  have hword : ∀ d ∈ c :: cs, isNameChar d = true := by
    rintro d (_ | ⟨_, hd⟩)
    · exact isNameChar_of_isNameStart hc
    · exact hcs d hd
  have htake : (c :: (cs ++ rest)).takeWhile isNameChar = c :: cs :=
    takeWhile_append hword fun d hd => (hrest d hd).1
  have hdigit : ¬c.isDigit = true := by simp [isDigit_of_isNameStart hc]
  unfold read
  rw [if_neg hdigit, if_pos hc, readName, htake]
  rfl

/-- A character whose small form is a letter is one. -/
theorem isAlpha_of_toLower {c : Char} (h : c.toLower.isAlpha = true) : c.isAlpha = true := by
  by_cases hupper : c.isUpper = true
  · rw [Char.isAlpha, hupper, Bool.true_or]
  · have hsame : c.toLower = c := by
      rw [Char.toLower, dif_neg]
      exact fun hrange => hupper (decide_eq_true hrange)
    rwa [hsame] at h

/-- A keyword in any letter case is made of letters. -/
theorem exists_letters_of_foldCase (b : Bool) {word : String}
    (h : Text.foldCase word = Text.foldCase (Value.boolean b).text) :
    ∃ c cs, word.toList = c :: cs ∧ isNameStart c = true ∧ ∀ d ∈ cs, isNameChar d = true := by
  have hmap : word.toList.map Char.toLower = (Text.foldCase (Value.boolean b).text).toList := by
    rw [← h, Text.foldCase, String.toList_map]
  have hkeyword : (Text.foldCase (Value.boolean b).text).toList ≠ [] ∧
      (Text.foldCase (Value.boolean b).text).toList.all Char.isAlpha = true := by
    cases b with
    | true =>
      change (Text.foldCase "true").toList ≠ [] ∧ (Text.foldCase "true").toList.all _ = true
      decide +kernel
    | false =>
      change (Text.foldCase "false").toList ≠ [] ∧ (Text.foldCase "false").toList.all _ = true
      decide +kernel
  rw [← hmap, List.all_eq_true] at hkeyword
  obtain ⟨hne, hletters⟩ := hkeyword
  have hword : ∀ d ∈ word.toList, isNameStart d = true := by
    intro d hd
    rw [isNameStart, isAlpha_of_toLower (hletters _ (List.mem_map_of_mem hd)), Bool.true_or]
  cases hcs : word.toList with
  | nil => simp [hcs] at hne
  | cons c cs =>
    rw [hcs] at hword
    exact ⟨c, cs, rfl, hword c List.mem_cons_self, fun d hd =>
      isNameChar_of_isNameStart (hword d (List.mem_cons_of_mem c hd))⟩

/-- The characters of a written number are those of its two parts. -/
theorem numberText_joinParts {whole fraction rest : List Char}
    (hwhole : ∀ c ∈ whole, c.isDigit = true) (hfraction : ∀ c ∈ fraction, c.isDigit = true)
    (hrest : Closes rest) :
    numberText (Number.joinParts (whole, fraction) ++ rest) =
      Number.joinParts (whole, fraction) := by
  have hdigit : ∀ c ∈ rest.head?, c.isDigit = false := by
    intro c hc
    rw [← Bool.not_eq_true]
    intro hdigit
    have hname := (hrest c hc).1
    rw [isNameChar_of_isDigit hdigit] at hname
    cases hname
  cases fraction with
  | nil =>
    rw [Number.joinParts, numberText, Number.spanDigits_append hwhole hdigit]
    dsimp only
    split
    · exact absurd rfl (hrest '.' rfl).2
    · rfl
  | cons d ds =>
    have hpoint : ∀ c ∈ ('.' :: (d :: ds ++ rest)).head?, c.isDigit = false := by simp
    have htext : Number.joinParts (whole, d :: ds) ++ rest = whole ++ '.' :: (d :: ds ++ rest) :=
      List.append_assoc ..
    rw [htext, numberText, Number.spanDigits_append hwhole hpoint]
    simp only [Number.spanDigits_append hfraction hdigit]
    rfl

/-- The characters between double quotes are read back. -/
theorem quotedText_quoteChar (cs rest : List Char) :
    quotedText '"' (cs.flatMap Expr.quoteChar ++ '"' :: rest) =
      some (cs, (cs.flatMap Expr.quoteChar).length + 1) := by
  induction cs with
  | nil => rfl
  | cons c cs ih =>
    rw [List.flatMap_cons, List.append_assoc]
    generalize cs.flatMap Expr.quoteChar = quoted at ih ⊢
    unfold Expr.quoteChar
    split
    case h_6 hquote hslash _ _ _ =>
      rw [List.singleton_append, quotedText, if_neg hquote, ih]
      · rfl
      · intro h
        exact absurd h hslash
      · intro d ds h
        exact absurd h hslash
    all_goals
      simp only [List.cons_append, List.nil_append, quotedText, ih]
      rfl

end Token

namespace Lexes

open Token

/-- A name is read if what follows does not continue it. -/
theorem name {name : String} (hname : isName name = true) {rest : List Char} (hrest : Closes rest) :
    Lexes (name.toList ++ rest) [.identifier name] rest := by
  simp only [isName, Bool.and_eq_true, Bool.not_eq_true'] at hname
  obtain ⟨⟨hword, htrue⟩, hfalse⟩ := hname
  split at hword
  · next c cs hcs =>
    rw [Bool.and_eq_true, List.all_eq_true] at hword
    have hread := read_letters hword.1 hword.2 hrest
    have hofList : String.ofList (c :: cs) = name := by rw [← hcs, String.ofList_toList]
    rw [hofList, htrue, hfalse] at hread
    rw [hcs]
    exact .word (isBlank_of_isNameChar (isNameChar_of_isNameStart hword.1)) hread (.nil rest)
  · cases hword

/-- A keyword is read in any letter case if what follows does not continue it. -/
theorem keyword_of_sameFolded (b : Bool) {word : String}
    (hword : Text.sameFolded word (Value.boolean b).text = true) {rest : List Char}
    (hrest : Closes rest) : Lexes (word.toList ++ rest) [.boolean b] rest := by
  have hfold : Text.foldCase word = Text.foldCase (Value.boolean b).text := eq_of_beq hword
  obtain ⟨c, cs, hcs, hc, htail⟩ := exists_letters_of_foldCase b hfold
  have hread := read_letters hc htail hrest
  rw [← hcs, String.ofList_toList] at hread
  rw [hcs]
  refine .word (isBlank_of_isNameChar (isNameChar_of_isNameStart hc)) ?_ (.nil rest)
  cases b with
  | true =>
    change Text.sameFolded word "true" = true at hword
    rwa [if_pos hword] at hread
  | false =>
    change Text.sameFolded word "false" = true at hword
    have htrue : ¬Text.sameFolded word "true" = true := by
      rw [Text.sameFolded, hfold]
      decide +kernel
    rwa [if_neg htrue, if_pos hword] at hread

/-- A keyword is read if what follows does not continue it. -/
theorem keyword (b : Bool) {rest : List Char} (hrest : Closes rest) :
    Lexes ((Value.boolean b).text.toList ++ rest) [.boolean b] rest :=
  keyword_of_sameFolded b (beq_self_eq_true _) hrest

/-- A written number is read if what follows does not continue it. -/
theorem number {whole fraction : List Char} {x : Float} (hne : whole ≠ [])
    (hwhole : ∀ c ∈ whole, c.isDigit = true) (hfraction : ∀ c ∈ fraction, c.isDigit = true)
    (hread : Number.readChars? (Number.joinParts (whole, fraction)) = some x)
    (hx : x.isFinite = true) {rest : List Char} (hrest : Closes rest) :
    Lexes (Number.joinParts (whole, fraction) ++ rest) [.number x] rest := by
  have htext := numberText_joinParts hwhole hfraction hrest
  obtain ⟨c, tail, htail⟩ : ∃ c tail, Number.joinParts (whole, fraction) = c :: tail ∧
      c.isDigit = true := by
    cases whole with
    | nil => exact absurd rfl hne
    | cons c cs => cases fraction <;> exact ⟨c, _, rfl, hwhole c List.mem_cons_self⟩
  obtain ⟨htail, hc⟩ := htail
  rw [htail] at htext hread ⊢
  refine .word (isBlank_of_isNameChar (isNameChar_of_isDigit hc)) ?_ (.nil rest)
  unfold Token.read
  rw [List.cons_append] at htext
  rw [if_pos hc, readNumber, htext]
  simp only [hread, hx, if_true, List.length_cons]

/-- A quoted string is read whatever follows. -/
theorem quoted (s : String) (rest : List Char) :
    Lexes ((Expr.quote s).toList ++ rest) [.string s] rest := by
  have hread := quotedText_quoteChar s.toList rest
  have htext : (Expr.quote s).toList ++ rest =
      '"' :: ((s.toList.flatMap Expr.quoteChar ++ ['"']) ++ rest) := by
    rw [Expr.quote, String.toList_ofList]
    rfl
  rw [htext]
  refine .word rfl ?_ (.nil rest)
  rw [List.append_assoc, List.singleton_append]
  unfold Token.read
  rw [if_neg (by decide), if_neg (by decide)]
  simp only [hread, String.ofList_toList, List.length_append, List.length_singleton]

end Lexes

end FormulaRules
