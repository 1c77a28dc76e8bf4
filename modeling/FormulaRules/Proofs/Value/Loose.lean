import FormulaRules.Proofs.Command.Names

/-!
# Loosely written values

A loosely written value is a number, a boolean or a string by the first of three attempts that
succeeds, and no text is refused. Main statement: a finite value that is written plainly, or between
quotes if it is a string, is what an assignment reads. The text between the quotes is left open: it
may have quotes, equals signs, blank characters and digits in it, and nothing in it is escaped.
-/

namespace FormulaRules

/-- A text without blank characters at its ends is trimmed to itself. -/
theorem Text.trim_eq_self {s : String} (hfirst : ∀ c ∈ s.toList.head?, isBlank c = false)
    (hlast : ∀ c ∈ s.toList.getLast?, isBlank c = false) : trim s = s := by
  have htrim := trimBlanks_between (List.forall_mem_nil _) (List.forall_mem_nil _) hfirst hlast
  rw [List.nil_append, List.append_nil] at htrim
  rw [trim, htrim, String.ofList_toList]

/-- Digits with a point between them have one of the forms of a number. -/
theorem Token.numberForm_joinParts {whole fraction : List Char} (hne : whole ≠ [])
    (hwhole : ∀ c ∈ whole, c.isDigit = true) (hfraction : ∀ c ∈ fraction, c.isDigit = true) :
    NumberForm (Number.joinParts (whole, fraction)) := by
  cases fraction with
  | nil => exact .whole hne hwhole
  | cons d ds => exact .point (.inl hne) hwhole hfraction

namespace Number

/-- A minus before a number without a sign gives the number with the opposite sign. -/
theorem readChars?_minus {cs : List Char} (hsign : ∀ c ∈ cs.head?, c ≠ '-' ∧ c ≠ '+') :
    readChars? ('-' :: cs) = (readChars? cs).map fun x => -x := by
  have hminus : spanSign ('-' :: cs) = (true, cs) := rfl
  simp [readChars?, readSigned?, hminus, spanSign_eq_self hsign]

/-- The text of a finite number is read as the number. -/
theorem read?_plain {x : Float} (hx : x.isFinite = true) : read? (plain x) = some x := by
  obtain ⟨whole, fraction, hdigits, hne, hwhole, hfraction, hread⟩ := plainDigits_written hx
  rw [read?, plain_of_isFinite hx, hdigits, withSign]
  split
  · next hnegative =>
    have hform := Token.numberForm_joinParts hne hwhole hfraction
    rw [readChars?_minus hform.ne_sign, hread, if_pos hnegative]
    exact congrArg some (neg_neg x)
  · next hpositive => rw [hread, if_neg hpositive]

/-- No character in the text of a finite number is blank. -/
theorem isBlank_of_mem_plain {x : Float} (hx : x.isFinite = true) :
    ∀ c ∈ (plain x).toList, Text.isBlank c = false := by
  obtain ⟨whole, fraction, hdigits, hne, hwhole, hfraction, -⟩ := plainDigits_written hx
  have hblank := (Token.numberForm_joinParts hne hwhole hfraction).isBlank_eq_false
  rw [plain_of_isFinite hx, hdigits, withSign]
  split
  · exact List.forall_mem_cons.mpr ⟨rfl, hblank⟩
  · exact hblank

/-- A text is no number if it starts with a character that no number starts with. -/
theorem readChars?_eq_none {c : Char} (hdigit : c.isDigit = false)
    (hstart : c.toLower ∉ ['-', '+', '.', 'i', 'n']) (cs : List Char) :
    readChars? (c :: cs) = none := by
  have hne {d : Char} (hd : d.toLower ∈ ['-', '+', '.', 'i', 'n']) : c ≠ d := by
    rintro rfl
    exact hstart hd
  have hsign : spanSign (c :: cs) = (false, c :: cs) := by
    refine spanSign_eq_self fun d hd => ?_
    obtain rfl := Option.some.inj hd
    exact ⟨hne (by decide), hne (by decide)⟩
  have hhead {word : String} (h : String.ofList ((c :: cs).map Char.toLower) = word) :
      word.toList.head? = some c.toLower := by
    rw [← h, String.toList_ofList]
    rfl
  have hword : readWord? (c :: cs) = none := by
    unfold readWord?
    split
    · next h => exact absurd (Option.some.inj (hhead h) ▸ by decide) hstart
    · next h => exact absurd (Option.some.inj (hhead h) ▸ by decide) hstart
    · next h => exact absurd (Option.some.inj (hhead h) ▸ by decide) hstart
    · rfl
  have hspan : spanDigits (c :: cs) = ([], c :: cs) := by
    simp [spanDigits, hdigit]
  have hdecimal : decimal? (c :: cs) = none := by
    simp only [decimal?, hspan]
    split
    · next h => exact absurd (List.cons.inj h).1 (hne (by decide))
    · rw [List.isEmpty_nil, Bool.and_self, if_pos rfl]
  simp [readChars?, readSigned?, hsign, hword, readDecimal?, hdecimal]

end Number

namespace Value

/-- A text that shows a finite number when it is trimmed has this value. -/
theorem ofLooseText_of_read? {s : String} {x : Float} (h : Number.read? (Text.trim s) = some x)
    (hx : x.isFinite = true) : ofLooseText s = number x := by
  -- The definition is opened as it stands, since its equation takes long to state.
  delta ofLooseText
  simp only [h, Option.filter_some, if_pos hx]

/-- A text that shows no number when it is trimmed is a boolean exactly if it is a keyword in small
letters, and without its quotes a string. -/
theorem ofLooseText_of_read?_eq_none {s : String} (h : Number.read? (Text.trim s) = none) :
    ofLooseText s =
      if Text.trim s = (boolean true).text then boolean true
      else if Text.trim s = (boolean false).text then boolean false
      else string (String.ofList (((Text.between? '"' (Text.trim s).toList).or
        (Text.between? '\'' (Text.trim s).toList)).getD (Text.trim s).toList)) := by
  delta ofLooseText
  simp [h, text]

/-- No text has an infinite or undefined number as its value. -/
theorem isFinite_ofLooseText (s : String) : (ofLooseText s).isFinite = true := by
  delta ofLooseText
  dsimp only
  split
  · next x hx => exact (Option.filter_eq_some_iff.mp hx).2
  · split
    · rfl
    · split <;> rfl

/-- A keyword in small letters has its boolean as its value. -/
theorem ofLooseText_boolean {s : String} {b : Bool} (h : Text.trim s = (boolean b).text) :
    ofLooseText s = boolean b := by
  have hnone : Number.read? (boolean b).text = none := by
    cases b with
    | true => exact Number.readChars?_eq_none (by decide) (by decide) _
    | false => exact Number.readChars?_eq_none (by decide) (by decide) _
  rw [ofLooseText_of_read?_eq_none (h ▸ hnone), h]
  cases b <;> rfl

/-- A text between quotes has the string between them as its value, whatever is in it. -/
theorem ofLooseText_quoted {quote : Char} (hquote : quote = '"' ∨ quote = '\'') (s : String) :
    ofLooseText (String.ofList (quote :: s.toList ++ [quote])) = string s := by
  generalize htext : String.ofList (quote :: s.toList ++ [quote]) = text
  have hcs : text.toList = quote :: s.toList ++ [quote] := htext ▸ String.toList_ofList
  have htrim : Text.trim text = text := by
    have hblank : Text.isBlank quote = false := by rcases hquote with rfl | rfl <;> decide
    refine Text.trim_eq_self ?_ ?_
    · simpa [hcs] using hblank
    · simpa [hcs, List.getLast?_cons] using hblank
  have hnone : Number.read? text = none := by
    rw [Number.read?, hcs]
    rcases hquote with rfl | rfl
    · exact Number.readChars?_eq_none (by decide) (by decide) _
    · exact Number.readChars?_eq_none (by decide) (by decide) _
  have hkeyword (b : Bool) : text ≠ (boolean b).text := by
    intro h
    have hhead : (boolean b).text.toList.head? = some quote := by
      rw [← h, hcs]
      rfl
    rcases hquote with rfl | rfl <;> cases b <;> simp [Value.text] at hhead
  have hunquoted : (Text.between? '"' text.toList).or (Text.between? '\'' text.toList) =
      some s.toList := by
    rw [hcs]
    rcases hquote with rfl | rfl
    · rw [Text.between?_quoted, Option.some_or]
    · -- Double quotes are tried first, and the single quote at the start refuses them.
      have hdouble : Text.between? '"' ('\'' :: s.toList ++ ['\'']) = none := by
        simp [Text.between?]
      rw [hdouble, Option.none_or, Text.between?_quoted]
  rw [ofLooseText_of_read?_eq_none (htrim.symm ▸ hnone), htrim, if_neg (hkeyword true),
    if_neg (hkeyword false), hunquoted, Option.getD_some, String.ofList_toList]

/-- The text of a value as it is written loosely: a string stands between quotes of one kind. -/
def loose (quote : Char) : Value → String
  | number x => (number x).text
  | boolean b => (boolean b).text
  | string s => String.ofList (quote :: s.toList ++ [quote])

/-- A finite value is read from its text. -/
theorem ofLooseText_loose {v : Value} (hv : v.isFinite = true) {quote : Char}
    (hquote : quote = '"' ∨ quote = '\'') : ofLooseText (v.loose quote) = v := by
  cases v with
  | number x =>
    have hblank := Number.isBlank_of_mem_plain hv
    have htrim : Text.trim (Number.plain x) = Number.plain x :=
      Text.trim_eq_self (fun c hc => hblank c (List.mem_of_mem_head? hc))
        (fun c hc => hblank c (List.mem_of_mem_getLast? hc))
    exact ofLooseText_of_read? (htrim.symm ▸ Number.read?_plain hv) hv
  | boolean b =>
    refine ofLooseText_boolean ?_
    cases b <;> cbv
  | string s => exact ofLooseText_quoted hquote s

end Value

namespace Assignment

/-- An assignment to a name without blank characters around it is accepted, and the value is what
stands behind the first equals sign. -/
theorem ofText_of_isWord {name : String} (hname : Token.IsWord name.toList) (value : String) :
    ofText (name ++ "=" ++ value) = .ok (name, .ofLooseText value) := by
  have hchars : ∀ c ∈ name.toList, Token.isNameChar c = true := by
    obtain ⟨c, word, hcs, hstart, hword⟩ := hname
    rw [hcs]
    exact List.forall_mem_cons.mpr ⟨Token.isNameChar_of_isNameStart hstart, hword⟩
  have hequals : '=' ∉ name.toList := fun h => absurd (hchars '=' h) (by decide)
  have hblank (c : Char) (hc : c ∈ name.toList) : Text.isBlank c = false :=
    Token.isBlank_of_isNameChar (hchars c hc)
  have htrim : Text.trim name = name :=
    Text.trim_eq_self (fun c hc => hblank c (List.mem_of_mem_head? hc))
      (fun c hc => hblank c (List.mem_of_mem_getLast? hc))
  rw [ofText_append_eq_ok_iff hequals, htrim]
  exact ⟨hname, rfl, rfl⟩

/-- A name and a finite value are read from the assignment that is made of them, and no text has
an infinite or undefined number as its value. -/
theorem ofText_loose :
    (∀ {name : String} {v : Value} {quote : Char}, Token.IsWord name.toList → v.isFinite = true →
      (quote = '"' ∨ quote = '\'') → ofText (name ++ "=" ++ v.loose quote) = .ok (name, v)) ∧
    ∀ s x, Value.ofLooseText s = .number x → x.isFinite = true := by
  constructor
  · intro name v quote hname hv hquote
    rw [ofText_of_isWord hname, Value.ofLooseText_loose hv hquote]
  · intro s x h
    have hfinite := Value.isFinite_ofLooseText s
    rwa [h] at hfinite

/-- The string `'"=1 ` is passed between double quotes, and minus zero without any. -/
theorem ofText_loose_quotes :
    Token.IsWord "_x1".toList ∧ (Value.string "'\"=1 ").isFinite = true ∧
    ofText ("_x1" ++ "=" ++ (Value.string "'\"=1 ").loose '"') = .ok ("_x1", .string "'\"=1 ") ∧
    (Value.number (-0)).isFinite = true ∧
    ofText ("_x1" ++ "=" ++ (Value.number (-0)).loose '"') = .ok ("_x1", .number (-0)) := by
  have hname : Token.IsWord "_x1".toList := isVariableName_iff.mp (by cbv)
  have hstring : (Value.string "'\"=1 ").isFinite = true := rfl
  have hzero : (Value.number (-0)).isFinite = true := by decide +kernel
  exact ⟨hname, hstring, ofText_loose.1 hname hstring (.inl rfl), hzero,
    ofText_loose.1 hname hzero (.inl rfl)⟩

end Assignment

end FormulaRules
