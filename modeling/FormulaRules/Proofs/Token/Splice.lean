import FormulaRules.Proofs.Token.Alone
import Mathlib.Data.List.Chain

/-!
# A text in place of a variable

A text is written into another one in place of every occurrence of a variable, which is a name that
stands before no opening parenthesis. Main statement: the text of one operand gives the tokens of
the other text with the operand in place of the variable, if no two operands of the other text
follow each other. Blank characters around the text are not needed.

Operands that follow each other are left out: in `x.5` a `1` for the variable makes one number.
-/

namespace FormulaRules

namespace Token

/-- Whether a token is an operand by itself. -/
def isOperand : Token → Bool
  | number _ | string _ | boolean _ | identifier _ => true
  | _ => false

/-- Whether a token with another one behind it is an occurrence of a variable. A name before an
opening parenthesis is that of a function. -/
def isOccurrence (x : String) : Token → Option Token → Bool
  | identifier _, some openParen => false
  | identifier name, _ => name == x
  | _, _ => false

/-- Tokens with a token in place of every occurrence of a variable. -/
def spliceAll (x : String) (t : Token) : List Token → List Token
  | [] => []
  | u :: rest => (if u.isOccurrence x rest.head? then t else u) :: spliceAll x t rest

/-- Whether at most one of two tokens is an operand. -/
def Apart (t u : Token) : Prop := t.isOperand = false ∨ u.isOperand = false

theorem Apart.isOperand_right {t u : Token} (h : t.Apart u) (ht : t.isOperand = true) :
    u.isOperand = false := h.resolve_left (by simp [ht])

theorem Apart.isOperand_left {t u : Token} (h : t.Apart u) (hu : u.isOperand = true) :
    t.isOperand = false := h.resolve_right (by simp [hu])

/-- An occurrence of a variable is its name. -/
theorem eq_of_isOccurrence {x : String} {t : Token} {next : Option Token}
    (h : t.isOccurrence x next = true) : t = identifier x := by
  unfold isOccurrence at h
  split at h
  · cases h
  · rw [eq_of_beq h]
  · cases h

/-- A name that stands before no opening parenthesis is an occurrence if it is the variable. -/
theorem isOccurrence_identifier {x name : String} {next : Option Token}
    (h : next ≠ some openParen) : (identifier name).isOccurrence x next = (name == x) := by
  cases next with
  | none => rfl
  | some u =>
    cases u with
    | openParen => exact absurd rfl h
    | _ => rfl

/-- An operand is not continued by a character that is neither in a name nor a point. -/
theorem not_continues_of_isOperand {t : Token} (ht : t.isOperand = true) {word : List Char}
    {d : Char} (hname : isNameChar d = false) (hpoint : d ≠ '.') : ¬t.Continues word d := by
  cases t with
  | number y =>
    rintro (hdigit | ⟨hd, -⟩)
    · simp [isNameChar_of_isDigit hdigit] at hname
    · exact hpoint hd
  | string s => exact not_false
  | boolean b | identifier name => simp [Continues, hname]
  | _ => cases ht

/-- A token that is no operand is continued by an equals sign at most. -/
theorem eq_of_continues {t : Token} (ht : t.isOperand = false) {word : List Char} {d : Char}
    (h : t.Continues word d) : d = '=' := by
  unfold Continues at h
  split at h
  · cases ht
  · cases ht
  · cases ht
  · exact h
  · exact h
  · exact h
  · exact absurd h not_false

/-- No operand starts with an equals sign. -/
theorem isOperand_of_read_equals {rest : List Char} {t : Token} {width : Nat}
    (h : read '=' rest = .ok (t, width)) : t.isOperand = false := by
  have hdoubled : doubled '=' (operator .equal) rest = .ok (t, width) := h
  rw [← eq_of_doubled hdoubled]
  rfl

/-- What starts with a point is an operand. -/
theorem isOperand_of_read_point {rest : List Char} {t : Token} {width : Nat}
    (h : read '.' rest = .ok (t, width)) : t.isOperand = true := by
  have hnumber : (if rest.head?.any Char.isDigit then readNumber ('.' :: rest)
      else .error (.strayCharacter '.')) = .ok (t, width) := h
  split at hnumber
  · obtain ⟨-, y, -, -, rfl⟩ := readNumber_eq_ok_iff.mp hnumber
    rfl
  · cases hnumber

/-- The text of an operand starts with no equals sign. -/
theorem Fills.head?_ne_equals {t : Token} {s : String} (h : t.Fills s)
    (ht : t.isOperand = true) : s.toList.head? ≠ some '=' := by
  obtain ⟨before, c, word, after, hbefore, -, hs, -, hread⟩ := fills_iff.mp h
  intro hhead
  rw [hs] at hhead
  cases before with
  | nil =>
    obtain rfl : c = '=' := Option.some.inj hhead
    cases ht.symm.trans (isOperand_of_read_equals hread)
  | cons b before =>
    obtain rfl : b = '=' := Option.some.inj hhead
    cases hbefore '=' List.mem_cons_self

/-- The text of an operand is read as the operand before a character that continues none. -/
theorem Fills.lexes {t : Token} {s : String} (h : t.Fills s) (ht : t.isOperand = true)
    {rest : List Char} (hrest : Closes rest) : Lexes (s.toList ++ rest) [t] rest := by
  obtain ⟨before, c, word, after, hbefore, hafter, hs, hc, hread⟩ := fills_iff.mp h
  have hword : read c (word ++ (after ++ rest)) = .ok (t, word.length + 1) := by
    refine read_append_iff.mpr ⟨hread, fun d hd => ?_⟩
    cases after with
    | nil => exact not_continues_of_isOperand ht (hrest d hd).1 (hrest d hd).2
    | cons b after =>
      obtain rfl : b = d := Option.some.inj hd
      exact not_continues_of_isBlank (hafter b List.mem_cons_self)
  have htext := (Lexes.blanks hbefore _).trans (.word hc hword (Lexes.blanks hafter rest))
  simpa only [hs, List.append_assoc, List.cons_append, List.nil_append] using htext

end Token

namespace TokenStream

/-- The characters of a stream from an offset on, with a text in place of every occurrence of a
variable. -/
def splice (x : String) (text : List Char) : TokenStream → (offset : Nat) → List Char → List Char
  | token t start stop next, offset, cs =>
    (if t.isOccurrence x next.head? then cs.take (start - offset) ++ text
      else cs.take (stop - offset)) ++ next.splice x text stop (cs.drop (stop - offset))
  | finish _, _, cs => cs
  | fault _ _, _, cs => cs

variable {x : String} {text : List Char}

/-- The next token is the first of the tokens. -/
theorem head?_tokens (st : TokenStream) : st.tokens.head? = st.head? := by cases st <;> rfl

/-- Behind blank characters the text stands in place of the first token, or this token stays. -/
theorem splice_token {t : Token} {next : TokenStream} {c : Char} {blanks word rest : List Char}
    {offset start stop : Nat} (hstart : start = offset + blanks.length)
    (hstop : stop = start + (word.length + 1)) :
    (token t start stop next).splice x text offset (blanks ++ c :: (word ++ rest)) =
      blanks ++ ((if t.isOccurrence x next.head? then text else c :: word) ++
        next.splice x text stop rest) := by
  have hbefore : start - offset = blanks.length := by omega
  have hbehind : stop - offset = (blanks ++ c :: word).length := by
    rw [List.length_append, List.length_cons]
    omega
  have hassoc : blanks ++ c :: (word ++ rest) = (blanks ++ c :: word) ++ rest := by simp
  rw [splice, hbefore, List.take_left, hbehind, hassoc, List.take_left, List.drop_left]
  split <;> simp only [List.append_assoc]

/-- The first character stays, unless the text stands there in place of the variable. -/
theorem Scans.head?_splice {offset : Nat} {cs : List Char} {st : TokenStream}
    (h : Scans offset cs st) (hne : text ≠ []) :
    (st.splice x text offset cs).head? = cs.head? ∨
      st.head? = some (.identifier x) ∧ (st.splice x text offset cs).head? = text.head? := by
  cases h with
  | finish => exact .inl rfl
  | fault => exact .inl rfl
  | @token blanks word rest c t next _ start stop _ _ _ hstart hstop _ =>
    rw [splice_token hstart hstop]
    cases blanks with
    | cons b blanks => exact .inl rfl
    | nil =>
      split
      · next hoccurs =>
        obtain ⟨b, more, rfl⟩ := List.exists_cons_of_ne_nil hne
        exact .inr ⟨congrArg some (Token.eq_of_isOccurrence hoccurs), rfl⟩
      · exact .inl rfl

/-- A text that starts with a point starts with an operand. -/
theorem Scans.exists_operand {offset : Nat} {cs : List Char} {st : TokenStream}
    (h : Scans offset cs st) (hclean : st.EndsClean) (hpoint : cs.head? = some '.') :
    ∃ t ∈ st.head?, t.isOperand = true := by
  have hblank : Text.isBlank '.' = false := rfl
  cases h with
  | finish hblanks => cases hblank.symm.trans (hblanks '.' (List.mem_of_mem_head? hpoint))
  | fault => exact absurd hclean not_false
  | @token blanks word rest c t next _ _ _ hblanks _ hread =>
    cases blanks with
    | cons b blanks =>
      obtain rfl : b = '.' := Option.some.inj hpoint
      cases hblank.symm.trans (hblanks '.' List.mem_cons_self)
    | nil =>
      obtain rfl : c = '.' := Option.some.inj hpoint
      exact ⟨t, rfl, Token.isOperand_of_read_point hread⟩

/-- With the text of an operand in place of a variable a text is read into the tokens with the
operand in place of the variable. -/
theorem Scans.lexes_splice {t : Token} {s : String} (hs : t.Fills s) (ht : t.isOperand = true)
    {offset : Nat} {cs : List Char} {st : TokenStream} (h : Scans offset cs st)
    (hclean : st.EndsClean) (hapart : st.tokens.IsChain Token.Apart) :
    Lexes (st.splice x s.toList offset cs) (Token.spliceAll x t st.tokens) [] := by
  have hne : s.toList ≠ [] := by
    obtain ⟨before, c, word, after, -, -, htext, -⟩ := Token.fills_iff.mp hs
    simp [htext]
  induction h with
  | @finish blanks offset stop hblanks hstop =>
    rw [splice, ← List.append_nil blanks]
    exact Lexes.blanks hblanks []
  | fault => exact absurd hclean not_false
  | @token blanks word rest c u next offset start stop hblanks hc hread hstart hstop hnext ih =>
    obtain ⟨hfirst, hrest⟩ := List.isChain_cons.mp hapart
    have hrest := ih hclean hrest
    obtain ⟨hword, hend⟩ := Token.read_append_iff.mp hread
    have hhead := hnext.head?_splice (x := x) hne
    rw [head?_tokens] at hfirst
    rw [splice_token hstart hstop, tokens, Token.spliceAll, head?_tokens]
    refine (Lexes.blanks hblanks _).trans ?_
    split
    · next hoccurs =>
      -- No operand follows the variable, so what follows it neither is one nor continues one.
      obtain rfl := Token.eq_of_isOccurrence hoccurs
      have hnone : ∀ v ∈ next.head?, v.isOperand = false := fun v hv =>
        (hfirst v hv).isOperand_right rfl
      have hsame := hhead.resolve_right fun h => Bool.false_ne_true (hnone _ h.1).symm
      refine (hs.lexes ht fun d hd => ?_).trans hrest
      rw [hsame] at hd
      refine ⟨by simpa [Token.Continues] using hend d hd, ?_⟩
      rintro rfl
      obtain ⟨v, hv, hoperand⟩ := hnext.exists_operand hclean hd
      cases hoperand.symm.trans (hnone v hv)
    · -- The token stays, and is continued by the text no more than by the variable.
      have hstays : Token.read c (word ++ next.splice x s.toList stop rest) =
          .ok (u, word.length + 1) := by
        refine Token.read_append_iff.mpr ⟨hword, fun d hd hcontinues => ?_⟩
        rcases hhead with hsame | ⟨hvariable, htext⟩
        · exact hend d (hsame ▸ hd) hcontinues
        · have hu : u.isOperand = false := (hfirst _ hvariable).isOperand_left rfl
          obtain rfl := Token.eq_of_continues hu hcontinues
          exact hs.head?_ne_equals ht (htext ▸ hd)
      exact .word hc hstays hrest

end TokenStream

/-- A text with the text `s` in place of every occurrence of the variable `x`. -/
def Text.splice (x s text : String) : String :=
  String.ofList ((TokenStream.ofText text).splice x s.toList 0 text.toList)

/-- With the text of an operand in place of a variable a text is read to its end into its tokens
with the operand in place of the variable. -/
theorem TokenStream.endsClean_splice {t : Token} {s text : String} (hs : t.Fills s)
    (ht : t.isOperand = true) (hclean : (ofText text).EndsClean)
    (hapart : (ofText text).tokens.IsChain Token.Apart) (x : String) :
    (ofText (Text.splice x s text)).EndsClean ∧
      (ofText (Text.splice x s text)).tokens = Token.spliceAll x t (ofText text).tokens := by
  have hlexes := (scans_ofText text).lexes_splice (x := x) hs ht hclean hapart
  apply Lexes.endsClean_ofText
  rwa [Text.splice, String.toList_ofList]

/-- The text is written neither for the name of a function, nor inside a longer name or a string. -/
example : Text.splice "x" "1" "x+x(x)*xx-'x'" = "1+x(1)*xx-'x'" := by cbv

end FormulaRules
