import FormulaRules.Proofs.Reading.Acceptance

/-!
# The tokens of a written text

A relation between the characters of a text, the tokens at its head and the rest behind
them. It is built word by word and has neither positions nor a bound, and it determines the
stream of the text.

Words that take as many characters as they can need to know what follows them. In a written
text that is a character of no word.
-/

namespace FormulaRules

/-- The tokens at the head of a text, up to a rest of it. -/
inductive Lexes : List Char → List Token → List Char → Prop
  | nil (cs : List Char) : Lexes cs [] cs
  | blank {b : Char} {cs rest : List Char} {ts : List Token} : Text.isBlank b = true →
      Lexes cs ts rest → Lexes (b :: cs) ts rest
  | word {c : Char} {w tail rest : List Char} {t : Token} {ts : List Token} :
      Text.isBlank c = false → Token.read c (w ++ tail) = .ok (t, w.length + 1) →
      Lexes tail ts rest → Lexes (c :: (w ++ tail)) (t :: ts) rest

namespace TokenStream

/-- A blank character moves the position only. -/
theorem ofChars_blank {b : Char} (h : Text.isBlank b = true) (n position : Nat) (cs : List Char) :
    ofChars (n + 1) position (b :: cs) = ofChars (n + 1) (position + 1) cs := by
  have hstart : position + ((b :: cs).takeWhile Text.isBlank).length =
      position + 1 + (cs.takeWhile Text.isBlank).length := by
    rw [List.takeWhile_cons_of_pos h, List.length_cons]
    omega
  have hskip : Text.skipBlanks (b :: cs) = Text.skipBlanks cs := List.dropWhile_cons_of_pos h
  simp only [ofChars, hstart, hskip]

/-- A word gives its token and is left behind. -/
theorem ofChars_word {c : Char} {w tail : List Char} {t : Token} (hc : Text.isBlank c = false)
    (hread : Token.read c (w ++ tail) = .ok (t, w.length + 1)) (n position : Nat) :
    ofChars (n + 1) position (c :: (w ++ tail)) =
      token t position (position + (w.length + 1)) (ofChars n (position + (w.length + 1)) tail) := by
  have hblank : ¬Text.isBlank c = true := by simp [hc]
  have hstart : position + ((c :: (w ++ tail)).takeWhile Text.isBlank).length = position := by
    rw [List.takeWhile_cons_of_neg hblank]
    rfl
  have hskip : Text.skipBlanks (c :: (w ++ tail)) = c :: (w ++ tail) :=
    List.dropWhile_cons_of_neg hblank
  have hdrop : (c :: (w ++ tail)).drop (w.length + 1) = tail := by simp
  simp only [ofChars, hstart, hskip, hread, hdrop]

/-- The end of a text is no token. -/
theorem ofChars_nil (n position : Nat) : ofChars n position [] = finish position := by
  cases n with
  | zero => rfl
  | succ n => rfl

end TokenStream

namespace Lexes

open TokenStream

/-- The rest of a text is read on. -/
theorem trans {cs mid rest : List Char} {ts us : List Token} (hts : Lexes cs ts mid)
    (hus : Lexes mid us rest) : Lexes cs (ts ++ us) rest := by
  induction hts with
  | nil => exact hus
  | blank hb _ ih => exact .blank hb (ih hus)
  | word hc hread _ ih => exact .word hc hread (ih hus)

/-- The stream of a text spans its tokens. -/
theorem spans {cs rest : List Char} {ts : List Token} (h : Lexes cs ts rest) {n : Nat}
    (hn : cs.length ≤ n) (position : Nat) :
    ∃ n' position', (ofChars n position cs).Spans ts (ofChars n' position' rest) := by
  induction h generalizing n position with
  | nil cs => exact ⟨n, position, .nil _⟩
  | blank hb _ ih =>
    rw [List.length_cons] at hn
    obtain ⟨n, rfl⟩ : ∃ m, n = m + 1 := ⟨n - 1, by omega⟩
    rw [ofChars_blank hb]
    exact ih (by omega) _
  | word hc hread _ ih =>
    rw [List.length_cons, List.length_append] at hn
    obtain ⟨n, rfl⟩ : ∃ m, n = m + 1 := ⟨n - 1, by omega⟩
    rw [ofChars_word hc hread]
    obtain ⟨n', position', hspan⟩ := ih (n := n) (by omega) (position + _)
    exact ⟨n', position', .cons hspan⟩

/-- A text that is read to its end has no fault and no other tokens. -/
theorem endsClean_ofText {s : String} {ts : List Token} (h : Lexes s.toList ts []) :
    (TokenStream.ofText s).EndsClean ∧ (TokenStream.ofText s).tokens = ts := by
  obtain ⟨n, position, hspan⟩ := h.spans (Nat.le_refl _) 0
  rw [ofChars_nil] at hspan
  exact endsClean_and_tokens_eq_iff.mpr ⟨position, hspan⟩

/-- Blank characters are no token. -/
theorem blanks {before : List Char} (h : ∀ b ∈ before, Text.isBlank b = true)
    (rest : List Char) : Lexes (before ++ rest) [] rest := by
  induction before with
  | nil => exact .nil rest
  | cons b before ih =>
    obtain ⟨hb, hbefore⟩ := List.forall_mem_cons.mp h
    exact .blank hb (ih hbefore)

/-- A character that is a token by itself is read whatever follows. -/
theorem single {c : Char} {t : Token} (hc : Text.isBlank c = false)
    (hread : ∀ rest, Token.read c rest = .ok (t, 1)) (rest : List Char) :
    Lexes (c :: rest) [t] rest :=
  .word (w := []) hc (hread rest) (.nil rest)

/-- An opening parenthesis is read whatever follows. -/
theorem openParen (rest : List Char) : Lexes ('(' :: rest) [.openParen] rest :=
  single rfl (fun _ => rfl) rest

/-- A closing parenthesis is read whatever follows. -/
theorem closeParen (rest : List Char) : Lexes (')' :: rest) [.closeParen] rest :=
  single rfl (fun _ => rfl) rest

/-- A token of one character and the blank behind it are left behind. -/
theorem spaced {c : Char} {t : Token} (hc : Text.isBlank c = false)
    (hread : ∀ rest, Token.read c rest = .ok (t, 1)) (rest : List Char) :
    Lexes (c :: ' ' :: rest) [t] rest :=
  (single hc hread (' ' :: rest)).trans (.blank rfl (.nil rest))

/-- An operator is read if a blank follows. -/
theorem operator (op : Operator) (rest : List Char) :
    Lexes (op.symbol.toList ++ ' ' :: rest) [.operator op] rest := by
  have hrest : Lexes (' ' :: rest) [] rest := .blank rfl (.nil rest)
  cases op with
  | add | subtract | multiply | divide | modulo | less | greater =>
    exact .word (w := []) rfl rfl hrest
  | equal | notEqual | lessOrEqual | greaterOrEqual => exact .word (w := ['=']) rfl rfl hrest
  | and => exact .word (w := ['&']) rfl rfl hrest
  | or => exact .word (w := ['|']) rfl rfl hrest

end Lexes

end FormulaRules
