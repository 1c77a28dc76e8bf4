import FormulaRules.Proofs.Reading.Complete

/-!
# The beginnings of phrases

Tokens begin a phrase if more tokens can be found that complete them. A beginning of a part is
one of the whole, with the tokens of the parts before it: what is still missing is added with
zeros and closing parentheses.

No limit of nesting or height is looked at.
-/

namespace FormulaRules

/-- A primary phrase is a phrase of every symbol. -/
theorem Derives.of_primary {p : Phrase} (h : Derives .primary p) (s : Symbol) : Derives s p :=
  h.loosen (by cases s <;> decide)

/-- Whether some tokens are the first ones of a phrase of a symbol. -/
def Symbol.Begins (s : Symbol) (ts : List Token) : Prop :=
  ∃ p, Derives s p ∧ ts <+: p.tokens

namespace Symbol.Begins

variable {s : Symbol} {ts : List Token}

/-- No tokens begin a phrase of every symbol. -/
theorem nil (s : Symbol) : s.Begins [] :=
  ⟨.number 0, (Derives.number 0).of_primary s, List.nil_prefix⟩

/-- The tokens of a phrase begin a phrase. -/
theorem of_derives {p : Phrase} (h : Derives s p) : s.Begins p.tokens :=
  ⟨p, h, List.prefix_rfl⟩

/-- An operand begins the whole. -/
theorem tighter (s : Symbol) {ts : List Token} (h : s.operand.Begins ts) : s.Begins ts := by
  obtain ⟨p, hp, hts⟩ := h
  exact ⟨p, .tighter hp, hts⟩

/-- Another operand may begin behind an operator of the symbol. -/
theorem binary {op : Operator} {left : Phrase} (hop : op ∈ s.operators) (hleft : Derives s left)
    (h : s.operand.Begins ts) : s.Begins (left.tokens ++ [.operator op] ++ ts) := by
  obtain ⟨q, hq, hts⟩ := h
  exact ⟨.binary op left q, .binary hop hleft hq, by simpa [Phrase.tokens] using hts⟩

/-- A branch may begin behind a condition and a question mark. -/
theorem onTrue {c : Phrase} (hc : Derives .disjunction c) (h : expression.Begins ts) :
    expression.Begins (c.tokens ++ [.question] ++ ts) := by
  obtain ⟨a, ha, hts⟩ := h
  refine ⟨.conditional c a (.number 0), .conditional hc ha ((Derives.number 0).of_primary _), ?_⟩
  have hfirst : ts <+: a.tokens ++ .colon :: (Phrase.number 0).tokens :=
    hts.trans (List.prefix_append _ _)
  simpa [Phrase.tokens] using hfirst

/-- The other branch may begin behind the first one and a colon. -/
theorem onFalse {c a : Phrase} (hc : Derives .disjunction c) (ha : Derives .expression a)
    (h : expression.Begins ts) :
    expression.Begins (c.tokens ++ [.question] ++ (a.tokens ++ [.colon]) ++ ts) := by
  obtain ⟨b, hb, hts⟩ := h
  exact ⟨.conditional c a b, .conditional hc ha hb, by simpa [Phrase.tokens] using hts⟩

/-- An operand may begin behind a sign. -/
theorem signed (sign : Expr.Reading.Sign) (h : Begins .signed ts) :
    Begins .signed (sign.token :: ts) := by
  obtain ⟨p, hp, hts⟩ := h
  exact ⟨.signed sign p, .signed sign hp, by simpa [Phrase.tokens] using hts⟩

/-- An expression may begin behind an opening parenthesis. -/
theorem parenthesized (h : expression.Begins ts) : primary.Begins (.openParen :: ts) := by
  obtain ⟨p, hp, hts⟩ := h
  refine ⟨.parenthesized p, .parenthesized hp, ?_⟩
  have hfirst : ts <+: p.tokens ++ [.closeParen] := hts.trans (List.prefix_append _ _)
  simpa [Phrase.tokens] using hfirst

end Symbol.Begins

/-- Whether some tokens are the first ones of a list of arguments. -/
def BeginsArguments (ts : List Token) : Prop :=
  ∃ arg args, (∀ p ∈ arg :: args, Derives .expression p) ∧
    ts <+: arg.tokens ++ Phrase.tokensRest args

namespace BeginsArguments

variable {ts : List Token}

/-- An expression begins a list of arguments. -/
theorem first (h : Symbol.expression.Begins ts) : BeginsArguments ts := by
  obtain ⟨p, hp, hts⟩ := h
  exact ⟨p, [], List.forall_mem_singleton.mpr hp, hts.trans (List.prefix_append _ _)⟩

/-- Further arguments may begin behind an argument and a comma. -/
theorem more {arg : Phrase} (harg : Derives .expression arg) (h : BeginsArguments ts) :
    BeginsArguments (arg.tokens ++ [.comma] ++ ts) := by
  obtain ⟨next, args, hargs, hts⟩ := h
  refine ⟨arg, next :: args, List.forall_mem_cons.mpr ⟨harg, hargs⟩, ?_⟩
  simpa [Phrase.tokensRest] using hts

/-- Arguments may begin behind a name and an opening parenthesis. -/
theorem call (name : String) (h : BeginsArguments ts) :
    Symbol.primary.Begins ([.identifier name, .openParen] ++ ts) := by
  obtain ⟨arg, args, hargs, hts⟩ := h
  refine ⟨.call name (arg :: args), .call name hargs, ?_⟩
  have hfirst : ts <+: arg.tokens ++ Phrase.tokensRest args ++ [.closeParen] :=
    hts.trans (List.prefix_append _ _)
  simpa [Phrase.tokens] using hfirst

end BeginsArguments

end FormulaRules
