import FormulaRules.Proofs.Grammar.Elaboration
import FormulaRules.Proofs.Number.Signs
import FormulaRules.Proofs.Token.Splice

/-!
# Writing a literal in place of a variable

A literal in place of a variable keeps a phrase in the grammar and its levels, and does not make its
tree higher. Its tokens are the former ones with the literal in place of the variable, so its text
is the former one with the text of the literal in these places.

The tree may become lower, because signs before a number literal are worked out when the tree is
built: a literal behind signs is one literal, with the opposite sign for an odd number of minuses.
-/

namespace FormulaRules

open Expr.Reading (Sign)

namespace Number

/-- A number behind a count of minuses. -/
def negated (count : Nat) (n : Float) : Float := if count % 2 = 0 then n else -n

/-- A further minus turns the sign. -/
theorem neg_negated (count : Nat) (n : Float) : -negated count n = negated (count + 1) n := by
  rcases Nat.mod_two_eq_zero_or_one count with heven | hodd
  · rw [negated, negated, if_pos heven, if_neg (by omega)]
  · rw [negated, negated, if_neg (by omega), if_pos (by omega), neg_neg]

/-- Minuses keep a number finite. -/
theorem isFinite_negated (count : Nat) (n : Float) : (negated count n).isFinite = n.isFinite := by
  rw [negated]
  split
  · rfl
  · exact isFinite_neg n

/-- Minuses make no number zero. -/
theorem negated_beq_zero (count : Nat) (n : Float) : (negated count n == 0) = (n == 0) := by
  rw [negated]
  split
  · rfl
  · exact neg_beq_zero n

end Number

namespace Phrase

/-- The literal of a value as a phrase. -/
def ofValue : Value → Phrase
  | .number x => number x
  | .boolean b => boolean b
  | .string s => string s

mutual

/-- A phrase with a literal in place of a variable. -/
def replace (x : String) (v : Value) : Phrase → Phrase
  | number y => number y
  | string s => string s
  | boolean b => boolean b
  | var name => if name = x then ofValue v else var name
  | call name args => call name (replaceAll x v args)
  | parenthesized p => parenthesized (p.replace x v)
  | signed sign p => signed sign (p.replace x v)
  | binary op a b => binary op (a.replace x v) (b.replace x v)
  | conditional c a b => conditional (c.replace x v) (a.replace x v) (b.replace x v)

/-- A list of phrases with a literal in place of a variable. -/
def replaceAll (x : String) (v : Value) : List Phrase → List Phrase
  | [] => []
  | p :: rest => p.replace x v :: replaceAll x v rest

end

/-- Whether a phrase is a variable in any parentheses and behind any signs of numbers. -/
def isBare (x : String) : Phrase → Bool
  | var name => name == x
  | parenthesized p => p.isBare x
  | signed .minus p | signed .plus p => p.isBare x
  | _ => false

/-- The number of minuses before an operand, with only parentheses and signs between them. -/
def minuses : Phrase → Nat
  | parenthesized p => p.minuses
  | signed .minus p => p.minuses + 1
  | signed .plus p => p.minuses
  | _ => 0

mutual

/-- Whether an odd number of minuses stands before a variable, with only parentheses and signs of
numbers between them. -/
def negates (x : String) : Phrase → Bool
  | number _ | string _ | boolean _ | var _ => false
  | call _ args => negatesAny x args
  | parenthesized p => p.negates x
  | signed sign p =>
    if (signed sign p).isBare x then (signed sign p).minuses % 2 == 1 else p.negates x
  | binary _ a b => a.negates x || b.negates x
  | conditional c a b => c.negates x || a.negates x || b.negates x

/-- Whether an odd number of minuses stands before a variable in a list of phrases. -/
def negatesAny (x : String) : List Phrase → Bool
  | [] => false
  | p :: rest => p.negates x || negatesAny x rest

end

variable {x : String} {v : Value}

/-- The literal of a value is a primary phrase. -/
theorem derives_ofValue (v : Value) : Derives .primary (ofValue v) := by
  cases v with
  | number y => exact .number y
  | boolean b => exact .boolean b
  | string s => exact .string s

/-- The tree of a literal is its value. -/
theorem tree_ofValue (v : Value) : (ofValue v).tree = .literal v := by cases v <;> rfl

/-- A literal opens no level. -/
theorem levels_ofValue (v : Value) : (ofValue v).levels = 0 := by cases v <;> rfl

/-- The arguments of a call are replaced one by one. -/
theorem mem_replaceAll {p : Phrase} {args : List Phrase} (h : p ∈ replaceAll x v args) :
    ∃ arg ∈ args, arg.replace x v = p := by
  induction args with
  | nil => cases h
  | cons arg rest ih =>
    rcases List.mem_cons.mp h with rfl | hrest
    · exact ⟨arg, List.mem_cons_self, rfl⟩
    · obtain ⟨arg', harg, hp⟩ := ih hrest
      exact ⟨arg', List.mem_cons_of_mem _ harg, hp⟩

/-- A phrase stays a phrase of its symbol. -/
theorem derives_replace {s : Symbol} {p : Phrase} (h : Derives s p) :
    Derives s (p.replace x v) := by
  induction h with
  | conditional _ _ _ ihc iha ihb => exact .conditional ihc iha ihb
  | binary hop _ _ iha ihb => exact .binary hop iha ihb
  | signed sign _ ih => exact .signed sign ih
  | number y => exact .number y
  | string s => exact .string s
  | boolean b => exact .boolean b
  | var name =>
    rw [replace]
    split
    · exact derives_ofValue v
    · exact .var name
  | call name _ ih =>
    refine .call name fun p hp => ?_
    obtain ⟨arg, harg, rfl⟩ := mem_replaceAll hp
    exact ih arg harg
  | parenthesized _ ih => exact .parenthesized ih
  | tighter _ ih => exact .tighter ih

mutual

/-- A phrase keeps its levels. -/
theorem levels_replace (p : Phrase) : (p.replace x v).levels = p.levels := by
  cases p with
  | number | string | boolean => rfl
  | var name =>
    rw [replace]
    split
    · exact levels_ofValue v
    · rfl
  | call name args => exact levelsAll_replaceAll args
  | parenthesized p | signed _ p => simp only [replace, levels, levels_replace p]
  | binary _ a b => simp only [replace, levels, levels_replace a, levels_replace b]
  | conditional c a b =>
    simp only [replace, levels, levels_replace c, levels_replace a, levels_replace b]

/-- A list of phrases keeps its levels. -/
theorem levelsAll_replaceAll (ps : List Phrase) : levelsAll (replaceAll x v ps) = levelsAll ps := by
  cases ps with
  | nil => rfl
  | cons p rest => simp only [replaceAll, levelsAll, levels_replace p, levelsAll_replaceAll rest]

end

/-- A token that is no operand keeps its neighbours apart. -/
theorem isChain_apart {ts us : List Token} {t : Token} (ht : t.isOperand = false)
    (hts : ts.IsChain Token.Apart) (hus : us.IsChain Token.Apart) :
    (ts ++ t :: us).IsChain Token.Apart := by
  refine List.isChain_append.mpr ⟨hts, List.isChain_cons.mpr ⟨fun u _ => .inl ht, hus⟩, ?_⟩
  rintro u - _ ⟨⟩
  exact .inr ht

/-- The token of a sign is no operand. -/
theorem isOperand_token (sign : Sign) : sign.token.isOperand = false := by cases sign <;> rfl

mutual

/-- No two operands of a phrase follow each other. -/
theorem isChain_tokens (p : Phrase) : p.tokens.IsChain Token.Apart := by
  cases p with
  | number | string | boolean | var => exact .singleton _
  | call name args =>
    have hname : [Token.identifier name].IsChain Token.Apart := .singleton _
    cases args with
    | nil => exact isChain_apart rfl hname (.singleton _)
    | cons arg args =>
      have hargs := isChain_tokensRest (isChain_tokens arg) args
      exact isChain_apart rfl hname (isChain_apart rfl hargs .nil)
  | parenthesized p => exact isChain_apart rfl .nil (isChain_apart rfl (isChain_tokens p) .nil)
  | signed sign p => exact isChain_apart (isOperand_token sign) .nil (isChain_tokens p)
  | binary op a b => exact isChain_apart rfl (isChain_tokens a) (isChain_tokens b)
  | conditional c a b =>
    exact isChain_apart rfl (isChain_tokens c)
      (isChain_apart rfl (isChain_tokens a) (isChain_tokens b))

/-- Nor do two operands among further arguments, each of which follows a comma. -/
theorem isChain_tokensRest {ts : List Token} (hts : ts.IsChain Token.Apart) (args : List Phrase) :
    (ts ++ tokensRest args).IsChain Token.Apart := by
  cases args with
  | nil => simpa [tokensRest] using hts
  | cons arg args => exact isChain_apart rfl hts (isChain_tokensRest (isChain_tokens arg) args)

end

/-- A token that is no operand is no variable. -/
theorem spliceAll_cons {t u : Token} (hu : u.isOperand = false) (rest : List Token) :
    Token.spliceAll x t (u :: rest) = u :: Token.spliceAll x t rest := by
  have hstays : ¬u.isOccurrence x rest.head? = true := fun h => by
    rw [Token.eq_of_isOccurrence h] at hu
    cases hu
  rw [Token.spliceAll, if_neg hstays]

/-- Further arguments start with no opening parenthesis. -/
theorem head?_tokensRest_append {args : List Phrase} {rest : List Token}
    (hrest : rest.head? ≠ some .openParen) :
    (tokensRest args ++ rest).head? ≠ some .openParen := by
  cases args with
  | nil => exact hrest
  | cons arg args => exact nofun

mutual

/-- The tokens of a phrase before others have the token of the literal in place of the variable. -/
theorem spliceAll_tokens {t : Token} (ht : (ofValue v).tokens = [t]) (p : Phrase)
    {rest : List Token} (hrest : rest.head? ≠ some .openParen) :
    Token.spliceAll x t (p.tokens ++ rest) =
      (p.replace x v).tokens ++ Token.spliceAll x t rest := by
  cases p with
  | number | string | boolean => rfl
  | var name =>
    have hoccurs : (Token.identifier name).isOccurrence x rest.head? = (name == x) :=
      Token.isOccurrence_identifier hrest
    rw [tokens, List.singleton_append, Token.spliceAll, hoccurs, replace]
    by_cases hname : name = x
    · rw [if_pos (beq_iff_eq.mpr hname), if_pos hname, ht]
      rfl
    · rw [if_neg (mt beq_iff_eq.mp hname), if_neg hname]
      rfl
  | call name args =>
    cases args with
    | nil => rfl
    | cons arg args =>
      have hend : (Token.closeParen :: rest).head? ≠ some .openParen := nofun
      have htokens : (call name (arg :: args)).tokens ++ rest =
          .identifier name :: .openParen ::
            (arg.tokens ++ (tokensRest args ++ .closeParen :: rest)) := by
        simp [tokens]
      have hcall (us : List Token) : Token.spliceAll x t (.identifier name :: .openParen :: us) =
          .identifier name :: .openParen :: Token.spliceAll x t us := rfl
      rw [htokens, hcall, spliceAll_tokens ht arg (head?_tokensRest_append hend),
        spliceAll_tokensRest ht args hend, spliceAll_cons rfl]
      simp [replace, replaceAll, tokens]
  | parenthesized p =>
    have hend : (Token.closeParen :: rest).head? ≠ some .openParen := nofun
    have htokens : (parenthesized p).tokens ++ rest =
        .openParen :: (p.tokens ++ .closeParen :: rest) := by
      simp [tokens]
    rw [htokens, spliceAll_cons rfl, spliceAll_tokens ht p hend, spliceAll_cons rfl]
    simp [replace, tokens]
  | signed sign p =>
    have htokens : (signed sign p).tokens ++ rest = sign.token :: (p.tokens ++ rest) := rfl
    rw [htokens, spliceAll_cons (isOperand_token sign), spliceAll_tokens ht p hrest]
    rfl
  | binary op a b =>
    have hop : (Token.operator op :: (b.tokens ++ rest)).head? ≠ some .openParen := nofun
    have htokens : (binary op a b).tokens ++ rest =
        a.tokens ++ .operator op :: (b.tokens ++ rest) := by
      simp [tokens]
    rw [htokens, spliceAll_tokens ht a hop, spliceAll_cons rfl, spliceAll_tokens ht b hrest]
    simp [replace, tokens]
  | conditional c a b =>
    have hcolon : (Token.colon :: (b.tokens ++ rest)).head? ≠ some .openParen := nofun
    have hquestion : (Token.question :: (a.tokens ++ Token.colon :: (b.tokens ++ rest))).head? ≠
      some .openParen := nofun
    have htokens : (conditional c a b).tokens ++ rest =
        c.tokens ++ .question :: (a.tokens ++ .colon :: (b.tokens ++ rest)) := by
      simp [tokens]
    rw [htokens, spliceAll_tokens ht c hquestion, spliceAll_cons rfl, spliceAll_tokens ht a hcolon,
      spliceAll_cons rfl, spliceAll_tokens ht b hrest]
    simp [replace, tokens]

/-- The tokens of further arguments have the token of the literal in place of the variable. -/
theorem spliceAll_tokensRest {t : Token} (ht : (ofValue v).tokens = [t]) (args : List Phrase)
    {rest : List Token} (hrest : rest.head? ≠ some .openParen) :
    Token.spliceAll x t (tokensRest args ++ rest) =
      tokensRest (replaceAll x v args) ++ Token.spliceAll x t rest := by
  cases args with
  | nil => rfl
  | cons arg args =>
    have htokens : tokensRest (arg :: args) ++ rest =
        .comma :: (arg.tokens ++ (tokensRest args ++ rest)) := by
      simp [tokensRest]
    rw [htokens, spliceAll_cons rfl, spliceAll_tokens ht arg (head?_tokensRest_append hrest),
      spliceAll_tokensRest ht args hrest]
    simp [replaceAll, tokensRest]

end

/-- A phrase with a literal in place of a variable has the token of the literal in these places. -/
theorem tokens_replace {t : Token} (ht : (ofValue v).tokens = [t]) (p : Phrase) :
    Token.spliceAll x t p.tokens = (p.replace x v).tokens := by
  have hend : ([] : List Token).head? ≠ some .openParen := nofun
  simpa only [List.append_nil, Token.spliceAll] using spliceAll_tokens ht p hend

end Phrase

namespace Expr.Reading.Sign

/-- The number that a sign makes of a number literal, if it is a sign of numbers. -/
def number? : Sign → Float → Option Float
  | minus, y => some (-y)
  | plus, y => some y
  | negation, _ => none

/-- A sign of numbers before anything but a number literal is its operator with zero before it. -/
theorem tree_of_operator (sign : Sign) {op : Operator} (hop : sign.token = .operator op) {e : Expr}
    (h : ∀ y, e ≠ .number y) : sign.tree e = .binary op (.number 0) e := by
  unfold tree
  split
  · exact absurd rfl (h _)
  · exact absurd rfl (h _)
  · cases hop
    rfl
  · cases hop
    rfl
  · cases hop

/-- A sign gives a number literal exactly before one. -/
theorem tree_eq_number_iff {sign : Sign} {e : Expr} {y : Float} :
    sign.tree e = .number y ↔ ∃ z, e = .number z ∧ sign.number? z = some y := by
  constructor
  · intro h
    unfold tree at h
    split at h
    · cases h
      exact ⟨_, rfl, rfl⟩
    · cases h
      exact ⟨_, rfl, rfl⟩
    all_goals cases h
  · rintro ⟨z, rfl, h⟩
    cases sign <;> cases h <;> rfl

/-- A tree stays at most as high under a sign, if a number literal stays as it is. -/
theorem height_tree_mono {sign : Sign} {e e' : Expr} (hheight : e'.height ≤ e.height)
    (hliteral : ∀ y, e = .number y → e' = .number y) :
    (sign.tree e').height ≤ (sign.tree e).height := by
  by_cases hnumber : ∃ y, e = .number y
  · obtain ⟨y, hy⟩ := hnumber
    rw [hliteral y hy, hy]
  · have hlower : e.height + 1 ≤ (sign.tree e).height := by
      cases sign with
      | minus | plus =>
        rw [tree_of_operator _ rfl (not_exists.mp hnumber)]
        simp [Expr.height]
      | negation => simp [tree, Expr.height, Expr.heightAll]
    exact (sign.height_tree_le e').trans ((Nat.succ_le_succ hheight).trans hlower)

end Expr.Reading.Sign

namespace Phrase

variable {x : String} {v : Value}

/-- A number literal stays as it is. -/
theorem tree_replace_of_number {p : Phrase} {y : Float} (h : p.tree = .number y) :
    (p.replace x v).tree = .number y := by
  cases p with
  | number | string | boolean => exact h
  | var | call | binary | conditional => cases h
  | parenthesized p => exact tree_replace_of_number (p := p) h
  | signed sign p =>
    obtain ⟨z, hz, hsign⟩ := Sign.tree_eq_number_iff.mp h
    exact Sign.tree_eq_number_iff.mpr ⟨z, tree_replace_of_number hz, hsign⟩

/-- A sign before a variable and its signs is a minus or a plus. -/
theorem isBare_of_signed {sign : Sign} {p : Phrase} (h : (signed sign p).isBare x = true) :
    p.isBare x = true ∧ (sign = .minus ∧ (signed sign p).minuses = p.minuses + 1 ∨
      sign = .plus ∧ (signed sign p).minuses = p.minuses) := by
  cases sign with
  | minus => exact ⟨h, .inl ⟨rfl, rfl⟩⟩
  | plus => exact ⟨h, .inr ⟨rfl, rfl⟩⟩
  | negation => cases h

/-- Induction on the parentheses and signs around a variable. -/
theorem isBare_induction {motive : (p : Phrase) → p.isBare x = true → Prop}
    (var : motive (.var x) (beq_self_eq_true x))
    (parenthesized : ∀ p (h : p.isBare x = true), motive p h → motive (.parenthesized p) h)
    (signed : ∀ sign p (h : (Phrase.signed sign p).isBare x = true) (hp : p.isBare x = true),
      motive p hp → motive (.signed sign p) h)
    (p : Phrase) (h : p.isBare x = true) : motive p h := by
  cases p with
  | var name =>
    obtain rfl : name = x := beq_iff_eq.mp h
    exact var
  | parenthesized p => exact parenthesized p h (isBare_induction var parenthesized signed p h)
  | signed sign p =>
    have hp := (isBare_of_signed h).1
    exact signed sign p h hp (isBare_induction var parenthesized signed p hp)
  | _ => cases h

/-- The minuses before a variable behind signs are counted. -/
theorem negates_of_isBare {p : Phrase} (h : p.isBare x = true) :
    p.negates x = (p.minuses % 2 == 1) := by
  induction p, h using isBare_induction with
  | var => rfl
  | parenthesized p _ ih => exact ih
  | signed sign p h => rw [negates, if_pos h]

/-- A variable behind signs is no number literal. -/
theorem tree_ne_number_of_isBare {p : Phrase} (h : p.isBare x = true) (y : Float) :
    p.tree ≠ .number y := by
  induction p, h using isBare_induction generalizing y with
  | var => nofun
  | parenthesized p _ ih => exact ih y
  | signed sign p _ _ ih =>
    intro htree
    obtain ⟨z, hz, -⟩ := Sign.tree_eq_number_iff.mp htree
    exact ih z hz

/-- A number in place of a variable behind signs makes one literal, with the opposite sign for an
odd number of minuses. -/
theorem tree_replace_of_isBare {n : Float} {p : Phrase} (h : p.isBare x = true) :
    (p.replace x (.number n)).tree = .number (Number.negated p.minuses n) := by
  induction p, h using isBare_induction with
  | var =>
    rw [replace, if_pos rfl]
    rfl
  | parenthesized p _ ih => exact ih
  | signed sign p h _ ih =>
    rw [replace, tree, ih]
    rcases (isBare_of_signed h).2 with ⟨rfl, hminuses⟩ | ⟨rfl, hminuses⟩
    · rw [hminuses, ← Number.neg_negated]
      rfl
    · rw [hminuses]
      rfl

/-- A number literal was one before, or a number is written in place of a variable behind signs. -/
theorem tree_of_replace_eq_number {p : Phrase} {y : Float}
    (h : (p.replace x v).tree = .number y) :
    p.tree = .number y ∨ p.isBare x = true ∧ ∃ n, v = .number n := by
  cases p with
  | number | string | boolean => exact .inl h
  | call | binary | conditional => cases h
  | var name =>
    rw [replace] at h
    split at h
    · next hname =>
      rw [tree_ofValue] at h
      exact .inr ⟨beq_iff_eq.mpr hname, y, Expr.literal.inj h⟩
    · cases h
  | parenthesized p => exact tree_of_replace_eq_number (p := p) h
  | signed sign p =>
    obtain ⟨w, hw, hsign⟩ := Sign.tree_eq_number_iff.mp h
    rcases tree_of_replace_eq_number hw with hsame | ⟨hbare, hnumber⟩
    · exact .inl (Sign.tree_eq_number_iff.mpr ⟨w, hsame, hsign⟩)
    · cases sign with
      | minus | plus => exact .inr ⟨hbare, hnumber⟩
      | negation => cases hsign

mutual

/-- A tree does not become higher. -/
theorem height_replace_le (p : Phrase) : (p.replace x v).tree.height ≤ p.tree.height := by
  cases p with
  | number | string | boolean => exact Nat.le_refl _
  | var name =>
    rw [replace]
    split
    · rw [tree_ofValue]
      exact Nat.le_refl _
    · exact Nat.le_refl _
  | call name args => exact Nat.succ_le_succ (heightAll_replaceAll_le args)
  | parenthesized p => exact height_replace_le p
  | signed sign p =>
    exact Sign.height_tree_mono (height_replace_le p) fun y => tree_replace_of_number
  | binary op a b =>
    have ha := height_replace_le a
    have hb := height_replace_le b
    simp only [replace, tree, Expr.height]
    omega
  | conditional c a b =>
    have hc := height_replace_le c
    have ha := height_replace_le a
    have hb := height_replace_le b
    simp only [replace, tree, Expr.height]
    omega

/-- No tree in a list becomes higher. -/
theorem heightAll_replaceAll_le (ps : List Phrase) :
    Expr.heightAll (trees (replaceAll x v ps)) ≤ Expr.heightAll (trees ps) := by
  cases ps with
  | nil => exact Nat.le_refl _
  | cons p rest =>
    have hp := height_replace_le p
    have hrest := heightAll_replaceAll_le rest
    simp only [replaceAll, trees, Expr.heightAll]
    omega

end

end Phrase

end FormulaRules
