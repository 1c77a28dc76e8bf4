import FormulaRules.Proofs.Grammar.Elaboration
import FormulaRules.Proofs.Number.Written
import FormulaRules.Proofs.Token.Words

/-!
# The phrase of a canonical text

The canonical text of a tree has the tokens of a phrase of the grammar. The levels of the phrase
are counted on the tree, where every node with children and every minus before a number adds
one. A branch of a conditional adds one more.

Under a budget the phrase is elaborated to the tree it was made from, or it is nested too
deep. It is never too high, as a tree is hardly higher than it is nested.
-/

namespace FormulaRules

open Expr.Reading (Sign)

namespace Expr

mutual

/-- The levels of the canonical text of a tree, the whole text not included. -/
def nesting : Expr → Nat
  | literal (.number x) => if Number.isNegative x then 1 else 0
  | literal _ => 0
  | var _ => 0
  | binary _ a b => max a.nesting b.nesting + 1
  | conditional c a b => max c.nesting (max (a.nesting + 1) (b.nesting + 1)) + 1
  | call _ args => nestingAll args

/-- The levels of the arguments of a call. -/
def nestingAll : List Expr → Nat
  | [] => 0
  | e :: rest => max (e.nesting + 1) (nestingAll rest)

end

mutual

/-- Whether a tree has a text: its numbers are finite and its names are names. -/
def writable : Expr → Bool
  | literal v => v.isFinite
  | var name => Token.isName name
  | binary _ a b => a.writable && b.writable
  | conditional c a b => c.writable && a.writable && b.writable
  | call name args => Token.isName name && writableAll args

/-- Whether all trees of a list have a text. -/
def writableAll : List Expr → Bool
  | [] => true
  | e :: rest => e.writable && writableAll rest

end

mutual

/-- The phrase whose tokens are in the canonical text of a tree. -/
def phrase : Expr → Phrase
  | literal (.number x) =>
    if Number.isNegative x then .signed .minus (.number (-x)) else .number x
  | literal (.boolean b) => .boolean b
  | literal (.string s) => .string s
  | var name => .var name
  | binary op a b => .parenthesized (.binary op a.phrase b.phrase)
  | conditional c a b => .parenthesized (.conditional c.phrase a.phrase b.phrase)
  | call name args => .call name (phrases args)

/-- The phrases of a list of trees. -/
def phrases : List Expr → List Phrase
  | [] => []
  | e :: rest => e.phrase :: phrases rest

end

mutual

/-- A tree is at most one higher than its text is nested. -/
theorem height_le_nesting (e : Expr) : e.height ≤ e.nesting + 1 := by
  cases e with
  | literal v => simp [height]
  | var name => simp [height]
  | binary op a b =>
    have ha := height_le_nesting a
    have hb := height_le_nesting b
    simp only [height, nesting]
    omega
  | conditional c a b =>
    have hc := height_le_nesting c
    have ha := height_le_nesting a
    have hb := height_le_nesting b
    simp only [height, nesting]
    omega
  | call name args =>
    have hargs := heightAll_le_nestingAll args
    simp only [height, nesting]
    omega

/-- Arguments are at most as high as their text is nested. -/
theorem heightAll_le_nestingAll (es : List Expr) : heightAll es ≤ nestingAll es := by
  cases es with
  | nil => simp [heightAll]
  | cons e rest =>
    have he := height_le_nesting e
    have hrest := heightAll_le_nestingAll rest
    simp only [heightAll, nestingAll]
    omega

end

end Expr

namespace Expr

mutual

/-- The phrase of a tree is one of the grammar. -/
theorem derives_phrase (e : Expr) : Derives .signed e.phrase := by
  cases e with
  | literal v =>
    cases v with
    | number x =>
      rw [phrase]
      split
      · exact .signed .minus (.tighter (.number (-x)))
      · exact .tighter (.number x)
    | boolean b => exact .tighter (.boolean b)
    | string s => exact .tighter (.string s)
  | var name => exact .tighter (.var name)
  | binary op a b =>
    obtain ⟨s, hop, hs⟩ : ∃ s : Symbol, op ∈ s.operators ∧ s.operand.rank ≤ Symbol.signed.rank := by
      cases op with
      | add | subtract => exact ⟨.sum, by decide⟩
      | multiply | divide | modulo => exact ⟨.product, by decide⟩
      | equal | notEqual => exact ⟨.equality, by decide⟩
      | less | lessOrEqual | greater | greaterOrEqual => exact ⟨.relation, by decide⟩
      | and => exact ⟨.conjunction, by decide⟩
      | or => exact ⟨.disjunction, by decide⟩
    have ha := (derives_phrase a).loosen (Nat.le_trans s.rank_le_rank_operand hs)
    have hb := (derives_phrase b).loosen hs
    exact .tighter (.parenthesized ((Derives.binary hop ha hb).loosen (Nat.zero_le _)))
  | conditional c a b =>
    have hc := (derives_phrase c).loosen (s := .disjunction) (by decide)
    have ha := (derives_phrase a).loosen (s := .expression) (by decide)
    have hb := (derives_phrase b).loosen (s := .expression) (by decide)
    exact .tighter (.parenthesized (.conditional hc ha hb))
  | call name args => exact .tighter (.call name (derives_phrases args))

/-- The phrases of arguments are phrases of the grammar. -/
theorem derives_phrases (es : List Expr) : ∀ p ∈ phrases es, Derives .expression p := by
  cases es with
  | nil => exact fun p hp => absurd hp List.not_mem_nil
  | cons e rest =>
    rintro p (_ | ⟨_, hp⟩)
    · exact (derives_phrase e).loosen (by decide)
    · exact derives_phrases rest p hp

end

/-- The outcome under a budget of something that needs a number of levels. -/
def afforded {α : Type} (levels budget : Nat) (a : α) : Except SyntaxCause α :=
  if levels ≤ budget then .ok a else .error .nestedTooDeep

/-- Going deeper needs one level more. -/
theorem deeper_afforded {α : Type} {f : Nat → Except SyntaxCause α} {levels budget : Nat} {a : α}
    (h : ∀ inner < budget, f inner = afforded levels inner a) :
    deeper f budget = afforded (levels + 1) budget a := by
  cases budget with
  | zero => rfl
  | succ inner => simp only [deeper, h inner (Nat.lt_succ_self inner), afforded, Nat.add_le_add_iff_right]

/-- Two things in a row need the levels of both. -/
theorem afforded_bind {α β : Type} {f : α → Except SyntaxCause β} {m n budget : Nat} {a : α} {b : β}
    (h : m ≤ budget → f a = afforded n budget b) :
    afforded m budget a >>= f = afforded (max m n) budget b := by
  by_cases hm : m ≤ budget
  · simp only [afforded, hm, Nat.max_le, true_and, if_true, bind, Except.bind]
    exact h hm
  · simp [afforded, hm, bind, Except.bind]

/-- What comes last may need no levels. -/
theorem afforded_bind_ok {α β : Type} {f : α → Except SyntaxCause β} {n budget : Nat} {a : α}
    {b : β} (h : n ≤ budget → f a = .ok b) :
    afforded n budget a >>= f = afforded n budget b := by
  by_cases hn : n ≤ budget
  · simp only [afforded, hn, if_true, bind, Except.bind]
    exact h hn
  · simp [afforded, hn, bind, Except.bind]

/-- A tree within a budget is not too high. -/
theorem bounded_of_nesting {e : Expr} {budget : Nat} (h : budget < maxHeight)
    (he : e.nesting ≤ budget) : e.bounded = .ok e := by
  have hheight := height_le_nesting e
  exact bounded_eq_ok_iff.mpr ⟨by omega, rfl⟩

mutual

/-- A tree is elaborated from its phrase exactly under a budget of its levels. -/
theorem elaborate_phrase (e : Expr) (budget : Nat) (h : budget < maxHeight) :
    e.phrase.elaborate budget = afforded e.nesting budget e := by
  cases e with
  | literal v =>
    cases v with
    | number x =>
      cases hx : Number.isNegative x with
      | false => simp [phrase, nesting, hx, Phrase.elaborate, afforded]
      | true =>
        have hoperand : deeper (Phrase.number (-x)).elaborate budget =
            afforded 1 budget (number (-x)) :=
          deeper_afforded fun inner _ => by simp [Phrase.elaborate, afforded]
        have htree : Sign.minus.tree (number (-x)) = number x :=
          congrArg Expr.number (Number.neg_neg x)
        rw [phrase, if_pos hx, nesting, if_pos hx, Phrase.elaborate, hoperand]
        refine afforded_bind_ok fun hbudget => ?_
        rw [htree]
        exact bounded_of_nesting h (by rwa [nesting, if_pos hx])
    | boolean b => simp [phrase, nesting, Phrase.elaborate, afforded]
    | string s => simp [phrase, nesting, Phrase.elaborate, afforded]
  | var name => simp [phrase, nesting, Phrase.elaborate, afforded]
  | binary op a b =>
    rw [phrase, Phrase.elaborate, nesting]
    refine deeper_afforded fun inner hinner => ?_
    rw [Phrase.elaborate, elaborate_phrase a inner (by omega)]
    refine afforded_bind fun ha => ?_
    rw [elaborate_phrase b inner (by omega)]
    refine afforded_bind_ok fun hb => bounded_of_nesting h ?_
    rw [nesting]
    omega
  | conditional c a b =>
    rw [phrase, Phrase.elaborate, nesting]
    refine deeper_afforded fun inner hinner => ?_
    rw [Phrase.elaborate, elaborate_phrase c inner (by omega)]
    refine afforded_bind fun hc => ?_
    rw [deeper_afforded fun innermost _ => elaborate_phrase a innermost (by omega)]
    refine afforded_bind fun ha => ?_
    rw [deeper_afforded fun innermost _ => elaborate_phrase b innermost (by omega)]
    refine afforded_bind_ok fun hb => bounded_of_nesting h ?_
    rw [nesting]
    omega
  | call name args =>
    rw [phrase, Phrase.elaborate, nesting, elaborateAll_phrases args budget h]
    exact afforded_bind_ok fun hargs => bounded_of_nesting h (by rwa [nesting])

/-- Arguments are elaborated from their phrases exactly under a budget of their levels. -/
theorem elaborateAll_phrases (es : List Expr) (budget : Nat) (h : budget < maxHeight) :
    Phrase.elaborateAll (phrases es) budget = afforded (nestingAll es) budget es := by
  cases es with
  | nil => simp [phrases, nestingAll, Phrase.elaborateAll, afforded]
  | cons e rest =>
    rw [phrases, Phrase.elaborateAll, nestingAll]
    rw [deeper_afforded fun inner _ => elaborate_phrase e inner (by omega)]
    refine afforded_bind fun he => ?_
    rw [elaborateAll_phrases rest budget h]
    exact afforded_bind_ok fun hrest => rfl

end

end Expr

end FormulaRules
