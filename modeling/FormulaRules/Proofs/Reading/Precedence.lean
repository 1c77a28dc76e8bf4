import FormulaRules.Proofs.Expr.Parts
import FormulaRules.Proofs.Render.Phrase
import FormulaRules.Proofs.Token.Longest

/-!
# Chains of operators

Variables with operators between them and without parentheses form a chain. The ranks of
precedence give it a tree: operator by operator, each one takes the operands that bind tighter
behind it and everything that binds as tightly or tighter before it. Main statement: this is the
tree that the text of the chain is read to, with whatever blank characters between its words, up to
the limit of height. It is the only tree with this chain in which every operator binds no tighter
than one at the root of its left operand, and less tightly than one at the root of its right one.

The grammar has no ranks, only the operators of each of its symbols. That these tell the same is
what makes a tree within the ranks a phrase of the grammar, and the other way round.
-/

namespace FormulaRules

/-- Variables with operators between them. -/
structure Chain where
  first : String
  /-- The operators, each with the variable behind it. -/
  links : List (Operator × String)

namespace Chain

/-- The variables of a chain, in order. -/
def names (c : Chain) : List String := c.first :: c.links.map Prod.snd

/-- The tokens of the operators and the variables behind them. -/
def linkTokens : List (Operator × String) → List Token
  | [] => []
  | (op, x) :: links => .operator op :: .identifier x :: linkTokens links

/-- The tokens of a chain. -/
def tokens (c : Chain) : List Token := .identifier c.first :: linkTokens c.links

/-- Two chains with an operator between them. -/
def join (c : Chain) (op : Operator) (d : Chain) : Chain :=
  ⟨c.first, c.links ++ (op, d.first) :: d.links⟩

/-- Links follow each other. -/
theorem linkTokens_append (links more : List (Operator × String)) :
    linkTokens (links ++ more) = linkTokens links ++ linkTokens more := by
  induction links with
  | nil => rfl
  | cons link links ih => simp only [List.cons_append, linkTokens, ih]

/-- The tokens of joined chains have the operator between them. -/
theorem tokens_join (c : Chain) (op : Operator) (d : Chain) :
    (c.join op d).tokens = c.tokens ++ .operator op :: d.tokens := by
  simp only [tokens, join, linkTokens_append, linkTokens, List.cons_append]

/-- It makes no difference which of two operators joins first. -/
theorem join_assoc (c : Chain) (p : Operator) (d : Chain) (q : Operator) (e : Chain) :
    c.join p (d.join q e) = (c.join p d).join q e := by
  simp only [join, List.append_assoc, List.cons_append]

end Chain

namespace Expr

/-- The operator at the root of a tree. -/
def operator? : Expr → Option Operator
  | binary op _ _ => some op
  | _ => none

/-- Whether a tree has nothing but the variables and operators of a chain, in its order from left
to right. -/
inductive HasWalk : Expr → Chain → Prop
  | var (x : String) : HasWalk (var x) ⟨x, []⟩
  | binary (op : Operator) {a b : Expr} {c d : Chain} :
    HasWalk a c → HasWalk b d → HasWalk (binary op a b) (c.join op d)

/-- Whether every operator in a tree binds no tighter than one at the root of its left operand, and
less tightly than one at the root of its right operand. -/
def WithinRanks (e : Expr) : Prop :=
  ∀ op a b, (binary op a b).IsPart e →
    (∀ p ∈ a.operator?, op.precedence ≤ p.precedence) ∧
      ∀ q ∈ b.operator?, op.precedence < q.precedence

/-- A variable is within the ranks. -/
theorem withinRanks_var (x : String) : (var x).WithinRanks := by
  intro op a b h
  cases h

/-- An operation is within the ranks if its operands are, and its operator fits theirs. -/
theorem withinRanks_binary_iff {op : Operator} {a b : Expr} :
    (binary op a b).WithinRanks ↔ (a.WithinRanks ∧ b.WithinRanks) ∧
      (∀ p ∈ a.operator?, op.precedence ≤ p.precedence) ∧
      ∀ q ∈ b.operator?, op.precedence < q.precedence := by
  constructor
  · intro h
    exact ⟨⟨fun p l r hpart => h p l r (.left hpart), fun p l r hpart => h p l r (.right hpart)⟩,
      h op a b .whole⟩
  · rintro ⟨⟨ha, hb⟩, hroot⟩ p l r hpart
    cases hpart with
    | whole => exact hroot
    | left hpart => exact ha p l r hpart
    | right hpart => exact hb p l r hpart

/-- The phrase of a tree with no parentheses around its operations. -/
def bare : Expr → Phrase
  | binary op a b => .binary op a.bare b.bare
  | e => e.phrase

namespace HasWalk

variable {e : Expr} {c : Chain}

/-- The bare phrase of a tree has the tokens of its chain. -/
theorem tokens_bare (h : e.HasWalk c) : e.bare.tokens = c.tokens := by
  induction h with
  | var x => rfl
  | binary op _ _ iha ihb => rw [bare, Phrase.tokens, iha, ihb, Chain.tokens_join]

/-- The bare phrase of a chain opens no levels. -/
theorem levels_bare (h : e.HasWalk c) : e.bare.levels = 0 := by
  induction h with
  | var x => rfl
  | binary op _ _ iha ihb => rw [bare, Phrase.levels, iha, ihb, Nat.max_self]

/-- The bare phrase of a chain has the tree that it is made from. -/
theorem tree_bare (h : e.HasWalk c) : e.bare.tree = e := by
  induction h with
  | var x => rfl
  | binary op _ _ iha ihb => rw [bare, Phrase.tree, iha, ihb]

/-- The tree of a chain is at most one higher than the number of its operators. -/
theorem height_le (h : e.HasWalk c) : e.height ≤ c.links.length + 1 := by
  induction h with
  | var x => exact Nat.le_refl 1
  | binary op _ _ iha ihb =>
    simp only [height, Chain.join, List.length_append, List.length_cons]
    omega

end HasWalk

end Expr

/-- Every operator belongs to a symbol of its rank. -/
theorem Operator.exists_symbol (op : Operator) :
    ∃ s : Symbol, op ∈ s.operators ∧ s.rank = op.precedence := by
  obtain ⟨s, hs⟩ : ∃ s : Symbol, op.precedence = s.rank := by
    cases op with
    | or => exact ⟨.disjunction, rfl⟩
    | and => exact ⟨.conjunction, rfl⟩
    | equal | notEqual => exact ⟨.equality, rfl⟩
    | less | lessOrEqual | greater | greaterOrEqual => exact ⟨.relation, rfl⟩
    | add | subtract => exact ⟨.sum, rfl⟩
    | multiply | divide | modulo => exact ⟨.product, rfl⟩
  exact ⟨s, Symbol.mem_operators hs, hs.symm⟩

/-- A symbol with operators is not the tightest one. -/
theorem Symbol.ne_primary_of_mem {s : Symbol} {op : Operator} (h : op ∈ s.operators) :
    s ≠ .primary := by
  rintro rfl
  exact absurd h List.not_mem_nil

/-- An operation is derived at the symbol of its operator, from which it may have been loosened. -/
theorem Derives.exists_of_binary {s : Symbol} {op : Operator} {a b : Phrase}
    (h : Derives s (.binary op a b)) :
    ∃ t : Symbol, op ∈ t.operators ∧ s.rank ≤ t.rank ∧ Derives t a ∧ Derives t.operand b := by
  generalize hp : Phrase.binary op a b = p at h
  induction h with
  | @binary s _ _ _ hop ha hb =>
    cases hp
    exact ⟨s, hop, Nat.le_refl _, ha, hb⟩
  | @tighter s _ _ ih =>
    obtain ⟨t, hop, hrank, ha, hb⟩ := ih hp
    exact ⟨t, hop, Nat.le_trans s.rank_le_rank_operand hrank, ha, hb⟩
  | _ => cases hp

/-- A chain without parentheses is a phrase of a symbol exactly if its tree is within the ranks and
the operator at its root binds tightly enough for the symbol. -/
theorem Expr.HasWalk.derives_bare_iff {e : Expr} {c : Chain} (h : e.HasWalk c) (s : Symbol) :
    Derives s e.bare ↔ e.WithinRanks ∧ ∀ op ∈ e.operator?, s.rank ≤ op.precedence := by
  induction h generalizing s with
  | var x =>
    exact iff_of_true ((Derives.var x).loosen (by cases s <;> decide))
      ⟨withinRanks_var x, nofun⟩
  | @binary op a b _ _ _ _ iha ihb =>
    rw [withinRanks_binary_iff, bare]
    constructor
    · intro hphrase
      obtain ⟨t, hop, hrank, ha, hb⟩ := hphrase.exists_of_binary
      obtain ⟨hranksA, hrootA⟩ := (iha t).mp ha
      obtain ⟨hranksB, hrootB⟩ := (ihb t.operand).mp hb
      have hprecedence := Symbol.precedence_eq_rank hop
      have htight := Symbol.rank_lt_rank_operand (Symbol.ne_primary_of_mem hop)
      refine ⟨⟨⟨hranksA, hranksB⟩, fun p hp => ?_, fun q hq => ?_⟩, ?_⟩
      · exact hprecedence ▸ hrootA p hp
      · exact hprecedence ▸ Nat.lt_of_lt_of_le htight (hrootB q hq)
      · rintro _ ⟨⟩
        exact hprecedence ▸ hrank
    · rintro ⟨⟨⟨hranksA, hranksB⟩, hrootA, hrootB⟩, hroot⟩
      obtain ⟨t, hop, hrank⟩ := op.exists_symbol
      have hoperand := Symbol.rank_operand (Symbol.ne_primary_of_mem hop)
      have ha : Derives t a.bare := (iha t).mpr ⟨hranksA, fun p hp => hrank ▸ hrootA p hp⟩
      have hb : Derives t.operand b.bare := by
        refine (ihb t.operand).mpr ⟨hranksB, fun q hq => ?_⟩
        rw [hoperand, hrank]
        exact hrootB q hq
      exact (Derives.binary hop ha hb).loosen (hrank ▸ hroot op rfl)

namespace Expr

/-- The tree of a chain with one more operator and variable at its end. The operator takes the
operands on the right that bind as tightly or tighter. -/
def attach (op : Operator) (x : String) : Expr → Expr
  | binary p a b =>
    if p.precedence < op.precedence then binary p a (b.attach op x)
    else binary op (binary p a b) (var x)
  | e => binary op e (var x)

/-- The root of an extended tree is the new operator or was the root before. -/
theorem mem_operator?_attach {op : Operator} {x : String} {e : Expr} {q : Operator}
    (h : q ∈ (e.attach op x).operator?) : q = op ∨ q ∈ e.operator? := by
  cases e with
  | binary p a b =>
    rw [attach] at h
    split at h
    · exact .inr h
    · exact .inl (Option.some.inj h).symm
  | _ => exact .inl (Option.some.inj h).symm

/-- An extended tree has the extended chain. -/
theorem HasWalk.attach {e : Expr} {c : Chain} (h : e.HasWalk c) (op : Operator) (x : String) :
    (e.attach op x).HasWalk (c.join op ⟨x, []⟩) := by
  induction h with
  | var y => exact .binary op (.var y) (.var x)
  | binary p ha hb _ ihb =>
    rw [Expr.attach]
    split
    · rw [← Chain.join_assoc]
      exact .binary p ha ihb
    · exact .binary op (.binary p ha hb) (.var x)

/-- An extended tree stays within the ranks. -/
theorem HasWalk.withinRanks_attach {e : Expr} {c : Chain} (h : e.HasWalk c) (hranks : e.WithinRanks)
    (op : Operator) (x : String) : (e.attach op x).WithinRanks := by
  induction h with
  | var y =>
    exact withinRanks_binary_iff.mpr ⟨⟨withinRanks_var y, withinRanks_var x⟩, nofun, nofun⟩
  | @binary p a b _ _ _ _ _ ihb =>
    obtain ⟨⟨ha, hb⟩, hleft, hright⟩ := withinRanks_binary_iff.mp hranks
    rw [Expr.attach]
    split
    · next hlt =>
      refine withinRanks_binary_iff.mpr ⟨⟨ha, ihb hb⟩, hleft, fun q hq => ?_⟩
      rcases mem_operator?_attach hq with rfl | hq
      · exact hlt
      · exact hright q hq
    · next hge =>
      refine withinRanks_binary_iff.mpr ⟨⟨hranks, withinRanks_var x⟩, ?_, nofun⟩
      rintro _ ⟨⟩
      exact Nat.not_lt.mp hge

end Expr

namespace Chain

/-- The tree that the ranks of precedence give a chain, operator by operator. -/
def tree (c : Chain) : Expr := c.links.foldl (fun e link => e.attach link.1 link.2) (.var c.first)

/-- The tree that the ranks give a chain has this chain and is within the ranks. -/
theorem hasWalk_tree (c : Chain) : c.tree.HasWalk c ∧ c.tree.WithinRanks := by
  have hfold (links : List (Operator × String)) (e : Expr) (before : List (Operator × String))
      (hwalk : e.HasWalk ⟨c.first, before⟩) (hranks : e.WithinRanks) :
      (links.foldl (fun e link => e.attach link.1 link.2) e).HasWalk ⟨c.first, before ++ links⟩ ∧
        (links.foldl (fun e link => e.attach link.1 link.2) e).WithinRanks := by
    induction links generalizing e before with
    | nil =>
      rw [List.append_nil]
      exact ⟨hwalk, hranks⟩
    | cons link links ih =>
      have hnext := ih (e.attach link.1 link.2) (before ++ [link]) (hwalk.attach link.1 link.2)
        (hwalk.withinRanks_attach hranks link.1 link.2)
      rwa [List.append_assoc] at hnext
  exact hfold c.links (.var c.first) [] (.var c.first) (Expr.withinRanks_var c.first)

/-- The texts of operators and the variables behind them, with any blank characters before, between
and behind the words. -/
inductive WritesLinks : List (Operator × String) → List Char → Prop
  | nil {blanks : List Char} : (∀ b ∈ blanks, Text.isBlank b = true) → WritesLinks [] blanks
  | cons {op : Operator} {x : String} {links : List (Operator × String)}
    {before between rest : List Char} : (∀ b ∈ before, Text.isBlank b = true) →
      (∀ b ∈ between, Text.isBlank b = true) → WritesLinks links rest →
      WritesLinks ((op, x) :: links)
        (before ++ (op.symbol.toList ++ (between ++ (x.toList ++ rest))))

/-- An operator and a variable can be written without blank characters. -/
theorem WritesLinks.tight {links : List (Operator × String)} {rest : List Char}
    (h : WritesLinks links rest) (op : Operator) (x : String) :
    WritesLinks ((op, x) :: links) (op.symbol.toList ++ (x.toList ++ rest)) :=
  @cons op x links [] [] rest (List.forall_mem_nil _) (List.forall_mem_nil _) h

/-- Whether a text is a chain, with any blank characters around its words. -/
def IsText (c : Chain) (cs : List Char) : Prop :=
  ∃ before rest, cs = before ++ (c.first.toList ++ rest) ∧
    (∀ b ∈ before, Text.isBlank b = true) ∧ WritesLinks c.links rest

/-- Every chain has a text. -/
theorem exists_isText (c : Chain) : ∃ s : String, c.IsText s.toList := by
  have hlinks (links : List (Operator × String)) : ∃ rest, WritesLinks links rest := by
    induction links with
    | nil => exact ⟨[], .nil (List.forall_mem_nil _)⟩
    | cons link links ih =>
      obtain ⟨rest, hrest⟩ := ih
      exact ⟨_, hrest.tight link.1 link.2⟩
  obtain ⟨rest, hrest⟩ := hlinks c.links
  exact ⟨String.ofList (c.first.toList ++ rest), [], rest, String.toList_ofList,
    List.forall_mem_nil _, hrest⟩

end Chain

/-- An operator is read if no equals sign follows. -/
theorem Lexes.operator_of_head? (op : Operator) {rest : List Char}
    (h : ∀ d ∈ rest.head?, d ≠ '=') : Lexes (op.symbol.toList ++ rest) [.operator op] rest := by
  have hrest : Lexes rest [] rest := .nil rest
  cases op with
  | add | subtract | multiply | divide | modulo => exact .word (w := []) rfl rfl hrest
  | less | greater => exact .word (w := []) rfl (Token.read_append_iff.mpr ⟨rfl, h⟩) hrest
  | equal | notEqual | lessOrEqual | greaterOrEqual => exact .word (w := ['=']) rfl rfl hrest
  | and => exact .word (w := ['&']) rfl rfl hrest
  | or => exact .word (w := ['|']) rfl rfl hrest

/-- Behind blank characters a text closes a word if it does without them. -/
theorem Token.Closes.behind_blanks {blanks rest : List Char} (hrest : Closes rest)
    (h : ∀ b ∈ blanks, Text.isBlank b = true) : Closes (blanks ++ rest) := by
  cases blanks with
  | nil => exact hrest
  | cons b blanks => exact closes_cons b (closes_blanks h b rfl) (blanks ++ rest)

/-- A name, and a name behind blank characters, starts with no equals sign. -/
theorem Token.head?_blanks_name_ne {x : String} (hx : isName x = true) {between : List Char}
    (h : ∀ b ∈ between, Text.isBlank b = true) (rest : List Char) :
    ∀ d ∈ (between ++ (x.toList ++ rest)).head?, d ≠ '=' := by
  cases between with
  | nil =>
    simp only [isName, Bool.and_eq_true] at hx
    obtain ⟨⟨hword, -⟩, -⟩ := hx
    split at hword
    · next c cs hcs =>
      rw [Bool.and_eq_true] at hword
      rw [hcs]
      rintro _ ⟨⟩ rfl
      cases hword.1
    · cases hword
  | cons b between =>
    rintro _ ⟨⟩ rfl
    cases h '=' List.mem_cons_self

namespace Chain

/-- The text of operators and variables does not continue the variable before it. -/
theorem WritesLinks.closes {links : List (Operator × String)} {cs : List Char}
    (h : WritesLinks links cs) : Token.Closes cs := by
  cases h with
  | nil hblanks => exact Token.closes_blanks hblanks
  | @cons op _ _ _ _ _ hbefore _ _ =>
    refine Token.Closes.behind_blanks ?_ hbefore
    cases op <;> exact Token.closes_cons _ (by decide) _

/-- The text of operators and variables is read into their tokens. -/
theorem WritesLinks.lexes {links : List (Operator × String)} {cs : List Char}
    (h : WritesLinks links cs) (hnames : ∀ x ∈ links.map Prod.snd, Token.isName x = true) :
    Lexes cs (linkTokens links) [] := by
  induction h with
  | @nil blanks hblanks =>
    have hend := Lexes.blanks hblanks []
    rwa [List.append_nil] at hend
  | @cons op x links before between rest hbefore hbetween hrest ih =>
    obtain ⟨hx, hnames⟩ := List.forall_mem_cons.mp hnames
    have hoperator := Lexes.operator_of_head? op (Token.head?_blanks_name_ne hx hbetween rest)
    have hname := Lexes.name hx hrest.closes
    exact (Lexes.blanks hbefore _).trans (hoperator.trans ((Lexes.blanks hbetween _).trans
      (hname.trans (ih hnames))))

/-- The text of a chain is read into its tokens. -/
theorem IsText.lexes {c : Chain} {cs : List Char} (h : c.IsText cs)
    (hnames : ∀ x ∈ c.names, Token.isName x = true) : Lexes cs c.tokens [] := by
  obtain ⟨before, rest, rfl, hbefore, hrest⟩ := h
  obtain ⟨hfirst, hnames⟩ := List.forall_mem_cons.mp hnames
  exact (Lexes.blanks hbefore _).trans ((Lexes.name hfirst hrest.closes).trans (hrest.lexes hnames))

/-- The text of a chain is parsed to every tree within the ranks that has this chain. -/
theorem IsText.parseFormula_eq {c : Chain} {s : String} (hs : c.IsText s.toList)
    (hnames : ∀ x ∈ c.names, Token.isName x = true) (hlength : c.links.length < maxHeight)
    {e : Expr} (hwalk : e.HasWalk c) (hranks : e.WithinRanks) : Expr.parseFormula s = .ok e := by
  obtain ⟨hclean, htokens⟩ := (hs.lexes hnames).endsClean_ofText
  have hphrase : Derives .expression e.bare :=
    (hwalk.derives_bare_iff .expression).mpr ⟨hranks, fun op _ => Nat.zero_le op.precedence⟩
  have hbuild : deeper e.bare.elaborate maxNesting = .ok e := by
    refine (Phrase.elaborate_eq_ok_iff _ _ _).mpr ⟨?_, ?_, hwalk.tree_bare⟩
    · rw [hwalk.levels_bare]
      exact Nat.zero_le _
    · rw [hwalk.tree_bare]
      exact Nat.le_trans hwalk.height_le hlength
  have hparse := Expr.follows_parseFormula hphrase hclean (htokens.trans hwalk.tokens_bare.symm)
  rwa [hbuild] at hparse

/-- Every text of a chain of variables is parsed to one tree, if the operators are fewer than the
limit of height. The tree has the variables and operators of the chain in their order, every
operator binds no tighter than one at the root of its left operand and less tightly than one at the
root of its right operand, and no other tree is like this. -/
theorem parseFormula_of_isText {c : Chain} (hnames : ∀ x ∈ c.names, Token.isName x = true)
    (hlength : c.links.length < maxHeight) :
    (∀ s : String, c.IsText s.toList → Expr.parseFormula s = .ok c.tree) ∧
      c.tree.HasWalk c ∧ c.tree.WithinRanks ∧
      ∀ e : Expr, e.HasWalk c → e.WithinRanks → e = c.tree := by
  obtain ⟨hwalk, hranks⟩ := c.hasWalk_tree
  refine ⟨fun s hs => hs.parseFormula_eq hnames hlength hwalk hranks, hwalk, hranks,
    fun e hwalk' hranks' => ?_⟩
  obtain ⟨s, hs⟩ := c.exists_isText
  have htree := hs.parseFormula_eq hnames hlength hwalk hranks
  exact Except.ok.inj ((hs.parseFormula_eq hnames hlength hwalk' hranks').symm.trans htree)

/-- A chain with operators of five ranks, of which two join to the left. It is written with a wide
blank and otherwise without any. -/
theorem parseFormula_of_isText_limit :
    let c : Chain := ⟨"due", [(.subtract, "paid"), (.subtract, "rate"), (.multiply, "days"),
      (.greater, "limit"), (.and, "open"), (.or, "rush")]⟩
    (∀ x ∈ c.names, Token.isName x = true) ∧ c.links.length < maxHeight ∧
      c.IsText "due-paid-rate*days>limit\u3000&&open||rush".toList ∧
      Expr.parseFormula "due-paid-rate*days>limit\u3000&&open||rush" = .ok
        (.binary .or
          (.binary .and
            (.binary .greater
              (.binary .subtract (.binary .subtract (.var "due") (.var "paid"))
                (.binary .multiply (.var "rate") (.var "days")))
              (.var "limit"))
            (.var "open"))
          (.var "rush")) := by
  intro c
  have hnames : ∀ x ∈ c.names, Token.isName x = true := by
    decide +kernel
  have hlength : c.links.length < maxHeight := by
    decide
  have hwide : ∀ b ∈ ['\u3000'], Text.isBlank b = true := List.all_eq_true.mp (by cbv)
  have hend : WritesLinks [] [] := .nil (List.forall_mem_nil _)
  have hor : WritesLinks [(.or, "rush")] "||rush".toList := hend.tight .or "rush"
  have hand : WritesLinks [(.and, "open"), (.or, "rush")] "\u3000&&open||rush".toList :=
    @WritesLinks.cons .and "open" _ ['\u3000'] [] _ hwide (List.forall_mem_nil _) hor
  have hlinks : WritesLinks c.links "-paid-rate*days>limit\u3000&&open||rush".toList :=
    (((hand.tight .greater "limit").tight .multiply "days").tight .subtract "rate").tight
      .subtract "paid"
  have htext : c.IsText "due-paid-rate*days>limit\u3000&&open||rush".toList :=
    ⟨[], _, by decide +kernel, List.forall_mem_nil _, hlinks⟩
  exact ⟨hnames, hlength, htext, (parseFormula_of_isText hnames hlength).1 _ htext⟩

end Chain

end FormulaRules
