import FormulaRules.Proofs.Token.Scan

/-!
# Blank characters separate texts

A text that is read to its end is read the same in front of a blank character, and what follows the
blank characters is read as if it stood alone. Main statement: the stream of two texts with blank
characters between them is that of the first, followed by that of the second with its positions
moved on. Only the tokens of a text decide which tree it has, so neither the number of blank
characters nor their kind makes a difference to it.

Without a blank character between them two texts may have other tokens, as the last token of the
first may be continued.
-/

namespace FormulaRules

namespace TokenStream

/-- A stream with another one in the place of its end. A fault has nothing behind it. -/
def followedBy : TokenStream → TokenStream → TokenStream
  | token t start stop next, st => token t start stop (next.followedBy st)
  | finish _, st => st
  | fault cause position, _ => fault cause position

/-- In front of a blank character a text is read as at its end. -/
theorem Scans.append {offset : Nat} {cs blanks tail : List Char} {st st' : TokenStream}
    (h : Scans offset cs st) (hclean : st.EndsClean) (hne : blanks ≠ [])
    (hblanks : ∀ b ∈ blanks, Text.isBlank b = true)
    (htail : Scans (offset + cs.length + blanks.length) tail st') :
    Scans offset (cs ++ (blanks ++ tail)) (st.followedBy st') := by
  induction h with
  | finish hmore hstop => exact .blanks hmore (.blanks hblanks htail)
  | @token before word rest c t next offset start stop hmore hc hread hstart hstop hnext ih =>
    have hword : Token.read c (word ++ (rest ++ (blanks ++ tail))) = .ok (t, word.length + 1) := by
      obtain ⟨hself, hend⟩ := Token.read_append_iff.mp hread
      refine Token.read_append_iff.mpr ⟨hself, fun d hd => ?_⟩
      cases rest with
      | nil =>
        obtain ⟨b, more, rfl⟩ := List.exists_cons_of_ne_nil hne
        obtain rfl : b = d := Option.some.inj hd
        exact Token.not_continues_of_isBlank (hblanks b List.mem_cons_self)
      | cons e rest => exact hend d hd
    have hplace : offset + (before ++ c :: (word ++ rest)).length + blanks.length =
        stop + rest.length + blanks.length := by
      simp only [List.length_append, List.length_cons]
      omega
    rw [hplace] at htail
    have hscan := Scans.token hmore hc hword hstart hstop (ih hclean htail)
    simpa only [List.append_assoc, List.cons_append, followedBy] using hscan
  | fault => exact absurd hclean not_false

end TokenStream

namespace Expr

/-- A text has the tree of every text with the same tokens, if it is read to its end as well. -/
theorem parseFormula_of_tokens_eq {s t : String} {e : Expr}
    (hclean : (TokenStream.ofText s).EndsClean → (TokenStream.ofText t).EndsClean)
    (htokens : (TokenStream.ofText t).tokens = (TokenStream.ofText s).tokens)
    (h : parseFormula s = .ok e) : parseFormula t = .ok e := by
  obtain ⟨p, hp, hend, hphrase, hbuild⟩ := exists_derives_of_parseFormula h
  have hparse := follows_parseFormula hp (hclean hend) (htokens.trans hphrase)
  simpa only [hbuild] using hparse

end Expr

open TokenStream

/-- Two texts with blank characters between them are read one after the other, the second with its
positions moved on. Two texts with the same tokens, both read to their ends or both not, have the
same tree. -/
theorem separated_by_blanks :
    (∀ s blanks t : String, (ofText s).EndsClean → blanks ≠ "" →
      (∀ b ∈ blanks.toList, Text.isBlank b = true) →
      ofText (s ++ blanks ++ t) =
        (ofText s).followedBy ((ofText t).shift (s.length + blanks.length))) ∧
    ∀ s t : String, ((ofText s).EndsClean ↔ (ofText t).EndsClean) →
      (ofText s).tokens = (ofText t).tokens →
      ∀ e, Expr.parseFormula s = .ok e ↔ Expr.parseFormula t = .ok e := by
  constructor
  · intro s blanks t hclean hne hblanks
    apply Scans.eq_ofText
    have htail := (scans_ofText t).shift (s.length + blanks.length)
    rw [String.toList_append, String.toList_append, List.append_assoc]
    apply (scans_ofText s).append hclean (by simpa using hne) hblanks
    simpa only [String.length_toList, Nat.zero_add] using htail
  · intro s t hclean htokens e
    constructor
    · intro h
      exact Expr.parseFormula_of_tokens_eq hclean.mp htokens.symm h
    · intro h
      exact Expr.parseFormula_of_tokens_eq hclean.mpr htokens h

/-- Behind a wide blank an equals sign does not belong to the operator before it, so it is a fault
at its place in the whole text. Blank characters of any kind leave the tree of a comparison as it
was. -/
theorem separated_by_blanks_comparison :
    ((ofText "rate <").EndsClean ∧ "\u3000 " ≠ "" ∧
      (∀ b ∈ "\u3000 ".toList, Text.isBlank b = true) ∧
      ofText ("rate <" ++ "\u3000 " ++ "= limit") =
        .token (.identifier "rate") 0 4
          (.token (.operator .less) 5 6 (.fault (.singleCharacter '=') 8))) ∧
    ((ofText "rate<limit").EndsClean ∧ (ofText "\trate <\u3000limit").EndsClean ∧
      (ofText "rate<limit").tokens = (ofText "\trate <\u3000limit").tokens ∧
      ∀ e, Expr.parseFormula "rate<limit" = .ok e ↔
        Expr.parseFormula "\trate <\u3000limit" = .ok e) := by
  have hfirst : ofText "rate <" =
      .token (.identifier "rate") 0 4 (.token (.operator .less) 5 6 (.finish 6)) := by
    cbv
  have hsecond : ofText "= limit" = .fault (.singleCharacter '=') 0 := by
    cbv
  have hclean : (ofText "rate <").EndsClean := by
    rw [hfirst]
    trivial
  have hblanks : ∀ b ∈ "\u3000 ".toList, Text.isBlank b = true :=
    List.all_eq_true.mp (by cbv)
  have hnarrow : ofText "rate<limit" = .token (.identifier "rate") 0 4
      (.token (.operator .less) 4 5 (.token (.identifier "limit") 5 10 (.finish 10))) := by
    cbv
  have hwide : ofText "\trate <\u3000limit" = .token (.identifier "rate") 1 5
      (.token (.operator .less) 6 7 (.token (.identifier "limit") 8 13 (.finish 13))) := by
    cbv
  have hnarrowClean : (ofText "rate<limit").EndsClean := by
    rw [hnarrow]
    trivial
  have hwideClean : (ofText "\trate <\u3000limit").EndsClean := by
    rw [hwide]
    trivial
  have htokens : (ofText "rate<limit").tokens = (ofText "\trate <\u3000limit").tokens := by
    rw [hnarrow, hwide]
    rfl
  refine ⟨⟨hclean, by decide, hblanks, ?_⟩, hnarrowClean, hwideClean, htokens,
    separated_by_blanks.2 _ _ (iff_of_true hnarrowClean hwideClean) htokens⟩
  rw [separated_by_blanks.1 _ _ _ hclean (by decide) hblanks, hfirst, hsecond]
  rfl

end FormulaRules
