import FormulaRules.Proofs.Render.Phrase

/-!
# Canonical texts are parsed back

The canonical text of a tree is read into the tokens of its phrase, and the phrase is
elaborated to the tree. So the text is parsed to the same tree, bit for bit, as long as it is
not nested too deep; otherwise it is refused for that reason.
-/

namespace FormulaRules

open Token

namespace Expr

/-- The text of a finite number is read into the tokens of its phrase. -/
theorem lexes_number {x : Float} (hx : x.isFinite = true) {rest : List Char} (hrest : Closes rest) :
    Lexes ((Number.plain x).toList ++ rest) (number x).phrase.tokens rest := by
  obtain ⟨whole, fraction, htext, hne, hwhole, hfraction, hread⟩ := Number.plainDigits_written hx
  rw [Number.plain_of_isFinite hx, Number.withSign, phrase]
  cases hneg : Number.isNegative x with
  | false =>
    rw [hneg] at hread
    rw [if_neg (by decide), if_neg (by decide), htext]
    exact Lexes.number hne hwhole hfraction hread hx hrest
  | true =>
    rw [hneg] at hread
    rw [if_pos rfl, if_pos rfl, htext]
    have hdigits := Lexes.number hne hwhole hfraction hread
      ((Number.isFinite_neg x).trans hx) hrest
    exact (Lexes.single rfl (fun _ => rfl) _).trans hdigits

/-- Further arguments start with a comma. -/
theorem closes_renderRest (es : List Expr) {rest : List Char} (hrest : Closes rest) :
    Closes ((renderRest es).toList ++ rest) := by
  cases es with
  | nil => exact hrest
  | cons e es =>
    have hcomma := closes_cons ',' (by decide)
      (' ' :: (e.render.toList ++ ((renderRest es).toList ++ rest)))
    simpa [renderRest] using hcomma

mutual

/-- The canonical text of a tree is read into the tokens of its phrase. -/
theorem lexes_render (e : Expr) (he : e.writable = true) {rest : List Char} (hrest : Closes rest) :
    Lexes (e.render.toList ++ rest) e.phrase.tokens rest := by
  cases e with
  | literal v =>
    cases v with
    | number x => exact lexes_number he hrest
    | boolean b => exact Lexes.keyword b hrest
    | string s => exact Lexes.quoted s rest
  | var name => exact Lexes.name he hrest
  | binary op a b =>
    rw [writable, Bool.and_eq_true] at he
    have hopen := Lexes.openParen (a.render.toList ++ ' ' :: (op.symbol.toList ++ ' ' ::
      (b.render.toList ++ ')' :: rest)))
    have ha := lexes_render a he.1 (closes_cons ' ' (by decide) (op.symbol.toList ++ ' ' ::
      (b.render.toList ++ ')' :: rest)))
    have hop := Lexes.operator op (b.render.toList ++ ')' :: rest)
    have hb := lexes_render b he.2 (closes_cons ')' (by decide) rest)
    have h := hopen.trans (ha.trans (Lexes.blank rfl (hop.trans (hb.trans (Lexes.closeParen rest)))))
    simpa [render, phrase, Phrase.tokens] using h
  | conditional c a b =>
    rw [writable, Bool.and_eq_true, Bool.and_eq_true] at he
    have hopen := Lexes.openParen (c.render.toList ++ ' ' :: '?' :: ' ' ::
      (a.render.toList ++ ' ' :: ':' :: ' ' :: (b.render.toList ++ ')' :: rest)))
    have hc := lexes_render c he.1.1 (closes_cons ' ' (by decide) ('?' :: ' ' ::
      (a.render.toList ++ ' ' :: ':' :: ' ' :: (b.render.toList ++ ')' :: rest))))
    have hquestion := Lexes.spaced (c := '?') rfl (fun _ => rfl)
      (a.render.toList ++ ' ' :: ':' :: ' ' :: (b.render.toList ++ ')' :: rest))
    have ha := lexes_render a he.1.2 (closes_cons ' ' (by decide)
      (':' :: ' ' :: (b.render.toList ++ ')' :: rest)))
    have hcolon := Lexes.spaced (c := ':') rfl (fun _ => rfl) (b.render.toList ++ ')' :: rest)
    have hb := lexes_render b he.2 (closes_cons ')' (by decide) rest)
    have h := hopen.trans (hc.trans (Lexes.blank rfl (hquestion.trans (ha.trans (Lexes.blank rfl
      (hcolon.trans (hb.trans (Lexes.closeParen rest))))))))
    simpa [render, phrase, Phrase.tokens] using h
  | call name args =>
    rw [writable, Bool.and_eq_true] at he
    cases args with
    | nil =>
      have hname := Lexes.name he.1 (closes_cons '(' (by decide) (')' :: rest))
      have h := hname.trans ((Lexes.openParen _).trans (Lexes.closeParen rest))
      simpa [render, phrase, phrases, Phrase.tokens] using h
    | cons arg args =>
      rw [writableAll, Bool.and_eq_true] at he
      have hname := Lexes.name he.1 (closes_cons '(' (by decide) (arg.render.toList ++
        ((renderRest args).toList ++ ')' :: rest)))
      have harg := lexes_render arg he.2.1 (closes_renderRest args (closes_cons ')' (by decide) rest))
      have hargs := lexes_renderRest args he.2.2 (closes_cons ')' (by decide) rest)
      have h := hname.trans ((Lexes.openParen _).trans (harg.trans (hargs.trans
        (Lexes.closeParen rest))))
      simpa [render, phrase, phrases, Phrase.tokens] using h

/-- The canonical text of further arguments is read into the tokens of their phrases. -/
theorem lexes_renderRest (es : List Expr) (hes : writableAll es = true) {rest : List Char}
    (hrest : Closes rest) :
    Lexes ((renderRest es).toList ++ rest) (Phrase.tokensRest (phrases es)) rest := by
  cases es with
  | nil => exact .nil rest
  | cons e es =>
    rw [writableAll, Bool.and_eq_true] at hes
    have hcomma := Lexes.spaced (c := ',') rfl (fun _ => rfl)
      (e.render.toList ++ ((renderRest es).toList ++ rest))
    have he := lexes_render e hes.1 (closes_renderRest es hrest)
    have h := hcomma.trans (he.trans (lexes_renderRest es hes.2 hrest))
    simpa [renderRest, phrases, Phrase.tokensRest] using h

end

/-- The canonical text of a tree that has one is read to its end into the tokens of its phrase. -/
theorem tokens_render {e : Expr} (he : e.writable = true) :
    (TokenStream.ofText e.render).EndsClean ∧
      (TokenStream.ofText e.render).tokens = e.phrase.tokens := by
  refine Lexes.endsClean_ofText ?_
  have h : Lexes (e.render.toList ++ []) _ [] := lexes_render e he closes_nil
  rwa [List.append_nil] at h

/-- The canonical text of a tree is parsed as its phrase is elaborated. -/
theorem follows_render {e : Expr} (he : e.writable = true) :
    match afforded (e.nesting + 1) maxNesting e with
    | .ok e' => parseFormula e.render = .ok e'
    | .error cause => ∃ position, parseFormula e.render = .error ⟨⟨cause, position⟩, e.render⟩ := by
  obtain ⟨hclean, htokens⟩ := tokens_render he
  have hderives : Derives .expression e.phrase := (derives_phrase e).loosen (Nat.zero_le _)
  have hbuild : deeper e.phrase.elaborate maxNesting = afforded (e.nesting + 1) maxNesting e :=
    deeper_afforded fun inner hinner => elaborate_phrase e inner (Nat.lt_trans hinner (by decide))
  rw [← hbuild]
  exact follows_parseFormula hderives hclean htokens

/-- A canonical text within the limit of nesting is parsed to the tree. -/
theorem parseFormula_render_of_lt {e : Expr} (he : e.writable = true)
    (h : e.nesting < maxNesting) : parseFormula e.render = .ok e := by
  have hrender := follows_render he
  rwa [afforded, if_pos (Nat.succ_le_of_lt h)] at hrender

/-- A canonical text beyond the limit of nesting is refused for its nesting. -/
theorem parseFormula_render_of_le {e : Expr} (he : e.writable = true)
    (h : maxNesting ≤ e.nesting) :
    ∃ position, parseFormula e.render = .error ⟨⟨.nestedTooDeep, position⟩, e.render⟩ := by
  have hrender := follows_render he
  rwa [afforded, if_neg (Nat.not_le.mpr (Nat.lt_succ_of_le h))] at hrender

/-- Parsing undoes rendering, for every tree with finite numbers and proper names whose text is
not nested too deep. All other such texts are refused for their nesting. -/
theorem parseFormula_render {e : Expr} (he : e.writable = true) :
    (e.nesting < maxNesting → parseFormula e.render = .ok e) ∧
      (maxNesting ≤ e.nesting →
        ∃ position, parseFormula e.render = .error ⟨⟨.nestedTooDeep, position⟩, e.render⟩) :=
  ⟨parseFormula_render_of_lt he, parseFormula_render_of_le he⟩

/-- A conditional over a comparison with a negative number, a call and a string with escapes is
parsed back. A tower of 64 calls is refused. -/
theorem parseFormula_render_conditional_and_tower :
    let e := conditional (binary .less (var "a_1") (number (-2.5)))
      (call "round" [binary .add (number 0.1) (var "b")]) (string "say \"hi\"\\\n")
    let tower := Nat.repeat (fun e => call "abs" [e]) 64 (var "x")
    (e.writable = true ∧ parseFormula e.render = .ok e) ∧
      (tower.writable = true ∧ ∃ position,
        parseFormula tower.render = .error ⟨⟨.nestedTooDeep, position⟩, tower.render⟩) :=
  ⟨⟨by decide +kernel, (parseFormula_render (by decide +kernel)).1 (by decide +kernel)⟩,
    ⟨by decide +kernel, (parseFormula_render (by decide +kernel)).2 (by decide +kernel)⟩⟩

end Expr

end FormulaRules
