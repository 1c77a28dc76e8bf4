import FormulaRules.Proofs.Evaluation.Run

/-!
# Sources put together from dictionaries

Dictionaries can be layered and checked in any nesting. Such a source has the entries of all
its dictionaries, the upper ones first. A lookup is answered from these entries and leaves the
world as it is, unless the context asks to stop. Main statement: as long as it does not, the three
questions to a source have consistent answers. A lookup gives what the snapshot has under the name,
and what is missing there is not found and not there.
-/

namespace FormulaRules

variable {σ : Type}

/-- The answer of a dictionary to a lookup. -/
def Dictionary.answer (vars : Bindings) (name : String) : Except EvalError Value :=
  match vars.get? name with
  | some v => .ok v
  | none => .error (.variableNotFound name)

/-- A layered dictionary answers from the upper one, and from the lower one what the upper one
misses. -/
theorem Dictionary.answer_layOver (upper lower : Bindings) (name : String) :
    (upper.layOver lower).answer name = match upper.get? name with
      | some v => .ok v
      | none => lower.answer name := by
  rw [answer, get?_layOver]
  cases upper.get? name with
  | some v => rfl
  | none => rfl

/-- A dictionary answers with what it has under a name. -/
theorem Dictionary.answer_eq_ok_iff {vars : Bindings} {name : String} {v : Value} :
    vars.answer name = .ok v ↔ vars.get? name = some v := by
  rw [answer]
  cases vars.get? name with
  | some u => rw [Except.ok.injEq, Option.some.injEq]
  | none => exact ⟨nofun, nofun⟩

/-- A dictionary fails only for a name that it misses. -/
theorem Dictionary.answer_eq_error_iff {vars : Bindings} {name : String} {e : EvalError} :
    vars.answer name = .error e ↔ vars.get? name = none ∧ e = .variableNotFound name := by
  rw [answer]
  cases vars.get? name with
  | some u => exact ⟨nofun, nofun⟩
  | none => rw [Except.error.injEq, eq_comm, and_iff_right rfl]

/-- Layered dictionaries have the names of both. -/
theorem Dictionary.contains_layOver (upper lower : Bindings) (name : String) :
    (upper.layOver lower).contains name = (upper.contains name || lower.contains name) := by
  rw [contains, get?_layOver, Option.isSome_or]
  rfl

/-- A context that asks to stop misses no variable. -/
theorem Context.stop?_ne_variableNotFound (ctx : Context) (w : World σ) (name : String) :
    ctx.stop? w ≠ some (.variableNotFound name) := by
  rw [stop?]
  split
  · nofun
  · split
    · nofun
    · nofun

/-- A check fails with the reason to stop, if there is one, and leaves the world as it is. -/
theorem Context.run_check (ctx : Context) (w : World σ) :
    ctx.check.run.run w = match ctx.stop? w with
      | some e => (.error e, w)
      | none => (.ok (), w) := by
  change (match ctx.stop? w with
    | some e => throw e
    | none => return () : Run σ EvalError Unit).run.run w = _
  cases ctx.stop? w with
  | some e => rfl
  | none => rfl

namespace Resolver

/-- A dictionary is looked up in any world alike, and leaves it as it is. -/
theorem run_lookup_ofBindings (vars : Bindings) (ctx : Context) (name : String) (w : World σ) :
    ((ofBindings vars).lookup ctx name).run.run w = (vars.answer name, w) := by
  simp only [ofBindings, Dictionary.answer]
  cases vars.get? name with
  | some v => rfl
  | none => rfl

/-- The second source is asked for what the first one misses. -/
theorem run_lookup_layered (primary fallback : Resolver σ) (ctx : Context) (name : String)
    (w : World σ) :
    ((layered primary fallback).lookup ctx name).run.run w =
      match (primary.lookup ctx name).run.run w with
      | (.error (.variableNotFound _), w') => (fallback.lookup ctx name).run.run w'
      | last => last := by
  rw [layered, Run.run_tryCatch]
  generalize (primary.lookup ctx name).run.run w = result
  obtain ⟨e | v, w'⟩ := result
  · cases e <;> rfl
  · rfl

/-- The second source is asked for a name that the first one does not have. -/
theorem run_has_layered (primary fallback : Resolver σ) (name : String) (w : World σ) :
    ((layered primary fallback).has name).run w =
      let (answer, w') := (primary.has name).run w
      if !answer then (fallback.has name).run w' else (answer, w') := by
  change (do if ← primary.has name then return true else fallback.has name :
    StateM (World σ) Bool).run w = _
  rw [StateT.run_bind]
  generalize (primary.has name).run w = result
  obtain ⟨answer, w'⟩ := result
  cases answer with
  | true => rfl
  | false => rfl

/-- The second source names its variables first, and those of the first source are laid over
them. -/
theorem run_all_layered (primary fallback : Resolver σ) (w : World σ) :
    (layered primary fallback).all.run w =
      let (lower, w') := fallback.all.run w
      let (upper, w'') := primary.all.run w'
      (upper.layOver lower, w'') := rfl

/-- The context is asked before a lookup. -/
theorem run_lookup_checked (inner : Resolver σ) (ctx : Context) (name : String) (w : World σ) :
    ((checked inner).lookup ctx name).run.run w = match ctx.stop? w with
      | some e => (.error e, w)
      | none => (inner.lookup ctx name).run.run w := by
  rw [checked, Run.run_bind, Context.run_check]
  cases ctx.stop? w with
  | some e => rfl
  | none => rfl

end Resolver

/-- A source that is put together from dictionaries. -/
inductive Composition
  | dictionary (vars : Bindings)
  | layered (primary fallback : Composition)
  | checked (inner : Composition)

namespace Composition

/-- The source as it is built. -/
def resolver : Composition → Resolver σ
  | dictionary vars => .ofBindings vars
  | layered primary fallback => .layered primary.resolver fallback.resolver
  | checked inner => .checked inner.resolver

/-- The entries of all dictionaries, the upper ones first. -/
def bindings : Composition → Bindings
  | dictionary vars => vars
  | layered primary fallback => primary.bindings.layOver fallback.bindings
  | checked inner => inner.bindings

/-- A composition names the entries of its dictionaries, and leaves the world as it is. -/
theorem run_all (c : Composition) (w : World σ) : c.resolver.all.run w = (c.bindings, w) := by
  induction c with
  | dictionary vars => rfl
  | layered primary fallback ihprimary ihfallback =>
    simp only [resolver, Resolver.run_all_layered, ihfallback, ihprimary, bindings]
  | checked inner ih => exact ih

/-- A composition has the names of its dictionaries, and leaves the world as it is. -/
theorem run_has (c : Composition) (name : String) (w : World σ) :
    (c.resolver.has name).run w = (c.bindings.contains name, w) := by
  induction c with
  | dictionary vars => rfl
  | layered primary fallback ihprimary ihfallback =>
    rw [resolver, Resolver.run_has_layered, ihprimary, bindings, Dictionary.contains_layOver]
    cases primary.bindings.contains name with
    | true => rfl
    | false => exact ihfallback
  | checked inner ih => exact ih

/-- A composition answers from the entries of its dictionaries, unless the context asks to stop. The
world stays as it is. -/
theorem run_lookup (c : Composition) (ctx : Context) (name : String) (w : World σ) :
    (c.resolver.lookup ctx name).run.run w = (c.bindings.answer name, w) ∨
      ∃ e, ctx.stop? w = some e ∧ (c.resolver.lookup ctx name).run.run w = (.error e, w) := by
  induction c with
  | dictionary vars => exact .inl (Resolver.run_lookup_ofBindings vars ctx name w)
  | layered primary fallback ihprimary ihfallback =>
    simp only [resolver, bindings, Resolver.run_lookup_layered, Dictionary.answer_layOver]
    rcases ihprimary with hprimary | ⟨e, hstop, hprimary⟩
    · rw [hprimary, Dictionary.answer]
      cases primary.bindings.get? name with
      | some v => exact .inl rfl
      | none => exact ihfallback
    · -- A reason to stop is not a missing variable, so the second source is not asked.
      refine .inr ⟨e, hstop, ?_⟩
      rw [hprimary]
      cases e with
      | variableNotFound missing => exact absurd hstop (ctx.stop?_ne_variableNotFound w missing)
      | _ => rfl
  | checked inner ih =>
    simp only [resolver, bindings, Resolver.run_lookup_checked]
    cases hstop : ctx.stop? w with
    | some e => exact .inr ⟨e, rfl, rfl⟩
    | none =>
      rcases ih with hanswer | ⟨e, hinner, -⟩
      · exact .inl hanswer
      · exact absurd (hstop.symm.trans hinner) nofun

/-- A composition answers from the entries of its dictionaries if the context does not ask to stop. -/
theorem run_lookup_of_live (c : Composition) {ctx : Context} {w : World σ}
    (h : ctx.stop? w = none) (name : String) :
    (c.resolver.lookup ctx name).run.run w = (c.bindings.answer name, w) := by
  rcases c.run_lookup ctx name w with hanswer | ⟨e, hstop, -⟩
  · exact hanswer
  · exact absurd (h.symm.trans hstop) nofun

/-- The three questions to a composition have consistent answers under a context that is neither
cancelled nor expired: a lookup gives a value exactly if the snapshot has this value under the name,
it misses the name exactly if the snapshot does, and exactly if the name is said not to be there. It
has no other error, and no question changes the world. -/
theorem lookup_all_has_consistent (c : Composition) (ctx : Context) (w : World σ) (name : String)
    (hcancelled : ctx.isCancelled w = false) (hexpired : ctx.isExpired w = false) :
    (∀ v, (c.resolver.lookup ctx name).outcome w = .ok v ↔
      (c.resolver.all.run w).1.get? name = some v) ∧
    ((c.resolver.lookup ctx name).outcome w = .error (.variableNotFound name) ↔
      (c.resolver.all.run w).1.get? name = none) ∧
    ((c.resolver.lookup ctx name).outcome w = .error (.variableNotFound name) ↔
      ((c.resolver.has name).run w).1 = false) ∧
    (∀ e, (c.resolver.lookup ctx name).outcome w = .error e → e = .variableNotFound name) ∧
    ((c.resolver.lookup ctx name).run.run w).2 = w ∧ (c.resolver.all.run w).2 = w ∧
      ((c.resolver.has name).run w).2 = w := by
  have hlive : ctx.stop? w = none := by
    rw [Context.stop?, hcancelled, hexpired]
    rfl
  have hlookup : (c.resolver.lookup ctx name).outcome w = c.bindings.answer name :=
    congrArg Prod.fst (c.run_lookup_of_live hlive name)
  have hmissing : c.bindings.answer name = .error (.variableNotFound name) ↔
      c.bindings.get? name = none :=
    Dictionary.answer_eq_error_iff.trans (and_iff_left rfl)
  rw [c.run_lookup_of_live hlive, hlookup, c.run_all, c.run_has]
  refine ⟨fun v => Dictionary.answer_eq_ok_iff, hmissing, hmissing.trans ?_,
    fun e h => (Dictionary.answer_eq_error_iff.mp h).2, rfl, rfl, rfl⟩
  rw [Dictionary.contains, Option.isSome_eq_false_iff, Option.isNone_iff_eq_none]

/-- An order is laid over two sets of defaults, of which the second is checked. A name of all three
gets the value of the order, and a name of none is found by no question. -/
theorem lookup_all_has_consistent_order :
    let order : Bindings := Dictionary.ofList [("tier", .string "gold"), ("rush", .boolean true)]
    let regional : Bindings := Dictionary.ofList [("tier", .string "silver")]
    let general : Bindings :=
      Dictionary.ofList [("tier", .string "none"), ("region", .string "north")]
    let c : Composition :=
      .layered (.dictionary order) (.layered (.dictionary regional) (.checked (.dictionary general)))
    let ctx : Context := ⟨some 1, some 100⟩
    let w : World Unit := ⟨[0], 99, ()⟩
    ctx.isCancelled w = false ∧ ctx.isExpired w = false ∧
      (c.resolver.lookup ctx "tier").outcome w = .ok (.string "gold") ∧
      (c.resolver.lookup ctx "region").outcome w = .ok (.string "north") ∧
      (c.resolver.lookup ctx "price").outcome w = .error (.variableNotFound "price") ∧
      ((c.resolver.has "price").run w).1 = false := by
  intro order regional general c ctx w
  have hcancelled : ctx.isCancelled w = false := rfl
  have hexpired : ctx.isExpired w = false := rfl
  have hconsistent (name : String) :=
    lookup_all_has_consistent c ctx w name hcancelled hexpired
  have hmissing := (hconsistent "price").2.1.mpr rfl
  exact ⟨hcancelled, hexpired, ((hconsistent "tier").1 _).mpr rfl,
    ((hconsistent "region").1 _).mpr rfl, hmissing, (hconsistent "price").2.2.1.mp hmissing⟩

end Composition

end FormulaRules
