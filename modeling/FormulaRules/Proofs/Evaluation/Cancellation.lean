import FormulaRules.Proofs.Evaluation.Lookups
import FormulaRules.Proofs.Resolver.Composition

/-!
# Evaluations that are cancelled on the way

A checked source is asked through the context, and the inner source behind it may itself cancel
the token during one of its lookups. The run in which it does so is compared with the same run
without this cancellation. Both have the same lookups up to that point. After it no lookup reaches
the inner source: the next one that is asked for ends the run as cancelled, and a run that asks for
none ends as if nothing had been cancelled.

The run without the cancellation keeps two records, one of the lookups asked for and one of those
that reach the inner source, as its context may ask to stop for other reasons. Nothing is assumed
of the inner source.
-/

namespace FormulaRules

variable {σ τ ε ε' α β : Type}

namespace World

/-- A world in which a token was cancelled as well. -/
def cancel (token : TokenId) (w : World σ) : World σ := { w with cancelled := token :: w.cancelled }

/-- A world in which a token was cancelled as well if a number of lookups is on record. -/
def cancelAt (token : TokenId) (k : Nat) (w : World (Logged σ)) : World (Logged σ) :=
  if w.store.lookups.length = k then w.cancel token else w

/-- The lookups asked for, of which the outer record is kept. -/
def asked (w : World (Logged (Logged σ))) : List Lookup := w.store.lookups

/-- The lookups that have reached the inner source, of which the inner record is kept. -/
def reached (w : World (Logged (Logged σ))) : List Lookup := w.store.store.lookups

/-- Cancelling a token leaves the record as it is. -/
theorem lookups_cancelAt (token : TokenId) (k : Nat) (w : World (Logged σ)) :
    (w.cancelAt token k).store.lookups = w.store.lookups := by
  rw [cancelAt]
  split
  · rfl
  · rfl

end World

/-- A context asks to stop as soon as its token is cancelled, whatever its deadline. -/
theorem Context.stop?_cancel {ctx : Context} {token : TokenId} (h : ctx.token = some token)
    (w : World σ) : ctx.stop? (w.cancel token) = some .cancelled := by
  have hcancelled : ctx.isCancelled (w.cancel token) = true := by
    rw [isCancelled, h, Option.any_some]
    exact List.contains_iff_mem.mpr List.mem_cons_self
  rw [stop?, if_pos hcancelled]

namespace Resolver

/-- The source that answers and records as another one, and cancels a token during the lookup with
a number. -/
def cancelling (token : TokenId) (k : Nat) (source : Resolver σ) : Resolver (Logged σ) where
  lookup ctx name := ExceptT.mk fun w =>
    let (answer, w') := (source.recording.lookup ctx name).run.run w
    (answer, w'.cancelAt token k)
  has := source.recording.has
  all := source.recording.all

/-- The checked source with a record of the lookups asked for, before which the context is asked,
and a record of those that reach the inner source. -/
def observed (inner : Resolver σ) : Resolver (Logged (Logged σ)) :=
  inner.recording.checked.recording

/-- A lookup that is asked for is recorded, and it reaches the inner source and is recorded there if
the context does not ask to stop. -/
theorem run_lookup_observed (inner : Resolver σ) (ctx : Context) (name : String)
    (u : World (Logged (Logged σ))) :
    (inner.observed.lookup ctx name).run.run u = match ctx.stop? u.plain with
      | some e => (.error e, u.plain.logged (u.asked ++ [⟨name, .error e⟩]))
      | none =>
        let (answer, w) := (inner.lookup ctx name).run.run u.plain.plain
        (answer, (w.logged (u.reached ++ [⟨name, answer⟩])).logged
          (u.asked ++ [⟨name, answer⟩])) := by
  have hrun := run_lookup_recording inner.recording.checked ctx name u.plain u.asked
  rw [run_lookup_checked] at hrun
  refine hrun.trans ?_
  cases ctx.stop? u.plain with
  | some e => rfl
  | none => rfl

/-- A lookup is recorded, and the token is cancelled if it is the one with the number. -/
theorem run_lookup_cancelling (token : TokenId) (k : Nat) (inner : Resolver σ) (ctx : Context)
    (name : String) (v : World (Logged σ)) :
    ((inner.cancelling token k).lookup ctx name).run.run v =
      let (answer, w) := (inner.lookup ctx name).run.run v.plain
      (answer, (w.logged (v.store.lookups ++ [⟨name, answer⟩])).cancelAt token k) := rfl

end Resolver

/-- Whether all lookups asked for have reached the inner source, and no more than a number. -/
structure World.Pending (k : Nat) (u : World (Logged (Logged σ))) : Prop where
  asked_eq : u.asked = u.reached
  length_le : u.asked.length ≤ k

/-- As long as the lookups are within the number, those before it are all of them. -/
theorem World.Pending.lookups_cancelAt {k : Nat} {u : World (Logged (Logged σ))} (h : u.Pending k)
    (token : TokenId) : (u.plain.cancelAt token k).store.lookups = u.reached.take k := by
  rw [World.lookups_cancelAt, List.take_of_length_le (h.asked_eq ▸ h.length_le)]
  rfl

/-- How the end of a run compares with its end when a token is cancelled during lookup `k`, which
the error `stop` shows. -/
inductive CutShort (token : TokenId) (k : Nat) (stop : ε) :
    Except ε α × World (Logged (Logged σ)) → Except ε α × World (Logged σ) → Prop
  /-- The run has a value, and can go on in both worlds. -/
  | ok {a : α} {u : World (Logged (Logged σ))} :
    u.Pending k → CutShort token k stop (.ok a, u) (.ok a, u.plain.cancelAt token k)
  /-- The run fails before it asks for another lookup. -/
  | error {e : ε} {u : World (Logged (Logged σ))} {v : World (Logged σ)} :
    u.asked.length ≤ k → v.store.lookups = u.reached.take k →
      CutShort token k stop (.error e, u) (.error e, v)
  /-- The run asks for another lookup, and is stopped when it is cancelled. -/
  | stopped {last : Except ε α} {u : World (Logged (Logged σ))} {v : World (Logged σ)} :
    k < u.asked.length → k ≤ u.reached.length → v.store.lookups = u.reached.take k →
      CutShort token k stop (last, u) (.error stop, v)

/-- Whether a run only adds to the records. -/
def Run.Grows (r : Run (Logged (Logged σ)) ε α) : Prop :=
  ∀ u, u.asked <+: (r.run.run u).2.asked ∧ u.reached <+: (r.run.run u).2.reached

namespace Run.Grows

/-- The run of an outcome adds nothing. -/
theorem ofExcept (x : Except ε α) : Grows (σ := σ) (Run.ofExcept x) := by
  intro u
  rw [run_ofExcept]
  exact ⟨List.prefix_rfl, List.prefix_rfl⟩

/-- Two halves that only add make a run that only adds. -/
theorem bind {r : Run (Logged (Logged σ)) ε α} {f : α → Run (Logged (Logged σ)) ε β}
    (h : r.Grows) (hnext : ∀ a, (f a).Grows) : (r >>= f).Grows := by
  intro u
  rw [run_bind]
  have hfirst := h u
  generalize r.run.run u = result at hfirst ⊢
  obtain ⟨e | a, u'⟩ := result
  · exact hfirst
  · exact ⟨hfirst.1.trans (hnext a u').1, hfirst.2.trans (hnext a u').2⟩

/-- Changing the errors of a run does not change the records. -/
theorem adapt {r : Run (Logged (Logged σ)) ε α} (h : r.Grows) (f : ε → ε') :
    Grows (r.adapt f) := h

end Run.Grows

/-- Whether a run is cut short where a token is cancelled during lookup `k` of the other run. -/
structure Run.StopsAt (token : TokenId) (k : Nat) (stop : ε) (r : Run (Logged (Logged σ)) ε α)
    (s : Run (Logged σ) ε α) : Prop where
  cutShort : ∀ u : World (Logged (Logged σ)), u.Pending k →
    CutShort token k stop (r.run.run u) (s.run.run (u.plain.cancelAt token k))
  grows : r.Grows

namespace Run.StopsAt

variable {token : TokenId} {k : Nat} {stop : ε}

/-- The run of an outcome asks for nothing, so it is not stopped. -/
theorem ofExcept (x : Except ε α) :
    StopsAt (σ := σ) token k stop (Run.ofExcept x) (Run.ofExcept x) := by
  refine ⟨fun u hu => ?_, .ofExcept x⟩
  rw [run_ofExcept, run_ofExcept]
  cases x with
  | ok a => exact .ok hu
  | error e => exact .error hu.length_le (hu.lookups_cancelAt token)

/-- How two runs end that are put together from others. What follows the first halves is compared if
they have a value; if the first half was stopped, the other run only adds to the records. -/
theorem bind_ends {r : Run (Logged (Logged σ)) ε α} {s : Run (Logged σ) ε α}
    {f : α → Run (Logged (Logged σ)) ε β} {g : α → Run (Logged σ) ε β}
    {Ends : Except ε β × World (Logged (Logged σ)) → Except ε β × World (Logged σ) → Prop}
    (h : StopsAt token k stop r s) (hgrows : ∀ a, (f a).Grows)
    {u : World (Logged (Logged σ))} (hu : u.Pending k)
    (hok : ∀ a u', r.run.run u = (.ok a, u') → u'.Pending k →
      Ends ((f a).run.run u') ((g a).run.run (u'.plain.cancelAt token k)))
    (herror : ∀ e u' v, u'.asked.length ≤ k → v.store.lookups = u'.reached.take k →
      Ends (.error e, u') (.error e, v))
    (hstopped : ∀ last u' v, k < (r.run.run u).2.asked.length → k < u'.asked.length →
      k ≤ u'.reached.length → v.store.lookups = u'.reached.take k →
      Ends (last, u') (.error stop, v)) :
    Ends ((r >>= f).run.run u) ((s >>= g).run.run (u.plain.cancelAt token k)) := by
  rw [run_bind, run_bind]
  have hfirst := h.cutShort u hu
  generalize r.run.run u = result at hfirst hok hstopped ⊢
  generalize s.run.run (u.plain.cancelAt token k) = result' at hfirst ⊢
  cases hfirst with
  | ok hpending => exact hok _ _ rfl hpending
  | error hlength hlookups => exact herror _ _ _ hlength hlookups
  | @stopped last u' v' hlength hreached hlookups =>
    cases last with
    | error e => exact hstopped _ _ _ hlength hlength hreached hlookups
    | ok a =>
      obtain ⟨hasked, hgrown⟩ := hgrows a u'
      refine hstopped _ _ _ hlength (Nat.lt_of_lt_of_le hlength hasked.length_le)
        (Nat.le_trans hreached hgrown.length_le) ?_
      obtain ⟨more, hmore⟩ := hgrown
      change _ = ((f a).run.run u').2.reached.take k
      rw [hlookups, ← hmore, List.take_append_of_le_length hreached]

/-- A run that follows one that was stopped is not run either. -/
theorem bind {r : Run (Logged (Logged σ)) ε α} {s : Run (Logged σ) ε α}
    {f : α → Run (Logged (Logged σ)) ε β} {g : α → Run (Logged σ) ε β}
    (h : StopsAt token k stop r s) (hnext : ∀ a, StopsAt token k stop (f a) (g a)) :
    StopsAt token k stop (r >>= f) (s >>= g) where
  cutShort _ hu := h.bind_ends (fun a => (hnext a).grows) hu
    (fun a u' _ hu' => (hnext a).cutShort u' hu') (fun _ _ _ => .error)
    fun _ _ _ _ => .stopped
  grows := h.grows.bind fun a => (hnext a).grows

/-- Changing the errors changes the error of a run that is stopped. -/
theorem adapt {r : Run (Logged (Logged σ)) ε α} {s : Run (Logged σ) ε α}
    (h : StopsAt token k stop r s) (f : ε → ε') :
    StopsAt token k (f stop) (r.adapt f) (s.adapt f) := by
  refine ⟨fun u hu => ?_, h.grows.adapt f⟩
  rw [run_adapt, run_adapt]
  have hfirst := h.cutShort u hu
  generalize r.run.run u = result at hfirst ⊢
  generalize s.run.run (u.plain.cancelAt token k) = result' at hfirst ⊢
  cases hfirst with
  | ok hpending => exact .ok hpending
  | error hlength hlookups => exact .error hlength hlookups
  | stopped hlength hreached hlookups => exact .stopped hlength hreached hlookups

/-- A lookup that is asked for only adds to the records. -/
theorem grows_lookup_observed (ctx : Context) (inner : Resolver σ) (name : String) :
    (inner.observed.lookup ctx name).Grows := by
  intro u
  rw [Resolver.run_lookup_observed]
  cases ctx.stop? u.plain with
  | some e => exact ⟨List.prefix_append _ _, List.prefix_rfl⟩
  | none => exact ⟨List.prefix_append _ _, List.prefix_append _ _⟩

/-- A lookup is stopped if the token was cancelled during the one before, and is made otherwise. -/
theorem lookup {ctx : Context} (h : ctx.token = some token) (inner : Resolver σ) (name : String) :
    StopsAt token k .cancelled (inner.observed.lookup ctx name)
      ((inner.cancelling token k).checked.lookup ctx name) := by
  refine ⟨fun u hu => ?_, grows_lookup_observed ctx inner name⟩
  rw [Resolver.run_lookup_observed, Resolver.run_lookup_checked]
  obtain ⟨hsame, hlength⟩ := hu
  rw [hsame] at hlength ⊢
  by_cases hk : u.reached.length = k
  · have hcancelled : u.plain.cancelAt token k = u.plain.cancel token := if_pos hk
    have hall : u.reached.take k = u.reached := List.take_of_length_le (Nat.le_of_eq hk)
    have hnext (l : Lookup) : k < (u.reached ++ [l]).length := by
      rw [List.length_append, List.length_singleton]
      omega
    rw [hcancelled, Context.stop?_cancel h]
    cases ctx.stop? u.plain with
    | some e => exact .stopped (hnext _) (Nat.le_of_eq hk.symm) hall.symm
    | none =>
      refine .stopped (hnext _) (Nat.le_of_lt (hnext _)) ?_
      change u.reached = (u.reached ++ [_]).take k
      rw [List.take_append_of_le_length (Nat.le_of_eq hk.symm), hall]
  · have hlive : u.plain.cancelAt token k = u.plain := if_neg hk
    have hnext (l : Lookup) : (u.reached ++ [l]).length ≤ k := by
      rw [List.length_append, List.length_singleton]
      omega
    rw [hlive]
    cases ctx.stop? u.plain with
    | some e => exact .error (hnext _) (List.take_of_length_le hlength).symm
    | none =>
      dsimp only
      rw [Resolver.run_lookup_cancelling]
      generalize (inner.lookup ctx name).run.run u.plain.plain = result
      obtain ⟨e | a, w⟩ := result
      · refine .error (hnext _) ?_
        rw [World.lookups_cancelAt]
        exact (List.take_of_length_le (hnext _)).symm
      · exact .ok ⟨rfl, hnext _⟩

/-- Evaluation respects that runs are cut short. -/
def congruence (σ : Type) (token : TokenId) (k : Nat) :
    Congruence (Logged (Logged σ)) (Logged σ) where
  Related := StopsAt token k .cancelled
  ofExcept _ := .ofExcept _
  bind := bind

end Run.StopsAt

section Texts

variable {ctx : Context} {token : TokenId} (h : ctx.token = some token) (k : Nat)
  (inner : Resolver σ)

include h

/-- The evaluation of a tree is stopped at the next variable. -/
theorem Expr.stopsAt_evaluate (e : Expr) :
    Run.StopsAt token k .cancelled (e.evaluate ctx inner.observed)
      (e.evaluate ctx (inner.cancelling token k).checked) :=
  related_evaluate (Run.StopsAt.congruence σ token k) e fun name _ => .lookup h inner name

/-- The evaluation of a tree to a number is stopped at the next variable. -/
theorem Expr.stopsAt_evaluateNumber (e : Expr) :
    Run.StopsAt token k .cancelled (e.evaluateNumber ctx inner.observed)
      (e.evaluateNumber ctx (inner.cancelling token k).checked) :=
  related_evaluateNumber (Run.StopsAt.congruence σ token k) e fun name _ => .lookup h inner name

/-- The evaluation of a tree to a boolean is stopped at the next variable. -/
theorem Expr.stopsAt_evaluateBoolean (e : Expr) :
    Run.StopsAt token k .cancelled (e.evaluateBoolean ctx inner.observed)
      (e.evaluateBoolean ctx (inner.cancelling token k).checked) :=
  related_evaluateBoolean (Run.StopsAt.congruence σ token k) e fun name _ => .lookup h inner name

/-- The calculation of a formula is stopped at the next variable. -/
theorem Formula.stopsAt_calculate (text : String) :
    Run.StopsAt token k (.evaluation .cancelled) (calculate ctx inner.observed text)
      (calculate ctx (inner.cancelling token k).checked text) :=
  (Run.StopsAt.ofExcept (parse text)).bind fun e =>
    (e.stopsAt_evaluateNumber h k inner).adapt FormulaError.evaluation

/-- A condition is stopped at the next variable. -/
theorem Condition.stopsAt_holds (text : String) :
    Run.StopsAt token k (.evaluation .cancelled) (holds ctx inner.observed text)
      (holds ctx (inner.cancelling token k).checked text) := by
  rw [holds, holds]
  split
  · exact .ofExcept (.ok _)
  · exact (Run.StopsAt.ofExcept (parse text)).bind fun e =>
      (e.stopsAt_evaluateBoolean h k inner).adapt FormulaError.evaluation

end Texts

end FormulaRules
