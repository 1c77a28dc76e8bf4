import FormulaRules.Evaluation

/-!
# How a run succeeds

A run takes a world and gives a value or an error together with the world it leaves behind.
A run that is put together from others succeeds exactly if its parts do, one after the
other, each in the world that the one before has left.
-/

namespace FormulaRules

variable {σ ε α β : Type}

namespace Run

/-- The value or the error that a run gives in a world. -/
def outcome (r : Run σ ε α) (w : World σ) : Except ε α := (r.run.run w).1

/-- A bind goes on with the value of its first half, in the world that this half has left. -/
theorem run_bind (r : Run σ ε α) (f : α → Run σ ε β) (w : World σ) :
    (r >>= f).run.run w = match r.run.run w with
      | (.ok a, w') => (f a).run.run w'
      | (.error e, w') => (.error e, w') := by
  change (ExceptT.bindCont f (r.run.run w).1).run (r.run.run w).2 = _
  generalize r.run.run w = result
  rcases result with ⟨e | a, w'⟩
  · rfl
  · rfl

/-- A handler takes over where a run fails, in the world that the failure has left. -/
theorem run_tryCatch (r : Run σ ε α) (f : ε → Run σ ε α) (w : World σ) :
    (tryCatch r f).run.run w = match r.run.run w with
      | (.ok a, w') => (.ok a, w')
      | (.error e, w') => (f e).run.run w' := by
  change (tryCatch (.mk (pure (r.run.run w).1)) f : Run σ ε α).run.run (r.run.run w).2 = _
  generalize r.run.run w = result
  rcases result with ⟨e | a, w'⟩
  · rfl
  · rfl

/-- A bind succeeds if both halves do. -/
theorem bind_eq_ok_iff {r : Run σ ε α} {f : α → Run σ ε β} {w w' : World σ} {b : β} :
    (r >>= f).run.run w = (.ok b, w') ↔
      ∃ a w'', r.run.run w = (.ok a, w'') ∧ (f a).run.run w'' = (.ok b, w') := by
  rw [run_bind]
  generalize r.run.run w = result
  rcases result with ⟨e | a, mid⟩
  · constructor
    · rintro ⟨⟩
    · rintro ⟨a, w'', ⟨⟩, -⟩
  · constructor
    · exact fun h => ⟨a, mid, rfl, h⟩
    · rintro ⟨a', w'', ⟨⟩, h⟩
      exact h

/-- A run of an outcome gives it and leaves the world as it is. -/
theorem run_ofExcept (x : Except ε α) (w : World σ) :
    (ofExcept x : Run σ ε α).run.run w = (x, w) := by cases x <;> rfl

/-- Changing the errors of a run changes nothing else. -/
theorem run_adapt {ε' : Type} (f : ε → ε') (r : Run σ ε α) (w : World σ) :
    (r.adapt f).run.run w = ((r.run.run w).1.mapError f, (r.run.run w).2) := rfl

/-- A bind changes the errors of its first half only. -/
theorem run_bind_adapt {ε' : Type} (g : ε' → ε) (r : Run σ ε' α) (f : α → Run σ ε β) (w : World σ) :
    (r.adapt g >>= f).run.run w = match r.run.run w with
      | (.ok a, w') => (f a).run.run w'
      | (.error e, w') => (.error (g e), w') := by
  rw [run_bind, run_adapt]
  generalize r.run.run w = result
  rcases result with ⟨e | a, w'⟩
  · rfl
  · rfl

/-- A pure run gives no other value. -/
theorem pure_eq_ok_iff {a b : α} {w w' : World σ} :
    (pure a : Run σ ε α).run.run w = (.ok b, w') ↔ a = b ∧ w = w' := by
  change ((Except.ok a : Except ε α), w) = (.ok b, w') ↔ _
  simp

/-- A run of an outcome gives a value exactly if the outcome is this value. -/
theorem ofExcept_eq_ok_iff {x : Except ε α} {a : α} {w w' : World σ} :
    (ofExcept x : Run σ ε α).run.run w = (.ok a, w') ↔ x = .ok a ∧ w = w' := by
  rw [run_ofExcept, Prod.mk.injEq]

/-- A run succeeds if its value passes a check. -/
theorem exists_of_any_outcome {r : Run σ ε α} {w : World σ} {p : α → Bool}
    (h : (r.outcome w).toOption.any p = true) :
    ∃ a w', r.run.run w = (.ok a, w') ∧ p a = true := by
  rw [outcome] at h
  generalize r.run.run w = result at h ⊢
  rcases result with ⟨e | a, w'⟩
  · cases h
  · exact ⟨a, w', rfl, h⟩

/-- Changing the errors of a run keeps its values. -/
theorem adapt_eq_ok_iff {ε' : Type} {f : ε → ε'} {r : Run σ ε α} {w w' : World σ} {a : α} :
    (r.adapt f).run.run w = (.ok a, w') ↔ r.run.run w = (.ok a, w') := by
  rw [run_adapt]
  generalize r.run.run w = result
  rcases result with ⟨e | b, mid⟩
  · exact ⟨nofun, nofun⟩
  · change ((Except.ok b : Except ε' α), mid) = (.ok a, w') ↔ _
    rw [Prod.mk.injEq, Prod.mk.injEq, Except.ok.injEq, Except.ok.injEq]

end Run

end FormulaRules
