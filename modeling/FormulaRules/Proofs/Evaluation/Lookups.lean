import FormulaRules.Proofs.Evaluation.Faults
import FormulaRules.Proofs.Evaluation.Simulation

/-!
# The lookups of an evaluation

A recording source answers as another one and keeps what it was asked and what it answered.
Evaluating against it shows the lookups of an evaluation without changing its outcome, also
when the answers differ from one lookup to the next.

Main statement: a tree looks its variables up from left to right, each occurrence at most
once and all of them if it has a value. Only a conditional whose condition was read leaves
occurrences out, those of the branch it does not choose. A lookup that fails is the last one,
its error is the outcome, and the errors that only lookups have come from nowhere else.
-/

namespace FormulaRules

variable {σ α β : Type}

/-- A lookup: the name asked for and the answer. -/
structure Lookup where
  name : String
  answer : Except EvalError Value

/-- What a source remembers together with the lookups made so far, in order. -/
structure Logged (σ : Type) where
  store : σ
  lookups : List Lookup

/-- A world that also keeps a record of lookups. -/
def World.logged (w : World σ) (lookups : List Lookup) : World (Logged σ) :=
  ⟨w.cancelled, w.now, ⟨w.store, lookups⟩⟩

/-- A world without its record of lookups. -/
def World.plain (w : World (Logged σ)) : World σ := ⟨w.cancelled, w.now, w.store.store⟩

namespace Resolver

/-- The source that answers as another one and records the lookups. -/
def recording (source : Resolver σ) : Resolver (Logged σ) where
  lookup ctx name := ExceptT.mk fun w =>
    let (answer, w') := (source.lookup ctx name).run.run w.plain
    (answer, w'.logged (w.store.lookups ++ [⟨name, answer⟩]))
  has name := fun w =>
    let (answer, w') := (source.has name).run w.plain
    (answer, w'.logged w.store.lookups)
  all := fun w =>
    let (answer, w') := source.all.run w.plain
    (answer, w'.logged w.store.lookups)

/-- A recorded lookup gives the answer of the source and puts it on record. -/
theorem run_lookup_recording (source : Resolver σ) (ctx : Context) (name : String) (w : World σ)
    (log : List Lookup) :
    (source.recording.lookup ctx name).run.run (w.logged log) =
      (((source.lookup ctx name).run.run w).1,
        ((source.lookup ctx name).run.run w).2.logged
          (log ++ [⟨name, ((source.lookup ctx name).run.run w).1⟩])) := rfl

/-- A lookup has the same answer with and without a record. -/
theorem simulates_lookup_recording (source : Resolver σ) (ctx : Context) (name : String) :
    Run.Simulates (fun w v => v.plain = w) (fun _ => False) Eq (source.lookup ctx name)
      (source.recording.lookup ctx name) := by
  intro w v hworld
  subst hworld
  change Run.Corresponds _ _ _ _
    (((source.lookup ctx name).run.run v.plain).1,
      ((source.lookup ctx name).run.run v.plain).2.logged _)
  generalize (source.lookup ctx name).run.run v.plain = result
  obtain ⟨e | value, w'⟩ := result
  · exact .error rfl
  · exact .ok rfl rfl

/-- The source that gives prepared answers one after the other, whatever it is asked. -/
def scripted : Resolver (List Value) where
  lookup _ _ := do
    let w ← get
    match w.store with
    | [] => throw (.lookupFailed "no answer is left")
    | v :: rest =>
      set { w with store := rest }
      return v
  has _ := return true
  all := return Dictionary.empty

end Resolver

/-- The lookups that a run against a recording source makes. -/
def Run.lookups {ε : Type} (r : Run (Logged σ) ε α) (w : World σ) : List Lookup :=
  (r.run.run (w.logged [])).2.store.lookups

/-- The names left to a second part of a run: what it leaves itself, from the world and with the
value that the first part gives, and all names if the first part fails. -/
def Run.left {ε : Type} (r : Run σ ε α) (names : List String) (next : α → World σ → List String)
    (w : World σ) : List String :=
  match r.run.run w with
  | (.ok a, w') => next a w'
  | (.error _, _) => names

/-- The names left to the branches of a conditional by the outcome of reading its condition. -/
def branchesLeft (onTrue onFalse : World σ → List String) (names : List String) :
    Except EvalError Bool → World σ → List String
  | .ok true, w => onTrue w
  | .ok false, w => onFalse w
  | .error _, _ => names

/-- Nothing is left by what asks for nothing. -/
theorem Run.left_nil {ε : Type} (r : Run σ ε α) (w : World σ) :
    r.left [] (fun _ _ => []) w = [] := by
  rw [left]
  split
  · rfl
  · rfl

/-- Whether a lookup was answered with a value. -/
def Lookup.Answered (l : Lookup) : Prop := ∃ v, l.answer = .ok v

/-- How the lookups of a run end together with its outcome. -/
inductive Ending : List Lookup → Except EvalError α → Prop
  /-- Every lookup is answered, and an error is none of a lookup. -/
  | answered {lookups : List Lookup} {outcome : Except EvalError α} :
    (∀ l ∈ lookups, l.Answered) → Computed outcome → Ending lookups outcome
  /-- The last lookup fails, and its error is the outcome. -/
  | refused {before : List Lookup} {name : String} {e : EvalError} :
    (∀ l ∈ before, l.Answered) → Ending (before ++ [⟨name, .error e⟩]) (.error e)

namespace Ending

/-- Nothing follows a lookup that fails, and its error is the outcome. -/
theorem of_error {lookups : List Lookup} {outcome : Except EvalError α} (h : Ending lookups outcome)
    (before : List Lookup) (name : String) (x : EvalError) (after : List Lookup)
    (heq : lookups = before ++ ⟨name, .error x⟩ :: after) : after = [] ∧ outcome = .error x := by
  have hfailed : ¬ Lookup.Answered ⟨name, .error x⟩ := nofun
  cases h with
  | answered hanswered _ =>
    have hmem : (⟨name, .error x⟩ : Lookup) ∈ lookups := by
      rw [heq]
      exact List.mem_append_right _ List.mem_cons_self
    exact absurd (hanswered _ hmem) hfailed
  | @refused answered name' x' hanswered =>
    rcases List.eq_nil_or_concat after with rfl | ⟨init, last, rfl⟩
    · obtain ⟨-, hlast⟩ := List.append_inj' heq rfl
      cases hlast
      exact ⟨rfl, rfl⟩
    · -- Otherwise the failed lookup would be among those before the last one.
      rw [List.concat_eq_append, ← List.cons_append, ← List.append_assoc] at heq
      obtain ⟨hinit, -⟩ := List.append_inj' heq rfl
      rw [hinit] at hanswered
      exact absurd (hanswered _ (List.mem_append_right _ List.mem_cons_self)) hfailed

/-- An error that only lookups have is the error of the last lookup. -/
theorem exists_of_isLookupFault {lookups : List Lookup} {outcome : Except EvalError α}
    (h : Ending lookups outcome) (x : EvalError) (heq : outcome = .error x)
    (hfault : x.isLookupFault = true) :
    ∃ before name, lookups = before ++ [⟨name, .error x⟩] := by
  cases h with
  | answered _ hcomputed =>
    rw [EvalError.isLookupFault_of_isComputed (hcomputed x heq)] at hfault
    cases hfault
  | @refused before name _ _ =>
    cases heq
    exact ⟨before, name, rfl⟩

end Ending

/-- What the lookups of a run have to do with the names that are to be looked up and with the
outcome. -/
structure Trace (names : List String) (lookups : List Lookup) (outcome : Except EvalError α) :
    Prop where
  asked : lookups.map Lookup.name <+: names
  complete : ∀ a, outcome = .ok a → lookups.map Lookup.name = names
  ending : Ending lookups outcome

namespace Trace

/-- Lookups that are all answered may be followed by others. -/
theorem append {names names' : List String} {lookups lookups' : List Lookup} {a : α}
    {outcome : Except EvalError β} (h : Trace names lookups (.ok a : Except EvalError α))
    (h' : Trace names' lookups' outcome) :
    Trace (names ++ names') (lookups ++ lookups') outcome := by
  have hall : ∀ l ∈ lookups, l.Answered := by
    cases h.ending with
    | answered hanswered _ => exact hanswered
  refine ⟨?_, ?_, ?_⟩
  · rw [List.map_append, h.complete a rfl]
    exact (List.prefix_append_right_inj names).mpr h'.asked
  · intro b hb
    rw [List.map_append, h.complete a rfl, h'.complete b hb]
  · cases h'.ending with
    | answered hanswered hcomputed =>
      refine .answered (fun l hl => ?_) hcomputed
      exact (List.mem_append.mp hl).elim (hall l) (hanswered l)
    | refused hanswered =>
      rw [← List.append_assoc]
      refine .refused fun l hl => ?_
      exact (List.mem_append.mp hl).elim (hall l) (hanswered l)

/-- A failure leaves the names after it alone. -/
theorem stop {names : List String} {lookups : List Lookup} {e : EvalError}
    (h : Trace names lookups (.error e : Except EvalError α)) (names' : List String) :
    Trace (names ++ names') lookups (.error e : Except EvalError β) := by
  refine ⟨h.asked.trans (List.prefix_append names names'), nofun, ?_⟩
  cases h.ending with
  | answered hanswered hcomputed =>
    exact .answered hanswered (.error (hcomputed e rfl))
  | refused hanswered => exact .refused hanswered

end Trace

/-- Whether a run against a recording source has the outcome of the plain run and puts on record
lookups of the names that are to be looked up. -/
def Records (names : World σ → List String) (r : Run σ EvalError α)
    (s : Run (Logged σ) EvalError α) : Prop :=
  ∀ w log, ∃ lookups, s.run.run (w.logged log) =
      ((r.run.run w).1, (r.run.run w).2.logged (log ++ lookups)) ∧
    Trace (names w) lookups (r.run.run w).1

namespace Records

/-- A lookup is put on record. -/
theorem lookup (source : Resolver σ) (ctx : Context) (name : String) :
    Records (fun _ => [name]) (source.lookup ctx name) (source.recording.lookup ctx name) := by
  intro w log
  refine ⟨_, source.run_lookup_recording ctx name w log, List.prefix_rfl, fun _ _ => rfl, ?_⟩
  generalize ((source.lookup ctx name).run.run w).1 = answer
  cases answer with
  | ok v =>
    refine .answered (fun l hl => ?_) (.ok v)
    rw [List.mem_singleton.mp hl]
    exact ⟨v, rfl⟩
  | error e =>
    change Ending ([] ++ [⟨name, .error e⟩]) _
    exact .refused nofun

/-- What is computed makes no lookup. -/
theorem ofExcept {x : Except EvalError α} (h : Computed x) :
    Records (σ := σ) (fun _ => []) (Run.ofExcept x) (Run.ofExcept x) := by
  intro w log
  rw [Run.run_ofExcept, Run.run_ofExcept]
  exact ⟨[], by rw [List.append_nil], List.prefix_rfl, fun _ _ => rfl, .answered nofun h⟩

/-- A second part is put on record after the first one, in the world that this one leaves. -/
theorem bind {names : World σ → List String} {names' : α → World σ → List String}
    {r : Run σ EvalError α} {s : Run (Logged σ) EvalError α} {f : α → Run σ EvalError β}
    {g : α → Run (Logged σ) EvalError β} (h : Records names r s)
    (hnext : ∀ a, Records (names' a) (f a) (g a)) (others : List String) :
    Records (fun w => names w ++ r.left others names' w) (r >>= f) (s >>= g) := by
  intro w log
  obtain ⟨lookups, hrun, htrace⟩ := h w log
  simp only [Run.run_bind, hrun, Run.left]
  generalize r.run.run w = result at htrace ⊢
  obtain ⟨outcome, w'⟩ := result
  cases outcome with
  | error e => exact ⟨lookups, rfl, htrace.stop others⟩
  | ok a =>
    obtain ⟨lookups', hrun', htrace'⟩ := hnext a w' (log ++ lookups)
    refine ⟨lookups ++ lookups', ?_, htrace.append htrace'⟩
    rw [← List.append_assoc]
    exact hrun'

/-- A second part without lookups leaves the record as it is. -/
theorem bind_last {names : World σ → List String} {r : Run σ EvalError α}
    {s : Run (Logged σ) EvalError α} {f : α → Run σ EvalError β}
    {g : α → Run (Logged σ) EvalError β} (h : Records names r s)
    (hnext : ∀ a, Records (fun _ => []) (f a) (g a)) : Records names (r >>= f) (s >>= g) := by
  have hbind := h.bind hnext []
  simp only [Run.left_nil, List.append_nil] at hbind
  exact hbind

/-- What follows an outcome depends on it, and after an error nothing is put on record. -/
theorem ofExcept_bind {x : Except EvalError α} {names : Except EvalError α → World σ → List String}
    {f : α → Run σ EvalError β} {g : α → Run (Logged σ) EvalError β} (h : Computed x)
    (hnext : ∀ a, Records (names (.ok a)) (f a) (g a)) :
    Records (names x) (Run.ofExcept x >>= f) (Run.ofExcept x >>= g) := by
  intro w log
  rw [Run.run_bind, Run.run_bind, Run.run_ofExcept, Run.run_ofExcept]
  cases x with
  | ok a => exact hnext a w log
  | error e =>
    refine ⟨[], by rw [List.append_nil], List.nil_prefix, nofun, ?_⟩
    exact .answered nofun (.error (h e rfl))

end Records

namespace Expr

mutual

/-- The occurrences of variables that remain in a tree when every conditional that is reached
with a condition that can be read loses the branch it does not choose. -/
def remaining (ctx : Context) (source : Resolver σ) : Expr → World σ → List String
  | literal _, _ => []
  | var x, _ => [x]
  | binary _ a b, w =>
    a.remaining ctx source w ++
      (a.evaluate ctx source).left b.occurrences (fun _ => b.remaining ctx source) w
  | conditional c a b, w =>
    c.remaining ctx source w ++
      (c.evaluate ctx source).left (a.occurrences ++ b.occurrences) (fun v =>
        branchesLeft (a.remaining ctx source) (b.remaining ctx source)
          (a.occurrences ++ b.occurrences) (v.toBoolean "?:")) w
  | call _ args, w => remainingAll ctx source args w

/-- The occurrences of variables that remain in a list of trees. -/
def remainingAll (ctx : Context) (source : Resolver σ) : List Expr → World σ → List String
  | [], _ => []
  | e :: rest, w =>
    e.remaining ctx source w ++
      (e.evaluate ctx source).left (occurrencesAll rest) (fun _ => remainingAll ctx source rest) w

end

mutual

/-- The evaluation of a tree puts the remaining occurrences on record. -/
theorem records_evaluate (ctx : Context) (source : Resolver σ) (e : Expr) :
    Records (e.remaining ctx source) (e.evaluate ctx source)
      (e.evaluate ctx source.recording) := by
  cases e with
  | literal v => exact .ofExcept (v.operational_finiteFrom _).computed
  | var name =>
    refine (Records.lookup source ctx name).bind_last fun v => ?_
    exact .ofExcept (v.operational_finiteFrom _).computed
  | binary op a b =>
    refine (records_evaluate ctx source a).bind (fun v => ?_) b.occurrences
    refine (records_evaluate ctx source b).bind_last fun w => ?_
    exact .ofExcept (op.operational_apply v w).computed
  | conditional c a b =>
    refine (records_evaluate ctx source c).bind (fun v => ?_) (a.occurrences ++ b.occurrences)
    refine .ofExcept_bind (v.operational_toBoolean "?:").computed fun chosen => ?_
    cases chosen with
    | true => exact records_evaluate ctx source a
    | false => exact records_evaluate ctx source b
  | call name args =>
    refine (records_evaluateAll ctx source args).bind_last fun vs => ?_
    exact .ofExcept (Registry.computed_call_builtins name vs)

/-- The evaluation of a list of trees puts the remaining occurrences on record. -/
theorem records_evaluateAll (ctx : Context) (source : Resolver σ) (es : List Expr) :
    Records (remainingAll ctx source es) (evaluateAll ctx source es)
      (evaluateAll ctx source.recording es) := by
  cases es with
  | nil => exact .ofExcept (.ok [])
  | cons e rest =>
    refine (records_evaluate ctx source e).bind (fun v => ?_) (occurrencesAll rest)
    exact (records_evaluateAll ctx source rest).bind_last fun vs => .ofExcept (.ok (v :: vs))

end

end Expr

/-- What is left to a second part is among its names. -/
theorem Run.left_sublist {ε : Type} (r : Run σ ε α) {names : List String}
    {next : α → World σ → List String} (h : ∀ a w, (next a w).Sublist names) (w : World σ) :
    (r.left names next w).Sublist names := by
  rw [left]
  split
  · exact h _ _
  · exact List.Sublist.refl names

namespace Expr

mutual

/-- The occurrences that remain are among all of them, in their order. -/
theorem remaining_sublist (ctx : Context) (source : Resolver σ) (e : Expr) (w : World σ) :
    (e.remaining ctx source w).Sublist e.occurrences := by
  cases e with
  | literal v => exact List.Sublist.refl _
  | var name => exact List.Sublist.refl _
  | binary op a b =>
    exact (remaining_sublist ctx source a w).append
      (Run.left_sublist _ (fun _ w' => remaining_sublist ctx source b w') w)
  | conditional c a b =>
    rw [occurrences, List.append_assoc]
    refine (remaining_sublist ctx source c w).append (Run.left_sublist _ (fun v w' => ?_) w)
    generalize v.toBoolean "?:" = outcome
    cases outcome with
    | error e => exact List.Sublist.refl _
    | ok chosen =>
      cases chosen with
      | true =>
        exact (remaining_sublist ctx source a w').trans (List.sublist_append_left _ _)
      | false =>
        exact (remaining_sublist ctx source b w').trans (List.sublist_append_right _ _)
  | call name args => exact remainingAll_sublist ctx source args w

/-- The occurrences that remain in a list of trees are among all of them, in their order. -/
theorem remainingAll_sublist (ctx : Context) (source : Resolver σ) (es : List Expr) (w : World σ) :
    (remainingAll ctx source es w).Sublist (occurrencesAll es) := by
  cases es with
  | nil => exact List.Sublist.refl _
  | cons e rest =>
    exact (remaining_sublist ctx source e w).append
      (Run.left_sublist _ (fun _ w' => remainingAll_sublist ctx source rest w') w)

end

/-- An evaluation looks up a prefix of the remaining occurrences, each at most once, and all of
them if it gives a value. The lookup that fails is the last one and its error is the outcome. An
error that only lookups have is the error of the last one. -/
theorem lookups_of_evaluate (ctx : Context) (source : Resolver σ) (e : Expr) (w : World σ) :
    ∃ lookups, (e.evaluate ctx source.recording).run.run (w.logged []) =
        ((e.evaluate ctx source).outcome w,
          ((e.evaluate ctx source).run.run w).2.logged lookups) ∧
      lookups.map Lookup.name <+: e.remaining ctx source w ∧
      (e.remaining ctx source w).Sublist e.occurrences ∧
      (∀ v, (e.evaluate ctx source).outcome w = .ok v →
        lookups.map Lookup.name = e.remaining ctx source w) ∧
      (∀ before name x after, lookups = before ++ ⟨name, .error x⟩ :: after →
        after = [] ∧ (e.evaluate ctx source).outcome w = .error x) ∧
      (∀ x, (e.evaluate ctx source).outcome w = .error x → x.isLookupFault = true →
        ∃ before name, lookups = before ++ [⟨name, .error x⟩]) := by
  obtain ⟨lookups, hrun, htrace⟩ := records_evaluate ctx source e w []
  refine ⟨lookups, hrun, htrace.asked, remaining_sublist ctx source e w, htrace.complete,
    ?_, ?_⟩
  · exact htrace.ending.of_error
  · exact htrace.ending.exists_of_isLookupFault

/-- Of four occurrences one stands in the branch that is not chosen. A source with three answers is
asked for the others, and a source with one answer refuses the second. -/
theorem lookups_of_evaluate_scripted :
    let e := binary .equal (conditional (var "a") (var "b") (var "c")) (var "d")
    let enough := World.start [Value.boolean true, .string "low", .string "low"]
    let tooFew := World.start [Value.boolean true]
    let refusal := EvalError.lookupFailed "no answer is left"
    ((e.evaluate Context.background .scripted).outcome enough = .ok (.boolean true) ∧
      ∃ lookups : List Lookup,
        (e.evaluate Context.background Resolver.scripted.recording).run.run (enough.logged []) =
          (.ok (.boolean true), ⟨[], 0, ⟨[], lookups⟩⟩) ∧
        lookups.map Lookup.name = ["a", "b", "d"]) ∧
    ((e.evaluate Context.background .scripted).outcome tooFew = .error refusal ∧
      ∃ (before : List Lookup) (name : String),
        (e.evaluate Context.background Resolver.scripted.recording).run.run (tooFew.logged []) =
          (.error refusal, ⟨[], 0, ⟨[], before ++ [⟨name, .error refusal⟩]⟩⟩)) := by
  intro e enough tooFew refusal
  have hvalue : (e.evaluate Context.background .scripted).outcome enough =
      .ok (.boolean true) := rfl
  have herror : (e.evaluate Context.background .scripted).outcome tooFew = .error refusal := rfl
  obtain ⟨lookups, hrun, -, -, hcomplete, -⟩ :=
    lookups_of_evaluate Context.background .scripted e enough
  obtain ⟨_, hrun', -, -, -, -, hfault⟩ :=
    lookups_of_evaluate Context.background .scripted e tooFew
  obtain ⟨before, name, rfl⟩ := hfault refusal herror rfl
  exact ⟨⟨hvalue, lookups, hrun, hcomplete _ hvalue⟩, ⟨herror, before, name, hrun'⟩⟩

end Expr

end FormulaRules
