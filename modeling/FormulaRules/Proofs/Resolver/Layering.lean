import FormulaRules.Proofs.Resolver.Composition

/-!
# Layers over layers

Sources of any kind can be layered in any nesting. What such a nesting answers, and what it asks
of its sources, depends only on their order: a lookup and a question for a name go to one source
after the other until one does not miss, and the snapshots are taken from the last source to the
first.

A noted source answers as another one and keeps what it was asked under a label. Main statement:
layering is associative. Both nestings of three sources give the same answers in the same worlds
after the same questions, and these are the ones just described.
-/

namespace FormulaRules

variable {ι σ α β : Type}

/-- A question to a source. -/
inductive Question
  | value (ctx : Context) (name : String)
  | presence (name : String)
  | snapshot
deriving DecidableEq, Repr

/-- What sources remember together with the questions put to them so far, in order, each with the
label of its source. -/
structure Noted (ι σ : Type) where
  store : σ
  questions : List (ι × Question)

/-- A world that also keeps a record of questions. -/
def World.noted (w : World σ) (questions : List (ι × Question)) : World (Noted ι σ) :=
  ⟨w.cancelled, w.now, ⟨w.store, questions⟩⟩

/-- A world without its record of questions. -/
def World.unnoted (w : World (Noted ι σ)) : World σ := ⟨w.cancelled, w.now, w.store.store⟩

/-- The computation that does as another one and puts a question on record. -/
def noting (question : ι × Question) (m : StateM (World σ) α) : StateM (World (Noted ι σ)) α :=
  fun w =>
    let (a, w') := m.run w.unnoted
    (a, w'.noted (w.store.questions ++ [question]))

/-- A record has no influence on what is noted. -/
theorem run_noting (question : ι × Question) (m : StateM (World σ) α) (w : World σ)
    (log : List (ι × Question)) :
    (noting question m).run (w.noted log) =
      ((m.run w).1, (m.run w).2.noted (log ++ [question])) := rfl

/-- The source that answers as another one and puts the questions on record under a label. -/
def Resolver.noted (label : ι) (source : Resolver σ) : Resolver (Noted ι σ) where
  lookup ctx name := ExceptT.mk (noting (label, .value ctx name) (source.lookup ctx name).run)
  has name := noting (label, .presence name) (source.has name)
  all := noting (label, .snapshot) source.all

/-! ## One source after the other -/

/-- Ask one after the other until an answer is not a miss, and say who was asked. If all miss, the
last miss is the answer. -/
def inTurn (ask : α → World σ → β × World σ) (missed : β → Bool) (last : β) :
    List α → World σ → (β × World σ) × List α
  | [], w => ((last, w), [])
  | a :: rest, w =>
    let (answer, w') := ask a w
    if missed answer then
      let (found, asked) := inTurn ask missed answer rest w'
      (found, a :: asked)
    else ((answer, w'), [a])

/-- The second part of a list is asked what the first part misses. -/
theorem inTurn_append {ask : α → World σ → β × World σ} {missed : β → Bool} {last : β}
    (hlast : missed last = true) (first second : List α) (w : World σ) :
    inTurn ask missed last (first ++ second) w =
      let ((answer, w'), asked) := inTurn ask missed last first w
      if missed answer then
        let (found, others) := inTurn ask missed answer second w'
        (found, asked ++ others)
      else ((answer, w'), asked) := by
  induction first generalizing last w with
  | nil => exact (if_pos hlast).symm
  | cons a rest ih =>
    simp only [List.cons_append, inTurn]
    by_cases hmissed : missed (ask a w).1 = true
    · rw [if_pos hmissed, if_pos hmissed, ih hmissed]
      simp only [apply_ite Prod.fst, apply_ite Prod.snd, List.cons_append]
      split
      · rfl
      · rfl
    · rw [if_neg hmissed, if_neg hmissed, if_neg hmissed]

/-- If every question is put on record, those of the sources that were asked are. -/
theorem inTurn_noted {ask : α → World σ → β × World σ}
    {ask' : α → World (Noted ι σ) → β × World (Noted ι σ)} {question : α → ι × Question}
    (hask : ∀ a w log, ask' a (w.noted log) =
      ((ask a w).1, (ask a w).2.noted (log ++ [question a])))
    (missed : β → Bool) (last : β) (sources : List α) (w : World σ) (log : List (ι × Question)) :
    (inTurn ask' missed last sources (w.noted log)).1 =
      let ((answer, w'), asked) := inTurn ask missed last sources w
      (answer, w'.noted (log ++ asked.map question)) := by
  induction sources generalizing last w log with
  | nil => simp only [inTurn, List.map_nil, List.append_nil]
  | cons a rest ih =>
    simp only [inTurn, hask]
    by_cases hmissed : missed (ask a w).1 = true
    · rw [if_pos hmissed, if_pos hmissed]
      simp only [ih, List.map_cons, List.append_assoc, List.singleton_append]
    · rw [if_neg hmissed, if_neg hmissed, List.map_singleton]

/-- Take snapshots, the last one first, and lay each over those before it. -/
def layUp (all : α → StateM (World σ) Bindings) : List α → World σ → Bindings × World σ
  | [], w => (.empty, w)
  | a :: rest, w =>
    let lower := layUp all rest w
    let upper := (all a).run lower.2
    (upper.1.layOver lower.1, upper.2)

/-- The empty dictionary over another one changes nothing. -/
theorem Dictionary.empty_layOver (d : Dictionary α) : empty.layOver d = d :=
  ext_get? fun name => by rw [get?_layOver, get?_empty, Option.none_or]

/-- A dictionary over the empty one is as before. -/
theorem Dictionary.layOver_empty (d : Dictionary α) : d.layOver empty = d :=
  ext_get? fun name => by rw [get?_layOver, get?_empty, Option.or_none]

/-- It does not matter which of three dictionaries are laid over each other first. -/
theorem Dictionary.layOver_assoc (a b c : Dictionary α) :
    (a.layOver b).layOver c = a.layOver (b.layOver c) :=
  ext_get? fun name => by simp only [get?_layOver, Option.or_assoc]

/-- The snapshots of the second part of a list are taken first. -/
theorem layUp_append (all : α → StateM (World σ) Bindings) (first second : List α) (w : World σ) :
    layUp all (first ++ second) w =
      let lower := layUp all second w
      let upper := layUp all first lower.2
      (upper.1.layOver lower.1, upper.2) := by
  induction first with
  | nil => simp only [List.nil_append, layUp, Dictionary.empty_layOver]
  | cons a rest ih => simp only [List.cons_append, layUp, ih, Dictionary.layOver_assoc]

/-- If every snapshot is put on record, those of all sources are, the last one first. -/
theorem layUp_noted {all : α → StateM (World σ) Bindings}
    {all' : α → StateM (World (Noted ι σ)) Bindings} {question : α → ι × Question}
    (hall : ∀ a w log, (all' a).run (w.noted log) =
      (((all a).run w).1, ((all a).run w).2.noted (log ++ [question a])))
    (sources : List α) (w : World σ) (log : List (ι × Question)) :
    layUp all' sources (w.noted log) =
      ((layUp all sources w).1,
        (layUp all sources w).2.noted (log ++ sources.reverse.map question)) := by
  induction sources with
  | nil => rw [layUp, layUp, List.reverse_nil, List.map_nil, List.append_nil]
  | cons a rest ih =>
    simp only [layUp, ih, hall, List.reverse_cons, List.map_append, List.map_singleton,
      List.append_assoc]

/-! ## Nestings -/

/-- Whether an answer to a lookup is a miss. -/
def isMiss : Except EvalError Value → Bool
  | .error (.variableNotFound _) => true
  | _ => false

namespace Resolver

/-- The second source is looked up for a miss. -/
theorem run_lookup_layered_ite (primary fallback : Resolver σ) (ctx : Context) (name : String)
    (w : World σ) :
    ((layered primary fallback).lookup ctx name).run.run w =
      let (answer, w') := (primary.lookup ctx name).run.run w
      if isMiss answer then (fallback.lookup ctx name).run.run w' else (answer, w') := by
  rw [run_lookup_layered]
  generalize (primary.lookup ctx name).run.run w = result
  obtain ⟨e | v, w'⟩ := result
  · cases e <;> rfl
  · rfl

end Resolver

/-- Sources layered over each other in some nesting. -/
inductive Layers (α : Type)
  | source (a : α)
  | layered (upper lower : Layers α)

namespace Layers

/-- The sources of a nesting, the upper ones first. -/
def order : Layers α → List α
  | source a => [a]
  | layered upper lower => upper.order ++ lower.order

/-- The source that a nesting makes. -/
def resolver (of : α → Resolver σ) : Layers α → Resolver σ
  | source a => of a
  | layered upper lower => .layered (upper.resolver of) (lower.resolver of)

/-- If the lower part is asked what the upper part misses, then the sources are asked in turn. -/
theorem eq_inTurn (run : Layers α → World σ → β × World σ) {missed : β → Bool}
    (hlayered : ∀ upper lower w, run (.layered upper lower) w =
      let (answer, w') := run upper w
      if missed answer then run lower w' else (answer, w'))
    {last : β} (hlast : missed last = true) (l : Layers α) (w : World σ) :
    run l w = (inTurn (fun a => run (.source a)) missed last l.order w).1 := by
  induction l generalizing last w with
  | source a =>
    simp only [order, inTurn]
    split
    · rfl
    · rfl
  | layered upper lower ihupper ihlower =>
    rw [hlayered, order, inTurn_append hlast, ihupper hlast]
    by_cases hmissed : missed (inTurn (fun a => run (.source a)) missed last upper.order w).1.1
    · simp only [if_pos hmissed]
      exact ihlower hmissed _
    · simp only [if_neg hmissed]

variable (of : α → Resolver σ) (l : Layers α)

/-- A nesting looks a name up in its sources in turn. -/
theorem run_lookup (ctx : Context) (name : String) (w : World σ) :
    ((l.resolver of).lookup ctx name).run.run w =
      (inTurn (fun a => ((of a).lookup ctx name).run.run) isMiss (.error (.variableNotFound name))
        l.order w).1 :=
  eq_inTurn (fun l => ((l.resolver of).lookup ctx name).run.run)
    (fun _ _ => Resolver.run_lookup_layered_ite _ _ ctx name) rfl l w

/-- A nesting asks its sources in turn whether they have a name. -/
theorem run_has (name : String) (w : World σ) :
    ((l.resolver of).has name).run w =
      (inTurn (fun a => ((of a).has name).run) not false l.order w).1 :=
  eq_inTurn (fun l => ((l.resolver of).has name).run)
    (fun _ _ => Resolver.run_has_layered _ _ name) rfl l w

/-- A nesting takes the snapshots of its sources, the last one first. -/
theorem run_all (w : World σ) :
    (l.resolver of).all.run w = layUp (fun a => (of a).all) l.order w := by
  induction l generalizing w with
  | source a => simp only [resolver, order, layUp, Dictionary.layOver_empty, Prod.eta]
  | layered upper lower ihupper ihlower =>
    simp only [resolver, order, Resolver.run_all_layered, layUp_append, ihlower, ihupper]

end Layers

/-- The source that a nesting makes if the questions to each of its sources are put on record. -/
def Layers.noted (l : Layers (ι × Resolver σ)) : Resolver (Noted ι σ) :=
  l.resolver fun s => s.2.noted s.1

/-- The first answer to a lookup that is not a miss, or the last miss, and who was asked for it. -/
def lookupInTurn (ctx : Context) (name : String) :
    List (ι × Resolver σ) → World σ → (Except EvalError Value × World σ) × List (ι × Resolver σ) :=
  inTurn (fun s => (s.2.lookup ctx name).run.run) isMiss (.error (.variableNotFound name))

/-- Whether one of the sources has a name, and who was asked for it. -/
def hasInTurn (name : String) :
    List (ι × Resolver σ) → World σ → (Bool × World σ) × List (ι × Resolver σ) :=
  inTurn (fun s => (s.2.has name).run) not false

namespace Layers

variable (l : Layers (ι × Resolver σ))

/-- A lookup puts one question to each of the sources that are asked for the name. -/
theorem run_lookup_noted (ctx : Context) (name : String) (w : World σ)
    (log : List (ι × Question)) :
    (l.noted.lookup ctx name).run.run (w.noted log) =
      let ((answer, w'), asked) := lookupInTurn ctx name l.order w
      (answer, w'.noted (log ++ asked.map fun s => (s.1, .value ctx name))) := by
  rw [noted, l.run_lookup]
  exact inTurn_noted (fun s => run_noting (s.1, .value ctx name) (s.2.lookup ctx name).run) isMiss _
    l.order w log

/-- A question for a name goes once to each of the sources that are asked for it. -/
theorem run_has_noted (name : String) (w : World σ) (log : List (ι × Question)) :
    (l.noted.has name).run (w.noted log) =
      let ((answer, w'), asked) := hasInTurn name l.order w
      (answer, w'.noted (log ++ asked.map fun s => (s.1, .presence name))) := by
  rw [noted, l.run_has]
  exact inTurn_noted (fun s => run_noting (s.1, .presence name) (s.2.has name)) not false l.order w
    log

/-- Every source is asked once for its snapshot, the last one first. -/
theorem run_all_noted (w : World σ) (log : List (ι × Question)) :
    l.noted.all.run (w.noted log) =
      let (vars, w') := layUp (fun s => s.2.all) l.order w
      (vars, w'.noted (log ++ l.order.reverse.map fun s => (s.1, .snapshot))) := by
  rw [noted, l.run_all]
  exact layUp_noted (fun s => run_noting (s.1, .snapshot) s.2.all) l.order w log

end Layers

/-- Layering is associative. Both nestings of three sources give the same value or error to every
lookup, the same answer to every question for a name and the same snapshot, and leave the same world
behind. They get there by the same questions: a lookup and a question for a name ask in turn until
one source does not miss, and a snapshot asks the last source first. -/
theorem Resolver.layered_assoc (a b c : Resolver σ) (i j k : ι) :
    let sources := [(i, a), (j, b), (k, c)]
    let left := layered (layered a b) c
    let right := layered a (layered b c)
    let notedLeft := layered (layered (a.noted i) (b.noted j)) (c.noted k)
    let notedRight := layered (a.noted i) (layered (b.noted j) (c.noted k))
    (∀ ctx name w log, ∃ answer w' asked,
      lookupInTurn ctx name sources w = ((answer, w'), asked) ∧
      (left.lookup ctx name).run.run w = (answer, w') ∧
      (right.lookup ctx name).run.run w = (answer, w') ∧
      (notedLeft.lookup ctx name).run.run (w.noted log) =
        (answer, w'.noted (log ++ asked.map fun s => (s.1, .value ctx name))) ∧
      (notedRight.lookup ctx name).run.run (w.noted log) =
        (answer, w'.noted (log ++ asked.map fun s => (s.1, .value ctx name)))) ∧
    (∀ name w log, ∃ answer w' asked,
      hasInTurn name sources w = ((answer, w'), asked) ∧
      (left.has name).run w = (answer, w') ∧ (right.has name).run w = (answer, w') ∧
      (notedLeft.has name).run (w.noted log) =
        (answer, w'.noted (log ++ asked.map fun s => (s.1, .presence name))) ∧
      (notedRight.has name).run (w.noted log) =
        (answer, w'.noted (log ++ asked.map fun s => (s.1, .presence name)))) ∧
    ∀ w log, ∃ vars w',
      layUp (fun s => s.2.all) sources w = (vars, w') ∧
      left.all.run w = (vars, w') ∧ right.all.run w = (vars, w') ∧
      notedLeft.all.run (w.noted log) =
        (vars, w'.noted (log ++ [(k, .snapshot), (j, .snapshot), (i, .snapshot)])) ∧
      notedRight.all.run (w.noted log) =
        (vars, w'.noted (log ++ [(k, .snapshot), (j, .snapshot), (i, .snapshot)])) := by
  intro sources left right notedLeft notedRight
  -- Both nestings have their sources in the same order.
  let leftLayers : Layers (ι × Resolver σ) :=
    .layered (.layered (.source (i, a)) (.source (j, b))) (.source (k, c))
  let rightLayers : Layers (ι × Resolver σ) :=
    .layered (.source (i, a)) (.layered (.source (j, b)) (.source (k, c)))
  refine ⟨fun ctx name w log => ?_, fun name w log => ?_, fun w log => ?_⟩
  · exact ⟨_, _, _, rfl, leftLayers.run_lookup Prod.snd ctx name w,
      rightLayers.run_lookup Prod.snd ctx name w, leftLayers.run_lookup_noted ctx name w log,
      rightLayers.run_lookup_noted ctx name w log⟩
  · exact ⟨_, _, _, rfl, leftLayers.run_has Prod.snd name w, rightLayers.run_has Prod.snd name w,
      leftLayers.run_has_noted name w log, rightLayers.run_has_noted name w log⟩
  · exact ⟨_, _, rfl, leftLayers.run_all Prod.snd w, rightLayers.run_all Prod.snd w,
      leftLayers.run_all_noted w log, rightLayers.run_all_noted w log⟩

/-- Of three sources the first one misses and the second one stops. The third one is not asked,
although it has the name. -/
example :
    let vars : Bindings := Dictionary.ofList [("tier", .string "gold")]
    let sources : List (String × Resolver Unit) :=
      [("order", .ofBindings .empty), ("region", .checked (.ofBindings .empty)),
        ("general", .ofBindings vars)]
    let ((answer, _), asked) := lookupInTurn ⟨none, some 7⟩ "tier" sources ⟨[], 7, ()⟩
    answer = .error .deadlineExceeded ∧ asked.map Prod.fst = ["order", "region"] := ⟨rfl, rfl⟩

end FormulaRules
