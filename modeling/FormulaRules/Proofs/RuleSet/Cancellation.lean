import FormulaRules.Proofs.Evaluation.Cancellation
import FormulaRules.Proofs.RuleSet.Selection

/-!
# Rules that are cancelled on the way

Rules are tried one after the other, so the point at which a token is cancelled lies in a half of
one of them. Main statement: whatever is evaluated through a checked source, the next lookup after
that point ends it as cancelled, rules with the half in which the lookup is made. If there is no
such lookup, or if nothing is cancelled, the checks change nothing.
-/

namespace FormulaRules

variable {σ τ ε α : Type}

namespace Resolver

/-- A checked source answers alike with and without the records. -/
theorem simulates_lookup_observed (inner : Resolver σ) (ctx : Context) (name : String) :
    Run.Simulates (fun w u => u.plain.plain = w) (fun _ => False) Eq
      (inner.checked.lookup ctx name) (inner.observed.lookup ctx name) := by
  intro w u hworld
  subst hworld
  rw [run_lookup_checked, run_lookup_observed]
  have hstop : ctx.stop? u.plain.plain = ctx.stop? u.plain := rfl
  rw [hstop]
  cases ctx.stop? u.plain with
  | some e => exact .error rfl
  | none =>
    dsimp only
    generalize (inner.lookup ctx name).run.run u.plain.plain = result
    obtain ⟨e | v, w'⟩ := result
    · exact .error rfl
    · exact .ok rfl rfl

/-- Whether a context stays live during all lookups from the worlds of an invariant. -/
def StaysLive (inner : Resolver σ) (ctx : Context) (Live : World σ → Prop) : Prop :=
  ∀ w, Live w → ctx.stop? w = none ∧ ∀ name, Live ((inner.lookup ctx name).run.run w).2

/-- A context that stays live stays so when the lookups are put on record. -/
theorem StaysLive.recording {inner : Resolver σ} {ctx : Context} {Live : World σ → Prop}
    (h : inner.StaysLive ctx Live) : inner.recording.StaysLive ctx (fun v => Live v.plain) :=
  fun v hlive => h v.plain hlive

/-- A source is looked up alike with and without checks as long as the context is live. -/
theorem StaysLive.simulates_lookup {inner : Resolver σ} {ctx : Context} {Live : World σ → Prop}
    (h : inner.StaysLive ctx Live) (name : String) :
    Run.Simulates (fun w v => w = v ∧ Live w) (fun _ => False) Eq (inner.lookup ctx name)
      (inner.checked.lookup ctx name) := by
  rintro w _ ⟨rfl, hlive⟩
  obtain ⟨hstop, hkept⟩ := h w hlive
  have hlive' := hkept name
  rw [run_lookup_checked, hstop]
  dsimp only
  generalize (inner.lookup ctx name).run.run w = result at hlive' ⊢
  obtain ⟨e | v, w'⟩ := result
  · exact .error ⟨rfl, hlive'⟩
  · exact .ok rfl ⟨rfl, hlive'⟩

/-- Whether the evaluation `run` against a checked source is cancelled exactly at the lookup that
follows `k` others, if a token is cancelled during the last of these, or before the start if there
are none. No other lookup reaches the inner source then. -/
def CancelsNext (inner : Resolver σ) (token : TokenId) (k : Nat) (stop : ε) (w : World σ)
    (run : {τ : Type} → Resolver τ → Run τ ε α) : Prop :=
  let full := (run inner.observed).run.run ((w.logged []).logged [])
  let cut := (run (inner.cancelling token k).checked).run.run ((w.logged []).cancelAt token k)
  cut.2.store.lookups = full.2.reached.take k ∧
  cut.1 = if k < full.2.asked.length then .error stop else (run inner.checked).outcome w

/-- Whether the evaluation `run` is the same against a source with and without checks, and makes the
same lookups. -/
def ChecksNothing (inner : Resolver σ) (w : World σ)
    (run : {τ : Type} → Resolver τ → Run τ ε α) : Prop :=
  (run inner.checked).run.run w = (run inner).run.run w ∧
  (run inner.recording.checked).lookups w = (run inner.recording).lookups w

/-- The records are empty before the start. -/
theorem pending_start (k : Nat) (w : World σ) : ((w.logged []).logged []).Pending k :=
  ⟨rfl, Nat.zero_le k⟩

/-- An evaluation that is cut short, and that the records do not change, is cancelled at the next
lookup. -/
theorem cancelsNext {inner : Resolver σ} {token : TokenId} {k : Nat} {stop : ε}
    {excused : ε → Prop} (run : {τ : Type} → Resolver τ → Run τ ε α)
    (hstops : Run.StopsAt token k stop (run inner.observed)
      (run (inner.cancelling token k).checked))
    (hsame : Run.Simulates (fun w u => u.plain.plain = w) excused Eq (run inner.checked)
      (run inner.observed)) (hexcused : ∀ e, ¬excused e) (w : World σ) :
    CancelsNext inner token k stop w run := by
  have houtcome := hsame.outcome_eq hexcused (fun _ _ => id) (w := w)
    (v := (w.logged []).logged []) rfl
  have hcut := hstops.cutShort _ (pending_start k w)
  rw [CancelsNext, houtcome, Run.outcome]
  change CutShort token k stop _ ((run (inner.cancelling token k).checked).run.run
    ((w.logged []).cancelAt token k)) at hcut
  generalize (run inner.observed).run.run ((w.logged []).logged []) = full at hcut ⊢
  generalize (run (inner.cancelling token k).checked).run.run _ = cut at hcut ⊢
  cases hcut with
  | ok hpending =>
    exact ⟨hpending.lookups_cancelAt token, (if_neg (Nat.not_lt.mpr hpending.length_le)).symm⟩
  | error hlength hlookups => exact ⟨hlookups, (if_neg (Nat.not_lt.mpr hlength)).symm⟩
  | stopped hlength _ hlookups => exact ⟨hlookups, (if_pos hlength).symm⟩

/-- An evaluation that is the same with and without checks as long as the context is live makes the
same lookups. -/
theorem StaysLive.checksNothing {inner : Resolver σ} {ctx : Context} {Live : World σ → Prop}
    (h : inner.StaysLive ctx Live) {run : {τ : Type} → Resolver τ → Run τ ε α}
    (hrun : ∀ {τ : Type} {source : Resolver τ} {Live : World τ → Prop},
      source.StaysLive ctx Live → ∀ v, Live v →
        (run source).run.run v = (run source.checked).run.run v) {w : World σ} (hw : Live w) :
    ChecksNothing inner w run :=
  ⟨(hrun h w hw).symm, congrArg (fun last => last.2.store.lookups)
    (hrun h.recording (w.logged []) hw).symm⟩

end Resolver

/-- Runs that correspond without an excuse as long as an invariant holds are the same. -/
theorem Run.Simulates.run_eq {Live : World σ → Prop} {excused : ε → Prop} {r s : Run σ ε α}
    (h : Simulates (fun w v => w = v ∧ Live w) excused Eq r s) (hexcused : ∀ e, ¬excused e)
    (w : World σ) (hw : Live w) : r.run.run w = s.run.run w :=
  (h ⟨rfl, hw⟩).eq hexcused (fun _ _ => id) fun _ _ => And.left

namespace RuleSet

open Resolver

/-- Whether the lookup that follows `k` others is asked for in a half of the rule with an index. -/
inductive AskedIn (ctx : Context) (source : Resolver (Logged τ)) (k : Nat) :
    Nat → List Rule → World (Logged τ) → Nat → RuleStage → Prop
  | condition {index : Nat} {rule : Rule} {rest : List Rule} {u : World (Logged τ)} :
    u.store.lookups.length ≤ k →
      k < ((Condition.holds ctx source rule.condition).run.run u).2.store.lookups.length →
      AskedIn ctx source k index (rule :: rest) u index .condition
  | calculation {index : Nat} {rule : Rule} {rest : List Rule} {u u' : World (Logged τ)} :
    (Condition.holds ctx source rule.condition).run.run u = (.ok true, u') →
      u'.store.lookups.length ≤ k →
      k < ((Formula.calculate ctx source rule.calculation).run.run u').2.store.lookups.length →
      AskedIn ctx source k index (rule :: rest) u index .calculation
  | later {index : Nat} {rule : Rule} {rest : List Rule} {u u' : World (Logged τ)} {found : Nat}
    {stage : RuleStage} :
    (Condition.holds ctx source rule.condition).run.run u = (.ok false, u') →
      AskedIn ctx source k (index + 1) rest u' found stage →
      AskedIn ctx source k index (rule :: rest) u found stage

/-- How the end of rules compares with their end when a token is cancelled during lookup `k`, where
`asked` tells the half of a rule in which the lookup after it is made. -/
inductive CutShort (k : Nat) (Q : Bindings → Bindings → Prop) (asked : Nat → RuleStage → Prop) :
    Except FormulaError Calculation × World (Logged (Logged σ)) →
      Except FormulaError Calculation × World (Logged σ) → Prop
  /-- A rule applies. The calculations differ at most in the variables that they record. -/
  | ok {c d : Calculation} {u : World (Logged (Logged σ))} {v : World (Logged σ)} :
    Calculation.Alike Q c d → u.asked.length ≤ k → v.store.lookups = u.reached.take k →
      CutShort k Q asked (.ok c, u) (.ok d, v)
  /-- The rules fail before another lookup is asked for. -/
  | error {e : FormulaError} {u : World (Logged (Logged σ))} {v : World (Logged σ)} :
    u.asked.length ≤ k → v.store.lookups = u.reached.take k →
      CutShort k Q asked (.error e, u) (.error e, v)
  /-- A half of a rule asks for another lookup, and is stopped when it is cancelled. -/
  | stopped {last : Except FormulaError Calculation} {u : World (Logged (Logged σ))}
    {v : World (Logged σ)} {index : Nat} {stage : RuleStage} :
    asked index stage → k < u.asked.length → v.store.lookups = u.reached.take k →
      CutShort k Q asked (last, u) (.error (.rule index stage (.evaluation .cancelled)), v)

/-- The lookup after a cancelled one may be found in another way. -/
theorem CutShort.imp {k : Nat} {Q : Bindings → Bindings → Prop}
    {asked asked' : Nat → RuleStage → Prop}
    (hasked : ∀ index stage, asked index stage → asked' index stage)
    {full : Except FormulaError Calculation × World (Logged (Logged σ))}
    {cut : Except FormulaError Calculation × World (Logged σ)} (h : CutShort k Q asked full cut) :
    CutShort k Q asked' full cut := by
  cases h with
  | ok halike hlength hlookups => exact .ok halike hlength hlookups
  | error hlength hlookups => exact .error hlength hlookups
  | stopped hin hlength hlookups => exact .stopped (hasked _ _ hin) hlength hlookups

/-- Rules that are cut short make the first lookups only. They are cancelled if they ask for another
one, and otherwise have the same outcome, as far as alike calculations agree. -/
theorem CutShort.ends {k : Nat} {Q : Bindings → Bindings → Prop} {asked : Nat → RuleStage → Prop}
    {full : Except FormulaError Calculation × World (Logged (Logged σ))}
    {cut : Except FormulaError Calculation × World (Logged σ)} (h : CutShort k Q asked full cut)
    {f : Calculation → α} (hvalue : ∀ c d, Calculation.Alike Q c d → f d = f c) :
    cut.2.store.lookups = full.2.reached.take k ∧
    (k < full.2.asked.length → ∃ index stage, asked index stage ∧
      cut.1 = .error (.rule index stage (.evaluation .cancelled))) ∧
    (full.2.asked.length ≤ k → cut.1.map f = full.1.map f) := by
  cases h with
  | ok halike hlength hlookups =>
    exact ⟨hlookups, fun hnext => absurd hnext (Nat.not_lt.mpr hlength),
      fun _ => congrArg Except.ok (hvalue _ _ halike)⟩
  | error hlength hlookups =>
    exact ⟨hlookups, fun hnext => absurd hnext (Nat.not_lt.mpr hlength), fun _ => rfl⟩
  | stopped hin hlength hlookups =>
    exact ⟨hlookups, fun _ => ⟨_, _, hin, rfl⟩, fun hlast => absurd hlength (Nat.not_lt.mpr hlast)⟩

/-- Whether rules against a checked source are cancelled exactly at the lookup that follows `k`
others, if a token is cancelled during the last of these, or before the start if there are none. The
error names the half in which the lookup is asked for, and no other lookup reaches the inner source.
A source may name its variables differently once the token is cancelled, and only then the record of
them is another one. -/
def CancelsNext (ctx : Context) (inner : Resolver σ) (token : TokenId) (k : Nat) (w : World σ)
    (rules : List Rule) : Prop :=
  let start := (w.logged []).logged []
  let full := (evaluate ctx inner.observed rules).run.run start
  let cut := (evaluate ctx (inner.cancelling token k).checked rules).run.run
    ((w.logged []).cancelAt token k)
  let uncut := (evaluate ctx inner.checked rules).outcome w
  cut.2.store.lookups = full.2.reached.take k ∧
  (k < full.2.asked.length → ∃ index stage, AskedIn ctx inner.observed k 0 rules start index stage ∧
    cut.1 = .error (.rule index stage (.evaluation .cancelled))) ∧
  (full.2.asked.length ≤ k →
    cut.1.map Calculation.withoutBindings = uncut.map Calculation.withoutBindings ∧
    ((∀ v, (inner.all.run v).1 = (inner.all.run (v.cancel token)).1) → cut.1 = uncut))

/-- A source that names its variables alike before and after a token is cancelled does so with the
records as well. -/
theorem related_all_cancelAt {token : TokenId} (k : Nat) (inner : Resolver σ)
    {Q : Bindings → Bindings → Prop}
    (hall : ∀ w, Q (inner.all.run w).1 (inner.all.run w).1 ∧
      Q (inner.all.run w).1 (inner.all.run (w.cancel token)).1) (u : World (Logged (Logged σ))) :
    Q (inner.observed.all.run u).1
      ((inner.cancelling token k).checked.all.run (u.plain.cancelAt token k)).1 := by
  rw [World.cancelAt]
  split
  · exact (hall u.plain.plain).2
  · exact (hall u.plain.plain).1

/-- What is stopped at the next variable is stopped so in a half of a rule. -/
theorem stopsAt_inRule {token : TokenId} {k : Nat} {r : Run (Logged (Logged σ)) FormulaError α}
    {s : Run (Logged σ) FormulaError α} (h : r.StopsAt token k (.evaluation .cancelled) s)
    (index : Nat) (stage : RuleStage) :
    Run.StopsAt token k (.rule index stage (.evaluation .cancelled)) (inRule index stage r)
      (inRule index stage s) :=
  h.adapt (·.inRule index stage)

section Rules

variable {ctx : Context} {token : TokenId} (h : ctx.token = some token) (k : Nat)
  (inner : Resolver σ) (index : Nat)

include h

/-- Rules only add to the records. -/
theorem grows_evaluateFrom (rules : List Rule) :
    (evaluateFrom ctx inner.observed index rules).Grows := by
  induction rules generalizing index with
  | nil => exact Run.Grows.ofExcept (.error _)
  | cons rule rest ih =>
    have hcondition := stopsAt_inRule (Condition.stopsAt_holds h 0 inner rule.condition) index
      .condition
    have hcalculation := stopsAt_inRule (Formula.stopsAt_calculate h 0 inner rule.calculation)
      index .calculation
    refine hcondition.grows.bind fun matched => ?_
    cases matched with
    | false => exact ih (index + 1)
    | true => exact hcalculation.grows.bind fun _ _ => ⟨List.prefix_rfl, List.prefix_rfl⟩

/-- Rules are stopped in the half of the rule in which the next variable is looked up. -/
theorem cutShort_evaluateFrom {Q : Bindings → Bindings → Prop}
    (hall : ∀ w, Q (inner.all.run w).1 (inner.all.run w).1 ∧
      Q (inner.all.run w).1 (inner.all.run (w.cancel token)).1) (rules : List Rule)
    {u : World (Logged (Logged σ))} (hu : u.Pending k) :
    CutShort k Q (AskedIn ctx inner.observed k index rules u)
      ((evaluateFrom ctx inner.observed index rules).run.run u)
      ((evaluateFrom ctx (inner.cancelling token k).checked index rules).run.run
        (u.plain.cancelAt token k)) := by
  induction rules generalizing index u with
  | nil => exact .error hu.length_le (hu.lookups_cancelAt token)
  | cons rule rest ih =>
    have hcondition := stopsAt_inRule (Condition.stopsAt_holds h k inner rule.condition) index
      .condition
    have hcalculation := stopsAt_inRule (Formula.stopsAt_calculate h k inner rule.calculation)
      index .calculation
    refine hcondition.bind_ends ?_ hu ?_ (fun e u' v => .error) ?_
    · intro matched
      cases matched with
      | false => exact grows_evaluateFrom h inner (index + 1) rest
      | true => exact hcalculation.grows.bind fun _ _ => ⟨List.prefix_rfl, List.prefix_rfl⟩
    · intro matched u' hrun hu'
      replace hrun := Run.adapt_eq_ok_iff.mp hrun
      cases matched with
      | false => exact (ih (index + 1) hu').imp fun _ _ => .later hrun
      | true =>
        -- Naming the variables behind the calculation is no lookup.
        refine hcalculation.bind_ends (fun _ _ => ⟨List.prefix_rfl, List.prefix_rfl⟩) hu' ?_
          (fun e u'' v => .error) ?_
        · intro value u'' _ hu''
          exact .ok ⟨related_all_cancelAt k inner hall u'', rfl⟩ hu''.length_le
            (hu''.lookups_cancelAt token)
        · intro last u'' v hasked hlength _ hlookups
          simp only [inRule, Run.run_adapt, World.asked] at hasked
          exact .stopped (.calculation hrun hu'.length_le hasked) hlength hlookups
    · intro last u' v hasked hlength _ hlookups
      simp only [inRule, Run.run_adapt, World.asked] at hasked
      exact .stopped (.condition hu.length_le hasked) hlength hlookups

/-- Rules are cancelled at the next lookup. -/
theorem cancelsNext (w : World σ) (rules : List Rule) :
    CancelsNext ctx inner token k w rules := by
  have hsame : (evaluate ctx inner.checked rules).outcome w =
      (evaluate ctx inner.observed rules).outcome ((w.logged []).logged []) :=
    (simulates_evaluateFrom (W := fun w u => u.plain.plain = w)
      (fun name => inner.simulates_lookup_observed ctx name)
      (fun w u hworld => hworld ▸ ⟨rfl, rfl⟩) 0 rules).outcome_eq (FormulaError.not_excused nofun)
      (fun _ _ => Calculation.Alike.eq) rfl
  have hends {Q : Bindings → Bindings → Prop}
      (hall : ∀ w, Q (inner.all.run w).1 (inner.all.run w).1 ∧
        Q (inner.all.run w).1 (inner.all.run (w.cancel token)).1) :=
    (cutShort_evaluateFrom h k inner 0 hall rules (pending_start k w))
  have hany := (hends (Q := fun _ _ => True) fun _ => ⟨trivial, trivial⟩).ends
    (f := Calculation.withoutBindings) fun c d halike => by
      rw [halike.2]
      rfl
  rw [CancelsNext, hsame]
  refine ⟨hany.1, hany.2.1, fun hlast => ⟨hany.2.2 hlast, fun hall => ?_⟩⟩
  have hmap := ((hends (Q := Eq) fun v => ⟨rfl, hall v⟩).ends (f := id)
    fun c d halike => halike.eq.symm).2.2 hlast
  rw [Except.map_id] at hmap
  exact hmap

end Rules

/-- As long as the context is live rules are evaluated alike with and without checks. -/
theorem run_evaluate_checked {ctx : Context} {source : Resolver τ} {Live : World τ → Prop}
    (h : source.StaysLive ctx Live) (rules : List Rule) (v : World τ) (hv : Live v) :
    (evaluate ctx source rules).run.run v = (evaluate ctx source.checked rules).run.run v :=
  (corresponds_evaluateFrom (V := Eq) (Q := Eq) (fun _ _ => And.left) h.simulates_lookup
    (fun _ _ hworld => hworld.1 ▸ ⟨rfl, rfl⟩) 0 rules ⟨rfl, hv⟩).eq
    (FormulaError.not_excused nofun) (fun _ _ => Calculation.Alike.eq) fun _ _ => id

/-- A checked source changes nothing but that a cancelled evaluation ends. If a token is cancelled
during lookup `k`, or before the start, then what would look up another variable is cancelled there,
and what would not has the outcome that it has without the cancellation. As long as the context is
live the checks change nothing, and a cancelled token is reported also when the deadline has
come. -/
theorem evaluate_checked (ctx : Context) (inner : Resolver σ) (w : World σ) :
    (∀ v : World σ, ctx.isCancelled v = true → ctx.check.run.run v = (.error .cancelled, v)) ∧
    (∀ token k, ctx.token = some token →
      (∀ e : Expr,
        Resolver.CancelsNext inner token k .cancelled w (fun source => e.evaluate ctx source) ∧
        Resolver.CancelsNext inner token k .cancelled w
          (fun source => e.evaluateNumber ctx source) ∧
        Resolver.CancelsNext inner token k .cancelled w
          (fun source => e.evaluateBoolean ctx source)) ∧
      (∀ text : String,
        Resolver.CancelsNext inner token k (.evaluation .cancelled) w
          (fun source => Formula.calculate ctx source text) ∧
        Resolver.CancelsNext inner token k (.evaluation .cancelled) w
          (fun source => Condition.holds ctx source text)) ∧
      ∀ rules : List Rule, CancelsNext ctx inner token k w rules) ∧
    (∀ Live : World σ → Prop, Live w → inner.StaysLive ctx Live →
      (∀ e : Expr,
        ChecksNothing inner w (fun source => e.evaluate ctx source) ∧
        ChecksNothing inner w (fun source => e.evaluateNumber ctx source) ∧
        ChecksNothing inner w (fun source => e.evaluateBoolean ctx source)) ∧
      (∀ text : String,
        ChecksNothing inner w (fun source => Formula.calculate ctx source text) ∧
        ChecksNothing inner w (fun source => Condition.holds ctx source text)) ∧
      ∀ rules : List Rule, ChecksNothing inner w (fun source => evaluate ctx source rules)) := by
  have hnone : ∀ e : EvalError, ¬False := fun _ => id
  have hnot := FormulaError.not_excused hnone
  have hsame := inner.simulates_lookup_observed ctx
  refine ⟨fun v hcancelled => ?_, fun token k h => ⟨fun e => ⟨?_, ?_, ?_⟩, fun text => ⟨?_, ?_⟩,
    cancelsNext h k inner w⟩, fun Live hw hlive => ⟨fun e => ⟨?_, ?_, ?_⟩, fun text => ⟨?_, ?_⟩,
    fun rules => ?_⟩⟩
  · rw [ctx.run_check, Context.stop?, if_pos hcancelled]
  · exact Resolver.cancelsNext (fun source => e.evaluate ctx source)
      (e.stopsAt_evaluate h k inner) (e.simulates_evaluate fun name _ => hsame name) hnone w
  · exact Resolver.cancelsNext (fun source => e.evaluateNumber ctx source)
      (e.stopsAt_evaluateNumber h k inner)
      (e.simulates_evaluateNumber fun name _ => hsame name) hnone w
  · exact Resolver.cancelsNext (fun source => e.evaluateBoolean ctx source)
      (e.stopsAt_evaluateBoolean h k inner)
      (e.simulates_evaluateBoolean fun name _ => hsame name) hnone w
  · exact Resolver.cancelsNext (fun source => Formula.calculate ctx source text)
      (Formula.stopsAt_calculate h k inner text) (Formula.simulates_calculate hsame text) hnot w
  · exact Resolver.cancelsNext (fun source => Condition.holds ctx source text)
      (Condition.stopsAt_holds h k inner text) (Condition.simulates_holds hsame text) hnot w
  · exact hlive.checksNothing (fun h => (e.simulates_evaluate
      fun name _ => h.simulates_lookup name).run_eq hnone) hw
  · exact hlive.checksNothing (fun h => (e.simulates_evaluateNumber
      fun name _ => h.simulates_lookup name).run_eq hnone) hw
  · exact hlive.checksNothing (fun h => (e.simulates_evaluateBoolean
      fun name _ => h.simulates_lookup name).run_eq hnone) hw
  · exact hlive.checksNothing (fun h => (Formula.simulates_calculate h.simulates_lookup
      text).run_eq hnot) hw
  · exact hlive.checksNothing (fun h => (Condition.simulates_holds h.simulates_lookup
      text).run_eq hnot) hw
  · exact hlive.checksNothing (fun h => run_evaluate_checked h rules) hw

/-- An order is laid over defaults. Cancelled when the second rule has found the order to be urgent,
by a default, its calculation is stopped before the price is looked up. Cancelled at the last
lookup, or not at all, the rule applies. -/
theorem evaluate_checked_order :
    let order := Dictionary.ofList [("quantity", .number 5)]
    let defaults := Dictionary.ofList [("price", .number 3), ("rush", .boolean true)]
    let sources := Composition.layered (.dictionary order) (.dictionary defaults)
    let inner : Resolver Unit := sources.resolver
    let rules : List Rule := [⟨"quantity >= 100", "1"⟩, ⟨"rush", "price * quantity"⟩]
    let ctx : Context := ⟨some 7, some 5⟩
    let w := World.start ()
    let late : World Unit := ⟨[7], 10, ()⟩
    let cut := fun k => (evaluate ctx (inner.cancelling 7 k).checked rules).run.run
      ((w.logged []).cancelAt 7 k)
    ctx.check.run.run late = (.error .cancelled, late) ∧
    ((cut 2).1 = .error (.rule 1 .calculation (.evaluation .cancelled)) ∧
      (cut 2).2.store.lookups.map Lookup.name = ["quantity", "rush"]) ∧
    (∃ c, (cut 4).1 = .ok c ∧ c.value = 15) ∧
    (evaluate ctx inner.checked rules).run.run w = (evaluate ctx inner rules).run.run w := by
  intro order defaults sources inner rules ctx w late cut
  let full := (evaluate ctx inner.observed rules).run.run ((w.logged []).logged [])
  have hnames : full.2.asked.map Lookup.name = ["quantity", "rush", "price", "quantity"] ∧
      full.2.reached.map Lookup.name = ["quantity", "rush", "price", "quantity"] := by
    decide +kernel +revert
  have hlength : full.2.asked.length = 4 := by
    rw [← List.length_map Lookup.name, hnames.1]
    rfl
  have hfifteen : ((evaluate ctx inner.checked rules).outcome w).toOption.any
      (fun c => decide (c.value = 15)) = true := by
    decide +kernel +revert
  have hplace : (Except.error? (cut 2).1).any
      (fun x => decide (x.place? = some (1, .calculation))) = true := by
    decide +kernel +revert
  have hlive : inner.StaysLive ctx (· = w) := by
    rintro _ rfl
    refine ⟨rfl, fun name => ?_⟩
    obtain hrun | ⟨_, -, hrun⟩ := sources.run_lookup ctx name w
    · exact congrArg Prod.snd hrun
    · exact congrArg Prod.snd hrun
  obtain ⟨hcheck, hcancel, hnothing⟩ := evaluate_checked ctx inner w
  obtain ⟨hlookups, hstopped, -⟩ := (hcancel 7 2 rfl).2.2 rules
  obtain ⟨-, -, hlast⟩ := (hcancel 7 4 rfl).2.2 rules
  refine ⟨hcheck late rfl, ⟨?_, ?_⟩, ?_, ((hnothing (· = w) rfl hlive).2.2 rules).1⟩
  · obtain ⟨index, stage, -, hcut⟩ := hstopped (by rw [hlength]; decide)
    change (cut 2).1 = _ at hcut
    rw [hcut] at hplace ⊢
    cases of_decide_eq_true hplace
    rfl
  · have hfirst := congrArg (List.map Lookup.name) hlookups
    rw [List.map_take, hnames.2] at hfirst
    exact hfirst
  · obtain ⟨c, w', hrun, hvalue⟩ := Run.exists_of_any_outcome hfifteen
    exact ⟨c, ((hlast (Nat.le_of_eq hlength)).2 fun _ => rfl).trans (congrArg Prod.fst hrun),
      of_decide_eq_true hvalue⟩

end RuleSet

end FormulaRules
