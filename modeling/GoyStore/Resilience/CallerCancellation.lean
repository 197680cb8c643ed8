import GoyStore.Resilience.ExecutorRuns

/-!
# Calls whose callers give up

Callers of the Go executor may cancel the context that they pass.  Here the wrapped functions fail
only when their context is done, and no timeout elapses, so every failure is that of a call which
its caller has cancelled.  `ExecuteWithResilience` reports it to the breaker all the same, and looks
at the context only afterwards.

`unharmed_iff_stepsMeet` says in which runs the breaker stays closed and only cancelled calls return
errors.
-/

namespace GoyStore

namespace Go

open Runs Setup

/-- The calls of one executor, with what their callers have done. -/
structure CancelState (κ S α : Type*) where
  /-- The executor, the backend and the calls. -/
  exec : ExecState executorModel Unit κ S α
  /-- Whether the parent context of a call is cancelled. -/
  cancelled : κ → Bool
  /-- How many attempts were reported as failed since the last reported success. -/
  failures : ℕ

/-- The steps of the calls and of their callers. -/
inductive CancelLabel (κ : Type*) where
  /-- A caller cancels its parent context. -/
  | cancelParent (c : κ)
  /-- A call, the backend or the clock moves. -/
  | move (l : ExecLabel κ)
  deriving DecidableEq, Repr

namespace CancelState

variable {κ S α : Type*}

/-- A function fails, and a sleep is cut short, only when the context is done. -/
def allows (s : CancelState κ S α) : ExecLabel κ → Bool
  | .fail c _ => s.cancelled c
  | .cancel c _ => s.cancelled c
  | _ => true

/-- The failures since the last success after a step. -/
def failuresAfter (s : CancelState κ S α) : ExecLabel κ → ℕ
  | .report c =>
    match s.exec.phase c with
    | .reporting (.success _) _ => 0
    | .reporting (.failure _ _) _ => s.failures + 1
    | _ => s.failures
  | _ => s.failures

/-- One step. -/
def step [DecidableEq κ] (P : Setup executorModel Unit κ S α) (s : CancelState κ S α) :
    CancelLabel κ → Option (CancelState κ S α)
  | .cancelParent c => some { s with cancelled := Function.update s.cancelled c true }
  | .move l =>
    if s.allows l then
      (P.step s.exec l).map fun exec => { s with exec, failures := s.failuresAfter l }
    else none

/-- No call has started, and no caller has cancelled. -/
def init (P : Setup executorModel Unit κ S α) (clock : ℕ) (store : S) : CancelState κ S α where
  exec := P.init clock store
  cancelled _ := false
  failures := 0

/-- The breaker is closed, and every call that has returned an error is cancelled. -/
structure Unharmed (s : CancelState κ S α) : Prop where
  /-- The breaker is closed. -/
  closed : CircuitBreaker.state (s.exec.breaker ()) = .Closed
  /-- Only cancelled calls return errors. -/
  cancelled_of_error : ∀ c err, s.exec.phase c = .returned (.error err) → s.cancelled c = true

end CancelState

/-- Number of failures in a row at which the breaker of a configuration opens. -/
def ResilienceConfig.openingCount (cfg : ResilienceConfig) : ℕ :=
  (max 1 (ResilientExecutor.positiveOr 5 cfg.circuitBreakerThreshold).toInt32.toInt).toNat

/-- The report of a failure does not bring the failures since the last success to the threshold, and
a call that is not cancelled starts only where the loop can be entered. -/
def CancelState.Harmless {κ S α : Type*} (cfg : ResilienceConfig) (s : CancelState κ S α) :
    CancelLabel κ → Prop
  | .move (.start c) => cfg.maxRetries ≠ Int64.maxValue ∨ s.cancelled c = true
  | .move (.report c) => ∀ attempt err point,
    s.exec.phase c = .reporting (.failure attempt err) point → s.failures + 1 < cfg.openingCount
  | _ => True

/-! ### The breaker of a configuration -/

/-- A field that is not positive has its default. -/
lemma ResilientExecutor.positiveOr_pos {default field : Int64} (h : 0 < default) :
    ¬ positiveOr default field ≤ 0 := by
  rw [positiveOr]
  split_ifs with hfield
  · exact Int64.not_le.mpr h
  · exact hfield

/-- Below the opening count, the counter does not wrap around. -/
lemma toInt_add_one {cfg : ResilienceConfig} {counter : Int32} {n : ℕ}
    (hcounter : counter.toInt = n) (hn : n < cfg.openingCount) : (counter + 1).toInt = n + 1 := by
  rw [ResilienceConfig.openingCount] at hn
  have hlt :=
    (ResilientExecutor.positiveOr 5 cfg.circuitBreakerThreshold).toInt32.toInt_lt
  have hone : (1 : Int32).toInt = 1 := rfl
  rw [Int32.toInt_add, hcounter, hone, Int.bmod_eq_of_le (by omega) (by omega)]

/-- The breaker of a configuration opens at the opening count. -/
lemma le_add_one_iff {cfg : ResilienceConfig} {metrics : Bool} {contract backend : String}
    {counter : Int32} {n : ℕ} (hcounter : counter.toInt = n) (hn : n < cfg.openingCount) :
    (ResilientExecutor.new cfg metrics contract backend).newBreaker.failureThreshold ≤ counter + 1 ↔
      cfg.openingCount ≤ n + 1 := by
  have hthreshold :
      (ResilientExecutor.new cfg metrics contract backend).newBreaker.failureThreshold =
        (ResilientExecutor.positiveOr 5 cfg.circuitBreakerThreshold).toInt32 := by
    have hpos : ¬ ResilientExecutor.positiveOr 5 cfg.circuitBreakerThreshold ≤ 0 :=
      ResilientExecutor.positiveOr_pos (by decide)
    exact congrArg Int64.toInt32 (if_neg hpos)
  rw [hthreshold, Int32.le_iff_toInt_le, toInt_add_one hcounter hn,
    ResilienceConfig.openingCount]
  omega

/-- The loop is entered unless the number of retries is the largest integer. -/
lemma continues_one_iff {cfg : ResilienceConfig} {metrics : Bool} {contract backend : String} :
    (ResilientExecutor.new cfg metrics contract backend).continues 1 = true ↔
      cfg.maxRetries ≠ Int64.maxValue := by
  have hmax : Int64.maxValue.toInt = 9223372036854775807 := rfl
  have hone : (1 : Int64).toInt = 1 := rfl
  rw [ResilientExecutor.continues, decide_eq_true_iff]
  change 1 ≤ ResilientExecutor.positiveOr 3 cfg.maxRetries + 1 ↔ _
  rw [ResilientExecutor.positiveOr]
  split_ifs with hfield
  · -- the default of three retries
    refine iff_of_true (by decide) fun heq => ?_
    rw [heq] at hfield
    exact absurd hfield (by decide)
  · have hpos : 0 < cfg.maxRetries.toInt := by
      have hlt := Int64.lt_iff_toInt_lt.mp (Int64.not_le.mp hfield)
      exact hlt
    have hlt := cfg.maxRetries.toInt_lt
    rw [Int64.le_iff_toInt_le, Int64.toInt_add, hone, ne_eq, ← Int64.toInt_inj, hmax]
    by_cases heq : cfg.maxRetries.toInt = 9223372036854775807
    · rw [heq]
      exact iff_of_false (by decide) (not_not.mpr rfl)
    · rw [Int.bmod_eq_of_le (by omega) (by omega)]
      exact iff_of_true (by omega) heq

/-! ### The phases of a call that fails -/

section

variable {κ S α : Type*}

/-- An attempt of the call has failed, and none has succeeded since. -/
def Failing : Phase executorModel α → Prop
  | .reporting (.failure _ _) _ => True
  | .publishing (.failure _ _) _ => True
  | .backingOff _ _ => True
  | .returned (.error _) => True
  | _ => False

/-- After a failed attempt the call sleeps, goes on or returns an error. -/
lemma failure_of_failing_afterPublish {P : Setup executorModel Unit κ S α} {c : κ}
    {outcome : Outcome executorModel α} (h : Failing (P.afterPublish c outcome)) :
    ∃ attempt err, outcome = .failure attempt err := by
  cases outcome with
  | success result => exact h.elim
  | failure attempt err => exact ⟨attempt, err, rfl⟩

variable [DecidableEq κ] {P : Setup executorModel Unit κ S α}
  {s s' : ExecState executorModel Unit κ S α} {l : ExecLabel κ} {c : κ}

/-- A call comes to fail by a failure of its function, or by an admission check after which it
returns an error. -/
lemma failing_step (h : P.step s l = some s') (hs' : Failing (s'.phase c)) :
    Failing (s.phase c) ∨ (∃ err, l = .fail c err) ∨
      (l = .start c ∧ Failing (P.afterCheck c (CircuitBreaker.canExecute s.clock
        (s.breaker ())).1)) := by
  by_cases hl : l.caller = some c
  swap
  · rw [phase_of_caller_ne h hl] at hs'
    exact .inl hs'
  cases moves_of_step h with
  | tick d => cases hl
  | lateEffect d n hd => cases hl
  | start d hd =>
    obtain rfl := Option.some.inj hl
    simp only [Function.update_self] at hs'
    exact .inr (.inr ⟨rfl, hs'⟩)
  | fail d err attempt effect hd =>
    obtain rfl := Option.some.inj hl
    exact .inr (.inl ⟨err, rfl⟩)
  | invoke d attempt hd =>
    obtain rfl := Option.some.inj hl
    simp only [Function.update_self] at hs'
    exact hs'.elim
  | takeEffect d attempt hd =>
    obtain rfl := Option.some.inj hl
    simp only [Function.update_self] at hs'
    exact hs'.elim
  | succeed d attempt result hd =>
    obtain rfl := Option.some.inj hl
    simp only [Function.update_self] at hs'
    exact hs'.elim
  | report d outcome point hd =>
    obtain rfl := Option.some.inj hl
    simp only [Function.update_self] at hs'
    rw [hd]
    cases outcome with
    | success result => exact hs'.elim
    | failure attempt err => exact .inl trivial
  | readState d outcome hd hmetrics =>
    obtain rfl := Option.some.inj hl
    simp only [Function.update_self] at hs'
    rw [hd]
    cases outcome with
    | success result => exact hs'.elim
    | failure attempt err => exact .inl trivial
  | publish d outcome code metrics hd hcode =>
    obtain rfl := Option.some.inj hl
    simp only [Function.update_self] at hs'
    obtain ⟨attempt, err, rfl⟩ := failure_of_failing_afterPublish hs'
    rw [hd]
    exact .inl trivial
  | wake d attempt err hd =>
    obtain rfl := Option.some.inj hl
    rw [hd]
    exact .inl trivial
  | cancel d err attempt e hd =>
    obtain rfl := Option.some.inj hl
    rw [hd]
    exact .inl trivial

end

/-! ### The runs in which no harm is done -/

section

variable {κ S α : Type*} {cfg : ResilienceConfig} {metrics : Bool} {contract backend : String}

/-- Calls through the executor that `NewResilientExecutor` creates. -/
def callsThrough (cfg : ResilienceConfig) (metrics : Bool) (contract backend : String)
    (call : κ → Call S α) : Setup executorModel Unit κ S α :=
  .shared executorModel (.new cfg metrics contract backend) call

/-- The breaker is closed and has counted the failures since the last success, of which there are
too few to open it. -/
structure Counted (cfg : ResilienceConfig) (b : CircuitBreaker) (failures : ℕ) : Prop where
  /-- The breaker is closed. -/
  closed : b.state = .Closed
  /-- The threshold is that of the configuration. -/
  threshold : b.failureThreshold =
    (ResilientExecutor.new cfg true "" "").newBreaker.failureThreshold
  /-- The counter has counted. -/
  counter : b.consecutiveFailures.toInt = failures
  /-- There are too few. -/
  below : failures < cfg.openingCount

/-- What holds as long as no harm is done. -/
structure CancelInvariant (cfg : ResilienceConfig) (s : CancelState κ S α) : Prop where
  /-- The breaker has counted. -/
  counted : Counted cfg (s.exec.breaker ()) s.failures
  /-- Only cancelled calls fail. -/
  failing : ∀ c, Failing (s.exec.phase c) → s.cancelled c = true

namespace Counted

variable {b : CircuitBreaker} {failures : ℕ}

/-- A closed breaker admits every call and stays as it is. -/
lemma canExecute (h : Counted cfg b failures) (now : ℕ) :
    b.canExecute now = (.ok (), b) := by
  rw [CircuitBreaker.canExecute, h.closed]

/-- A success starts the count again. -/
lemma onSuccess (h : Counted cfg b failures) : Counted cfg b.onSuccess 0 where
  closed := rfl
  threshold := h.threshold
  counter := rfl
  below := Nat.lt_of_le_of_lt failures.zero_le h.below

/-- A failure opens the breaker exactly when there are enough of them. -/
lemma le_iff (h : Counted cfg b failures) :
    b.failureThreshold ≤ b.consecutiveFailures + 1 ↔ cfg.openingCount ≤ failures + 1 := by
  rw [h.threshold]
  exact le_add_one_iff h.counter h.below

/-- A failure of which there are too few is counted. -/
lemma onFailure (h : Counted cfg b failures) (now : ℕ) (hfew : failures + 1 < cfg.openingCount) :
    Counted cfg (b.onFailure now) (failures + 1) := by
  have hbelow : ¬ b.failureThreshold ≤ b.consecutiveFailures + 1 :=
    fun hle => hfew.not_ge (h.le_iff.mp hle)
  have heq : b.onFailure now =
      { b with
        lastFailureTime := now
        consecutiveFailures := b.consecutiveFailures + 1 } := if_neg hbelow
  rw [heq]
  exact ⟨h.closed, h.threshold, toInt_add_one h.counter h.below, hfew⟩

/-- A failure of which there are enough opens the breaker. -/
lemma state_onFailure (h : Counted cfg b failures) (now : ℕ)
    (henough : cfg.openingCount ≤ failures + 1) : (b.onFailure now).state = .Open := by
  have heq : b.onFailure now =
      { b with
        lastFailureTime := now
        consecutiveFailures := b.consecutiveFailures + 1
        state := .Open } := if_pos (h.le_iff.mpr henough)
  rw [heq]

end Counted

variable [DecidableEq κ] {call : κ → Call S α} {s s' : CancelState κ S α}
  {exec : ExecState executorModel Unit κ S α} {l : ExecLabel κ}

omit [DecidableEq κ] in
/-- An admitted call invokes its function where the loop can be entered. -/
lemma afterCheck_of_ne (hmax : cfg.maxRetries ≠ Int64.maxValue) (c : κ) :
    (callsThrough cfg metrics contract backend call).afterCheck c (.ok ()) = .ready 1 := by
  have hfirst : executorModel.firstAttempt
      ((callsThrough cfg metrics contract backend call).executorOf c) = some 1 :=
    if_pos (continues_one_iff.mpr hmax)
  rw [Setup.afterCheck, hfirst]

omit [DecidableEq κ] in
/-- Where the loop cannot be entered, an admitted call returns an error. -/
lemma afterCheck_of_eq (hmax : cfg.maxRetries = Int64.maxValue) (c : κ) :
    (callsThrough cfg metrics contract backend call).afterCheck c (.ok ()) =
      .returned (.error ((callsThrough cfg metrics contract backend call).finalError c none)) := by
  have hfirst : executorModel.firstAttempt
      ((callsThrough cfg metrics contract backend call).executorOf c) = none :=
    if_neg fun h => continues_one_iff.mp h hmax
  rw [Setup.afterCheck, hfirst]

/-- A harmless step keeps the count. -/
lemma counted_step (h : Counted cfg (s.exec.breaker ()) s.failures)
    (hharm : s.Harmless cfg (.move l))
    (hstep : (callsThrough cfg metrics contract backend call).step s.exec l = some exec) :
    Counted cfg (exec.breaker ()) (s.failuresAfter l) := by
  cases moves_of_step hstep with
  | start c hc =>
    have hsame : (executorModel.canExecute s.exec.clock (s.exec.breaker ())).2 =
        s.exec.breaker () := congrArg Prod.snd (h.canExecute s.exec.clock)
    have hkept : Counted cfg (executorModel.canExecute s.exec.clock (s.exec.breaker ())).2
        s.failures := hsame.symm ▸ h
    exact hkept
  | report c outcome point hc =>
    cases outcome with
    | success result =>
      have hzero : s.failuresAfter (.report c) = 0 := by
        rw [CancelState.failuresAfter, hc]
      rw [hzero]
      exact h.onSuccess
    | failure attempt err =>
      have hsucc : s.failuresAfter (.report c) = s.failures + 1 := by
        rw [CancelState.failuresAfter, hc]
      rw [hsucc]
      exact h.onFailure s.exec.clock (hharm attempt err point hc)
  | _ => exact h

/-- What a step of a call does. -/
lemma of_step_move (hstep : CancelState.step (callsThrough cfg metrics contract backend call) s
    (.move l) = some s') : s.allows l = true ∧
      (callsThrough cfg metrics contract backend call).step s.exec l = some s'.exec ∧
      s'.cancelled = s.cancelled ∧ s'.failures = s.failuresAfter l := by
  rw [CancelState.step] at hstep
  split_ifs at hstep with hallows
  obtain ⟨exec, hexec, rfl⟩ := Option.map_eq_some_iff.mp hstep
  exact ⟨hallows, hexec, rfl, rfl⟩

/-- A harmless step keeps the invariant. -/
lemma cancelInvariant_step {l : CancelLabel κ} (h : CancelInvariant cfg s)
    (hharm : s.Harmless cfg l)
    (hstep : CancelState.step (callsThrough cfg metrics contract backend call) s l = some s') :
    CancelInvariant cfg s' := by
  cases l with
  | cancelParent c =>
    obtain rfl := Option.some.inj hstep
    refine ⟨h.counted, fun d hd => ?_⟩
    by_cases hdc : d = c
    · rw [hdc]
      exact Function.update_self ..
    · exact (Function.update_of_ne hdc _ _).trans (h.failing d hd)
  | move l =>
    obtain ⟨hallows, hexec, hcancelled, hfailures⟩ := of_step_move hstep
    refine ⟨hfailures ▸ counted_step h.counted hharm hexec, fun c hc => ?_⟩
    rw [hcancelled]
    rcases failing_step hexec hc with hbefore | ⟨_, rfl⟩ | ⟨rfl, hcheck⟩
    · exact h.failing c hbefore
    · exact hallows
    · rcases hharm with hmax | hc
      · rw [h.counted.canExecute, afterCheck_of_ne hmax] at hcheck
        exact hcheck.elim
      · exact hc

omit [DecidableEq κ] in
/-- The invariant says that no harm is done. -/
lemma CancelInvariant.unharmed (h : CancelInvariant cfg s) : s.Unharmed where
  closed := h.counted.closed
  cancelled_of_error c _ hc := h.failing c (hc ▸ trivial)

/-- A step that is not harmless does harm. -/
lemma not_unharmed_step {l : CancelLabel κ} (h : CancelInvariant cfg s)
    (hharm : ¬ s.Harmless cfg l)
    (hstep : CancelState.step (callsThrough cfg metrics contract backend call) s l = some s') :
    ¬ s'.Unharmed := by
  intro hun
  cases l with
  | cancelParent c => exact hharm trivial
  | move l =>
    obtain ⟨-, hexec, hcancelled, -⟩ := of_step_move hstep
    cases l with
    | start c =>
      obtain ⟨hmax, hc⟩ := not_or.mp hharm
      have hphase : s'.exec.phase c = .returned (.error
          ((callsThrough cfg metrics contract backend call).finalError c none)) := by
        rw [eq_of_step_start hexec, ← afterCheck_of_eq (not_not.mp hmax)]
        refine (Function.update_self ..).trans (congrArg _ ?_)
        exact congrArg Prod.fst (h.counted.canExecute s.exec.clock)
      have hdone := hun.cancelled_of_error c _ hphase
      rw [hcancelled] at hdone
      exact hc hdone
    | report c =>
      obtain ⟨attempt, err, point, hc, henough⟩ : ∃ attempt err point,
          s.exec.phase c = .reporting (.failure attempt err) point ∧
            cfg.openingCount ≤ s.failures + 1 := by
        by_contra hnone
        exact hharm fun attempt err point hc =>
          not_le.mp fun hle => hnone ⟨attempt, err, point, hc, hle⟩
      have hopen : CircuitBreaker.state (s'.exec.breaker ()) = .Open := by
        have hreport : some s'.exec = _ := hexec.symm.trans (by rw [Setup.step, hc])
        rw [Option.some.inj hreport]
        exact h.counted.state_onFailure s.exec.clock henough
      rw [hun.closed] at hopen
      cases hopen
    | _ => exact hharm trivial

/-- Along a run of calls whose functions fail only when their callers cancel, the breaker stays
closed and only cancelled calls return errors if and only if every step is harmless: fewer failures
are reported since the last success than open the breaker, and no call that is not cancelled starts
where the loop cannot be entered. -/
theorem unharmed_iff_stepsMeet (cfg : ResilienceConfig) (metrics : Bool)
    (contract backend : String) (call : κ → Call S α) (clock : ℕ) (store : S)
    (ls : List (CancelLabel κ)) :
    let P := callsThrough cfg metrics contract backend call
    Always (CancelState.step P) CancelState.Unharmed (.init P clock store) ls ↔
      StepsMeet (CancelState.step P) (CancelState.Harmless cfg) (.init P clock store) ls := by
  intro P
  refine always_iff_stepsMeet (I := CancelInvariant cfg)
    (fun s l s' h hharm hstep => cancelInvariant_step h hharm hstep) (fun s h => h.unharmed)
    (fun s l s' h hharm hstep => not_unharmed_step h hharm hstep) ⟨⟨rfl, rfl, rfl, ?_⟩, ?_⟩
  · have hpos : 0 < cfg.openingCount := by
      rw [ResilienceConfig.openingCount]
      omega
    exact hpos
  · exact fun c hc => hc.elim

/-- Calls through an executor with a threshold of one. -/
def oneStrike : Setup executorModel Unit ℕ Unit Unit :=
  callsThrough ⟨3, 100, 1, 30, 5⟩ false "kv" "redis" fun _ => ⟨"get", fun s => ((), s)⟩

/-- A call that is cancelled, and a call after it. -/
def cancelledThenHealthy : List (CancelLabel ℕ) :=
  [.move (.start 0), .move (.invoke 0), .cancelParent 0, .move (.fail 0 "context canceled"),
    .move (.report 0), .move (.start 1)]

/-- With a threshold of one, one cancelled call opens the breaker, and the next call is refused. -/
theorem not_always_unharmed :
    ¬ Always (CancelState.step oneStrike) CancelState.Unharmed (.init oneStrike 0 ())
      cancelledThenHealthy := by
  intro h
  obtain ⟨t, ht, hrefused, hhealthy⟩ :
      ∃ t, runFrom (CancelState.step oneStrike) (.init oneStrike 0 ()) cancelledThenHealthy =
          some t ∧
        t.exec.phase 1 = .returned (.error "circuit breaker is OPEN") ∧ t.cancelled 1 = false :=
    ⟨_, rfl, rfl, rfl⟩
  have hcancelled := (h _ t List.prefix_rfl ht).cancelled_of_error 1 _ hrefused
  rw [hhealthy] at hcancelled
  exact Bool.false_ne_true hcancelled

end

end Go

end GoyStore
