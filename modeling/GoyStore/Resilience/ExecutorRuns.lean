import GoyStore.Resilience.BreakerRuns
import GoyStore.Resilience.Executor

/-!
# Concurrent runs of calls through executors

Any number of calls go through any number of executors to one backend.  The labels of a run name
what the environment decides: which call moves, when the operation of an attempt takes effect at
the backend, whether the attempt is reported as successful or as failed, how much time passes.  An
attempt may take effect and be reported as failed (a timeout is such a report), and it may take
effect after that report.

Every step of such a run is, at the breaker of each executor, a step of the concurrent runs of
`GoyStore.Resilience.BreakerRuns` (`exists_breakerRun_of_run`).  A call that finds its breaker open
and the reset timeout running returns the error of the breaker and never invokes its operation; an
operation that is invoked at such a moment belongs to a call that was admitted before the circuit
opened (`invoked_while_blocked`).
-/

namespace GoyStore

open Runs

/-- A call of `execute`: the name of the operation, and what the operation does at the backend. -/
structure Call (S α : Type*) where
  /-- The argument `op_name`. -/
  opName : String
  /-- The effect of the operation on the backend, and its result. -/
  operation : S → α × S

/-- Executors, and calls that go through them. -/
structure Setup (X : ExecutorModel) (ι κ S α : Type*) where
  /-- The executors. -/
  executor : ι → X.Executor
  /-- The executor of a call. -/
  via : κ → ι
  /-- The calls. -/
  call : κ → Call S α

/-- The outcome of an attempt as the executor sees it. -/
inductive Outcome (X : ExecutorModel) (α : Type*) where
  /-- The attempt succeeded with a result. -/
  | success (result : α)
  /-- The given attempt failed with an error. -/
  | failure (attempt : X.Counter) (err : String)

/-- Where a call stands. -/
inductive Phase (X : ExecutorModel) (α : Type*) where
  /-- Before the admission check. -/
  | notStarted
  /-- About to invoke the operation. -/
  | ready (attempt : X.Counter)
  /-- The operation is invoked; `effect` is its result once it has taken effect. -/
  | running (attempt : X.Counter) (effect : Option α)
  /-- The outcome is being reported to the breaker. -/
  | reporting (outcome : Outcome X α) (point : Option X.FailPoint)
  /-- The state of the breaker is being published; `code` is the code once it is read. -/
  | publishing (outcome : Outcome X α) (code : Option ℕ)
  /-- Asleep after a failed attempt. -/
  | backingOff (attempt : X.Counter) (err : String)
  /-- The call has returned. -/
  | returned (result : Except String α)

/-- The metrics that an executor writes. -/
structure Metrics where
  /-- `circuit_breaker_state`, by contract and backend. -/
  circuitBreakerState : String → String → Option ℕ
  /-- `retries_total`, by contract, operation and backend. -/
  retriesTotal : String → String → String → ℕ

namespace Metrics

/-- No metric is written yet. -/
def empty : Metrics := ⟨fun _ _ => none, fun _ _ _ => 0⟩

/-- Set `circuit_breaker_state`. -/
def setState (m : Metrics) (contract backend : String) (code : ℕ) : Metrics :=
  { m with
    circuitBreakerState := Function.update m.circuitBreakerState contract
      (Function.update (m.circuitBreakerState contract) backend (some code)) }

/-- Increment `retries_total`. -/
def incRetries (m : Metrics) (contract opName backend : String) : Metrics :=
  { m with
    retriesTotal := fun c o b =>
      m.retriesTotal c o b + if c = contract ∧ o = opName ∧ b = backend then 1 else 0 }

end Metrics

/-- The executors, the backend and the calls. -/
structure ExecState (X : ExecutorModel) (ι κ S α : Type*) where
  /-- The current time. -/
  clock : ℕ
  /-- The breaker of each executor. -/
  breaker : ι → X.Cb
  /-- The metrics. -/
  metrics : Metrics
  /-- The backend. -/
  store : S
  /-- The calls whose operation took effect at the backend, in this order. -/
  applied : List κ
  /-- Whether the admission check of a call admitted it. -/
  admitted : κ → Bool
  /-- Where each call stands. -/
  phase : κ → Phase X α
  /-- The attempts of each call that were reported as failed, each with its result if it took
  effect. -/
  failed : κ → List (Option α)

/-- The steps of the calls, the backend and the clock. -/
inductive ExecLabel (κ : Type*) where
  /-- Time passes. -/
  | tick (d : ℕ)
  /-- A call makes its admission check. -/
  | start (c : κ)
  /-- A call invokes its operation. -/
  | invoke (c : κ)
  /-- The operation that a call waits for takes effect at the backend. -/
  | takeEffect (c : κ)
  /-- An operation takes effect at the backend after it was reported as failed. -/
  | lateEffect (c : κ) (n : ℕ)
  /-- The backend reports success. -/
  | succeed (c : κ)
  /-- The attempt fails with an error, or with a timeout. -/
  | fail (c : κ) (err : String)
  /-- The next atomic step of the report to the breaker. -/
  | report (c : κ)
  /-- The next atomic step of the publication of the state of the breaker, and what follows it. -/
  | publish (c : κ)
  /-- The sleep of a call ends. -/
  | wake (c : κ)
  /-- The caller cancels the sleep. -/
  | cancel (c : κ) (err : String)
  deriving DecidableEq, Repr

/-- The call whose phase a step may change. -/
def ExecLabel.caller {κ : Type*} : ExecLabel κ → Option κ
  | .tick _ => none
  | .start c => some c
  | .invoke c => some c
  | .takeEffect c => some c
  | .lateEffect _ _ => none
  | .succeed c => some c
  | .fail c _ => some c
  | .report c => some c
  | .publish c => some c
  | .wake c => some c
  | .cancel c _ => some c

namespace Setup

/-- Calls that share one executor. -/
def shared (X : ExecutorModel) {κ S α : Type*} (ex : X.Executor) (call : κ → Call S α) :
    Setup X Unit κ S α where
  executor _ := ex
  via _ := ()
  call := call

variable {X : ExecutorModel} {ι κ S α : Type*} (P : Setup X ι κ S α)

/-- The executor that a call goes through. -/
def executorOf (c : κ) : X.Executor := P.executor (P.via c)

/-- The error of a call whose loop has ended. -/
def finalError (c : κ) (err : Option String) : String :=
  X.finalError (P.executorOf c) (P.call c).opName err

/-- Where a call stands after its admission check. -/
def afterCheck (c : κ) : Except String Unit → Phase X α
  | .error err => .returned (.error err)
  | .ok () =>
    match X.firstAttempt (P.executorOf c) with
    | some attempt => .ready attempt
    | none => .returned (.error (P.finalError c none))

/-- Where a call stands at the top of the loop after a failed attempt. -/
def nextRound (c : κ) (attempt : X.Counter) (err : String) : Phase X α :=
  match X.nextAttempt (P.executorOf c) attempt with
  | some attempt => .ready attempt
  | none => .returned (.error (P.finalError c (some err)))

/-- Where a call stands after the publication. -/
def afterPublish (c : κ) : Outcome X α → Phase X α
  | .success result => .returned (.ok result)
  | .failure attempt err =>
    if X.retries (P.executorOf c) attempt then .backingOff attempt err
    else P.nextRound c attempt err

/-- The metrics after an outcome: a retry is counted before the sleep. -/
def countRetry (c : κ) (outcome : Outcome X α) (m : Metrics) : Metrics :=
  match outcome with
  | .success _ => m
  | .failure attempt _ =>
    if X.hasMetrics (P.executorOf c) && X.retries (P.executorOf c) attempt then
      m.incRetries (X.contract (P.executorOf c)) (P.call c).opName (X.backend (P.executorOf c))
    else m

/-- One atomic step of the report of an outcome to the breaker. -/
def reportStep (now : ℕ) (outcome : Outcome X α) (point : Option X.FailPoint) (b : X.Cb) :
    Option X.FailPoint × X.Cb :=
  match outcome with
  | .success _ => (none, X.onSuccess b)
  | .failure _ _ => X.onFailureStep now point b

/-- Where a call stands after a step of its report. -/
def afterReport (outcome : Outcome X α) : Option X.FailPoint → Phase X α
  | none => .publishing outcome none
  | some point => .reporting outcome (some point)

/-- No call has started. -/
def init (clock : ℕ) (store : S) : ExecState X ι κ S α where
  clock := clock
  breaker i := X.newBreaker (P.executor i)
  metrics := .empty
  store := store
  applied := []
  admitted _ := false
  phase _ := .notStarted
  failed _ := []

variable [DecidableEq ι] [DecidableEq κ]

/-- One step. -/
def step (s : ExecState X ι κ S α) : ExecLabel κ → Option (ExecState X ι κ S α)
  | .tick d => some { s with clock := s.clock + d }
  | .start c =>
    match s.phase c with
    | .notStarted =>
      let r := X.canExecute s.clock (s.breaker (P.via c))
      some { s with
        breaker := Function.update s.breaker (P.via c) r.2
        admitted := Function.update s.admitted c r.1.isOk
        phase := Function.update s.phase c (P.afterCheck c r.1) }
    | _ => none
  | .invoke c =>
    match s.phase c with
    | .ready attempt =>
      some { s with phase := Function.update s.phase c (.running attempt none) }
    | _ => none
  | .takeEffect c =>
    match s.phase c with
    | .running attempt none =>
      let r := (P.call c).operation s.store
      some { s with
        store := r.2
        applied := s.applied ++ [c]
        phase := Function.update s.phase c (.running attempt (some r.1)) }
    | _ => none
  | .lateEffect c n =>
    match (s.failed c)[n]? with
    | some none =>
      let r := (P.call c).operation s.store
      some { s with
        store := r.2
        applied := s.applied ++ [c]
        failed := Function.update s.failed c ((s.failed c).set n (some r.1)) }
    | _ => none
  | .succeed c =>
    match s.phase c with
    | .running _ (some result) =>
      some { s with phase := Function.update s.phase c (.reporting (.success result) none) }
    | _ => none
  | .fail c err =>
    match s.phase c with
    | .running attempt effect =>
      some { s with
        phase := Function.update s.phase c (.reporting (.failure attempt err) none)
        failed := Function.update s.failed c (s.failed c ++ [effect]) }
    | _ => none
  | .report c =>
    match s.phase c with
    | .reporting outcome point =>
      let r := reportStep s.clock outcome point (s.breaker (P.via c))
      some { s with
        breaker := Function.update s.breaker (P.via c) r.2
        phase := Function.update s.phase c (afterReport outcome r.1) }
    | _ => none
  | .publish c =>
    match s.phase c with
    | .publishing outcome none =>
      if X.hasMetrics (P.executorOf c) then
        let code := (X.state (s.breaker (P.via c))).code
        some { s with phase := Function.update s.phase c (.publishing outcome (some code)) }
      else
        some { s with phase := Function.update s.phase c (P.afterPublish c outcome) }
    | .publishing outcome (some code) =>
      some { s with
        metrics := P.countRetry c outcome
          (s.metrics.setState (X.contract (P.executorOf c)) (X.backend (P.executorOf c)) code)
        phase := Function.update s.phase c (P.afterPublish c outcome) }
    | _ => none
  | .wake c =>
    match s.phase c with
    | .backingOff attempt err =>
      some { s with phase := Function.update s.phase c (P.nextRound c attempt err) }
    | _ => none
  | .cancel c err =>
    match s.phase c with
    | .backingOff _ _ =>
      if X.cancellable then
        some { s with phase := Function.update s.phase c (.returned (.error err)) }
      else none
    | _ => none

/-- What a step can do: one case for each branch of `step`. -/
inductive Moves (s : ExecState X ι κ S α) : ExecLabel κ → ExecState X ι κ S α → Prop
  | tick (d : ℕ) : Moves s (.tick d) { s with clock := s.clock + d }
  | start (c : κ) (hc : s.phase c = .notStarted) :
    Moves s (.start c) { s with
      breaker := Function.update s.breaker (P.via c)
        (X.canExecute s.clock (s.breaker (P.via c))).2
      admitted := Function.update s.admitted c
        (X.canExecute s.clock (s.breaker (P.via c))).1.isOk
      phase := Function.update s.phase c
        (P.afterCheck c (X.canExecute s.clock (s.breaker (P.via c))).1) }
  | invoke (c : κ) (attempt : X.Counter) (hc : s.phase c = .ready attempt) :
    Moves s (.invoke c) { s with phase := Function.update s.phase c (.running attempt none) }
  | takeEffect (c : κ) (attempt : X.Counter) (hc : s.phase c = .running attempt none) :
    Moves s (.takeEffect c) { s with
      store := ((P.call c).operation s.store).2
      applied := s.applied ++ [c]
      phase := Function.update s.phase c
        (.running attempt (some ((P.call c).operation s.store).1)) }
  | lateEffect (c : κ) (n : ℕ) (hc : (s.failed c)[n]? = some none) :
    Moves s (.lateEffect c n) { s with
      store := ((P.call c).operation s.store).2
      applied := s.applied ++ [c]
      failed := Function.update s.failed c
        ((s.failed c).set n (some ((P.call c).operation s.store).1)) }
  | succeed (c : κ) (attempt : X.Counter) (result : α)
    (hc : s.phase c = .running attempt (some result)) :
    Moves s (.succeed c)
      { s with phase := Function.update s.phase c (.reporting (.success result) none) }
  | fail (c : κ) (err : String) (attempt : X.Counter) (effect : Option α)
    (hc : s.phase c = .running attempt effect) :
    Moves s (.fail c err) { s with
      phase := Function.update s.phase c (.reporting (.failure attempt err) none)
      failed := Function.update s.failed c (s.failed c ++ [effect]) }
  | report (c : κ) (outcome : Outcome X α) (point : Option X.FailPoint)
    (hc : s.phase c = .reporting outcome point) :
    Moves s (.report c) { s with
      breaker := Function.update s.breaker (P.via c)
        (reportStep s.clock outcome point (s.breaker (P.via c))).2
      phase := Function.update s.phase c
        (afterReport outcome (reportStep s.clock outcome point (s.breaker (P.via c))).1) }
  | readState (c : κ) (outcome : Outcome X α) (hc : s.phase c = .publishing outcome none)
    (hmetrics : X.hasMetrics (P.executorOf c) = true) :
    Moves s (.publish c) { s with
      phase := Function.update s.phase c
        (.publishing outcome (some (X.state (s.breaker (P.via c))).code)) }
  | publish (c : κ) (outcome : Outcome X α) (code : Option ℕ) (metrics : Metrics)
    (hc : s.phase c = .publishing outcome code)
    (hcode : code = none → X.hasMetrics (P.executorOf c) = false) :
    Moves s (.publish c) { s with
      metrics := metrics
      phase := Function.update s.phase c (P.afterPublish c outcome) }
  | wake (c : κ) (attempt : X.Counter) (err : String) (hc : s.phase c = .backingOff attempt err) :
    Moves s (.wake c) { s with phase := Function.update s.phase c (P.nextRound c attempt err) }
  | cancel (c : κ) (err : String) (attempt : X.Counter) (e : String)
    (hc : s.phase c = .backingOff attempt e) :
    Moves s (.cancel c err)
      { s with phase := Function.update s.phase c (.returned (.error err)) }

variable {P}

/-- Every step is a move. -/
lemma moves_of_step {s s' : ExecState X ι κ S α} {l : ExecLabel κ} (h : P.step s l = some s') :
    Moves P s l s' := by
  cases l with
  | tick d => exact Option.some.inj h ▸ .tick d
  | start c =>
    simp only [step] at h
    split at h
    · exact Option.some.inj h ▸ .start c ‹_›
    · cases h
  | invoke c =>
    simp only [step] at h
    split at h
    · exact Option.some.inj h ▸ .invoke c _ ‹_›
    · cases h
  | takeEffect c =>
    simp only [step] at h
    split at h
    · exact Option.some.inj h ▸ .takeEffect c _ ‹_›
    · cases h
  | lateEffect c n =>
    simp only [step] at h
    split at h
    · exact Option.some.inj h ▸ .lateEffect c n ‹_›
    · cases h
  | succeed c =>
    simp only [step] at h
    split at h
    · exact Option.some.inj h ▸ .succeed c _ _ ‹_›
    · cases h
  | fail c err =>
    simp only [step] at h
    split at h
    · exact Option.some.inj h ▸ .fail c err _ _ ‹_›
    · cases h
  | report c =>
    simp only [step] at h
    split at h
    · exact Option.some.inj h ▸ .report c _ _ ‹_›
    · cases h
  | publish c =>
    simp only [step] at h
    split at h
    · split_ifs at h with hmetrics
      · exact Option.some.inj h ▸ .readState c _ ‹_› hmetrics
      · exact Option.some.inj h ▸ .publish c _ _ s.metrics ‹_› fun _ => by simpa using hmetrics
    · exact Option.some.inj h ▸ .publish c _ _ _ ‹_› (by simp)
    · cases h
  | wake c =>
    simp only [step] at h
    split at h
    · exact Option.some.inj h ▸ .wake c _ _ ‹_›
    · cases h
  | cancel c err =>
    simp only [step] at h
    split at h
    · split_ifs at h
      exact Option.some.inj h ▸ .cancel c err _ _ ‹_›
    · cases h

/-! ### The phases of a call -/

/-- The phase of a call is changed by its own steps only. -/
lemma phase_of_caller_ne {s s' : ExecState X ι κ S α} {l : ExecLabel κ} {c : κ}
    (h : P.step s l = some s') (hl : l.caller ≠ some c) : s'.phase c = s.phase c := by
  cases moves_of_step h <;> first
    | rfl
    | exact Function.update_of_ne (fun hc => hl (congrArg some hc.symm)) _ _

/-- A call starts with its admission check. -/
lemma eq_start_of_started {s s' : ExecState X ι κ S α} {l : ExecLabel κ} {c : κ}
    (h : P.step s l = some s') (hs : s.phase c = .notStarted) (hs' : s'.phase c ≠ .notStarted) :
    l = .start c := by
  by_contra hne
  by_cases hl : l.caller = some c
  · cases moves_of_step h <;> first
      | cases hl
        simp_all
      | cases hl
  · exact hs' ((phase_of_caller_ne h hl).trans hs)

/-- What the admission check of a call does. -/
lemma eq_of_step_start {s s' : ExecState X ι κ S α} {c : κ} (h : P.step s (.start c) = some s') :
    s' = { s with
      breaker := Function.update s.breaker (P.via c)
        (X.canExecute s.clock (s.breaker (P.via c))).2
      admitted := Function.update s.admitted c
        (X.canExecute s.clock (s.breaker (P.via c))).1.isOk
      phase := Function.update s.phase c
        (P.afterCheck c (X.canExecute s.clock (s.breaker (P.via c))).1) } := by
  cases moves_of_step h
  rfl

/-- A call that has returned stays so, and makes no step any more. -/
lemma returned_step {s s' : ExecState X ι κ S α} {l : ExecLabel κ} {c : κ}
    {r : Except String α} (hs : s.phase c = .returned r) (h : P.step s l = some s') :
    s'.phase c = .returned r ∧ l.caller ≠ some c := by
  have hl : l.caller ≠ some c := by
    intro hl
    cases moves_of_step h <;> cases hl <;> simp_all
  exact ⟨(phase_of_caller_ne h hl).trans hs, hl⟩

/-- Along a run, a call that has returned stays so and makes no step. -/
lemma returned_run {s t : ExecState X ι κ S α} {ls : List (ExecLabel κ)} {c : κ}
    {r : Except String α} (hs : s.phase c = .returned r) (h : runFrom P.step s ls = some t) :
    t.phase c = .returned r ∧ ∀ l ∈ ls, l.caller ≠ some c := by
  induction ls generalizing s with
  | nil =>
    obtain rfl := Option.some.inj h
    exact ⟨hs, by simp⟩
  | cons l ls ih =>
    obtain ⟨u, hu, hrun⟩ := Option.bind_eq_some_iff.mp h
    obtain ⟨hret, hl⟩ := returned_step hs hu
    obtain ⟨ht, hls⟩ := ih hret hrun
    refine ⟨ht, fun m hm => ?_⟩
    rcases List.mem_cons.mp hm with rfl | hm
    · exact hl
    · exact hls m hm

/-- A call returns a result when it has published the outcome of a successful attempt. -/
lemma returned_ok_step {s s' : ExecState X ι κ S α} {l : ExecLabel κ} {c : κ} {result : α}
    (h : P.step s l = some s') (hs : s.phase c ≠ .returned (.ok result))
    (hs' : s'.phase c = .returned (.ok result)) :
    ∃ code, l = .publish c ∧ s.phase c = .publishing (.success result) code ∧
      (code = none → X.hasMetrics (P.executorOf c) = false) ∧ s'.failed = s.failed := by
  have hl : l.caller = some c := by
    by_contra hl
    exact hs ((phase_of_caller_ne h hl).symm.trans hs')
  cases moves_of_step h with
  | publish d outcome code metrics hd hcode =>
    cases hl
    have hafter : P.afterPublish c outcome = .returned (.ok result) := by simpa using hs'
    cases outcome with
    | success r =>
      obtain rfl : r = result := by simpa [afterPublish] using hafter
      exact ⟨code, rfl, hd, hcode, rfl⟩
    | failure attempt err =>
      simp only [afterPublish, nextRound] at hafter
      split_ifs at hafter
      split at hafter <;> cases hafter
  | start d hd =>
    cases hl
    have hafter : P.afterCheck c (X.canExecute s.clock (s.breaker (P.via c))).1 =
        .returned (.ok result) := by simpa using hs'
    unfold afterCheck at hafter
    split at hafter
    · cases hafter
    · split at hafter <;> cases hafter
  | wake d attempt err hd =>
    cases hl
    have hafter : P.nextRound c attempt err = .returned (.ok result) := by simpa using hs'
    unfold nextRound at hafter
    split at hafter <;> cases hafter
  | report d outcome point hd =>
    cases hl
    have hafter : afterReport outcome (reportStep s.clock outcome point
        (s.breaker (P.via c))).1 = .returned (.ok result) := by simpa using hs'
    unfold afterReport at hafter
    split at hafter <;> cases hafter
  | tick d => cases hl
  | lateEffect d n hd => cases hl
  | _ =>
    cases hl
    simp at hs'

/-- The last step of the publication of a success returns the result. -/
lemma returned_of_publish {s s' : ExecState X ι κ S α} {c : κ} {result : α} {code : Option ℕ}
    (h : P.step s (.publish c) = some s') (hc : s.phase c = .publishing (.success result) code)
    (hcode : code = none → X.hasMetrics (P.executorOf c) = false) :
    s'.phase c = .returned (.ok result) ∧ s'.failed = s.failed := by
  cases moves_of_step h with
  | readState _ outcome hc' hmetrics =>
    rw [hc'] at hc
    obtain ⟨-, rfl⟩ := Phase.publishing.inj hc
    rw [hcode rfl] at hmetrics
    cases hmetrics
  | publish _ outcome code' metrics hc' hcode' =>
    rw [hc'] at hc
    obtain ⟨rfl, -⟩ := Phase.publishing.inj hc
    exact ⟨by simp [afterPublish], rfl⟩

/-- A call that is refused returns the error of the breaker. -/
lemma phase_of_refused {s s' : ExecState X ι κ S α} {c : κ} {err : String}
    (h : P.step s (.start c) = some s')
    (hr : (X.canExecute s.clock (s.breaker (P.via c))).1 = .error err) :
    s'.phase c = .returned (.error err) := by
  rw [eq_of_step_start h, hr]
  simp [afterCheck]

/-! ### The breaker of an executor -/

/-- A circuit is opened by the report of a failed attempt of a call through its executor. -/
lemma opened_by_failure {s s' : ExecState X ι κ S α} {l : ExecLabel κ} {i : ι}
    (h : P.step s l = some s') (hs : X.state (s.breaker i) ≠ .Open)
    (hs' : X.state (s'.breaker i) = .Open) :
    ∃ d attempt err point, l = .report d ∧ P.via d = i ∧
      s.phase d = .reporting (.failure attempt err) point := by
  cases moves_of_step h with
  | start c hc =>
    by_cases hi : i = P.via c
    · subst hi
      simp only [Function.update_self, X.canExecute_state] at hs'
      split_ifs at hs'
      exact absurd hs' hs
    · exact absurd (by simpa [hi] using hs') hs
  | report c outcome point hc =>
    by_cases hi : i = P.via c
    · subst hi
      cases outcome with
      | success result =>
        simp only [Function.update_self, reportStep, X.onSuccess_state] at hs'
        cases hs'
      | failure attempt err => exact ⟨c, attempt, err, point, rfl, rfl, hc⟩
    · exact absurd (by simpa [hi] using hs') hs
  | _ => exact absurd hs' hs

/-! ### The breaker of one executor -/

/-- The place of a failure report among its atomic steps. -/
def failPoint : Phase X α → Option X.FailPoint
  | .reporting (.failure _ _) point => point
  | _ => none

/-- The call is between its admission check and its return. -/
def Active : Phase X α → Prop
  | .notStarted => False
  | .returned _ => False
  | _ => True

/-- The breaker of an executor with the calls that go through it. -/
def breakerView (P : Setup X ι κ S α) (i : ι) (s : ExecState X ι κ S α) :
    BreakerState X.toBreakerModel κ where
  clock := s.clock
  cb := s.breaker i
  reporting c := if P.via c = i then failPoint (s.phase c) else none
  admitted c := if P.via c = i then s.admitted c else false

/-- A call that is between its admission check and its return was admitted. -/
def ActiveAdmitted (s : ExecState X ι κ S α) : Prop :=
  ∀ c, Active (s.phase c) → s.admitted c = true

omit [DecidableEq κ] in
/-- What a breaker and its calls depend on. -/
lemma breakerView_congr {i : ι} {s s' : ExecState X ι κ S α} (hclock : s'.clock = s.clock)
    (hb : s'.breaker i = s.breaker i)
    (hp : ∀ c, P.via c = i → failPoint (s'.phase c) = failPoint (s.phase c))
    (ha : ∀ c, P.via c = i → s'.admitted c = s.admitted c) :
    breakerView P i s' = breakerView P i s := by
  refine BreakerState.ext hclock hb ?_ ?_
  · funext c
    simp only [breakerView]
    split_ifs with hc
    · exact hp c hc
    · rfl
  · funext c
    simp only [breakerView]
    split_ifs with hc
    · exact ha c hc
    · rfl

omit [DecidableEq ι] in
/-- A change of phase outside failure reports. -/
lemma failPoint_update {s : ExecState X ι κ S α} {c : κ} {p : Phase X α}
    (hp : failPoint p = failPoint (s.phase c)) (d : κ) :
    failPoint (Function.update s.phase c p d) = failPoint (s.phase d) := by
  by_cases hd : d = c
  · subst hd
    rw [Function.update_self, hp]
  · rw [Function.update_of_ne hd]

omit [DecidableEq ι] [DecidableEq κ] in
/-- After its admission check a call reports nothing yet, and it goes on only when admitted. -/
lemma afterCheck_spec (c : κ) (r : Except String Unit) :
    failPoint (P.afterCheck c r) = none ∧ (Active (P.afterCheck c r) → r.isOk = true) := by
  cases r with
  | error err => exact ⟨rfl, fun h => h.elim⟩
  | ok a =>
    refine ⟨?_, fun _ => rfl⟩
    simp only [afterCheck]
    split <;> rfl

omit [DecidableEq ι] [DecidableEq κ] in
/-- At the top of the loop a call reports nothing. -/
lemma failPoint_nextRound (c : κ) (attempt : X.Counter) (err : String) :
    failPoint (P.nextRound c attempt err) = none := by
  unfold nextRound
  split <;> rfl

omit [DecidableEq ι] [DecidableEq κ] in
/-- After the publication a call reports nothing. -/
lemma failPoint_afterPublish (c : κ) (outcome : Outcome X α) :
    failPoint (P.afterPublish c outcome) = none := by
  cases outcome with
  | success result => rfl
  | failure attempt err =>
    simp only [afterPublish]
    split_ifs
    · rfl
    · exact failPoint_nextRound c attempt err

/-- Every step keeps the admissions of the calls that are under way. -/
lemma activeAdmitted_step (s : ExecState X ι κ S α) (l : ExecLabel κ) (s' : ExecState X ι κ S α)
    (hs : ActiveAdmitted s) (h : P.step s l = some s') : ActiveAdmitted s' := by
  intro d hd
  by_cases hl : l.caller = some d
  · cases moves_of_step h with
    | start c hc =>
      cases hl
      simp only [Function.update_self] at hd ⊢
      exact (afterCheck_spec _ _).2 hd
    | tick n => cases hl
    | lateEffect c n hc => cases hl
    | readState c outcome hc hmetrics =>
      cases hl
      exact hs d (by rw [hc]; trivial)
    | publish c outcome code metrics hc hcode =>
      cases hl
      exact hs d (by rw [hc]; trivial)
    | _ =>
      rename_i hc
      cases hl
      exact hs d (by rw [hc]; trivial)
  · have hphase := phase_of_caller_ne h hl
    have hadm : s'.admitted d = s.admitted d := by
      cases moves_of_step h <;> first
        | rfl
        | exact Function.update_of_ne (fun hc => hl (congrArg some hc.symm)) _ _
    rw [hadm]
    exact hs d (by rwa [hphase] at hd)

/-- A step that makes no report and no admission check through an executor does not show at its
breaker. -/
lemma breakerView_of_silent {s s' : ExecState X ι κ S α} {l : ExecLabel κ} {i : ι}
    (h : P.step s l = some s') (htick : ∀ d, l ≠ .tick d)
    (hl : ∀ c, P.via c = i → l ≠ .start c ∧ l ≠ .report c) :
    breakerView P i s' = breakerView P i s := by
  cases moves_of_step h with
  | tick d => exact absurd rfl (htick d)
  | lateEffect c n hc => rfl
  | start c hc =>
    have hi : P.via c ≠ i := fun hi => (hl c hi).1 rfl
    refine breakerView_congr rfl (Function.update_of_ne hi.symm _ _) (fun d hd => ?_)
      (fun d hd => ?_)
    · exact congrArg failPoint (Function.update_of_ne (by rintro rfl; exact hi hd) _ _)
    · exact Function.update_of_ne (by rintro rfl; exact hi hd) _ _
  | report c outcome point hc =>
    have hi : P.via c ≠ i := fun hi => (hl c hi).2 rfl
    refine breakerView_congr rfl (Function.update_of_ne hi.symm _ _) (fun d hd => ?_)
      (fun _ _ => rfl)
    exact congrArg failPoint (Function.update_of_ne (by rintro rfl; exact hi hd) _ _)
  | readState c outcome hc hmetrics =>
    refine breakerView_congr rfl rfl (fun d _ => failPoint_update ?_ d) fun _ _ => rfl
    rw [hc]
    rfl
  | publish c outcome code metrics hc hcode =>
    refine breakerView_congr rfl rfl (fun d _ => failPoint_update ?_ d) fun _ _ => rfl
    rw [hc, failPoint_afterPublish]
    rfl
  | wake c attempt err hc =>
    refine breakerView_congr rfl rfl (fun d _ => failPoint_update ?_ d) fun _ _ => rfl
    rw [hc, failPoint_nextRound]
    rfl
  | _ =>
    rename_i hc
    refine breakerView_congr rfl rfl (fun d _ => failPoint_update ?_ d) fun _ _ => rfl
    rw [hc]
    rfl

/-- An admission check shows at its breaker. -/
lemma breakerView_step_start {s s' : ExecState X ι κ S α} {c : κ}
    (h : P.step s (.start c) = some s') :
    (breakerView P (P.via c) s).step (.canExecute c) = some (breakerView P (P.via c) s') := by
  cases moves_of_step h with
  | start _ hc =>
    have hr : (breakerView P (P.via c) s).reporting c = none := by
      simp [breakerView, hc, failPoint]
    simp only [BreakerState.step, hr]
    refine congrArg some (BreakerState.ext rfl ?_ ?_ ?_)
    · simp [breakerView]
    · funext d
      by_cases hd : d = c
      · subst hd
        simp only [breakerView, Function.update_self, hc, (afterCheck_spec _ _).1]
        rfl
      · simp [breakerView, hd]
    · funext d
      by_cases hd : d = c
      · subst hd
        simp [breakerView]
      · simp [breakerView, hd]

/-- A step of a report shows at its breaker, as the report of a success or as a step of the report
of a failure. -/
lemma breakerView_step_report {s s' : ExecState X ι κ S α} {c : κ}
    (h : P.step s (.report c) = some s') :
    ∃ l, (l = .onSuccess c ∨ l = .onFailure c) ∧
      (breakerView P (P.via c) s).step l = some (breakerView P (P.via c) s') := by
  cases moves_of_step h with
  | report _ outcome point hc =>
    cases outcome with
    | success result =>
      have hr : (breakerView P (P.via c) s).reporting c = none := by
        simp [breakerView, hc, failPoint]
      refine ⟨.onSuccess c, Or.inl rfl, ?_⟩
      simp only [BreakerState.step, hr]
      refine congrArg some (BreakerState.ext rfl ?_ ?_ rfl)
      · simp [breakerView, reportStep]
      · funext d
        by_cases hd : d = c
        · subst hd
          simp [breakerView, hc, failPoint, afterReport, reportStep]
        · simp [breakerView, hd]
    | failure attempt err =>
      have hr : (breakerView P (P.via c) s).reporting c = point := by
        simp [breakerView, hc, failPoint]
      refine ⟨.onFailure c, Or.inr rfl, ?_⟩
      simp only [BreakerState.step, hr]
      refine congrArg some (BreakerState.ext rfl ?_ ?_ rfl)
      · simp [breakerView, reportStep]
      · funext d
        by_cases hd : d = c
        · subst hd
          simp only [breakerView, Function.update_self, if_pos, reportStep]
          cases (X.onFailureStep s.clock point (s.breaker (P.via d))).1 <;> rfl
        · simp [breakerView, hd]

/-- Every step shows at a breaker as one step of the calls that share it, or not at all. -/
lemma breakerView_step (i : ι) (s : ExecState X ι κ S α) (l : ExecLabel κ)
    (s' : ExecState X ι κ S α) (hs : ActiveAdmitted s) (h : P.step s l = some s') :
    ∃ ls, runFrom BreakerState.step (breakerView P i s) ls = some (breakerView P i s') ∧
      StepsMeet BreakerState.step FromAdmitted (breakerView P i s) ls := by
  cases l with
  | tick d =>
    cases moves_of_step h
    exact ⟨[.tick d], rfl, .cons rfl trivial (.nil _)⟩
  | start c =>
    by_cases hi : P.via c = i
    · subst hi
      have hstep := breakerView_step_start h
      refine ⟨[.canExecute c], ?_, .cons hstep trivial (.nil _)⟩
      rw [runFrom_cons, hstep]
      rfl
    · refine ⟨[], congrArg some (breakerView_of_silent h (by simp) ?_).symm, .nil _⟩
      rintro d rfl
      exact ⟨by rintro ⟨⟩; exact hi rfl, by simp⟩
  | report c =>
    by_cases hi : P.via c = i
    · subst hi
      obtain ⟨l, hl, hstep⟩ := breakerView_step_report h
      have hadm : (breakerView P (P.via c) s).admitted c = true := by
        cases moves_of_step h with
        | report _ outcome point hc => simpa [breakerView] using hs c (by rw [hc]; trivial)
      refine ⟨[l], ?_, .cons hstep ?_ (.nil _)⟩
      · rw [runFrom_cons, hstep]
        rfl
      · rcases hl with rfl | rfl <;> exact hadm
    · refine ⟨[], congrArg some (breakerView_of_silent h (by simp) ?_).symm, .nil _⟩
      rintro d rfl
      exact ⟨by simp, by rintro ⟨⟩; exact hi rfl⟩
  | _ => exact ⟨[], congrArg some (breakerView_of_silent h (by simp) (by simp)).symm, .nil _⟩

/-- Every run of calls through executors is, at each executor, a run of its breaker in which only
admitted calls report. -/
theorem exists_breakerRun_of_run {clock : ℕ} {store : S} {ls : List (ExecLabel κ)}
    {s : ExecState X ι κ S α} (h : runFrom P.step (P.init clock store) ls = some s) (i : ι) :
    ∃ ls', runFrom BreakerState.step (.init clock (X.newBreaker (P.executor i))) ls' =
        some (breakerView P i s) ∧
      StepsMeet BreakerState.step FromAdmitted (.init clock (X.newBreaker (P.executor i))) ls' := by
  have hinit : breakerView P i (P.init clock store) =
      .init clock (X.newBreaker (P.executor i)) := by
    simp [breakerView, init, BreakerState.init, failPoint]
  rw [← hinit]
  exact runFrom_simulation (breakerView P i) activeAdmitted_step (breakerView_step i)
    (fun _ hc => hc.elim) h

end Setup

/-! ### Fast failure -/

section FastFailure

variable {ι κ S α : Type*} [DecidableEq ι] [DecidableEq κ]

/-- In every run of either executor, take a moment at which the circuit of an executor is open and
its reset timeout has not passed.  A call that makes its admission check at this moment returns the
error of the breaker and never makes another step, so it does not invoke its operation.  A call
that invokes its operation at this moment was admitted earlier, was not left with an open circuit
by its admission check, and since then the report of a failed attempt has opened the circuit. -/
theorem invoked_while_blocked (L : Lang) (P : Setup L.executor ι κ S α) (clock : ℕ) (store : S)
    (ls : List (ExecLabel κ)) {s : ExecState L.executor ι κ S α} {c : κ}
    (hrun : runFrom P.step (P.init clock store) ls = some s)
    (hblocked : L.executor.Blocked s.clock (s.breaker (P.via c))) :
    (∀ post t, runFrom P.step s (.start c :: post) = some t →
      t.phase c = .returned (.error L.executor.openError) ∧
        ∀ l ∈ post, l.caller ≠ some c) ∧
    ∀ s', P.step s (.invoke c) = some s' →
      ∃ pre mid post d u v w w',
        ls = pre ++ .start c :: (mid ++ .report d :: post) ∧
        runFrom P.step (P.init clock store) pre = some u ∧
        P.step u (.start c) = some v ∧
        (L.executor.canExecute u.clock (u.breaker (P.via c))).1.isOk = true ∧
        L.executor.state (v.breaker (P.via c)) ≠ .Open ∧
        runFrom P.step v mid = some w ∧ P.step w (.report d) = some w' ∧ P.via d = P.via c ∧
        (∃ attempt err point, w.phase d = .reporting (.failure attempt err) point) ∧
        L.executor.state (w.breaker (P.via c)) ≠ .Open ∧
        L.executor.state (w'.breaker (P.via c)) = .Open := by
  refine ⟨fun post t ht => ?_, fun s' hs' => ?_⟩
  · obtain ⟨u, hu, hpost⟩ := Option.bind_eq_some_iff.mp ht
    have href : (L.executor.canExecute s.clock (s.breaker (P.via c))).1 =
        .error L.executor.openError := by
      rw [L.executor.canExecute_of_blocked _ _ hblocked]
    exact Setup.returned_run (Setup.phase_of_refused hu href) hpost
  · obtain ⟨attempt, hready⟩ : ∃ attempt, s.phase c = .ready attempt := by
      cases Setup.moves_of_step hs' with
      | invoke _ attempt hc => exact ⟨attempt, hc⟩
    -- the call has started, so the run has its admission check
    obtain ⟨pre, l, post₁, u, v, rfl, hu, hl, hnot, hstarted⟩ :=
      exists_crossing (Q := fun s => s.phase c ≠ .notStarted) hrun (not_not_intro rfl)
        (by rw [hready]; simp)
    obtain rfl : l = .start c := Setup.eq_start_of_started hl (not_not.mp hnot) hstarted
    have hpost : runFrom P.step v post₁ = some s := by
      rw [runFrom_append, hu, Option.bind_some, runFrom_cons, hl] at hrun
      exact hrun
    have hok : (L.executor.canExecute u.clock (u.breaker (P.via c))).1.isOk = true := by
      cases hr : (L.executor.canExecute u.clock (u.breaker (P.via c))).1 with
      | ok a => rfl
      | error err =>
        have hret := (Setup.returned_run (Setup.phase_of_refused hl hr) hpost).1
        rw [hready] at hret
        cases hret
    have hclosed : L.executor.state (v.breaker (P.via c)) ≠ .Open := by
      rw [Setup.eq_of_step_start hl]
      simpa using LawfulBreaker.state_ne_open_of_isOk hok
    -- the circuit is open now, so a step after the admission check has opened it
    obtain ⟨mid, l, post, w, w', rfl, hw, hl', hnotOpen, hopen⟩ :=
      exists_crossing (Q := fun s => L.executor.state (s.breaker (P.via c)) = .Open) hpost
        hclosed hblocked.1
    obtain ⟨d, attempt, err, point, rfl, hd, hphase⟩ :=
      Setup.opened_by_failure hl' hnotOpen hopen
    exact ⟨pre, mid, post, d, u, v, w, w', rfl, hu, hl, hok, hclosed, hw, hl', hd,
      ⟨attempt, err, point, hphase⟩, hnotOpen, hopen⟩

/-- No operation is invoked while the circuit is open and its reset timeout has not passed. -/
def NeverInvokedWhileBlocked {X : ExecutorModel} (P : Setup X ι κ S α) : Prop :=
  ∀ (clock : ℕ) (store : S) (ls : List (ExecLabel κ)) (c : κ) (s s' : ExecState X ι κ S α),
    runFrom P.step (P.init clock store) ls = some s → P.step s (.invoke c) = some s' →
      ¬ X.Blocked s.clock (s.breaker (P.via c))

/-- A call that does nothing at the backend. -/
def idleCall : Call Unit Unit := ⟨"get", fun s => ((), s)⟩

/-- Calls through a Rust executor with one retry and a breaker that opens at the first failure. -/
def hastyRust : Setup Rust.executorModel Unit ℕ Unit Unit :=
  .shared _ ⟨{ Rust.ResilienceConfig.default with maxRetries := 1, circuitBreakerThreshold := 1 },
    "kv", "memory"⟩ fun _ => idleCall

/-- Calls through a Go executor with one retry and a breaker that opens at the first failure. -/
def hastyGo : Setup Go.executorModel Unit ℕ Unit Unit :=
  .shared _ (.new ⟨1, 100, 1, 30, 5⟩ true "kv" "memory") fun _ => idleCall

/-- The first attempt of a call fails and opens the circuit; the call sleeps and goes on. -/
def retriedRust : List (ExecLabel ℕ) :=
  [.start 0, .invoke 0, .fail 0 "connection reset", .report 0, .report 0, .report 0, .publish 0,
    .publish 0, .wake 0]

/-- The same run of the Go executor. -/
def retriedGo : List (ExecLabel ℕ) :=
  [.start 0, .invoke 0, .fail 0 "connection reset", .report 0, .publish 0, .publish 0, .wake 0]

/-- A retry invokes the operation while the circuit is open, in either executor. -/
theorem retry_invokes_while_blocked :
    ¬ NeverInvokedWhileBlocked hastyRust ∧ ¬ NeverInvokedWhileBlocked hastyGo := by
  constructor
  · intro h
    exact h 0 () retriedRust 0 _ _ rfl rfl (by decide)
  · intro h
    exact h 0 () retriedGo 0 _ _ rfl rfl (by decide)

/-- The retry of the Rust executor belongs to a call that was admitted before the circuit opened,
and a call that arrives at that moment is refused. -/
theorem retry_admitted_before_opening :
    ∃ s, runFrom hastyRust.step (hastyRust.init 0 ()) retriedRust = some s ∧
      (∀ t, runFrom hastyRust.step s [.start 1] = some t →
        t.phase 1 = .returned (.error "Circuit breaker is OPEN")) ∧
      ∀ s', hastyRust.step s (.invoke 0) = some s' →
        ∃ pre mid post d, retriedRust = pre ++ .start 0 :: (mid ++ .report d :: post) := by
  refine ⟨_, rfl, fun t ht => ?_, fun s' hs' => ?_⟩
  · exact ((invoked_while_blocked (c := 1) .rust hastyRust 0 () retriedRust rfl
      (by decide)).1 [] t ht).1
  · obtain ⟨pre, mid, post, d, -, -, -, -, heq, -⟩ := (invoked_while_blocked (c := 0) .rust
      hastyRust 0 () retriedRust rfl (by decide)).2 s' hs'
    exact ⟨pre, mid, post, d, heq⟩

end FastFailure

end GoyStore
