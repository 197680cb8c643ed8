import GoyStore.Resilience.ExecutorRuns

/-!
# The gauge of the circuit breaker

An executor publishes the state of its breaker as the gauge `circuit_breaker_state` after each
outcome that it records.  The admission check of a call can change the state too, from open to
half-open, and publishes nothing.

When the calls of one executor come one after the other, the gauge has the code of the state
whenever the operation is invoked and whenever a call returns if and only if no call starts while
the circuit is open and its reset timeout has passed (`truthful_iff_steady`).  The call that probes
the backend then runs while the gauge still says open: of the three codes of the gauge, that of a
half-open circuit is missing just when it is due (`half_open_circuit_published_as_open`).
-/

namespace GoyStore

open Runs

/-- The operation waits to be invoked, or is running. -/
inductive Phase.Invokes {X : ExecutorModel} {α : Type*} : Phase X α → Prop
  | ready (attempt : X.Counter) : Invokes (.ready attempt)
  | running (attempt : X.Counter) (effect : Option α) : Invokes (.running attempt effect)

/-- The call has returned. -/
def Phase.isReturned {X : ExecutorModel} {α : Type*} : Phase X α → Bool
  | .returned _ => true
  | _ => false

/-- An executor whose calls come one after the other. -/
structure GaugeState (X : ExecutorModel) (κ S α : Type*) where
  /-- The executor, the backend and the calls. -/
  exec : ExecState X Unit κ S α
  /-- The call that has started and has not returned. -/
  active : Option κ
  /-- An outcome has been recorded. -/
  recorded : Bool

namespace GaugeState

variable {X : ExecutorModel} {κ S α : Type*}

/-- No call has started. -/
def init (ex : X.Executor) (call : κ → Call S α) (clock : ℕ) (store : S) :
    GaugeState X κ S α where
  exec := (Setup.shared X ex call).init clock store
  active := none
  recorded := false

/-- The step starts a call. -/
def starts : ExecLabel κ → Bool
  | .start _ => true
  | _ => false

/-- The step records an outcome. -/
def records : ExecLabel κ → Bool
  | .report _ => true
  | _ => false

/-- The call that is active after a step. -/
def activeAfter (exec : ExecState X Unit κ S α) (active : Option κ) (l : ExecLabel κ) : Option κ :=
  match l.caller with
  | none => active
  | some c => if (exec.phase c).isReturned then none else some c

/-- The step function: a call starts only when the call before it has returned. -/
def step [DecidableEq κ] (ex : X.Executor) (call : κ → Call S α) (s : GaugeState X κ S α)
    (l : ExecLabel κ) : Option (GaugeState X κ S α) :=
  if starts l && s.active.isSome then none
  else
    ((Setup.shared X ex call).step s.exec l).map fun exec =>
      { exec, active := activeAfter exec s.active l, recorded := s.recorded || records l }

/-- The gauge; it is 0 until it is set. -/
def gauge (ex : X.Executor) (s : GaugeState X κ S α) : ℕ :=
  (s.exec.metrics.circuitBreakerState (X.contract ex) (X.backend ex)).getD 0

/-- The code of the state of the breaker. -/
def code (s : GaugeState X κ S α) : ℕ := (X.state (s.exec.breaker ())).code

/-- The gauge has the code of the state when the operation of a call is invoked after an outcome
was recorded, and when a call has returned. -/
structure Truthful (ex : X.Executor) (s : GaugeState X κ S α) : Prop where
  /-- When the operation is invoked. -/
  invoked : ∀ c, (s.exec.phase c).Invokes → s.recorded = true → s.gauge ex = s.code
  /-- When a call has returned. -/
  returned : s.active = none → ∀ c, (s.exec.phase c).isReturned = true → s.gauge ex = s.code

/-- No call starts while the circuit is open and its reset timeout has passed. -/
def Steady (s : GaugeState X κ S α) (l : ExecLabel κ) : Prop :=
  starts l = true → X.state (s.exec.breaker ()) = .Open →
    X.TimeoutRunning s.exec.clock (s.exec.breaker ())

/-- What the gauge and the code of the state have to do with each other in each phase of a call. -/
def Tells (gauge code : ℕ) : Phase X α → Prop
  | .reporting _ _ => True
  | .publishing _ none => True
  | .publishing _ (some read) => read = code
  | _ => gauge = code

/-- What every state of a run has whose steps are steady. -/
structure Followed (ex : X.Executor) (s : GaugeState X κ S α) : Prop where
  /-- The calls that are not active have not started or have returned. -/
  idle : ∀ c, s.active ≠ some c → s.exec.phase c = .notStarted ∨ (s.exec.phase c).isReturned = true
  /-- Between the calls the gauge has the code of the state. -/
  between : s.active = none → s.gauge ex = s.code
  /-- During a call the gauge has it too, or the call is about to set it. -/
  during : ∀ c, s.active = some c → Tells (s.gauge ex) s.code (s.exec.phase c)
  /-- Before the first outcome the circuit is closed. -/
  fresh : s.recorded = false → X.state (s.exec.breaker ()) = .Closed

variable {ex : X.Executor} {call : κ → Call S α} {s s' t : GaugeState X κ S α} {c : κ}

/-! ### The phases of the calls -/

/-- A call that has started and has not returned is active. -/
lemma active_of_phase (hs : Followed ex s) {p : Phase X α} (hc : s.exec.phase c = p)
    (hstarted : p ≠ .notStarted) (hrunning : p.isReturned = false) :
    s.active = some c ∧ Tells (s.gauge ex) s.code p := by
  have hactive : s.active = some c := by
    by_contra hne
    rcases hs.idle c hne with hnot | hreturned
    · exact hstarted (hc.symm.trans hnot)
    · rw [hc, hrunning] at hreturned
      cases hreturned
  exact ⟨hactive, hc ▸ hs.during c hactive⟩

/-- A step of the active call, or of a call that starts when none is active. -/
lemma followed_of_phase [DecidableEq κ] (hs : Followed ex s) {exec : ExecState X Unit κ S α}
    {l : ExecLabel κ} {recorded : Bool} {p : Phase X α} (hl : l.caller = some c)
    (hactive : s.active = none ∨ s.active = some c)
    (hphase : exec.phase = Function.update s.exec.phase c p)
    (htells : Tells (gauge ex ⟨exec, s.active, recorded⟩) (X.state (exec.breaker ())).code p)
    (hfresh : recorded = false → X.state (exec.breaker ()) = .Closed) :
    Followed ex ⟨exec, activeAfter exec s.active l, recorded⟩ := by
  have hself : exec.phase c = p := by
    rw [hphase]
    exact Function.update_self ..
  have hnext : activeAfter exec s.active l = if p.isReturned then none else some c := by
    unfold activeAfter
    rw [hl, ← hself]
  rw [hnext]
  refine ⟨fun d hd => ?_, fun hnone => ?_, fun d hd => ?_, hfresh⟩
  · by_cases hdc : d = c
    · subst hdc
      refine Or.inr ?_
      by_contra hnot
      refine hd (if_neg fun hreturned => hnot ?_)
      exact (congrArg Phase.isReturned hself).trans hreturned
    · have hother : exec.phase d = s.exec.phase d := by
        rw [hphase]
        exact Function.update_of_ne hdc ..
      rw [hother]
      refine hs.idle d fun hactive' => hdc ?_
      rcases hactive with hnone | hc
      · rw [hnone] at hactive'
        cases hactive'
      · exact Option.some.inj (hactive'.symm.trans hc)
  · cases p with
    | returned result => exact htells
    | _ => cases hnone
  · split_ifs at hd
    obtain rfl := Option.some.inj hd
    rw [hself]
    exact htells

/-- A step of the active call that leaves the breaker and the metrics as they are. -/
lemma followed_of_quiet [DecidableEq κ] (hs : Followed ex s) {exec : ExecState X Unit κ S α}
    {l : ExecLabel κ} {p p' : Phase X α} (hl : l.caller = some c) (hrecords : records l = false)
    (hc : s.exec.phase c = p) (hstarted : p ≠ .notStarted) (hrunning : p.isReturned = false)
    (hphase : exec.phase = Function.update s.exec.phase c p')
    (hbreaker : exec.breaker = s.exec.breaker) (hmetrics : exec.metrics = s.exec.metrics)
    (htells : Tells (s.gauge ex) s.code p → Tells (s.gauge ex) s.code p') :
    Followed ex ⟨exec, activeAfter exec s.active l, s.recorded || records l⟩ := by
  obtain ⟨hactive, hbefore⟩ := active_of_phase hs hc hstarted hrunning
  refine followed_of_phase hs hl (Or.inr hactive) hphase ?_ fun hnone => ?_
  · unfold gauge
    simp only [hbreaker, hmetrics]
    exact htells hbefore
  · rw [hbreaker]
    rw [hrecords, Bool.or_false] at hnone
    exact hs.fresh hnone

/-- A step that leaves the calls, the breaker and the metrics as they are. -/
lemma followed_of_frame (hs : Followed ex s) (hphase : t.exec.phase = s.exec.phase)
    (hbreaker : t.exec.breaker = s.exec.breaker) (hmetrics : t.exec.metrics = s.exec.metrics)
    (hactive : t.active = s.active) (hrecorded : t.recorded = s.recorded) : Followed ex t := by
  have hgauge : t.gauge ex = s.gauge ex := by
    unfold gauge
    rw [hmetrics]
  have hcode : t.code = s.code := by
    unfold code
    rw [hbreaker]
  refine ⟨fun d hd => ?_, fun hnone => ?_, fun d hd => ?_, fun hfresh => ?_⟩
  · rw [hphase]
    exact hs.idle d (hactive ▸ hd)
  · rw [hgauge, hcode]
    exact hs.between (hactive ▸ hnone)
  · rw [hgauge, hcode, hphase]
    exact hs.during d (hactive ▸ hd)
  · rw [hbreaker]
    exact hs.fresh (hrecorded ▸ hfresh)

/-! ### Steps of a run -/

/-- The gauge after the publication of a code. -/
lemma gauge_setState (P : Setup X Unit κ S α) (outcome : Outcome X α) (m : Metrics)
    (contract backend : String) (code : ℕ) :
    (P.countRetry c outcome (m.setState contract backend code)).circuitBreakerState contract
      backend = some code := by
  have hcount : (P.countRetry c outcome (m.setState contract backend code)).circuitBreakerState =
      (m.setState contract backend code).circuitBreakerState := by
    unfold Setup.countRetry
    split
    · rfl
    · split_ifs
      · rfl
      · rfl
  rw [hcount]
  simp [Metrics.setState]

/-- A call at the top of its loop has the gauge that it had before. -/
lemma tells_nextRound {P : Setup X Unit κ S α} {g k : ℕ} {attempt : X.Counter} {err : String}
    (h : g = k) : Tells g k (P.nextRound c attempt err) := by
  unfold Setup.nextRound
  split
  · exact h
  · exact h

/-- After its publication a call has the gauge that it published. -/
lemma tells_afterPublish {P : Setup X Unit κ S α} {g k : ℕ} {outcome : Outcome X α} (h : g = k) :
    Tells g k (P.afterPublish c outcome) := by
  unfold Setup.afterPublish
  split
  · exact h
  · split_ifs
    · exact h
    · exact tells_nextRound h

/-- After its admission check a call has the gauge that it had before. -/
lemma tells_afterCheck {P : Setup X Unit κ S α} {g k : ℕ} {answer : Except String Unit}
    (h : g = k) : Tells g k (P.afterCheck c answer) := by
  unfold Setup.afterCheck
  split
  · exact h
  · split
    · exact h
    · exact h

/-- While an outcome is being recorded, the gauge is not read. -/
lemma tells_afterReport {g k : ℕ} {outcome : Outcome X α} {point : Option X.FailPoint} :
    Tells g k (Setup.afterReport outcome point) := by
  cases point
  · trivial
  · trivial

/-- With the invariant the gauge has the code of the state. -/
lemma truthful_of_followed (hs : Followed ex s) : s.Truthful ex where
  invoked c hinvokes _ := by
    cases hphase : s.exec.phase c with
    | ready attempt => exact (active_of_phase hs hphase (by simp) rfl).2
    | running attempt effect => exact (active_of_phase hs hphase (by simp) rfl).2
    | _ =>
      rw [hphase] at hinvokes
      cases hinvokes
  returned hnone _ _ := hs.between hnone

/-- A call that is admitted invokes its operation, or returns at once. -/
lemma afterCheck_admitted (P : Setup X Unit κ S α) (c : κ) :
    (∃ attempt, P.afterCheck c (.ok ()) = .ready attempt) ∨
      (P.afterCheck c (.ok ())).isReturned = true := by
  cases hfirst : X.firstAttempt (P.executorOf c) with
  | some attempt =>
    refine Or.inl ⟨attempt, ?_⟩
    simp only [Setup.afterCheck, hfirst]
  | none =>
    refine Or.inr ?_
    simp only [Setup.afterCheck, hfirst]
    rfl

variable [DecidableEq κ]

/-- What the publication of the state does. -/
lemma step_publish (hmetrics : X.hasMetrics ex = true) {exec exec' : ExecState X Unit κ S α}
    (h : (Setup.shared X ex call).step exec (.publish c) = some exec') :
    (∃ outcome, exec.phase c = .publishing outcome none ∧ exec' = { exec with
      phase := Function.update exec.phase c
        (.publishing outcome (some (X.state (exec.breaker ())).code)) }) ∨
    ∃ outcome code, exec.phase c = .publishing outcome (some code) ∧ exec' = { exec with
      metrics := (Setup.shared X ex call).countRetry c outcome
        (exec.metrics.setState (X.contract ex) (X.backend ex) code)
      phase := Function.update exec.phase c
        ((Setup.shared X ex call).afterPublish c outcome) } := by
  have hwrites : X.hasMetrics ((Setup.shared X ex call).executorOf c) = true := hmetrics
  simp only [Setup.step] at h
  split at h
  · rw [if_pos hwrites] at h
    exact Or.inl ⟨_, ‹_›, (Option.some.inj h).symm⟩
  · exact Or.inr ⟨_, _, ‹_›, (Option.some.inj h).symm⟩
  · cases h

/-- A call starts while the circuit is not open, or its reset timeout is running. -/
lemma followed_start (hs : Followed ex s) (hnone : s.active = none)
    (hsteady : s.Steady (.start c)) {exec : ExecState X Unit κ S α}
    (h : (Setup.shared X ex call).step s.exec (.start c) = some exec) :
    Followed ex ⟨exec, activeAfter exec s.active (.start c), s.recorded⟩ := by
  have hstate : X.state (X.canExecute s.exec.clock (s.exec.breaker ())).2 =
      X.state (s.exec.breaker ()) := by
    rw [X.canExecute_state]
    exact if_neg fun hpassed => hpassed.2 (hsteady rfl hpassed.1)
  obtain rfl := Setup.eq_of_step_start h
  refine followed_of_phase hs rfl (Or.inl hnone) rfl (tells_afterCheck ?_) fun hfresh => ?_
  · exact (hs.between hnone).trans (congrArg CircuitState.code hstate.symm)
  · exact hstate.trans (hs.fresh hfresh)

/-- A steady step keeps the invariant. -/
lemma followed_step (hmetrics : X.hasMetrics ex = true) (s : GaugeState X κ S α) (l : ExecLabel κ)
    (s' : GaugeState X κ S α) (hs : Followed ex s) (hsteady : s.Steady l)
    (h : step ex call s l = some s') : Followed ex s' := by
  obtain ⟨hadmitted, h⟩ := Option.ite_none_left_eq_some.mp h
  obtain ⟨exec, hstep, rfl⟩ := Option.map_eq_some_iff.mp h
  by_cases hpublish : ∃ c, l = .publish c
  · obtain ⟨c, rfl⟩ := hpublish
    rcases step_publish hmetrics hstep with ⟨outcome, hc, rfl⟩ | ⟨outcome, code, hc, rfl⟩
    · exact followed_of_quiet hs rfl rfl hc (by simp) rfl rfl rfl rfl fun _ => rfl
    · obtain ⟨hactive, hread⟩ := active_of_phase hs hc (by simp) rfl
      refine followed_of_phase hs rfl (Or.inr hactive) rfl (tells_afterPublish ?_) fun hfresh => ?_
      · refine Eq.trans ?_ hread
        exact congrArg (Option.getD · 0) (gauge_setState ..)
      · exact hs.fresh (by simpa [records] using hfresh)
  · cases Setup.moves_of_step hstep with
    | tick d => exact followed_of_frame hs rfl rfl rfl rfl (Bool.or_false _)
    | lateEffect c n hc => exact followed_of_frame hs rfl rfl rfl rfl (Bool.or_false _)
    | start c hc =>
      have hnone : s.active = none := by simpa [starts] using hadmitted
      have hfollowed := followed_start hs hnone hsteady hstep
      rwa [← Bool.or_false s.recorded] at hfollowed
    | invoke c attempt hc =>
      exact followed_of_quiet hs rfl rfl hc (by simp) rfl rfl rfl rfl id
    | takeEffect c attempt hc =>
      exact followed_of_quiet hs rfl rfl hc (by simp) rfl rfl rfl rfl id
    | succeed c attempt result hc =>
      exact followed_of_quiet hs rfl rfl hc (by simp) rfl rfl rfl rfl fun _ => trivial
    | fail c err attempt effect hc =>
      exact followed_of_quiet hs rfl rfl hc (by simp) rfl rfl rfl rfl fun _ => trivial
    | report c outcome point hc =>
      obtain ⟨hactive, -⟩ := active_of_phase hs hc (by simp) rfl
      exact followed_of_phase hs rfl (Or.inr hactive) rfl tells_afterReport (by simp [records])
    | readState c outcome hc => exact absurd ⟨c, rfl⟩ hpublish
    | publish c outcome code metrics hc hcode => exact absurd ⟨c, rfl⟩ hpublish
    | wake c attempt err hc =>
      exact followed_of_quiet hs rfl rfl hc (by simp) rfl rfl rfl rfl tells_nextRound
    | cancel c err attempt e hc =>
      exact followed_of_quiet hs rfl rfl hc (by simp) rfl rfl rfl rfl id

/-- A call that starts while the circuit is open and its reset timeout has passed finds the gauge
with the code of an open circuit, and makes it half-open. -/
lemma not_truthful_of_start (hs : Followed ex s) {l : ExecLabel κ} (hsteady : ¬ s.Steady l)
    (h : step ex call s l = some s') : ¬ s'.Truthful ex := by
  obtain ⟨hadmitted, h⟩ := Option.ite_none_left_eq_some.mp h
  obtain ⟨exec, hstep, rfl⟩ := Option.map_eq_some_iff.mp h
  simp only [Steady, Classical.not_imp] at hsteady
  obtain ⟨hstarts, hopen, hpassed⟩ := hsteady
  cases l with
  | start c =>
    have hnone : s.active = none := by simpa [starts] using hadmitted
    have hhalf : X.state (X.canExecute s.exec.clock (s.exec.breaker ())).2 = .HalfOpen := by
      rw [X.canExecute_state]
      exact if_pos ⟨hopen, hpassed⟩
    have hadmit : (X.canExecute s.exec.clock (s.exec.breaker ())).1 = .ok () :=
      X.canExecute_of_not_blocked _ _ fun hblocked => hpassed hblocked.2
    have hrecorded : s.recorded = true := by
      by_contra hfresh
      have hclosed := hs.fresh (by simpa using hfresh)
      rw [hopen] at hclosed
      cases hclosed
    have hgauge : s.gauge ex = 1 := by
      rw [hs.between hnone]
      unfold code
      rw [hopen]
      rfl
    obtain rfl := Setup.eq_of_step_start hstep
    intro htruthful
    -- the gauge says open, and the code is that of a half-open circuit
    have hdiffer : s.gauge ex ≠
        (X.state (X.canExecute s.exec.clock (s.exec.breaker ())).2).code := by
      rw [hgauge, hhalf]
      decide
    refine hdiffer ?_
    have hafter := afterCheck_admitted (Setup.shared X ex call) c
    rw [← hadmit] at hafter
    rcases hafter with ⟨attempt, hready⟩ | hreturned
    · refine htruthful.invoked c ?_ (Bool.or_eq_true_iff.mpr (Or.inl hrecorded))
      simp only [Function.update_self]
      exact hready ▸ .ready attempt
    · have hphase : (Function.update s.exec.phase c ((Setup.shared X ex call).afterCheck c
          (X.canExecute s.exec.clock (s.exec.breaker ())).1) c).isReturned = true := by
        rw [Function.update_self]
        exact hreturned
      exact htruthful.returned (if_pos hphase) c hphase
  | _ => cases hstarts

/-! ### The gauge -/

/-- When the calls of an executor come one after the other, the gauge has the code of the state of
the breaker at every invocation after the first outcome, and at every return, if and only if no call
starts while the circuit is open and its reset timeout has passed. -/
theorem truthful_iff_steady (L : Lang) (ex : L.executor.Executor)
    (hmetrics : L.executor.hasMetrics ex = true) (call : κ → Call S α) (clock : ℕ) (store : S)
    (ls : List (ExecLabel κ)) :
    Always (step ex call) (Truthful ex) (init ex call clock store) ls ↔
      StepsMeet (step ex call) Steady (init ex call clock store) ls := by
  refine always_iff_stepsMeet (followed_step hmetrics) (fun _ => truthful_of_followed)
    (fun _ _ _ hs hsteady h => not_truthful_of_start hs hsteady h) ?_
  refine ⟨fun _ _ => Or.inl rfl, fun _ => ?_, fun c hc => absurd hc (Option.some_ne_none c).symm,
    fun _ => ?_⟩
  · cases L <;> rfl
  · cases L <;> rfl

/-- A Rust executor whose circuit opens at the first failure. -/
def singleFailure : Rust.ResilientExecutor :=
  ⟨{ Rust.ResilienceConfig.default with maxRetries := 0, circuitBreakerThreshold := 1 }, "kv",
    "redis"⟩

/-- Calls of an operation that does nothing. -/
def pings : ℕ → Call Unit Unit := fun _ => ⟨"get", fun store => ((), store)⟩

/-- A call fails, and 30 seconds later the next one starts. -/
def probed : List (ExecLabel ℕ) :=
  [.start 0, .invoke 0, .fail 0 "connection refused", .report 0, .report 0, .report 0, .publish 0,
    .publish 0, .tick 30000000000, .start 1]

/-- The equivalence along this run. -/
theorem truthful_iff_steady_probed :
    Lang.rust.executor.hasMetrics singleFailure = true ∧
      (Always (step (X := Lang.rust.executor) singleFailure pings) (Truthful singleFailure)
          (init singleFailure pings 0 ()) probed ↔
        StepsMeet (step (X := Lang.rust.executor) singleFailure pings) Steady
          (init singleFailure pings 0 ()) probed) :=
  ⟨rfl, truthful_iff_steady .rust singleFailure rfl pings 0 () probed⟩

/-- The circuit is half-open when the operation of the second call is invoked, and the gauge says
open. -/
theorem half_open_circuit_published_as_open :
    ¬ ∀ (ls : List (ExecLabel ℕ)) (s : GaugeState Lang.rust.executor ℕ Unit Unit),
      runFrom (step singleFailure pings) (init singleFailure pings 0 ()) ls = some s →
        s.Truthful singleFailure := by
  intro hall
  obtain ⟨s, hrun, hready, hrecorded, hgauge, hcode⟩ : ∃ s,
      runFrom (step (X := Lang.rust.executor) singleFailure pings) (init singleFailure pings 0 ())
        probed = some s ∧ s.exec.phase 1 = .ready (1 : UInt32) ∧ s.recorded = true ∧
        s.gauge singleFailure = 1 ∧ s.code = 2 :=
    ⟨_, rfl, rfl, rfl, rfl, rfl⟩
  have htruth := (hall probed s hrun).invoked 1 (hready ▸ .ready _) hrecorded
  rw [hgauge, hcode] at htruth
  cases htruth

end GaugeState

end GoyStore
