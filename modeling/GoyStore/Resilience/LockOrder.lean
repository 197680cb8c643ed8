import GoyStore.Library.RwLock
import GoyStore.Resilience.BreakerRuns

/-!
# The two locks of the Rust breaker

The methods of the Rust `CircuitBreaker` as a program over its two locks, `state` and
`last_failure_time`.  `can_execute` holds `state` while it waits for `last_failure_time`;
`on_failure` holds `last_failure_time` while it waits for `state`.  When both wait, every later
call waits too (`stuck_of_crossed`), and this is the only way to get stuck
(`not_stuck_of_not_crossed`): a run never gets stuck exactly if no step of it lets the two waits
cross (`not_stuck_iff_noCrossing`).

Without its locks a run of this program is a run of the breaker shared by concurrent tasks
(`exists_breakerRun_of_lockRun`).
-/

namespace GoyStore

open Runs Locks

namespace Rust

/-- The locks of `CircuitBreaker`, by their fields. -/
inductive BreakerLock where
  | state
  | lastFailureTime
  deriving DecidableEq, Repr

/-- The methods of `CircuitBreaker` that take locks. -/
inductive BreakerMethod where
  | canExecute
  | onSuccess
  | onFailure
  | currentStateCode
  deriving DecidableEq, Repr

/-- Where a task stands between two lock operations. -/
inductive LockPoint where
  /-- Outside the four methods. -/
  | idle
  /-- `can_execute`, before `self.state.write()`. -/
  | canExecuteState
  /-- `can_execute` in the arm `Open`, before `self.last_failure_time.read()`. -/
  | canExecuteTime
  /-- `can_execute`, before `last_time` is dropped. -/
  | canExecuteBoth
  /-- `can_execute`, before `state_guard` is dropped. -/
  | canExecuteDone
  /-- `on_success`, before `self.state.write()`. -/
  | onSuccessState
  /-- `on_success`, before `state_guard` is dropped. -/
  | onSuccessDone
  /-- `on_failure`, before `self.last_failure_time.write()`; the count is `failures`. -/
  | onFailureTime (failures : UInt32)
  /-- `on_failure`, before `self.state.write()`. -/
  | onFailureState
  /-- `on_failure`, before `state_guard` is dropped. -/
  | onFailureBoth
  /-- `on_failure`, before `last_time` is dropped. -/
  | onFailureDone
  /-- `current_state_code`, before `self.state.read()`. -/
  | codeState
  /-- `current_state_code`, before `state_guard` is dropped. -/
  | codeDone
  deriving DecidableEq, Repr

namespace LockPoint

/-- The lock operation that comes next. -/
def next : LockPoint → Option (LockOp BreakerLock)
  | .idle => none
  | .canExecuteState => some (.acquire .state .write)
  | .canExecuteTime => some (.acquire .lastFailureTime .read)
  | .canExecuteBoth => some (.release .lastFailureTime)
  | .canExecuteDone => some (.release .state)
  | .onSuccessState => some (.acquire .state .write)
  | .onSuccessDone => some (.release .state)
  | .onFailureTime _ => some (.acquire .lastFailureTime .write)
  | .onFailureState => some (.acquire .state .write)
  | .onFailureBoth => some (.release .state)
  | .onFailureDone => some (.release .lastFailureTime)
  | .codeState => some (.acquire .state .read)
  | .codeDone => some (.release .state)

/-- The guards that are alive. -/
def held : LockPoint → BreakerLock → Option LockMode
  | .canExecuteTime, .state => some .write
  | .canExecuteBoth, .state => some .write
  | .canExecuteBoth, .lastFailureTime => some .read
  | .canExecuteDone, .state => some .write
  | .onSuccessDone, .state => some .write
  | .onFailureState, .lastFailureTime => some .write
  | .onFailureBoth, .lastFailureTime => some .write
  | .onFailureBoth, .state => some .write
  | .onFailureDone, .lastFailureTime => some .write
  | .codeDone, .state => some .read
  | _, _ => none

/-- The place of a failure report among its atomic steps. -/
def failPoint : LockPoint → Option CircuitBreaker.FailPoint
  | .onFailureTime failures => some (.counted failures)
  | .onFailureState => some .opening
  | _ => none

end LockPoint

variable {τ : Type*} [DecidableEq τ]

/-- The data of the breaker and of the tasks, beside the locks. -/
structure LockData (τ : Type*) where
  /-- The current time. -/
  clock : ℕ
  /-- The values behind the locks and the counter. -/
  cb : CircuitBreaker
  /-- Whether the last `can_execute` call of a task returned `Ok`. -/
  admitted : τ → Bool

/-- What the code does with the next lock operation, and where it stands then.  The code between
an acquisition and the next lock operation runs with the acquisition. -/
def runPoint (t : τ) (d : LockData τ) : LockPoint → LockPoint × LockData τ
  | .idle => (.idle, d)
  | .canExecuteState =>
    match d.cb.state with
    | .Open => (.canExecuteTime, d)
    | .Closed | .HalfOpen =>
      (.canExecuteDone, { d with admitted := Function.update d.admitted t true })
  | .canExecuteTime =>
    let r := d.cb.checkReset d.clock
    (.canExecuteBoth, { d with cb := r.2, admitted := Function.update d.admitted t r.1.isOk })
  | .canExecuteBoth => (.canExecuteDone, d)
  | .canExecuteDone => (.idle, d)
  | .onSuccessState => (.onSuccessDone, { d with cb := d.cb.onSuccess })
  | .onSuccessDone => (.idle, d)
  | .onFailureTime failures =>
    let cb := d.cb.stampFailure d.clock
    (if cb.failureThreshold ≤ failures then .onFailureState else .onFailureDone,
      { d with cb := cb })
  | .onFailureState => (.onFailureBoth, { d with cb := d.cb.openCircuit })
  | .onFailureBoth => (.onFailureDone, d)
  | .onFailureDone => (.idle, d)
  | .codeState => (.codeDone, d)
  | .codeDone => (.idle, d)

/-- Where a call of a method starts; `on_failure` counts the failure before it takes a lock. -/
def startCall (d : LockData τ) : BreakerMethod → LockPoint × LockData τ
  | .canExecute => (.canExecuteState, d)
  | .onSuccess => (.onSuccessState, d)
  | .onFailure => (.onFailureTime d.cb.countFailure.1, { d with cb := d.cb.countFailure.2 })
  | .currentStateCode => (.codeState, d)

/-- After an acquisition its guard is alive. -/
lemma held_runPoint_acquire (t : τ) (d : LockData τ) {p : LockPoint} {k : BreakerLock}
    {m : LockMode} (h : p.next = some (.acquire k m)) :
    (runPoint t d p).1.held = Function.update p.held k (some m) := by
  funext j
  cases p <;> simp only [LockPoint.next, Option.some.injEq, LockOp.acquire.injEq, reduceCtorEq] at h
  case canExecuteState =>
    obtain ⟨rfl, rfl⟩ := h
    cases hs : d.cb.state <;> cases j <;> simp [runPoint, hs, LockPoint.held]
  case onFailureTime failures =>
    obtain ⟨rfl, rfl⟩ := h
    by_cases hf : (d.cb.stampFailure d.clock).failureThreshold ≤ failures <;> cases j <;>
      simp [runPoint, hf, LockPoint.held]
  all_goals
    obtain ⟨rfl, rfl⟩ := h
    cases j <;> rfl

/-- A release drops a guard that is alive. -/
lemma held_runPoint_release (t : τ) (d : LockData τ) {p : LockPoint} {k : BreakerLock}
    (h : p.next = some (.release k)) :
    p.held k ≠ none ∧ (runPoint t d p).1.held = Function.update p.held k none := by
  refine ⟨?_, ?_⟩
  · cases p <;> simp only [LockPoint.next, Option.some.injEq, LockOp.release.injEq,
      reduceCtorEq] at h <;> subst h <;> simp [LockPoint.held]
  · funext j
    cases p <;> simp only [LockPoint.next, Option.some.injEq, LockOp.release.injEq,
      reduceCtorEq] at h <;> subst h <;> cases j <;> rfl

/-- The methods of the breaker as a program over its locks. -/
def lockProgram (τ : Type*) [DecidableEq τ] :
    LockProgram BreakerLock τ LockPoint (LockData τ) where
  next := LockPoint.next
  held := LockPoint.held
  run := runPoint
  held_of_next_none p h k := by
    cases p <;> simp only [LockPoint.next, reduceCtorEq] at h
    rfl
  held_run_acquire t d _ _ _ h := held_runPoint_acquire t d h
  held_run_release t d _ _ h := held_runPoint_release t d h

/-! ### Runs -/

/-- The tasks, the locks and the breaker. -/
abbrev LockRunState (τ : Type*) := LockState BreakerLock τ LockPoint (LockData τ)

/-- The steps of the tasks and of the clock. -/
inductive LockLabel (τ : Type*) where
  /-- Time passes. -/
  | tick (d : ℕ)
  /-- A task calls a method. -/
  | call (t : τ) (m : BreakerMethod)
  /-- The next acquisition or release of a task. -/
  | lock (t : τ)
  deriving DecidableEq, Repr

namespace LockRunState

/-- No task has used the breaker yet. -/
def init (clock : ℕ) (cb : CircuitBreaker) : LockRunState τ where
  locks _ := .free
  point _ := .idle
  data := { clock := clock, cb := cb, admitted := fun _ => false }

/-- One step. -/
def step (s : LockRunState τ) : LockLabel τ → Option (LockRunState τ)
  | .tick d => some { s with data := { s.data with clock := s.data.clock + d } }
  | .call t m =>
    if s.point t = .idle then
      let r := startCall s.data m
      some { s with point := Function.update s.point t r.1, data := r.2 }
    else none
  | .lock t => (lockProgram τ).lockStep s t

/-- A `can_execute` call waits for `last_failure_time` while an `on_failure` call waits for
`state`. -/
def Crossed (s : LockRunState τ) : Prop :=
  ∃ t u, s.point t = .canExecuteTime ∧ s.point u = .onFailureState

/-- Some task is inside a call, and none of those can take its next step. -/
abbrev Stuck (s : LockRunState τ) : Prop := (lockProgram τ).Stuck s

/-- The step does not make the two waits cross: no `can_execute` call goes on to wait for
`last_failure_time` while an `on_failure` call waits for `state`, and no `on_failure` call goes on
to wait for `state` while a `can_execute` call waits for `last_failure_time`. -/
def NoCrossing (s : LockRunState τ) : LockLabel τ → Prop
  | .lock t =>
    match s.point t with
    | .canExecuteState => s.data.cb.state = .Open → ∀ u, s.point u ≠ .onFailureState
    | .onFailureTime failures =>
      s.data.cb.failureThreshold ≤ failures → ∀ u, s.point u ≠ .canExecuteTime
    | _ => True
  | _ => True

/-- What a step can do: one case for each label. -/
lemma step_cases {s s' : LockRunState τ} {l : LockLabel τ} (h : step s l = some s') :
    (∃ d, l = .tick d ∧ s' = { s with data := { s.data with clock := s.data.clock + d } }) ∨
    (∃ t m, l = .call t m ∧ s.point t = .idle ∧
      s' = { s with
        point := Function.update s.point t (startCall s.data m).1
        data := (startCall s.data m).2 }) ∨
    (∃ t locks, l = .lock t ∧ (lockProgram τ).lockStep s t = some s' ∧
      s' = { locks := locks
             point := Function.update s.point t (runPoint t s.data (s.point t)).1
             data := (runPoint t s.data (s.point t)).2 }) := by
  cases l with
  | tick d => exact Or.inl ⟨d, rfl, (Option.some.inj h).symm⟩
  | call t m =>
    simp only [step] at h
    split_ifs at h with hidle
    exact Or.inr (Or.inl ⟨t, m, rfl, hidle, (Option.some.inj h).symm⟩)
  | lock t =>
    obtain ⟨locks, -, heq⟩ := LockProgram.eq_of_lockStep h
    exact Or.inr (Or.inr ⟨t, locks, rfl, h, heq⟩)

/-- Every step keeps the locks as the points of the tasks say. -/
lemma describes_step {s s' : LockRunState τ} {l : LockLabel τ}
    (hs : (lockProgram τ).Describes s) (h : step s l = some s') :
    (lockProgram τ).Describes s' := by
  obtain ⟨d, rfl, rfl⟩ | ⟨t, m, rfl, hidle, rfl⟩ | ⟨t, locks, rfl, hlock, -⟩ := step_cases h
  · exact hs
  · apply hs.move
    rw [hidle]
    cases m <;> rfl
  · exact LockProgram.lockStep_describes hs hlock

/-! ### Stuck states -/

/-- A point that holds a guard and waits for a lock is one of two. -/
lemma waits_with_guard {p : LockPoint} {k k' : BreakerLock} {m : LockMode}
    (hheld : p.held k ≠ none) (hnext : p.next = some (.acquire k' m)) :
    (p = .canExecuteTime ∧ k = .state ∧ k' = .lastFailureTime) ∨
      (p = .onFailureState ∧ k = .lastFailureTime ∧ k' = .state) := by
  cases p <;> cases k <;> simp_all [LockPoint.held, LockPoint.next]

/-- A state without crossed waits is not stuck. -/
theorem not_stuck_of_not_crossed {s : LockRunState τ} (hs : (lockProgram τ).Describes s)
    (hc : ¬ Crossed s) : ¬ Stuck s := by
  intro hstuck
  obtain ⟨t, ht⟩ := hstuck.1
  -- follow the waits: `t` waits for `u`, `u` for `v`, and `v` waits too
  obtain ⟨k, m, u, -, hu, k', m', hu'⟩ := LockProgram.exists_waiting_holder_of_stuck hs hstuck ht
  have hin : (lockProgram τ).Inside s u := LockProgram.inside_of_held hu
  obtain ⟨j, n, v, hj, hv, j', n', hv'⟩ :=
    LockProgram.exists_waiting_holder_of_stuck hs hstuck hin
  have hop : LockOp.acquire k' m' = .acquire j n := Option.some.inj (hu'.symm.trans hj)
  obtain ⟨rfl, rfl⟩ := LockOp.acquire.inj hop
  rcases waits_with_guard hu hu' with ⟨hpu, -, rfl⟩ | ⟨hpu, -, rfl⟩
  · rcases waits_with_guard hv hv' with ⟨-, hk, -⟩ | ⟨hpv, -, -⟩
    · cases hk
    · exact hc ⟨u, v, hpu, hpv⟩
  · rcases waits_with_guard hv hv' with ⟨hpv, -, -⟩ | ⟨-, hk, -⟩
    · exact hc ⟨v, u, hpv, hpu⟩
    · cases hk

/-- A state with crossed waits is stuck. -/
theorem stuck_of_crossed {s : LockRunState τ} (hs : (lockProgram τ).Describes s)
    (hc : Crossed s) : Stuck s := by
  obtain ⟨t, u, ht, hu⟩ := hc
  have hstate : (lockProgram τ).held (s.point t) .state = some .write := by
    rw [ht]
    rfl
  have htime : (lockProgram τ).held (s.point u) .lastFailureTime = some .write := by
    rw [hu]
    rfl
  refine ⟨⟨t, LockProgram.inside_of_held (k := .state) (by rw [hstate]; simp)⟩, fun v hv => ?_⟩
  cases hnext : (lockProgram τ).next (s.point v) with
  | none => exact absurd hnext hv
  | some op =>
    cases op with
    | acquire k m =>
      cases k with
      | state => exact LockProgram.lockStep_eq_none_of_held_write hs hnext hstate
      | lastFailureTime => exact LockProgram.lockStep_eq_none_of_held_write hs hnext htime
    | release k =>
      -- the two locks are held by `t` and `u` alone, and both are about to acquire
      have hheld := ((lockProgram τ).held_run_release v s.data _ k hnext).1
      cases k with
      | state =>
        obtain rfl := LockProgram.eq_of_held_write hs hstate hheld
        rw [ht] at hnext
        cases hnext
      | lastFailureTime =>
        obtain rfl := LockProgram.eq_of_held_write hs htime hheld
        rw [hu] at hnext
        cases hnext

/-! ### Runs that do not get stuck -/

/-- The invariant of the runs without a crossing step. -/
structure OrderInvariant (s : LockRunState τ) : Prop where
  /-- The locks are as the points of the tasks say. -/
  describes : (lockProgram τ).Describes s
  /-- The two waits have not crossed. -/
  not_crossed : ¬ Crossed s

/-- A task comes to wait for `last_failure_time` inside `can_execute` only from the arm `Open`. -/
lemma runPoint_eq_canExecuteTime {t : τ} {d : LockData τ} {p : LockPoint}
    (h : (runPoint t d p).1 = .canExecuteTime) : p = .canExecuteState ∧ d.cb.state = .Open := by
  cases p <;> simp only [runPoint, reduceCtorEq] at h
  case canExecuteState =>
    cases hs : d.cb.state <;> simp [hs] at h ⊢
  case onFailureTime failures =>
    split_ifs at h

/-- A task comes to wait for `state` inside `on_failure` only when its count reached the
threshold. -/
lemma runPoint_eq_onFailureState {t : τ} {d : LockData τ} {p : LockPoint}
    (h : (runPoint t d p).1 = .onFailureState) :
    ∃ failures, p = .onFailureTime failures ∧ d.cb.failureThreshold ≤ failures := by
  cases p <;> simp only [runPoint, reduceCtorEq] at h
  case canExecuteState =>
    cases hs : d.cb.state <;> simp [hs] at h
  case onFailureTime failures =>
    split_ifs at h with hf
    exact ⟨failures, rfl, hf⟩

/-- A step that meets the condition keeps the invariant. -/
lemma orderInvariant_step (s : LockRunState τ) (l : LockLabel τ) (s' : LockRunState τ)
    (hs : OrderInvariant s) (hl : NoCrossing s l) (h : step s l = some s') :
    OrderInvariant s' := by
  refine ⟨describes_step hs.describes h, ?_⟩
  rintro ⟨t, u, ht, hu⟩
  obtain ⟨d, rfl, rfl⟩ | ⟨v, m, rfl, -, rfl⟩ | ⟨v, locks, rfl, -, rfl⟩ := step_cases h
  · exact hs.not_crossed ⟨t, u, ht, hu⟩
  · -- a call starts at none of the two points
    have hstart : (startCall s.data m).1 ≠ .canExecuteTime ∧
        (startCall s.data m).1 ≠ .onFailureState := by
      cases m <;> simp [startCall]
    have htv : t ≠ v := by
      rintro rfl
      exact hstart.1 (by simpa using ht)
    have huv : u ≠ v := by
      rintro rfl
      exact hstart.2 (by simpa using hu)
    exact hs.not_crossed ⟨t, u, by simpa [htv] using ht, by simpa [huv] using hu⟩
  · by_cases htv : t = v
    · subst htv
      have hut : u ≠ t := by
        rintro rfl
        rw [ht] at hu
        cases hu
      obtain ⟨hp, hopen⟩ := runPoint_eq_canExecuteTime (by simpa using ht)
      simp only [NoCrossing, hp] at hl
      exact hl hopen u (by simpa [hut] using hu)
    · by_cases huv : u = v
      · subst huv
        obtain ⟨failures, hp, hf⟩ := runPoint_eq_onFailureState (by simpa using hu)
        simp only [NoCrossing, hp] at hl
        exact hl hf t (by simpa [htv] using ht)
      · exact hs.not_crossed ⟨t, u, by simpa [htv] using ht, by simpa [huv] using hu⟩

/-- A step that breaks the condition leads to crossed waits. -/
lemma crossed_of_not_noCrossing {s s' : LockRunState τ} {l : LockLabel τ}
    (hl : ¬ NoCrossing s l) (h : step s l = some s') : Crossed s' := by
  cases l with
  | tick d => exact absurd trivial hl
  | call t m => exact absurd trivial hl
  | lock t =>
    obtain ⟨locks, -, rfl⟩ := LockProgram.eq_of_lockStep h
    simp only [NoCrossing] at hl
    split at hl
    · rename_i hp
      obtain ⟨hopen, hu⟩ := Classical.not_imp.mp hl
      obtain ⟨u, hu⟩ := not_forall_not.mp hu
      have hut : u ≠ t := by
        rintro rfl
        rw [hp] at hu
        cases hu
      refine ⟨t, u, ?_, ?_⟩
      · simp [lockProgram, hp, runPoint, hopen]
      · simpa [hut] using hu
    · rename_i failures hp
      obtain ⟨hf, hu⟩ := Classical.not_imp.mp hl
      obtain ⟨u, hu⟩ := not_forall_not.mp hu
      have hut : u ≠ t := by
        rintro rfl
        rw [hp] at hu
        cases hu
      refine ⟨u, t, ?_, ?_⟩
      · simpa [hut] using hu
      · simp [lockProgram, hp, runPoint, CircuitBreaker.stampFailure, hf]
    · exact absurd trivial hl

/-- At the start the locks are free and every task is outside. -/
lemma orderInvariant_init (clock : ℕ) (cb : CircuitBreaker) :
    OrderInvariant (init clock cb : LockRunState τ) := by
  refine ⟨fun k t => RwLock.mode_free t, ?_⟩
  rintro ⟨t, u, ht, -⟩
  cases ht

/-- A run of any number of tasks never reaches a stuck state if and only if none of its steps lets
the two waits cross. -/
theorem not_stuck_iff_noCrossing (clock : ℕ) (threshold : UInt32) (resetTimeout : ℕ)
    (ls : List (LockLabel τ)) :
    Always step (fun s => ¬ Stuck s) (init clock (CircuitBreaker.new threshold resetTimeout)) ls ↔
      StepsMeet step NoCrossing (init clock (CircuitBreaker.new threshold resetTimeout)) ls := by
  refine always_iff_stepsMeet orderInvariant_step ?_ ?_ (orderInvariant_init clock _)
  · intro s hs
    exact not_stuck_of_not_crossed hs.describes hs.not_crossed
  · intro s l s' hs hl h
    exact not_not_intro
      (stuck_of_crossed (describes_step hs.describes h) (crossed_of_not_noCrossing hl h))

/-- Along every run the locks are as the points of the tasks say. -/
lemma describes_of_run {clock : ℕ} {cb : CircuitBreaker} {ls : List (LockLabel τ)}
    {s : LockRunState τ} (h : runFrom step (init clock cb) ls = some s) :
    (lockProgram τ).Describes s :=
  invariant_of_runFrom (fun _ _ _ hs hl => describes_step hs hl)
    (orderInvariant_init clock cb).describes h

/-- With threshold 1: the failure of task 0 opens the circuit, task 1 reports a failure and waits
for `state`, and the admission check of task 2 waits for `last_failure_time`. -/
def lateFailureMeetsCheck : List (LockLabel ℕ) :=
  [.call 0 .onFailure, .lock 0, .lock 0, .lock 0, .lock 0, .call 1 .onFailure,
    .call 2 .canExecute, .lock 2, .lock 1]

/-- A late failure report and an admission check of an open circuit wait for each other for
ever. -/
theorem late_failure_deadlocks :
    ¬ ∀ (threshold : UInt32) (resetTimeout : ℕ) (ls : List (LockLabel ℕ)), 1 ≤ threshold →
      Always step (fun s => ¬ Stuck s) (init 0 (CircuitBreaker.new threshold resetTimeout))
        ls := by
  intro h
  obtain ⟨s, hrun, hcrossed⟩ : ∃ s, runFrom step (init 0 (CircuitBreaker.new 1 1))
      lateFailureMeetsCheck = some s ∧ Crossed s := ⟨_, rfl, 2, 1, rfl, rfl⟩
  exact h 1 1 lateFailureMeetsCheck (by decide) _ s List.prefix_rfl hrun
    (stuck_of_crossed (describes_of_run hrun) hcrossed)

/-! ### The same runs without the locks -/

/-- The state of the breaker and of its tasks, without the locks. -/
def withoutLocks (s : LockRunState τ) : BreakerState breakerModel τ where
  clock := s.data.clock
  cb := s.data.cb
  reporting t := (s.point t).failPoint
  admitted := s.data.admitted

/-- A move of one task, without the locks. -/
lemma withoutLocks_move (s : LockRunState τ) (locks : BreakerLock → RwLock τ) (t : τ)
    (p : LockPoint) (d : LockData τ) :
    withoutLocks { locks := locks, point := Function.update s.point t p, data := d } =
      { clock := d.clock
        cb := d.cb
        reporting := Function.update (withoutLocks s).reporting t p.failPoint
        admitted := d.admitted } := by
  have hr : (fun u => (Function.update s.point t p u).failPoint) =
      Function.update (withoutLocks s).reporting t p.failPoint := by
    funext u
    by_cases hu : u = t
    · subst hu
      simp
    · simp [hu, withoutLocks]
  rw [← hr]
  rfl

/-- A move of one task that neither starts nor ends nor advances a failure report. -/
lemma withoutLocks_keep {s : LockRunState τ} {locks : BreakerLock → RwLock τ} {t : τ}
    {p : LockPoint} (d : LockData τ) (hp : p.failPoint = (s.point t).failPoint) :
    withoutLocks { locks := locks, point := Function.update s.point t p, data := d } =
      { clock := d.clock
        cb := d.cb
        reporting := (withoutLocks s).reporting
        admitted := d.admitted } := by
  have hsame : Function.update (withoutLocks s).reporting t p.failPoint =
      (withoutLocks s).reporting := Function.update_eq_self_iff.mpr hp
  rw [withoutLocks_move, hsame]

/-- The invariant of the simulation. -/
structure OpenUnderGuard (s : LockRunState τ) : Prop where
  /-- The locks are as the points of the tasks say. -/
  describes : (lockProgram τ).Describes s
  /-- The state stays open while an admission check that found it open waits. -/
  state_open : ∀ t, s.point t = .canExecuteTime → s.data.cb.state = .Open

/-- The field `state` changes only under its write guard. -/
lemma held_of_state_ne {t : τ} {d : LockData τ} {p : LockPoint}
    (h : (runPoint t d p).2.cb.state ≠ d.cb.state) :
    (runPoint t d p).1.held .state = some .write := by
  cases p
  case canExecuteState =>
    refine absurd ?_ h
    cases hs : d.cb.state <;> simp [runPoint, hs]
  all_goals first | rfl | exact absurd rfl h

/-- The admission check waits with the data as it found them. -/
lemma data_of_runPoint_eq_canExecuteTime {t : τ} {d : LockData τ} {p : LockPoint}
    (h : (runPoint t d p).1 = .canExecuteTime) : (runPoint t d p).2 = d := by
  obtain ⟨rfl, hopen⟩ := runPoint_eq_canExecuteTime h
  simp [runPoint, hopen]

/-- Every step keeps the invariant of the simulation. -/
lemma openUnderGuard_step (s : LockRunState τ) (l : LockLabel τ) (s' : LockRunState τ)
    (hs : OpenUnderGuard s) (h : step s l = some s') : OpenUnderGuard s' := by
  have hdesc := describes_step hs.describes h
  refine ⟨hdesc, fun t ht => ?_⟩
  obtain ⟨d, rfl, rfl⟩ | ⟨v, m, rfl, hidle, rfl⟩ | ⟨v, locks, rfl, -, rfl⟩ := step_cases h
  · exact hs.state_open t ht
  · have htv : t ≠ v := by
      rintro rfl
      cases m <;> simp [startCall] at ht
    have hopen := hs.state_open t (by simpa [htv] using ht)
    cases m <;> exact hopen
  · by_cases htv : t = v
    · subst htv
      have hp : (runPoint t s.data (s.point t)).1 = .canExecuteTime := by simpa using ht
      rw [data_of_runPoint_eq_canExecuteTime hp]
      exact (runPoint_eq_canExecuteTime hp).2
    · have hopen := hs.state_open t (by simpa [htv] using ht)
      by_contra hne
      -- the task that moved would hold the write guard of `state` beside `t`
      have hv : (runPoint v s.data (s.point v)).1.held .state = some .write :=
        held_of_state_ne fun heq => hne (heq.trans hopen)
      refine htv (LockProgram.eq_of_held_write hdesc (t := v) (k := .state) ?_ ?_)
      · simpa [lockProgram] using hv
      · rw [ht]
        simp [lockProgram, LockPoint.held]

/-- Every step of a task between two lock operations is a step of the shared breaker or invisible
there. -/
lemma withoutLocks_step (s : LockRunState τ) (l : LockLabel τ) (s' : LockRunState τ)
    (hs : OpenUnderGuard s) (h : step s l = some s') :
    ∃ ls, runFrom BreakerState.step (withoutLocks s) ls = some (withoutLocks s') := by
  obtain ⟨d, rfl, rfl⟩ | ⟨t, m, rfl, hidle, rfl⟩ | ⟨t, locks, rfl, hlock, rfl⟩ := step_cases h
  · exact ⟨[.tick d], rfl⟩
  · cases m with
    | onFailure =>
      have hrep : (withoutLocks s).reporting t = none := congrArg LockPoint.failPoint hidle
      refine ⟨[.onFailure t], ?_⟩
      rw [withoutLocks_move, runFrom_singleton, BreakerState.step_onFailure hrep]
      rfl
    | _ => exact ⟨[], congrArg some (withoutLocks_keep s.data (by rw [hidle]; rfl)).symm⟩
  · -- the failure report that the task is in, as the shared breaker sees it
    have hrep : (withoutLocks s).reporting t = (s.point t).failPoint := rfl
    cases hp : s.point t with
    | canExecuteState =>
      rw [hp] at hrep
      cases hstate : s.data.cb.state with
      | Open =>
        have hrun : runPoint t s.data .canExecuteState = (.canExecuteTime, s.data) := by
          rw [runPoint, hstate]
        rw [hrun]
        exact ⟨[], congrArg some (withoutLocks_keep s.data (by rw [hp]; rfl)).symm⟩
      | _ =>
        have hrun : runPoint t s.data .canExecuteState = (.canExecuteDone,
            { s.data with admitted := Function.update s.data.admitted t true }) := by
          rw [runPoint, hstate]
        have hcan : s.data.cb.canExecute s.data.clock = (.ok (), s.data.cb) := by
          rw [CircuitBreaker.canExecute, hstate]
        have hcheck : breakerModel.canExecute (withoutLocks s).clock (withoutLocks s).cb =
            (.ok (), s.data.cb) := hcan
        refine ⟨[.canExecute t], ?_⟩
        rw [hrun, withoutLocks_keep _ (by rw [hp]; rfl), runFrom_singleton,
          BreakerState.step_canExecute hrep, hcheck]
        rfl
    | canExecuteTime =>
      rw [hp] at hrep
      have hcan : s.data.cb.canExecute s.data.clock = s.data.cb.checkReset s.data.clock := by
        rw [CircuitBreaker.canExecute, hs.state_open t hp]
      have hcheck : breakerModel.canExecute (withoutLocks s).clock (withoutLocks s).cb =
          s.data.cb.checkReset s.data.clock := hcan
      refine ⟨[.canExecute t], ?_⟩
      rw [withoutLocks_keep _ (by rw [hp]; rfl), runFrom_singleton,
        BreakerState.step_canExecute hrep, hcheck]
      rfl
    | onSuccessState =>
      rw [hp] at hrep
      refine ⟨[.onSuccess t], ?_⟩
      rw [withoutLocks_keep _ (by rw [hp]; rfl), runFrom_singleton,
        BreakerState.step_onSuccess hrep]
      rfl
    | onFailureTime failures =>
      rw [hp] at hrep
      refine ⟨[.onFailure t], ?_⟩
      rw [withoutLocks_move, runFrom_singleton, BreakerState.step_onFailure hrep]
      have hpoint : (runPoint t s.data (.onFailureTime failures)).1.failPoint =
          (breakerModel.onFailureStep (withoutLocks s).clock (some (.counted failures))
            (withoutLocks s).cb).1 := by
        by_cases hf : s.data.cb.failureThreshold ≤ failures
        · exact (congrArg LockPoint.failPoint (if_pos hf)).trans (if_pos hf).symm
        · exact (congrArg LockPoint.failPoint (if_neg hf)).trans (if_neg hf).symm
      rw [hpoint]
      rfl
    | onFailureState =>
      rw [hp] at hrep
      refine ⟨[.onFailure t], ?_⟩
      rw [withoutLocks_move, runFrom_singleton, BreakerState.step_onFailure hrep]
      rfl
    | _ => exact ⟨[], congrArg some (withoutLocks_keep s.data (by rw [hp]; rfl)).symm⟩

/-- Every run of the breaker with its locks is, without the locks, a run of the breaker that
concurrent tasks share. -/
theorem exists_breakerRun_of_lockRun {clock : ℕ} {cb : CircuitBreaker} {ls : List (LockLabel τ)}
    {s : LockRunState τ} (h : runFrom step (init clock cb) ls = some s) :
    ∃ ls', runFrom BreakerState.step (.init clock cb) ls' = some (withoutLocks s) := by
  have hinit : OpenUnderGuard (init clock cb : LockRunState τ) :=
    ⟨(orderInvariant_init clock cb).describes, fun _ ht => by cases ht⟩
  obtain ⟨ls', hls', -⟩ := runFrom_simulation (C := fun _ _ => True) withoutLocks
    openUnderGuard_step (fun s l s' hs hl => (withoutLocks_step s l s' hs hl).imp
      fun ls hls => ⟨hls, fun _ _ _ _ _ _ _ => trivial⟩) hinit h
  exact ⟨ls', hls'⟩

end LockRunState

end Rust

end GoyStore
