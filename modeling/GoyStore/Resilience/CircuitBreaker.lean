import Mathlib.Data.Nat.Basic
import Mathlib.Order.Basic
import Mathlib.Tactic.SplitIfs

/-!
# The circuit breakers of the two libraries

`rust/src/resilience.rs` and `go/resilience.go` each have a `CircuitBreaker` with the same five
pieces of data.  The Go methods run under one mutex, so each is one function on the breaker.  The
Rust breaker has a lock for its state, a lock for its last failure time and an atomic counter, so
its `on_failure` is given here in the pieces between which other tasks can run (`countFailure`,
`stampFailure`, `openCircuit`) as well as in one (`onFailure`).

Times and durations are in nanoseconds.  The current time is an argument of the methods that read
the clock.

`BreakerModel` is what the rest of the development uses of a breaker, with the laws that both
breakers have as fields, and `Lang.breaker` gives the two instances.
-/

namespace GoyStore

/-- `CircuitState`, in both libraries. -/
inductive CircuitState where
  | Closed
  | Open
  | HalfOpen
  deriving DecidableEq, Repr

/-- The code of a state that is published as a metric (`current_state_code`, `StateCode`). -/
def CircuitState.code : CircuitState → ℕ
  | .Closed => 0
  | .Open => 1
  | .HalfOpen => 2

/-! ### The Rust breaker -/

namespace Rust

/-- `CircuitBreaker`; `u32` counters wrap around, durations and instants are natural numbers. -/
structure CircuitBreaker where
  /-- The value behind the lock `state`. -/
  state : CircuitState
  /-- The atomic counter. -/
  consecutiveFailures : UInt32
  /-- Number of failures in a row at which the circuit opens. -/
  failureThreshold : UInt32
  /-- How long the circuit stays open after a failure. -/
  resetTimeout : ℕ
  /-- The value behind the lock `last_failure_time`. -/
  lastFailureTime : Option ℕ
  deriving DecidableEq, Repr

namespace CircuitBreaker

/-- `CircuitBreaker::new`. -/
def new (threshold : UInt32) (resetTimeout : ℕ) : CircuitBreaker where
  state := .Closed
  consecutiveFailures := 0
  failureThreshold := threshold
  resetTimeout := resetTimeout
  lastFailureTime := none

/-- The `Open` arm of `can_execute`, which reads `last_failure_time`. -/
def checkReset (now : ℕ) (cb : CircuitBreaker) : Except String Unit × CircuitBreaker :=
  match cb.lastFailureTime with
  | some instant =>
    if cb.resetTimeout ≤ now - instant then (.ok (), { cb with state := .HalfOpen })
    else (.error "Circuit breaker is OPEN", cb)
  | none => (.error "Circuit breaker is OPEN", cb)

/-- `can_execute`, run at time `now`: the answer and the breaker afterwards. -/
def canExecute (now : ℕ) (cb : CircuitBreaker) : Except String Unit × CircuitBreaker :=
  match cb.state with
  | .Closed => (.ok (), cb)
  | .Open => cb.checkReset now
  | .HalfOpen => (.ok (), cb)

/-- `on_success`. -/
def onSuccess (cb : CircuitBreaker) : CircuitBreaker :=
  { cb with consecutiveFailures := 0, state := .Closed }

/-- The first line of `on_failure`: `fetch_add(1) + 1` and the counter afterwards. -/
def countFailure (cb : CircuitBreaker) : UInt32 × CircuitBreaker :=
  -- `fetch_add` wraps at `u32::MAX`; so does the `+ 1` when overflow checks are off
  (cb.consecutiveFailures + 1, { cb with consecutiveFailures := cb.consecutiveFailures + 1 })

/-- The write of `last_failure_time` in `on_failure`. -/
def stampFailure (now : ℕ) (cb : CircuitBreaker) : CircuitBreaker :=
  { cb with lastFailureTime := some now }

/-- The write of `state` in `on_failure`. -/
def openCircuit (cb : CircuitBreaker) : CircuitBreaker :=
  { cb with state := .Open }

/-- `on_failure` with nothing in between. -/
def onFailure (now : ℕ) (cb : CircuitBreaker) : CircuitBreaker :=
  let (failures, cb) := cb.countFailure
  let cb := cb.stampFailure now
  if cb.failureThreshold ≤ failures then cb.openCircuit else cb

/-- `current_state_code`. -/
def currentStateCode (cb : CircuitBreaker) : ℕ := cb.state.code

/-- Where an `on_failure` call stands between two of its atomic steps. -/
inductive FailPoint where
  /-- The counter is incremented, to the value `failures`. -/
  | counted (failures : UInt32)
  /-- The time is written and the threshold is reached: the state is written next. -/
  | opening
  deriving DecidableEq, Repr

/-- The next atomic step of an `on_failure` call; `none` is the point before the first step, and
as a result the end of the call. -/
def onFailureStep (now : ℕ) (p : Option FailPoint) (cb : CircuitBreaker) :
    Option FailPoint × CircuitBreaker :=
  match p with
  | none => (some (.counted cb.countFailure.1), cb.countFailure.2)
  | some (.counted failures) =>
    (if cb.failureThreshold ≤ failures then some .opening else none, cb.stampFailure now)
  | some .opening => (none, cb.openCircuit)

/-- The atomic steps of `on_failure`, run one after the other, are `onFailure`. -/
theorem onFailureStep_compose (now : ℕ) (cb : CircuitBreaker) :
    let a := onFailureStep now none cb
    let b := onFailureStep now a.1 a.2
    (match b.1 with
      | none => b.2
      | some p => (onFailureStep now (some p) b.2).2) = cb.onFailure now := by
  by_cases h : cb.failureThreshold ≤ cb.consecutiveFailures + 1 <;>
    simp [onFailureStep, onFailure, countFailure, stampFailure, h]

end CircuitBreaker

end Rust

/-! ### The Go breaker -/

namespace Go

/-- `CircuitBreaker`; the threshold and the counter are `int32`, durations are `int64`
nanoseconds, and the zero `time.Time` is the instant 0. -/
structure CircuitBreaker where
  /-- The field `state`. -/
  state : CircuitState
  /-- The atomic counter. -/
  consecutiveFailures : Int32
  /-- Number of failures in a row at which the circuit opens. -/
  failureThreshold : Int32
  /-- How long the circuit stays open after a failure. -/
  resetTimeout : Int64
  /-- The field `lastFailureTime`. -/
  lastFailureTime : ℕ
  deriving DecidableEq, Repr

/-- `time.Since`: the elapsed time, which stops at the largest `time.Duration`. -/
def timeSince (now instant : ℕ) : ℤ := min ((now - instant : ℕ) : ℤ) Int64.maxValue.toInt

namespace CircuitBreaker

/-- `NewCircuitBreaker`. -/
def new (threshold resetTimeout : Int64) : CircuitBreaker :=
  let threshold := if threshold ≤ 0 then 5 else threshold
  let resetTimeout := if resetTimeout ≤ 0 then 30 * 1000000000 else resetTimeout
  { state := .Closed
    consecutiveFailures := 0
    failureThreshold := threshold.toInt32
    resetTimeout := resetTimeout
    lastFailureTime := 0 }

/-- `CanExecute`, run at time `now`: the answer and the breaker afterwards. -/
def canExecute (now : ℕ) (cb : CircuitBreaker) : Except String Unit × CircuitBreaker :=
  match cb.state with
  | .Closed => (.ok (), cb)
  | .Open =>
    if cb.resetTimeout.toInt ≤ timeSince now cb.lastFailureTime then
      (.ok (), { cb with state := .HalfOpen })
    else (.error "circuit breaker is OPEN", cb)
  | .HalfOpen => (.ok (), cb)

/-- `OnSuccess`. -/
def onSuccess (cb : CircuitBreaker) : CircuitBreaker :=
  { cb with consecutiveFailures := 0, state := .Closed }

/-- `OnFailure`, run at time `now`. -/
def onFailure (now : ℕ) (cb : CircuitBreaker) : CircuitBreaker :=
  let cb := { cb with lastFailureTime := now }
  let failures := cb.consecutiveFailures + 1
  let cb := { cb with consecutiveFailures := failures }
  if cb.failureThreshold ≤ failures then { cb with state := .Open } else cb

/-- `StateCode`. -/
def stateCode (cb : CircuitBreaker) : ℕ := cb.state.code

end CircuitBreaker

/-- The bound of `time.Since` never decides a comparison with a duration. -/
lemma le_timeSince_iff (d : Int64) (now instant : ℕ) :
    d.toInt ≤ timeSince now instant ↔ d.toInt ≤ ((now - instant : ℕ) : ℤ) := by
  have hd : d.toInt ≤ Int64.maxValue.toInt := by
    have := d.toInt_le
    simpa using this
  rw [timeSince]
  omega

end Go

/-! ### What the two breakers have in common -/

/-- A circuit breaker as its callers and the executor use it.  `onFailureStep` is one atomic step
of a failure report: `none` stands for the point before the first step and, as a result, for the
end of the report. -/
structure BreakerModel where
  /-- The shared breaker. -/
  Cb : Type
  /-- Where a failure report stands between two atomic steps. -/
  FailPoint : Type
  /-- The state of the breaker. -/
  state : Cb → CircuitState
  /-- The time of the last recorded failure. -/
  lastFailure : Cb → Option ℕ
  /-- The reset timeout. -/
  resetTimeout : Cb → ℤ
  /-- The error of a refused admission check. -/
  openError : String
  /-- The admission check. -/
  canExecute : ℕ → Cb → Except String Unit × Cb
  /-- The report of a success. -/
  onSuccess : Cb → Cb
  /-- One atomic step of the report of a failure. -/
  onFailureStep : ℕ → Option FailPoint → Cb → Option FailPoint × Cb

namespace BreakerModel

variable (M : BreakerModel)

/-- Less than the reset timeout has passed since the last recorded failure. -/
def TimeoutRunning (now : ℕ) (b : M.Cb) : Prop :=
  ∀ t ∈ M.lastFailure b, ((now - t : ℕ) : ℤ) < M.resetTimeout b

/-- The circuit is open and its reset timeout has not passed. -/
def Blocked (now : ℕ) (b : M.Cb) : Prop :=
  M.state b = .Open ∧ M.TimeoutRunning now b

instance (now : ℕ) (b : M.Cb) : Decidable (M.TimeoutRunning now b) :=
  inferInstanceAs (Decidable (∀ t ∈ M.lastFailure b, _))

instance (now : ℕ) (b : M.Cb) : Decidable (M.Blocked now b) :=
  inferInstanceAs (Decidable (_ ∧ _))

end BreakerModel

/-- A breaker with the laws that the results about callers rest on. -/
structure LawfulBreaker extends BreakerModel where
  /-- While the circuit is blocked the admission check refuses and changes nothing. -/
  canExecute_of_blocked : ∀ now b, toBreakerModel.Blocked now b →
    canExecute now b = (.error openError, b)
  /-- Otherwise the admission check admits. -/
  canExecute_of_not_blocked : ∀ now b, ¬ toBreakerModel.Blocked now b →
    (canExecute now b).1 = .ok ()
  /-- The admission check moves the state only when it admits a caller in `Open`. -/
  canExecute_state : ∀ now b, state (canExecute now b).2 =
    if state b = .Open ∧ ¬ toBreakerModel.TimeoutRunning now b then .HalfOpen else state b
  /-- A reported success closes the circuit. -/
  onSuccess_state : ∀ b, state (onSuccess b) = .Closed
  /-- A step of a failure report leaves the state or, as the last step, opens the circuit. -/
  onFailureStep_state : ∀ now p b, state (onFailureStep now p b).2 = state b ∨
    ((onFailureStep now p b).1 = none ∧ state (onFailureStep now p b).2 = .Open)

namespace LawfulBreaker

variable {M : LawfulBreaker}

/-- The admission check refuses exactly while the circuit is blocked. -/
lemma canExecute_isOk (now : ℕ) (b : M.Cb) :
    (M.canExecute now b).1.isOk = true ↔ ¬ M.Blocked now b := by
  by_cases hb : M.Blocked now b
  · rw [M.canExecute_of_blocked now b hb]
    refine ⟨fun h => ?_, fun h => absurd hb h⟩
    cases h
  · rw [M.canExecute_of_not_blocked now b hb]
    exact ⟨fun _ => hb, fun _ => rfl⟩

/-- An admitted caller does not find the circuit open after its check. -/
lemma state_ne_open_of_isOk {now : ℕ} {b : M.Cb} (h : (M.canExecute now b).1.isOk = true) :
    M.state (M.canExecute now b).2 ≠ .Open := by
  have hb := (canExecute_isOk now b).mp h
  rw [M.canExecute_state]
  split_ifs with hc
  · simp
  · intro hopen
    exact hb ⟨hopen, not_not.mp fun ht => hc ⟨hopen, ht⟩⟩

/-- A caller that is admitted while the circuit is open makes it half-open. -/
lemma state_of_isOk_open {now : ℕ} {b : M.Cb} (h : (M.canExecute now b).1.isOk = true)
    (hopen : M.state b = .Open) : M.state (M.canExecute now b).2 = .HalfOpen := by
  rw [M.canExecute_state, if_pos]
  exact ⟨hopen, fun hrun => (canExecute_isOk now b).mp h ⟨hopen, hrun⟩⟩

/-- In the half-open state every admission check is admitted and changes nothing. -/
lemma canExecute_of_halfOpen (now : ℕ) {b : M.Cb} (h : M.state b = .HalfOpen) :
    (M.canExecute now b).1.isOk = true ∧ M.state (M.canExecute now b).2 = .HalfOpen := by
  refine ⟨(canExecute_isOk now b).mpr fun hb => ?_, ?_⟩
  · rw [hb.1] at h
    cases h
  · rw [M.canExecute_state, h]
    simp

/-- A step of a failure report that does not end it leaves the state. -/
lemma onFailureStep_state_of_isSome {now : ℕ} {p : Option M.FailPoint} {b : M.Cb}
    (h : (M.onFailureStep now p b).1 ≠ none) :
    M.state (M.onFailureStep now p b).2 = M.state b :=
  (M.onFailureStep_state now p b).resolve_right fun hn => h hn.1

end LawfulBreaker

/-! ### The two instances -/

namespace Rust

/-- The Rust breaker, with a failure report in its three atomic steps. -/
abbrev breakerModel : BreakerModel where
  Cb := CircuitBreaker
  FailPoint := CircuitBreaker.FailPoint
  state := CircuitBreaker.state
  lastFailure := CircuitBreaker.lastFailureTime
  resetTimeout cb := cb.resetTimeout
  openError := "Circuit breaker is OPEN"
  canExecute := CircuitBreaker.canExecute
  onSuccess := CircuitBreaker.onSuccess
  onFailureStep := CircuitBreaker.onFailureStep

/-- The Rust breaker has the laws of a breaker. -/
def breaker : LawfulBreaker where
  toBreakerModel := breakerModel
  canExecute_of_blocked now b hb := by
    obtain ⟨hopen, hrun⟩ := hb
    have hopen' : CircuitBreaker.state b = .Open := hopen
    simp only [CircuitBreaker.canExecute, hopen', CircuitBreaker.checkReset]
    cases hl : CircuitBreaker.lastFailureTime b with
    | none => rfl
    | some instant =>
      have hlt := hrun instant hl
      have hnot : ¬ CircuitBreaker.resetTimeout b ≤ now - instant := by
        simp only at hlt
        omega
      simp [hnot]
  canExecute_of_not_blocked now b hb := by
    cases hs : CircuitBreaker.state b with
    | Closed => simp [CircuitBreaker.canExecute, hs]
    | HalfOpen => simp [CircuitBreaker.canExecute, hs]
    | Open =>
      obtain ⟨instant, hl, hle⟩ : ∃ instant, CircuitBreaker.lastFailureTime b = some instant ∧
          CircuitBreaker.resetTimeout b ≤ now - instant := by
        by_contra hne
        refine hb ⟨hs, fun instant hl => ?_⟩
        have hnot : ¬ CircuitBreaker.resetTimeout b ≤ now - instant :=
          fun hle => hne ⟨instant, hl, hle⟩
        simp only
        omega
      simp [CircuitBreaker.canExecute, hs, CircuitBreaker.checkReset, hl, hle]
  canExecute_state now b := by
    obtain ⟨state, _, _, reset, last⟩ := b
    cases state <;> cases last <;>
      simp [breakerModel, CircuitBreaker.canExecute, CircuitBreaker.checkReset,
        BreakerModel.TimeoutRunning]
    split_ifs with h <;> rfl
  onSuccess_state _ := rfl
  onFailureStep_state now p b := by
    match p with
    | none => exact Or.inl rfl
    | some (.counted _) => exact Or.inl rfl
    | some .opening => exact Or.inr ⟨rfl, rfl⟩

end Rust

namespace Go

/-- The Go breaker: a failure report is one atomic step. -/
abbrev breakerModel : BreakerModel where
  Cb := CircuitBreaker
  FailPoint := Empty
  state := CircuitBreaker.state
  lastFailure cb := some cb.lastFailureTime
  resetTimeout cb := cb.resetTimeout.toInt
  openError := "circuit breaker is OPEN"
  canExecute := CircuitBreaker.canExecute
  onSuccess := CircuitBreaker.onSuccess
  onFailureStep now _ cb := (none, cb.onFailure now)

/-- The Go breaker has the laws of a breaker. -/
def breaker : LawfulBreaker where
  toBreakerModel := breakerModel
  canExecute_of_blocked now b hb := by
    obtain ⟨hopen, hrun⟩ := hb
    have hopen' : CircuitBreaker.state b = .Open := hopen
    have hlt := hrun _ rfl
    have hnot : ¬ (CircuitBreaker.resetTimeout b).toInt ≤
        timeSince now (CircuitBreaker.lastFailureTime b) := by
      rw [le_timeSince_iff]
      exact Int.not_le.mpr hlt
    simp [CircuitBreaker.canExecute, hopen', hnot]
  canExecute_of_not_blocked now b hb := by
    cases hs : CircuitBreaker.state b with
    | Closed => simp [CircuitBreaker.canExecute, hs]
    | HalfOpen => simp [CircuitBreaker.canExecute, hs]
    | Open =>
      have hle : (CircuitBreaker.resetTimeout b).toInt ≤
          timeSince now (CircuitBreaker.lastFailureTime b) := by
        rw [le_timeSince_iff]
        by_contra hnot
        refine hb ⟨hs, fun instant hl => ?_⟩
        obtain rfl := Option.some.inj hl
        exact Int.not_le.mp hnot
      simp [CircuitBreaker.canExecute, hs, hle]
  canExecute_state now b := by
    obtain ⟨state, _, _, reset, last⟩ := b
    cases state <;>
      simp [breakerModel, CircuitBreaker.canExecute, BreakerModel.TimeoutRunning,
        le_timeSince_iff]
    split_ifs with h <;> rfl
  onSuccess_state _ := rfl
  onFailureStep_state now p b := by
    by_cases h : b.failureThreshold ≤ b.consecutiveFailures + 1
    · exact Or.inr ⟨rfl, by simp [CircuitBreaker.onFailure, h]⟩
    · exact Or.inl (by simp [CircuitBreaker.onFailure, h])

end Go

/-- The two libraries. -/
inductive Lang where
  | rust
  | go
  deriving DecidableEq, Repr

/-- The breaker of a library. -/
def Lang.breaker : Lang → LawfulBreaker
  | .rust => Rust.breaker
  | .go => Go.breaker

end GoyStore
