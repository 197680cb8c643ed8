import GoyStore.Library.Runs
import GoyStore.Resilience.CircuitBreaker
import Mathlib.Logic.Function.Basic
import Mathlib.Tactic.SplitIfs

/-!
# Concurrent runs of a circuit breaker

Any number of tasks share one breaker.  A task makes an admission check, reports a success, or
reports a failure; the failure report goes in the atomic steps of `BreakerModel.onFailureStep`, and
between two of them the other tasks may do anything.  The clock moves in steps of its own.

Three questions about such runs are settled here: which changes of the state occur, what the
half-open state admits, and whether an open circuit always has its failures counted.  The last one
is about the Rust breaker, whose `on_failure` decides to open from a count that a concurrent
`on_success` may have reset in the meantime.
-/

namespace GoyStore

open Runs

/-- A breaker, the clock, and the tasks that use the breaker. -/
@[ext]
structure BreakerState (M : BreakerModel) (τ : Type*) where
  /-- The current time. -/
  clock : ℕ
  /-- The shared breaker. -/
  cb : M.Cb
  /-- Where the failure report of a task stands; `none` outside such a report. -/
  reporting : τ → Option M.FailPoint
  /-- Whether the last admission check of a task was admitted. -/
  admitted : τ → Bool

/-- The steps of the tasks and of the clock. -/
inductive BreakerLabel (τ : Type*) where
  /-- Time passes. -/
  | tick (d : ℕ)
  /-- The admission check of a task. -/
  | canExecute (t : τ)
  /-- A task reports a success. -/
  | onSuccess (t : τ)
  /-- The next atomic step of the failure report of a task. -/
  | onFailure (t : τ)
  deriving DecidableEq, Repr

namespace BreakerState

variable {M : BreakerModel} {τ : Type*}

/-- No task has used the breaker yet. -/
def init (clock : ℕ) (cb : M.Cb) : BreakerState M τ where
  clock := clock
  cb := cb
  reporting _ := none
  admitted _ := false

/-- No failure report is between two of its steps. -/
def Quiescent (s : BreakerState M τ) : Prop := ∀ t, s.reporting t = none

variable [DecidableEq τ]

/-- One step; a task in the middle of a failure report can only go on with it. -/
def step (s : BreakerState M τ) : BreakerLabel τ → Option (BreakerState M τ)
  | .tick d => some { s with clock := s.clock + d }
  | .canExecute t =>
    match s.reporting t with
    | none =>
      let r := M.canExecute s.clock s.cb
      some { s with cb := r.2, admitted := Function.update s.admitted t r.1.isOk }
    | some _ => none
  | .onSuccess t =>
    match s.reporting t with
    | none => some { s with cb := M.onSuccess s.cb }
    | some _ => none
  | .onFailure t =>
    let r := M.onFailureStep s.clock (s.reporting t) s.cb
    some { s with cb := r.2, reporting := Function.update s.reporting t r.1 }

/-- An admission check of a task outside a failure report. -/
lemma step_canExecute {s : BreakerState M τ} {t : τ} (h : s.reporting t = none) :
    s.step (.canExecute t) = some { s with
      cb := (M.canExecute s.clock s.cb).2
      admitted := Function.update s.admitted t (M.canExecute s.clock s.cb).1.isOk } := by
  rw [step, h]

/-- A success of a task outside a failure report. -/
lemma step_onSuccess {s : BreakerState M τ} {t : τ} (h : s.reporting t = none) :
    s.step (.onSuccess t) = some { s with cb := M.onSuccess s.cb } := by
  rw [step, h]

/-- A step of a failure report. -/
lemma step_onFailure {s : BreakerState M τ} {t : τ} {p : Option M.FailPoint}
    (h : s.reporting t = p) :
    s.step (.onFailure t) = some { s with
      cb := (M.onFailureStep s.clock p s.cb).2
      reporting := Function.update s.reporting t (M.onFailureStep s.clock p s.cb).1 } := by
  rw [step, h]

/-- What a step can do: one case for each label, with what it needs and what it changes. -/
lemma step_cases {s s' : BreakerState M τ} {l : BreakerLabel τ} (h : step s l = some s') :
    (∃ d, l = .tick d ∧ s' = { s with clock := s.clock + d }) ∨
    (∃ t, l = .canExecute t ∧ s.reporting t = none ∧
      s' = { s with
        cb := (M.canExecute s.clock s.cb).2
        admitted := Function.update s.admitted t (M.canExecute s.clock s.cb).1.isOk }) ∨
    (∃ t, l = .onSuccess t ∧ s.reporting t = none ∧ s' = { s with cb := M.onSuccess s.cb }) ∨
    (∃ t, l = .onFailure t ∧
      s' = { s with
        cb := (M.onFailureStep s.clock (s.reporting t) s.cb).2
        reporting := Function.update s.reporting t
          (M.onFailureStep s.clock (s.reporting t) s.cb).1 }) := by
  cases l with
  | tick d => exact Or.inl ⟨d, rfl, (Option.some.inj h).symm⟩
  | canExecute t =>
    simp only [step] at h
    split at h
    · exact Or.inr (Or.inl ⟨t, rfl, ‹_›, (Option.some.inj h).symm⟩)
    · cases h
  | onSuccess t =>
    simp only [step] at h
    split at h
    · exact Or.inr (Or.inr (Or.inl ⟨t, rfl, ‹_›, (Option.some.inj h).symm⟩))
    · cases h
  | onFailure t => exact Or.inr (Or.inr (Or.inr ⟨t, rfl, (Option.some.inj h).symm⟩))

/-- An admission check is made outside a failure report and changes the breaker and the record of
the admission. -/
lemma eq_of_step_canExecute {s s' : BreakerState M τ} {t : τ}
    (h : s.step (.canExecute t) = some s') :
    s' = { s with
      cb := (M.canExecute s.clock s.cb).2
      admitted := Function.update s.admitted t (M.canExecute s.clock s.cb).1.isOk } := by
  simp only [step] at h
  split at h
  · exact (Option.some.inj h).symm
  · cases h

end BreakerState

/-! ### The changes of the state -/

section StateChanges

variable {τ : Type*} [DecidableEq τ]

/-- The cycle of the breaker: closed, open, half-open, and from there closed or open again. -/
def CycleChange : CircuitState → CircuitState → Prop
  | .Closed, .Open => True
  | .Open, .HalfOpen => True
  | .HalfOpen, .Closed => True
  | .HalfOpen, .Open => True
  | _, _ => False

instance : DecidableRel CycleChange := fun a b => by
  cases a <;> cases b <;> unfold CycleChange <;> infer_instance

/-- The reports of a run come from tasks whose last admission check was admitted. -/
def FromAdmitted {M : BreakerModel} (s : BreakerState M τ) : BreakerLabel τ → Prop
  | .onSuccess t => s.admitted t = true
  | .onFailure t => s.admitted t = true
  | _ => True

/-- Every change of the state along the runs of a breaker in which only admitted tasks report is
one of the cycle. -/
def OnlyCycleChanges (M : LawfulBreaker) (τ : Type*) [DecidableEq τ] (cb : M.Cb) : Prop :=
  ∀ (clock : ℕ) (ls : List (BreakerLabel τ)) (l : BreakerLabel τ)
    (s s' : BreakerState M.toBreakerModel τ),
    StepsMeet BreakerState.step FromAdmitted (.init clock cb) (ls ++ [l]) →
    runFrom BreakerState.step (.init clock cb) ls = some s → s.step l = some s' →
    M.state s.cb ≠ M.state s'.cb → CycleChange (M.state s.cb) (M.state s'.cb)

/-- One step of a run changes the state along the cycle, or it is the report of a success that
arrives while the circuit is open and closes it. -/
lemma step_state_change {M : LawfulBreaker} {s s' : BreakerState M.toBreakerModel τ}
    {l : BreakerLabel τ} (h : s.step l = some s') (hne : M.state s.cb ≠ M.state s'.cb) :
    CycleChange (M.state s.cb) (M.state s'.cb) ∨
      ((∃ t, l = .onSuccess t) ∧ M.state s.cb = .Open ∧ M.state s'.cb = .Closed) := by
  obtain ⟨d, rfl, rfl⟩ | ⟨t, rfl, -, rfl⟩ | ⟨t, rfl, -, rfl⟩ | ⟨t, rfl, rfl⟩ :=
    BreakerState.step_cases h
  · exact absurd rfl hne
  · -- only an admission out of `Open` moves the state, to `HalfOpen`
    rw [M.canExecute_state] at hne ⊢
    split_ifs at hne ⊢ with hc
    · exact Or.inl (by rw [hc.1]; trivial)
    · exact absurd rfl hne
  · have hclosed : M.state (M.onSuccess s.cb) = .Closed := M.onSuccess_state s.cb
    cases hs : M.state s.cb with
    | Closed => exact absurd (hs.trans hclosed.symm) hne
    | Open => exact Or.inr ⟨⟨t, rfl⟩, rfl, hclosed⟩
    | HalfOpen => exact Or.inl (by simp only [hclosed]; trivial)
  · rcases M.onFailureStep_state s.clock (s.reporting t) s.cb with hsame | ⟨-, hopen⟩
    · exact absurd hsame.symm hne
    · cases hs : M.state s.cb with
      | Closed => exact Or.inl (by simp only [hopen]; trivial)
      | Open => exact absurd (hs.trans hopen.symm) hne
      | HalfOpen => exact Or.inl (by simp only [hopen]; trivial)

/-- In every run of either breaker, every change of the state is one of the cycle, or it is made
by a success that is reported while the circuit is open and takes it from open to closed. -/
theorem state_changes_along_cycle_or_late_success (L : Lang) (clock : ℕ) (cb : L.breaker.Cb)
    (ls : List (BreakerLabel τ)) :
    StepsMeet BreakerState.step
      (fun (s : BreakerState L.breaker.toBreakerModel τ) l => ∀ s', s.step l = some s' →
        L.breaker.state s.cb ≠ L.breaker.state s'.cb →
          CycleChange (L.breaker.state s.cb) (L.breaker.state s'.cb) ∨
          ((∃ t, l = .onSuccess t) ∧
            L.breaker.state s.cb = .Open ∧ L.breaker.state s'.cb = .Closed))
      (.init clock cb) ls :=
  fun _ _ _ _ _ _ _ _ h hne => step_state_change h hne

/-- A run in which a late success closes the open circuit of the Rust breaker: the tasks 0 and 1
are admitted, the failure of task 1 opens the circuit, then task 0 reports its success. -/
def lateSuccessRust : List (BreakerLabel ℕ) :=
  [.canExecute 0, .canExecute 1, .onFailure 1, .onFailure 1, .onFailure 1]

/-- The same run of the Go breaker, where a failure report is one step. -/
def lateSuccessGo : List (BreakerLabel ℕ) :=
  [.canExecute 0, .canExecute 1, .onFailure 1]

/-- The changes of the state are not confined to the cycle, in either breaker. -/
theorem late_success_closes_open_circuit :
    ¬ OnlyCycleChanges Rust.breaker ℕ (Rust.CircuitBreaker.new 1 1) ∧
      ¬ OnlyCycleChanges Go.breaker ℕ (Go.CircuitBreaker.new 1 1) := by
  constructor
  · intro h
    refine absurd (h 0 lateSuccessRust (.onSuccess 0) _ _ ?_ rfl rfl (by decide)) (by decide)
    exact .cons rfl trivial <| .cons rfl trivial <| .cons rfl rfl <| .cons rfl rfl <|
      .cons rfl rfl <| .cons rfl rfl <| .nil _
  · intro h
    refine absurd (h 0 lateSuccessGo (.onSuccess 0) _ _ ?_ rfl rfl (by decide)) (by decide)
    exact .cons rfl trivial <| .cons rfl trivial <| .cons rfl rfl <| .cons rfl rfl <| .nil _

end StateChanges

/-! ### The half-open state -/

section HalfOpen

variable {τ : Type*} [DecidableEq τ]

/-- The step ends a report: it is the report of a success or the last step of the report of a
failure. -/
def EndsReport {M : BreakerModel} (s : BreakerState M τ) : BreakerLabel τ → Prop
  | .onSuccess _ => True
  | .onFailure t => (M.onFailureStep s.clock (s.reporting t) s.cb).1 = none
  | _ => False

/-- After the admission check that makes the breaker half-open, every further check is refused
until a report has ended. -/
def SingleProbe (M : LawfulBreaker) (τ : Type*) [DecidableEq τ] (cb : M.Cb) : Prop :=
  ∀ (clock : ℕ) (pre mid : List (BreakerLabel τ)) (t : τ)
    (s₁ s₂ s₃ : BreakerState M.toBreakerModel τ),
    runFrom BreakerState.step (.init clock cb) pre = some s₁ → M.state s₁.cb = .Open →
    s₁.step (.canExecute t) = some s₂ → M.state s₂.cb = .HalfOpen →
    StepsMeet BreakerState.step (fun s l => ¬ EndsReport s l) s₂ mid →
    runFrom BreakerState.step s₂ mid = some s₃ →
      (M.canExecute s₃.clock s₃.cb).1.isOk = false

/-- A step that does not end a report leaves a half-open breaker half-open. -/
lemma halfOpen_of_step {M : LawfulBreaker} {s s' : BreakerState M.toBreakerModel τ}
    {l : BreakerLabel τ} (hs : M.state s.cb = .HalfOpen) (hl : ¬ EndsReport s l)
    (h : s.step l = some s') : M.state s'.cb = .HalfOpen := by
  obtain ⟨d, rfl, rfl⟩ | ⟨t, rfl, -, rfl⟩ | ⟨t, rfl, -, rfl⟩ | ⟨t, rfl, rfl⟩ :=
    BreakerState.step_cases h
  · exact hs
  · exact (LawfulBreaker.canExecute_of_halfOpen s.clock hs).2
  · exact absurd trivial hl
  · exact (LawfulBreaker.onFailureStep_state_of_isSome hl).trans hs

/-- In either breaker, from the admission check that makes it half-open until a report has ended,
every further admission check, by any caller at any time, is admitted, and the breaker stays
half-open. -/
theorem halfOpen_admits_every_check (L : Lang)
    {s₁ s₂ : BreakerState L.breaker.toBreakerModel τ} {t : τ} {mid : List (BreakerLabel τ)}
    (hopen : L.breaker.state s₁.cb = .Open) (hcheck : s₁.step (.canExecute t) = some s₂)
    (hadmitted : s₂.admitted t = true)
    (hmid : StepsMeet BreakerState.step (fun s l => ¬ EndsReport s l) s₂ mid) :
    Always BreakerState.step
      (fun s => L.breaker.state s.cb = .HalfOpen ∧
        ∀ now, (L.breaker.canExecute now s.cb).1.isOk = true ∧
          L.breaker.state (L.breaker.canExecute now s.cb).2 = .HalfOpen) s₂ mid := by
  have hs₂ := BreakerState.eq_of_step_canExecute hcheck
  have hok : (L.breaker.canExecute s₁.clock s₁.cb).1.isOk = true := by
    simpa [hs₂] using hadmitted
  have hhalf : L.breaker.state s₂.cb = .HalfOpen := by
    rw [hs₂]
    exact LawfulBreaker.state_of_isOk_open hok hopen
  exact always_of_stepsMeet (fun _ _ _ hs hl h => halfOpen_of_step hs hl h)
    (fun _ hs => ⟨hs, fun now => LawfulBreaker.canExecute_of_halfOpen now hs⟩) hhalf hmid

/-- A Rust breaker with threshold 1 after one failure and the end of its reset timeout. -/
def expiredRust : List (BreakerLabel ℕ) := [.onFailure 0, .onFailure 0, .onFailure 0, .tick 1]

/-- A Go breaker with threshold 1 after one failure and the end of its reset timeout. -/
def expiredGo : List (BreakerLabel ℕ) := [.onFailure 0, .tick 1]

/-- A second caller is admitted beside an unfinished probe, in either breaker. -/
theorem second_probe_admitted :
    ¬ SingleProbe Rust.breaker ℕ (Rust.CircuitBreaker.new 1 1) ∧
      ¬ SingleProbe Go.breaker ℕ (Go.CircuitBreaker.new 1 1) := by
  constructor
  · intro h
    exact absurd (h 0 expiredRust [] 1 _ _ _ rfl (by decide) rfl (by decide) (.nil _) rfl)
      (by decide)
  · intro h
    exact absurd (h 0 expiredGo [] 1 _ _ _ rfl (by decide) rfl (by decide) (.nil _) rfl)
      (by decide)

/-- The window of `halfOpen_admits_every_check` after one failure of the Rust breaker: task 1 is
the probe, and task 2 is admitted beside it. -/
theorem halfOpen_admits_second_check :
    ∃ s₁ s₂ : BreakerState Rust.breaker.toBreakerModel ℕ,
      runFrom BreakerState.step (.init 0 (Rust.CircuitBreaker.new 1 1)) expiredRust = some s₁ ∧
      s₁.step (.canExecute 1) = some s₂ ∧
      Always BreakerState.step
        (fun s => Rust.breaker.state s.cb = .HalfOpen ∧
          ∀ now, (Rust.breaker.canExecute now s.cb).1.isOk = true ∧
            Rust.breaker.state (Rust.breaker.canExecute now s.cb).2 = .HalfOpen)
        s₂ [.canExecute 2] :=
  ⟨_, _, rfl, rfl, @halfOpen_admits_every_check ℕ _ .rust
    ((runFrom BreakerState.step (.init 0 (Rust.CircuitBreaker.new 1 1)) expiredRust).get rfl)
    _ 1 _ (by decide) rfl (by decide) (.cons rfl not_false (.nil _))⟩

end HalfOpen

end GoyStore
