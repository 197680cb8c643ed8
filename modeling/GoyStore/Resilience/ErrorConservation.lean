import GoyStore.Resilience.FailedAttempts
import GoyStore.Resilience.GoErrorAccounting

/-!
# The metrics of the two layers

The instrumented stores count errors, and the executors above them count retries.  In every state of
every run of concurrent calls the two counters fit: for every operation of a contract the errors
that were counted are the retries, the failures that are being reported or published and the calls
that failed, but for sleeps that a caller cancelled (Go) and attempts that timed out, which the
instrumented stores of the Rust library do not count (`errors_conserved`).

Both layers write their own part of the metrics.  The stack is projected to its executors
(`exec_run`), where `Setup.failures_conserved` accounts for the failed attempts.
-/

namespace GoyStore

open Runs

/-! ### The Rust stack -/

namespace Rust

/-- `errors_total` of an operation of a contract. -/
def StoreMetrics.errors (m : StoreMetrics) (c : Contract) (op backend : String) : ℕ :=
  m.errorsTotal.count (c.label, op, backend, "error")

/-- Every operation that ends with an error is one error. -/
lemma errors_instrumented {α : Type*} (c d : Contract) (op op' backend backend' : String)
    (res : Except String α) (m : StoreMetrics) :
    ((instrumented c op backend).finish res m).2.errors d op' backend' =
      m.errors d op' backend' +
        if (c = d ∧ op = op' ∧ backend = backend') ∧ res.isOk = false then 1 else 0 := by
  have hobserve : (m.observe c op backend).errorsTotal = m.errorsTotal := by cases c <;> rfl
  rcases res with err | a
  · simp [instrumented, StoreMetrics.errors, StoreMetrics.incErrors, hobserve, List.count_append,
      List.count_singleton, Contract.label_injective.eq_iff, Except.isOk, Except.toBool]
  · simp [instrumented, StoreMetrics.errors, hobserve, Except.isOk, Except.toBool]

namespace DirectMethod

/-- The label of the operation. -/
def opName : DirectMethod → String
  | .subscribe => "subscribe"
  | .unsubscribe => "unsubscribe"

/-- The instrumented store uses this label. -/
lemma inner_eq {α : Type*} (method : DirectMethod) :
    method.inner (α := α) = instrumented .pubsub method.opName := by
  cases method <;> rfl

end DirectMethod

namespace StackLabel

variable {κ : Type*}

/-- The call whose attempt ends with an error of the backend. -/
def erring : StackLabel κ → Option κ
  | .exec (.fail k _) => some k
  | _ => none

/-- The call whose attempt times out. -/
def timingOut : StackLabel κ → Option κ
  | .timeout k => some k
  | _ => none

/-- An operation without an executor that returns an error. -/
def directFailing : StackLabel κ → Option DirectMethod
  | .direct d (.error _) => some d
  | _ => none

/-- The errors of an operation without an executor. -/
def directErrors (ls : List (StackLabel κ)) (c : Contract) (op : String) : ℕ :=
  (ls.filterMap directFailing).countP fun d => Contract.pubsub = c ∧ d.opName = op

end StackLabel

namespace Stack

variable {κ S α : Type*} (T : Stack κ S α)

/-- The call is a call of this operation. -/
def IsCallOf (c : Contract) (op : String) (k : κ) : Prop :=
  (T.method k).contract = c ∧ (T.method k).opName = op

instance (c : Contract) (op : String) : DecidablePred (T.IsCallOf c op) :=
  fun _ => inferInstanceAs (Decidable (_ ∧ _))

/-- The attempts of an operation that end in a run with an error of the backend. -/
def attemptsErred (ls : List (StackLabel κ)) (c : Contract) (op : String) : ℕ :=
  (ls.filterMap StackLabel.erring).countP fun k => T.IsCallOf c op k

/-- The attempts of an operation that time out in a run. -/
def attemptsTimedOut (ls : List (StackLabel κ)) (c : Contract) (op : String) : ℕ :=
  (ls.filterMap StackLabel.timingOut).countP fun k => T.IsCallOf c op k

variable {T}

/-- A call is labelled with its operation, its contract and the backend of that. -/
lemma labelled_iff (c : Contract) (op : String) (k : κ) :
    T.setup.Labelled c.label op (T.backend c) k ↔ T.IsCallOf c op k := by
  constructor
  · rintro ⟨-, hcontract, hop, -⟩
    exact ⟨(Contract.label_injective hcontract).symm, hop.symm⟩
  · rintro ⟨rfl, rfl⟩
    exact ⟨rfl, rfl, rfl, rfl⟩

/-- A failed attempt ends with an error of the backend or times out. -/
lemma countP_failing (ls : List (StackLabel κ)) (c : Contract) (op : String) :
    (((ls.filterMap StackLabel.execLabel).filterMap ExecLabel.failing).countP fun k =>
      T.setup.Labelled c.label op (T.backend c) k) =
        T.attemptsErred ls c op + T.attemptsTimedOut ls c op := by
  simp only [labelled_iff]
  rw [attemptsErred, attemptsTimedOut, List.filterMap_filterMap, List.countP_filterMap,
    List.countP_filterMap, List.countP_filterMap]
  refine countP_eq_add (fun l => ?_) ls
  rcases l with l | k | ⟨d, res⟩
  · cases l <;> simp [StackLabel.execLabel, StackLabel.erring, StackLabel.timingOut,
      ExecLabel.failing]
  · simp [StackLabel.execLabel, StackLabel.erring, StackLabel.timingOut, ExecLabel.failing]
  · simp [StackLabel.execLabel, StackLabel.erring, StackLabel.timingOut]

variable [DecidableEq κ] {s s' : StackState κ S α} {l : StackLabel κ} {ls : List (StackLabel κ)}

omit [DecidableEq κ] in
/-- What an operation of an instrumented store of the stack adds to `errors_total`. -/
lemma errors_finish {β : Type*} (c d : Contract) (op op' : String) (res : Except String β)
    (m : StoreMetrics) :
    ((instrumented c op (T.backend c)).finish res m).2.errors d op' (T.backend d) =
      m.errors d op' (T.backend d) +
        if (c = d ∧ op = op') ∧ res.isOk = false then 1 else 0 := by
  rw [errors_instrumented]
  simp only [Contract.labels_iff T.backend]

/-- What a step adds to `errors_total`. -/
lemma errors_step (h : T.step s l = some s') (c : Contract) (op : String) :
    s'.metrics.errors c op (T.backend c) = s.metrics.errors c op (T.backend c) +
      (T.attemptsErred [l] c op + StackLabel.directErrors [l] c op) := by
  rcases l with l | k | ⟨d, res⟩
  · obtain ⟨e, he, rfl⟩ := Option.map_eq_some_iff.mp h
    cases l with
    | succeed k =>
      cases Setup.moves_of_step he with
      | succeed _ a result hc =>
        simp only [write, hc, Setup.currentEffect, attempt, ResilientMethod.inner_eq]
        rw [errors_finish]
        simp [attemptsErred, StackLabel.directErrors, StackLabel.erring,
          StackLabel.directFailing, Except.isOk, Except.toBool]
    | fail k err =>
      have hdirect : StackLabel.directErrors [StackLabel.exec (.fail k err)] c op = 0 := rfl
      have herred : T.attemptsErred [StackLabel.exec (.fail k err)] c op =
          if T.IsCallOf c op k then 1 else 0 := by
        simp [attemptsErred, StackLabel.erring, List.countP_cons]
      simp only [write, attempt, ResilientMethod.inner_eq]
      rw [errors_finish, hdirect, herred]
      simp only [Except.isOk, Except.toBool, and_true]
      rfl
    | invoke k =>
      simp only [write, attempt, ResilientMethod.inner_eq]
      rfl
    | _ => rfl
  · obtain ⟨e, he, rfl⟩ := Option.map_eq_some_iff.mp h
    rfl
  · obtain rfl := Option.some.inj h
    simp only [DirectMethod.inner_eq, AsyncFn.run]
    rw [errors_finish]
    rcases res with err | ⟨⟩
    · simp [attemptsErred, StackLabel.directErrors, StackLabel.erring, StackLabel.directFailing,
        instrumented, List.countP_cons, Except.isOk, Except.toBool]
    · simp [attemptsErred, StackLabel.directErrors, StackLabel.erring, StackLabel.directFailing,
        instrumented, Except.isOk, Except.toBool]

/-- What `errors_total` holds after a run. -/
lemma errors_of_run {clock : ℕ} {store : S} {m : StoreMetrics}
    (h : runFrom T.step (T.init clock store m) ls = some s) (c : Contract) (op : String) :
    s.metrics.errors c op (T.backend c) = m.errors c op (T.backend c) +
      (T.attemptsErred ls c op + StackLabel.directErrors ls c op) := by
  induction ls using List.reverseRecOn generalizing s with
  | nil => exact Option.some.inj h ▸ rfl
  | append_singleton ls l ih =>
    obtain ⟨t, ht, hl⟩ := exists_of_runFrom_concat h
    have hstep := errors_step hl c op
    have hbefore := ih ht
    simp only [attemptsErred, StackLabel.directErrors, List.filterMap_append,
      List.countP_append] at hstep hbefore ⊢
    omega

/-- The errors that are counted for an operation and its attempts that timed out, against the
retries that are counted for it, its failures that are being settled and its calls that failed; `C`
are any calls among which are those that have started. -/
def ErrorsConserved (T : Stack κ S α) (m : StoreMetrics) (ls : List (StackLabel κ))
    (s : StackState κ S α) : Prop :=
  ∀ C : Finset κ, (∀ k ∉ C, s.exec.phase k = .notStarted) → ∀ (c : Contract) (op : String),
    s.metrics.errors c op (T.backend c) + T.attemptsTimedOut ls c op =
      m.errors c op (T.backend c) + StackLabel.directErrors ls c op +
        s.exec.metrics.retriesTotal c.label op (T.backend c) +
        T.setup.settlingCalls s.exec C c.label op (T.backend c) +
        T.setup.failedCalls s.exec C c.label op (T.backend c)

end Stack

end Rust

/-! ### The Go stack -/

namespace Go

open Rust (Contract)

/-- The errors of an operation without an executor. -/
def StackLabel.directErrors {κ : Type*} (ls : List (StackLabel κ)) (c : Contract) (op : String) :
    ℕ :=
  (ls.filterMap directFailing).countP fun d => Contract.pubsub = c ∧ d.opName = op

namespace Stack

variable {κ S α : Type*} (T : Stack κ S α)

/-- The errors that are counted for an operation and its sleeps that were cancelled, against the
retries that are counted for it, its failures that are being settled and its calls that failed; `C`
are any calls among which are those that have started. -/
def ErrorsConserved [DecidableEq κ] (T : Stack κ S α) (m : StoreMetrics)
    (ls : List (StackLabel κ)) (s : StackState κ S α) : Prop :=
  ∀ C : Finset κ, (∀ k ∉ C, s.exec.phase k = .notStarted) → ∀ (c : Contract) (op : String),
    s.metrics.errors c op (T.backend c) +
        T.setup.cancelledSleeps (ls.filterMap StackLabel.execLabel) C c.label op (T.backend c) =
      m.errors c op (T.backend c) + StackLabel.directErrors ls c op +
        s.exec.metrics.retriesTotal c.label op (T.backend c) +
        T.setup.settlingCalls s.exec C c.label op (T.backend c) +
        T.setup.failedCalls s.exec C c.label op (T.backend c)

variable {T}

/-- A call is labelled with its operation, its contract and the backend of that. -/
lemma labelled_iff (c : Contract) (op : String) (k : κ) :
    T.setup.Labelled c.label op (T.backend c) k ↔ T.IsCallOf c op k := by
  constructor
  · rintro ⟨-, hcontract, hop, -⟩
    exact ⟨(Contract.label_injective hcontract).symm, hop.symm⟩
  · rintro ⟨rfl, rfl⟩
    exact ⟨rfl, rfl, rfl, rfl⟩

/-- The failed attempts of an operation are those of its calls and its errors without an
executor. -/
lemma attemptsFailed_eq (ls : List (StackLabel κ)) (c : Contract) (op : String) :
    T.attemptsFailed ls c op =
      (((ls.filterMap StackLabel.execLabel).filterMap ExecLabel.failing).countP fun k =>
        T.setup.Labelled c.label op (T.backend c) k) + StackLabel.directErrors ls c op := by
  simp only [labelled_iff]
  rfl

end Stack

/-- The number of retries of a new executor, when `maxRetries+1` does not wrap around. -/
lemma ResilientExecutor.maxRetries_new {cfg : ResilienceConfig}
    (hmax : cfg.maxRetries.toInt < 9223372036854775806) (contract backend : String) :
    ∃ N : ℕ, (new cfg true contract backend).cfg.maxRetries.toInt = N ∧
      N < 9223372036854775806 := by
  change ∃ N : ℕ, (positiveOr 3 cfg.maxRetries).toInt = N ∧ N < 9223372036854775806
  by_cases hle : cfg.maxRetries ≤ 0
  · rw [positiveOr, if_pos hle]
    exact ⟨3, by decide, by decide⟩
  · have hzero : (0 : Int64).toInt = 0 := by decide
    rw [Int64.le_iff_toInt_le, hzero] at hle
    rw [positiveOr, if_neg (by rwa [Int64.le_iff_toInt_le, hzero])]
    obtain ⟨N, hN⟩ := Int.eq_ofNat_of_zero_le (Int.le_of_lt (Int.not_le.mp hle))
    exact ⟨N, hN, by omega⟩

end Go

/-! ### Both libraries -/

/-- In every state of every run of concurrent calls through the stores of either library, for every
operation of a contract the errors that were counted are the retries that were counted, the failures
that are being reported or published and the admitted calls that returned an error.  In the Rust
library the attempts that timed out are not among the errors; in the Go library a sleep that is
cancelled was counted as a retry.  The counters of the attempts do not wrap around. -/
theorem errors_conserved {κ S α : Type*} [DecidableEq κ] (clock : ℕ) (store : S) :
    (∀ (T : Rust.Stack κ S α) (m : Rust.StoreMetrics) (ls : List (Rust.StackLabel κ))
      (s : Rust.StackState κ S α), T.config.maxRetries.toNat ≤ 64 →
      runFrom T.step (T.init clock store m) ls = some s → T.ErrorsConserved m ls s) ∧
    (∀ (T : Go.Stack κ S α) (m : Go.StoreMetrics) (ls : List (Go.StackLabel κ))
      (s : Go.StackState κ S α), T.config.maxRetries.toInt < 9223372036854775806 →
      runFrom T.step (T.init clock store m) ls = some s → T.ErrorsConserved m ls s) := by
  refine ⟨fun T m ls s hmax hrun C hC c op => ?_, fun T m ls s hmax hrun C hC c op => ?_⟩
  · have hlt : T.config.maxRetries.toNat < 4294967295 := hmax.trans_lt (by decide)
    have hfailures := Setup.failures_conserved (P := T.setup)
      (fun i => Rust.rounds (T.setup.executor i) hlt) (Rust.Stack.exec_run hrun) hC c.label op
      (T.backend c)
    have herrors := Rust.Stack.errors_of_run hrun c op
    have hcancelled : T.setup.cancelledSleeps (ls.filterMap Rust.StackLabel.execLabel) C c.label op
        (T.backend c) = 0 := Finset.sum_eq_zero fun k _ =>
      Setup.cancellations_run rfl (Rust.Stack.exec_run hrun) k
    rw [Rust.Stack.countP_failing] at hfailures
    omega
  · have hN := fun i : Rust.Contract =>
      Go.ResilientExecutor.maxRetries_new hmax i.label (T.backend i)
    choose N hmaxRetries hlt using hN
    have hfailures := Setup.failures_conserved (P := T.setup)
      (fun i => Go.rounds (T.setup.executor i) (hmaxRetries i) (hlt i)) (Go.Stack.exec_run hrun) hC
      c.label op (T.backend c)
    obtain ⟨-, herrors⟩ := Go.Stack.metrics_of_run hrun c op
    rw [Go.Stack.attemptsFailed_eq] at herrors
    omega

/-- Calls of `get` on a Redis store, with one retry. -/
def Rust.Stack.patientStack : Rust.Stack ℕ Unit Unit :=
  { Rust.Stack.getStack with config := ⟨1, 100, 5, 30, 5⟩ }

/-- A call whose first attempt times out, and whose second is refused. -/
def Rust.Stack.timedOutGet : List (Rust.StackLabel ℕ) :=
  [.exec (.start 0), .exec (.invoke 0), .timeout 0, .exec (.report 0), .exec (.report 0),
    .exec (.publish 0), .exec (.publish 0), .exec (.wake 0), .exec (.invoke 0),
    .exec (.fail 0 "refused"), .exec (.report 0), .exec (.report 0), .exec (.publish 0),
    .exec (.publish 0)]

/-- In the runs in which a call has failed and slept, the errors are conserved. -/
theorem errors_conserved_retried :
    (∃ s, runFrom Rust.Stack.patientStack.step (Rust.Stack.patientStack.init 0 () .empty)
      Rust.Stack.timedOutGet = some s ∧
        Rust.Stack.patientStack.ErrorsConserved .empty Rust.Stack.timedOutGet s) ∧
    ∃ s, runFrom Go.Stack.getStack.step (Go.Stack.getStack.init 0 () .empty)
      Go.Stack.retriedGet = some s ∧
        Go.Stack.getStack.ErrorsConserved .empty Go.Stack.retriedGet s :=
  ⟨⟨_, rfl, (errors_conserved 0 ()).1 _ _ _ _ (by decide) rfl⟩,
    ⟨_, rfl, (errors_conserved 0 ()).2 _ _ _ _ (by decide) rfl⟩⟩

end GoyStore
