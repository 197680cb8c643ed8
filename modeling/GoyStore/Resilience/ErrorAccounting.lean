import GoyStore.Resilience.AttemptEffects
import GoyStore.Resilience.CallSteps
import Mathlib.Data.List.Perm.Basic

/-!
# What the instrumented stores count

`from_config_with_metrics` puts each contract into two layers: a resilient store over an
instrumented store over the backend.  The instrumented store counts an operation after it has
awaited the backend, inside the future that the resilient store runs under a timeout.  When the
timeout elapses the future is dropped where it waits, so it counts neither the attempt nor its
error.

The runs are those of `GoyStore.Resilience.ExecutorRuns` with the metrics beside them.
`metrics_of_run` says what the metrics hold after a run, and `accounts_iff_no_timeout` that they
account for every attempt exactly when none timed out.
-/

namespace GoyStore

open Runs

/-- An `async fn` that awaits once: what it does to a state until it waits, and what it does with
the awaited value and returns.  Dropping its future where it waits leaves out the second part. -/
structure AsyncFn (M ρ α : Type*) where
  /-- What it does until it waits. -/
  start : M → M
  /-- What it does with the awaited value. -/
  finish : ρ → M → α × M

/-- The future is awaited to its end. -/
def AsyncFn.run {M ρ α : Type*} (f : AsyncFn M ρ α) (r : ρ) (m : M) : α × M :=
  f.finish r (f.start m)

namespace Rust

/-! ### The metrics -/

/-- The contracts. -/
inductive Contract where
  | kv
  | relational
  | sortedSet
  | blob
  | pubsub
  deriving DecidableEq, Repr

/-- The label `contract`. -/
def Contract.label : Contract → String
  | .kv => "kv"
  | .relational => "relational"
  | .sortedSet => "sorted_set"
  | .blob => "blob"
  | .pubsub => "pubsub"

/-- Different contracts have different labels. -/
lemma Contract.label_injective : Function.Injective Contract.label := by
  intro c d h
  cases c <;> cases d <;> first | rfl | exact absurd h (by decide)

/-- The metrics of `StoreMetrics` that the instrumented stores write: of each histogram the labels
of its samples, and of `errors_total` the labels of its increments. -/
structure StoreMetrics where
  /-- The field `kv_operation_duration_seconds`. -/
  kvOperationDurationSeconds : List (String × String)
  /-- The field `relational_query_duration_seconds`. -/
  relationalQueryDurationSeconds : List (String × String)
  /-- The field `sorted_set_operation_duration_seconds`. -/
  sortedSetOperationDurationSeconds : List (String × String)
  /-- The field `blob_operation_duration_seconds`. -/
  blobOperationDurationSeconds : List (String × String)
  /-- The field `pubsub_operation_duration_seconds`. -/
  pubsubOperationDurationSeconds : List (String × String)
  /-- The field `errors_total`. -/
  errorsTotal : List (String × String × String × String)
  deriving DecidableEq, Repr

namespace StoreMetrics

/-- Nothing is counted yet. -/
def empty : StoreMetrics := ⟨[], [], [], [], [], []⟩

/-- The duration histogram of a contract. -/
def histogram (m : StoreMetrics) : Contract → List (String × String)
  | .kv => m.kvOperationDurationSeconds
  | .relational => m.relationalQueryDurationSeconds
  | .sortedSet => m.sortedSetOperationDurationSeconds
  | .blob => m.blobOperationDurationSeconds
  | .pubsub => m.pubsubOperationDurationSeconds

/-- `with_label_values(&[op, backend]).observe(duration)` on the histogram of a contract. -/
def observe (c : Contract) (op backend : String) (m : StoreMetrics) : StoreMetrics :=
  let sample := (op, backend)
  match c with
  | .kv =>
    { m with kvOperationDurationSeconds := m.kvOperationDurationSeconds ++ [sample] }
  | .relational =>
    { m with relationalQueryDurationSeconds := m.relationalQueryDurationSeconds ++ [sample] }
  | .sortedSet =>
    { m with sortedSetOperationDurationSeconds := m.sortedSetOperationDurationSeconds ++ [sample] }
  | .blob =>
    { m with blobOperationDurationSeconds := m.blobOperationDurationSeconds ++ [sample] }
  | .pubsub =>
    { m with pubsubOperationDurationSeconds := m.pubsubOperationDurationSeconds ++ [sample] }

/-- `errors_total.with_label_values(&[contract, op, backend, "error"]).inc()`. -/
def incErrors (c : Contract) (op backend : String) (m : StoreMetrics) : StoreMetrics :=
  { m with errorsTotal := m.errorsTotal ++ [(c.label, op, backend, "error")] }

/-- The sample count of the duration histogram of a contract. -/
def samples (m : StoreMetrics) (c : Contract) : ℕ := (m.histogram c).length

/-- The sum of `errors_total` for a contract. -/
def errorSum (m : StoreMetrics) (c : Contract) : ℕ :=
  m.errorsTotal.countP fun labels => labels.1 = c.label

@[simp] lemma samples_observe (c d : Contract) (op backend : String) (m : StoreMetrics) :
    (m.observe c op backend).samples d = m.samples d + if c = d then 1 else 0 := by
  cases c <;> cases d <;> simp [samples, histogram, observe]

@[simp] lemma errorSum_observe (c d : Contract) (op backend : String) (m : StoreMetrics) :
    (m.observe c op backend).errorSum d = m.errorSum d := by
  cases c <;> rfl

@[simp] lemma samples_incErrors (c d : Contract) (op backend : String) (m : StoreMetrics) :
    (m.incErrors c op backend).samples d = m.samples d := by
  cases d <;> rfl

@[simp] lemma errorSum_incErrors (c d : Contract) (op backend : String) (m : StoreMetrics) :
    (m.incErrors c op backend).errorSum d = m.errorSum d + if c = d then 1 else 0 := by
  simp [errorSum, incErrors, List.countP_append, Contract.label_injective.eq_iff]

end StoreMetrics

/-! ### The instrumented stores -/

/-- An operation of an instrumented store, by the label `backend`. -/
abbrev Instrumented (α : Type*) := String → AsyncFn StoreMetrics (Except String α) (Except String α)

section Instrumented

variable {α : Type*}

/-- What every operation of an instrumented store does: await the backend, observe the duration,
count an error, return what the backend returned. -/
def instrumented (c : Contract) (op : String) : Instrumented α := fun backend =>
  { start := fun m => m
    finish := fun res m =>
      let m := m.observe c op backend
      match res with
      | .ok _ => (res, m)
      | .error _ => (res, m.incErrors c op backend) }

namespace InstrumentedKvStore

/-- `get`. -/
def get : Instrumented α := instrumented .kv "get"

/-- `set`. -/
def set : Instrumented α := instrumented .kv "set"

/-- `delete`. -/
def delete : Instrumented α := instrumented .kv "delete"

/-- `exists`. -/
def containsKey : Instrumented α := instrumented .kv "exists"

/-- `set_if_not_exists`. -/
def setIfNotExists : Instrumented α := instrumented .kv "set_if_not_exists"

end InstrumentedKvStore

namespace InstrumentedRelationalStore

/-- `query`. -/
def query : Instrumented α := instrumented .relational "query"

/-- `execute`. -/
def execute : Instrumented α := instrumented .relational "execute"

/-- `migrate`. -/
def migrate : Instrumented α := instrumented .relational "migrate"

end InstrumentedRelationalStore

namespace InstrumentedSortedSetStore

/-- `add`. -/
def add : Instrumented α := instrumented .sortedSet "add"

/-- `remove`. -/
def remove : Instrumented α := instrumented .sortedSet "remove"

/-- `range_by_score`. -/
def rangeByScore : Instrumented α := instrumented .sortedSet "range_by_score"

/-- `count`. -/
def count : Instrumented α := instrumented .sortedSet "count"

/-- `remove_range`. -/
def removeRange : Instrumented α := instrumented .sortedSet "remove_range"

/-- `score`. -/
def score : Instrumented α := instrumented .sortedSet "score"

end InstrumentedSortedSetStore

namespace InstrumentedBlobStore

/-- `put`. -/
def put : Instrumented α := instrumented .blob "put"

/-- `get`. -/
def get : Instrumented α := instrumented .blob "get"

/-- `delete`. -/
def delete : Instrumented α := instrumented .blob "delete"

/-- `list`. -/
def list : Instrumented α := instrumented .blob "list"

/-- `presign_url`. -/
def presignUrl : Instrumented α := instrumented .blob "presign_url"

end InstrumentedBlobStore

namespace InstrumentedPubSubStore

/-- `publish`. -/
def publish : Instrumented α := instrumented .pubsub "publish"

/-- `subscribe`. -/
def subscribe : Instrumented α := instrumented .pubsub "subscribe"

/-- `unsubscribe`. -/
def unsubscribe : Instrumented α := instrumented .pubsub "unsubscribe"

end InstrumentedPubSubStore

/-- An instrumented store returns what the backend returns. -/
theorem instrumented_fst (c : Contract) (op backend : String) (res : Except String α)
    (m : StoreMetrics) : ((instrumented c op backend).finish res m).1 = res := by
  cases res <;> rfl

/-- Every operation that ends is one sample. -/
lemma samples_instrumented (c d : Contract) (op backend : String) (res : Except String α)
    (m : StoreMetrics) : ((instrumented c op backend).finish res m).2.samples d =
      m.samples d + if c = d then 1 else 0 := by
  cases res <;> simp [instrumented]

/-- Every operation that ends with an error is one error. -/
lemma errorSum_instrumented (c d : Contract) (op backend : String) (res : Except String α)
    (m : StoreMetrics) : ((instrumented c op backend).finish res m).2.errorSum d =
      m.errorSum d + if c = d ∧ res.isOk = false then 1 else 0 := by
  cases res <;> simp [instrumented, Except.isOk, Except.toBool]

end Instrumented

/-! ### The operations of the resilient stores -/

/-- The operations that the resilient stores run through their executors. -/
inductive ResilientMethod where
  | kvGet
  | kvSet
  | kvDelete
  | kvExists
  | kvSetIfNotExists
  | relationalQuery
  | relationalExecute
  | relationalMigrate
  | sortedSetAdd
  | sortedSetRemove
  | sortedSetRangeByScore
  | sortedSetCount
  | sortedSetRemoveRange
  | sortedSetScore
  | blobPut
  | blobGet
  | blobDelete
  | blobList
  | blobPresignUrl
  | pubsubPublish
  deriving DecidableEq, Repr

/-- The operations that `ResilientPubSubStore` passes on to the instrumented store. -/
inductive DirectMethod where
  | subscribe
  | unsubscribe
  deriving DecidableEq, Repr

namespace ResilientMethod

/-- The contract of the store. -/
def contract : ResilientMethod → Contract
  | .kvGet | .kvSet | .kvDelete | .kvExists | .kvSetIfNotExists => .kv
  | .relationalQuery | .relationalExecute | .relationalMigrate => .relational
  | .sortedSetAdd | .sortedSetRemove | .sortedSetRangeByScore | .sortedSetCount
  | .sortedSetRemoveRange | .sortedSetScore => .sortedSet
  | .blobPut | .blobGet | .blobDelete | .blobList | .blobPresignUrl => .blob
  | .pubsubPublish => .pubsub

/-- The argument `op_name` of the call of `execute`. -/
def opName : ResilientMethod → String
  | .kvGet => "get"
  | .kvSet => "set"
  | .kvDelete => "delete"
  | .kvExists => "exists"
  | .kvSetIfNotExists => "set_if_not_exists"
  | .relationalQuery => "query"
  | .relationalExecute => "execute"
  | .relationalMigrate => "migrate"
  | .sortedSetAdd => "add"
  | .sortedSetRemove => "remove"
  | .sortedSetRangeByScore => "range_by_score"
  | .sortedSetCount => "count"
  | .sortedSetRemoveRange => "remove_range"
  | .sortedSetScore => "score"
  | .blobPut => "put"
  | .blobGet => "get"
  | .blobDelete => "delete"
  | .blobList => "list"
  | .blobPresignUrl => "presign_url"
  | .pubsubPublish => "publish"

/-- The operation of the instrumented store that is run. -/
def inner {α : Type*} : ResilientMethod → Instrumented α
  | .kvGet => InstrumentedKvStore.get
  | .kvSet => InstrumentedKvStore.set
  | .kvDelete => InstrumentedKvStore.delete
  | .kvExists => InstrumentedKvStore.containsKey
  | .kvSetIfNotExists => InstrumentedKvStore.setIfNotExists
  | .relationalQuery => InstrumentedRelationalStore.query
  | .relationalExecute => InstrumentedRelationalStore.execute
  | .relationalMigrate => InstrumentedRelationalStore.migrate
  | .sortedSetAdd => InstrumentedSortedSetStore.add
  | .sortedSetRemove => InstrumentedSortedSetStore.remove
  | .sortedSetRangeByScore => InstrumentedSortedSetStore.rangeByScore
  | .sortedSetCount => InstrumentedSortedSetStore.count
  | .sortedSetRemoveRange => InstrumentedSortedSetStore.removeRange
  | .sortedSetScore => InstrumentedSortedSetStore.score
  | .blobPut => InstrumentedBlobStore.put
  | .blobGet => InstrumentedBlobStore.get
  | .blobDelete => InstrumentedBlobStore.delete
  | .blobList => InstrumentedBlobStore.list
  | .blobPresignUrl => InstrumentedBlobStore.presignUrl
  | .pubsubPublish => InstrumentedPubSubStore.publish

/-- The resilient and the instrumented store name an operation alike. -/
lemma inner_eq {α : Type*} (method : ResilientMethod) :
    method.inner (α := α) = instrumented method.contract method.opName := by
  cases method <;> rfl

end ResilientMethod

/-- The operation of the instrumented store that is passed on to. -/
def DirectMethod.inner {α : Type*} : DirectMethod → Instrumented α
  | .subscribe => InstrumentedPubSubStore.subscribe
  | .unsubscribe => InstrumentedPubSubStore.unsubscribe

/-! ### The stack -/

/-- The stores of a `GoyStore`, and calls of their operations. -/
structure Stack (κ S α : Type*) where
  /-- The configuration of the executors. -/
  config : ResilienceConfig
  /-- The string `backend` of each contract, the label of both of its layers. -/
  backend : Contract → String
  /-- The operation of a call. -/
  method : κ → ResilientMethod
  /-- What the call does at the backend. -/
  operation : κ → S → α × S

/-- The stores with their metrics. -/
structure StackState (κ S α : Type*) where
  /-- The executors and the backend. -/
  exec : ExecState Rust.executorModel Contract κ S α
  /-- What the instrumented stores wrote. -/
  metrics : StoreMetrics

/-- The steps of a stack. -/
inductive StackLabel (κ : Type*) where
  /-- A step of the calls, the backend or the clock, where `fail` is an error of the backend. -/
  | exec (l : ExecLabel κ)
  /-- The timeout of an attempt elapses. -/
  | timeout (c : κ)
  /-- An operation without an executor runs to its end. -/
  | direct (method : DirectMethod) (res : Except String Unit)

namespace Stack

variable {κ S α : Type*} (T : Stack κ S α)

/-- The executors of the resilient stores. -/
def setup : Setup Rust.executorModel Contract κ S α where
  executor c := ⟨T.config, c.label, T.backend c⟩
  via k := (T.method k).contract
  call k := ⟨(T.method k).opName, T.operation k⟩

/-- The `async fn` of the instrumented store that an attempt runs. -/
def attempt (k : κ) : AsyncFn StoreMetrics (Except String α) (Except String α) :=
  (T.method k).inner (T.backend (T.method k).contract)

/-- What a step of the calls writes. -/
def write (s : StackState κ S α) : ExecLabel κ → StoreMetrics
  | .invoke k => (T.attempt k).start s.metrics
  | .succeed k =>
    match Setup.currentEffect (s.exec.phase k) with
    | some result => ((T.attempt k).finish (.ok result) s.metrics).2
    | none => s.metrics
  | .fail k err => ((T.attempt k).finish (.error err) s.metrics).2
  | _ => s.metrics

variable [DecidableEq κ]

/-- One step. -/
def step (s : StackState κ S α) : StackLabel κ → Option (StackState κ S α)
  | .exec l => (T.setup.step s.exec l).map fun e => ⟨e, T.write s l⟩
  -- the executor fails the attempt; the future of the instrumented store is dropped
  | .timeout k => (T.setup.step s.exec (.fail k ResilientExecutor.timedOut)).map fun e =>
      ⟨e, s.metrics⟩
  | .direct method res =>
    some { s with metrics := ((method.inner (T.backend .pubsub)).run res s.metrics).2 }

/-- No call has started. -/
def init (clock : ℕ) (store : S) (metrics : StoreMetrics) : StackState κ S α :=
  ⟨T.setup.init clock store, metrics⟩

end Stack

/-! ### The attempts of a run -/

/-- Two ways to split what is counted. -/
lemma countP_add_eq_add {ℓ : Type*} {p q p' q' : ℓ → Bool}
    (h : ∀ l, (p l).toNat + (q l).toNat = (p' l).toNat + (q' l).toNat) (ls : List ℓ) :
    ls.countP p + ls.countP q = ls.countP p' + ls.countP q' := by
  induction ls with
  | nil => rfl
  | cons l ls ih =>
    have hcount : ∀ b : Bool, (if b = true then 1 else 0) = b.toNat := fun b => by cases b <;> rfl
    have hl := h l
    simp only [List.countP_cons, hcount]
    omega

/-- Two kinds of elements that make up a third are counted apart. -/
lemma countP_eq_add {ℓ : Type*} {p q r : ℓ → Bool}
    (h : ∀ l, (p l).toNat = (q l).toNat + (r l).toNat) (ls : List ℓ) :
    ls.countP p = ls.countP q + ls.countP r := by
  induction ls with
  | nil => rfl
  | cons l ls ih =>
    have hcount : ∀ b : Bool, (if b = true then 1 else 0) = b.toNat := fun b => by cases b <;> rfl
    simp only [List.countP_cons, ih, hcount, h l]
    omega

namespace StackLabel

variable {κ : Type*} (method : κ → ResilientMethod)

/-- The contract of an attempt that is started. -/
def startedFor : StackLabel κ → Option Contract
  | .exec (.invoke k) => some (method k).contract
  | .direct _ _ => some .pubsub
  | _ => none

/-- The contract of an attempt that fails. -/
def failedFor : StackLabel κ → Option Contract
  | .exec (.fail k _) => some (method k).contract
  | .timeout k => some (method k).contract
  | .direct _ (.error _) => some .pubsub
  | _ => none

/-- The contract of an attempt that ends with an answer of the backend. -/
def answeredFor : StackLabel κ → Option Contract
  | .exec (.succeed k) => some (method k).contract
  | .exec (.fail k _) => some (method k).contract
  | .direct _ _ => some .pubsub
  | _ => none

/-- The contract of an attempt that ends with an error of the backend. -/
def errorFor : StackLabel κ → Option Contract
  | .exec (.fail k _) => some (method k).contract
  | .direct _ (.error _) => some .pubsub
  | _ => none

/-- The contract of an attempt that times out. -/
def timedOutFor : StackLabel κ → Option Contract
  | .timeout k => some (method k).contract
  | _ => none

/-- The step of the calls, the backend or the clock: an attempt that times out has failed. -/
def execLabel : StackLabel κ → Option (ExecLabel κ)
  | .exec l => some l
  | .timeout k => some (.fail k ResilientExecutor.timedOut)
  | .direct _ _ => none

/-- The call whose attempt is started. -/
def invoked (l : StackLabel κ) : Option κ := l.execLabel.bind ExecLabel.invoking

/-- The call whose attempt ends. -/
def ended (l : StackLabel κ) : Option κ := l.execLabel.bind ExecLabel.ending

/-- The contract of an operation without an executor. -/
def directFor : StackLabel κ → Option Contract
  | .direct _ _ => some .pubsub
  | _ => none

/-- A failed attempt ends with an error or times out. -/
lemma countP_failedFor (c : Contract) (ls : List (StackLabel κ)) :
    (ls.countP fun l => l.failedFor method = some c) =
      (ls.countP fun l => l.errorFor method = some c) +
        ls.countP fun l => l.timedOutFor method = some c := by
  refine countP_eq_add (fun l => ?_) ls
  rcases l with l | k | ⟨d, res⟩
  · cases l <;> simp [failedFor, errorFor, timedOutFor]
  · simp [failedFor, errorFor, timedOutFor]
  · cases res <;> simp [failedFor, errorFor, timedOutFor]

/-- An attempt is started by a call or without an executor. -/
lemma countP_startedFor (c : Contract) (ls : List (StackLabel κ)) :
    (ls.countP fun l => l.startedFor method = some c) =
      ((ls.filterMap invoked).countP fun k => (method k).contract = c) +
        ls.countP fun l => l.directFor = some c := by
  rw [List.countP_filterMap]
  refine countP_eq_add (fun l => ?_) ls
  rcases l with l | k | ⟨d, res⟩
  · cases l <;> simp [startedFor, invoked, execLabel, ExecLabel.invoking, directFor]
  · simp [startedFor, invoked, execLabel, ExecLabel.invoking, directFor]
  · simp [startedFor, invoked, execLabel, directFor]

/-- An attempt that ends is answered or times out. -/
lemma countP_answeredFor (c : Contract) (ls : List (StackLabel κ)) :
    (ls.countP fun l => l.answeredFor method = some c) +
        (ls.countP fun l => l.timedOutFor method = some c) =
      ((ls.filterMap ended).countP fun k => (method k).contract = c) +
        ls.countP fun l => l.directFor = some c := by
  rw [List.countP_filterMap]
  refine countP_add_eq_add (fun l => ?_) ls
  rcases l with l | k | ⟨d, res⟩
  · cases l <;> simp [answeredFor, timedOutFor, ended, execLabel, ExecLabel.ending, directFor]
  · simp [answeredFor, timedOutFor, ended, execLabel, ExecLabel.ending, directFor]
  · simp [answeredFor, timedOutFor, ended, execLabel, directFor]

end StackLabel

namespace Stack

variable {κ S α : Type*} {T : Stack κ S α}

/-- The number of attempts for a contract that a run starts. -/
def attemptsStarted (T : Stack κ S α) (ls : List (StackLabel κ)) (c : Contract) : ℕ :=
  ls.countP fun l => l.startedFor T.method = some c

/-- The number of attempts for a contract that fail in a run. -/
def attemptsFailed (T : Stack κ S α) (ls : List (StackLabel κ)) (c : Contract) : ℕ :=
  ls.countP fun l => l.failedFor T.method = some c

variable [DecidableEq κ]

/-- The calls and their executors make a run of their own. -/
lemma exec_run {clock : ℕ} {store : S} {m : StoreMetrics} {ls : List (StackLabel κ)}
    {s : StackState κ S α} (h : runFrom T.step (T.init clock store m) ls = some s) :
    runFrom T.setup.step (T.setup.init clock store) (ls.filterMap StackLabel.execLabel) =
      some s.exec := by
  refine runFrom_filterMap StackState.exec StackLabel.execLabel
    (fun u l u' hl => ?_) h
  cases l with
  | exec l =>
    obtain ⟨e, he, rfl⟩ := Option.map_eq_some_iff.mp hl
    exact (runFrom_singleton ..).trans he
  | timeout k =>
    obtain ⟨e, he, rfl⟩ := Option.map_eq_some_iff.mp hl
    exact (runFrom_singleton ..).trans he
  | direct d res =>
    obtain rfl := Option.some.inj hl
    rfl

/-- What a step writes: a sample for an attempt that the backend answers, and an error for one that
it answers with an error. -/
lemma metrics_step {s s' : StackState κ S α} {l : StackLabel κ} (h : T.step s l = some s')
    (c : Contract) :
    s'.metrics.samples c =
        s.metrics.samples c + (if l.answeredFor T.method = some c then 1 else 0) ∧
      s'.metrics.errorSum c =
        s.metrics.errorSum c + if l.errorFor T.method = some c then 1 else 0 := by
  have hinner : ∀ k, T.attempt k = instrumented (T.method k).contract (T.method k).opName
      (T.backend (T.method k).contract) := fun k => by rw [attempt, ResilientMethod.inner_eq]
  rcases l with l | k | ⟨d, res⟩
  · obtain ⟨e, he, rfl⟩ := Option.map_eq_some_iff.mp h
    cases l with
    | succeed k =>
      cases Setup.moves_of_step he with
      | succeed _ attempt result hc =>
        simp only [write, hc, Setup.currentEffect, hinner]
        rw [samples_instrumented, errorSum_instrumented]
        simp [StackLabel.answeredFor, StackLabel.errorFor, Except.isOk, Except.toBool]
    | fail k err =>
      simp only [write, hinner]
      rw [samples_instrumented, errorSum_instrumented]
      simp [StackLabel.answeredFor, StackLabel.errorFor, Except.isOk, Except.toBool]
    | invoke k =>
      simp only [write, hinner, instrumented, StackLabel.answeredFor, StackLabel.errorFor]
      exact ⟨rfl, rfl⟩
    | _ => exact ⟨rfl, rfl⟩
  · obtain ⟨e, he, rfl⟩ := Option.map_eq_some_iff.mp h
    exact ⟨rfl, rfl⟩
  · obtain rfl := Option.some.inj h
    have hdirect : ∃ op, d.inner (α := Unit) = instrumented .pubsub op := by
      cases d <;> exact ⟨_, rfl⟩
    obtain ⟨op, hop⟩ := hdirect
    simp only [hop, AsyncFn.run]
    rw [samples_instrumented, errorSum_instrumented]
    cases res <;>
      simp [instrumented, StackLabel.answeredFor, StackLabel.errorFor, Except.isOk, Except.toBool]

/-- What the metrics hold after a run: a sample for every attempt that the backend answered, and an
error for every one that it answered with an error. -/
theorem metrics_of_run {clock : ℕ} {store : S} {m : StoreMetrics} {ls : List (StackLabel κ)}
    {s : StackState κ S α} (hrun : runFrom T.step (T.init clock store m) ls = some s)
    (c : Contract) :
    s.metrics.samples c =
        m.samples c + (ls.countP fun l => l.answeredFor T.method = some c) ∧
      s.metrics.errorSum c =
        m.errorSum c + ls.countP fun l => l.errorFor T.method = some c := by
  induction ls using List.reverseRecOn generalizing s with
  | nil =>
    obtain rfl := Option.some.inj hrun
    exact ⟨rfl, rfl⟩
  | append_singleton ls l ih =>
    obtain ⟨t, ht, hl⟩ := exists_of_runFrom_concat hrun
    obtain ⟨hsamples, herrors⟩ := metrics_step hl c
    obtain ⟨hsamples', herrors'⟩ := ih ht
    rw [List.countP_append, List.countP_append, List.countP_singleton, List.countP_singleton]
    simp only [decide_eq_true_eq]
    omega

/-- The metrics have grown by the attempts of a run. -/
def Accounts (T : Stack κ S α) (m : StoreMetrics) (ls : List (StackLabel κ))
    (s : StackState κ S α) : Prop :=
  ∀ c, s.metrics.errorSum c = m.errorSum c + T.attemptsFailed ls c ∧
    s.metrics.samples c = m.samples c + T.attemptsStarted ls c

/-- After every run of a stack without an attempt under way the metrics have grown by its
attempts. -/
def AlwaysAccounts (T : Stack κ S α) : Prop :=
  ∀ (clock : ℕ) (store : S) (m : StoreMetrics) (ls : List (StackLabel κ)) (s : StackState κ S α),
    runFrom T.step (T.init clock store m) ls = some s →
      (∀ k, (s.exec.phase k).attempting = false) → T.Accounts m ls s

/-- After a run in which every attempt that was started has ended, the metrics have grown by the
attempts of the run if and only if none of them timed out. -/
theorem accounts_iff_no_timeout (T : Stack κ S α) (clock : ℕ) (store : S) (m : StoreMetrics)
    (ls : List (StackLabel κ)) {s : StackState κ S α}
    (hrun : runFrom T.step (T.init clock store m) ls = some s)
    (hended : ∀ k, (s.exec.phase k).attempting = false) :
    T.Accounts m ls s ↔ ∀ k, .timeout k ∉ ls := by
  have hperm : (ls.filterMap StackLabel.invoked).Perm (ls.filterMap StackLabel.ended) := by
    have hexec := Setup.perm_invoking (exec_run hrun) hended
    rwa [List.filterMap_filterMap, List.filterMap_filterMap] at hexec
  have hstarted : ∀ c, T.attemptsStarted ls c =
      (ls.countP fun l => l.answeredFor T.method = some c) +
        ls.countP fun l => l.timedOutFor T.method = some c := by
    intro c
    rw [attemptsStarted, StackLabel.countP_startedFor, hperm.countP_eq,
      StackLabel.countP_answeredFor]
  have hnone : (∀ k, StackLabel.timeout k ∉ ls) ↔
      ∀ c, (ls.countP fun l => l.timedOutFor T.method = some c) = 0 := by
    simp only [List.countP_eq_zero, decide_eq_true_eq]
    constructor
    · intro h c l hl htimeout
      cases l with
      | timeout k => exact h k hl
      | _ => cases htimeout
    · intro h k hk
      exact h _ _ hk rfl
  rw [hnone]
  refine forall_congr' fun c => ?_
  obtain ⟨hsamples, herrors⟩ := metrics_of_run hrun c
  rw [hsamples, herrors, hstarted, attemptsFailed, StackLabel.countP_failedFor]
  omega

/-- Calls of `get` on a Redis store, without retries. -/
def getStack : Stack ℕ Unit Unit where
  config := ⟨0, 100, 5, 30, 5⟩
  backend _ := "redis"
  method _ := .kvGet
  operation _ s := ((), s)

/-- A call whose only attempt fails by the given label. -/
def failedGet (l : StackLabel ℕ) : List (StackLabel ℕ) :=
  [.exec (.start 0), .exec (.invoke 0), l, .exec (.report 0), .exec (.report 0),
    .exec (.publish 0), .exec (.publish 0)]

/-- A backend that hangs: the call fails with a timeout, and the metrics show nothing. -/
theorem not_alwaysAccounts_getStack : ¬ getStack.AlwaysAccounts := by
  obtain ⟨s, hrun, herrors⟩ : ∃ s, runFrom getStack.step (getStack.init 0 () .empty)
      (failedGet (.timeout 0)) = some s ∧ s.metrics = .empty := ⟨_, rfl, rfl⟩
  intro h
  obtain ⟨hsum, -⟩ := h 0 () .empty _ s hrun (Setup.attempting_eq_false (exec_run hrun) rfl) .kv
  rw [herrors] at hsum
  exact absurd hsum (by decide)

/-- A backend that refuses: the call fails, and the metrics account for its attempt. -/
theorem accounts_refused_get : ∃ s, runFrom getStack.step (getStack.init 0 () .empty)
    (failedGet (.exec (.fail 0 "refused"))) = some s ∧
      getStack.Accounts .empty (failedGet (.exec (.fail 0 "refused"))) s := by
  obtain ⟨s, hrun⟩ : ∃ s, runFrom getStack.step (getStack.init 0 () .empty)
      (failedGet (.exec (.fail 0 "refused"))) = some s := ⟨_, rfl⟩
  refine ⟨s, hrun, (accounts_iff_no_timeout getStack 0 () .empty _ hrun
    (Setup.attempting_eq_false (exec_run hrun) rfl)).mpr fun k hk => ?_⟩
  simp [failedGet] at hk

end Stack

end Rust

end GoyStore
