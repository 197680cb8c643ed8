import GoyStore.Resilience.CallSteps
import GoyStore.Resilience.ErrorAccounting

/-!
# What the instrumented stores of the Go library count

`NewStoreWithMetrics` puts each contract into two layers, a resilient store over an instrumented
store over the backend.  The instrumented store counts an operation when the backend has answered,
and it is not left before: the executor does not give up an attempt when its timeout elapses, it
waits until the operation returns with the error of its context.

The runs are those of `GoyStore.Resilience.ExecutorRuns` with the metrics beside them.  After a run
in which no attempt is under way, the metrics have grown by its attempts, whatever became of them
(`Go.Stack.accounts_of_run`); in the Rust library that is so only when no attempt timed out.
-/

namespace GoyStore

open Runs

/-- A contract has one backend, so the label of the backend adds nothing to the other two. -/
lemma Rust.Contract.labels_iff (backend : Contract → String) (c d : Contract) (op op' : String) :
    (c = d ∧ op = op' ∧ backend c = backend d) ↔ c = d ∧ op = op' :=
  ⟨fun h => ⟨h.1, h.2.1⟩, fun h => ⟨h.1, h.2, congrArg backend h.1⟩⟩

namespace Go

open Rust (Contract)

/-! ### The metrics -/

/-- The fields of `Metrics` that the instrumented stores write: of each histogram the labels of its
samples, and of `ErrorsTotal` the labels of its increments. -/
structure StoreMetrics where
  /-- `KVOperationDuration`. -/
  kvOperationDuration : List (String × String)
  /-- `RelationalQueryDuration`. -/
  relationalQueryDuration : List (String × String)
  /-- `SortedSetOperationDuration`. -/
  sortedSetOperationDuration : List (String × String)
  /-- `BlobOperationDuration`. -/
  blobOperationDuration : List (String × String)
  /-- `PubSubOperationDuration`. -/
  pubSubOperationDuration : List (String × String)
  /-- `ErrorsTotal`. -/
  errorsTotal : List (String × String × String × String)
  deriving DecidableEq, Repr

namespace StoreMetrics

/-- Nothing is counted yet. -/
def empty : StoreMetrics := ⟨[], [], [], [], [], []⟩

/-- The duration histogram of a contract. -/
def histogram (m : StoreMetrics) : Contract → List (String × String)
  | .kv => m.kvOperationDuration
  | .relational => m.relationalQueryDuration
  | .sortedSet => m.sortedSetOperationDuration
  | .blob => m.blobOperationDuration
  | .pubsub => m.pubSubOperationDuration

/-- `WithLabelValues(op, backend).Observe(duration)` on the histogram of a contract. -/
def observe (c : Contract) (op backend : String) (m : StoreMetrics) : StoreMetrics :=
  let sample := (op, backend)
  match c with
  | .kv => { m with kvOperationDuration := m.kvOperationDuration ++ [sample] }
  | .relational => { m with relationalQueryDuration := m.relationalQueryDuration ++ [sample] }
  | .sortedSet =>
    { m with sortedSetOperationDuration := m.sortedSetOperationDuration ++ [sample] }
  | .blob => { m with blobOperationDuration := m.blobOperationDuration ++ [sample] }
  | .pubsub => { m with pubSubOperationDuration := m.pubSubOperationDuration ++ [sample] }

/-- `ErrorsTotal.WithLabelValues(contract, op, backend, "error").Inc()`. -/
def incErrors (c : Contract) (op backend : String) (m : StoreMetrics) : StoreMetrics :=
  { m with errorsTotal := m.errorsTotal ++ [(c.label, op, backend, "error")] }

/-- The sample count of an operation of a contract. -/
def samples (m : StoreMetrics) (c : Contract) (op backend : String) : ℕ :=
  (m.histogram c).count (op, backend)

/-- The errors of an operation of a contract. -/
def errors (m : StoreMetrics) (c : Contract) (op backend : String) : ℕ :=
  m.errorsTotal.count (c.label, op, backend, "error")

@[simp] lemma samples_observe (c d : Contract) (op op' backend backend' : String)
    (m : StoreMetrics) : (m.observe c op backend).samples d op' backend' =
      m.samples d op' backend' + if c = d ∧ op = op' ∧ backend = backend' then 1 else 0 := by
  cases c <;> cases d <;>
    simp [samples, histogram, observe, List.count_append, List.count_singleton]

@[simp] lemma errors_observe (c d : Contract) (op op' backend backend' : String)
    (m : StoreMetrics) : (m.observe c op backend).errors d op' backend' =
      m.errors d op' backend' := by
  cases c <;> rfl

@[simp] lemma samples_incErrors (c d : Contract) (op op' backend backend' : String)
    (m : StoreMetrics) : (m.incErrors c op backend).samples d op' backend' =
      m.samples d op' backend' := by
  cases d <;> rfl

@[simp] lemma errors_incErrors (c d : Contract) (op op' backend backend' : String)
    (m : StoreMetrics) : (m.incErrors c op backend).errors d op' backend' =
      m.errors d op' backend' + if c = d ∧ op = op' ∧ backend = backend' then 1 else 0 := by
  simp [errors, incErrors, List.count_append, List.count_singleton,
    Contract.label_injective.eq_iff]

end StoreMetrics

/-! ### The instrumented stores -/

/-- An operation of an instrumented store: the label `backend`, what the inner store returns and the
metrics before. -/
abbrev Instrumented (α : Type*) :=
  String → Except String α → StoreMetrics → Except String α × StoreMetrics

section Instrumented

variable {α : Type*}

/-- What every operation of an instrumented store does: call the inner store, observe the duration,
count an error, return what the inner store returned. -/
def instrumented (c : Contract) (op : String) : Instrumented α := fun backend res m =>
  let m := m.observe c op backend
  match res with
  | .error _ => (res, m.incErrors c op backend)
  | .ok _ => (res, m)

namespace instrumentedKVStore

/-- `Get`. -/
def get : Instrumented α := instrumented .kv "get"

/-- `Set`. -/
def set : Instrumented α := instrumented .kv "set"

/-- `Delete`. -/
def delete : Instrumented α := instrumented .kv "delete"

/-- `Exists`. -/
def containsKey : Instrumented α := instrumented .kv "exists"

/-- `SetIfNotExists`. -/
def setIfNotExists : Instrumented α := instrumented .kv "set_if_not_exists"

end instrumentedKVStore

namespace instrumentedRelationalStore

/-- `Query`. -/
def query : Instrumented α := instrumented .relational "query"

/-- `Execute`. -/
def execute : Instrumented α := instrumented .relational "execute"

/-- `Transaction`. -/
def transaction : Instrumented α := instrumented .relational "transaction"

/-- `Migrate`. -/
def migrate : Instrumented α := instrumented .relational "migrate"

end instrumentedRelationalStore

namespace instrumentedSortedSetStore

/-- `Add`. -/
def add : Instrumented α := instrumented .sortedSet "add"

/-- `Remove`. -/
def remove : Instrumented α := instrumented .sortedSet "remove"

/-- `RangeByScore`. -/
def rangeByScore : Instrumented α := instrumented .sortedSet "range_by_score"

/-- `Count`. -/
def count : Instrumented α := instrumented .sortedSet "count"

/-- `RemoveRange`. -/
def removeRange : Instrumented α := instrumented .sortedSet "remove_range"

/-- `Score`. -/
def score : Instrumented α := instrumented .sortedSet "score"

end instrumentedSortedSetStore

namespace instrumentedBlobStore

/-- `Put`. -/
def put : Instrumented α := instrumented .blob "put"

/-- `Get`. -/
def get : Instrumented α := instrumented .blob "get"

/-- `Delete`. -/
def delete : Instrumented α := instrumented .blob "delete"

/-- `List`. -/
def list : Instrumented α := instrumented .blob "list"

/-- `PresignURL`. -/
def presignURL : Instrumented α := instrumented .blob "presign_url"

end instrumentedBlobStore

namespace instrumentedPubSubStore

/-- `Publish`. -/
def publish : Instrumented α := instrumented .pubsub "publish"

/-- `Subscribe`. -/
def subscribe : Instrumented α := instrumented .pubsub "subscribe"

/-- `Unsubscribe`. -/
def unsubscribe : Instrumented α := instrumented .pubsub "unsubscribe"

end instrumentedPubSubStore

/-- An instrumented store returns what the inner store returns. -/
theorem instrumented_fst (c : Contract) (op backend : String) (res : Except String α)
    (m : StoreMetrics) : (instrumented c op backend res m).1 = res := by
  cases res <;> rfl

/-- Every operation is one sample. -/
lemma samples_instrumented (c d : Contract) (op op' backend backend' : String)
    (res : Except String α) (m : StoreMetrics) :
    (instrumented c op backend res m).2.samples d op' backend' =
      m.samples d op' backend' + if c = d ∧ op = op' ∧ backend = backend' then 1 else 0 := by
  cases res <;> simp [instrumented]

/-- Every operation that returns an error is one error. -/
lemma errors_instrumented (c d : Contract) (op op' backend backend' : String)
    (res : Except String α) (m : StoreMetrics) :
    (instrumented c op backend res m).2.errors d op' backend' =
      m.errors d op' backend' +
        if (c = d ∧ op = op' ∧ backend = backend') ∧ res.isOk = false then 1 else 0 := by
  cases res <;> simp [instrumented, Except.isOk, Except.toBool]

end Instrumented

/-! ### The operations of the resilient stores -/

/-- The operations that the resilient stores run through their executors. -/
inductive ResilientMethod where
  | kvGet
  | kvSet
  | kvDelete
  | kvExists
  | kvSetIfNotExists
  | relationalQuery
  | relationalExecute
  | relationalTransaction
  | relationalMigrate
  | sortedSetAdd
  | sortedSetRemove
  | sortedSetRangeByScore
  | sortedSetCount
  | sortedSetRemoveRange
  | sortedSetScore
  | blobPut
  | blobGet
  | blobDelete
  | blobList
  | blobPresignURL
  | pubSubPublish
  deriving DecidableEq, Repr

/-- The operations that `resilientPubSubStore` passes on to the instrumented store. -/
inductive DirectMethod where
  | subscribe
  | unsubscribe
  deriving DecidableEq, Repr

namespace ResilientMethod

/-- The contract of the store. -/
def contract : ResilientMethod → Contract
  | .kvGet | .kvSet | .kvDelete | .kvExists | .kvSetIfNotExists => .kv
  | .relationalQuery | .relationalExecute | .relationalTransaction | .relationalMigrate =>
    .relational
  | .sortedSetAdd | .sortedSetRemove | .sortedSetRangeByScore | .sortedSetCount
  | .sortedSetRemoveRange | .sortedSetScore => .sortedSet
  | .blobPut | .blobGet | .blobDelete | .blobList | .blobPresignURL => .blob
  | .pubSubPublish => .pubsub

/-- The argument `opName` of the call of `ExecuteWithResilience`. -/
def opName : ResilientMethod → String
  | .kvGet => "get"
  | .kvSet => "set"
  | .kvDelete => "delete"
  | .kvExists => "exists"
  | .kvSetIfNotExists => "set_if_not_exists"
  | .relationalQuery => "query"
  | .relationalExecute => "execute"
  | .relationalTransaction => "transaction"
  | .relationalMigrate => "migrate"
  | .sortedSetAdd => "add"
  | .sortedSetRemove => "remove"
  | .sortedSetRangeByScore => "range_by_score"
  | .sortedSetCount => "count"
  | .sortedSetRemoveRange => "remove_range"
  | .sortedSetScore => "score"
  | .blobPut => "put"
  | .blobGet => "get"
  | .blobDelete => "delete"
  | .blobList => "list"
  | .blobPresignURL => "presign_url"
  | .pubSubPublish => "publish"

/-- The operation of the instrumented store that is run. -/
def inner {α : Type*} : ResilientMethod → Instrumented α
  | .kvGet => instrumentedKVStore.get
  | .kvSet => instrumentedKVStore.set
  | .kvDelete => instrumentedKVStore.delete
  | .kvExists => instrumentedKVStore.containsKey
  | .kvSetIfNotExists => instrumentedKVStore.setIfNotExists
  | .relationalQuery => instrumentedRelationalStore.query
  | .relationalExecute => instrumentedRelationalStore.execute
  | .relationalTransaction => instrumentedRelationalStore.transaction
  | .relationalMigrate => instrumentedRelationalStore.migrate
  | .sortedSetAdd => instrumentedSortedSetStore.add
  | .sortedSetRemove => instrumentedSortedSetStore.remove
  | .sortedSetRangeByScore => instrumentedSortedSetStore.rangeByScore
  | .sortedSetCount => instrumentedSortedSetStore.count
  | .sortedSetRemoveRange => instrumentedSortedSetStore.removeRange
  | .sortedSetScore => instrumentedSortedSetStore.score
  | .blobPut => instrumentedBlobStore.put
  | .blobGet => instrumentedBlobStore.get
  | .blobDelete => instrumentedBlobStore.delete
  | .blobList => instrumentedBlobStore.list
  | .blobPresignURL => instrumentedBlobStore.presignURL
  | .pubSubPublish => instrumentedPubSubStore.publish

/-- The resilient and the instrumented store name an operation alike. -/
lemma inner_eq {α : Type*} (method : ResilientMethod) :
    method.inner (α := α) = instrumented method.contract method.opName := by
  cases method <;> rfl

end ResilientMethod

namespace DirectMethod

/-- The operation of the instrumented store that is passed on to. -/
def inner {α : Type*} : DirectMethod → Instrumented α
  | .subscribe => instrumentedPubSubStore.subscribe
  | .unsubscribe => instrumentedPubSubStore.unsubscribe

/-- The label of the operation. -/
def opName : DirectMethod → String
  | .subscribe => "subscribe"
  | .unsubscribe => "unsubscribe"

/-- The instrumented store uses this label. -/
lemma inner_eq {α : Type*} (method : DirectMethod) :
    method.inner (α := α) = instrumented .pubsub method.opName := by
  cases method <;> rfl

end DirectMethod

/-! ### The stack -/

/-- The stores of a `GoyStore`, and calls of their operations. -/
structure Stack (κ S α : Type*) where
  /-- The configuration of the executors. -/
  config : ResilienceConfig
  /-- The field `Backend` of each contract, the label of both of its layers. -/
  backend : Contract → String
  /-- The operation of a call. -/
  method : κ → ResilientMethod
  /-- What the call does at the backend. -/
  operation : κ → S → α × S

/-- The stores with their metrics. -/
structure StackState (κ S α : Type*) where
  /-- The executors and the backend. -/
  exec : ExecState Go.executorModel Contract κ S α
  /-- What the instrumented stores wrote. -/
  metrics : StoreMetrics

/-- The steps of a stack. -/
inductive StackLabel (κ : Type*) where
  /-- A step of the calls, the backend or the clock. -/
  | exec (l : ExecLabel κ)
  /-- An operation without an executor runs to its end. -/
  | direct (method : DirectMethod) (res : Except String Unit)

namespace Stack

variable {κ S α : Type*} (T : Stack κ S α)

/-- The executors of the resilient stores. -/
def setup : Setup Go.executorModel Contract κ S α where
  executor c := .new T.config true c.label (T.backend c)
  via k := (T.method k).contract
  call k := ⟨(T.method k).opName, T.operation k⟩

/-- The operation of the instrumented store that an attempt runs. -/
def attempt (k : κ) : Except String α → StoreMetrics → Except String α × StoreMetrics :=
  (T.method k).inner (T.backend (T.method k).contract)

/-- What a step of the calls writes: the instrumented store writes when the backend has answered an
attempt. -/
def write (s : StackState κ S α) : ExecLabel κ → StoreMetrics
  | .succeed k =>
    match Setup.currentEffect (s.exec.phase k) with
    | some result => (T.attempt k (.ok result) s.metrics).2
    | none => s.metrics
  | .fail k err => (T.attempt k (.error err) s.metrics).2
  | _ => s.metrics

variable [DecidableEq κ]

/-- One step. -/
def step (s : StackState κ S α) : StackLabel κ → Option (StackState κ S α)
  | .exec l => (T.setup.step s.exec l).map fun e => ⟨e, T.write s l⟩
  | .direct method res =>
    some { s with metrics := (method.inner (T.backend .pubsub) res s.metrics).2 }

/-- No call has started. -/
def init (clock : ℕ) (store : S) (metrics : StoreMetrics) : StackState κ S α :=
  ⟨T.setup.init clock store, metrics⟩

end Stack

/-! ### The attempts of a run -/

namespace StackLabel

variable {κ : Type*}

/-- The step of the calls, the backend or the clock. -/
def execLabel : StackLabel κ → Option (ExecLabel κ)
  | .exec l => some l
  | .direct _ _ => none

/-- An operation without an executor. -/
def directMethod : StackLabel κ → Option DirectMethod
  | .exec _ => none
  | .direct d _ => some d

/-- An operation without an executor that returns an error. -/
def directFailing : StackLabel κ → Option DirectMethod
  | .direct d (.error _) => some d
  | _ => none

end StackLabel

namespace Stack

variable {κ S α : Type*} (T : Stack κ S α)

/-- The call is a call of this operation. -/
def IsCallOf (c : Contract) (op : String) (k : κ) : Prop :=
  (T.method k).contract = c ∧ (T.method k).opName = op

instance (c : Contract) (op : String) : DecidablePred (T.IsCallOf c op) :=
  fun _ => inferInstanceAs (Decidable (_ ∧ _))

/-- How many of these steps belong to attempts of an operation: of calls, or without an executor. -/
def attemptsOf (f : ExecLabel κ → Option κ) (g : StackLabel κ → Option DirectMethod)
    (ls : List (StackLabel κ)) (c : Contract) (op : String) : ℕ :=
  ((ls.filterMap StackLabel.execLabel).filterMap f).countP (fun k => T.IsCallOf c op k) +
    (ls.filterMap g).countP fun d => Contract.pubsub = c ∧ d.opName = op

/-- The attempts of an operation that a run starts. -/
def attemptsStarted : List (StackLabel κ) → Contract → String → ℕ :=
  T.attemptsOf ExecLabel.invoking StackLabel.directMethod

/-- The attempts of an operation that end in a run. -/
def attemptsEnded : List (StackLabel κ) → Contract → String → ℕ :=
  T.attemptsOf ExecLabel.ending StackLabel.directMethod

/-- The attempts of an operation that fail in a run. -/
def attemptsFailed : List (StackLabel κ) → Contract → String → ℕ :=
  T.attemptsOf ExecLabel.failing StackLabel.directFailing

variable {T}

/-- One more step. -/
lemma attemptsOf_concat (f : ExecLabel κ → Option κ) (g : StackLabel κ → Option DirectMethod)
    (ls : List (StackLabel κ)) (l : StackLabel κ) (c : Contract) (op : String) :
    T.attemptsOf f g (ls ++ [l]) c op = T.attemptsOf f g ls c op + T.attemptsOf f g [l] c op := by
  simp only [attemptsOf, List.filterMap_append, List.countP_append]
  omega

/-- What one step counts. -/
lemma attemptsOf_singleton (f : ExecLabel κ → Option κ) (g : StackLabel κ → Option DirectMethod)
    (l : StackLabel κ) (c : Contract) (op : String) :
    T.attemptsOf f g [l] c op =
      ((l.execLabel.bind f).elim 0 fun k => if T.IsCallOf c op k then 1 else 0) +
        (g l).elim 0 fun d => if Contract.pubsub = c ∧ d.opName = op then 1 else 0 := by
  have hexec : ((([l].filterMap StackLabel.execLabel).filterMap f).countP fun k =>
      T.IsCallOf c op k) =
        (l.execLabel.bind f).elim 0 fun k => if T.IsCallOf c op k then 1 else 0 := by
    rw [List.filterMap_filterMap]
    cases hl : l.execLabel.bind f with
    | none => simp [hl]
    | some k => simp [hl, List.countP_cons]
  have hdirect : (([l].filterMap g).countP fun d => Contract.pubsub = c ∧ d.opName = op) =
      (g l).elim 0 fun d => if Contract.pubsub = c ∧ d.opName = op then 1 else 0 := by
    cases hl : g l with
    | none => simp [hl]
    | some d => simp [hl, List.countP_cons]
  rw [attemptsOf, hexec, hdirect]

variable [DecidableEq κ] {s s' : StackState κ S α} {l : StackLabel κ} {ls : List (StackLabel κ)}

omit [DecidableEq κ] in
/-- What an operation of an instrumented store of the stack writes. -/
lemma metrics_instrumented {β : Type*} (c d : Contract) (op op' : String) (res : Except String β)
    (m : StoreMetrics) :
    (instrumented c op (T.backend c) res m).2.samples d op' (T.backend d) =
        m.samples d op' (T.backend d) + (if c = d ∧ op = op' then 1 else 0) ∧
      (instrumented c op (T.backend c) res m).2.errors d op' (T.backend d) =
        m.errors d op' (T.backend d) +
          if (c = d ∧ op = op') ∧ res.isOk = false then 1 else 0 := by
  rw [samples_instrumented, errors_instrumented]
  simp only [Contract.labels_iff T.backend, and_self]

/-- What a step writes: a sample for an attempt that ends, and an error for one that fails. -/
lemma metrics_step (h : T.step s l = some s') (c : Contract) (op : String) :
    s'.metrics.samples c op (T.backend c) =
        s.metrics.samples c op (T.backend c) + T.attemptsEnded [l] c op ∧
      s'.metrics.errors c op (T.backend c) =
        s.metrics.errors c op (T.backend c) + T.attemptsFailed [l] c op := by
  rw [attemptsEnded, attemptsFailed, attemptsOf_singleton, attemptsOf_singleton]
  rcases l with l | ⟨d, res⟩
  · obtain ⟨e, he, rfl⟩ := Option.map_eq_some_iff.mp h
    cases l with
    | succeed k =>
      cases Setup.moves_of_step he with
      | succeed _ a result hc =>
        simp only [write, hc, Setup.currentEffect, attempt, ResilientMethod.inner_eq]
        obtain ⟨hsamples, herrors⟩ := metrics_instrumented (T := T) (T.method k).contract c
          (T.method k).opName op (.ok result : Except String α) s.metrics
        rw [hsamples, herrors]
        simp only [Except.isOk, Except.toBool, Bool.true_eq_false, and_false, if_false]
        exact ⟨rfl, rfl⟩
    | fail k err =>
      simp only [write, attempt, ResilientMethod.inner_eq]
      obtain ⟨hsamples, herrors⟩ := metrics_instrumented (T := T) (T.method k).contract c
        (T.method k).opName op (.error err : Except String α) s.metrics
      rw [hsamples, herrors]
      simp only [Except.isOk, Except.toBool, and_true]
      exact ⟨rfl, rfl⟩
    | _ => exact ⟨rfl, rfl⟩
  · obtain rfl := Option.some.inj h
    simp only [DirectMethod.inner_eq]
    obtain ⟨hsamples, herrors⟩ := metrics_instrumented (T := T) .pubsub c d.opName op res s.metrics
    rw [hsamples, herrors]
    rcases res with err | ⟨⟩
    · simp [StackLabel.execLabel, StackLabel.directMethod, StackLabel.directFailing, Except.isOk,
        Except.toBool]
    · simp [StackLabel.execLabel, StackLabel.directMethod, StackLabel.directFailing, Except.isOk,
        Except.toBool]

/-- What the metrics hold after a run: a sample for every attempt that has ended, and an error for
every attempt that has failed. -/
theorem metrics_of_run {clock : ℕ} {store : S} {m : StoreMetrics}
    (h : runFrom T.step (T.init clock store m) ls = some s) (c : Contract) (op : String) :
    s.metrics.samples c op (T.backend c) =
        m.samples c op (T.backend c) + T.attemptsEnded ls c op ∧
      s.metrics.errors c op (T.backend c) =
        m.errors c op (T.backend c) + T.attemptsFailed ls c op := by
  induction ls using List.reverseRecOn generalizing s with
  | nil => exact Option.some.inj h ▸ ⟨rfl, rfl⟩
  | append_singleton ls l ih =>
    obtain ⟨t, ht, hl⟩ := exists_of_runFrom_concat h
    obtain ⟨hsamples, herrors⟩ := metrics_step hl c op
    obtain ⟨hsamples', herrors'⟩ := ih ht
    have hended : T.attemptsEnded (ls ++ [l]) c op =
        T.attemptsEnded ls c op + T.attemptsEnded [l] c op := attemptsOf_concat ..
    have hfailed : T.attemptsFailed (ls ++ [l]) c op =
        T.attemptsFailed ls c op + T.attemptsFailed [l] c op := attemptsOf_concat ..
    omega

/-- The calls and their executors make a run of their own. -/
lemma exec_run {clock : ℕ} {store : S} {m : StoreMetrics}
    (h : runFrom T.step (T.init clock store m) ls = some s) :
    runFrom T.setup.step (T.setup.init clock store) (ls.filterMap StackLabel.execLabel) =
      some s.exec := by
  refine runFrom_filterMap StackState.exec StackLabel.execLabel
    (fun u l u' hl => ?_) h
  cases l with
  | exec l =>
    obtain ⟨e, he, rfl⟩ := Option.map_eq_some_iff.mp hl
    exact (runFrom_singleton ..).trans he
  | direct d res =>
    obtain rfl := Option.some.inj hl
    rfl

/-- The metrics have grown by the attempts of a run. -/
def Accounts (T : Stack κ S α) (m : StoreMetrics) (ls : List (StackLabel κ))
    (s : StackState κ S α) : Prop :=
  ∀ c op, s.metrics.samples c op (T.backend c) =
      m.samples c op (T.backend c) + T.attemptsStarted ls c op ∧
    s.metrics.errors c op (T.backend c) =
      m.errors c op (T.backend c) + T.attemptsFailed ls c op

/-- After a run in which every attempt that was started has ended, the metrics have grown by the
attempts of the run: for every operation of every contract a sample for each, and an error for each
that failed, by its timeout or otherwise. -/
theorem accounts_of_run (T : Stack κ S α) (clock : ℕ) (store : S) (m : StoreMetrics)
    (ls : List (StackLabel κ)) {s : StackState κ S α}
    (h : runFrom T.step (T.init clock store m) ls = some s)
    (hended : ∀ k, (s.exec.phase k).attempting = false) : T.Accounts m ls s := by
  intro c op
  obtain ⟨hsamples, herrors⟩ := metrics_of_run h c op
  have hperm := Setup.perm_invoking (exec_run h) hended
  refine ⟨?_, herrors⟩
  rw [hsamples, attemptsStarted, attemptsEnded, attemptsOf, attemptsOf, hperm.countP_eq]

/-- Calls of `Get` on a Redis store, with one retry. -/
def getStack : Stack ℕ Unit Unit where
  config := ⟨1, 100, 5, 30, 5⟩
  backend _ := "redis"
  method _ := .kvGet
  operation _ s := ((), s)

/-- A call whose first attempt runs into its timeout, and whose second succeeds. -/
def retriedGet : List (StackLabel ℕ) :=
  [.exec (.start 0), .exec (.invoke 0), .exec (.fail 0 "context deadline exceeded"),
    .exec (.report 0), .exec (.publish 0), .exec (.publish 0), .exec (.wake 0),
    .exec (.invoke 0), .exec (.takeEffect 0), .exec (.succeed 0), .exec (.report 0),
    .exec (.publish 0), .exec (.publish 0)]

/-- The metrics account for both attempts of the retried call. -/
theorem accounts_of_run_retriedGet : ∃ s, runFrom getStack.step (getStack.init 0 () .empty)
    retriedGet = some s ∧ getStack.Accounts .empty retriedGet s := by
  obtain ⟨s, hrun⟩ : ∃ s, runFrom getStack.step (getStack.init 0 () .empty) retriedGet = some s :=
    ⟨_, rfl⟩
  exact ⟨s, hrun, accounts_of_run getStack 0 () .empty retriedGet hrun
    (Setup.attempting_eq_false (exec_run hrun) rfl)⟩

end Stack

end Go

end GoyStore
