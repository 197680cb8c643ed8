import GoyStore.Blob.GoLocalBlobStore
import GoyStore.Blob.LocalBlobStore
import GoyStore.Library.FanIn
import GoyStore.Resilience.ErrorAccounting

/-!
# The health check of a store

`GoyStore::health_check` asks the five stores at the same time and puts what they answer together by
`ConsolidatedHealth::from_statuses`.  `defaultStore.HealthCheck` starts a goroutine for each store
and takes their answers out of a channel, in the order in which they come.  On the way each
instrumented store writes the metrics of its health.  What a store answers, and when, is the
environment's choice.

Whatever the order, `HealthCheck` returns the worst state of the five stores and the status of each,
once all of them have answered, and leaves no goroutine behind (`goHealthCheck`).  The two libraries
report the same of stores that answer alike (`healthChecks_agree`).
-/

namespace GoyStore

open FanIn Runs
open Rust (Contract)

/-- The contracts, in the order in which a health check asks their stores. -/
def contracts : List Contract := [.kv, .relational, .sortedSet, .pubsub, .blob]

/-- Every contract is one of them. -/
lemma mem_contracts (c : Contract) : c ∈ contracts := by
  cases c <;> decide

/-- None is there twice. -/
lemma nodup_contracts : contracts.Nodup := by
  decide

/-- The metrics of the health of the stores. -/
structure HealthMetrics where
  /-- The number of samples of `health_check_duration_seconds`. -/
  samples : Contract → ℕ
  /-- The gauge `health_check_status`; `none` when it was never set. -/
  status : Contract → Option ℕ

namespace HealthMetrics

/-- `observe`. -/
def observe (m : HealthMetrics) (c : Contract) : HealthMetrics :=
  { m with samples := Function.update m.samples c (m.samples c + 1) }

/-- `set`. -/
def setStatus (m : HealthMetrics) (c : Contract) (val : ℕ) : HealthMetrics :=
  { m with status := Function.update m.status c (some val) }

end HealthMetrics

/-! ### The worst of several states -/

/-- The state is the worst of a state to begin with and of the states in a list. -/
structure Worst {σ : Type} (severity : σ → ℕ) (first : σ) (states : List σ) (state : σ) : Prop where
  /-- None is worse. -/
  bound : ∀ x ∈ states, severity x ≤ severity state
  /-- Neither is the first. -/
  bound_first : severity first ≤ severity state
  /-- It is one of them. -/
  reached : state = first ∨ state ∈ states

/-- Keeping the worse of two states finds the worst of them all. -/
lemma worst_foldl {σ : Type} {severity : σ → ℕ} {worse : σ → σ → σ}
    (hworse : ∀ x y, Worst severity x [y] (worse x y)) (first : σ) (states : List σ) :
    Worst severity first states (states.foldl worse first) := by
  induction states generalizing first with
  | nil => exact ⟨List.forall_mem_nil _, le_rfl, .inl rfl⟩
  | cons y states ih =>
    obtain ⟨hbound, hfirst, hreached⟩ := ih (worse first y)
    obtain ⟨hbound', hfirst', hreached'⟩ := hworse first y
    have hy := hbound' y (List.mem_singleton_self y)
    refine ⟨fun x hx => ?_, hfirst'.trans hfirst, ?_⟩
    · obtain rfl | hx := List.mem_cons.mp hx
      · exact hy.trans hfirst
      · exact hbound x hx
    · rw [List.foldl_cons]
      obtain h | h := hreached
      · rw [h]
        obtain h' | h' := hreached'
        · exact .inl h'
        · exact .inr (List.mem_cons.mpr (.inl (List.mem_singleton.mp h')))
      · exact .inr (List.mem_cons_of_mem y h)

namespace Rust

/-! ### The Rust library -/

/-- `ConsolidatedHealth`. -/
structure ConsolidatedHealth where
  /-- The field `state`. -/
  state : HealthState
  /-- The field `contracts`. -/
  contracts : String → Option HealthStatus

/-- How bad a state is. -/
def HealthState.severity : HealthState → ℕ
  | .healthy => 0
  | .degraded => 1
  | .unhealthy => 2

/-- The value of the gauge for a state. -/
def HealthState.gauge : HealthState → ℕ
  | .healthy => 1
  | .degraded => 2
  | .unhealthy => 0

/-- The overall state after one more state. -/
def HealthState.worse (overall state : HealthState) : HealthState :=
  match state with
  | .unhealthy => .unhealthy
  | .degraded => if overall ≠ .unhealthy then .degraded else overall
  | .healthy => overall

namespace ConsolidatedHealth

/-- What the loop of `from_statuses` does with a status. -/
def consolidate (health : ConsolidatedHealth) (status : HealthStatus) : ConsolidatedHealth where
  state := health.state.worse status.state
  contracts := Function.update health.contracts status.contract (some status)

/-- `ConsolidatedHealth::from_statuses`. -/
def fromStatuses (statuses : List HealthStatus) : ConsolidatedHealth :=
  statuses.foldl consolidate ⟨.healthy, fun _ => none⟩

end ConsolidatedHealth

/-- What `is_healthy` of an instrumented store does with the answer of its inner store: the `?`
returns an error before the metrics are written. -/
def instrumentedIsHealthy (c : Contract) (inner : Except String HealthStatus) (m : HealthMetrics) :
    Except String HealthStatus × HealthMetrics :=
  match inner with
  | .error e => (.error e, m)
  | .ok status => (.ok status, (m.observe c).setStatus c status.state.gauge)

/-- `InstrumentedKvStore::is_healthy`. -/
def InstrumentedKvStore.isHealthy := instrumentedIsHealthy .kv

/-- `InstrumentedRelationalStore::is_healthy`. -/
def InstrumentedRelationalStore.isHealthy := instrumentedIsHealthy .relational

/-- `InstrumentedSortedSetStore::is_healthy`. -/
def InstrumentedSortedSetStore.isHealthy := instrumentedIsHealthy .sortedSet

/-- `InstrumentedPubSubStore::is_healthy`. -/
def InstrumentedPubSubStore.isHealthy := instrumentedIsHealthy .pubsub

/-- `InstrumentedBlobStore::is_healthy`. -/
def InstrumentedBlobStore.isHealthy := instrumentedIsHealthy .blob

/-- The `is_healthy` of the store of a contract; the resilient store around it passes it on. -/
def Contract.isHealthy : Contract → Except String HealthStatus → HealthMetrics →
    Except String HealthStatus × HealthMetrics
  | .kv => InstrumentedKvStore.isHealthy
  | .relational => InstrumentedRelationalStore.isHealthy
  | .sortedSet => InstrumentedSortedSetStore.isHealthy
  | .pubsub => InstrumentedPubSubStore.isHealthy
  | .blob => InstrumentedBlobStore.isHealthy

/-- The five are one function. -/
lemma Contract.isHealthy_eq (c : Contract) : c.isHealthy = instrumentedIsHealthy c := by
  cases c <;> rfl

/-- The metrics after the answer of a store. -/
def noteHealth (m : HealthMetrics) (x : Contract × Except String HealthStatus) : HealthMetrics :=
  (x.1.isHealthy x.2 m).2

/-- `unwrap_or_else`, with the contract of the store. -/
def orUnknown (c : Contract) : Except String HealthStatus → HealthStatus
  | .ok status => status
  | .error e => .unhealthy c.label "unknown" e 0

/-- What `GoyStore::health_check` returns, once `join!` has all the answers. -/
def healthCheck (s : Asking Contract (Except String HealthStatus) HealthMetrics) :
    Option ConsolidatedHealth :=
  (contracts.mapM fun c => (s.answer c).map (orUnknown c)).map .fromStatuses

/-- The stores are asked at the same time; a step is the answer of one of them. -/
def healthCheckStep :
    Asking Contract (Except String HealthStatus) HealthMetrics →
      Contract × Except String HealthStatus →
        Option (Asking Contract (Except String HealthStatus) HealthMetrics) :=
  Asking.step noteHealth

end Rust

namespace Go

/-! ### The Go library -/

/-- `ConsolidatedHealth`. -/
structure ConsolidatedHealth where
  /-- The field `State`. -/
  state : HealthState
  /-- The field `Contracts`. -/
  contracts : String → Option HealthStatus

/-- How bad a state is. -/
def HealthState.severity : HealthState → ℕ
  | .healthy => 0
  | .degraded => 1
  | .unhealthy => 2

/-- The value of the gauge for a state. -/
def HealthState.gauge : HealthState → ℕ
  | .healthy => 1
  | .degraded => 2
  | .unhealthy => 0

/-- The consolidated state after one more state. -/
def HealthState.worse (consolidated state : HealthState) : HealthState :=
  if state = .unhealthy then .unhealthy
  else if state = .degraded ∧ consolidated ≠ .unhealthy then .degraded
  else consolidated

/-- What an `IsHealthy` returns: a status, if it is not nil, and the text of an error. -/
abbrev HealthAnswer := Option HealthStatus × Option String

/-- What `IsHealthy` of an instrumented store does with the answer of its inner store. -/
def instrumentedIsHealthy (c : Contract) (inner : HealthAnswer) (m : HealthMetrics) :
    HealthAnswer × HealthMetrics :=
  match inner.1 with
  | some status => (inner, (m.observe c).setStatus c status.state.gauge)
  | none => (inner, m.observe c)

/-- `instrumentedKVStore.IsHealthy`. -/
def instrumentedKVStore.isHealthy := instrumentedIsHealthy .kv

/-- `instrumentedRelationalStore.IsHealthy`. -/
def instrumentedRelationalStore.isHealthy := instrumentedIsHealthy .relational

/-- `instrumentedSortedSetStore.IsHealthy`. -/
def instrumentedSortedSetStore.isHealthy := instrumentedIsHealthy .sortedSet

/-- `instrumentedPubSubStore.IsHealthy`. -/
def instrumentedPubSubStore.isHealthy := instrumentedIsHealthy .pubsub

/-- `instrumentedBlobStore.IsHealthy`. -/
def instrumentedBlobStore.isHealthy := instrumentedIsHealthy .blob

/-- The `IsHealthy` of the store of a contract; the resilient store around it passes it on. -/
def isHealthyOf : Contract → HealthAnswer → HealthMetrics → HealthAnswer × HealthMetrics
  | .kv => instrumentedKVStore.isHealthy
  | .relational => instrumentedRelationalStore.isHealthy
  | .sortedSet => instrumentedSortedSetStore.isHealthy
  | .pubsub => instrumentedPubSubStore.isHealthy
  | .blob => instrumentedBlobStore.isHealthy

/-- The five are one function. -/
lemma isHealthyOf_eq (c : Contract) : isHealthyOf c = instrumentedIsHealthy c := by
  cases c <;> rfl

/-- `checkResult`. -/
structure CheckResult where
  /-- The field `contract`. -/
  contract : String
  /-- The field `status`. -/
  status : Option HealthStatus

/-- What the goroutine of a contract sends: it makes a status of an error without one. -/
def checkResult (x : Contract × HealthAnswer) : CheckResult where
  contract := x.1.label
  status :=
    match x.2 with
    | (none, some e) => some ⟨x.1.label, "unknown", .unhealthy, e, 0⟩
    | (status, _) => status

/-- What the loop of `HealthCheck` does with a result. -/
def ConsolidatedHealth.collect (health : ConsolidatedHealth) (res : CheckResult) :
    ConsolidatedHealth :=
  match res.status with
  | none => health
  | some status =>
    { state := health.state.worse status.state
      contracts := Function.update health.contracts res.contract (some status) }

/-- The goroutines of `HealthCheck`, its channel and its loop. -/
def healthCollector :
    Collector Contract HealthAnswer HealthMetrics CheckResult ConsolidatedHealth where
  note m x := (isHealthyOf x.1 x.2 m).2
  reply := checkResult
  capacity := 5
  collect := ConsolidatedHealth.collect

/-- `defaultStore.HealthCheck` has started its goroutines. -/
def healthCheck (m : HealthMetrics) :
    Gathering Contract HealthAnswer HealthMetrics CheckResult ConsolidatedHealth :=
  .start contracts m ⟨.healthy, fun _ => none⟩

end Go

/-! ### What the health check of the Go library returns -/

namespace Go

/-- Keeping the worse of two states. -/
lemma HealthState.worst_worse (x y : HealthState) :
    Worst HealthState.severity x [y] (x.worse y) := by
  refine ⟨?_, ?_, ?_⟩ <;> cases x <;> cases y <;> decide

/-- The metrics of a contract after its answer, and those of the others. -/
lemma healthCollector_note (m : HealthMetrics) (x : Contract × HealthAnswer) :
    healthCollector.note m x =
      { samples := Function.update m.samples x.1 (m.samples x.1 + 1)
        status := Function.update m.status x.1
          ((x.2.1.map fun status => status.state.gauge).or (m.status x.1)) } := by
  obtain ⟨c, _ | status, err⟩ := x
  · simp [healthCollector, isHealthyOf_eq, instrumentedIsHealthy, HealthMetrics.observe]
  · simp [healthCollector, isHealthyOf_eq, instrumentedIsHealthy, HealthMetrics.observe,
      HealthMetrics.setStatus]

/-- The metrics of different contracts commute. -/
lemma commutes_note : Commutes healthCollector.note := by
  intro m x y hxy
  rw [healthCollector_note, healthCollector_note, healthCollector_note, healthCollector_note]
  simp only [Function.update_of_ne hxy, Function.update_of_ne hxy.symm]
  rw [Function.update_comm hxy, Function.update_comm hxy]

/-- The worse of several states does not depend on their order. -/
lemma HealthState.worse_right_comm (x y z : HealthState) :
    (x.worse y).worse z = (x.worse z).worse y := by
  cases x <;> cases y <;> cases z <;> rfl

/-- The results of different contracts commute. -/
lemma commutes_collect :
    Commutes fun acc x => healthCollector.collect acc (healthCollector.reply x) := by
  intro health x y hxy
  have hlabel : (checkResult x).contract ≠ (checkResult y).contract :=
    fun h => hxy (Contract.label_injective h)
  change (health.collect (checkResult x)).collect (checkResult y) =
    (health.collect (checkResult y)).collect (checkResult x)
  cases hx : (checkResult x).status with
  | none => simp only [ConsolidatedHealth.collect, hx]
  | some status =>
    cases hy : (checkResult y).status with
    | none => simp only [ConsolidatedHealth.collect, hx, hy]
    | some status' =>
      simp only [ConsolidatedHealth.collect, hx, hy]
      rw [HealthState.worse_right_comm, Function.update_comm hlabel]

/-- The report and the metrics are those for what the stores have answered. -/
structure ReportsHealth (answers : Contract → HealthAnswer) (m : HealthMetrics)
    (report : ConsolidatedHealth) (m' : HealthMetrics) : Prop where
  /-- The status of every contract. -/
  status : ∀ c : Contract, report.contracts c.label = (checkResult (c, answers c)).status
  /-- Nothing else. -/
  others : ∀ name, (∀ c : Contract, c.label ≠ name) → report.contracts name = none
  /-- The worst of their states. -/
  worst : Worst HealthState.severity .healthy
    (contracts.filterMap fun c => (checkResult (c, answers c)).status.map HealthStatus.state)
    report.state
  /-- A sample for every contract. -/
  samples : ∀ c, m'.samples c = m.samples c + 1
  /-- The gauge of a contract tells the state of its status, if it has one. -/
  gauge : ∀ c, m'.status c =
    ((answers c).1.map fun status => status.state.gauge).or (m.status c)

/-- The contracts of a report after one more result. -/
lemma ConsolidatedHealth.collect_contracts (health : ConsolidatedHealth) (res : CheckResult)
    (name : String) : (health.collect res).contracts name =
      if res.contract = name then res.status.or (health.contracts name)
      else health.contracts name := by
  obtain ⟨contract, _ | status⟩ := res
  · simp [collect]
  · simp only [collect, Function.update_apply, eq_comm (a := name)]
    rfl

/-- The contract of a result. -/
@[simp] lemma checkResult_contract (x : Contract × HealthAnswer) :
    (checkResult x).contract = x.1.label := rfl

/-- The state of a report after several results. -/
lemma ConsolidatedHealth.foldl_state (results : List CheckResult) (health : ConsolidatedHealth) :
    (results.foldl collect health).state =
      (results.filterMap fun res => res.status.map HealthStatus.state).foldl HealthState.worse
        health.state := by
  induction results generalizing health with
  | nil => rfl
  | cons res results ih =>
    rw [List.foldl_cons, ih]
    obtain ⟨contract, _ | status⟩ := res
    · rfl
    · rfl

/-- A collector that has folded the answers of all stores gives the report. -/
lemma reports_inOrder (answers : Contract → HealthAnswer) (m : HealthMetrics) :
    ReportsHealth answers m
      ((inOrder contracts answers).foldl
        (fun acc x => healthCollector.collect acc (healthCollector.reply x))
        ⟨.healthy, fun _ => none⟩)
      ((inOrder contracts answers).foldl healthCollector.note m) := by
  refine ⟨fun c => ?_, fun name hname => ?_, ?_, fun c => ?_, fun c => ?_⟩
  · cases c <;>
      simp [inOrder, contracts, healthCollector, ConsolidatedHealth.collect_contracts,
        Contract.label]
  · have hne : ∀ c : Contract, ¬ c.label = name := hname
    simp [inOrder, contracts, healthCollector, ConsolidatedHealth.collect_contracts,
      hne]
  · have hstate := ConsolidatedHealth.foldl_state
      ((inOrder contracts answers).map checkResult) ⟨.healthy, fun _ => none⟩
    rw [List.foldl_map, List.filterMap_map, inOrder, List.filterMap_map] at hstate
    have hworst := worst_foldl HealthState.worst_worse .healthy
      (contracts.filterMap fun c => (checkResult (c, answers c)).status.map HealthStatus.state)
    exact hstate ▸ hworst
  · cases c <;> simp [inOrder, contracts, healthCollector_note]
  · cases c <;> simp [inOrder, contracts, healthCollector_note]

/-- What holds at any time of a health check. -/
structure HealthCheckSound (m : HealthMetrics)
    (s : Gathering Contract HealthAnswer HealthMetrics CheckResult ConsolidatedHealth) : Prop where
  /-- When it has returned, all stores have answered, and it has returned their report. -/
  returned : s.left = 0 → ∃ answers : Contract → HealthAnswer,
    (∀ c, s.asking.answer c = some (answers c)) ∧ ReportsHealth answers m s.result s.asking.shared
  /-- Until then a store has not answered or there is a step to make. -/
  waiting : s.left ≠ 0 → (∃ c, s.asking.answer c = none) ∨
    (∃ c, (s.step healthCollector (.send c)).isSome) ∨ (s.step healthCollector .receive).isSome
  /-- A goroutine whose store has answered is never blocked. -/
  unblocked : ∀ c, (s.asking.answer c).isSome → s.sent c = false →
    (s.step healthCollector (.send c)).isSome
  /-- Every step is one of those to come. -/
  nearer : ∀ l s', s.step healthCollector l = some s' →
    Gathering.toCome contracts s = Gathering.toCome contracts s' + 1

/-- In every order of the answers, `HealthCheck` returns the status of every contract and the worst
of their states when all stores have answered, and no goroutine stays blocked. -/
theorem goHealthCheck (m : HealthMetrics) (ls : List (GatheringLabel Contract HealthAnswer)) :
    Always (Gathering.step healthCollector) (HealthCheckSound m) (healthCheck m) ls := by
  intro pre s _ hs
  obtain ⟨received, pending, hsound⟩ := Gathering.sound_of_runFrom healthCollector contracts m _ hs
  refine ⟨fun hleft => ?_, fun hleft => ?_, fun c => ?_, fun l s' hstep => ?_⟩
  · obtain ⟨answers, hanswers, hresult, hshared⟩ := hsound.result_eq nodup_contracts mem_contracts
      commutes_note commutes_collect hleft
    refine ⟨answers, hanswers, ?_⟩
    rw [hresult, hshared]
    exact reports_inOrder answers m
  · exact hsound.exists_step nodup_contracts mem_contracts le_rfl hleft
  · exact hsound.isSome_send mem_contracts le_rfl
  · exact Gathering.toCome_of_step nodup_contracts mem_contracts hstep

end Go

/-! ### What the stores answer -/

namespace Rust

/-- How the ping of a server ends. -/
inductive PingEnd where
  /-- The server answers. -/
  | answered
  /-- The driver returns an error with this text. -/
  | failed (e : String)
  /-- The time runs out. -/
  | timedOut
  deriving DecidableEq, Repr

/-- The status for a ping that takes `latency` milliseconds. -/
def pingStatus (contract backend limit : String) (latency : ℕ) : PingEnd → HealthStatus
  | .answered => .healthy contract backend latency
  | .failed e => .unhealthy contract backend e latency
  | .timedOut => .unhealthy contract backend ("health check timed out (" ++ limit ++ ")") latency

/-- `RedisKvStore::is_healthy`. -/
def RedisKvStore.isHealthy (latency : ℕ) (e : PingEnd) : Except String HealthStatus :=
  .ok (pingStatus "kv" "redis" "2s" latency e)

/-- `PostgresRelationalStore::is_healthy`. -/
def PostgresRelationalStore.isHealthy (latency : ℕ) (e : PingEnd) : Except String HealthStatus :=
  .ok (pingStatus "relational" "postgres" "3s" latency e)

/-- `RedisSortedSetStore::is_healthy`. -/
def RedisSortedSetStore.isHealthy (latency : ℕ) (e : PingEnd) : Except String HealthStatus :=
  .ok (pingStatus "sorted_set" "redis" "2s" latency e)

/-- `RedisPubSubStore::is_healthy`. -/
def RedisPubSubStore.isHealthy (latency : ℕ) (e : PingEnd) : Except String HealthStatus :=
  .ok (pingStatus "pubsub" "redis" "2s" latency e)

/-- `S3BlobStore::is_healthy`. -/
def S3BlobStore.isHealthy (latency : ℕ) (e : PingEnd) : Except String HealthStatus :=
  .ok (pingStatus "blob" "s3" "3s" latency e)

/-- The `is_healthy` of the in-memory store of a contract. -/
def memoryIsHealthy (c : Contract) : Except String HealthStatus := .ok (.healthy c.label "memory" 0)

/-- A state in the Go library. -/
def HealthState.toGo : HealthState → Go.HealthState
  | .healthy => .healthy
  | .degraded => .degraded
  | .unhealthy => .unhealthy

end Rust

namespace Go

/-- What `IsHealthy` returns for a ping that takes `latency` milliseconds; `err` is the text of its
error. -/
def pingAnswer (contract backend : String) (latency : ℤ) : Option String → HealthAnswer
  | some err => (some ⟨contract, backend, .unhealthy, err, latency⟩, none)
  | none => (some ⟨contract, backend, .healthy, "", latency⟩, none)

/-- `RedisKVStore.IsHealthy`. -/
def RedisKVStore.isHealthy (latency : ℤ) (err : Option String) : HealthAnswer :=
  pingAnswer "kv" "redis" latency err

/-- `PostgresRelationalStore.IsHealthy`. -/
def PostgresRelationalStore.isHealthy (latency : ℤ) (err : Option String) : HealthAnswer :=
  pingAnswer "relational" "postgres" latency err

/-- `RedisSortedSetStore.IsHealthy`. -/
def RedisSortedSetStore.isHealthy (latency : ℤ) (err : Option String) : HealthAnswer :=
  pingAnswer "sorted_set" "redis" latency err

/-- `RedisPubSubStore.IsHealthy`. -/
def RedisPubSubStore.isHealthy (latency : ℤ) (err : Option String) : HealthAnswer :=
  pingAnswer "pubsub" "redis" latency err

/-- `S3BlobStore.IsHealthy`. -/
def S3BlobStore.isHealthy (latency : ℤ) (err : Option String) : HealthAnswer :=
  pingAnswer "blob" "s3" latency err

/-- The `IsHealthy` of the in-memory store of a contract. -/
def memoryIsHealthy (c : Contract) : HealthAnswer :=
  (some ⟨c.label, "memory", .healthy, "", 0⟩, none)

end Go

/-- The statuses name the same contract, backend and state. -/
def SameStatus (status : Rust.HealthStatus) (status' : Go.HealthStatus) : Prop :=
  status'.contract = status.contract ∧ status'.backend = status.backend ∧
    status'.state = status.state.toGo

/-- The stores of a contract answer alike: with the same status of this contract, or both with an
error. -/
def AnswerAlike (c : Contract) : Except String Rust.HealthStatus → Go.HealthAnswer → Prop
  | .ok status, (some status', _) => status.contract = c.label ∧ SameStatus status status'
  | .error _, (none, some _) => True
  | _, _ => False

/-- Servers whose pings both succeed or both fail. -/
lemma answerAlike_ping (c : Contract) (backend limit : String) (latency : ℕ) (latency' : ℤ)
    {e : Rust.PingEnd} {err : Option String} (h : e = .answered ↔ err = none) :
    AnswerAlike c (.ok (Rust.pingStatus c.label backend limit latency e))
      (Go.pingAnswer c.label backend latency' err) := by
  cases err with
  | none =>
    obtain rfl := h.mpr rfl
    exact ⟨rfl, rfl, rfl, rfl⟩
  | some err =>
    cases e with
    | answered => cases h.mp rfl
    | failed e => exact ⟨rfl, rfl, rfl, rfl⟩
    | timedOut => exact ⟨rfl, rfl, rfl, rfl⟩

/-- The in-memory stores. -/
lemma answerAlike_memory (c : Contract) :
    AnswerAlike c (Rust.memoryIsHealthy c) (Go.memoryIsHealthy c) :=
  ⟨rfl, rfl, rfl, rfl⟩

/-! ### The two libraries report the same -/

/-- The reports have the same state, and the same contracts with the same statuses. -/
structure SameReport (report : Rust.ConsolidatedHealth) (report' : Go.ConsolidatedHealth) :
    Prop where
  /-- The overall state. -/
  state : report'.state = report.state.toGo
  /-- The contracts. -/
  contracts : ∀ name, Option.Rel SameStatus (report.contracts name) (report'.contracts name)

/-- The worse of two states, in the Go library. -/
lemma Rust.HealthState.toGo_worse (x y : Rust.HealthState) :
    (x.worse y).toGo = x.toGo.worse y.toGo := by
  cases x <;> cases y <;> rfl

/-- One more store that answers alike. -/
lemma SameReport.collect {report : Rust.ConsolidatedHealth} {report' : Go.ConsolidatedHealth}
    (h : SameReport report report') {c : Contract} {r : Except String Rust.HealthStatus}
    {g : Go.HealthAnswer} (halike : AnswerAlike c r g) :
    SameReport (report.consolidate (Rust.orUnknown c r))
      (report'.collect (Go.checkResult (c, g))) := by
  have hboth : ∃ status', (Go.checkResult (c, g)).status = some status' ∧
      (Rust.orUnknown c r).contract = c.label ∧ SameStatus (Rust.orUnknown c r) status' := by
    obtain ⟨_ | status', err⟩ := g
    · cases r with
      | ok status => cases err <;> exact halike.elim
      | error e =>
        cases err with
        | none => exact halike.elim
        | some err => exact ⟨_, rfl, rfl, rfl, rfl, rfl⟩
    · cases r with
      | ok status => exact ⟨status', by cases err <;> rfl, halike⟩
      | error e => cases err <;> exact halike.elim
  obtain ⟨status', hstatus, hcontract, hsame⟩ := hboth
  refine ⟨?_, fun name => ?_⟩
  · rw [Go.ConsolidatedHealth.collect, hstatus, Rust.ConsolidatedHealth.consolidate]
    change report'.state.worse status'.state = _
    rw [h.state, hsame.2.2, Rust.HealthState.toGo_worse]
  · rw [Go.ConsolidatedHealth.collect_contracts, hstatus, Rust.ConsolidatedHealth.consolidate]
    change Option.Rel SameStatus (Function.update report.contracts _ _ name) _
    rw [hcontract, Function.update_apply, Go.checkResult_contract]
    by_cases hname : c.label = name
    · rw [if_pos hname, if_pos hname.symm]
      exact .some hsame
    · rw [if_neg hname, if_neg fun h => hname h.symm]
      exact h.contracts name

namespace Rust

/-- What a health check that has returned has returned. -/
lemma healthCheck_eq_some {s : Asking Contract (Except String HealthStatus) HealthMetrics}
    {report : ConsolidatedHealth} (h : healthCheck s = some report) :
    ∃ results : Contract → Except String HealthStatus, (∀ c, s.answer c = some (results c)) ∧
      report = .fromStatuses (contracts.map fun c => orUnknown c (results c)) := by
  have hsome : ∀ c, ∃ r, s.answer c = some r := by
    intro c
    by_contra hno
    have hnone : s.answer c = none := by
      cases hc : s.answer c with
      | none => rfl
      | some r => exact absurd ⟨r, hc⟩ hno
    rw [healthCheck] at h
    cases c <;> simp [contracts, hnone] at h
  choose results hresults using hsome
  refine ⟨results, hresults, ?_⟩
  rw [healthCheck] at h
  simp only [hresults, Option.map_some] at h
  exact (Option.some.inj h).symm

/-- The metrics after an answer. -/
lemma noteHealth_eq (m : HealthMetrics) (x : Contract × Except String HealthStatus) :
    noteHealth m x =
      { samples := Function.update m.samples x.1
          (m.samples x.1 + if x.2.toOption.isSome then 1 else 0)
        status := Function.update m.status x.1
          ((x.2.toOption.map fun status => status.state.gauge).or (m.status x.1)) } := by
  obtain ⟨c, e | status⟩ := x
  · simp [noteHealth, Contract.isHealthy_eq, instrumentedIsHealthy, Except.toOption]
  · simp [noteHealth, Contract.isHealthy_eq, instrumentedIsHealthy, HealthMetrics.observe,
      HealthMetrics.setStatus, Except.toOption]

/-- The metrics of different contracts commute. -/
lemma commutes_noteHealth : Commutes noteHealth := by
  intro m x y hxy
  rw [noteHealth_eq, noteHealth_eq, noteHealth_eq, noteHealth_eq]
  simp only [Function.update_of_ne hxy, Function.update_of_ne hxy.symm]
  rw [Function.update_comm hxy, Function.update_comm hxy]

/-- The gauges when all stores have answered. -/
lemma gauge_of_runFrom {m : HealthMetrics} {xs : List (Contract × Except String HealthStatus)}
    {s : Asking Contract (Except String HealthStatus) HealthMetrics}
    (h : runFrom healthCheckStep (.start m) xs = some s)
    {results : Contract → Except String HealthStatus}
    (hresults : ∀ c, s.answer c = some (results c)) (c : Contract) : s.shared.status c =
      ((results c).toOption.map fun status => status.state.gauge).or (m.status c) := by
  have hnoted : ∃ answered, s.Noted noteHealth m answered := by
    refine invariant_of_runFrom
      (I := fun s : Asking Contract (Except String HealthStatus) HealthMetrics =>
        ∃ answered, s.Noted noteHealth m answered) ?_ ⟨[], .start noteHealth m⟩ h
    rintro s x s' ⟨answered, hnoted⟩ hstep
    exact ⟨_, hnoted.step hstep⟩
  obtain ⟨answered, hnoted⟩ := hnoted
  rw [hnoted.shared_eq commutes_noteHealth nodup_contracts mem_contracts hresults]
  cases c <;> simp [inOrder, contracts, noteHealth_eq]

end Rust

/-- Stores that answer alike give their gauges the same value, or both none. -/
lemma AnswerAlike.gauge_eq {c : Contract} {r : Except String Rust.HealthStatus}
    {g : Go.HealthAnswer} (h : AnswerAlike c r g) :
    (r.toOption.map fun status => status.state.gauge) =
      g.1.map fun status => status.state.gauge := by
  obtain ⟨_ | status', err⟩ := g
  · cases r with
    | ok status => cases err <;> exact h.elim
    | error e => rfl
  · cases r with
    | ok status =>
      have hgauge : status'.state.gauge = status.state.gauge := by
        rw [h.2.2.2]
        cases status.state <;> rfl
      exact congrArg some hgauge.symm
    | error e => cases err <;> exact h.elim

/-- Stores that answer alike, in every order: `health_check` and `HealthCheck` return the same
report and leave the same gauges. -/
theorem healthChecks_agree {m m' : HealthMetrics}
    {xs : List (Contract × Except String Rust.HealthStatus)}
    {ls : List (GatheringLabel Contract Go.HealthAnswer)}
    {s : Asking Contract (Except String Rust.HealthStatus) HealthMetrics}
    {s' : Gathering Contract Go.HealthAnswer HealthMetrics Go.CheckResult Go.ConsolidatedHealth}
    {report : Rust.ConsolidatedHealth} (h : runFrom Rust.healthCheckStep (.start m) xs = some s)
    (hreturned : Rust.healthCheck s = some report)
    (h' : runFrom (Gathering.step Go.healthCollector) (Go.healthCheck m') ls = some s')
    (hreturned' : s'.left = 0)
    (halike : ∀ c r g, s.answer c = some r → s'.asking.answer c = some g → AnswerAlike c r g)
    (hgauges : m.status = m'.status) :
    SameReport report s'.result ∧ s.shared.status = s'.asking.shared.status := by
  obtain ⟨results, hresults, rfl⟩ := Rust.healthCheck_eq_some hreturned
  obtain ⟨received, pending, hsound⟩ :=
    Gathering.sound_of_runFrom Go.healthCollector contracts m' _ h'
  obtain ⟨answers, hanswers, hresult, hshared⟩ := hsound.result_eq nodup_contracts mem_contracts
    Go.commutes_note Go.commutes_collect hreturned'
  have hboth : ∀ c, AnswerAlike c (results c) (answers c) := fun c =>
    halike c _ _ (hresults c) (hanswers c)
  refine ⟨?_, funext fun c => ?_⟩
  · rw [hresult, Rust.ConsolidatedHealth.fromStatuses, inOrder, List.foldl_map, List.foldl_map]
    refine List.foldl_rel ⟨rfl, fun _ => .none⟩ fun c _ report report' hsame => ?_
    exact hsame.collect (hboth c)
  · have hreports := Go.reports_inOrder answers m'
    rw [Rust.gauge_of_runFrom h hresults, hshared, hreports.gauge, ← hgauges]
    rw [(hboth c).gauge_eq]

/-- The pings of the sorted sets' server run into the time limit; the other stores are in memory,
but for the blobs on a file system. -/
def Rust.oneFailing : List (Contract × Except String Rust.HealthStatus) :=
  [(.blob, .ok (.healthy "blob" "local" 3)), (.kv, Rust.memoryIsHealthy .kv),
    (.pubsub, Rust.memoryIsHealthy .pubsub),
    (.sortedSet, Rust.RedisSortedSetStore.isHealthy 2000 .timedOut), (.relational, .error "closed")]

/-- The same stores, which answer in another order. -/
def Go.oneFailing : List (GatheringLabel Contract Go.HealthAnswer) :=
  [.answer (.relational, (none, some "closed")), .send .relational,
    .answer (.kv, Go.memoryIsHealthy .kv), .receive, .send .kv,
    .answer (.blob, (some ⟨"blob", "local", .healthy, "", 2⟩, none)),
    .answer (.pubsub, Go.memoryIsHealthy .pubsub), .send .pubsub, .send .blob, .receive, .receive,
    .answer (.sortedSet, Go.RedisSortedSetStore.isHealthy 2000 (some "context deadline exceeded")),
    .receive, .send .sortedSet, .receive]

/-- No health check has been made. -/
def HealthMetrics.new : HealthMetrics := ⟨fun _ => 0, fun _ => none⟩

/-- The stores of which one fails. -/
theorem healthChecks_agree_oneFailing : ∃ s report s',
    runFrom Rust.healthCheckStep (.start .new) Rust.oneFailing = some s ∧
      Rust.healthCheck s = some report ∧
      runFrom (Gathering.step Go.healthCollector) (Go.healthCheck .new) Go.oneFailing = some s' ∧
      SameReport report s'.result ∧ s.shared.status = s'.asking.shared.status := by
  refine ⟨_, _, _, rfl, rfl, rfl, @healthChecks_agree .new .new Rust.oneFailing Go.oneFailing
    _ _ _ rfl rfl rfl rfl ?_ rfl⟩
  intro c r g hr hg
  cases c
  · cases hr
    cases hg
    exact answerAlike_memory .kv
  · cases hr
    cases hg
    exact trivial
  · cases hr
    cases hg
    have hends : Rust.PingEnd.timedOut = .answered ↔ some "context deadline exceeded" = none := by
      decide
    exact answerAlike_ping .sortedSet "redis" "2s" 2000 2000 hends
  · cases hr
    cases hg
    exact ⟨rfl, rfl, rfl, rfl⟩
  · cases hr
    cases hg
    exact answerAlike_memory .pubsub

end GoyStore
