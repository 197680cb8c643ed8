import GoyStore.Resilience.CircuitBreaker

/-!
# The executors of the two libraries

`ResilientExecutor::execute` and `ExecuteWithResilience` check the breaker once, run the operation,
report its outcome to the breaker, publish the state of the breaker as a metric, and after a
failure sleep and run the operation again, up to a limit.  The two differ in the types of their
counters, in the test that ends the loop, in the error they return and in whether a caller can
cancel the sleep.

`ExecutorModel` lists these differences, and `Lang.executor` gives the two instances.  The runs of
many calls are in `GoyStore.Resilience.ExecutorRuns`.
-/

namespace GoyStore

/-- What the runs of calls use of an executor. -/
structure ExecutorModel extends LawfulBreaker where
  /-- An executor, without its breaker. -/
  Executor : Type
  /-- The label `contract` of its metrics. -/
  contract : Executor → String
  /-- The label `backend` of its metrics. -/
  backend : Executor → String
  /-- Whether the executor publishes metrics. -/
  hasMetrics : Executor → Bool
  /-- The breaker that the executor is created with. -/
  newBreaker : Executor → Cb
  /-- The type of the variable `attempt`. -/
  Counter : Type
  /-- The first attempt; `none` when the loop is not entered. -/
  firstAttempt : Executor → Option Counter
  /-- Whether a failed attempt is followed by a sleep. -/
  retries : Executor → Counter → Bool
  /-- The attempt after the one given; `none` when the loop ends. -/
  nextAttempt : Executor → Counter → Option Counter
  /-- The error of a call whose loop has ended, from the name of the operation and the error of
  the last attempt. -/
  finalError : Executor → String → Option String → String
  /-- Whether a caller can cancel the sleep. -/
  cancellable : Bool

/-! ### The Rust executor -/

namespace Rust

/-- `ResilienceConfig`. -/
structure ResilienceConfig where
  /-- Number of retries after the first attempt. -/
  maxRetries : UInt32
  /-- The first delay, in milliseconds. -/
  baseBackoffMs : UInt64
  /-- The threshold of the breaker. -/
  circuitBreakerThreshold : UInt32
  /-- The reset timeout of the breaker, in seconds. -/
  circuitBreakerResetSeconds : UInt64
  /-- The timeout of one attempt, in seconds. -/
  operationTimeoutSeconds : UInt64
  deriving DecidableEq, Repr

/-- `ResilienceConfig::default`. -/
def ResilienceConfig.default : ResilienceConfig where
  maxRetries := 3
  baseBackoffMs := 100
  circuitBreakerThreshold := 5
  circuitBreakerResetSeconds := 30
  operationTimeoutSeconds := 5

/-- `ResilientExecutor`, without its breaker and the registry of its metrics. -/
structure ResilientExecutor where
  /-- The configuration. -/
  config : ResilienceConfig
  /-- The label `contract`. -/
  contract : String
  /-- The label `backend`. -/
  backend : String
  deriving DecidableEq, Repr

namespace ResilientExecutor

/-- The breaker that `ResilientExecutor::new` creates. -/
def newBreaker (ex : ResilientExecutor) : CircuitBreaker :=
  .new ex.config.circuitBreakerThreshold
    (ex.config.circuitBreakerResetSeconds.toNat * 1000000000)

/-- The test `attempt > max_retries`. -/
def exhausted (ex : ResilientExecutor) (attempt : UInt32) : Bool :=
  ex.config.maxRetries < attempt

/-- The error that an attempt gets when its timeout elapses first. -/
def timedOut : String := "operation timed out"

end ResilientExecutor

/-- The Rust executor; `attempt` is a `u32` that wraps around. -/
abbrev executorModel : ExecutorModel where
  toLawfulBreaker := breaker
  Executor := ResilientExecutor
  contract := ResilientExecutor.contract
  backend := ResilientExecutor.backend
  hasMetrics _ := true
  newBreaker := ResilientExecutor.newBreaker
  Counter := UInt32
  firstAttempt _ := some 1
  retries ex attempt := !ex.exhausted attempt
  nextAttempt ex attempt := if ex.exhausted attempt then none else some (attempt + 1)
  -- `return Err(err)`; the loop always runs once, so there is an error
  finalError _ _ err := err.getD ""
  cancellable := false

end Rust

/-! ### The Go executor -/

namespace Go

/-- `ResilienceConfig`. -/
structure ResilienceConfig where
  /-- Number of retries after the first attempt. -/
  maxRetries : Int64
  /-- The first delay, in milliseconds. -/
  baseBackoffMS : Int64
  /-- The threshold of the breaker. -/
  circuitBreakerThreshold : Int64
  /-- The reset timeout of the breaker, in seconds. -/
  circuitBreakerResetSeconds : Int64
  /-- The timeout of one attempt, in seconds. -/
  operationTimeoutSeconds : Int64
  deriving DecidableEq, Repr

/-- `ResilientExecutor`, without its breaker. -/
structure ResilientExecutor where
  /-- The configuration. -/
  cfg : ResilienceConfig
  /-- Whether `metrics` is not nil. -/
  metrics : Bool
  /-- The label `contract`. -/
  contract : String
  /-- The label `backend`. -/
  backend : String
  deriving DecidableEq, Repr

namespace ResilientExecutor

/-- A field of the configuration, or its default when it is not positive. -/
def positiveOr (default field : Int64) : Int64 := if field ≤ 0 then default else field

/-- `NewResilientExecutor`. -/
def new (cfg : ResilienceConfig) (metrics : Bool) (contract backend : String) :
    ResilientExecutor where
  cfg :=
    { maxRetries := positiveOr 3 cfg.maxRetries
      baseBackoffMS := positiveOr 100 cfg.baseBackoffMS
      circuitBreakerThreshold := positiveOr 5 cfg.circuitBreakerThreshold
      circuitBreakerResetSeconds := positiveOr 30 cfg.circuitBreakerResetSeconds
      operationTimeoutSeconds := positiveOr 5 cfg.operationTimeoutSeconds }
  metrics := metrics
  contract := contract
  backend := backend

/-- The breaker that `NewResilientExecutor` creates. -/
def newBreaker (ex : ResilientExecutor) : CircuitBreaker :=
  .new ex.cfg.circuitBreakerThreshold (ex.cfg.circuitBreakerResetSeconds * 1000000000)

/-- The condition `attempt <= maxRetries+1` of the loop. -/
def continues (ex : ResilientExecutor) (attempt : Int64) : Bool :=
  attempt ≤ ex.cfg.maxRetries + 1

/-- The error after the loop. -/
def failedAfter (ex : ResilientExecutor) (opName : String) (lastErr : Option String) : String :=
  "operation " ++ opName ++ " failed after " ++ toString ex.cfg.maxRetries ++ " retries: " ++
    lastErr.getD "%!w(<nil>)"

end ResilientExecutor

/-- The Go executor; `attempt` is an `int` that wraps around. -/
abbrev executorModel : ExecutorModel where
  toLawfulBreaker := breaker
  Executor := ResilientExecutor
  contract := ResilientExecutor.contract
  backend := ResilientExecutor.backend
  hasMetrics := ResilientExecutor.metrics
  newBreaker := ResilientExecutor.newBreaker
  Counter := Int64
  firstAttempt ex := if ex.continues 1 then some 1 else none
  retries ex attempt := attempt ≤ ex.cfg.maxRetries
  nextAttempt ex attempt := if ex.continues (attempt + 1) then some (attempt + 1) else none
  finalError := ResilientExecutor.failedAfter
  cancellable := true

end Go

/-- The executor of a library. -/
def Lang.executor : Lang → ExecutorModel
  | .rust => Rust.executorModel
  | .go => Go.executorModel

end GoyStore
