import GoyStore.Resilience.BreakerHistory
import Mathlib.Data.Nat.Find

/-!
# What one call of an executor does

`ResilientExecutor::execute` and `ExecuteWithResilience` run without a bound in sight: the loop ends
with the first success or when the counter of the attempts passes the limit.  Here the outcomes of
the attempts are an infinite script, and the call runs with fuel.

`execute_accounting` says what a Rust call does when nothing overflows: how often it invokes the
operation, what it returns, how often it increments `retries_total` and what it leaves in the
breaker.  The loops of the two libraries are one definition over `ScriptedExecutor`.
-/

namespace GoyStore

/-! ### Scripts and reports -/

/-- How an attempt ends. -/
inductive AttemptOutcome (α : Type) where
  /-- The operation returns a value. -/
  | success (value : α)
  /-- The operation returns an error. -/
  | error (err : String)
  /-- The timeout elapses first. -/
  | timeout

/-- A call with the script of its attempts, which are numbered from 0. -/
structure ScriptedCall (α : Type) where
  /-- The argument `op_name`. -/
  opName : String
  /-- The time of the admission check. -/
  start : ℕ
  /-- How each attempt ends. -/
  outcome : ℕ → AttemptOutcome α
  /-- The time at which each attempt is reported. -/
  ended : ℕ → ℕ

/-- How a call ends. -/
inductive CallEnd (α : Type) where
  /-- It returns the value of an attempt. -/
  | returned (value : α)
  /-- The admission check refuses it. -/
  | refused (err : String)
  /-- It returns an error after its last attempt. -/
  | failed (err : String)
  /-- An arithmetic operation overflows; what happens then is left out. -/
  | overflowed
  deriving DecidableEq

/-- What a call does. -/
structure Report (Cb α : Type) where
  /-- How it ends. -/
  ending : CallEnd α
  /-- The number of invocations of the operation. -/
  invocations : ℕ
  /-- The labels with which `retries_total` is incremented, one entry for each increment. -/
  retries : List (String × String × String)
  /-- The states of the breaker after each call of one of its methods. -/
  states : List CircuitState
  /-- The breaker. -/
  breaker : Cb

/-- What the loop of an executor needs besides the executor. -/
structure ScriptedExecutor extends ExecutorModel where
  /-- The counter of the breaker. -/
  counting : Counting toLawfulBreaker
  /-- The error of an attempt that times out. -/
  timedOut : String
  /-- The delay after a failed attempt overflows. -/
  backoffOverflows : Counter → Bool

namespace ScriptedExecutor

variable (X : ScriptedExecutor) {α : Type}

/-- The error of an attempt; `none` when it succeeds. -/
def errorOf : AttemptOutcome α → Option String
  | .success _ => none
  | .error err => some err
  | .timeout => some X.timedOut

/-- The labels of `retries_total`. -/
def retryLabels (ex : X.Executor) (call : ScriptedCall α) : String × String × String :=
  (X.contract ex, call.opName, X.backend ex)

/-- The increments of `retries_total` after a failed attempt. -/
def retryIncrements (ex : X.Executor) (call : ScriptedCall α) (attempt : X.Counter) :
    List (String × String × String) :=
  if X.hasMetrics ex && X.retries ex attempt then [X.retryLabels ex call] else []

/-- The loop of a call from an attempt on, which is number `n` of the script. -/
def loop (ex : X.Executor) (call : ScriptedCall α) :
    ℕ → X.Counter → ℕ → X.Cb → Option (Report X.Cb α)
  | 0, _, _, _ => none
  | fuel + 1, attempt, n, b =>
    match call.outcome n with
    | .success value =>
      some ⟨.returned value, 1, [], [X.state (X.onSuccess b)], X.onSuccess b⟩
    | outcome =>
      if X.counting.counter b < X.counting.capacity then
        let b' := X.counting.onFailure (call.ended n) b
        let incs := X.retryIncrements ex call attempt
        if X.retries ex attempt && X.backoffOverflows attempt then
          some ⟨.overflowed, 1, incs, [X.state b'], b'⟩
        else
          match X.nextAttempt ex attempt with
          | none => some ⟨.failed (X.finalError ex call.opName (X.errorOf outcome)), 1, incs,
              [X.state b'], b'⟩
          | some next => (loop ex call fuel next (n + 1) b').map fun r =>
              ⟨r.ending, r.invocations + 1, incs ++ r.retries, X.state b' :: r.states, r.breaker⟩
      else
        -- the counter of the failures overflows
        some ⟨.overflowed, 1, [], [], b⟩

/-- A call. -/
def execute (ex : X.Executor) (fuel : ℕ) (call : ScriptedCall α) (b : X.Cb) :
    Option (Report X.Cb α) :=
  match X.canExecute call.start b with
  | (.error err, b') => some ⟨.refused err, 0, [], [X.state b'], b'⟩
  | (.ok (), b') =>
    match X.firstAttempt ex with
    | none => some ⟨.failed (X.finalError ex call.opName none), 0, [], [X.state b'], b'⟩
    | some attempt => (X.loop ex call fuel attempt 0 b').map fun r =>
        { r with states := X.state b' :: r.states }

/-! ### The attempts that a loop can make -/

/-- The loop makes one attempt and up to `N` more.  This is known of the attempts up to number
`bound`, and no further attempt is made without an overflow. -/
structure Attempts (ex : X.Executor) (N : ℕ) where
  /-- The value of the variable `attempt` in each attempt, from 1 on. -/
  attemptAt : ℕ → X.Counter
  /-- The last attempt of which this is known. -/
  bound : ℕ
  /-- The loop is entered. -/
  bound_pos : 1 ≤ bound
  /-- The first attempt. -/
  first : X.firstAttempt ex = some (attemptAt 1)
  /-- The first `N` attempts are retried when they fail. -/
  retries_eq : ∀ k, 1 ≤ k → k ≤ bound → X.retries ex (attemptAt k) = decide (k ≤ N)
  /-- Their numbers grow by one. -/
  next_eq : ∀ k, 1 ≤ k → k ≤ bound →
    X.nextAttempt ex (attemptAt k) = if k ≤ N then some (attemptAt (k + 1)) else none
  /-- No attempt comes after the bound. -/
  stops : N < bound ∨ X.backoffOverflows (attemptAt bound) = true

variable {X}

/-- The attempt fails. -/
def Fails (X : ScriptedExecutor) (outcome : AttemptOutcome α) : Prop := X.errorOf outcome ≠ none

/-- The breaker after some failed attempts of a script. -/
def afterFailures (X : ScriptedExecutor) (call : ScriptedCall α) (n : ℕ) :
    ℕ → X.Cb → X.Cb
  | 0, b => b
  | j + 1, b => afterFailures X call (n + 1) j (X.counting.onFailure (call.ended n) b)

/-- The states of the breaker after each of some failed attempts of a script. -/
def failureStates (X : ScriptedExecutor) (call : ScriptedCall α) (n : ℕ) :
    ℕ → X.Cb → List CircuitState
  | 0, _ => []
  | j + 1, b => X.state (X.counting.onFailure (call.ended n) b) ::
      failureStates X call (n + 1) j (X.counting.onFailure (call.ended n) b)

variable {ex : X.Executor} {call : ScriptedCall α} {N : ℕ}

/-- A refused call. -/
lemma execute_of_refused {fuel : ℕ} {b b' : X.Cb} {err : String}
    (h : X.canExecute call.start b = (.error err, b')) :
    X.execute ex fuel call b = some ⟨.refused err, 0, [], [X.state b'], b'⟩ := by
  rw [execute, h]

/-- An admitted call runs its loop. -/
lemma execute_of_admitted (A : X.Attempts ex N) {fuel : ℕ} {b b' : X.Cb}
    (h : X.canExecute call.start b = (.ok (), b')) :
    X.execute ex fuel call b = (X.loop ex call fuel (A.attemptAt 1) 0 b').map fun r =>
      { r with states := X.state b' :: r.states } := by
  rw [execute, h]
  simp only [A.first]

/-- An attempt that does not fail succeeds. -/
lemma exists_of_not_fails {outcome : AttemptOutcome α} (h : ¬ Fails X outcome) :
    ∃ value, outcome = .success value := by
  cases outcome with
  | success value => exact ⟨value, rfl⟩
  | _ => exact absurd (Option.some_ne_none _) h

/-- What the loop does with an attempt that fails. -/
lemma loop_of_fails {fuel n : ℕ} {attempt : X.Counter} {b : X.Cb}
    (h : Fails X (call.outcome n)) :
    X.loop ex call (fuel + 1) attempt n b =
      if X.counting.counter b < X.counting.capacity then
        if X.retries ex attempt && X.backoffOverflows attempt then
          some ⟨.overflowed, 1, X.retryIncrements ex call attempt,
            [X.state (X.counting.onFailure (call.ended n) b)],
            X.counting.onFailure (call.ended n) b⟩
        else
          match X.nextAttempt ex attempt with
          | none => some ⟨.failed (X.finalError ex call.opName (X.errorOf (call.outcome n))), 1,
              X.retryIncrements ex call attempt,
              [X.state (X.counting.onFailure (call.ended n) b)],
              X.counting.onFailure (call.ended n) b⟩
          | some next => (X.loop ex call fuel next (n + 1)
              (X.counting.onFailure (call.ended n) b)).map fun r =>
                ⟨r.ending, r.invocations + 1, X.retryIncrements ex call attempt ++ r.retries,
                  X.state (X.counting.onFailure (call.ended n) b) :: r.states, r.breaker⟩
      else some ⟨.overflowed, 1, [], [], b⟩ := by
  rw [loop]
  cases houtcome : call.outcome n with
  | success value =>
    rw [houtcome] at h
    exact absurd rfl h
  | _ => rfl

/-- Unless all attempts up to a number fail, one of them is the first success. -/
lemma exists_first_success (h : ¬ ∀ i ≤ N, Fails X (call.outcome i)) :
    ∃ k ≤ N, ∃ value, call.outcome k = .success value ∧
      ∀ i < k, Fails X (call.outcome i) := by
  have hexists : ∃ i, i ≤ N ∧ X.errorOf (call.outcome i) = none := by
    by_contra hnone
    exact h fun i hi herr => hnone ⟨i, hi, herr⟩
  obtain ⟨hle, hnone⟩ := Nat.find_spec hexists
  obtain ⟨value, hvalue⟩ := exists_of_not_fails (not_not.mpr hnone)
  exact ⟨Nat.find hexists, hle, value, hvalue, fun i hi hi' => Nat.find_min hexists hi
    ⟨by omega, hi'⟩⟩

/-- The first success is unique. -/
lemma first_success_unique {k k' : ℕ} {value value' : α} (h : call.outcome k = .success value)
    (h' : call.outcome k' = .success value') (hfirst : ∀ i < k, Fails X (call.outcome i))
    (hfirst' : ∀ i < k', Fails X (call.outcome i)) : k = k' ∧ value = value' := by
  have hnot : ¬ Fails X (call.outcome k) := fun hf => by
    rw [h] at hf
    exact hf rfl
  have hnot' : ¬ Fails X (call.outcome k') := fun hf => by
    rw [h'] at hf
    exact hf rfl
  have heq : k = k' := by
    rcases Nat.lt_trichotomy k k' with hlt | heq | hlt
    · exact absurd (hfirst' k hlt) hnot
    · exact heq
    · exact absurd (hfirst k' hlt) hnot'
  subst heq
  exact ⟨rfl, AttemptOutcome.success.inj (h.symm.trans h')⟩

/-- What the failed attempts leave: the counter has grown by their number, and the circuit is open
if it reached the threshold. -/
lemma afterFailures_spec (call : ScriptedCall α) (n j : ℕ) {b : X.Cb}
    (hnonneg : 0 ≤ X.counting.counter b)
    (hcapacity : X.counting.counter b + j ≤ X.counting.capacity) :
    X.counting.counter (afterFailures X call n j b) = X.counting.counter b + j ∧
      X.state (afterFailures X call n j b) =
        if 0 < j ∧ X.counting.threshold b ≤ X.counting.counter b + j then .Open
        else X.state b := by
  induction j generalizing n b with
  | zero => simp [afterFailures]
  | succ j ih =>
    rw [Int.natCast_succ] at hcapacity
    obtain ⟨hcounter, hstate⟩ :=
      X.counting.onFailure_counts (call.ended n) b hnonneg (by omega)
    obtain ⟨hthreshold, -, -⟩ := X.counting.onFailure_frame (call.ended n) b
    obtain ⟨hcounter', hstate'⟩ := ih (n + 1) (by omega : 0 ≤ X.counting.counter
      (X.counting.onFailure (call.ended n) b)) (by omega)
    refine ⟨?_, ?_⟩
    · rw [afterFailures, hcounter', hcounter, Int.natCast_succ]
      omega
    · rw [afterFailures, hstate', hcounter, hthreshold, hstate, Int.natCast_succ]
      split_ifs <;> first | rfl | omega

/-- A failed attempt that is retried. -/
lemma loop_of_retried (A : X.Attempts ex N) (hmetrics : X.hasMetrics ex = true) {fuel k n : ℕ}
    {b : X.Cb} (hk : 1 ≤ k) (hbound : k ≤ A.bound) (hN : k ≤ N)
    (hfails : Fails X (call.outcome n))
    (hcapacity : X.counting.counter b < X.counting.capacity)
    (hbackoff : X.backoffOverflows (A.attemptAt k) = false) :
    X.loop ex call (fuel + 1) (A.attemptAt k) n b =
      (X.loop ex call fuel (A.attemptAt (k + 1)) (n + 1)
        (X.counting.onFailure (call.ended n) b)).map fun r =>
          ⟨r.ending, r.invocations + 1, X.retryLabels ex call :: r.retries,
            X.state (X.counting.onFailure (call.ended n) b) :: r.states, r.breaker⟩ := by
  have hretries := A.retries_eq k hk hbound
  have hnext := A.next_eq k hk hbound
  rw [if_pos hN] at hnext
  rw [decide_eq_true hN] at hretries
  rw [loop_of_fails hfails]
  simp only [if_pos hcapacity, hretries, hbackoff, Bool.and_false, Bool.false_eq_true, if_false,
    hnext, retryIncrements, hmetrics, Bool.and_self, if_true, List.singleton_append]

/-- Several failed attempts that are retried. -/
lemma loop_of_failures (A : X.Attempts ex N) (hmetrics : X.hasMetrics ex = true)
    (j : ℕ) {fuel k n : ℕ} {b : X.Cb} (hk : 1 ≤ k) (hbound : k + j ≤ A.bound + 1)
    (hN : k + j ≤ N + 1) (hfails : ∀ i < j, Fails X (call.outcome (n + i)))
    (hnonneg : 0 ≤ X.counting.counter b)
    (hcapacity : X.counting.counter b + j ≤ X.counting.capacity)
    (hbackoff : ∀ i < j, X.backoffOverflows (A.attemptAt (k + i)) = false) :
    X.loop ex call (fuel + j) (A.attemptAt k) n b =
      (X.loop ex call fuel (A.attemptAt (k + j)) (n + j) (afterFailures X call n j b)).map
        fun r => ⟨r.ending, r.invocations + j,
          List.replicate j (X.retryLabels ex call) ++ r.retries,
          failureStates X call n j b ++ r.states, r.breaker⟩ := by
  induction j generalizing k n b with
  | zero => simp [afterFailures, failureStates]
  | succ j ih =>
    rw [Int.natCast_succ] at hcapacity
    obtain ⟨hcounter, -⟩ := X.counting.onFailure_counts (call.ended n) b hnonneg (by omega)
    have hfirst : X.loop ex call (fuel + j + 1) (A.attemptAt k) n b = _ :=
      loop_of_retried A hmetrics hk (by omega) (by omega) (hfails 0 (by omega)) (by omega)
        (hbackoff 0 (by omega))
    have hrest := ih (k := k + 1) (n := n + 1) (b := X.counting.onFailure (call.ended n) b)
      (by omega) (by omega) (by omega)
      (fun i hi => by
        have hi' := hfails (i + 1) (by omega)
        rwa [← Nat.add_assoc, Nat.add_right_comm] at hi')
      (by omega) (by omega)
      (fun i hi => by
        have hi' := hbackoff (i + 1) (by omega)
        rwa [← Nat.add_assoc, Nat.add_right_comm] at hi')
    have hk' : k + 1 + j = k + (j + 1) := by omega
    have hn' : n + 1 + j = n + (j + 1) := by omega
    rw [← Nat.add_assoc, hfirst, hrest, hk', hn', Option.map_map, afterFailures]
    congr 1

/-- The loop of a call whose first success is attempt number `j` of the script. -/
lemma loop_of_success (A : X.Attempts ex N) (hmetrics : X.hasMetrics ex = true) {j fuel : ℕ}
    {b : X.Cb} {value : α} (hfuel : j < fuel) (hbound : j ≤ A.bound) (hN : j ≤ N)
    (hfails : ∀ i < j, Fails X (call.outcome i)) (hsuccess : call.outcome j = .success value)
    (hnonneg : 0 ≤ X.counting.counter b)
    (hcapacity : X.counting.counter b + j ≤ X.counting.capacity)
    (hbackoff : ∀ i < j, X.backoffOverflows (A.attemptAt (1 + i)) = false) :
    X.loop ex call fuel (A.attemptAt 1) 0 b =
      some ⟨.returned value, j + 1, List.replicate j (X.retryLabels ex call),
        failureStates X call 0 j b ++ [X.state (X.onSuccess (afterFailures X call 0 j b))],
        X.onSuccess (afterFailures X call 0 j b)⟩ := by
  obtain ⟨rest, rfl⟩ := Nat.exists_eq_add_of_lt hfuel
  have hsplit : j + rest + 1 = rest + 1 + j := by omega
  rw [hsplit, loop_of_failures A hmetrics j (Nat.le_refl 1) (by omega) (by omega)
    (by simpa using hfails) hnonneg hcapacity hbackoff, loop, Nat.zero_add, hsuccess]
  simp [Nat.add_comm]

/-- One more failed attempt at the end. -/
lemma afterFailures_succ (X : ScriptedExecutor) (call : ScriptedCall α) (n j : ℕ) (b : X.Cb) :
    afterFailures X call n (j + 1) b =
      X.counting.onFailure (call.ended (n + j)) (afterFailures X call n j b) := by
  induction j generalizing n b with
  | zero => rfl
  | succ j ih =>
    have hindex : n + 1 + j = n + (j + 1) := by omega
    rw [afterFailures, ih, hindex, afterFailures]

/-- The loop of a call whose attempts all fail. -/
lemma loop_of_failure (A : X.Attempts ex N) (hmetrics : X.hasMetrics ex = true) {fuel : ℕ}
    {b : X.Cb} (hfuel : N < fuel) (hbound : N < A.bound)
    (hfails : ∀ i ≤ N, Fails X (call.outcome i)) (hnonneg : 0 ≤ X.counting.counter b)
    (hcapacity : X.counting.counter b + N + 1 ≤ X.counting.capacity)
    (hbackoff : ∀ i < N, X.backoffOverflows (A.attemptAt (1 + i)) = false) :
    ∃ states, X.loop ex call fuel (A.attemptAt 1) 0 b =
      some ⟨.failed (X.finalError ex call.opName (X.errorOf (call.outcome N))), N + 1,
        List.replicate N (X.retryLabels ex call), states, afterFailures X call 0 (N + 1) b⟩ := by
  obtain ⟨rest, rfl⟩ := Nat.exists_eq_add_of_lt hfuel
  have hsplit : N + rest + 1 = rest + 1 + N := by omega
  have hcounter := (afterFailures_spec call 0 N hnonneg (by omega)).1
  have hretries := A.retries_eq (N + 1) (by omega) (by omega)
  have hnext := A.next_eq (N + 1) (by omega) (by omega)
  rw [decide_eq_false (by omega)] at hretries
  rw [if_neg (by omega)] at hnext
  have hlast := hfails N (Nat.le_refl N)
  rw [hsplit, loop_of_failures A hmetrics N (Nat.le_refl 1) (by omega) (by omega)
    (fun i hi => by simpa using hfails i (Nat.le_of_lt hi)) hnonneg (by omega) hbackoff,
    Nat.zero_add, loop_of_fails hlast, afterFailures_succ, Nat.zero_add]
  have hroom : X.counting.counter (afterFailures X call 0 N b) < X.counting.capacity := by omega
  simp only [if_pos hroom, hretries, hnext, retryIncrements, Bool.false_and, Bool.and_false,
    Bool.false_eq_true, if_false, Option.map_some, List.append_nil, Nat.add_comm 1 N]
  exact ⟨_, rfl⟩

end ScriptedExecutor

/-! ### The two executors -/

namespace Rust

/-- The Rust executor with its loop. -/
def scriptedExecutor : ScriptedExecutor where
  toExecutorModel := executorModel
  counting := counting
  timedOut := ResilientExecutor.timedOut
  -- `2u64.pow(attempt - 1)`
  backoffOverflows attempt := 64 ≤ attempt - 1

/-- The number of an attempt, as a `u32`. -/
lemma toNat_attempt {k : ℕ} (hk : k ≤ 65) : (UInt32.ofNat k).toNat = k := by
  rw [UInt32.toNat_ofNat', Nat.mod_eq_of_lt (by omega)]

/-- The delay after an attempt overflows from attempt number 65 on. -/
lemma backoffOverflows_eq {k : ℕ} (hpos : 1 ≤ k) (hk : k ≤ 65) :
    scriptedExecutor.backoffOverflows (UInt32.ofNat k) = decide (k = 65) := by
  have hsub : (UInt32.ofNat k - 1).toNat = k - 1 := by
    have hle : (1 : UInt32) ≤ UInt32.ofNat k := by
      rw [UInt32.le_iff_toNat_le, toNat_attempt hk]
      exact hpos
    rw [UInt32.toNat_sub_of_le _ _ hle, toNat_attempt hk]
    rfl
  have hiff : (64 : UInt32) ≤ UInt32.ofNat k - 1 ↔ k = 65 := by
    have hsixtyFour : (64 : UInt32).toNat = 64 := rfl
    rw [UInt32.le_iff_toNat_le, hsub, hsixtyFour]
    omega
  exact decide_eq_decide.mpr hiff

/-- The attempts of the Rust loop. -/
def attempts (ex : ResilientExecutor) :
    scriptedExecutor.Attempts ex ex.config.maxRetries.toNat where
  attemptAt := UInt32.ofNat
  bound := 65
  bound_pos := by decide
  first := rfl
  retries_eq k _ hk := by
    have hiff : ex.config.maxRetries < UInt32.ofNat k ↔ ¬ k ≤ ex.config.maxRetries.toNat := by
      rw [UInt32.lt_iff_toNat_lt, toNat_attempt hk, Nat.not_le]
    have hexhausted : ex.exhausted (UInt32.ofNat k) = !decide (k ≤ ex.config.maxRetries.toNat) := by
      rw [ResilientExecutor.exhausted, decide_eq_decide.mpr hiff, decide_not]
    exact (congrArg (! ·) hexhausted).trans (Bool.not_not _)
  next_eq k _ hk := by
    have hiff : ex.config.maxRetries < UInt32.ofNat k ↔ ¬ k ≤ ex.config.maxRetries.toNat := by
      rw [UInt32.lt_iff_toNat_lt, toNat_attempt hk, Nat.not_le]
    have hsucc : UInt32.ofNat k + 1 = UInt32.ofNat (k + 1) := by
      rw [UInt32.ofNat_add]
      rfl
    simp only [executorModel, scriptedExecutor, ResilientExecutor.exhausted, decide_eq_true_eq,
      hiff, hsucc]
    split_ifs <;> rfl
  stops := .inr (by decide)

open ScriptedExecutor

/-- What a call does to the breaker `b` and reports, when nothing overflows.  Attempts are numbered
from 0, so attempt number `k` is the one after `k` failures. -/
structure Accounts {α : Type} (ex : ResilientExecutor) (call : ScriptedCall α) (b : CircuitBreaker)
    (r : Report CircuitBreaker α) : Prop where
  /-- A refused call invokes nothing and counts nothing. -/
  refused : ∀ err, (b.canExecute call.start).1 = .error err →
    r.ending = .refused err ∧ r.invocations = 0 ∧ r.retries = [] ∧
      r.breaker.consecutiveFailures = b.consecutiveFailures
  /-- The first success ends the call, with a retry for each attempt before it. -/
  succeeded : (b.canExecute call.start).1 = .ok () → ∀ k ≤ ex.config.maxRetries.toNat, ∀ value,
    (∀ i < k, Fails scriptedExecutor (call.outcome i)) → call.outcome k = .success value →
    r.ending = .returned value ∧ r.invocations = k + 1 ∧
      r.retries = List.replicate k (ex.contract, call.opName, ex.backend) ∧
      r.breaker.state = .Closed ∧ r.breaker.consecutiveFailures = 0
  /-- Without a success the call ends with the error of the last attempt, and every attempt is
  counted. -/
  failed : (b.canExecute call.start).1 = .ok () →
    (∀ i ≤ ex.config.maxRetries.toNat, Fails scriptedExecutor (call.outcome i)) →
    ∃ err, scriptedExecutor.errorOf (call.outcome ex.config.maxRetries.toNat) = some err ∧
      r.ending = .failed err ∧ r.invocations = ex.config.maxRetries.toNat + 1 ∧
      r.retries = List.replicate ex.config.maxRetries.toNat
        (ex.contract, call.opName, ex.backend) ∧
      r.breaker.consecutiveFailures.toNat =
        b.consecutiveFailures.toNat + (ex.config.maxRetries.toNat + 1) ∧
      r.breaker.state =
        if b.failureThreshold.toNat ≤
            b.consecutiveFailures.toNat + (ex.config.maxRetries.toNat + 1)
        then .Open else .Closed

/-- The breaker of an executor after a history of uninterleaved calls of its methods. -/
def breakerAfter (ex : ResilientExecutor) (h : History) : CircuitBreaker :=
  counting.after ex.newBreaker h

/-- The breaker counts the failures of its history, and is closed only below the threshold. -/
lemma breakerAfter_spec {ex : ResilientExecutor} {h : History}
    (hT : 1 ≤ ex.config.circuitBreakerThreshold) (hclock : h.Monotone)
    (hcount : ∀ pre, pre <+: h → History.failures pre ≤ 4294967295) :
    (breakerAfter ex h).consecutiveFailures.toNat = h.failures ∧
      ((breakerAfter ex h).consecutiveFailures.toNat <
          (breakerAfter ex h).failureThreshold.toNat →
        (breakerAfter ex h).state = .Closed) := by
  have hnew : counting.IsNew ex.newBreaker := ⟨rfl, rfl⟩
  have hthreshold : (1 : ℤ) ≤ counting.threshold ex.newBreaker := by
    have hle := UInt32.le_iff_toNat_le.mp hT
    have hone : (1 : UInt32).toNat = 1 := rfl
    rw [hone] at hle
    exact Int.ofNat_le.mpr hle
  have htracks := Counting.tracks_after hnew hthreshold hclock fun pre hpre =>
    Int.ofNat_le.mpr (hcount pre hpre)
  have hcounter : (breakerAfter ex h).consecutiveFailures.toNat = h.failures :=
    Int.ofNat_inj.mp htracks.counter
  refine ⟨hcounter, fun hlow => ?_⟩
  rw [hcounter] at hlow
  have hlow' : (h.failures : ℤ) < counting.threshold ex.newBreaker := by
    rw [← htracks.threshold]
    exact Int.ofNat_lt.mpr hlow
  exact htracks.state.trans (if_pos hlow')

section Endings

variable {α : Type} {ex : ResilientExecutor} {call : ScriptedCall α} {b b' : CircuitBreaker}
  {fuel : ℕ}

/-- A refused call accounts for itself. -/
lemma accounts_of_refused {err : String} (hcheck : b.canExecute call.start = (.error err, b')) :
    ∃ r, scriptedExecutor.execute ex fuel call b = some r ∧ Accounts ex call b r := by
  have hfailures := (CircuitBreaker.canExecute_fields call.start b).1
  rw [hcheck] at hfailures
  refine ⟨_, execute_of_refused (X := scriptedExecutor) hcheck,
    ⟨fun err' herr => ?_, fun hok => ?_, fun hok => ?_⟩⟩
  · rw [hcheck] at herr
    obtain rfl := Except.error.inj herr
    exact ⟨rfl, rfl, rfl, hfailures⟩
  · rw [hcheck] at hok
    cases hok
  · rw [hcheck] at hok
    cases hok

/-- The counter is a number, and an admission check leaves it and the threshold alone. -/
lemma counting_of_check {res : Except String Unit} (hcheck : b.canExecute call.start = (res, b')) :
    0 ≤ scriptedExecutor.counting.counter b' ∧
      scriptedExecutor.counting.counter b' = (b.consecutiveFailures.toNat : ℤ) ∧
      scriptedExecutor.counting.threshold b' = (b.failureThreshold.toNat : ℤ) := by
  obtain ⟨hfailures, hthreshold, -, -⟩ := CircuitBreaker.canExecute_fields call.start b
  rw [hcheck] at hfailures hthreshold
  exact ⟨Int.natCast_nonneg _, congrArg (fun n : UInt32 => (n.toNat : ℤ)) hfailures,
    congrArg (fun n : UInt32 => (n.toNat : ℤ)) hthreshold⟩

/-- The backoffs of at most 64 retries do not overflow. -/
lemma backoff_of_retries (hN : ex.config.maxRetries.toNat ≤ 64) :
    ∀ i < ex.config.maxRetries.toNat,
      scriptedExecutor.backoffOverflows ((attempts ex).attemptAt (1 + i)) = false := by
  intro i hi
  exact (backoffOverflows_eq (by omega) (by omega)).trans (decide_eq_false (by omega))

/-- An admitted call with a success among its attempts accounts for itself. -/
lemma accounts_of_success (hN : ex.config.maxRetries.toNat ≤ 64)
    (hcheck : b.canExecute call.start = (.ok (), b'))
    (hroom : b.consecutiveFailures.toNat + (ex.config.maxRetries.toNat + 1) ≤ 4294967295)
    (hfuel : ex.config.maxRetries.toNat < fuel) {k : ℕ} (hk : k ≤ ex.config.maxRetries.toNat)
    {value : α} (hsuccess : call.outcome k = .success value)
    (hfirst : ∀ i < k, Fails scriptedExecutor (call.outcome i)) :
    ∃ r, scriptedExecutor.execute ex fuel call b = some r ∧ Accounts ex call b r := by
  obtain ⟨hnonneg, hcounter, -⟩ := counting_of_check hcheck
  have hcapacity : scriptedExecutor.counting.capacity = 4294967295 := rfl
  have hbound : (attempts ex).bound = 65 := rfl
  have hexecute : scriptedExecutor.execute ex fuel call b = _ :=
    execute_of_admitted (attempts ex) hcheck
  have hloop : scriptedExecutor.loop ex call fuel _ 0 b' = _ :=
    loop_of_success (attempts ex) rfl (by omega) (by omega) hk hfirst hsuccess hnonneg
      (by omega) fun i hi => backoff_of_retries hN i (by omega)
  rw [hloop] at hexecute
  obtain ⟨hzero, -⟩ := scriptedExecutor.counting.onSuccess_frame
    (scriptedExecutor.afterFailures call 0 k b')
  refine ⟨_, hexecute, ⟨fun err herr => ?_, fun _ k' _ value' hfirst' hsuccess' => ?_,
    fun _ hall => ?_⟩⟩
  · rw [hcheck] at herr
    cases herr
  · obtain ⟨rfl, rfl⟩ := first_success_unique hsuccess hsuccess' hfirst hfirst'
    refine ⟨rfl, rfl, rfl,
      scriptedExecutor.onSuccess_state (scriptedExecutor.afterFailures call 0 k b'), ?_⟩
    exact UInt32.toNat_inj.mp (Int.ofNat_inj.mp hzero)
  · have hfail := hall k hk
    rw [hsuccess] at hfail
    exact absurd rfl hfail

/-- An admitted call whose attempts all fail accounts for itself. -/
lemma accounts_of_failure (hN : ex.config.maxRetries.toNat ≤ 64)
    (hclosed : b.consecutiveFailures.toNat < b.failureThreshold.toNat → b.state = .Closed)
    (hcheck : b.canExecute call.start = (.ok (), b'))
    (hroom : b.consecutiveFailures.toNat + (ex.config.maxRetries.toNat + 1) ≤ 4294967295)
    (hfuel : ex.config.maxRetries.toNat < fuel)
    (hfails : ∀ i ≤ ex.config.maxRetries.toNat, Fails scriptedExecutor (call.outcome i)) :
    ∃ r, scriptedExecutor.execute ex fuel call b = some r ∧ Accounts ex call b r := by
  obtain ⟨hnonneg, hcounter, hthreshold⟩ := counting_of_check hcheck
  have hcapacity : scriptedExecutor.counting.capacity = 4294967295 := rfl
  have hbound : (attempts ex).bound = 65 := rfl
  have hexecute : scriptedExecutor.execute ex fuel call b = _ :=
    execute_of_admitted (attempts ex) hcheck
  obtain ⟨states, hloop⟩ := loop_of_failure (attempts ex) rfl hfuel (by omega) hfails hnonneg
    (by omega) (backoff_of_retries hN)
  rw [hloop] at hexecute
  obtain ⟨hafter, hstate⟩ := afterFailures_spec (X := scriptedExecutor) call 0
    (ex.config.maxRetries.toNat + 1) hnonneg (by
      rw [Int.natCast_succ]
      omega)
  refine ⟨_, hexecute, ⟨fun err herr => ?_, fun _ k hk value _ hsuccess => ?_, fun _ _ => ?_⟩⟩
  · rw [hcheck] at herr
    cases herr
  · have hfail := hfails k hk
    rw [hsuccess] at hfail
    exact absurd rfl hfail
  · obtain ⟨err, herr⟩ := Option.ne_none_iff_exists'.mp
      (hfails ex.config.maxRetries.toNat (Nat.le_refl _))
    refine ⟨err, herr, ?_, rfl, rfl, ?_, ?_⟩
    · exact congrArg (fun e : Option String => CallEnd.failed (e.getD "")) herr
    · rw [hcounter] at hafter
      exact Int.ofNat_inj.mp hafter
    · refine hstate.trans ?_
      rw [hthreshold, hcounter, Int.natCast_succ]
      by_cases hreached : b.failureThreshold.toNat ≤
          b.consecutiveFailures.toNat + (ex.config.maxRetries.toNat + 1)
      · rw [if_pos hreached, if_pos (by omega)]
      · -- below the threshold the circuit was closed, and the check left it so
        have hbefore : b.state = .Closed := hclosed (by omega)
        rw [CircuitBreaker.canExecute, hbefore] at hcheck
        rw [if_neg hreached, if_neg (by omega), ← (Prod.mk.inj hcheck).2]
        exact hbefore

end Endings

/-- One uninterleaved call of the Rust executor with a threshold of at least 1 and at most 64
retries, in a state that uninterleaved calls reach, while the counter of the breaker does not
overflow: it terminates, and it invokes the operation, returns, counts its retries and leaves the
breaker as `Accounts` says. -/
theorem execute_accounting {α : Type} (ex : ResilientExecutor)
    (hT : 1 ≤ ex.config.circuitBreakerThreshold) (hN : ex.config.maxRetries ≤ 64) {h : History}
    (hclock : h.Monotone)
    (hcount : ∀ pre, pre <+: h → History.failures pre ≤ 4294967295)
    (hroom : h.failures + (ex.config.maxRetries.toNat + 1) ≤ 4294967295)
    (call : ScriptedCall α) {fuel : ℕ} (hfuel : ex.config.maxRetries.toNat < fuel) :
    ∃ r, scriptedExecutor.execute ex fuel call (breakerAfter ex h) = some r ∧
      Accounts ex call (breakerAfter ex h) r := by
  obtain ⟨hcounter, hclosed⟩ := breakerAfter_spec hT hclock hcount
  rw [← hcounter] at hroom
  have hN' : ex.config.maxRetries.toNat ≤ 64 := UInt32.le_iff_toNat_le.mp hN
  rcases hcheck : (breakerAfter ex h).canExecute call.start with ⟨err | _, b'⟩
  · exact accounts_of_refused hcheck
  · by_cases hfails : ∀ i ≤ ex.config.maxRetries.toNat, Fails scriptedExecutor (call.outcome i)
    · exact accounts_of_failure hN' hclosed hcheck hroom hfuel hfails
    · obtain ⟨k, hk, value, hsuccess, hfirst⟩ := exists_first_success hfails
      exact accounts_of_success hN' hcheck hroom hfuel hk hsuccess hfirst

/-- A call whose attempts all fail, with two retries and the threshold 5. -/
theorem execute_accounting_two_retries : ∃ r, scriptedExecutor.execute
    ⟨⟨2, 100, 5, 30, 5⟩, "kv", "redis"⟩ 3
      (⟨"get", 0, fun _ => .error "refused", fun _ => 0⟩ : ScriptedCall Unit)
      (breakerAfter ⟨⟨2, 100, 5, 30, 5⟩, "kv", "redis"⟩ []) = some r ∧
    r.ending = .failed "refused" ∧ r.invocations = 3 ∧
    r.retries = [("kv", "get", "redis"), ("kv", "get", "redis")] := by
  have hcount : ∀ pre, pre <+: ([] : History) → History.failures pre ≤ 4294967295 := by
    intro pre hpre
    rw [List.prefix_nil.mp hpre]
    decide
  obtain ⟨r, hr, haccounts⟩ := execute_accounting ⟨⟨2, 100, 5, 30, 5⟩, "kv", "redis"⟩ (by decide)
    (by decide) (h := []) List.Pairwise.nil hcount (by decide)
    (⟨"get", 0, fun _ => .error "refused", fun _ => 0⟩ : ScriptedCall Unit) (Nat.lt_succ_self 2)
  obtain ⟨err, herr, hend, hinvocations, hretries, -⟩ := haccounts.failed rfl
    fun i _ hi => by cases hi
  obtain rfl := Option.some.inj herr
  exact ⟨r, hr, hend, hinvocations, hretries⟩

end Rust

end GoyStore
