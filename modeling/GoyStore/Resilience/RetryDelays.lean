import GoyStore.Library.JitteredDelays
import GoyStore.Resilience.AttemptAccounting

/-!
# The delays between the attempts of a Rust call

After a failed attempt `ResilientExecutor::execute` sleeps for the base backoff, doubled for each
attempt before, with a jitter of 25%.  The number of the attempt is a `u32`, the power of two a
`u64`, and the product of floats is cast to a `u64`, which stops at the greatest one.  The products
of floats are taken as exact here, as rational numbers.

The delays are what they are meant to be, and the loop of an operation that always fails ends, if
and only if there are no more than 64 retries and the last delay, with the least jitter, is a `u64`
(`backoffExact_iff`).
-/

namespace GoyStore

/-! ### One round of a loop -/

namespace ScriptedExecutor

variable {X : ScriptedExecutor} {α : Type} {ex : X.Executor} {call : ScriptedCall α} {n : ℕ}
  {attempt next : X.Counter} {b : X.Cb}

/-- The last attempt fails. -/
lemma loop_last (hfails : Fails X (call.outcome n))
    (hcapacity : X.counting.counter b < X.counting.capacity) (fuel : ℕ)
    (hretries : X.retries ex attempt = false) (hnext : X.nextAttempt ex attempt = none) :
    ∃ report, X.loop ex call (fuel + 1) attempt n b = some report ∧ report.invocations = 1 ∧
      ∃ err, report.ending = .failed err := by
  rw [loop_of_fails hfails, if_pos hcapacity, hretries, hnext]
  exact ⟨_, rfl, rfl, _, rfl⟩

/-- An attempt fails, and the delay overflows. -/
lemma loop_overflowed (hfails : Fails X (call.outcome n))
    (hcapacity : X.counting.counter b < X.counting.capacity) (fuel : ℕ)
    (hretries : X.retries ex attempt = true) (hoverflows : X.backoffOverflows attempt = true) :
    ∃ report, X.loop ex call (fuel + 1) attempt n b = some report ∧ report.invocations = 1 ∧
      report.ending = .overflowed := by
  rw [loop_of_fails hfails, if_pos hcapacity, hretries, hoverflows]
  exact ⟨_, rfl, rfl, rfl⟩

/-- An attempt fails, and the next one is made. -/
lemma loop_goes_on (hfails : Fails X (call.outcome n))
    (hcapacity : X.counting.counter b < X.counting.capacity) {fuel : ℕ}
    (hoverflows : X.backoffOverflows attempt = false)
    (hnext : X.nextAttempt ex attempt = some next) {rest : Report X.Cb α}
    (hrest : X.loop ex call fuel next (n + 1) (X.counting.onFailure (call.ended n) b) =
      some rest) :
    ∃ report, X.loop ex call (fuel + 1) attempt n b = some report ∧
      report.invocations = rest.invocations + 1 ∧ report.ending = rest.ending := by
  rw [loop_of_fails hfails, if_pos hcapacity, hoverflows, Bool.and_false, hnext]
  simp only [Bool.false_eq_true, if_false, hrest, Option.map_some]
  exact ⟨_, rfl, rfl, rfl⟩

end ScriptedExecutor

namespace Rust

/-! ### The computation of a delay -/

/-- How the loop of an operation that always fails ends. -/
inductive FailingEnd where
  /-- It returns the error of the last attempt. -/
  | failed
  /-- An arithmetic operation overflows. -/
  | overflowed
  deriving DecidableEq, Repr

/-- What the loop of an operation that always fails does. -/
structure FailingCall where
  /-- The number of attempts. -/
  attempts : ℕ
  /-- The delays between them, in milliseconds. -/
  delays : List UInt64
  /-- How it ends. -/
  ending : FailingEnd
  deriving DecidableEq, Repr

namespace ResilientExecutor

/-- `2u64.pow(attempt - 1)`; `none` when it overflows. -/
def factor (attempt : UInt32) : Option UInt64 :=
  if (attempt - 1).toNat < 64 then some (UInt64.ofNat (2 ^ (attempt - 1).toNat)) else none

/-- The local `jitter`. -/
def jitter (attempt : UInt32) : ℚ := 3 / 4 + ((attempt.toNat * 137 % 50 : ℕ) : ℚ) / 100

/-- The cast `as u64` of a number that is not negative. -/
def asU64 (x : ℚ) : UInt64 := UInt64.ofNat (min ⌊x⌋₊ 18446744073709551615)

/-- The local `sleep_duration`, in milliseconds; `none` when its computation overflows. -/
def delay (ex : ResilientExecutor) (attempt : UInt32) : Option UInt64 :=
  (factor attempt).map fun factor =>
    asU64 (ex.config.baseBackoffMs.toNat * factor.toNat * jitter attempt)

/-- `attempt += 1`; `none` when it overflows. -/
def increment (attempt : UInt32) : Option UInt32 :=
  if attempt = 4294967295 then none else some (attempt + 1)

/-- The loop of `execute` for an operation that always fails, from the value of `attempt` before a
round. -/
def failingLoop (ex : ResilientExecutor) : ℕ → UInt32 → Option FailingCall
  | 0, _ => none
  | fuel + 1, attempt =>
    match increment attempt with
    | none => some ⟨0, [], .overflowed⟩
    | some attempt =>
      if ex.exhausted attempt then some ⟨1, [], .failed⟩
      else
        match ex.delay attempt with
        | none => some ⟨1, [], .overflowed⟩
        | some delay => (failingLoop ex fuel attempt).map fun r =>
            ⟨r.attempts + 1, delay :: r.delays, r.ending⟩

/-- The delay in milliseconds is the base backoff, doubled for each attempt before, with a jitter of
25%, rounded down. -/
def Jittered (ex : ResilientExecutor) (attempt : ℕ) (delay : UInt64) : Prop :=
  ∃ j : ℚ, 3 / 4 ≤ j ∧ j ≤ 5 / 4 ∧
    delay.toNat = ⌊(ex.config.baseBackoffMs.toNat : ℚ) * 2 ^ (attempt - 1) * j⌋₊

/-- Every delay is computed without an overflow and is what it is meant to be, and the loop of an
operation that always fails ends after one more attempt than there are retries. -/
structure BackoffExact (ex : ResilientExecutor) : Prop where
  /-- The delays after the attempts. -/
  delays : ∀ k, 1 ≤ k → k ≤ ex.config.maxRetries.toNat →
    ∃ delay, ex.delay (UInt32.ofNat k) = some delay ∧ ex.Jittered k delay
  /-- The loop. -/
  ends : ∃ fuel delays, ex.failingLoop fuel 0 =
    some ⟨ex.config.maxRetries.toNat + 1, delays, .failed⟩

variable {ex : ResilientExecutor} {k : ℕ}

/-! ### Delays -/

/-- The jitter is within 25%. -/
lemma jitter_bounds (attempt : UInt32) : 3 / 4 ≤ jitter attempt ∧ jitter attempt ≤ 5 / 4 := by
  have hlt : attempt.toNat * 137 % 50 < 50 := Nat.mod_lt _ (by decide)
  have hle : ((attempt.toNat * 137 % 50 : ℕ) : ℚ) ≤ 50 := by exact_mod_cast hlt.le
  have hnonneg : (0 : ℚ) ≤ ((attempt.toNat * 137 % 50 : ℕ) : ℚ) := Nat.cast_nonneg _
  unfold jitter
  constructor
  · linarith
  · linarith

/-- The factor of an attempt. -/
lemma factor_ofNat (hpos : 1 ≤ k) (hk : k ≤ 64) :
    ∃ factor, ResilientExecutor.factor (UInt32.ofNat k) = some factor ∧
      factor.toNat = 2 ^ (k - 1) := by
  have hsub : (UInt32.ofNat k - 1).toNat = k - 1 := by
    have hle : (1 : UInt32) ≤ UInt32.ofNat k := by
      rw [UInt32.le_iff_toNat_le, toNat_attempt (by omega)]
      exact hpos
    rw [UInt32.toNat_sub_of_le _ _ hle, toNat_attempt (by omega)]
    rfl
  have hlt : k - 1 < 64 := by omega
  have hpow : 2 ^ (k - 1) < 2 ^ 64 := Nat.pow_lt_pow_right (by decide) hlt
  refine ⟨UInt64.ofNat (2 ^ (k - 1)), ?_, ?_⟩
  · rw [factor, hsub, if_pos hlt]
  · rw [UInt64.toNat_ofNat', Nat.mod_eq_of_lt hpow]

/-- The cast stops at the greatest `u64`. -/
lemma toNat_asU64 (x : ℚ) : (asU64 x).toNat = min ⌊x⌋₊ 18446744073709551615 := by
  rw [asU64, UInt64.toNat_ofNat', Nat.mod_eq_of_lt]
  exact Nat.lt_succ_of_le (Nat.min_le_right _ _)

/-- The delay after one of the first 64 attempts is what it is meant to be exactly when it is a
`u64` with the least jitter. -/
lemma exists_jittered_iff (hpos : 1 ≤ k) (hk : k ≤ 64) :
    (∃ delay, ex.delay (UInt32.ofNat k) = some delay ∧ ex.Jittered k delay) ↔
      3 * ex.config.baseBackoffMs.toNat * 2 ^ (k - 1) < 2 ^ 66 := by
  obtain ⟨factor, hfactor, hpow⟩ := factor_ofNat hpos hk
  obtain ⟨hlow, hhigh⟩ := jitter_bounds (UInt32.ofNat k)
  have hbase : (0 : ℚ) ≤ ex.config.baseBackoffMs.toNat * 2 ^ (k - 1) := by positivity
  have hdelay : ex.delay (UInt32.ofNat k) = some (asU64
      (ex.config.baseBackoffMs.toNat * 2 ^ (k - 1) * jitter (UInt32.ofNat k))) := by
    rw [delay, hfactor, Option.map_some, hpow, Nat.cast_pow, Nat.cast_ofNat]
  have hexists :=
    JitteredDelays.exists_floor_eq_min_iff (n := 18446744073709551615) hbase hlow hhigh
  have hleast : (ex.config.baseBackoffMs.toNat : ℚ) * 2 ^ (k - 1) * (3 / 4) <
      (18446744073709551615 : ℕ) + 1 ↔
        3 * ex.config.baseBackoffMs.toNat * 2 ^ (k - 1) < 2 ^ 66 := by
    rw [← Nat.cast_lt (α := ℚ)]
    push_cast
    constructor
    · intro h
      linarith
    · intro h
      linarith
  rw [hdelay, ← hleast, ← hexists]
  constructor
  · rintro ⟨delay, heq, j, hj, hj', hfloor⟩
    obtain rfl := Option.some.inj heq
    exact ⟨j, hj, hj', (toNat_asU64 _).symm.trans hfloor⟩
  · rintro ⟨j, hj, hj', hfloor⟩
    exact ⟨_, rfl, j, hj, hj', (toNat_asU64 _).trans hfloor⟩

/-! ### The loop -/

/-- The counter of the attempts up to number 64. -/
lemma increment_ofNat (hk : k ≤ 64) :
    increment (UInt32.ofNat k) = some (UInt32.ofNat (k + 1)) := by
  have hne : UInt32.ofNat k ≠ 4294967295 := by
    intro heq
    have hnat := congrArg UInt32.toNat heq
    rw [toNat_attempt (by omega)] at hnat
    exact absurd hnat (Nat.ne_of_lt (Nat.lt_of_le_of_lt hk (by decide)))
  rw [increment, if_neg hne, UInt32.ofNat_add]
  rfl

/-- The test that ends the loop, up to attempt number 65. -/
lemma exhausted_ofNat (hpos : 1 ≤ k) (hk : k ≤ 65) :
    ex.exhausted (UInt32.ofNat k) = !decide (k ≤ ex.config.maxRetries.toNat) := by
  have hretries : (!ex.exhausted (UInt32.ofNat k)) = decide (k ≤ ex.config.maxRetries.toNat) :=
    (attempts ex).retries_eq k hpos hk
  rw [← hretries, Bool.not_not]

/-- When no delay overflows, the loop ends with the last attempt. -/
lemma failingLoop_ends (hfew : ex.config.maxRetries.toNat ≤ 64)
    (hdelays : ∀ k, 1 ≤ k → k ≤ ex.config.maxRetries.toNat →
      ∃ delay, ex.delay (UInt32.ofNat k) = some delay) (left made : ℕ)
    (hleft : made + left = ex.config.maxRetries.toNat) :
    ∃ delays, ex.failingLoop (left + 1) (UInt32.ofNat made) =
      some ⟨left + 1, delays, .failed⟩ := by
  induction left generalizing made with
  | zero =>
    have hlast : ex.exhausted (UInt32.ofNat (made + 1)) = true := by
      rw [exhausted_ofNat (by omega) (by omega), decide_eq_false (by omega)]
      rfl
    refine ⟨[], ?_⟩
    rw [failingLoop, increment_ofNat (by omega)]
    simp only [hlast, if_true]
  | succ left ih =>
    obtain ⟨delay, hdelay⟩ := hdelays (made + 1) (by omega) (by omega)
    obtain ⟨delays, hrest⟩ := ih (made + 1) (by omega)
    have hmore : ex.exhausted (UInt32.ofNat (made + 1)) = false := by
      rw [exhausted_ofNat (by omega) (by omega), decide_eq_true (by omega)]
      rfl
    refine ⟨delay :: delays, ?_⟩
    rw [failingLoop, increment_ofNat (by omega)]
    simp only [hmore, Bool.false_eq_true, if_false, hdelay, hrest, Option.map_some]

/-- A delay overflows where the scripted executor says so. -/
lemma backoffOverflows_eq_isNone (ex : ResilientExecutor) (attempt : UInt32) :
    scriptedExecutor.backoffOverflows attempt = (ex.delay attempt).isNone := by
  have hiff : (64 : UInt32) ≤ attempt - 1 ↔ ¬ (attempt - 1).toNat < 64 := by
    have hsixtyFour : (64 : UInt32).toNat = 64 := rfl
    rw [UInt32.le_iff_toNat_le, hsixtyFour, Nat.not_lt]
  rw [delay, Option.isNone_map, factor]
  by_cases hsmall : (attempt - 1).toNat < 64
  · rw [if_pos hsmall]
    exact decide_eq_false fun hlarge => hiff.mp hlarge hsmall
  · rw [if_neg hsmall]
    exact decide_eq_true (hiff.mpr hsmall)

/-- The loop of an operation that always fails makes at least one attempt while its counter does not
overflow. -/
lemma attempts_pos {fuel : ℕ} {attempt next : UInt32} {r : FailingCall}
    (hnext : increment attempt = some next) (hr : ex.failingLoop fuel attempt = some r) :
    1 ≤ r.attempts := by
  cases fuel with
  | zero => cases hr
  | succ fuel =>
    rw [failingLoop, hnext] at hr
    simp only at hr
    split_ifs at hr
    · exact Option.some.inj hr ▸ le_rfl
    · cases hdelay : ex.delay next with
      | none =>
        rw [hdelay] at hr
        exact Option.some.inj hr ▸ le_rfl
      | some delay =>
        rw [hdelay] at hr
        obtain ⟨rest, -, rfl⟩ := Option.map_eq_some_iff.mp hr
        exact Nat.succ_pos _

/-- A scripted call whose operation always fails does what the loop of such an operation does, as
long as the counter of the breaker has room. -/
theorem loop_of_failingLoop {α : Type} {call : ScriptedCall α}
    (hfails : ∀ n, ScriptedExecutor.Fails scriptedExecutor (call.outcome n)) {fuel n : ℕ}
    {attempt next : UInt32} {b : CircuitBreaker} {r : FailingCall}
    (hnext : increment attempt = some next) (hr : ex.failingLoop fuel attempt = some r)
    (hroom : b.consecutiveFailures.toNat + r.attempts ≤ 4294967295) :
    ∃ report, scriptedExecutor.loop ex call fuel next n b = some report ∧
      report.invocations = r.attempts ∧
      (r.ending = .failed → ∃ err, report.ending = .failed err) ∧
      (r.ending = .overflowed → report.ending = .overflowed) := by
  induction fuel generalizing attempt next n b r with
  | zero => cases hr
  | succ fuel ih =>
    have hpos := attempts_pos hnext hr
    have hcapacity : scriptedExecutor.counting.counter b < scriptedExecutor.counting.capacity := by
      change (b.consecutiveFailures.toNat : ℤ) < 4294967295
      omega
    rw [failingLoop, hnext] at hr
    simp only at hr
    have hretries : scriptedExecutor.retries ex next = !ex.exhausted next := rfl
    have hfollowing : scriptedExecutor.nextAttempt ex next =
        if ex.exhausted next then none else some (next + 1) := rfl
    cases hexhausted : ex.exhausted next with
    | true =>
      rw [hexhausted] at hr hretries hfollowing
      obtain rfl := Option.some.inj hr
      obtain ⟨report, hreport, hinvocations, hfailed⟩ :=
        ScriptedExecutor.loop_last (hfails n) hcapacity fuel hretries hfollowing
      exact ⟨report, hreport, hinvocations, fun _ => hfailed, fun h => by cases h⟩
    | false =>
      rw [hexhausted] at hr hretries hfollowing
      simp only [Bool.false_eq_true, if_false] at hr
      have hoverflows := backoffOverflows_eq_isNone ex next
      cases hdelay : ex.delay next with
      | none =>
        rw [hdelay] at hr hoverflows
        obtain rfl := Option.some.inj hr
        obtain ⟨report, hreport, hinvocations, hoverflowed⟩ :=
          ScriptedExecutor.loop_overflowed (hfails n) hcapacity fuel hretries hoverflows
        exact ⟨report, hreport, hinvocations, (fun h => by cases h), fun _ => hoverflowed⟩
      | some delay =>
        rw [hdelay] at hr hoverflows
        obtain ⟨rest, hrest, rfl⟩ := Option.map_eq_some_iff.mp hr
        -- the delay does not overflow, so the counter of the attempts does not
        have hincrement : increment next = some (next + 1) := by
          refine if_neg fun hlast => ?_
          rw [hlast] at hdelay
          cases hdelay
        obtain ⟨hcounted, -⟩ := scriptedExecutor.counting.onFailure_counts (call.ended n) b
          (Int.natCast_nonneg _) hcapacity
        have hcount : (CircuitBreaker.onFailure (call.ended n) b).consecutiveFailures.toNat =
            b.consecutiveFailures.toNat + 1 := Int.ofNat_inj.mp hcounted
        have hroom' : (CircuitBreaker.onFailure (call.ended n) b).consecutiveFailures.toNat +
            rest.attempts ≤ 4294967295 := by
          rw [hcount, Nat.add_assoc, Nat.add_comm 1]
          exact hroom
        obtain ⟨report, hreport, hinvocations, hending⟩ := ih (n := n + 1) hincrement hrest hroom'
        obtain ⟨report', hreport', hinvocations', hending'⟩ :=
          ScriptedExecutor.loop_goes_on (hfails n) hcapacity hoverflows hfollowing hreport
        rw [← hending'] at hending
        exact ⟨report', hreport', hinvocations'.trans (congrArg (· + 1) hinvocations), hending⟩

/-- The delays of a Rust executor are what they are meant to be, and the loop of an operation that
always fails ends after its last attempt, if and only if there are at most 64 retries, and the last
delay with the least jitter is a `u64`. -/
theorem backoffExact_iff (ex : ResilientExecutor) :
    ex.BackoffExact ↔ ex.config.maxRetries.toNat ≤ 64 ∧
      3 * ex.config.baseBackoffMs.toNat * 2 ^ (ex.config.maxRetries.toNat - 1) < 2 ^ 66 := by
  constructor
  · intro hexact
    have hfew : ex.config.maxRetries.toNat ≤ 64 := by
      by_contra hmany
      obtain ⟨delay, hdelay, -⟩ := hexact.delays 65 (by decide) (by omega)
      cases hdelay
    refine ⟨hfew, ?_⟩
    by_cases hnone : ex.config.maxRetries.toNat = 0
    · have hbase : ex.config.baseBackoffMs.toNat < 2 ^ 64 := ex.config.baseBackoffMs.toNat_lt
      rw [hnone]
      omega
    · have hpos : 1 ≤ ex.config.maxRetries.toNat := Nat.pos_of_ne_zero hnone
      exact (exists_jittered_iff hpos hfew).mp (hexact.delays _ hpos le_rfl)
  · rintro ⟨hfew, hlast⟩
    have hdelays : ∀ k, 1 ≤ k → k ≤ ex.config.maxRetries.toNat →
        ∃ delay, ex.delay (UInt32.ofNat k) = some delay ∧ ex.Jittered k delay := by
      intro k hpos hk
      refine (exists_jittered_iff hpos (hk.trans hfew)).mpr (lt_of_le_of_lt ?_ hlast)
      exact Nat.mul_le_mul_left _ (Nat.pow_le_pow_right (by decide) (Nat.sub_le_sub_right hk 1))
    obtain ⟨delays, hends⟩ := failingLoop_ends hfew
      (fun k hpos hk => (hdelays k hpos hk).imp fun _ h => h.1) ex.config.maxRetries.toNat 0
      (Nat.zero_add _)
    exact ⟨hdelays, ⟨_, delays, hends⟩⟩

/-- A configuration with 65 retries. -/
def manyRetries : ResilientExecutor :=
  ⟨{ ResilienceConfig.default with maxRetries := 65 }, "kv", "redis"⟩

/-- The delay after attempt number 65 overflows. -/
theorem delay_after_65_attempts_overflows : ¬ ∀ ex : ResilientExecutor, ex.BackoffExact := by
  intro hall
  obtain ⟨delay, hdelay, -⟩ := (hall manyRetries).delays 65 (by decide) (by decide)
  cases hdelay

end ResilientExecutor

end Rust

end GoyStore
