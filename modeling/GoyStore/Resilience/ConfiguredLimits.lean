import GoyStore.Library.JitteredDelays
import GoyStore.Resilience.BreakerHistory
import GoyStore.Resilience.CallerCancellation

/-!
# The limits that a Go configuration sets

`NewResilientExecutor` and `ExecuteWithResilience` turn the fields of a `ResilienceConfig`, which
are 64-bit integers, into an `int32` threshold and into durations in `int64` nanoseconds, and shift
a factor by the number of the attempt.  None of the fields has an upper bound.

For positive fields the threshold, the two timeouts and all delays are as configured if and only if
they fit into these types (`asConfigured_iff`).  A greater field, meant to switch a mechanism off,
can do the opposite: a threshold of `2 ^ 32 + 1` opens the circuit at the first failure
(`huge_threshold_opens_at_once`).
-/

namespace GoyStore

namespace Go

/-- The conversion of a `float64` to a `time.Duration`, which truncates a number in the range of the
type; what it makes of another one depends on the implementation. -/
structure DurationConversion where
  /-- The duration. -/
  toDuration : ℚ → Int64
  /-- A number in range is truncated. -/
  exact : ∀ x : ℚ, -2 ^ 63 ≤ x → x < 2 ^ 63 →
    (toDuration x).toInt = if 0 ≤ x then ⌊x⌋ else ⌈x⌉

namespace ResilientExecutor

/-- The local `timeout`. -/
def operationTimeout (ex : ResilientExecutor) : Int64 :=
  ex.cfg.operationTimeoutSeconds * 1000000000

/-- The local `baseBackoff`. -/
def baseBackoff (ex : ResilientExecutor) : Int64 := ex.cfg.baseBackoffMS * 1000000

/-- `int(1) << shift` with the local `shift`. -/
def factor (attempt : Int64) : Int64 :=
  let shift := (attempt - 1).toUInt64.toNat
  if shift < 64 then Int64.ofNat (2 ^ shift) else 0

/-- The local `sleepDur`, when `rand.Float64()` returns `r`; the products are exact. -/
def sleepDur (conv : DurationConversion) (ex : ResilientExecutor) (attempt : Int64) (r : ℚ) :
    Int64 :=
  conv.toDuration (ex.baseBackoff.toInt * (factor attempt).toInt * (3 / 4 + r * (1 / 2)))

/-- The breaker of an executor after a history. -/
def breakerAfter (ex : ResilientExecutor) (h : History) : CircuitBreaker :=
  counting.after ex.newBreaker h

/-- When the breaker is closed, the next failure opens it exactly if it is number `n` since the last
success. -/
def OpensAt (ex : ResilientExecutor) (n : ℤ) : Prop :=
  ∀ (h : History) (now : ℕ), (ex.breakerAfter h).state = .Closed →
    ((ex.breakerAfter (h ++ [(now, .onFailure)])).state = .Open ↔ (h.failures : ℤ) + 1 = n)

end ResilientExecutor

namespace ResilienceConfig

/-- All fields are positive. -/
structure Positive (cfg : ResilienceConfig) : Prop where
  /-- `MaxRetries`. -/
  maxRetries : 0 < cfg.maxRetries.toInt
  /-- `BaseBackoffMS`. -/
  baseBackoff : 0 < cfg.baseBackoffMS.toInt
  /-- `CircuitBreakerThreshold`. -/
  threshold : 0 < cfg.circuitBreakerThreshold.toInt
  /-- `CircuitBreakerResetSeconds`. -/
  reset : 0 < cfg.circuitBreakerResetSeconds.toInt
  /-- `OperationTimeoutSeconds`. -/
  operationTimeout : 0 < cfg.operationTimeoutSeconds.toInt

/-- The base backoff in nanoseconds, doubled for each attempt before. -/
def backoff (cfg : ResilienceConfig) (attempt : ℤ) : ℤ :=
  cfg.baseBackoffMS.toInt * 1000000 * 2 ^ (attempt.toNat - 1)

/-- An executor of the configuration does what is configured. -/
structure AsConfigured (cfg : ResilienceConfig) (ex : ResilientExecutor) : Prop where
  /-- A closed breaker opens at the failure in a row that is configured. -/
  threshold : ex.OpensAt cfg.circuitBreakerThreshold.toInt
  /-- The reset timeout is the configured number of seconds. -/
  reset : ex.newBreaker.resetTimeout.toInt = cfg.circuitBreakerResetSeconds.toInt * 1000000000
  /-- So is the timeout of an attempt. -/
  operationTimeout : ex.operationTimeout.toInt = cfg.operationTimeoutSeconds.toInt * 1000000000
  /-- The delays are positive and within 25% of the doubled backoff. -/
  delays : ∀ (conv : DurationConversion) (attempt : Int64), 1 ≤ attempt.toInt →
    attempt.toInt ≤ cfg.maxRetries.toInt → ∀ r : ℚ, 0 ≤ r → r < 1 →
      0 < (ex.sleepDur conv attempt r).toInt ∧
        3 * cfg.backoff attempt.toInt ≤ 4 * (ex.sleepDur conv attempt r).toInt ∧
        4 * (ex.sleepDur conv attempt r).toInt ≤ 5 * cfg.backoff attempt.toInt

/-- The threshold is an `int32`, and the timeouts and the last delay, with the greatest jitter, are
durations. -/
structure Fits (cfg : ResilienceConfig) : Prop where
  /-- The threshold. -/
  threshold : cfg.circuitBreakerThreshold.toInt < 2 ^ 31
  /-- The reset timeout. -/
  reset : cfg.circuitBreakerResetSeconds.toInt * 1000000000 < 2 ^ 63
  /-- The timeout of an attempt. -/
  operationTimeout : cfg.operationTimeoutSeconds.toInt * 1000000000 < 2 ^ 63
  /-- The last delay. -/
  delays : 5 * cfg.backoff cfg.maxRetries.toInt ≤ 2 ^ 65

end ResilienceConfig

open ResilienceConfig

variable {cfg : ResilienceConfig} {metrics : Bool} {contract backend : String}

/-! ### The executor of a configuration -/

/-- A positive field keeps its value. -/
lemma ResilientExecutor.positiveOr_of_pos {default field : Int64} (h : 0 < field.toInt) :
    positiveOr default field = field := by
  have hzero : (0 : Int64).toInt = 0 := rfl
  refine if_neg fun hle => ?_
  rw [Int64.le_iff_toInt_le, hzero] at hle
  omega

/-- An executor with positive fields has the configuration as it is. -/
lemma new_cfg (hpos : cfg.Positive) :
    (ResilientExecutor.new cfg metrics contract backend).cfg = cfg := by
  simp only [ResilientExecutor.new, ResilientExecutor.positiveOr_of_pos hpos.maxRetries,
    ResilientExecutor.positiveOr_of_pos hpos.baseBackoff,
    ResilientExecutor.positiveOr_of_pos hpos.threshold,
    ResilientExecutor.positiveOr_of_pos hpos.reset,
    ResilientExecutor.positiveOr_of_pos hpos.operationTimeout]

/-! ### Seconds -/

/-- A product of a field with a positive number is exact when it fits into an `int64`. -/
lemma toInt_mul_eq_iff {field u : Int64} (hpos : 0 < field.toInt) (hu : 0 < u.toInt) :
    (field * u).toInt = field.toInt * u.toInt ↔ field.toInt * u.toInt < 2 ^ 63 := by
  have hproduct : 0 < field.toInt * u.toInt := Int.mul_pos hpos hu
  constructor
  · intro heq
    rw [← heq]
    exact (field * u).toInt_lt
  · intro hlt
    rw [Int64.toInt_mul, Int.bmod_eq_of_le (by omega) (by omega)]

/-- The reset timeout is what is configured when it is a duration. -/
lemma reset_iff (hpos : cfg.Positive) :
    (ResilientExecutor.new cfg metrics contract backend).newBreaker.resetTimeout.toInt =
        cfg.circuitBreakerResetSeconds.toInt * 1000000000 ↔
      cfg.circuitBreakerResetSeconds.toInt * 1000000000 < 2 ^ 63 := by
  have hsecond : (1000000000 : Int64).toInt = 1000000000 := rfl
  have hexact := toInt_mul_eq_iff (u := 1000000000) hpos.reset (by decide)
  rw [hsecond] at hexact
  have hreset : (ResilientExecutor.new cfg metrics contract backend).newBreaker.resetTimeout =
      if cfg.circuitBreakerResetSeconds * 1000000000 ≤ 0 then 30 * 1000000000
      else cfg.circuitBreakerResetSeconds * 1000000000 := by
    rw [ResilientExecutor.newBreaker, new_cfg hpos]
    rfl
  rw [hreset]
  constructor
  · intro heq
    rw [← heq]
    exact Int64.toInt_lt _
  · intro hlt
    have hproduct := hexact.mpr hlt
    have hguard : ¬ cfg.circuitBreakerResetSeconds * 1000000000 ≤ 0 := by
      have hzero : (0 : Int64).toInt = 0 := rfl
      have hreset := hpos.reset
      rw [Int64.le_iff_toInt_le, hproduct, hzero]
      omega
    rw [if_neg hguard]
    exact hproduct

/-- The timeout of an attempt is what is configured when it is a duration. -/
lemma operationTimeout_iff (hpos : cfg.Positive) :
    (ResilientExecutor.new cfg metrics contract backend).operationTimeout.toInt =
        cfg.operationTimeoutSeconds.toInt * 1000000000 ↔
      cfg.operationTimeoutSeconds.toInt * 1000000000 < 2 ^ 63 := by
  rw [ResilientExecutor.operationTimeout, new_cfg hpos]
  exact toInt_mul_eq_iff (u := 1000000000) hpos.operationTimeout (by decide)

/-! ### The threshold -/

/-- A failure is counted before the threshold. -/
lemma openingCount_pos (cfg : ResilienceConfig) : 0 < cfg.openingCount := by
  rw [ResilienceConfig.openingCount]
  omega

/-- The opening count is the configured threshold when that is an `int32`. -/
lemma openingCount_eq_iff (hpos : cfg.Positive) :
    (cfg.openingCount : ℤ) = cfg.circuitBreakerThreshold.toInt ↔
      cfg.circuitBreakerThreshold.toInt < 2 ^ 31 := by
  have hthreshold := hpos.threshold
  have hwrapped := cfg.circuitBreakerThreshold.toInt32.toInt_lt
  rw [ResilienceConfig.openingCount, ResilientExecutor.positiveOr_of_pos hthreshold]
  constructor
  · intro heq
    omega
  · intro hlt
    have hexact : cfg.circuitBreakerThreshold.toInt32.toInt =
        cfg.circuitBreakerThreshold.toInt := by
      rw [Int64.toInt_toInt32, Int.bmod_eq_of_le (by omega) (by omega)]
    omega

/-- The state after a failure. -/
lemma state_onFailure (now : ℕ) (b : CircuitBreaker) : (b.onFailure now).state =
    if b.failureThreshold ≤ b.consecutiveFailures + 1 then .Open else b.state := by
  unfold CircuitBreaker.onFailure
  simp only
  split_ifs <;> rfl

/-- A breaker that is closed: its counter has the failures since the last success, and they are
fewer than the opening count. -/
structure Below (cfg : ResilienceConfig) (b : CircuitBreaker) (n : ℕ) : Prop where
  /-- The counter. -/
  counter : b.consecutiveFailures.toInt = n
  /-- The failures. -/
  low : n < cfg.openingCount

/-- The breaker after one more call. -/
lemma breakerAfter_concat (ex : ResilientExecutor) (h : History) (c : ℕ × BreakerCall) :
    ex.breakerAfter (h ++ [c]) = counting.perform (ex.breakerAfter h) c :=
  List.foldl_concat ..

section Threshold

variable {ex : ResilientExecutor} {h : History} {n : ℕ} {b : CircuitBreaker}

/-- A failure that a closed breaker counts opens it at the opening count. -/
lemma open_iff_of_below (hex : ex = .new cfg metrics contract backend) (hb : Below cfg b n)
    (hthreshold : b.failureThreshold = ex.newBreaker.failureThreshold) :
    b.failureThreshold ≤ b.consecutiveFailures + 1 ↔ n + 1 = cfg.openingCount := by
  have hlow := hb.low
  rw [hthreshold, hex, le_add_one_iff hb.counter hlow]
  omega

/-- The breaker after some calls: the threshold stays, and when it is closed it is below it. -/
lemma below_after (hex : ex = .new cfg metrics contract backend) (h : History) :
    (ex.breakerAfter h).failureThreshold = ex.newBreaker.failureThreshold ∧
      ((ex.breakerAfter h).state = .Closed → Below cfg (ex.breakerAfter h) h.failures) := by
  induction h using List.reverseRecOn with
  | nil => exact ⟨rfl, fun _ => ⟨rfl, openingCount_pos cfg⟩⟩
  | append_singleton h c ih =>
    obtain ⟨hthreshold, hbelow⟩ := ih
    obtain ⟨now, call⟩ := c
    rw [breakerAfter_concat]
    cases call with
    | canExecute =>
      obtain ⟨hcounter, hthreshold', -, -⟩ := (ex.breakerAfter h).canExecute_fields now
      refine ⟨hthreshold'.trans hthreshold, fun hclosed => ?_⟩
      have hstate := breaker.canExecute_state now (ex.breakerAfter h)
      have hclosed' : (ex.breakerAfter h).state = .Closed := by
        have heq := hclosed.symm.trans hstate
        split_ifs at heq
        exact heq.symm
      obtain ⟨hcount, hlow⟩ := hbelow hclosed'
      rw [History.failures_canExecute]
      exact ⟨(congrArg Int32.toInt hcounter).trans hcount, hlow⟩
    | onSuccess =>
      refine ⟨hthreshold, fun _ => ?_⟩
      rw [History.failures_onSuccess]
      exact ⟨rfl, openingCount_pos cfg⟩
    | onFailure =>
      obtain ⟨hcounter, hthreshold', -, -, -⟩ := (ex.breakerAfter h).onFailure_fields now
      refine ⟨hthreshold'.trans hthreshold, fun hclosed => ?_⟩
      have hstate := state_onFailure now (ex.breakerAfter h)
      have heq := hclosed.symm.trans hstate
      split_ifs at heq with hopen
      have hb := hbelow heq.symm
      have hnot := mt (open_iff_of_below hex hb hthreshold).mpr hopen
      have hlow := hb.low
      rw [History.failures_onFailure]
      refine ⟨?_, by omega⟩
      rw [Nat.cast_succ, ← toInt_add_one hb.counter hlow]
      exact congrArg Int32.toInt hcounter

/-- A breaker that is closed is opened by the failure at the opening count, and by no other. -/
lemma opensAt_openingCount (hex : ex = .new cfg metrics contract backend) :
    ex.OpensAt cfg.openingCount := by
  intro h now hclosed
  obtain ⟨hthreshold, hbelow⟩ := below_after hex h
  have hopen := open_iff_of_below hex (hbelow hclosed) hthreshold
  have hstate : (ex.breakerAfter (h ++ [(now, .onFailure)])).state = _ :=
    (congrArg CircuitBreaker.state (breakerAfter_concat ex h (now, .onFailure))).trans
      (state_onFailure now (ex.breakerAfter h))
  have hcast : (h.failures : ℤ) + 1 = cfg.openingCount ↔ h.failures + 1 = cfg.openingCount := by
    omega
  rw [hcast, hstate, ← hopen, hclosed]
  split_ifs with hreached
  · exact iff_of_true rfl hreached
  · exact iff_of_false (by decide) hreached

/-- Fewer failures in a row than the opening count leave the breaker closed. -/
lemma closed_of_few (hex : ex = .new cfg metrics contract backend) {k : ℕ}
    (hk : k < cfg.openingCount) :
    ∃ h : History, h.failures = k ∧ (ex.breakerAfter h).state = .Closed := by
  induction k with
  | zero => exact ⟨[], rfl, rfl⟩
  | succ k ih =>
    obtain ⟨h, rfl, hclosed⟩ := ih (Nat.lt_of_succ_lt hk)
    refine ⟨h ++ [(0, .onFailure)], History.failures_onFailure .., ?_⟩
    obtain ⟨hthreshold, hbelow⟩ := below_after hex h
    have hnot := mt (open_iff_of_below hex (hbelow hclosed) hthreshold).mp (Nat.ne_of_lt hk)
    rw [breakerAfter_concat]
    exact ((state_onFailure 0 (ex.breakerAfter h)).trans (if_neg hnot)).trans hclosed

/-- A closed breaker opens at a given failure in a row when that is the opening count. -/
lemma opensAt_iff (hex : ex = .new cfg metrics contract backend) (n : ℤ) :
    ex.OpensAt n ↔ (cfg.openingCount : ℤ) = n := by
  constructor
  · intro hopens
    have hpos := openingCount_pos cfg
    obtain ⟨h, hfailures, hclosed⟩ := closed_of_few hex (Nat.sub_lt hpos Nat.one_pos)
    have hlast : (h.failures : ℤ) + 1 = cfg.openingCount := by omega
    rw [← hlast]
    exact (hopens h 0 hclosed).mp ((opensAt_openingCount hex h 0 hclosed).mpr hlast)
  · rintro rfl
    exact opensAt_openingCount hex

end Threshold

/-! ### The delays -/

/-- A conversion that makes the least duration of a number out of range. -/
def DurationConversion.leastOutside : DurationConversion where
  toDuration x :=
    if -2 ^ 63 ≤ x ∧ x < 2 ^ 63 then Int64.ofInt (if 0 ≤ x then ⌊x⌋ else ⌈x⌉)
    else Int64.minValue
  exact x hlow hhigh := by
    rw [if_pos ⟨hlow, hhigh⟩]
    have hbounds : -2 ^ 63 ≤ (if 0 ≤ x then ⌊x⌋ else ⌈x⌉) ∧
        (if 0 ≤ x then ⌊x⌋ else ⌈x⌉) < 2 ^ 63 := by
      split_ifs with hsign
      · refine ⟨?_, Int.floor_lt.mpr (by exact_mod_cast hhigh)⟩
        exact (by norm_num : (-2 ^ 63 : ℤ) ≤ 0).trans (Int.floor_nonneg.mpr hsign)
      · refine ⟨Int.le_ceil_iff.mpr ?_, ?_⟩
        · push_cast
          linarith
        · refine lt_of_le_of_lt (Int.ceil_le.mpr ?_) (by norm_num : (0 : ℤ) < 2 ^ 63)
          exact_mod_cast (not_le.mp hsign).le
    exact Int64.toInt_ofInt_of_le hbounds.1 hbounds.2

/-- The factor of an attempt. -/
lemma factor_toInt {attempt : Int64} (hpos : 1 ≤ attempt.toInt) (hsmall : attempt.toInt ≤ 63) :
    (ResilientExecutor.factor attempt).toInt = 2 ^ (attempt.toInt.toNat - 1) := by
  have hone : (1 : Int64).toInt = 1 := rfl
  have hzero : (0 : Int64).toInt = 0 := rfl
  have hsub : (attempt - 1).toInt = attempt.toInt - 1 := by
    rw [Int64.toInt_sub, hone, Int.bmod_eq_of_le (by omega) (by omega)]
  have hshift : (attempt - 1).toUInt64.toNat = attempt.toInt.toNat - 1 := by
    have hnonneg : (0 : Int64) ≤ attempt - 1 := by
      rw [Int64.le_iff_toInt_le, hsub, hzero]
      omega
    rw [Int64.toNat_toUInt64_of_le hnonneg, Int64.toNatClampNeg, hsub]
    omega
  have hpow : 2 ^ (attempt.toInt.toNat - 1) < 2 ^ 63 :=
    Nat.pow_lt_pow_right (by decide) (by omega)
  rw [ResilientExecutor.factor]
  simp only [hshift]
  rw [if_pos (by omega), Int64.toInt_ofNat_of_lt hpow, Nat.cast_pow, Nat.cast_ofNat]

/-- The backoffs grow with the attempts. -/
lemma backoff_mono (hpos : cfg.Positive) {m n : ℤ} (h : m ≤ n) : cfg.backoff m ≤ cfg.backoff n := by
  have hbase := hpos.baseBackoff
  have hexponent : m.toNat - 1 ≤ n.toNat - 1 := by omega
  have hpow : (2 : ℤ) ^ (m.toNat - 1) ≤ 2 ^ (n.toNat - 1) :=
    pow_le_pow_right₀ (by norm_num) hexponent
  exact Int.mul_le_mul_of_nonneg_left hpow (by omega)

/-- When the last delay is a duration, there are few attempts. -/
lemma maxRetries_le (hpos : cfg.Positive) (hfits : 5 * cfg.backoff cfg.maxRetries.toInt ≤ 2 ^ 65) :
    cfg.maxRetries.toInt ≤ 63 := by
  by_contra hmany
  have hbase := hpos.baseBackoff
  have hlate : cfg.backoff 64 ≤ cfg.backoff cfg.maxRetries.toInt := backoff_mono hpos (by omega)
  have hlarge : cfg.backoff 64 = cfg.baseBackoffMS.toInt * 1000000 * 2 ^ 63 := rfl
  omega

/-- The product of the local `baseBackoff` with the factor, when the last delay is a duration. -/
lemma baseBackoff_mul_factor {ex : ResilientExecutor} (hex : ex = .new cfg metrics contract backend)
    (hpos : cfg.Positive) (hfits : 5 * cfg.backoff cfg.maxRetries.toInt ≤ 2 ^ 65) {attempt : Int64}
    (hfirst : 1 ≤ attempt.toInt) (hlast : attempt.toInt ≤ cfg.maxRetries.toInt) :
    ex.baseBackoff.toInt * (ResilientExecutor.factor attempt).toInt =
      cfg.backoff attempt.toInt := by
  have hfew := maxRetries_le hpos hfits
  have hmillisecond : (1000000 : Int64).toInt = 1000000 := rfl
  have hone : cfg.backoff 1 ≤ cfg.backoff cfg.maxRetries.toInt := backoff_mono hpos (by omega)
  have hbase : cfg.backoff 1 = cfg.baseBackoffMS.toInt * 1000000 := Int.mul_one _
  have hexact := (toInt_mul_eq_iff (u := 1000000) hpos.baseBackoff (by decide)).mpr
    (by rw [hmillisecond]; omega)
  rw [ResilientExecutor.baseBackoff, hex, new_cfg hpos, factor_toInt hfirst (by omega), hexact,
    hmillisecond]
  rfl

/-- The truncated product of a backoff with a jitter is within 25% of it. -/
lemma floor_within {m : ℤ} {r : ℚ} (hpos : 0 < m) (hlow : 0 ≤ r) (hhigh : r < 1) :
    0 < ⌊((4 * m : ℤ) : ℚ) * (3 / 4 + r * (1 / 2))⌋ ∧
      3 * (4 * m) ≤ 4 * ⌊((4 * m : ℤ) : ℚ) * (3 / 4 + r * (1 / 2))⌋ ∧
      4 * ⌊((4 * m : ℤ) : ℚ) * (3 / 4 + r * (1 / 2))⌋ ≤ 5 * (4 * m) := by
  have hm : (0 : ℚ) < m := by exact_mod_cast hpos
  have hleast : 3 * m ≤ ⌊((4 * m : ℤ) : ℚ) * (3 / 4 + r * (1 / 2))⌋ := by
    rw [Int.le_floor]
    push_cast
    linarith [mul_nonneg hm.le hlow]
  have hgreatest : ⌊((4 * m : ℤ) : ℚ) * (3 / 4 + r * (1 / 2))⌋ ≤ 5 * m := by
    rw [← Int.lt_add_one_iff, Int.floor_lt]
    push_cast
    linarith [mul_le_mul_of_nonneg_left hhigh.le hm.le]
  omega

/-- When the last delay is a duration, all delays are positive and within 25%. -/
lemma delays_of_fits {ex : ResilientExecutor} (hex : ex = .new cfg metrics contract backend)
    (hpos : cfg.Positive) (hfits : 5 * cfg.backoff cfg.maxRetries.toInt ≤ 2 ^ 65)
    (conv : DurationConversion) {attempt : Int64} (hfirst : 1 ≤ attempt.toInt)
    (hlast : attempt.toInt ≤ cfg.maxRetries.toInt) {r : ℚ} (hlow : 0 ≤ r) (hhigh : r < 1) :
    0 < (ex.sleepDur conv attempt r).toInt ∧
      3 * cfg.backoff attempt.toInt ≤ 4 * (ex.sleepDur conv attempt r).toInt ∧
      4 * (ex.sleepDur conv attempt r).toInt ≤ 5 * cfg.backoff attempt.toInt := by
  have hproduct := baseBackoff_mul_factor hex hpos hfits hfirst hlast
  have hmono := backoff_mono hpos hlast
  -- a millisecond is a multiple of four nanoseconds
  obtain ⟨m, hm, hmpos⟩ : ∃ m, cfg.backoff attempt.toInt = 4 * m ∧ 0 < m := by
    refine ⟨cfg.baseBackoffMS.toInt * 250000 * 2 ^ (attempt.toInt.toNat - 1), ?_, ?_⟩
    · unfold backoff
      ring
    · have hbase := hpos.baseBackoff
      positivity
  have hsleep : ex.sleepDur conv attempt r =
      conv.toDuration (((4 * m : ℤ) : ℚ) * (3 / 4 + r * (1 / 2))) := by
    rw [ResilientExecutor.sleepDur, ← Int.cast_mul, hproduct, hm]
  have hm' : (0 : ℚ) < m := by exact_mod_cast hmpos
  have hrange : 5 * (4 * (m : ℚ)) ≤ 2 ^ 65 := by exact_mod_cast (by omega : 5 * (4 * m) ≤ 2 ^ 65)
  have hnonneg : 0 ≤ ((4 * m : ℤ) : ℚ) * (3 / 4 + r * (1 / 2)) := by positivity
  have hlt : ((4 * m : ℤ) : ℚ) * (3 / 4 + r * (1 / 2)) < 2 ^ 63 := by
    push_cast
    linarith [mul_lt_mul_of_pos_left hhigh hm']
  have hexact := conv.exact _ (by linarith) hlt
  rw [if_pos hnonneg] at hexact
  rw [hsleep, hexact, hm]
  exact floor_within hmpos hlow hhigh

/-- When the delays of the last attempt are positive and within 25% for a conversion that makes the
least duration of a number out of range, the last delay is a duration. -/
lemma fits_of_delays (ex : ResilientExecutor)
    (hdelays : ∀ r : ℚ, 0 ≤ r → r < 1 →
      0 < (ex.sleepDur .leastOutside cfg.maxRetries r).toInt ∧
        3 * cfg.backoff cfg.maxRetries.toInt ≤
          4 * (ex.sleepDur .leastOutside cfg.maxRetries r).toInt) :
    5 * cfg.backoff cfg.maxRetries.toInt ≤ 2 ^ 65 := by
  obtain ⟨p, hp⟩ : ∃ p : ℤ,
      p = ex.baseBackoff.toInt * (ResilientExecutor.factor cfg.maxRetries).toInt := ⟨_, rfl⟩
  have hsleep : ∀ r : ℚ, ex.sleepDur .leastOutside cfg.maxRetries r =
      DurationConversion.leastOutside.toDuration ((p : ℚ) * (3 / 4 + r * (1 / 2))) := by
    intro r
    rw [ResilientExecutor.sleepDur, ← Int.cast_mul, ← hp]
  -- a product out of range would give a negative delay
  have hinside : ∀ r : ℚ, 0 ≤ r → r < 1 → -2 ^ 63 ≤ (p : ℚ) * (3 / 4 + r * (1 / 2)) ∧
      (p : ℚ) * (3 / 4 + r * (1 / 2)) < 2 ^ 63 := by
    intro r hlow hhigh
    by_contra hout
    have hpositive := (hdelays r hlow hhigh).1
    rw [hsleep r, DurationConversion.leastOutside] at hpositive
    simp only [if_neg hout] at hpositive
    exact absurd hpositive (by decide)
  obtain ⟨hbelow, habove⟩ := hinside 0 le_rfl one_pos
  obtain ⟨hpositive, hfirst⟩ := hdelays 0 le_rfl one_pos
  rw [hsleep 0, DurationConversion.leastOutside.exact _ hbelow habove] at hpositive hfirst
  have hsign : 0 ≤ (p : ℚ) * (3 / 4 + 0 * (1 / 2)) := by
    by_contra hneg
    rw [if_neg hneg] at hpositive
    have hceil : ⌈(p : ℚ) * (3 / 4 + 0 * (1 / 2))⌉ ≤ 0 := Int.ceil_le.mpr (by
      exact_mod_cast (not_le.mp hneg).le)
    omega
  rw [if_pos hsign] at hpositive hfirst
  have hfloor : (⌊(p : ℚ) * (3 / 4 + 0 * (1 / 2))⌋ : ℚ) ≤ p * (3 / 4 + 0 * (1 / 2)) :=
    Int.floor_le _
  have hp0 : (0 : ℚ) < p := by
    have hone : (1 : ℚ) ≤ ⌊(p : ℚ) * (3 / 4 + 0 * (1 / 2))⌋ := by exact_mod_cast hpositive
    linarith
  have hend : (p : ℚ) * (3 / 4 + 1 / 2) ≤ 2 ^ 63 :=
    (JitteredDelays.forall_lt_iff hp0 (by norm_num)).mp fun r hlow hhigh =>
      (hinside r hlow hhigh).2
  have hbackoff : 3 * (cfg.backoff cfg.maxRetries.toInt : ℚ) ≤
      4 * ⌊(p : ℚ) * (3 / 4 + 0 * (1 / 2))⌋ := by exact_mod_cast hfirst
  have hfits : 5 * (cfg.backoff cfg.maxRetries.toInt : ℚ) ≤ 2 ^ 65 := by linarith
  exact_mod_cast hfits

/-! ### The configuration -/

/-- An executor whose fields are positive does what is configured if and only if the threshold is an
`int32` and the timeouts and the last delay, with the greatest jitter, are durations. -/
theorem asConfigured_iff (cfg : ResilienceConfig) (hpos : cfg.Positive) (metrics : Bool)
    (contract backend : String) :
    cfg.AsConfigured (.new cfg metrics contract backend) ↔ cfg.Fits := by
  have hthreshold := (opensAt_iff (rfl : ResilientExecutor.new cfg metrics contract backend = _)
    cfg.circuitBreakerThreshold.toInt).trans (openingCount_eq_iff hpos)
  have hfirst := hpos.maxRetries
  constructor
  · intro hconfigured
    refine ⟨hthreshold.mp hconfigured.threshold, (reset_iff hpos).mp hconfigured.reset,
      (operationTimeout_iff hpos).mp hconfigured.operationTimeout, ?_⟩
    refine fits_of_delays (.new cfg metrics contract backend) fun r hlow hhigh => ?_
    obtain ⟨hpositive, hwithin, -⟩ :=
      hconfigured.delays .leastOutside cfg.maxRetries hfirst le_rfl r hlow hhigh
    exact ⟨hpositive, hwithin⟩
  · intro hfits
    exact ⟨hthreshold.mpr hfits.threshold, (reset_iff hpos).mpr hfits.reset,
      (operationTimeout_iff hpos).mpr hfits.operationTimeout,
      fun conv _ hone hlast _ hlow hhigh =>
        delays_of_fits rfl hpos hfits.delays conv hone hlast hlow hhigh⟩

/-- The configuration of the documentation. -/
def documented : ResilienceConfig := ⟨3, 100, 5, 30, 5⟩

/-- Its fields are positive. -/
lemma positive_documented : documented.Positive := by
  constructor <;> decide

/-- The documented configuration is kept. -/
theorem asConfigured_documented :
    documented.Positive ∧
      (documented.AsConfigured (.new documented true "kv" "redis") ↔ documented.Fits) :=
  ⟨positive_documented, asConfigured_iff documented positive_documented true "kv" "redis"⟩

/-- A threshold that is meant never to be reached. -/
def hugeThreshold : ResilienceConfig := { documented with circuitBreakerThreshold := 4294967297 }

/-- The circuit opens at the first failure. -/
theorem huge_threshold_opens_at_once :
    ¬ ∀ cfg : ResilienceConfig, cfg.Positive →
      cfg.AsConfigured (.new cfg true "kv" "redis") := by
  intro hall
  have hpositive : hugeThreshold.Positive := by
    constructor <;> decide
  have hopens := (hall hugeThreshold hpositive).threshold [] 0 rfl
  have hthreshold := hopens.mp rfl
  exact absurd hthreshold (by decide)

end Go

end GoyStore
