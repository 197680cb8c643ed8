import GoyStore.Resilience.AttemptAccounting

/-!
# One configuration, two executors

The Rust and the Go executor have loops of different shapes, breakers with different counters and
different rules for the fields of their configuration that are zero.  `Alike` relates breakers that
decide the same, `loop_agree` runs the two loops side by side, and `oneBehaviour_withGoDefaults`
compares the executors that are built from one configuration: they do the same for every sequence
of calls and every script, as long as nothing overflows and the number of retries, the threshold
and the reset timeout are positive.
-/

namespace GoyStore

namespace ScriptedExecutor

variable {X Y : ScriptedExecutor} {α : Type}

/-! ### Breakers that decide the same -/

/-- Two breakers decide the same from now on. -/
structure Alike (X Y : ScriptedExecutor) (b : X.Cb) (c : Y.Cb) : Prop where
  /-- The same state. -/
  state : X.state b = Y.state c
  /-- The same number of failures. -/
  counter : X.counting.counter b = Y.counting.counter c
  /-- The number is not negative. -/
  nonneg : 0 ≤ X.counting.counter b
  /-- The same threshold. -/
  threshold : X.counting.threshold b = Y.counting.threshold c
  /-- The same reset timeout. -/
  resetTimeout : X.resetTimeout b = Y.resetTimeout c
  /-- Unless they are closed, the same time of the last failure. -/
  lastFailure : X.state b ≠ .Closed → X.lastFailure b = Y.lastFailure c

namespace Alike

variable {b : X.Cb} {c : Y.Cb}

/-- When they are not closed, the reset timeout runs in both or in neither. -/
lemma timeoutRunning_iff (h : Alike X Y b c) (hopen : X.state b ≠ .Closed) (now : ℕ) :
    X.TimeoutRunning now b ↔ Y.TimeoutRunning now c := by
  rw [BreakerModel.TimeoutRunning, BreakerModel.TimeoutRunning, h.lastFailure hopen,
    h.resetTimeout]

/-- Both are blocked or neither is. -/
lemma blocked_iff (h : Alike X Y b c) (now : ℕ) : X.Blocked now b ↔ Y.Blocked now c := by
  rw [BreakerModel.Blocked, BreakerModel.Blocked, ← h.state]
  refine and_congr_right fun hopen => h.timeoutRunning_iff ?_ now
  rw [hopen]
  decide

/-- An admission check keeps them alike. -/
lemma canExecute (h : Alike X Y b c) (now : ℕ) :
    Alike X Y (X.canExecute now b).2 (Y.canExecute now c).2 := by
  obtain ⟨hcounter, hthreshold, hlast, hreset⟩ := X.counting.canExecute_frame now b
  obtain ⟨hcounter', hthreshold', hlast', hreset'⟩ := Y.counting.canExecute_frame now c
  have hprobes : (X.state b = .Open ∧ ¬ X.TimeoutRunning now b) ↔
      (Y.state c = .Open ∧ ¬ Y.TimeoutRunning now c) := by
    rw [← h.state]
    refine and_congr_right fun hopen => not_congr (h.timeoutRunning_iff ?_ now)
    rw [hopen]
    decide
  refine ⟨?_, ?_, ?_, ?_, ?_, fun hne => ?_⟩
  · rw [X.canExecute_state, Y.canExecute_state]
    by_cases hprobe : Y.state c = .Open ∧ ¬ Y.TimeoutRunning now c
    · rw [if_pos hprobe, if_pos (hprobes.mpr hprobe)]
    · rw [if_neg hprobe, if_neg fun hX => hprobe (hprobes.mp hX), h.state]
  · rw [hcounter, hcounter', h.counter]
  · rw [hcounter]
    exact h.nonneg
  · rw [hthreshold, hthreshold', h.threshold]
  · rw [hreset, hreset', h.resetTimeout]
  · rw [hlast, hlast']
    refine h.lastFailure fun hclosed => hne ?_
    rw [X.canExecute_state, hclosed, if_neg]
    rintro ⟨hopen, -⟩
    cases hopen

/-- A success keeps them alike. -/
lemma onSuccess (h : Alike X Y b c) : Alike X Y (X.onSuccess b) (Y.onSuccess c) := by
  obtain ⟨hcounter, hthreshold, -, hreset⟩ := X.counting.onSuccess_frame b
  obtain ⟨hcounter', hthreshold', -, hreset'⟩ := Y.counting.onSuccess_frame c
  refine ⟨?_, ?_, Int.le_of_eq hcounter.symm, ?_, ?_, fun hne => absurd (X.onSuccess_state b) hne⟩
  · rw [X.onSuccess_state, Y.onSuccess_state]
  · rw [hcounter, hcounter']
  · rw [hthreshold, hthreshold', h.threshold]
  · rw [hreset, hreset', h.resetTimeout]

/-- A failure that both can count keeps them alike. -/
lemma onFailure (h : Alike X Y b c) (now : ℕ)
    (hX : X.counting.counter b < X.counting.capacity)
    (hY : Y.counting.counter c < Y.counting.capacity) :
    Alike X Y (X.counting.onFailure now b) (Y.counting.onFailure now c) := by
  obtain ⟨hthreshold, hlast, hreset⟩ := X.counting.onFailure_frame now b
  obtain ⟨hthreshold', hlast', hreset'⟩ := Y.counting.onFailure_frame now c
  have hnonneg := h.nonneg
  obtain ⟨hcounter, hstate⟩ := X.counting.onFailure_counts now b hnonneg hX
  obtain ⟨hcounter', hstate'⟩ := Y.counting.onFailure_counts now c (h.counter ▸ hnonneg) hY
  refine ⟨?_, ?_, by omega, ?_, ?_, fun _ => ?_⟩
  · rw [hstate, hstate', h.threshold, h.counter, h.state]
  · rw [hcounter, hcounter', h.counter]
  · rw [hthreshold, hthreshold', h.threshold]
  · rw [hreset, hreset', h.resetTimeout]
  · rw [hlast, hlast']

end Alike

/-! ### Calls that agree -/

/-- Two calls both succeed with one value, are both refused, or both fail. -/
def EndsAgree : CallEnd α → CallEnd α → Prop
  | .returned value, .returned value' => value = value'
  | .refused _, .refused _ => True
  | .failed _, .failed _ => True
  | _, _ => False

/-- Two calls did the same. -/
structure Agree (r : Report X.Cb α) (s : Report Y.Cb α) : Prop where
  /-- Both succeed, are refused or fail. -/
  ending : EndsAgree r.ending s.ending
  /-- They invoke the operation equally often. -/
  invocations : r.invocations = s.invocations
  /-- They add the same to `retries_total`. -/
  retries : r.retries = s.retries
  /-- Their breakers go through the same states. -/
  states : r.states = s.states

/-- The two executors have the same labels and publish metrics. -/
structure SameLabels (ex : X.Executor) (ey : Y.Executor) : Prop where
  /-- The label `contract`. -/
  contract : X.contract ex = Y.contract ey
  /-- The label `backend`. -/
  backend : X.backend ex = Y.backend ey
  /-- The first publishes metrics. -/
  left : X.hasMetrics ex = true
  /-- The second publishes metrics. -/
  right : Y.hasMetrics ey = true

variable {ex : X.Executor} {ey : Y.Executor} {call : ScriptedCall α} {N : ℕ}

/-- The attempts of a loop that does not overflow do not pass the bound. -/
lemma Attempts.lt_bound (A : X.Attempts ex N) {k : ℕ} (hk : k ≤ A.bound) (hN : k ≤ N)
    (hbackoff : X.backoffOverflows (A.attemptAt k) = false) : k < A.bound := by
  rcases Nat.lt_or_ge k A.bound with hlt | hge
  · exact hlt
  · obtain rfl : k = A.bound := Nat.le_antisymm hk hge
    rcases A.stops with hstop | hstop
    · omega
    · rw [hbackoff] at hstop
      cases hstop

/-- The loop after a failed attempt that does not overflow: it ends, or it goes on with the next
attempt. -/
lemma loop_failed (A : X.Attempts ex N) (hmetrics : X.hasMetrics ex = true) {fuel k n : ℕ}
    {b : X.Cb} {r : Report X.Cb α} (hk : 1 ≤ k) (hbound : k ≤ A.bound)
    (hfails : Fails X (call.outcome n))
    (hr : X.loop ex call (fuel + 1) (A.attemptAt k) n b = some r) (hend : r.ending ≠ .overflowed) :
    X.counting.counter b < X.counting.capacity ∧
      ((k ≤ N ∧ k < A.bound ∧ ∃ r', X.loop ex call fuel (A.attemptAt (k + 1)) (n + 1)
          (X.counting.onFailure (call.ended n) b) = some r' ∧
          r = ⟨r'.ending, r'.invocations + 1, X.retryLabels ex call :: r'.retries,
            X.state (X.counting.onFailure (call.ended n) b) :: r'.states, r'.breaker⟩) ∨
        (N < k ∧ ∃ err, r = ⟨.failed err, 1, [],
          [X.state (X.counting.onFailure (call.ended n) b)],
          X.counting.onFailure (call.ended n) b⟩)) := by
  rw [loop_of_fails hfails] at hr
  by_cases hcapacity : X.counting.counter b < X.counting.capacity
  · refine ⟨hcapacity, ?_⟩
    have hretries := A.retries_eq k hk hbound
    have hnext := A.next_eq k hk hbound
    rcases Nat.lt_or_ge N k with hlast | hN
    · rw [decide_eq_false (by omega)] at hretries
      rw [if_neg (by omega)] at hnext
      simp only [if_pos hcapacity, hretries, hnext, retryIncrements, Bool.false_and,
        Bool.and_false, Bool.false_eq_true, if_false] at hr
      exact .inr ⟨hlast, _, (Option.some.inj hr).symm⟩
    · rw [decide_eq_true hN] at hretries
      rw [if_pos hN] at hnext
      cases hbackoff : X.backoffOverflows (A.attemptAt k) with
      | false =>
        simp only [if_pos hcapacity, hretries, hbackoff, hnext, retryIncrements, hmetrics,
          Bool.and_false, Bool.and_self, Bool.false_eq_true, if_false, if_true,
          List.singleton_append] at hr
        obtain ⟨r', hr', heq⟩ := Option.map_eq_some_iff.mp hr
        exact .inl ⟨hN, A.lt_bound hbound hN hbackoff, r', hr', heq.symm⟩
      | true =>
        simp only [if_pos hcapacity, hretries, hbackoff, Bool.and_self, if_true] at hr
        obtain rfl := Option.some.inj hr
        exact absurd rfl hend
  · rw [if_neg hcapacity] at hr
    obtain rfl := Option.some.inj hr
    exact absurd rfl hend

/-- The loops of two calls with alike breakers run side by side. -/
lemma loop_agree (hlabels : SameLabels ex ey) (A : X.Attempts ex N) (B : Y.Attempts ey N)
    {fuel fuel' k n : ℕ} {b : X.Cb} {c : Y.Cb} (h : Alike X Y b c) {r : Report X.Cb α}
    {s : Report Y.Cb α} (hk : 1 ≤ k) (hA : k ≤ A.bound) (hB : k ≤ B.bound)
    (hr : X.loop ex call fuel (A.attemptAt k) n b = some r)
    (hs : Y.loop ey call fuel' (B.attemptAt k) n c = some s)
    (hrend : r.ending ≠ .overflowed) (hsend : s.ending ≠ .overflowed) :
    Agree r s ∧ Alike X Y r.breaker s.breaker := by
  induction fuel generalizing fuel' k n b c r s with
  | zero => cases hr
  | succ fuel ih =>
    rcases fuel' with - | fuel'
    · cases hs
    · by_cases hfails : Fails X (call.outcome n)
      · have hfails' : Fails Y (call.outcome n) := by
          by_contra hnot
          obtain ⟨value, hvalue⟩ := exists_of_not_fails hnot
          rw [hvalue] at hfails
          exact hfails rfl
        obtain ⟨hX, hmore | hlast⟩ := loop_failed A hlabels.left hk hA hfails hr hrend
        all_goals
          obtain ⟨hY, hmore' | hlast'⟩ := loop_failed B hlabels.right hk hB hfails' hs hsend
        · obtain ⟨hN, hltA, r', hr', rfl⟩ := hmore
          obtain ⟨-, hltB, s', hs', rfl⟩ := hmore'
          have hnext := h.onFailure (call.ended n) hX hY
          obtain ⟨hagree, halike⟩ := ih hnext (by omega) hltA hltB hr' hs' hrend hsend
          refine ⟨⟨hagree.ending, ?_, ?_, ?_⟩, halike⟩
          · exact congrArg (· + 1) hagree.invocations
          · simp only [retryLabels, hlabels.contract, hlabels.backend, hagree.retries]
          · simp only [hnext.state, hagree.states]
        · obtain ⟨hN, -⟩ := hmore
          obtain ⟨hN', -⟩ := hlast'
          omega
        · obtain ⟨hN, -⟩ := hlast
          obtain ⟨hN', -⟩ := hmore'
          omega
        · obtain ⟨-, err, rfl⟩ := hlast
          obtain ⟨-, err', rfl⟩ := hlast'
          have hnext := h.onFailure (call.ended n) hX hY
          exact ⟨⟨trivial, rfl, rfl, by simp only [hnext.state]⟩, hnext⟩
      · obtain ⟨value, hvalue⟩ := exists_of_not_fails hfails
        rw [loop, hvalue] at hr hs
        obtain rfl := Option.some.inj hr
        obtain rfl := Option.some.inj hs
        exact ⟨⟨rfl, rfl, rfl, by simp only [h.onSuccess.state]⟩, h.onSuccess⟩

/-- With enough fuel the loop ends. -/
lemma loop_isSome (A : X.Attempts ex N) {fuel k n : ℕ} {b : X.Cb} (hk : 1 ≤ k)
    (hbound : k ≤ A.bound) (hfuel : A.bound < fuel + k) :
    (X.loop ex call fuel (A.attemptAt k) n b).isSome = true := by
  induction fuel generalizing k n b with
  | zero => omega
  | succ fuel ih =>
    have hretries := A.retries_eq k hk hbound
    have hnext := A.next_eq k hk hbound
    by_cases hfails : Fails X (call.outcome n)
    · rw [loop_of_fails hfails]
      by_cases hcapacity : X.counting.counter b < X.counting.capacity
      · by_cases hN : k ≤ N
        · rw [decide_eq_true hN] at hretries
          rw [if_pos hN] at hnext
          cases hbackoff : X.backoffOverflows (A.attemptAt k) with
          | true =>
            simp only [if_pos hcapacity, hretries, Bool.and_self, if_true, Option.isSome_some]
          | false =>
            have hlt := A.lt_bound hbound hN hbackoff
            simp only [if_pos hcapacity, Bool.and_false, Bool.false_eq_true, if_false, hnext,
              Option.isSome_map]
            exact ih (by omega) hlt (by omega)
        · rw [decide_eq_false hN] at hretries
          rw [if_neg hN] at hnext
          simp only [if_pos hcapacity, hretries, Bool.false_and, Bool.false_eq_true, if_false,
            hnext, Option.isSome_some]
      · rw [if_neg hcapacity]
        rfl
    · obtain ⟨value, hvalue⟩ := exists_of_not_fails hfails
      rw [loop, hvalue]
      rfl

/-- An unblocked breaker admits a call. -/
lemma canExecute_admits {now : ℕ} {b : X.Cb} (h : ¬ X.Blocked now b) :
    X.canExecute now b = (.ok (), (X.canExecute now b).2) :=
  Prod.ext (X.canExecute_of_not_blocked now b h) rfl

/-- With enough fuel the call ends. -/
lemma execute_isSome (A : X.Attempts ex N) {fuel : ℕ} {b : X.Cb} (hfuel : A.bound ≤ fuel) :
    (X.execute ex fuel call b).isSome = true := by
  by_cases hblocked : X.Blocked call.start b
  · rw [execute_of_refused (X.canExecute_of_blocked call.start b hblocked)]
    rfl
  · rw [execute_of_admitted A (canExecute_admits hblocked), Option.isSome_map]
    exact loop_isSome A (Nat.le_refl 1) A.bound_pos (by omega)

/-- Two calls with alike breakers agree. -/
lemma execute_agree (hlabels : SameLabels ex ey) (A : X.Attempts ex N) (B : Y.Attempts ey N)
    {fuel fuel' : ℕ} {b : X.Cb} {c : Y.Cb} (h : Alike X Y b c) {r : Report X.Cb α}
    {s : Report Y.Cb α} (hr : X.execute ex fuel call b = some r)
    (hs : Y.execute ey fuel' call c = some s) (hrend : r.ending ≠ .overflowed)
    (hsend : s.ending ≠ .overflowed) : Agree r s ∧ Alike X Y r.breaker s.breaker := by
  by_cases hblocked : X.Blocked call.start b
  · have hblocked' := (h.blocked_iff call.start).mp hblocked
    rw [execute_of_refused (X.canExecute_of_blocked call.start b hblocked)] at hr
    rw [execute_of_refused (Y.canExecute_of_blocked call.start c hblocked')] at hs
    obtain rfl := Option.some.inj hr
    obtain rfl := Option.some.inj hs
    exact ⟨⟨trivial, rfl, rfl, by simp only [h.state]⟩, h⟩
  · have hblocked' := mt (h.blocked_iff call.start).mpr hblocked
    rw [execute_of_admitted A (canExecute_admits hblocked)] at hr
    rw [execute_of_admitted B (canExecute_admits hblocked')] at hs
    obtain ⟨r', hr', rfl⟩ := Option.map_eq_some_iff.mp hr
    obtain ⟨s', hs', rfl⟩ := Option.map_eq_some_iff.mp hs
    have hadmitted := h.canExecute call.start
    obtain ⟨hagree, halike⟩ := loop_agree hlabels A B hadmitted (Nat.le_refl 1) A.bound_pos
      B.bound_pos hr' hs' hrend hsend
    refine ⟨⟨hagree.ending, hagree.invocations, hagree.retries, ?_⟩, halike⟩
    simp only [hadmitted.state, hagree.states]

/-! ### Sequences of calls -/

/-- Calls one after the other. -/
def run (X : ScriptedExecutor) (ex : X.Executor) (fuel : ℕ) :
    List (ScriptedCall α) → X.Cb → Option (List (Report X.Cb α))
  | [], _ => some []
  | call :: calls, b => (X.execute ex fuel call b).bind fun r =>
      (run X ex fuel calls r.breaker).map (r :: ·)

/-- With enough fuel every call of a sequence ends. -/
lemma run_isSome (A : X.Attempts ex N) {fuel : ℕ} (hfuel : A.bound ≤ fuel)
    (calls : List (ScriptedCall α)) (b : X.Cb) : ∃ rs, X.run ex fuel calls b = some rs := by
  induction calls generalizing b with
  | nil => exact ⟨[], rfl⟩
  | cons call calls ih =>
    obtain ⟨r, hr⟩ := Option.isSome_iff_exists.mp (execute_isSome A hfuel)
    obtain ⟨rs, hrs⟩ := ih r.breaker
    exact ⟨r :: rs, by rw [run, hr, Option.bind_some, hrs, Option.map_some]⟩

/-- Two sequences of calls with alike breakers agree call by call. -/
lemma run_agree (hlabels : SameLabels ex ey) (A : X.Attempts ex N) (B : Y.Attempts ey N)
    {fuel fuel' : ℕ} {calls : List (ScriptedCall α)} {b : X.Cb} {c : Y.Cb} (h : Alike X Y b c)
    {rs : List (Report X.Cb α)} {ss : List (Report Y.Cb α)}
    (hrs : X.run ex fuel calls b = some rs) (hss : Y.run ey fuel' calls c = some ss)
    (hrend : ∀ r ∈ rs, r.ending ≠ .overflowed) (hsend : ∀ s ∈ ss, s.ending ≠ .overflowed) :
    List.Forall₂ Agree rs ss := by
  induction calls generalizing b c rs ss with
  | nil =>
    obtain rfl := Option.some.inj hrs
    obtain rfl := Option.some.inj hss
    exact .nil
  | cons call calls ih =>
    obtain ⟨r, hr, hrest⟩ := Option.bind_eq_some_iff.mp hrs
    obtain ⟨rs', hrs', rfl⟩ := Option.map_eq_some_iff.mp hrest
    obtain ⟨s, hs, hrest'⟩ := Option.bind_eq_some_iff.mp hss
    obtain ⟨ss', hss', rfl⟩ := Option.map_eq_some_iff.mp hrest'
    rw [List.forall_mem_cons] at hrend hsend
    obtain ⟨hagree, halike⟩ := execute_agree hlabels A B h hr hs hrend.1 hsend.1
    exact .cons hagree (ih halike hrs' hss' hrend.2 hsend.2)

end ScriptedExecutor

/-! ### The Go loop -/

namespace Go

/-- The Go executor with its loop. -/
def scriptedExecutor : ScriptedExecutor where
  toExecutorModel := executorModel
  counting := counting
  -- what an operation returns that stops at the deadline of its context
  timedOut := "context deadline exceeded"
  -- `int(1) << shift` is 0 from 64 on
  backoffOverflows _ := false

/-- The number of an attempt, as an `int`. -/
lemma toInt_attempt {k : ℕ} (hk : k ≤ 4294967297) : (Int64.ofNat k).toInt = k :=
  Int64.toInt_ofNat_of_lt (by omega)

/-- The limit of the loop does not overflow for numbers of retries that are `u32`. -/
lemma toInt_limit {N : ℕ} {retries : Int64} (h : retries.toInt = N) (hN : N ≤ 4294967295) :
    (retries + 1).toInt = N + 1 := by
  have hone : (1 : Int64).toInt = 1 := by decide
  rw [Int64.toInt_add, h, hone, Int.bmod_def]
  split_ifs <;> omega

/-- The attempts of the Go loop. -/
def attempts (ex : ResilientExecutor) {N : ℕ} (hmax : ex.cfg.maxRetries.toInt = N)
    (hN : N ≤ 4294967295) : scriptedExecutor.Attempts ex N where
  attemptAt := Int64.ofNat
  bound := N + 1
  bound_pos := by omega
  first := by
    have hcontinues : ex.continues 1 = true := by
      rw [ResilientExecutor.continues, decide_eq_true_eq, Int64.le_iff_toInt_le,
        toInt_limit hmax hN]
      have hone : (1 : Int64).toInt = 1 := by decide
      omega
    exact if_pos hcontinues
  retries_eq k _ hk := by
    refine decide_eq_decide.mpr ?_
    rw [Int64.le_iff_toInt_le, hmax, toInt_attempt (by omega)]
    omega
  next_eq k _ hk := by
    have hsucc : Int64.ofNat k + 1 = Int64.ofNat (k + 1) := by
      rw [Int64.ofNat_add]
      rfl
    have hiff : ex.continues (Int64.ofNat k + 1) = true ↔ k ≤ N := by
      rw [ResilientExecutor.continues, decide_eq_true_eq, Int64.le_iff_toInt_le,
        toInt_limit hmax hN, hsucc, toInt_attempt (by omega)]
      omega
    simp only [scriptedExecutor, executorModel, hiff]
    simp only [hsucc]
  stops := .inl (Nat.lt_succ_self N)

/-- The default takes the place of a field that is zero. -/
lemma toInt_positiveOr {n : ℕ} {default field : Int64} (h : field.toInt = n) :
    (ResilientExecutor.positiveOr default field).toInt = if n = 0 then default.toInt else n := by
  have hzero : (0 : Int64).toInt = 0 := by decide
  have hiff : field ≤ 0 ↔ n = 0 := by
    rw [Int64.le_iff_toInt_le, h, hzero]
    omega
  rw [ResilientExecutor.positiveOr]
  simp only [hiff]
  split_ifs with hn
  · rfl
  · exact h

/-- A breaker with a positive threshold and a positive reset timeout is created with these. -/
lemma newBreaker_of_pos (ex : ResilientExecutor) {t d : ℕ}
    (ht : ex.cfg.circuitBreakerThreshold.toInt = t)
    (hd : ex.cfg.circuitBreakerResetSeconds.toInt = d) (htpos : 1 ≤ t) (hdpos : 1 ≤ d)
    (htrange : t ≤ 2147483647) (hdrange : d * 1000000000 ≤ 9223372036854775807) :
    ex.newBreaker.failureThreshold.toInt = t ∧
      ex.newBreaker.resetTimeout.toInt = (d * 1000000000 : ℕ) := by
  have hzero : (0 : Int64).toInt = 0 := by decide
  have hsecond : (1000000000 : Int64).toInt = 1000000000 := by decide
  have hreset : (ex.cfg.circuitBreakerResetSeconds * 1000000000).toInt =
      (d * 1000000000 : ℕ) := by
    rw [Int64.toInt_mul, hd, hsecond, Int.bmod_def]
    split_ifs <;> omega
  have hthreshold : ex.cfg.circuitBreakerThreshold.toInt32.toInt = t := by
    rw [Int64.toInt_toInt32, ht, Int.bmod_def]
    split_ifs <;> omega
  have htguard : ¬ ex.cfg.circuitBreakerThreshold ≤ 0 := by
    rw [Int64.le_iff_toInt_le, ht, hzero]
    omega
  have hdguard : ¬ ex.cfg.circuitBreakerResetSeconds * 1000000000 ≤ 0 := by
    rw [Int64.le_iff_toInt_le, hreset, hzero]
    omega
  simp only [ResilientExecutor.newBreaker, CircuitBreaker.new, if_neg htguard, if_neg hdguard]
  exact ⟨hthreshold, hreset⟩

end Go

/-! ### One configuration -/

/-- The configurations of the two libraries have the same values. -/
structure SameConfig (rust : Rust.ResilienceConfig) (go : Go.ResilienceConfig) : Prop where
  /-- `max_retries`. -/
  maxRetries : go.maxRetries.toInt = rust.maxRetries.toNat
  /-- `base_backoff_ms`. -/
  baseBackoff : go.baseBackoffMS.toInt = rust.baseBackoffMs.toNat
  /-- `circuit_breaker_threshold`. -/
  threshold : go.circuitBreakerThreshold.toInt = rust.circuitBreakerThreshold.toNat
  /-- `circuit_breaker_reset_seconds`. -/
  reset : go.circuitBreakerResetSeconds.toInt = rust.circuitBreakerResetSeconds.toNat
  /-- `operation_timeout_seconds`. -/
  operationTimeout : go.operationTimeoutSeconds.toInt = rust.operationTimeoutSeconds.toNat

namespace Rust.ResilienceConfig

/-- The threshold is an `int32`, and the reset timeout in nanoseconds is an `int64`. -/
def InRange (c : ResilienceConfig) : Prop :=
  c.circuitBreakerThreshold.toNat ≤ 2147483647 ∧
    c.circuitBreakerResetSeconds.toNat * 1000000000 ≤ 9223372036854775807

/-- The configuration with the values that `NewResilientExecutor` puts in for a number of retries,
a threshold and a reset timeout that are zero. -/
def withGoDefaults (c : ResilienceConfig) : ResilienceConfig where
  maxRetries := if c.maxRetries = 0 then 3 else c.maxRetries
  baseBackoffMs := c.baseBackoffMs
  circuitBreakerThreshold := if c.circuitBreakerThreshold = 0 then 5 else c.circuitBreakerThreshold
  circuitBreakerResetSeconds :=
    if c.circuitBreakerResetSeconds = 0 then 30 else c.circuitBreakerResetSeconds
  operationTimeoutSeconds := c.operationTimeoutSeconds

/-- Nothing is put in for fields that are positive. -/
lemma withGoDefaults_of_pos {c : ResilienceConfig} (hN : c.maxRetries ≠ 0)
    (hT : c.circuitBreakerThreshold ≠ 0) (hR : c.circuitBreakerResetSeconds ≠ 0) :
    c.withGoDefaults = c := by
  rw [withGoDefaults, if_neg hN, if_neg hT, if_neg hR]

end Rust.ResilienceConfig

open ScriptedExecutor

/-- The Rust executor of one configuration and the Go executor of the other do the same for every
sequence of calls, with every script and every clock, as long as nothing overflows. -/
def OneBehaviour (rust : Rust.ResilienceConfig) (go : Go.ResilienceConfig) : Prop :=
  ∀ (α : Type) (contract backend : String) (calls : List (ScriptedCall α)),
    ∃ fuel₀, ∀ fuel, fuel₀ ≤ fuel → ∃ rs ss,
      Rust.scriptedExecutor.run ⟨rust, contract, backend⟩ fuel calls
        (Rust.ResilientExecutor.newBreaker ⟨rust, contract, backend⟩) = some rs ∧
      Go.scriptedExecutor.run (.new go true contract backend) fuel calls
        (Go.ResilientExecutor.newBreaker (.new go true contract backend)) = some ss ∧
      ((∀ r ∈ rs, r.ending ≠ .overflowed) → (∀ s ∈ ss, s.ending ≠ .overflowed) →
        List.Forall₂ Agree rs ss)

variable {rust : Rust.ResilienceConfig} {go : Go.ResilienceConfig}

/-- The configuration of the Go executor has the values of `withGoDefaults`. -/
lemma new_cfg_eq (hsame : SameConfig rust go) (metrics : Bool) (contract backend : String) :
    (Go.ResilientExecutor.new go metrics contract backend).cfg.maxRetries.toInt =
        rust.withGoDefaults.maxRetries.toNat ∧
      (Go.ResilientExecutor.new go metrics contract backend).cfg.circuitBreakerThreshold.toInt =
        rust.withGoDefaults.circuitBreakerThreshold.toNat ∧
      (Go.ResilientExecutor.new go metrics contract backend).cfg.circuitBreakerResetSeconds.toInt =
        rust.withGoDefaults.circuitBreakerResetSeconds.toNat := by
  have hzero : ∀ x : UInt32, x = 0 ↔ x.toNat = 0 := fun x => UInt32.toNat_inj.symm
  have hzero' : ∀ x : UInt64, x = 0 ↔ x.toNat = 0 := fun x => UInt64.toNat_inj.symm
  refine ⟨(Go.toInt_positiveOr hsame.maxRetries).trans ?_,
    (Go.toInt_positiveOr hsame.threshold).trans ?_, (Go.toInt_positiveOr hsame.reset).trans ?_⟩
  · simp only [Rust.ResilienceConfig.withGoDefaults, hzero]
    split_ifs <;> rfl
  · simp only [Rust.ResilienceConfig.withGoDefaults, hzero]
    split_ifs <;> rfl
  · simp only [Rust.ResilienceConfig.withGoDefaults, hzero']
    split_ifs <;> rfl

/-- The defaults are positive and in range. -/
lemma withGoDefaults_bounds (hrange : rust.InRange) :
    rust.withGoDefaults.InRange ∧ 1 ≤ rust.withGoDefaults.circuitBreakerThreshold.toNat ∧
      1 ≤ rust.withGoDefaults.circuitBreakerResetSeconds.toNat := by
  obtain ⟨hT, hR⟩ := hrange
  have hzero : ∀ x : UInt32, x = 0 ↔ x.toNat = 0 := fun x => UInt32.toNat_inj.symm
  have hzero' : ∀ x : UInt64, x = 0 ↔ x.toNat = 0 := fun x => UInt64.toNat_inj.symm
  have hthreshold : rust.withGoDefaults.circuitBreakerThreshold.toNat ≤ 2147483647 ∧
      1 ≤ rust.withGoDefaults.circuitBreakerThreshold.toNat := by
    simp only [Rust.ResilienceConfig.withGoDefaults, hzero]
    split_ifs with h
    · decide
    · exact ⟨hT, Nat.pos_of_ne_zero h⟩
  have hreset : rust.withGoDefaults.circuitBreakerResetSeconds.toNat * 1000000000 ≤
      9223372036854775807 ∧ 1 ≤ rust.withGoDefaults.circuitBreakerResetSeconds.toNat := by
    simp only [Rust.ResilienceConfig.withGoDefaults, hzero']
    split_ifs with h
    · decide
    · exact ⟨hR, Nat.pos_of_ne_zero h⟩
  exact ⟨⟨hthreshold.1, hreset.1⟩, hthreshold.2, hreset.2⟩

/-- Closed breakers without failures, with one threshold and one reset timeout, decide the same. -/
lemma alike_of_new {b : Rust.CircuitBreaker} {c : Go.CircuitBreaker} (hb : b.state = .Closed)
    (hc : c.state = .Closed) (hbcount : b.consecutiveFailures = 0)
    (hccount : c.consecutiveFailures = 0)
    (hthreshold : c.failureThreshold.toInt = b.failureThreshold.toNat)
    (hreset : c.resetTimeout.toInt = b.resetTimeout) :
    Alike Rust.scriptedExecutor Go.scriptedExecutor b c where
  state := hb.trans hc.symm
  counter := by
    have hX : Rust.scriptedExecutor.counting.counter b = (b.consecutiveFailures.toNat : ℤ) := rfl
    have hY : Go.scriptedExecutor.counting.counter c = c.consecutiveFailures.toInt := rfl
    rw [hX, hY, hbcount, hccount]
    rfl
  nonneg := Int.natCast_nonneg _
  threshold := hthreshold.symm
  resetTimeout := hreset.symm
  lastFailure hne := absurd hb hne

/-- The two executors are created with breakers that decide the same. -/
lemma alike_new (hsame : SameConfig rust go) (hrange : rust.InRange) (contract backend : String) :
    Alike Rust.scriptedExecutor Go.scriptedExecutor
      (Rust.ResilientExecutor.newBreaker ⟨rust.withGoDefaults, contract, backend⟩)
      (Go.ResilientExecutor.newBreaker (.new go true contract backend)) := by
  obtain ⟨-, hT, hR⟩ := new_cfg_eq hsame true contract backend
  obtain ⟨⟨hTrange, hRrange⟩, hTpos, hRpos⟩ := withGoDefaults_bounds hrange
  obtain ⟨hthreshold, hreset⟩ := Go.newBreaker_of_pos _ hT hR hTpos hRpos hTrange hRrange
  exact alike_of_new rfl rfl rfl rfl hthreshold hreset

/-- The Go constructor replaces a number of retries, a threshold and a reset timeout that are zero
by 3, 5 and 30.  For every configuration the Go executor does what the Rust executor does with
these values in their place, and so the two do the same where the three fields are positive. -/
theorem oneBehaviour_withGoDefaults (hsame : SameConfig rust go) (hrange : rust.InRange) :
    OneBehaviour rust.withGoDefaults go ∧
      (rust.maxRetries ≠ 0 → rust.circuitBreakerThreshold ≠ 0 →
        rust.circuitBreakerResetSeconds ≠ 0 → OneBehaviour rust go) := by
  have hall : OneBehaviour rust.withGoDefaults go := by
    intro α contract backend calls
    have hN : rust.withGoDefaults.maxRetries.toNat ≤ 4294967295 := by
      have hlt := rust.withGoDefaults.maxRetries.toNat_lt
      omega
    have A := Rust.attempts ⟨rust.withGoDefaults, contract, backend⟩
    have B := Go.attempts (.new go true contract backend)
      (new_cfg_eq hsame true contract backend).1 hN
    have hlabels : @SameLabels Rust.scriptedExecutor Go.scriptedExecutor
        ⟨rust.withGoDefaults, contract, backend⟩ (.new go true contract backend) :=
      ⟨rfl, rfl, rfl, rfl⟩
    refine ⟨A.bound + B.bound, fun fuel hfuel => ?_⟩
    have hA : A.bound ≤ fuel := by omega
    have hB : B.bound ≤ fuel := by omega
    obtain ⟨rs, hrs⟩ := run_isSome A hA calls
      (Rust.ResilientExecutor.newBreaker ⟨rust.withGoDefaults, contract, backend⟩)
    obtain ⟨ss, hss⟩ := run_isSome B hB calls
      (Go.ResilientExecutor.newBreaker (.new go true contract backend))
    exact ⟨rs, ss, hrs, hss, run_agree hlabels A B (alike_new hsame hrange contract backend)
      hrs hss⟩
  refine ⟨hall, fun hN hT hR => ?_⟩
  rwa [Rust.ResilienceConfig.withGoDefaults_of_pos hN hT hR] at hall

/-- With the default configuration the two executors do the same. -/
theorem oneBehaviour_default :
    OneBehaviour Rust.ResilienceConfig.default (⟨3, 100, 5, 30, 5⟩ : Go.ResilienceConfig) :=
  (oneBehaviour_withGoDefaults ⟨by decide, by decide, by decide, by decide, by decide⟩
    ⟨by decide, by decide⟩).2 (by decide) (by decide) (by decide)

/-- The configuration without retries, and otherwise with the defaults. -/
def noRetries : Rust.ResilienceConfig := ⟨0, 100, 5, 30, 5⟩

/-- The same configuration in Go. -/
def Go.noRetries : Go.ResilienceConfig := ⟨0, 100, 5, 30, 5⟩

/-- A call whose attempts all fail. -/
def failingCall : ScriptedCall Unit := ⟨"get", 0, fun _ => .error "refused", fun _ => 0⟩

/-- A configuration without retries: Rust makes one attempt, and Go makes four. -/
theorem not_oneBehaviour :
    ¬ ∀ rust go, SameConfig rust go → rust.InRange → OneBehaviour rust go := by
  intro h
  obtain ⟨fuel₀, hfuel⟩ := h noRetries Go.noRetries
    ⟨by decide, by decide, by decide, by decide, by decide⟩ ⟨by decide, by decide⟩
    Unit "kv" "redis" [failingCall]
  obtain ⟨rs, ss, hrs, hss, hagree⟩ := hfuel (fuel₀ + 4) (by omega)
  have hrust : ∃ r, Rust.scriptedExecutor.run ⟨noRetries, "kv", "redis"⟩ (fuel₀ + 4) [failingCall]
      (Rust.ResilientExecutor.newBreaker ⟨noRetries, "kv", "redis"⟩) = some [r] ∧
      r.ending ≠ .overflowed ∧ r.invocations = 1 := ⟨_, rfl, nofun, rfl⟩
  have hgo : ∃ s, Go.scriptedExecutor.run (.new Go.noRetries true "kv" "redis") (fuel₀ + 4)
      [failingCall] (Go.ResilientExecutor.newBreaker (.new Go.noRetries true "kv" "redis")) =
        some [s] ∧ s.ending ≠ .overflowed ∧ s.invocations = 4 := ⟨_, rfl, nofun, rfl⟩
  obtain ⟨r, hr, hrend, hrcount⟩ := hrust
  obtain ⟨s, hs, hsend, hscount⟩ := hgo
  obtain rfl := Option.some.inj (hrs.symm.trans hr)
  obtain rfl := Option.some.inj (hss.symm.trans hs)
  have hboth := hagree (List.forall_mem_singleton.mpr hrend) (List.forall_mem_singleton.mpr hsend)
  cases hboth with
  | cons hcall _ =>
    have hcount := hcall.invocations
    rw [hrcount, hscount] at hcount
    exact absurd hcount (by decide)

end GoyStore
