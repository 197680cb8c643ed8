import GoyStore.Resilience.SequentialCalls
import Mathlib.Data.List.Infix

/-!
# What a breaker knows of its history

A history lists the calls of `can_execute`, `on_success` and `on_failure` in the order in which they
take effect.  The Go methods run under one mutex, so the calls of any callers make such a list; for
the Rust breaker it is one caller after the other.

The fields of a breaker collapse to two numbers of its history, the failures since the last success
and the time of the last failure (`tracks_perform`), and so its admission checks and its state are
functions of the history (`decisions_of_history`).

`Counting` is what the argument uses of a breaker on top of its laws: that failures are counted
exactly below the capacity of the counter.
-/

namespace GoyStore

/-! ### Breakers that count exactly -/

/-- A breaker with its counter.  Below its capacity the counter is exact. -/
structure Counting (M : LawfulBreaker) where
  /-- The report of a failure. -/
  onFailure : ℕ → M.Cb → M.Cb
  /-- The number of failures in a row. -/
  counter : M.Cb → ℤ
  /-- The threshold. -/
  threshold : M.Cb → ℤ
  /-- The greatest value of the counter. -/
  capacity : ℤ
  /-- The admission check changes the state at most. -/
  canExecute_frame : ∀ now b, counter (M.canExecute now b).2 = counter b ∧
    threshold (M.canExecute now b).2 = threshold b ∧
    M.lastFailure (M.canExecute now b).2 = M.lastFailure b ∧
    M.resetTimeout (M.canExecute now b).2 = M.resetTimeout b
  /-- A success resets the counter. -/
  onSuccess_frame : ∀ b, counter (M.onSuccess b) = 0 ∧ threshold (M.onSuccess b) = threshold b ∧
    M.lastFailure (M.onSuccess b) = M.lastFailure b ∧
    M.resetTimeout (M.onSuccess b) = M.resetTimeout b
  /-- A failure is stamped with its time. -/
  onFailure_frame : ∀ now b, threshold (onFailure now b) = threshold b ∧
    M.lastFailure (onFailure now b) = some now ∧
    M.resetTimeout (onFailure now b) = M.resetTimeout b
  /-- Below the capacity a failure is counted, and it opens the circuit from the threshold on. -/
  onFailure_counts : ∀ now b, 0 ≤ counter b → counter b < capacity →
    counter (onFailure now b) = counter b + 1 ∧
      M.state (onFailure now b) = if threshold b ≤ counter b + 1 then .Open else M.state b

namespace Rust

/-- The Rust breaker counts exactly up to `u32::MAX`. -/
def counting : Counting breaker where
  onFailure := CircuitBreaker.onFailure
  counter b := (CircuitBreaker.consecutiveFailures b).toNat
  threshold b := (CircuitBreaker.failureThreshold b).toNat
  capacity := 4294967295
  canExecute_frame := sequentialModel.canExecute_frame
  onSuccess_frame _ := ⟨rfl, rfl, rfl, rfl⟩
  onFailure_frame now b := (sequentialModel.onFailure_frame now b).2
  onFailure_counts now b _ hlt := by
    have hnext : (CircuitBreaker.consecutiveFailures b + 1).toNat =
        (CircuitBreaker.consecutiveFailures b).toNat + 1 := by
      have hone : (1 : UInt32).toNat = 1 := rfl
      rw [UInt32.toNat_add, hone, Nat.mod_eq_of_lt (by omega)]
    have hthreshold : CircuitBreaker.failureThreshold b ≤ CircuitBreaker.consecutiveFailures b + 1 ↔
        ((CircuitBreaker.failureThreshold b).toNat : ℤ) ≤
          (CircuitBreaker.consecutiveFailures b).toNat + 1 := by
      rw [UInt32.le_iff_toNat_le, hnext]
      omega
    have hcounter := (CircuitBreaker.onFailure_fields now b).1
    refine ⟨by rw [hcounter, hnext, Int.natCast_succ], ?_⟩
    simp only [← hthreshold]
    unfold CircuitBreaker.onFailure CircuitBreaker.countFailure CircuitBreaker.stampFailure
      CircuitBreaker.openCircuit
    simp only
    split_ifs <;> rfl

end Rust

namespace Go

/-- The Go breaker counts exactly up to the greatest `int32`. -/
def counting : Counting breaker where
  onFailure := CircuitBreaker.onFailure
  counter b := (CircuitBreaker.consecutiveFailures b).toInt
  threshold b := (CircuitBreaker.failureThreshold b).toInt
  capacity := 2147483647
  canExecute_frame := sequentialModel.canExecute_frame
  onSuccess_frame _ := ⟨rfl, rfl, rfl, rfl⟩
  onFailure_frame now b := (sequentialModel.onFailure_frame now b).2
  onFailure_counts now b hnonneg hlt := by
    have hnext : (CircuitBreaker.consecutiveFailures b + 1).toInt =
        (CircuitBreaker.consecutiveFailures b).toInt + 1 := by
      have hone : (1 : Int32).toInt = 1 := by decide
      rw [Int32.toInt_add, hone, Int.bmod_def]
      split_ifs <;> omega
    have hthreshold : CircuitBreaker.failureThreshold b ≤ CircuitBreaker.consecutiveFailures b + 1 ↔
        (CircuitBreaker.failureThreshold b).toInt ≤
          (CircuitBreaker.consecutiveFailures b).toInt + 1 := by
      rw [Int32.le_iff_toInt_le, hnext]
    have hcounter := (CircuitBreaker.onFailure_fields now b).1
    refine ⟨by rw [hcounter, hnext], ?_⟩
    simp only [← hthreshold]
    unfold CircuitBreaker.onFailure
    simp only
    split_ifs <;> rfl

end Go

/-- The counter of the breaker of a library. -/
def Lang.counting : (L : Lang) → Counting L.breaker
  | .rust => Rust.counting
  | .go => Go.counting

/-! ### Histories -/

/-- A method of a breaker. -/
inductive BreakerCall where
  | canExecute
  | onSuccess
  | onFailure
  deriving DecidableEq, Repr

/-- The calls of the methods with the times at which they read the clock, in the order in which they
take effect. -/
abbrev History := List (ℕ × BreakerCall)

namespace History

/-- The number of failures since the last success. -/
def failures (h : History) : ℕ :=
  (h.reverse.takeWhile fun c => c.2 ≠ .onSuccess).countP fun c => c.2 = .onFailure

/-- The time of the last failure. -/
def lastFailure (h : History) : Option ℕ :=
  (h.reverse.find? fun c => c.2 = .onFailure).map Prod.fst

/-- The calls since the last failure, the last one first. -/
def sinceFailure (h : History) : History := h.reverse.takeWhile fun c => c.2 ≠ .onFailure

/-- Some admission check since the last failure ran when the reset timeout had passed. -/
def Probed (reset : ℤ) (h : History) : Prop :=
  ∃ t, h.lastFailure = some t ∧
    ∃ c ∈ h.sinceFailure, c.2 = .canExecute ∧ reset ≤ (c.1 : ℤ) - t

instance (reset : ℤ) (h : History) : Decidable (Probed reset h) :=
  match ht : h.lastFailure with
  | some t => decidable_of_iff
      (∃ c ∈ h.sinceFailure, c.2 = .canExecute ∧ reset ≤ (c.1 : ℤ) - t) (by simp [Probed, ht])
  | none => .isFalse (by simp [Probed, ht])

/-- The clock never goes back. -/
def Monotone (h : History) : Prop := (h.map Prod.fst).Pairwise (· ≤ ·)

variable (h : History) (now : ℕ)

@[simp] lemma failures_canExecute : failures (h ++ [(now, .canExecute)]) = failures h := by
  simp [failures]

@[simp] lemma failures_onSuccess : failures (h ++ [(now, .onSuccess)]) = 0 := by
  simp [failures]

@[simp] lemma failures_onFailure : failures (h ++ [(now, .onFailure)]) = failures h + 1 := by
  simp [failures]

@[simp] lemma lastFailure_canExecute :
    lastFailure (h ++ [(now, .canExecute)]) = lastFailure h := by
  simp [lastFailure]

@[simp] lemma lastFailure_onSuccess : lastFailure (h ++ [(now, .onSuccess)]) = lastFailure h := by
  simp [lastFailure]

@[simp] lemma lastFailure_onFailure : lastFailure (h ++ [(now, .onFailure)]) = some now := by
  simp [lastFailure]

/-- One more admission check. -/
lemma probed_canExecute (reset : ℤ) : Probed reset (h ++ [(now, .canExecute)]) ↔
    Probed reset h ∨ ∃ t, h.lastFailure = some t ∧ reset ≤ (now : ℤ) - t := by
  have hsince : sinceFailure (h ++ [(now, .canExecute)]) =
      (now, .canExecute) :: sinceFailure h := by
    simp [sinceFailure]
  rw [Probed, Probed, hsince, lastFailure_canExecute]
  constructor
  · rintro ⟨t, ht, c, hc, hcall, hreset⟩
    rcases List.mem_cons.mp hc with rfl | hc
    · exact .inr ⟨t, ht, hreset⟩
    · exact .inl ⟨t, ht, c, hc, hcall, hreset⟩
  · rintro (⟨t, ht, c, hc, hcall, hreset⟩ | ⟨t, ht, hreset⟩)
    · exact ⟨t, ht, c, List.mem_cons_of_mem _ hc, hcall, hreset⟩
    · exact ⟨t, ht, _, List.mem_cons_self, rfl, hreset⟩

/-- Right after a failure there was no admission check. -/
lemma not_probed_onFailure (reset : ℤ) : ¬ Probed reset (h ++ [(now, .onFailure)]) := by
  have hsince : sinceFailure (h ++ [(now, .onFailure)]) = [] := by
    simp [sinceFailure]
  rintro ⟨t, _, c, hc, _⟩
  rw [hsince] at hc
  cases hc

/-- A history has no more failures than calls. -/
lemma failures_le_length : failures h ≤ h.length := by
  have hle : failures h ≤ (h.reverse.takeWhile fun c => c.2 ≠ .onSuccess).length :=
    List.countP_le_length
  have hsublist := (List.takeWhile_sublist (l := h.reverse) fun c => c.2 ≠ .onSuccess).length_le
  rw [List.length_reverse] at hsublist
  exact hle.trans hsublist

/-- A failure since the last success has a time. -/
lemma exists_lastFailure (hpos : 0 < failures h) : ∃ t, h.lastFailure = some t := by
  obtain ⟨c, hc, hcall⟩ := List.countP_pos_iff.mp hpos
  have hmem : c ∈ h.reverse := (List.takeWhile_sublist _).mem hc
  have hsome : (h.reverse.find? fun c => c.2 = .onFailure).isSome :=
    List.find?_isSome.mpr ⟨c, hmem, hcall⟩
  obtain ⟨c', hc'⟩ := Option.isSome_iff_exists.mp hsome
  exact ⟨c'.1, by rw [lastFailure, hc', Option.map_some]⟩

/-- The last failure is a call of the history. -/
lemma mem_of_lastFailure {t : ℕ} (ht : h.lastFailure = some t) : (t, .onFailure) ∈ h := by
  obtain ⟨⟨t', c⟩, hfind, rfl⟩ := Option.map_eq_some_iff.mp ht
  have hcall := List.find?_some hfind
  simp only [decide_eq_true_eq] at hcall
  have hmem := List.mem_of_find?_eq_some hfind
  rw [List.mem_reverse, hcall] at hmem
  exact hmem

end History

namespace Counting

open History

variable {M : LawfulBreaker} (C : Counting M)

/-- A call of a method. -/
def perform (b : M.Cb) (c : ℕ × BreakerCall) : M.Cb :=
  match c.2 with
  | .canExecute => (M.canExecute c.1 b).2
  | .onSuccess => M.onSuccess b
  | .onFailure => C.onFailure c.1 b

/-- The breaker after a history. -/
def after (b : M.Cb) (h : History) : M.Cb := h.foldl C.perform b

/-- A breaker before its first call. -/
def IsNew (b : M.Cb) : Prop := M.state b = .Closed ∧ C.counter b = 0

/-- The state that a history leaves. -/
def stateOf (threshold reset : ℤ) (h : History) : CircuitState :=
  if (h.failures : ℤ) < threshold then .Closed else if Probed reset h then .HalfOpen else .Open

/-- The fields of a breaker are what its history says. -/
structure Tracks (T R : ℤ) (b : M.Cb) (h : History) : Prop where
  /-- The counter holds the failures since the last success. -/
  counter : C.counter b = h.failures
  /-- The threshold stays. -/
  threshold : C.threshold b = T
  /-- The reset timeout stays. -/
  resetTimeout : M.resetTimeout b = R
  /-- The time of the last failure is kept. -/
  lastFailure : ∀ t, h.lastFailure = some t → M.lastFailure b = some t
  /-- The state is that of the history. -/
  state : M.state b = stateOf T R h

variable {C} {b : M.Cb} {h : History} {T R : ℤ}

/-- The reset timeout runs until it has passed since the last failure. -/
lemma Tracks.timeoutRunning_iff (hb : C.Tracks T R b h) {t now : ℕ} (ht : h.lastFailure = some t)
    (hle : t ≤ now) : M.TimeoutRunning now b ↔ (now : ℤ) - t < R := by
  have hcast : ((now - t : ℕ) : ℤ) = (now : ℤ) - t := by omega
  rw [BreakerModel.TimeoutRunning, hb.lastFailure t ht, hb.resetTimeout]
  constructor
  · intro hrun
    rw [← hcast]
    exact hrun t rfl
  · intro hlt t' ht'
    obtain rfl := Option.some.inj ht'
    rwa [hcast]

/-- One more call keeps the fields in step with the history. -/
lemma tracks_perform (hT : 1 ≤ T) (hb : C.Tracks T R b h) {c : ℕ × BreakerCall}
    (hnow : ∀ c' ∈ h, c'.1 ≤ c.1) (hcount : (failures (h ++ [c]) : ℤ) ≤ C.capacity) :
    C.Tracks T R (C.perform b c) (h ++ [c]) := by
  obtain ⟨now, call⟩ := c
  have hcounter := hb.counter
  cases call with
  | canExecute =>
    obtain ⟨hcounter', hthreshold, hlast, hreset⟩ := C.canExecute_frame now b
    refine ⟨?_, hthreshold.trans hb.threshold, hreset.trans hb.resetTimeout, ?_, ?_⟩
    · rw [failures_canExecute]
      exact hcounter'.trans hcounter
    · intro t ht
      rw [lastFailure_canExecute] at ht
      exact hlast.trans (hb.lastFailure t ht)
    · have hstate := M.canExecute_state now b
      rw [hb.state] at hstate
      refine hstate.trans ?_
      unfold stateOf
      rw [failures_canExecute]
      by_cases hlow : (h.failures : ℤ) < T
      · rw [if_pos hlow, if_pos hlow, if_neg]
        rintro ⟨hopen, -⟩
        cases hopen
      · obtain ⟨t, ht⟩ := h.exists_lastFailure (by omega)
        have htle : t ≤ now := hnow _ (h.mem_of_lastFailure ht)
        simp only [if_neg hlow, h.probed_canExecute now R, hb.timeoutRunning_iff ht htle]
        by_cases hbefore : Probed R h
        · simp [hbefore]
        · simp only [hbefore, if_false, false_or, true_and, ht, Option.some.injEq,
            exists_eq_left', Int.not_lt]
  | onSuccess =>
    obtain ⟨hcounter', hthreshold, hlast, hreset⟩ := C.onSuccess_frame b
    refine ⟨?_, hthreshold.trans hb.threshold, hreset.trans hb.resetTimeout, ?_, ?_⟩
    · rw [failures_onSuccess]
      exact hcounter'
    · intro t ht
      rw [lastFailure_onSuccess] at ht
      exact hlast.trans (hb.lastFailure t ht)
    · rw [stateOf, failures_onSuccess, if_pos (by omega)]
      exact M.onSuccess_state b
  | onFailure =>
    rw [failures_onFailure] at hcount
    obtain ⟨hthreshold, hlast, hreset⟩ := C.onFailure_frame now b
    obtain ⟨hcounter', hstate⟩ := C.onFailure_counts now b (by omega) (by omega)
    refine ⟨?_, hthreshold.trans hb.threshold, hreset.trans hb.resetTimeout, ?_, ?_⟩
    · rw [failures_onFailure, Int.natCast_succ, ← hcounter]
      exact hcounter'
    · intro t ht
      rw [lastFailure_onFailure] at ht
      exact hlast.trans ht
    · refine hstate.trans ?_
      have hfailed := h.not_probed_onFailure now R
      rw [stateOf, failures_onFailure, if_neg hfailed, hb.threshold, hcounter, hb.state, stateOf,
        Int.natCast_succ]
      split_ifs <;> first | rfl | omega

/-- The fields of a breaker after a history are what the history says. -/
lemma tracks_after (hnew : C.IsNew b) (hT : 1 ≤ C.threshold b) (hclock : h.Monotone)
    (hcount : ∀ pre, pre <+: h → (failures pre : ℤ) ≤ C.capacity) :
    C.Tracks (C.threshold b) (M.resetTimeout b) (C.after b h) h := by
  induction h using List.reverseRecOn with
  | nil =>
    refine ⟨hnew.2, rfl, rfl, fun t ht => ?_, ?_⟩
    · cases ht
    · have hzero : failures [] = 0 := rfl
      rw [stateOf, hzero, if_pos (by omega)]
      exact hnew.1
  | append_singleton h c ih =>
    have hprefix : h <+: h ++ [c] := List.prefix_append h [c]
    have hordered := List.pairwise_append.mp (by simpa [History.Monotone] using hclock)
    have hbefore := ih hordered.1 fun pre hpre => hcount pre (hpre.trans hprefix)
    have hnow : ∀ c' ∈ h, c'.1 ≤ c.1 := fun c' hc' =>
      hordered.2.2 c'.1 (List.mem_map_of_mem hc') c.1 (List.mem_singleton_self _)
    have hafter : C.after b (h ++ [c]) = C.perform (C.after b h) c := by
      rw [after, List.foldl_append]
      rfl
    rw [hafter]
    exact tracks_perform hT hbefore hnow (hcount _ List.prefix_rfl)

end Counting

/-! ### The decisions -/

open History in
/-- The breakers of both libraries, with a threshold of at least 1 and after any history with a
clock that never goes back and with fewer failures in a row than the counter can hold: an admission
check is refused exactly when the failures since the last success have reached the threshold and the
last failure is less than the reset timeout ago, the state is closed exactly below the threshold,
and it is half-open exactly when the threshold is reached and some admission check since the last
failure ran when the reset timeout had passed. -/
theorem decisions_of_history (L : Lang) {b : L.breaker.Cb} (hnew : L.counting.IsNew b)
    (hT : 1 ≤ L.counting.threshold b) {h : History} (hclock : h.Monotone)
    (hcount : ∀ pre, pre <+: h → (failures pre : ℤ) ≤ L.counting.capacity) :
    (∀ now, (∀ c ∈ h, c.1 ≤ now) →
      ((∃ err, (L.breaker.canExecute now (L.counting.after b h)).1 = .error err) ↔
        L.counting.threshold b ≤ h.failures ∧
          ∃ t, h.lastFailure = some t ∧ (now : ℤ) - t < L.breaker.resetTimeout b)) ∧
    (L.breaker.state (L.counting.after b h) = .Closed ↔
      (h.failures : ℤ) < L.counting.threshold b) ∧
    (L.breaker.state (L.counting.after b h) = .HalfOpen ↔
      L.counting.threshold b ≤ h.failures ∧ Probed (L.breaker.resetTimeout b) h) := by
  have htracks := Counting.tracks_after hnew hT hclock hcount
  refine ⟨fun now hnow => ?_, ?_, ?_⟩
  · have hrefused : (∃ err, (L.breaker.canExecute now (L.counting.after b h)).1 = .error err) ↔
        L.breaker.Blocked now (L.counting.after b h) := by
      by_cases hblocked : L.breaker.Blocked now (L.counting.after b h)
      · exact iff_of_true ⟨_, congrArg Prod.fst (L.breaker.canExecute_of_blocked now _ hblocked)⟩
          hblocked
      · refine iff_of_false ?_ hblocked
        rw [L.breaker.canExecute_of_not_blocked now _ hblocked]
        rintro ⟨err, herr⟩
        cases herr
    rw [hrefused, BreakerModel.Blocked, htracks.state, Counting.stateOf]
    by_cases hlow : (h.failures : ℤ) < L.counting.threshold b
    · rw [if_pos hlow]
      refine iff_of_false (fun hopen => ?_) fun hreached => absurd hreached.1 (Int.not_le.mpr hlow)
      cases hopen.1
    · obtain ⟨t, ht⟩ := h.exists_lastFailure (by omega)
      have htle : t ≤ now := hnow _ (h.mem_of_lastFailure ht)
      rw [if_neg hlow, htracks.timeoutRunning_iff ht htle]
      constructor
      · exact fun hopen => ⟨Int.not_lt.mp hlow, t, ht, hopen.2⟩
      · rintro ⟨_, t', ht', hrunning⟩
        obtain rfl := Option.some.inj (ht.symm.trans ht')
        refine ⟨if_neg ?_, hrunning⟩
        -- a check that had waited long enough is not later than now
        rintro ⟨t', ht', c, hc, _, hreset⟩
        obtain rfl := Option.some.inj (ht.symm.trans ht')
        have hle := hnow c (List.mem_reverse.mp ((List.takeWhile_sublist _).mem hc))
        omega
  · rw [htracks.state, Counting.stateOf]
    split_ifs <;> simp_all
  · rw [htracks.state, Counting.stateOf]
    split_ifs <;> simp_all

/-- Two failures, at 10 and at 20 nanoseconds. -/
def twoFailures : History := [(10, .canExecute), (10, .onFailure), (20, .onFailure)]

/-- A Go breaker with the threshold 2 and a reset timeout of 50 milliseconds refuses right after two
failures, and is not closed. -/
theorem decisions_after_two_failures :
    (∃ err, (Go.breaker.canExecute 30
      (Go.counting.after (Go.CircuitBreaker.new 2 50000000) twoFailures)).1 = .error err) ∧
    Go.breaker.state (Go.counting.after (Go.CircuitBreaker.new 2 50000000) twoFailures) ≠
      .Closed := by
  have hcount : ∀ pre, pre <+: twoFailures →
      (History.failures pre : ℤ) ≤ Lang.go.counting.capacity := by
    intro pre hpre
    have hle := History.failures_le_length pre
    have hlength : pre.length ≤ 3 := hpre.length_le
    have hcapacity : Lang.go.counting.capacity = 2147483647 := rfl
    omega
  have hnew : Lang.go.counting.IsNew (Go.CircuitBreaker.new 2 50000000) := ⟨rfl, rfl⟩
  have hdecisions := decisions_of_history .go hnew (by decide) (h := twoFailures)
    (by unfold History.Monotone; decide) hcount
  refine ⟨(hdecisions.1 30 (by decide)).mpr ⟨by decide, 20, rfl, by decide⟩, fun hclosed => ?_⟩
  exact absurd (hdecisions.2.1.mp hclosed) (by decide)

end GoyStore
