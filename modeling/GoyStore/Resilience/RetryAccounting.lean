import GoyStore.Resilience.CallSteps
import Mathlib.Algebra.BigOperators.Group.Finset.Piecewise

/-!
# Retries and invocations in concurrent runs

`retries_total` is incremented before the sleep that comes before a retry, so it runs ahead of the
invocations of the operations, and a caller that cancels the sleep leaves the retry uninvoked.

In every state of every run of concurrent calls, the retries that are counted for an operation and
the admitted calls of it add up to its invocations, its cancelled sleeps and the calls that still
owe an invocation (`retries_conserved`).  The argument is one balance for each call (`Tally`), which
every step keeps, and a sum over the calls.
-/

namespace GoyStore

open Runs

/-! ### The rounds of a loop -/

/-- The loop makes one attempt and up to `N` more. -/
structure Rounds (X : ExecutorModel) (ex : X.Executor) (N : ℕ) where
  /-- The value of the variable `attempt` in each attempt, from 1 on. -/
  attemptAt : ℕ → X.Counter
  /-- The first attempt. -/
  first : X.firstAttempt ex = some (attemptAt 1)
  /-- The first `N` attempts are followed by a sleep. -/
  retries : ∀ k, 1 ≤ k → k ≤ N + 1 → X.retries ex (attemptAt k) = decide (k ≤ N)
  /-- They are followed by the next attempt. -/
  next : ∀ k, 1 ≤ k → k ≤ N + 1 →
    X.nextAttempt ex (attemptAt k) = if k ≤ N then some (attemptAt (k + 1)) else none

/-- The Rust loop, as long as its counter does not wrap around. -/
def Rust.rounds (ex : ResilientExecutor) (hmax : ex.config.maxRetries.toNat < 4294967295) :
    Rounds executorModel ex ex.config.maxRetries.toNat where
  attemptAt := UInt32.ofNat
  first := rfl
  retries k _ hk := by
    have hiff : ex.config.maxRetries < UInt32.ofNat k ↔ ¬ k ≤ ex.config.maxRetries.toNat := by
      rw [UInt32.lt_iff_toNat_lt, UInt32.toNat_ofNat', Nat.mod_eq_of_lt (by omega), Nat.not_le]
    have hexhausted : ex.exhausted (UInt32.ofNat k) = !decide (k ≤ ex.config.maxRetries.toNat) := by
      rw [ResilientExecutor.exhausted, decide_eq_decide.mpr hiff, decide_not]
    exact (congrArg (! ·) hexhausted).trans (Bool.not_not _)
  next k _ hk := by
    have hiff : ex.config.maxRetries < UInt32.ofNat k ↔ ¬ k ≤ ex.config.maxRetries.toNat := by
      rw [UInt32.lt_iff_toNat_lt, UInt32.toNat_ofNat', Nat.mod_eq_of_lt (by omega), Nat.not_le]
    have hsucc : UInt32.ofNat k + 1 = UInt32.ofNat (k + 1) := by
      rw [UInt32.ofNat_add]
      rfl
    simp only [executorModel, ResilientExecutor.exhausted, decide_eq_true_eq, hiff, hsucc]
    split_ifs <;> rfl

/-- The Go loop, as long as its limit does not wrap around. -/
def Go.rounds (ex : ResilientExecutor) {N : ℕ} (hmax : ex.cfg.maxRetries.toInt = N)
    (hN : N < 9223372036854775806) : Rounds executorModel ex N where
  attemptAt := Int64.ofNat
  first := by
    have hone : (1 : Int64).toInt = 1 := by decide
    have hcontinues : ex.continues 1 = true := by
      refine decide_eq_true ?_
      rw [Int64.le_iff_toInt_le, Int64.toInt_add, hmax, hone,
        Int.bmod_eq_of_le (by omega) (by omega)]
      omega
    exact if_pos hcontinues
  retries k _ hk := by
    refine decide_eq_decide.mpr ?_
    rw [Int64.le_iff_toInt_le, hmax, Int64.toInt_ofNat_of_lt (by omega), Int.ofNat_le]
  next k _ hk := by
    have hone : (1 : Int64).toInt = 1 := by decide
    have hsucc : Int64.ofNat k + 1 = Int64.ofNat (k + 1) := by
      rw [Int64.ofNat_add]
      rfl
    have hiff : ex.continues (Int64.ofNat k + 1) = true ↔ k ≤ N := by
      refine decide_eq_true_iff.trans ?_
      rw [Int64.le_iff_toInt_le, hsucc, Int64.toInt_add, hmax, hone,
        Int.bmod_eq_of_le (by omega) (by omega), Int64.toInt_ofNat_of_lt (by omega),
        Int.natCast_succ, Int.add_le_add_iff_right, Int.ofNat_le]
    simp only [executorModel, hiff]
    simp only [hsucc]

/-! ### What a call has done -/

section Counts

variable {κ : Type*} [DecidableEq κ]

/-- How often a call has invoked its operation. -/
def invocations (ls : List (ExecLabel κ)) (c : κ) : ℕ := ls.count (.invoke c)

/-- How often a call has slept to the end. -/
def wakes (ls : List (ExecLabel κ)) (c : κ) : ℕ := ls.count (.wake c)

/-- The step cancels a sleep of the call. -/
def ExecLabel.cancels (c : κ) : ExecLabel κ → Bool
  | .cancel d _ => d = c
  | _ => false

/-- How often a sleep of a call was cancelled. -/
def cancellations (ls : List (ExecLabel κ)) (c : κ) : ℕ := ls.countP (ExecLabel.cancels c)

/-- One more step. -/
lemma counts_concat (ls : List (ExecLabel κ)) (l : ExecLabel κ) (c : κ) :
    invocations (ls ++ [l]) c = invocations ls c + (if l = .invoke c then 1 else 0) ∧
      wakes (ls ++ [l]) c = wakes ls c + (if l = .wake c then 1 else 0) ∧
      cancellations (ls ++ [l]) c =
        cancellations ls c + (if l.cancels c = true then 1 else 0) := by
  refine ⟨?_, ?_, ?_⟩
  · simp [invocations, List.count_append, List.count_singleton]
  · simp [wakes, List.count_append, List.count_singleton]
  · rw [cancellations, List.countP_append, List.countP_singleton]
    rfl

/-- A step of another call does not count. -/
lemma counts_of_caller_ne (ls : List (ExecLabel κ)) {l : ExecLabel κ} {c : κ}
    (hl : l.caller ≠ some c) : invocations (ls ++ [l]) c = invocations ls c ∧
      wakes (ls ++ [l]) c = wakes ls c ∧ cancellations (ls ++ [l]) c = cancellations ls c := by
  obtain ⟨hinvoke, hwake, hcancel⟩ := counts_concat ls l c
  rw [hinvoke, hwake, hcancel, if_neg, if_neg, if_neg]
  · exact ⟨rfl, rfl, rfl⟩
  · rcases l with d | d | d | d | ⟨d, n⟩ | d | ⟨d, err⟩ | d | d | d | ⟨d, err⟩
    case cancel => exact fun h => hl (congrArg some (of_decide_eq_true h))
    all_goals exact Bool.false_ne_true
  · rintro rfl
    exact hl rfl
  · rintro rfl
    exact hl rfl

end Counts

namespace Phase

variable {X : ExecutorModel} {α : Type*}

/-- Asleep. -/
def asleep : Phase X α → Bool
  | .backingOff _ _ => true
  | _ => false

/-- An invocation is to come, unless the sleep before it is cancelled. -/
def due : Phase X α → Bool
  | .ready _ => true
  | .backingOff _ _ => true
  | _ => false

/-- The attempt that is to be made, is made or has failed last. -/
def attempt : Phase X α → Option X.Counter
  | .ready a => some a
  | .running a _ => some a
  | .reporting (.failure a _) _ => some a
  | .publishing (.failure a _) _ => some a
  | .backingOff a _ => some a
  | _ => none

end Phase

/-! ### The balance of a call -/

/-- Where a call stands, whether it was admitted, and how often it has invoked its operation and has
slept to the end. -/
structure Tally {X : ExecutorModel} {α : Type*} {ex : X.Executor} {N : ℕ} (R : Rounds X ex N)
    (p : Phase X α) (admitted : Bool) (invoked woken : ℕ) : Prop where
  /-- Before its admission check a call is not admitted and has not slept. -/
  idle : p = .notStarted → admitted = false ∧ woken = 0
  /-- The first attempt and every sleep, ended or not, lead to an invocation that was made or is to
  come. -/
  balance : woken + p.asleep.toNat + admitted.toNat = invoked + p.due.toNat
  /-- The number of the attempt. -/
  number : ∀ a, p.attempt = some a → a = R.attemptAt (woken + 1)
  /-- There are at most as many sleeps as retries. -/
  few : woken + p.asleep.toNat ≤ N

namespace Tally

variable {X : ExecutorModel} {ι κ S α : Type*} {P : Setup X ι κ S α} {c : κ} {N : ℕ}
  {R : Rounds X (P.executorOf c) N} {p : Phase X α} {admitted : Bool} {invoked woken : ℕ}

/-- A call with at most `N` sleeps invokes its operation at most `N + 1` times. -/
lemma invoked_le (h : Tally R p admitted invoked woken) : invoked ≤ N + 1 := by
  have hbalance := h.balance
  have hfew := h.few
  have hadmitted := Bool.toNat_le admitted
  omega

/-- A step to another phase, in which no sleep begins. -/
lemma moved {q : Phase X α} {invoked' : ℕ} (h : Tally R p admitted invoked woken)
    (hq : q ≠ .notStarted) (hasleep : q.asleep.toNat ≤ p.asleep.toNat)
    (hdue : invoked' + q.due.toNat + p.asleep.toNat = invoked + p.due.toNat + q.asleep.toNat)
    (hattempt : ∀ a, q.attempt = some a → p.attempt = some a) :
    Tally R q admitted invoked' woken where
  idle hidle := absurd hidle hq
  balance := by
    have hbalance := h.balance
    omega
  number a ha := h.number a (hattempt a ha)
  few := by
    have hfew := h.few
    omega

/-- The admission check. -/
lemma afterCheck (h : Tally R (.notStarted : Phase X α) admitted invoked woken)
    (r : Except String Unit) : Tally R (P.afterCheck c r) r.isOk invoked woken := by
  have hbalance := h.balance
  obtain ⟨rfl, rfl⟩ := h.idle rfl
  rcases r with err | ⟨⟩
  · exact ⟨fun _ => ⟨rfl, rfl⟩, hbalance, fun a ha => (by cases ha), h.few⟩
  · have hfirst : P.afterCheck c (.ok ()) = .ready (R.attemptAt 1) := by
      rw [Setup.afterCheck]
      simp only [R.first]
    rw [hfirst]
    refine ⟨fun hidle => (by cases hidle), ?_, fun a ha => (Option.some.inj ha).symm, h.few⟩
    exact congrArg (· + 1) hbalance

/-- After a sleep comes the next attempt. -/
lemma nextRound_eq {a : X.Counter} {err err' : String}
    (h : Tally R (.backingOff a err : Phase X α) admitted invoked woken) :
    P.nextRound c a err' = .ready (R.attemptAt (woken + 1 + 1)) := by
  have hfew : woken + 1 ≤ N := h.few
  obtain rfl := h.number a rfl
  rw [Setup.nextRound]
  simp only [R.next (woken + 1) (by omega) (by omega), if_pos hfew]

/-- The end of a sleep. -/
lemma nextRound {a : X.Counter} {err err' : String}
    (h : Tally R (.backingOff a err : Phase X α) admitted invoked woken) :
    Tally R (P.nextRound c a err') admitted invoked (woken + 1) := by
  rw [h.nextRound_eq]
  exact ⟨fun hidle => (by cases hidle), h.balance, fun a ha => (Option.some.inj ha).symm, h.few⟩

/-- After a failed attempt a call sleeps, if there are retries left, or returns. -/
lemma afterPublish_eq {a : X.Counter} {err : String} {code : Option ℕ}
    (h : Tally R (.publishing (.failure a err) code : Phase X α) admitted invoked woken) :
    P.afterPublish c (.failure a err) =
      if woken + 1 ≤ N then .backingOff a err
      else .returned (.error (P.finalError c (some err))) := by
  have hfew : woken ≤ N := h.few
  obtain rfl := h.number a rfl
  have hretries := R.retries (woken + 1) (by omega) (by omega)
  rw [Setup.afterPublish, hretries]
  by_cases hmore : woken + 1 ≤ N
  · rw [if_pos (decide_eq_true hmore), if_pos hmore]
  · rw [if_neg (by simpa using hmore), if_neg hmore, Setup.nextRound]
    simp only [R.next (woken + 1) (by omega) (by omega), if_neg hmore]

/-- The end of the publication. -/
lemma afterPublish {outcome : Outcome X α} {code : Option ℕ}
    (h : Tally R (.publishing outcome code : Phase X α) admitted invoked woken) :
    Tally R (P.afterPublish c outcome) admitted invoked woken := by
  rcases outcome with result | ⟨a, err⟩
  · exact h.moved (fun hidle => by cases hidle) le_rfl rfl fun a ha => by cases ha
  · rw [h.afterPublish_eq]
    split_ifs with hmore
    · have hbalance : woken + admitted.toNat = invoked := h.balance
      refine ⟨fun hidle => (by cases hidle), ?_, h.number, hmore⟩
      change woken + 1 + admitted.toNat = invoked + 1
      omega
    · exact h.moved (fun hidle => by cases hidle) le_rfl rfl fun a ha => by cases ha

end Tally

namespace Setup

variable {X : ExecutorModel} {ι κ S α : Type*} [DecidableEq ι] [DecidableEq κ]
  {P : Setup X ι κ S α} {N : ι → ℕ} {s s' : ExecState X ι κ S α} {ls : List (ExecLabel κ)}
  {l : ExecLabel κ}

/-- Every call is balanced after the steps so far. -/
def Balanced (R : ∀ i, Rounds X (P.executor i) (N i)) (s : ExecState X ι κ S α)
    (ls : List (ExecLabel κ)) : Prop :=
  ∀ c, Tally (R (P.via c)) (s.phase c) (s.admitted c) (invocations ls c) (wakes ls c)

variable {R : ∀ i, Rounds X (P.executor i) (N i)}

/-- Every step keeps the balances. -/
theorem balanced_step (hs : Balanced R s ls) (h : P.step s l = some s') :
    Balanced R s' (ls ++ [l]) := by
  intro d
  have htally := hs d
  by_cases hl : l.caller = some d
  · obtain ⟨hinvoke, hwake, -⟩ := counts_concat ls l d
    have hadmitted : l ≠ .start d → s'.admitted d = s.admitted d := admitted_of_ne_start h
    rw [hinvoke, hwake]
    cases callMoves_of_step h hl with
    | start r hc hc' hisOk =>
      rw [hc] at htally
      rw [hc', hisOk]
      exact htally.afterCheck r
    | invoke attempt hc hc' =>
      rw [hc] at htally
      rw [hc', hadmitted (by simp), if_pos rfl]
      exact htally.moved (fun hidle => by cases hidle) le_rfl rfl fun a => id
    | succeed attempt result hc hc' =>
      rw [hc] at htally
      rw [hc', hadmitted (by simp)]
      exact htally.moved (fun hidle => by cases hidle) le_rfl rfl fun a ha => by cases ha
    | report outcome point point' hc hc' =>
      rw [hc] at htally
      rw [hc', hadmitted (by simp)]
      rcases point' with - | p <;> rcases outcome with result | ⟨a, err⟩
      all_goals exact htally.moved (fun hidle => by cases hidle) le_rfl rfl fun a => id
    | readState outcome code hc hc' =>
      rw [hc] at htally
      rw [hc', hadmitted (by simp)]
      rcases outcome with result | ⟨a, err⟩
      all_goals exact htally.moved (fun hidle => by cases hidle) le_rfl rfl fun a => id
    | publish outcome code hc hc' =>
      rw [hc] at htally
      rw [hc', hadmitted (by simp)]
      exact htally.afterPublish
    | wake attempt err hc hc' =>
      rw [hc] at htally
      rw [hc', hadmitted (by simp), if_pos rfl]
      exact htally.nextRound
    | cancel err attempt e hc hc' =>
      rw [hc] at htally
      rw [hc', hadmitted (by simp)]
      exact htally.moved (fun hidle => by cases hidle) (Nat.zero_le _) rfl
        fun a ha => by cases ha
    | _ =>
      -- an operation that takes effect, and an attempt that fails
      rename_i hc hc'
      rw [hc] at htally
      rw [hc', hadmitted (by simp)]
      exact htally.moved (fun hidle => by cases hidle) le_rfl rfl fun a => id
  · obtain ⟨hinvoke, hwake, -⟩ := counts_of_caller_ne ls hl
    rw [phase_of_caller_ne h hl, admitted_of_caller_ne h hl, hinvoke, hwake]
    exact htally

/-- After the steps of a run every call is balanced. -/
theorem balanced_run (R : ∀ i, Rounds X (P.executor i) (N i)) {clock : ℕ} {store : S}
    (h : runFrom P.step (P.init clock store) ls = some s) : Balanced R s ls := by
  refine history_of_stepsMeet (I := Balanced R) (C := fun _ _ => True)
    (fun s ls l s' hs _ h => balanced_step hs h) (fun c => ?_)
    (fun _ _ _ _ _ _ _ => trivial) h
  exact ⟨fun _ => ⟨rfl, rfl⟩, rfl, fun a ha => (by cases ha), Nat.zero_le _⟩

/-! ### The metric -/

/-- The retries of the call are counted under these labels. -/
def Labelled (P : Setup X ι κ S α) (contract opName backend : String) (c : κ) : Prop :=
  X.hasMetrics (P.executorOf c) = true ∧ contract = X.contract (P.executorOf c) ∧
    opName = (P.call c).opName ∧ backend = X.backend (P.executorOf c)

instance (contract opName backend : String) (c : κ) :
    Decidable (P.Labelled contract opName backend c) := inferInstanceAs (Decidable (_ ∧ _))

/-- The retries of a call that were counted: the sleeps that ended, were cancelled or go on. -/
def counted (s : ExecState X ι κ S α) (ls : List (ExecLabel κ)) (c : κ) : ℕ :=
  wakes ls c + cancellations ls c + (s.phase c).asleep.toNat

/-- The call falls asleep. -/
def fallsAsleep (s s' : ExecState X ι κ S α) (c : κ) : Bool :=
  (s'.phase c).asleep && !(s.phase c).asleep

omit [DecidableEq ι] [DecidableEq κ] in
/-- No sleep comes before an attempt. -/
lemma asleep_nextRound (c : κ) (a : X.Counter) (err : String) :
    (P.nextRound c a err).asleep = false := by
  rw [nextRound]
  split <;> rfl

omit [DecidableEq ι] [DecidableEq κ] in
/-- No sleep comes after the admission check. -/
lemma asleep_afterCheck (c : κ) (r : Except String Unit) : (P.afterCheck c r).asleep = false := by
  rcases r with err | ⟨⟩
  · rfl
  · rw [afterCheck]
    split <;> rfl

omit [DecidableEq ι] [DecidableEq κ] in
/-- A sleep is counted before it begins. -/
lemma retriesTotal_countRetry (c : κ) (outcome : Outcome X α) (m : Metrics)
    (contract opName backend : String) :
    (P.countRetry c outcome m).retriesTotal contract opName backend =
      m.retriesTotal contract opName backend +
        if P.Labelled contract opName backend c then (P.afterPublish c outcome).asleep.toNat
        else 0 := by
  rcases outcome with result | ⟨a, err⟩
  · simp [countRetry, afterPublish, Phase.asleep]
  · by_cases hretries : X.retries (P.executorOf c) a = true
    · by_cases hmetrics : X.hasMetrics (P.executorOf c) = true
      · simp [countRetry, afterPublish, Phase.asleep, Labelled, hretries, hmetrics,
          Metrics.incRetries]
      · simp [countRetry, Labelled, hretries, hmetrics]
    · simp [countRetry, afterPublish, asleep_nextRound, hretries]

/-- A sleep ends with its own steps and begins after a publication. -/
lemma asleep_of_caller {c : κ} (h : P.step s l = some s') (hl : l.caller = some c) :
    (s.phase c).asleep = (decide (l = .wake c) || l.cancels c) ∧
      ((s'.phase c).asleep = true → l = .publish c) := by
  cases callMoves_of_step h hl with
  | start r hc hc' hadmitted =>
    rw [hc, hc', asleep_afterCheck]
    exact ⟨by simp [Phase.asleep, ExecLabel.cancels], fun h => absurd h Bool.false_ne_true⟩
  | report outcome point point' hc hc' =>
    rw [hc, hc']
    refine ⟨by simp [Phase.asleep, ExecLabel.cancels], fun h => ?_⟩
    rcases point' with - | p <;> exact absurd h Bool.false_ne_true
  | publish outcome code hc hc' =>
    rw [hc]
    exact ⟨by simp [Phase.asleep, ExecLabel.cancels], fun _ => rfl⟩
  | wake a err hc hc' =>
    rw [hc, hc', asleep_nextRound]
    exact ⟨by simp [Phase.asleep], fun h => absurd h Bool.false_ne_true⟩
  | cancel err a e hc hc' =>
    rw [hc, hc']
    simp [Phase.asleep, ExecLabel.cancels]
  | _ =>
    rename_i hc hc'
    rw [hc, hc']
    simp [Phase.asleep, ExecLabel.cancels]

/-- Only a publication changes the metrics. -/
lemma metrics_of_ne_publish (h : P.step s l = some s') (hl : ∀ c, l ≠ .publish c) :
    s'.metrics = s.metrics := by
  cases moves_of_step h with
  | readState d outcome hc hmetrics => rfl
  | publish d outcome code metrics hc hcode => exact absurd rfl (hl d)
  | _ => rfl

/-- A publication counts the retry of a call that falls asleep. -/
lemma retriesTotal_publish {c : κ} (h : P.step s (.publish c) = some s')
    (contract opName backend : String) :
    s'.metrics.retriesTotal contract opName backend =
      s.metrics.retriesTotal contract opName backend +
        if P.Labelled contract opName backend c then (s'.phase c).asleep.toNat else 0 := by
  simp only [step] at h
  split at h
  next outcome hc =>
    split_ifs at h with hmetrics
    · obtain rfl := Option.some.inj h
      simp [Phase.asleep]
    · obtain rfl := Option.some.inj h
      simp [Labelled, hmetrics]
  next outcome code hc =>
    obtain rfl := Option.some.inj h
    simp only [Function.update_self]
    exact retriesTotal_countRetry c outcome _ contract opName backend
  next => cases h

/-- The metric counts the call that falls asleep. -/
lemma retriesTotal_step {c : κ} (h : P.step s l = some s') (hl : l.caller = some c)
    (contract opName backend : String) :
    s'.metrics.retriesTotal contract opName backend =
      s.metrics.retriesTotal contract opName backend +
        if P.Labelled contract opName backend c then (fallsAsleep s s' c).toNat else 0 := by
  obtain ⟨hbefore, hafter⟩ := asleep_of_caller h hl
  by_cases hpublish : l = .publish c
  · subst hpublish
    have hawake : (s.phase c).asleep = false := hbefore
    rw [retriesTotal_publish h, fallsAsleep, hawake, Bool.not_false, Bool.and_true]
  · have hawake : (s'.phase c).asleep = false := Bool.eq_false_iff.mpr (mt hafter hpublish)
    have hother : ∀ d, l ≠ .publish d := by
      rintro d rfl
      exact hpublish (congrArg _ (Option.some.inj hl))
    rw [metrics_of_ne_publish h hother, fallsAsleep, hawake, Bool.false_and]
    simp

/-- The count of a call that falls asleep grows by one, and the others stay. -/
lemma counted_step (h : P.step s l = some s') (c : κ) :
    counted s' (ls ++ [l]) c = counted s ls c + (fallsAsleep s s' c).toNat := by
  by_cases hl : l.caller = some c
  · obtain ⟨hbefore, hafter⟩ := asleep_of_caller h hl
    obtain ⟨-, hwake, hcancel⟩ := counts_concat ls l c
    rw [counted, counted, fallsAsleep, hwake, hcancel, hbefore]
    rcases hasleep : (s'.phase c).asleep with - | -
    · by_cases heq : l = .wake c
      · subst heq
        simp [ExecLabel.cancels]
        omega
      · by_cases hcancels : l.cancels c = true
        · simp [heq, hcancels]
          omega
        · simp [heq, hcancels]
    · obtain rfl := hafter hasleep
      simp [ExecLabel.cancels]
  · obtain ⟨-, hwake, hcancel⟩ := counts_of_caller_ne ls hl
    rw [counted, counted, fallsAsleep, hwake, hcancel, phase_of_caller_ne h hl, Bool.and_not_self]
    rfl

/-- The metric is the sum of the counts, over any calls among which are those that have started. -/
def Counts (P : Setup X ι κ S α) (s : ExecState X ι κ S α) (ls : List (ExecLabel κ)) : Prop :=
  ∀ C : Finset κ, (∀ c ∉ C, s.phase c = .notStarted) → ∀ contract opName backend,
    s.metrics.retriesTotal contract opName backend =
      ∑ c ∈ C, if P.Labelled contract opName backend c then counted s ls c else 0

/-- Every step keeps the sum. -/
theorem counts_step (hs : Counts P s ls) (h : P.step s l = some s') :
    Counts P s' (ls ++ [l]) := by
  intro C hC contract opName backend
  have hsum := hs C (fun c hc => notStarted_of_step h (hC c hc)) contract opName backend
  have hsplit : ∀ c, (if P.Labelled contract opName backend c then counted s' (ls ++ [l]) c
      else 0) = (if P.Labelled contract opName backend c then counted s ls c else 0) +
        if P.Labelled contract opName backend c then (fallsAsleep s s' c).toNat else 0 := by
    intro c
    rw [counted_step h]
    split_ifs <;> rfl
  have hother : ∀ c, l.caller ≠ some c → fallsAsleep s s' c = false := by
    intro c hc
    rw [fallsAsleep, phase_of_caller_ne h hc, Bool.and_not_self]
  simp only [hsplit, Finset.sum_add_distrib, ← hsum]
  rcases hl : l.caller with - | d
  · have hmetrics : s'.metrics = s.metrics := metrics_of_ne_publish h fun c hc => by
      rw [hc] at hl
      cases hl
    have hzero : ∀ c, fallsAsleep s s' c = false := fun c => hother c (by rw [hl]; simp)
    simp [hmetrics, hzero]
  · rw [retriesTotal_step h hl]
    refine congrArg (_ + ·) (Eq.symm ?_)
    refine Finset.sum_eq_single d (fun c _ hne => ?_) fun hd => ?_
    · have hzero := hother c fun hc => hne (Option.some.inj (hc.symm.trans hl))
      simp [hzero]
    · have hzero : fallsAsleep s s' d = false := by
        rw [fallsAsleep, hC d hd]
        rfl
      simp [hzero]

/-- After the steps of a run the metric is the sum of the counts. -/
theorem counts_run {clock : ℕ} {store : S} (h : runFrom P.step (P.init clock store) ls = some s) :
    Counts P s ls := by
  refine history_of_stepsMeet (I := Counts P) (C := fun _ _ => True)
    (fun s ls l s' hs _ h => counts_step hs h) (fun C _ contract opName backend => ?_)
    (fun _ _ _ _ _ _ _ => trivial) h
  refine (Finset.sum_eq_zero fun c _ => ?_).symm
  split_ifs <;> rfl

/-- Where no sleep can be cancelled, none is. -/
lemma cancellations_run (hX : X.cancellable = false) {clock : ℕ} {store : S}
    (h : runFrom P.step (P.init clock store) ls = some s) (c : κ) : cancellations ls c = 0 := by
  refine history_of_stepsMeet (I := fun (_ : ExecState X ι κ S α) ls => cancellations ls c = 0)
    (C := fun _ _ => True) (fun s ls l s' hs _ h => ?_) rfl (fun _ _ _ _ _ _ _ => trivial) h
  obtain ⟨-, -, hcancel⟩ := counts_concat ls l c
  have hl : ¬ l.cancels c = true := by
    intro hl
    rcases l with d | d | d | d | ⟨d, n⟩ | d | ⟨d, err⟩ | d | d | d | ⟨d, err⟩
    case cancel =>
      simp only [step, hX] at h
      split at h
      · cases h
      · cases h
    all_goals cases hl
  rw [hcancel, hs, if_neg hl]

/-- The retries that are counted under some labels and the admitted calls of these labels add up to
their invocations, their cancelled sleeps and the calls that owe an invocation; `C` are any calls
among which are those that have started. -/
def Conserved (P : Setup X ι κ S α) (s : ExecState X ι κ S α) (ls : List (ExecLabel κ)) : Prop :=
  ∀ C : Finset κ, (∀ c ∉ C, s.phase c = .notStarted) → ∀ contract opName backend,
    s.metrics.retriesTotal contract opName backend +
        (C.filter fun c => P.Labelled contract opName backend c ∧ s.admitted c = true).card =
      ∑ c ∈ C.filter (P.Labelled contract opName backend),
          (invocations ls c + cancellations ls c) +
        (C.filter fun c => P.Labelled contract opName backend c ∧ (s.phase c).due = true).card

omit [DecidableEq ι] [DecidableEq κ] in
/-- The calls with some labels that meet a condition, counted one by one. -/
lemma card_labelled (C : Finset κ) (contract opName backend : String) (b : κ → Bool) :
    (C.filter fun c => P.Labelled contract opName backend c ∧ b c = true).card =
      ∑ c ∈ C.filter (P.Labelled contract opName backend), (b c).toNat := by
  rw [← Finset.filter_filter, Finset.card_filter]
  refine Finset.sum_congr rfl fun c _ => ?_
  cases b c <;> rfl

omit [DecidableEq ι] in
/-- The balances of the calls, summed up. -/
theorem conserved_of_balanced (hs : Balanced R s ls) (hcounts : Counts P s ls) :
    Conserved P s ls := by
  intro C hC contract opName backend
  rw [hcounts C hC, ← Finset.sum_filter, card_labelled, card_labelled, ← Finset.sum_add_distrib,
    ← Finset.sum_add_distrib]
  refine Finset.sum_congr rfl fun c _ => ?_
  have hbalance := (hs c).balance
  rw [counted]
  omega

end Setup

/-! ### Both libraries -/

/-- In every state of every run of concurrent calls of either library, an admitted call has invoked
its operation at most once more than there are retries, and for any labels the retries counted and
the admitted calls add up to the invocations, the cancelled sleeps and the calls that owe an
invocation; in the Rust library no sleep is cancelled.  The counters of the attempts do not wrap
around. -/
theorem retries_conserved {ι κ S α : Type*} [DecidableEq ι] [DecidableEq κ] (clock : ℕ) (store : S)
    (ls : List (ExecLabel κ)) :
    (∀ (P : Setup Rust.executorModel ι κ S α) (s : ExecState Rust.executorModel ι κ S α),
      (∀ i, (P.executor i).config.maxRetries.toNat ≤ 64) →
      runFrom P.step (P.init clock store) ls = some s →
      P.Conserved s ls ∧ (∀ c, cancellations ls c = 0) ∧
        ∀ c, invocations ls c ≤ (P.executorOf c).config.maxRetries.toNat + 1) ∧
    (∀ (P : Setup Go.executorModel ι κ S α) (s : ExecState Go.executorModel ι κ S α),
      (∀ i, 0 ≤ (P.executor i).cfg.maxRetries.toInt ∧
        (P.executor i).cfg.maxRetries.toInt < 9223372036854775806) →
      runFrom P.step (P.init clock store) ls = some s →
      P.Conserved s ls ∧
        ∀ c, (invocations ls c : ℤ) ≤ (P.executorOf c).cfg.maxRetries.toInt + 1) := by
  refine ⟨fun P s hmax hrun => ?_, fun P s hmax hrun => ?_⟩
  · have hlt : ∀ i, (P.executor i).config.maxRetries.toNat < 4294967295 :=
      fun i => (hmax i).trans_lt (by decide)
    have hbalanced := Setup.balanced_run (fun i => Rust.rounds (P.executor i) (hlt i)) hrun
    exact ⟨Setup.conserved_of_balanced hbalanced (Setup.counts_run hrun),
      Setup.cancellations_run rfl hrun, fun c => (hbalanced c).invoked_le⟩
  · have hN : ∀ i, (P.executor i).cfg.maxRetries.toInt =
        ((P.executor i).cfg.maxRetries.toInt.toNat : ℤ) :=
      fun i => (Int.toNat_of_nonneg (hmax i).1).symm
    have hlt : ∀ i, (P.executor i).cfg.maxRetries.toInt.toNat < 9223372036854775806 := by
      intro i
      have hi := (hmax i).2
      omega
    have hbalanced := Setup.balanced_run (fun i => Go.rounds (P.executor i) (hN i) (hlt i)) hrun
    refine ⟨Setup.conserved_of_balanced hbalanced (Setup.counts_run hrun), fun c => ?_⟩
    have hle : invocations ls c ≤ (P.executor (P.via c)).cfg.maxRetries.toInt.toNat + 1 :=
      (hbalanced c).invoked_le
    have hvia := hN (P.via c)
    rw [Setup.executorOf]
    omega

/-- In the runs in which a call has failed once and slept, the counts are conserved. -/
theorem retries_conserved_retried :
    (∃ s, runFrom hastyRust.step (hastyRust.init 0 ()) retriedRust = some s ∧
      hastyRust.Conserved s retriedRust) ∧
    ∃ s, runFrom hastyGo.step (hastyGo.init 0 ()) retriedGo = some s ∧
      hastyGo.Conserved s retriedGo :=
  ⟨⟨_, rfl, ((retries_conserved 0 () retriedRust).1 hastyRust _ (fun i => by
      cases i
      decide) rfl).1⟩,
    ⟨_, rfl, ((retries_conserved 0 () retriedGo).2 hastyGo _ (fun i => by
      cases i
      decide) rfl).1⟩⟩

end GoyStore
