import GoyStore.Resilience.ConfiguredLimits
import GoyStore.Resilience.RetryAccounting
import GoyStore.Resilience.RetryDelays
import Mathlib.Algebra.Order.BigOperators.Group.Finset

/-!
# How long a call takes

An attempt is cut off by its timeout, and a failed one is followed by a sleep of a known length, so
a call returns within a time that its configuration determines, whatever the other calls do.

The runs are those of concurrent calls, with the times at which each call was admitted and entered
its phase.  In a timely run the timeouts fire and the sleeps end when they are due, and a call
takes no time outside its attempts and its sleeps.  A call that is still under way then has not used
up the timeouts of all its attempts and the delays between them (`OnTime.within`), which are summed
up for either library in `call_duration`.
-/

namespace GoyStore

open Runs

/-! ### Runs with times -/

/-- Concurrent calls with their times. -/
structure TimedState (X : ExecutorModel) (ι κ S α : Type*) where
  /-- The executors, the backend and the calls. -/
  exec : ExecState X ι κ S α
  /-- When a call made its admission check. -/
  startedAt : κ → ℕ
  /-- When a call entered its phase; an attempt that takes effect goes on. -/
  since : κ → ℕ

/-- How long the attempts of a call and the sleeps after them last at most. -/
structure Durations (X : ExecutorModel) (κ : Type*) where
  /-- The timeout of an attempt. -/
  timeout : κ → ℕ
  /-- The sleep after an attempt. -/
  delay : κ → X.Counter → ℕ

/-- The call that enters a phase. -/
def ExecLabel.enters {κ : Type*} : ExecLabel κ → Option κ
  | .takeEffect _ => none
  | l => l.caller

namespace TimedState

variable {X : ExecutorModel} {ι κ S α : Type*} [DecidableEq ι] [DecidableEq κ]

/-- No call has started. -/
def init (P : Setup X ι κ S α) (clock : ℕ) (store : S) : TimedState X ι κ S α where
  exec := P.init clock store
  startedAt _ := 0
  since _ := 0

/-- The times of the admission checks after a step. -/
def startedAfter (t : TimedState X ι κ S α) : ExecLabel κ → κ → ℕ
  | .start c => Function.update t.startedAt c t.exec.clock
  | _ => t.startedAt

/-- The times at which the phases were entered, after a step. -/
def sinceAfter (t : TimedState X ι κ S α) (l : ExecLabel κ) : κ → ℕ :=
  match l.enters with
  | some c => Function.update t.since c t.exec.clock
  | none => t.since

/-- One step. -/
def step (P : Setup X ι κ S α) (t : TimedState X ι κ S α) (l : ExecLabel κ) :
    Option (TimedState X ι κ S α) :=
  (P.step t.exec l).map fun exec => ⟨exec, t.startedAfter l, t.sinceAfter l⟩

end TimedState

/-- How long a call may stay in a phase. -/
def Durations.allowance {X : ExecutorModel} {κ α : Type*} (D : Durations X κ) (c : κ) :
    Phase X α → Option ℕ
  | .notStarted => none
  | .ready _ => some 0
  | .running _ _ => some (D.timeout c)
  | .reporting _ _ => some 0
  | .publishing _ _ => some 0
  | .backingOff a _ => some (D.delay c a)
  | .returned _ => none

/-- No call stays in a phase for longer than it may. -/
def Timely {X : ExecutorModel} {ι κ S α : Type*} (D : Durations X κ) (t : TimedState X ι κ S α) :
    ExecLabel κ → Prop
  | .tick d => ∀ c a, D.allowance c (t.exec.phase c) = some a → t.exec.clock + d ≤ t.since c + a
  | _ => True

/-- An attempt has been made since the last sleep. -/
def Phase.tried {X : ExecutorModel} {α : Type*} : Phase X α → Bool
  | .reporting _ _ => true
  | .publishing _ _ => true
  | .backingOff _ _ => true
  | _ => false

section Bound

variable {X : ExecutorModel} {ι κ S α : Type*} {P : Setup X ι κ S α} {N : ι → ℕ}

/-- The time of the attempts and of the sleeps that are over. -/
def Durations.spent (D : Durations X κ) (R : ∀ i, Rounds X (P.executor i) (N i)) (c : κ)
    (woken : ℕ) (p : Phase X α) : ℕ :=
  (woken + p.tried.toNat) * D.timeout c +
    ∑ k ∈ Finset.range woken, D.delay c ((R (P.via c)).attemptAt (k + 1))

/-- The time of all attempts and of the sleeps between them. -/
def Durations.total (D : Durations X κ) (R : ∀ i, Rounds X (P.executor i) (N i)) (c : κ) : ℕ :=
  (N (P.via c) + 1) * D.timeout c +
    ∑ k ∈ Finset.range (N (P.via c)), D.delay c ((R (P.via c)).attemptAt (k + 1))

/-- The call has not stayed in its phase for longer than it may, and it had not taken longer than
its attempts and its sleeps when it entered the phase. -/
structure OnTime (D : Durations X κ) (R : ∀ i, Rounds X (P.executor i) (N i))
    (p : Phase X α) (startedAt since clock : ℕ) (c : κ) (woken : ℕ) : Prop where
  /-- It is in time. -/
  allowed : ∀ a, D.allowance c p = some a → clock ≤ since + a
  /-- It was in time. -/
  entered : D.allowance c p ≠ none → since ≤ startedAt + D.spent R c woken p

variable {D : Durations X κ} {R : ∀ i, Rounds X (P.executor i) (N i)} {p q : Phase X α}
  {startedAt since clock : ℕ} {c : κ} {woken invoked : ℕ} {admitted : Bool}

/-- Up to some attempts and sleeps, the time is no more than the total. -/
lemma Durations.le_total {tried : ℕ} (htried : tried ≤ N (P.via c) + 1)
    (hwoken : woken ≤ N (P.via c)) :
    tried * D.timeout c +
        ∑ k ∈ Finset.range woken, D.delay c ((R (P.via c)).attemptAt (k + 1)) ≤
      D.total R c :=
  Nat.add_le_add (Nat.mul_le_mul_right _ htried)
    (Finset.sum_le_sum_of_subset (Finset.range_mono hwoken))

/-- With the longest stay in its phase a call does not spend more than the total. -/
lemma Durations.spent_add_le {a : ℕ} (htally : Tally (R (P.via c)) p admitted invoked woken)
    (ha : D.allowance c p = some a) : D.spent R c woken p + a ≤ D.total R c := by
  rcases p with - | attempt | ⟨attempt, effect⟩ | ⟨outcome, point⟩ | ⟨outcome, code⟩ |
    ⟨attempt, err⟩ | result
  · cases ha
  · obtain rfl := Option.some.inj ha
    have hfew : woken ≤ N (P.via c) := htally.few
    exact D.le_total (hfew.trans (Nat.le_succ _)) hfew
  · obtain rfl := Option.some.inj ha
    have hfew : woken ≤ N (P.via c) := htally.few
    have hle := D.le_total (R := R) (c := c) (Nat.succ_le_succ hfew) hfew
    rw [Nat.succ_mul] at hle
    rw [spent]
    change woken * D.timeout c + _ + D.timeout c ≤ _
    omega
  · obtain rfl := Option.some.inj ha
    have hfew : woken ≤ N (P.via c) := htally.few
    exact D.le_total (Nat.succ_le_succ hfew) hfew
  · obtain rfl := Option.some.inj ha
    have hfew : woken ≤ N (P.via c) := htally.few
    exact D.le_total (Nat.succ_le_succ hfew) hfew
  · obtain rfl := Option.some.inj ha
    have hfew : woken + 1 ≤ N (P.via c) := htally.few
    obtain rfl := htally.number attempt rfl
    have hle := D.le_total (R := R) (c := c) (hfew.trans (Nat.le_succ _)) hfew
    rw [Finset.sum_range_succ, ← Nat.add_assoc] at hle
    exact hle
  · cases ha

/-- A call that is in time has not taken more than the total. -/
lemma OnTime.within (h : OnTime D R p startedAt since clock c woken)
    (htally : Tally (R (P.via c)) p admitted invoked woken) (hp : D.allowance c p ≠ none) :
    clock ≤ startedAt + D.total R c := by
  obtain ⟨a, ha⟩ := Option.ne_none_iff_exists'.mp hp
  calc clock ≤ since + a := h.allowed a ha
    _ ≤ startedAt + D.spent R c woken p + a := Nat.add_le_add_right (h.entered hp) a
    _ = startedAt + (D.spent R c woken p + a) := Nat.add_assoc ..
    _ ≤ startedAt + D.total R c := Nat.add_le_add_left (D.spent_add_le htally ha) _

/-- The next phase is entered in time. -/
lemma OnTime.enters {woken' : ℕ} (h : OnTime D R p startedAt since clock c woken)
    (hp : D.allowance c p ≠ none)
    (hspent : ∀ a, D.allowance c p = some a →
      D.spent R c woken p + a ≤ D.spent R c woken' q) :
    OnTime D R q startedAt clock clock c woken' where
  allowed a _ := Nat.le_add_right clock a
  entered _ := by
    obtain ⟨a, ha⟩ := Option.ne_none_iff_exists'.mp hp
    calc clock ≤ since + a := h.allowed a ha
      _ ≤ startedAt + D.spent R c woken p + a := Nat.add_le_add_right (h.entered hp) a
      _ = startedAt + (D.spent R c woken p + a) := Nat.add_assoc ..
      _ ≤ startedAt + D.spent R c woken' q := Nat.add_le_add_left (hspent a ha) _

/-- An attempt that ends has taken its time. -/
lemma Durations.spent_of_running {a : X.Counter} {effect : Option α} {b : ℕ}
    {outcome : Outcome X α} (hb : D.allowance c (.running a effect : Phase X α) = some b) :
    D.spent R c woken (.running a effect : Phase X α) + b ≤
      D.spent R c woken (.reporting outcome none) := by
  obtain rfl := Option.some.inj hb
  change woken * D.timeout c + _ + D.timeout c ≤ (woken + 1) * D.timeout c + _
  rw [Nat.succ_mul, Nat.add_right_comm]

/-- A sleep that ends has taken its time. -/
lemma Durations.spent_of_backingOff {err : String} {b : ℕ} {a : X.Counter}
    (hb : D.allowance c (.backingOff ((R (P.via c)).attemptAt (woken + 1)) err : Phase X α) =
      some b) :
    D.spent R c woken (.backingOff ((R (P.via c)).attemptAt (woken + 1)) err : Phase X α) + b ≤
      D.spent R c (woken + 1) (.ready a : Phase X α) := by
  obtain rfl := Option.some.inj hb
  rw [spent, spent, Finset.sum_range_succ, ← Nat.add_assoc]
  exact le_rfl

/-- A call that returns has no more time to keep. -/
lemma OnTime.of_none (hq : D.allowance c q = none) :
    OnTime D R q startedAt since clock c woken where
  allowed a ha := by
    rw [hq] at ha
    cases ha
  entered h := absurd hq h

end Bound

/-! ### Timely runs -/

namespace TimedState

variable {X : ExecutorModel} {ι κ S α : Type*} [DecidableEq ι] [DecidableEq κ]
  {P : Setup X ι κ S α} {N : ι → ℕ} {t t' : TimedState X ι κ S α} {ls : List (ExecLabel κ)}
  {l : ExecLabel κ}

/-- Every call is balanced and in time. -/
structure InTime (D : Durations X κ) (R : ∀ i, Rounds X (P.executor i) (N i))
    (t : TimedState X ι κ S α) (ls : List (ExecLabel κ)) : Prop where
  /-- The balances. -/
  balanced : Setup.Balanced R t.exec ls
  /-- The times. -/
  onTime : ∀ c, OnTime D R (t.exec.phase c) (t.startedAt c) (t.since c) t.exec.clock c (wakes ls c)

/-- Only the clock takes time. -/
lemma clock_of_caller {s s' : ExecState X ι κ S α} (h : P.step s l = some s')
    (hl : ∀ d, l ≠ .tick d) : s'.clock = s.clock := by
  cases Setup.moves_of_step h with
  | tick d => exact absurd rfl (hl d)
  | _ => rfl

variable {D : Durations X κ} {R : ∀ i, Rounds X (P.executor i) (N i)}

/-- A step of a call keeps it in time. -/
lemma onTime_of_caller {c : κ} {s' : ExecState X ι κ S α} (ht : InTime D R t ls)
    (h : P.step t.exec l = some s') (hl : l.caller = some c) :
    OnTime D R (s'.phase c) (t.startedAfter l c) (t.sinceAfter l c) s'.clock c
      (wakes (ls ++ [l]) c) := by
  obtain ⟨-, hwake, -⟩ := counts_concat ls l c
  have honTime := ht.onTime c
  have htally := ht.balanced c
  have hclock : s'.clock = t.exec.clock := clock_of_caller h fun d hd => by
    rw [hd] at hl
    cases hl
  rw [hwake, hclock]
  cases Setup.callMoves_of_step h hl with
  | start r hc hc' hadmitted =>
    simp only [startedAfter, sinceAfter, ExecLabel.enters, ExecLabel.caller, Function.update_self]
    exact ⟨fun a _ => Nat.le_add_right _ a, fun _ => Nat.le_add_right _ _⟩
  | takeEffect a result hc hc' =>
    rw [hc] at honTime
    rw [hc']
    simp only [startedAfter, sinceAfter, ExecLabel.enters]
    exact ⟨honTime.allowed, honTime.entered⟩
  | succeed a result hc hc' =>
    rw [hc] at honTime
    rw [hc']
    simp only [startedAfter, sinceAfter, ExecLabel.enters, ExecLabel.caller, Function.update_self]
    exact honTime.enters (Option.some_ne_none _) fun b hb => Durations.spent_of_running hb
  | fail err a effect hc hc' =>
    rw [hc] at honTime
    rw [hc']
    simp only [startedAfter, sinceAfter, ExecLabel.enters, ExecLabel.caller, Function.update_self]
    exact honTime.enters (Option.some_ne_none _) fun b hb => Durations.spent_of_running hb
  | report outcome point point' hc hc' =>
    rw [hc] at honTime
    rw [hc']
    simp only [startedAfter, sinceAfter, ExecLabel.enters, ExecLabel.caller, Function.update_self]
    refine honTime.enters (Option.some_ne_none _) fun b hb => ?_
    obtain rfl := Option.some.inj hb
    rcases point' with - | p <;> exact le_rfl
  | publish outcome code hc hc' =>
    rw [hc] at honTime htally
    rw [hc']
    simp only [startedAfter, sinceAfter, ExecLabel.enters, ExecLabel.caller, Function.update_self,
      reduceCtorEq, if_false, Nat.add_zero]
    rcases outcome with result | ⟨a, err⟩
    · exact .of_none rfl
    · rw [htally.afterPublish_eq]
      split_ifs
      · exact honTime.enters (Option.some_ne_none _) fun b hb => Option.some.inj hb ▸ le_rfl
      · exact .of_none rfl
  | wake a err hc hc' =>
    rw [hc] at honTime htally
    rw [hc', htally.nextRound_eq]
    obtain rfl := htally.number a rfl
    simp only [startedAfter, sinceAfter, ExecLabel.enters, ExecLabel.caller, Function.update_self,
      if_true]
    exact honTime.enters (Option.some_ne_none _) fun b hb => Durations.spent_of_backingOff hb
  | cancel err a e hc hc' => exact hc' ▸ .of_none rfl
  | _ =>
    -- an invocation, and a reading of the breaker
    rename_i hc hc'
    rw [hc] at honTime
    rw [hc']
    simp only [startedAfter, sinceAfter, ExecLabel.enters, ExecLabel.caller, Function.update_self]
    exact honTime.enters (Option.some_ne_none _) fun b hb => Option.some.inj hb ▸ le_rfl

/-- Every step of a timely run keeps the calls in time. -/
theorem inTime_step (ht : InTime D R t ls) (htimely : Timely D t l) (h : step P t l = some t') :
    InTime D R t' (ls ++ [l]) := by
  obtain ⟨s', hs', rfl⟩ := Option.map_eq_some_iff.mp h
  refine ⟨Setup.balanced_step ht.balanced hs', fun c => ?_⟩
  by_cases hl : l.caller = some c
  · exact onTime_of_caller ht hs' hl
  · have honTime := ht.onTime c
    have hstarted : t.startedAfter l c = t.startedAt c := by
      rcases l with d | d | d | d | ⟨d, n⟩ | d | ⟨d, err⟩ | d | d | d | ⟨d, err⟩
      case start => exact Function.update_of_ne (fun hc => hl (congrArg some hc.symm)) _ _
      all_goals rfl
    have hsince : t.sinceAfter l c = t.since c := by
      rcases l with d | d | d | d | ⟨d, n⟩ | d | ⟨d, err⟩ | d | d | d | ⟨d, err⟩
      all_goals first
        | rfl
        | exact Function.update_of_ne (fun hc => hl (congrArg some hc.symm)) _ _
    obtain ⟨-, hwake, -⟩ := counts_of_caller_ne ls hl
    rw [hwake]
    simp only [hstarted, hsince, Setup.phase_of_caller_ne hs' hl]
    refine ⟨fun a ha => ?_, honTime.entered⟩
    by_cases htick : ∃ d, l = .tick d
    · obtain ⟨d, rfl⟩ := htick
      obtain rfl := Option.some.inj hs'
      exact htimely c a ha
    · rw [clock_of_caller hs' (not_exists.mp htick)]
      exact honTime.allowed a ha

/-- In a timely run, every call is balanced and in time. -/
theorem inTime_run (R : ∀ i, Rounds X (P.executor i) (N i)) {clock : ℕ} {store : S}
    (h : runFrom (step P) (init P clock store) ls = some t)
    (htimely : StepsMeet (step P) (Timely D) (init P clock store) ls) : InTime D R t ls := by
  refine history_of_stepsMeet (I := InTime D R) (fun t ls l t' => inTime_step) ?_ htimely h
  refine ⟨fun c => ?_, fun c => .of_none rfl⟩
  exact ⟨fun _ => ⟨rfl, rfl⟩, rfl, fun a ha => (by cases ha), Nat.zero_le _⟩

/-- In a timely run, a call that is under way has not taken more than the time of all its attempts
and of the sleeps between them. -/
theorem within_run (R : ∀ i, Rounds X (P.executor i) (N i)) {clock : ℕ} {store : S}
    (h : runFrom (step P) (init P clock store) ls = some t)
    (htimely : StepsMeet (step P) (Timely D) (init P clock store) ls) {c : κ}
    (hc : Setup.Active (t.exec.phase c)) : t.exec.clock ≤ t.startedAt c + D.total R c := by
  have hinTime := inTime_run R h htimely
  refine (hinTime.onTime c).within (hinTime.balanced c) fun hnone => ?_
  rcases hphase : t.exec.phase c with - | a | ⟨a, effect⟩ | ⟨outcome, point⟩ | ⟨outcome, code⟩ |
    ⟨a, err⟩ | result
  · rw [hphase] at hc
    exact hc
  all_goals rw [hphase] at hc hnone
  all_goals first
    | exact absurd hnone (Option.some_ne_none _)
    | exact hc

end TimedState

/-! ### Doubled delays -/

/-- Delays that are doubled from one to the next add up to less than the next one would be. -/
lemma sum_doubled_le {b : ℕ} {d : ℕ → ℕ} (n : ℕ) (hd : ∀ k < n, d k ≤ b * 2 ^ k) :
    ∑ k ∈ Finset.range n, d k ≤ b * (2 ^ n - 1) := by
  induction n with
  | zero => exact Nat.zero_le _
  | succ n ih =>
    have hsum := ih fun k hk => hd k (Nat.lt_succ_of_lt hk)
    have hlast := hd n (Nat.lt_succ_self n)
    calc ∑ k ∈ Finset.range (n + 1), d k
        = ∑ k ∈ Finset.range n, d k + d n := Finset.sum_range_succ d n
      _ ≤ b * (2 ^ n - 1) + b * 2 ^ n := Nat.add_le_add hsum hlast
      _ = b * (2 ^ n - 1 + 2 ^ n) := (Nat.mul_add ..).symm
      _ = b * (2 ^ (n + 1) - 1) := by
        have hpos : 0 < 2 ^ n := Nat.two_pow_pos n
        rw [pow_succ]
        congr 1
        omega

/-- The total with doubled delays. -/
lemma Durations.total_le {X : ExecutorModel} {ι κ S α : Type*} {P : Setup X ι κ S α} {N : ι → ℕ}
    {D : Durations X κ} {R : ∀ i, Rounds X (P.executor i) (N i)} {c : κ} {b : ℕ}
    (hd : ∀ k < N (P.via c), D.delay c ((R (P.via c)).attemptAt (k + 1)) ≤ b * 2 ^ k) :
    D.total R c ≤ (N (P.via c) + 1) * D.timeout c + b * (2 ^ N (P.via c) - 1) :=
  Nat.add_le_add_left (sum_doubled_le _ hd) _

/-! ### The Rust executor -/

namespace Rust

/-- The times of the calls through Rust executors, in nanoseconds. -/
def durations {ι κ S α : Type*} (P : Setup executorModel ι κ S α) : Durations executorModel κ where
  timeout c := (P.executorOf c).config.operationTimeoutSeconds.toNat * 1000000000
  delay c attempt := ((P.executorOf c).delay attempt).elim 0 fun d => d.toNat * 1000000

/-- A delay is at most the base backoff, doubled for each attempt before, and a quarter more. -/
lemma delay_le (ex : ResilientExecutor) {k : ℕ} (hk : k < 64) :
    (ex.delay (UInt32.ofNat (k + 1))).elim 0 (fun d => d.toNat * 1000000) ≤
      ex.config.baseBackoffMs.toNat * 1250000 * 2 ^ k := by
  obtain ⟨factor, hfactor, hpow⟩ :=
    ResilientExecutor.factor_ofNat (Nat.succ_pos k) (Nat.succ_le_of_lt hk)
  obtain ⟨-, hjitter⟩ := ResilientExecutor.jitter_bounds (UInt32.ofNat (k + 1))
  rw [Nat.succ_sub_one] at hpow
  rw [ResilientExecutor.delay, hfactor, Option.map_some, Option.elim_some,
    ResilientExecutor.toNat_asU64, hpow]
  have hfloor := JitteredDelays.floor_le_mul
    (b := ((ex.config.baseBackoffMs.toNat * 2 ^ k : ℕ) : ℚ)) (Nat.cast_nonneg _) hjitter
    (by norm_num)
  rw [Nat.cast_mul] at hfloor
  have hfour : 4 * ⌊(ex.config.baseBackoffMs.toNat : ℚ) * (2 ^ k : ℕ) *
      ResilientExecutor.jitter (UInt32.ofNat (k + 1))⌋₊ ≤
        5 * (ex.config.baseBackoffMs.toNat * 2 ^ k) := by
    rw [← Nat.cast_le (α := ℚ)]
    push_cast at hfloor ⊢
    linarith
  calc min ⌊(ex.config.baseBackoffMs.toNat : ℚ) * (2 ^ k : ℕ) *
          ResilientExecutor.jitter (UInt32.ofNat (k + 1))⌋₊ 18446744073709551615 * 1000000
      ≤ ⌊(ex.config.baseBackoffMs.toNat : ℚ) * (2 ^ k : ℕ) *
          ResilientExecutor.jitter (UInt32.ofNat (k + 1))⌋₊ * 1000000 :=
        Nat.mul_le_mul_right _ (Nat.min_le_left _ _)
    _ ≤ ex.config.baseBackoffMs.toNat * 2 ^ k * 1250000 := by omega
    _ = ex.config.baseBackoffMs.toNat * 1250000 * 2 ^ k := Nat.mul_right_comm ..

end Rust

/-! ### The Go executor -/

namespace Go

/-- The times of the calls through Go executors, in nanoseconds, when `rand.Float64()` returns the
given numbers. -/
def durations {ι κ S α : Type*} (P : Setup executorModel ι κ S α) (conv : DurationConversion)
    (r : κ → Int64 → ℚ) : Durations executorModel κ where
  timeout c := (P.executorOf c).operationTimeout.toInt.toNat
  delay c attempt := ((P.executorOf c).sleepDur conv attempt (r c attempt)).toInt.toNat

variable {cfg : ResilienceConfig} {metrics : Bool} {contract backend : String}

/-- A delay is at most the base backoff, doubled for each attempt before, and a quarter more. -/
lemma sleepDur_le {ex : ResilientExecutor} (hex : ex = .new cfg metrics contract backend)
    (hpos : cfg.Positive) (hfits : cfg.Fits) (conv : DurationConversion) {k : ℕ}
    (hk : k < cfg.maxRetries.toInt.toNat) {r : ℚ} (hlow : 0 ≤ r) (hhigh : r < 1) :
    (ex.sleepDur conv (Int64.ofNat (k + 1)) r).toInt.toNat ≤
      cfg.baseBackoffMS.toInt.toNat * 1250000 * 2 ^ k := by
  have hfew := maxRetries_le hpos hfits.delays
  have hattempt : (Int64.ofNat (k + 1)).toInt = (k + 1 : ℕ) :=
    Int64.toInt_ofNat_of_lt (by omega)
  have hfirst : 1 ≤ (Int64.ofNat (k + 1)).toInt := by omega
  have hlast : (Int64.ofNat (k + 1)).toInt ≤ cfg.maxRetries.toInt := by omega
  obtain ⟨-, -, hle⟩ := delays_of_fits hex hpos hfits.delays conv hfirst hlast hlow hhigh
  have hbackoff : cfg.backoff (Int64.ofNat (k + 1)).toInt =
      (cfg.baseBackoffMS.toInt.toNat * 1000000 * 2 ^ k : ℕ) := by
    have hbase := Int.toNat_of_nonneg hpos.baseBackoff.le
    rw [hattempt, ResilienceConfig.backoff, Int.toNat_natCast, Nat.add_sub_cancel]
    push_cast
    rw [hbase]
  rw [hbackoff] at hle
  have hregroup : cfg.baseBackoffMS.toInt.toNat * 1250000 * 2 ^ k =
      cfg.baseBackoffMS.toInt.toNat * 2 ^ k * 1250000 := Nat.mul_right_comm ..
  have hregroup' : cfg.baseBackoffMS.toInt.toNat * 1000000 * 2 ^ k =
      cfg.baseBackoffMS.toInt.toNat * 2 ^ k * 1000000 := Nat.mul_right_comm ..
  rw [hregroup'] at hle
  omega

end Go

/-! ### Both libraries -/

section BothLibraries

variable {ι κ S α : Type*} [DecidableEq ι] [DecidableEq κ]

/-- In every timely run of concurrent calls of either library, a call that is under way has taken no
longer than the timeouts of `N + 1` attempts and `2 ^ N - 1` base backoffs with a jitter of a
quarter, where `N` is the number of retries.  A Go function returns at the deadline of its context,
and the fields of the Go configurations are positive and fit into their types; the Rust
configurations have at most 64 retries. -/
theorem call_duration (clock : ℕ) (store : S) (ls : List (ExecLabel κ)) (c : κ) :
    (∀ (P : Setup Rust.executorModel ι κ S α) (t : TimedState Rust.executorModel ι κ S α),
      (∀ i, (P.executor i).config.maxRetries.toNat ≤ 64) →
      runFrom (TimedState.step P) (.init P clock store) ls = some t →
      StepsMeet (TimedState.step P) (Timely (Rust.durations P)) (.init P clock store) ls →
      Setup.Active (t.exec.phase c) →
      t.exec.clock ≤ t.startedAt c +
        (((P.executorOf c).config.maxRetries.toNat + 1) *
            ((P.executorOf c).config.operationTimeoutSeconds.toNat * 1000000000) +
          (P.executorOf c).config.baseBackoffMs.toNat * 1250000 *
            (2 ^ (P.executorOf c).config.maxRetries.toNat - 1))) ∧
    (∀ (P : Setup Go.executorModel ι κ S α) (t : TimedState Go.executorModel ι κ S α)
      (cfg : ι → Go.ResilienceConfig) (conv : Go.DurationConversion) (r : κ → Int64 → ℚ),
      (∀ i, (cfg i).Positive ∧ (cfg i).Fits ∧ ∃ metrics contract backend,
        P.executor i = .new (cfg i) metrics contract backend) →
      (∀ c attempt, 0 ≤ r c attempt ∧ r c attempt < 1) →
      runFrom (TimedState.step P) (.init P clock store) ls = some t →
      StepsMeet (TimedState.step P) (Timely (Go.durations P conv r)) (.init P clock store) ls →
      Setup.Active (t.exec.phase c) →
      t.exec.clock ≤ t.startedAt c +
        (((cfg (P.via c)).maxRetries.toInt.toNat + 1) *
            ((cfg (P.via c)).operationTimeoutSeconds.toInt.toNat * 1000000000) +
          (cfg (P.via c)).baseBackoffMS.toInt.toNat * 1250000 *
            (2 ^ (cfg (P.via c)).maxRetries.toInt.toNat - 1))) := by
  refine ⟨fun P t hfew hrun htimely hc => ?_,
    fun P t cfg conv r hcfg hr hrun htimely hc => ?_⟩
  · have hlt : ∀ i, (P.executor i).config.maxRetries.toNat < 4294967295 :=
      fun i => (hfew i).trans_lt (by decide)
    refine (TimedState.within_run (fun i => Rust.rounds (P.executor i) (hlt i)) hrun htimely
      hc).trans (Nat.add_le_add_left (Durations.total_le fun k hk => ?_) _)
    exact Rust.delay_le _ (hk.trans_le (hfew _))
  · have hN : ∀ i, (P.executor i).cfg.maxRetries.toInt = ((cfg i).maxRetries.toInt.toNat : ℤ) := by
      intro i
      obtain ⟨hpos, -, metrics, contract, backend, hex⟩ := hcfg i
      rw [hex, Go.new_cfg hpos, Int.toNat_of_nonneg hpos.maxRetries.le]
    have hlt : ∀ i, (cfg i).maxRetries.toInt.toNat < 9223372036854775806 := by
      intro i
      have hfew := Go.maxRetries_le (hcfg i).1 (hcfg i).2.1.delays
      omega
    obtain ⟨hpos, hfits, metrics, contract, backend, hex⟩ := hcfg (P.via c)
    have htimeout : (Go.durations P conv r).timeout c =
        (cfg (P.via c)).operationTimeoutSeconds.toInt.toNat * 1000000000 := by
      have hexact : (Go.ResilientExecutor.operationTimeout (P.executor (P.via c))).toInt =
          (cfg (P.via c)).operationTimeoutSeconds.toInt * 1000000000 := by
        rw [hex]
        exact (Go.operationTimeout_iff hpos).mpr hfits.operationTimeout
      change (Go.ResilientExecutor.operationTimeout (P.executor (P.via c))).toInt.toNat = _
      omega
    refine (TimedState.within_run (fun i => Go.rounds (P.executor i) (hN i) (hlt i)) hrun htimely
      hc).trans (Nat.add_le_add_left ?_ _)
    rw [← htimeout]
    refine Durations.total_le fun k hk => ?_
    obtain ⟨hlow, hhigh⟩ := hr c (Int64.ofNat (k + 1))
    exact Go.sleepDur_le hex hpos hfits conv hk hlow hhigh

end BothLibraries

/-- A call through a Rust executor with the default configuration. -/
def soleRust : Setup Rust.executorModel Unit Unit Unit Unit :=
  .shared _ ⟨.default, "kv", "memory"⟩ fun _ => idleCall

/-- A call through a Go executor with the documented configuration. -/
def soleGo : Setup Go.executorModel Unit Unit Unit Unit :=
  .shared _ (.new Go.documented true "kv" "memory") fun _ => idleCall

/-- The first attempt times out after five seconds. -/
def timedOutRust : List (ExecLabel Unit) :=
  [.start (), .invoke (), .tick 5000000000, .fail () "operation timed out", .report (), .report (),
    .publish (), .publish (), .wake ()]

/-- The same run of the Go executor. -/
def timedOutGo : List (ExecLabel Unit) :=
  [.start (), .invoke (), .tick 5000000000, .fail () "context deadline exceeded", .report (),
    .publish (), .publish (), .wake ()]

/-- When the first attempt has timed out, the call returns within the time of the configuration. -/
theorem call_duration_timedOut :
    (∃ t, runFrom (TimedState.step soleRust) (.init soleRust 0 ()) timedOutRust = some t ∧
      t.exec.clock ≤ t.startedAt () +
        ((3 + 1) * (5 * 1000000000) + 100 * 1250000 * (2 ^ 3 - 1))) ∧
    ∃ t, runFrom (TimedState.step soleGo) (.init soleGo 0 ()) timedOutGo = some t ∧
      t.exec.clock ≤ t.startedAt () +
        ((3 + 1) * (5 * 1000000000) + 100 * 1250000 * (2 ^ 3 - 1)) := by
  refine ⟨⟨_, rfl, (call_duration 0 () timedOutRust ()).1 soleRust _ (fun i => ?_) rfl
      (.cons rfl trivial (.cons rfl trivial (.cons rfl ?_ (.cons rfl trivial (.cons rfl trivial
        (.cons rfl trivial (.cons rfl trivial (.cons rfl trivial (.cons rfl trivial
          (.nil _)))))))))) trivial⟩,
    ⟨_, rfl, (call_duration 0 () timedOutGo ()).2 soleGo _ (fun _ => Go.documented)
      .leastOutside (fun _ _ => 0)
      (fun _ => ⟨Go.positive_documented, ?_, true, "kv", "memory", rfl⟩)
      (fun _ _ => ⟨le_rfl, one_pos⟩) rfl
      (.cons rfl trivial (.cons rfl trivial (.cons rfl ?_ (.cons rfl trivial (.cons rfl trivial
        (.cons rfl trivial (.cons rfl trivial (.cons rfl trivial (.nil _))))))))) trivial⟩⟩
  · cases i
    decide
  · intro c a ha
    obtain rfl := Option.some.inj ha
    cases c
    decide
  · exact ⟨by decide, by decide, by decide, by decide⟩
  · intro c a ha
    obtain rfl := Option.some.inj ha
    cases c
    decide

end GoyStore
