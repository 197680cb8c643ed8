import GoyStore.Resilience.BreakerHistory
import GoyStore.Resilience.ExecutorRuns
import Mathlib.Data.Int.Order.Basic

/-!
# Refused calls have failures behind them

The breaker of an executor is shared by calls that overlap, and its counter and its state need not
fit together.  What a refusal stands for is read off the run instead: a call is refused only after
as many failures were reported through its executor as the threshold says, one of them less than the
reset timeout ago (`refusal_has_recent_failures`).  So an executor through which no failure is
reported for the length of its reset timeout refuses nobody.

`Reporting` says what the single steps of a failure report do to the counter, the recorded time and
the state, in both libraries; `Grounded` is the invariant of the tasks that share a breaker.
-/

namespace GoyStore

open Runs

/-! ### The steps of a failure report -/

/-- What a failure report has counted, between two of its steps. -/
structure Reporting {M : LawfulBreaker} (C : Counting M) where
  /-- The value of the counter that the report goes on with. -/
  counted : M.FailPoint → ℤ
  /-- The report has only to open the circuit. -/
  opening : M.FailPoint → Prop
  /-- A step leaves the limits. -/
  limits : ∀ now p b, C.threshold (M.onFailureStep now p b).2 = C.threshold b ∧
    M.resetTimeout (M.onFailureStep now p b).2 = M.resetTimeout b
  /-- It records the present time, or none. -/
  time : ∀ now p b, M.lastFailure (M.onFailureStep now p b).2 = M.lastFailure b ∨
    M.lastFailure (M.onFailureStep now p b).2 = some now
  /-- The first step counts the failure. -/
  counts : ∀ now p b, C.counter (M.onFailureStep now p b).2 = C.counter b ∨
    p = none ∧ C.counter (M.onFailureStep now p b).2 ≤ C.counter b + 1
  /-- A report goes on with what it has counted. -/
  keeps : ∀ now p b, ∀ q ∈ (M.onFailureStep now p b).1,
    counted q ≤ p.elim (C.counter b + 1) counted
  /-- Before it opens the circuit it has reached the threshold and recorded the time. -/
  reaches : ∀ now p b, ∀ q ∈ (M.onFailureStep now p b).1, opening q →
    C.threshold b ≤ p.elim (C.counter b + 1) counted ∧
      M.lastFailure (M.onFailureStep now p b).2 = some now
  /-- It opens the circuit then, or in the same step. -/
  opens : ∀ now p b, M.state (M.onFailureStep now p b).2 = .Open → M.state b = .Open ∨
    (∃ q ∈ p, opening q) ∨ C.threshold b ≤ p.elim (C.counter b + 1) counted ∧
      M.lastFailure (M.onFailureStep now p b).2 = some now

namespace Rust

/-- A counter that is incremented goes up by one, or wraps around. -/
lemma toNat_add_one_le (failures : UInt32) : (failures + 1).toNat ≤ failures.toNat + 1 := by
  rw [UInt32.toNat_add]
  exact Nat.mod_le _ _

/-- The Rust breaker counts in the first step of a report, records the time in the second and opens
the circuit in the third. -/
def reporting : Reporting counting where
  counted
    | .counted failures => failures.toNat
    | .opening => 0
  opening p := p = .opening
  limits now p b := by
    rcases p with - | failures | -
    · exact ⟨rfl, rfl⟩
    · exact ⟨rfl, rfl⟩
    · exact ⟨rfl, rfl⟩
  time now p b := by
    rcases p with - | failures | -
    · exact .inl rfl
    · exact .inr rfl
    · exact .inl rfl
  counts now p b := by
    rcases p with - | failures | -
    · exact .inr ⟨rfl, Int.ofNat_le.mpr (toNat_add_one_le _)⟩
    · exact .inl rfl
    · exact .inl rfl
  keeps now p b q hq := by
    rcases p with - | failures | -
    · obtain rfl := Option.some.inj hq
      exact Int.ofNat_le.mpr (toNat_add_one_le _)
    · simp only [breaker, breakerModel, CircuitBreaker.onFailureStep] at hq
      split_ifs at hq
      · obtain rfl := Option.some.inj hq
        exact Int.natCast_nonneg _
      · cases hq
    · cases hq
  reaches now p b q hq hopening := by
    rcases p with - | failures | -
    · obtain rfl := Option.some.inj hq
      cases hopening
    · simp only [breaker, breakerModel, CircuitBreaker.onFailureStep] at hq
      split_ifs at hq with hreached
      · exact ⟨Int.ofNat_le.mpr (UInt32.le_iff_toNat_le.mp hreached), rfl⟩
      · cases hq
    · cases hq
  opens now p b hopen := by
    rcases p with - | failures | -
    · exact .inl hopen
    · exact .inl hopen
    · exact .inr (.inl ⟨_, rfl, rfl⟩)

end Rust

namespace Go

/-- The Go breaker does all of this in one step. -/
def reporting : Reporting counting where
  counted p := p.elim
  opening p := p.elim
  limits now _ b :=
    ⟨(counting.onFailure_frame now b).1, (counting.onFailure_frame now b).2.2⟩
  time now _ b := .inr (counting.onFailure_frame now b).2.1
  counts now p b := by
    obtain - | point := p
    · exact .inr ⟨rfl, (sequentialModel.onFailure_frame now b).1⟩
    · exact point.elim
  keeps _ _ _ q _ := q.elim
  reaches _ _ _ q _ := q.elim
  opens now p b hopen := by
    obtain - | point := p
    · obtain hsame | hreached := sequentialModel.onFailure_state now b
      · exact .inl (hsame.symm.trans hopen)
      · have hle : counting.threshold b ≤ counting.counter b + 1 :=
          hreached.trans (sequentialModel.onFailure_frame now b).1
        exact .inr (.inr ⟨hle, (counting.onFailure_frame now b).2.1⟩)
    · exact point.elim

end Go

/-- The steps of a failure report of a library. -/
def Lang.reporting : (L : Lang) → Reporting L.counting
  | .rust => Rust.reporting
  | .go => Go.reporting

/-! ### The tasks that share a breaker -/

section Tasks

variable {M : LawfulBreaker} {C : Counting M} {τ : Type*}

/-- At least as many failures as the threshold says, and the recorded time is one of theirs. -/
def Grounds (C : Counting M) (n : ℕ) (E : ℕ → Prop) (b : M.Cb) : Prop :=
  C.threshold b ≤ n ∧ ∃ time, M.lastFailure b = some time ∧ E time

/-- The failures that a breaker and the unfinished reports stand for: `n` have been reported, and
`E` are their times. -/
structure Grounded (R : Reporting C) (n : ℕ) (E : ℕ → Prop) (v : BreakerState M.toBreakerModel τ) :
    Prop where
  /-- The counter counts none twice. -/
  counter_le : C.counter v.cb ≤ n
  /-- Neither does an unfinished report. -/
  counted_le : ∀ t, ∀ p ∈ v.reporting t, R.counted p ≤ n
  /-- A report opens the circuit on grounds. -/
  opening : ∀ t, ∀ p ∈ v.reporting t, R.opening p → Grounds C n E v.cb
  /-- An open circuit has its grounds. -/
  opened : M.state v.cb = .Open → Grounds C n E v.cb

/-- Grounds last as long as the limits do, and the recorded time is one of a failure. -/
lemma Grounds.mono {n n' : ℕ} {E E' : ℕ → Prop} {b b' : M.Cb} (h : Grounds C n E b) (hn : n ≤ n')
    (hE : ∀ time, E time → E' time) (hthreshold : C.threshold b' = C.threshold b)
    (htime : M.lastFailure b' = M.lastFailure b ∨ ∃ now, M.lastFailure b' = some now ∧ E' now) :
    Grounds C n' E' b' := by
  obtain ⟨hle, time, hlast, htimes⟩ := h
  refine ⟨hthreshold ▸ hle.trans (Int.ofNat_le.mpr hn), ?_⟩
  obtain hsame | hnow := htime
  · exact ⟨time, hsame.trans hlast, hE time htimes⟩
  · exact hnow

namespace Grounded

variable {R : Reporting C} {n n' : ℕ} {E E' : ℕ → Prop} {v v' : BreakerState M.toBreakerModel τ}

/-- More failures have been reported. -/
lemma mono (h : Grounded R n E v) (hn : n ≤ n') (hE : ∀ time, E time → E' time) :
    Grounded R n' E' v where
  counter_le := h.counter_le.trans (Int.ofNat_le.mpr hn)
  counted_le t p hp := (h.counted_le t p hp).trans (Int.ofNat_le.mpr hn)
  opening t p hp hopening := (h.opening t p hp hopening).mono hn hE rfl (.inl rfl)
  opened hopen := (h.opened hopen).mono hn hE rfl (.inl rfl)

/-- A step that makes no failure report. -/
lemma kept (h : Grounded R n E v) (hcounter : C.counter v'.cb ≤ n)
    (hthreshold : C.threshold v'.cb = C.threshold v.cb)
    (htime : M.lastFailure v'.cb = M.lastFailure v.cb)
    (hstate : M.state v'.cb = .Open → M.state v.cb = .Open)
    (hreporting : v'.reporting = v.reporting) : Grounded R n E v' where
  counter_le := hcounter
  counted_le := hreporting ▸ h.counted_le
  opening t p hp hopening := by
    rw [hreporting] at hp
    exact (h.opening t p hp hopening).mono le_rfl (fun _ hE => hE) hthreshold (.inl htime)
  opened hopen := (h.opened (hstate hopen)).mono le_rfl (fun _ hE => hE) hthreshold (.inl htime)

variable [DecidableEq τ]

/-- A step of a failure report. -/
lemma reported (h : Grounded R n E v) {t : τ} (hcount : v.reporting t = none → C.counter v.cb < n)
    (hnow : E v.clock) : Grounded R n E { v with
      cb := (M.onFailureStep v.clock (v.reporting t) v.cb).2
      reporting := Function.update v.reporting t
        (M.onFailureStep v.clock (v.reporting t) v.cb).1 } := by
  obtain ⟨hthreshold, -⟩ := R.limits v.clock (v.reporting t) v.cb
  have hkept : ∀ {b : M.Cb}, b = v.cb → Grounds C n E b →
      Grounds C n E (M.onFailureStep v.clock (v.reporting t) v.cb).2 := by
    rintro _ rfl hgrounds
    refine hgrounds.mono le_rfl (fun _ hE => hE) hthreshold ?_
    exact (R.time v.clock (v.reporting t) v.cb).imp_right fun hlast => ⟨_, hlast, hnow⟩
  -- what the report compares with the threshold
  have htotal : (v.reporting t).elim (C.counter v.cb + 1) R.counted ≤ n := by
    rcases hp : v.reporting t with - | p
    · exact hcount hp
    · exact h.counted_le t p hp
  have hreached : C.threshold v.cb ≤ (v.reporting t).elim (C.counter v.cb + 1) R.counted →
      M.lastFailure (M.onFailureStep v.clock (v.reporting t) v.cb).2 = some v.clock →
      Grounds C n E (M.onFailureStep v.clock (v.reporting t) v.cb).2 :=
    fun hle hlast => ⟨hthreshold ▸ hle.trans htotal, v.clock, hlast, hnow⟩
  refine ⟨?_, fun u q hq => ?_, fun u q hq hopening => ?_, fun hopen => ?_⟩
  · obtain hsame | ⟨hnone, hle⟩ := R.counts v.clock (v.reporting t) v.cb
    · exact hsame.le.trans h.counter_le
    · exact hle.trans (hcount hnone)
  · by_cases hu : u = t
    · subst hu
      simp only [Function.update_self] at hq
      exact (R.keeps v.clock (v.reporting u) v.cb q hq).trans htotal
    · simp only [Function.update_of_ne hu] at hq
      exact h.counted_le u q hq
  · by_cases hu : u = t
    · subst hu
      simp only [Function.update_self] at hq
      obtain ⟨hle, hlast⟩ := R.reaches v.clock (v.reporting u) v.cb q hq hopening
      exact hreached hle hlast
    · simp only [Function.update_of_ne hu] at hq
      exact hkept rfl (h.opening u q hq hopening)
  · obtain hwas | ⟨q, hq, hopening⟩ | ⟨hle, hlast⟩ := R.opens v.clock (v.reporting t) v.cb hopen
    · exact hkept rfl (h.opened hwas)
    · exact hkept rfl (h.opening t q hq hopening)
    · exact hreached hle hlast

end Grounded

end Tasks

/-! ### The calls of an executor -/

/-- The report of a failed attempt is about to begin. -/
def Phase.aboutToReport {X : ExecutorModel} {α : Type*} : Phase X α → Bool
  | .reporting (.failure _ _) none => true
  | _ => false

namespace Setup

variable {X : ExecutorModel} {ι κ S α : Type*} (P : Setup X ι κ S α)

section Reports

variable [DecidableEq ι]

/-- The step begins to report a failure to the breaker of an executor. -/
def beginsReport (i : ι) (s : ExecState X ι κ S α) : ExecLabel κ → Bool
  | .report d => decide (P.via d = i) && (s.phase d).aboutToReport
  | _ => false

variable [DecidableEq κ]

/-- How many failures have been reported through an executor. -/
def failuresReported (clock : ℕ) (store : S) (ls : List (ExecLabel κ)) (i : ι) : ℕ :=
  countSteps P.step (P.beginsReport i) (P.init clock store) ls

/-- A failure was being reported through an executor at the given time. -/
def ReportedAt (clock : ℕ) (store : S) (ls : List (ExecLabel κ)) (i : ι) (time : ℕ) : Prop :=
  ∃ pre d post u, ls = pre ++ .report d :: post ∧ P.via d = i ∧
    runFrom P.step (P.init clock store) pre = some u ∧ u.clock = time ∧
    ∃ attempt err point, u.phase d = .reporting (.failure attempt err) point

end Reports

variable {P} [DecidableEq ι] [DecidableEq κ] {C : Counting X.toLawfulBreaker} {R : Reporting C}
  {s s' : ExecState X ι κ S α} {l : ExecLabel κ} {i : ι} {n : ℕ} {E : ℕ → Prop}

/-- What a step of a report changes at the breaker. -/
lemma breakerView_report {c : κ} {outcome : Outcome X α} {point : Option X.FailPoint}
    (hc : s.phase c = .reporting outcome point) (h : P.step s (.report c) = some s') :
    breakerView P (P.via c) s' = { breakerView P (P.via c) s with
      cb := (reportStep s.clock outcome point (s.breaker (P.via c))).2
      reporting := Function.update (breakerView P (P.via c) s).reporting c
        (reportStep s.clock outcome point (s.breaker (P.via c))).1 } := by
  cases moves_of_step h with
  | report _ outcome' point' hc' =>
    obtain ⟨rfl, rfl⟩ := Phase.reporting.inj (hc'.symm.trans hc)
    refine BreakerState.ext rfl ?_ (funext fun d => ?_) rfl
    · simp [breakerView]
    · by_cases hd : d = c
      · subst hd
        simp only [breakerView, Function.update_self, if_pos]
        rcases outcome' with result | ⟨attempt, err⟩
        · rfl
        · rw [reportStep]
          cases (X.onFailureStep s.clock point' (s.breaker (P.via d))).1 <;> rfl
      · simp [breakerView, hd]

/-- A step of a report keeps the grounds, when a failure is counted with its time. -/
lemma grounded_report {c : κ} (hs : Grounded R n E (breakerView P (P.via c) s))
    (h : P.step s (.report c) = some s')
    (hcount : P.beginsReport (P.via c) s (.report c) = true →
      C.counter (s.breaker (P.via c)) < n)
    (hnow : ∀ attempt err point, s.phase c = .reporting (.failure attempt err) point →
      E s.clock) : Grounded R n E (breakerView P (P.via c) s') := by
  obtain ⟨outcome, point, hc⟩ : ∃ outcome point, s.phase c = .reporting outcome point := by
    cases moves_of_step h with
    | report _ outcome point hc => exact ⟨outcome, point, hc⟩
  rw [breakerView_report hc h]
  have hreporting : (breakerView P (P.via c) s).reporting c = failPoint (s.phase c) :=
    if_pos rfl
  rcases outcome with result | ⟨attempt, err⟩
  · -- the report of a success
    rw [hc] at hreporting
    obtain ⟨hcounter, hthreshold, hlast, -⟩ := C.onSuccess_frame (s.breaker (P.via c))
    refine hs.kept (hcounter.le.trans (Int.natCast_nonneg _)) hthreshold hlast
      (fun hopen => ?_) ?_
    · simp only [reportStep, X.onSuccess_state] at hopen
      cases hopen
    · exact (congrArg _ hreporting.symm).trans (Function.update_eq_self c _)
  · have hpoint : (breakerView P (P.via c) s).reporting c = point := by rw [hreporting, hc]; rfl
    have hreport := hs.reported (t := c) (fun hnone => hcount ?_) (hnow attempt err point hc)
    · rw [hpoint] at hreport
      exact hreport
    · rw [hpoint] at hnone
      subst hnone
      simp [beginsReport, hc, Phase.aboutToReport]

/-- Every step keeps the grounds, when a failure is counted with its time. -/
theorem grounded_step {n' : ℕ} {E' : ℕ → Prop} (hs : Grounded R n E (breakerView P i s))
    (h : P.step s l = some s') (hn : n' = n + (P.beginsReport i s l).toNat)
    (hE : ∀ time, E time → E' time)
    (hnow : ∀ c attempt err point, l = .report c → P.via c = i →
      s.phase c = .reporting (.failure attempt err) point → E' s.clock) :
    Grounded R n' E' (breakerView P i s') := by
  have hle : n ≤ n' := by omega
  have hmono := hs.mono hle hE
  by_cases hl : ∃ c, P.via c = i ∧ (l = .start c ∨ l = .report c)
  · obtain ⟨c, rfl, rfl | rfl⟩ := hl
    · rw [BreakerState.eq_of_step_canExecute (breakerView_step_start h)]
      obtain ⟨hcounter, hthreshold, hlast, -⟩ := C.canExecute_frame s.clock (s.breaker (P.via c))
      refine hmono.kept (hcounter.le.trans hmono.counter_le) hthreshold hlast (fun hopen => ?_) rfl
      have hstate := (X.canExecute_state s.clock (s.breaker (P.via c))).symm.trans hopen
      split_ifs at hstate
      exact hstate
    · refine grounded_report hmono h (fun hbegins => ?_) fun attempt err point hc =>
        hnow c attempt err point rfl rfl hc
      rw [hbegins] at hn
      have hcounter : C.counter (s.breaker (P.via c)) ≤ n := hs.counter_le
      have hone : true.toNat = 1 := rfl
      omega
  · by_cases htick : ∃ d, l = .tick d
    · obtain ⟨d, rfl⟩ := htick
      cases moves_of_step h
      exact hmono.kept hmono.counter_le rfl rfl id rfl
    · rw [breakerView_of_silent h (fun d hd => htick ⟨d, hd⟩) fun c hc => ?_]
      · exact hmono
      · exact ⟨fun hstart => hl ⟨c, hc, .inl hstart⟩, fun hreport => hl ⟨c, hc, .inr hreport⟩⟩

/-- In every run, the breaker of an executor has its grounds. -/
theorem grounded_run {clock : ℕ} {store : S} {ls : List (ExecLabel κ)}
    (hnew : X.state (X.newBreaker (P.executor i)) = .Closed)
    (hcounter : C.counter (X.newBreaker (P.executor i)) = 0)
    (h : runFrom P.step (P.init clock store) ls = some s) :
    Grounded R (P.failuresReported clock store ls i) (P.ReportedAt clock store ls i)
      (breakerView P i s) := by
  refine history_of_runFrom (I := fun s ls => Grounded R (P.failuresReported clock store ls i)
    (P.ReportedAt clock store ls i) (breakerView P i s)) (fun ls l u u' hu hI hl => ?_) ?_ h
  · refine grounded_step hI hl (countSteps_concat _ hu hl) ?_ ?_
    · rintro time ⟨pre, d, post, w, rfl, hd⟩
      exact ⟨pre, d, post ++ [l], w, by simp, hd⟩
    · rintro c attempt err point rfl hi hc
      exact ⟨ls, c, [], u, rfl, hi, hu, rfl, attempt, err, point, hc⟩
  · refine ⟨hcounter.le, fun t p hp => ?_, fun t p hp => ?_, fun hopen => ?_⟩
    · simp [breakerView, init, failPoint] at hp
    · simp [breakerView, init, failPoint] at hp
    · exact absurd (hopen.symm.trans hnew) (by decide)

/-- What a step can do to the breaker of an executor. -/
lemma breaker_cases (h : P.step s l = some s') (i : ι) : s'.breaker i = s.breaker i ∨
    s'.breaker i = (X.canExecute s.clock (s.breaker i)).2 ∨
    s'.breaker i = X.onSuccess (s.breaker i) ∨
    ∃ point, s'.breaker i = (X.onFailureStep s.clock point (s.breaker i)).2 := by
  cases moves_of_step h with
  | start c hc =>
    by_cases hi : i = P.via c
    · subst hi
      exact .inr (.inl (Function.update_self ..))
    · exact .inl (Function.update_of_ne hi _ _)
  | report c outcome point hc =>
    by_cases hi : i = P.via c
    · subst hi
      rcases outcome with result | ⟨attempt, err⟩
      · exact .inr (.inr (.inl (Function.update_self ..)))
      · exact .inr (.inr (.inr ⟨point, Function.update_self ..⟩))
    · exact .inl (Function.update_of_ne hi _ _)
  | _ => exact .inl rfl

/-- The limits of a breaker are those that it was created with. -/
lemma limits_run (R : Reporting C) {clock : ℕ} {store : S} {ls : List (ExecLabel κ)}
    (h : runFrom P.step (P.init clock store) ls = some s) (i : ι) :
    C.threshold (s.breaker i) = C.threshold (X.newBreaker (P.executor i)) ∧
      X.resetTimeout (s.breaker i) = X.resetTimeout (X.newBreaker (P.executor i)) := by
  refine invariant_of_runFrom (I := fun s => C.threshold (s.breaker i) =
    C.threshold (X.newBreaker (P.executor i)) ∧ X.resetTimeout (s.breaker i) =
      X.resetTimeout (X.newBreaker (P.executor i))) (fun u l u' hu hl => ?_) ⟨rfl, rfl⟩ h
  obtain heq | heq | heq | ⟨point, heq⟩ := breaker_cases hl i
  all_goals rw [heq]
  · exact hu
  · obtain ⟨-, hthreshold, -, hreset⟩ := C.canExecute_frame u.clock (u.breaker i)
    exact ⟨hthreshold.trans hu.1, hreset.trans hu.2⟩
  · obtain ⟨-, hthreshold, -, hreset⟩ := C.onSuccess_frame (u.breaker i)
    exact ⟨hthreshold.trans hu.1, hreset.trans hu.2⟩
  · obtain ⟨hthreshold, hreset⟩ := R.limits u.clock point (u.breaker i)
    exact ⟨hthreshold.trans hu.1, hreset.trans hu.2⟩

/-- A call is refused within the reset timeout of a failure, and not before the threshold is
reached. -/
theorem grounds_of_refused (R : Reporting C) {clock : ℕ} {store : S} {ls : List (ExecLabel κ)}
    {c : κ} (hnew : X.state (X.newBreaker (P.executorOf c)) = .Closed)
    (hcounter : C.counter (X.newBreaker (P.executorOf c)) = 0)
    (hrun : runFrom P.step (P.init clock store) ls = some s)
    (h : P.step s (.start c) = some s') (hrefused : s'.admitted c = false) :
    C.threshold (X.newBreaker (P.executorOf c)) ≤ P.failuresReported clock store ls (P.via c) ∧
      ∃ time, P.ReportedAt clock store ls (P.via c) time ∧
        ((s.clock - time : ℕ) : ℤ) < X.resetTimeout (X.newBreaker (P.executorOf c)) := by
  have hblocked : X.Blocked s.clock (s.breaker (P.via c)) := by
    by_contra hnot
    have hok := (LawfulBreaker.canExecute_isOk s.clock (s.breaker (P.via c))).mpr hnot
    rw [eq_of_step_start h] at hrefused
    simp only [Function.update_self] at hrefused
    rw [hok] at hrefused
    cases hrefused
  obtain ⟨hthreshold, hreset⟩ := limits_run R hrun (P.via c)
  obtain ⟨hle, time, hlast, hreported⟩ := (grounded_run (R := R) hnew hcounter hrun).opened
    hblocked.1
  exact ⟨hthreshold.symm.trans_le hle, time, hreported,
    (hblocked.2 time hlast).trans_eq hreset⟩

end Setup

/-! ### The two libraries -/

section BothLibraries

variable {ι κ S α : Type*} [DecidableEq ι] [DecidableEq κ]

/-- In every run of calls through executors of either library, however they overlap, a call is
refused only when at least as many failures as the threshold of its breaker have been reported
through its executor, and when less than the reset timeout has passed since one of the reports. -/
theorem refusal_has_recent_failures (clock : ℕ) (store : S) (ls : List (ExecLabel κ)) (c : κ) :
    (∀ (P : Setup Rust.executorModel ι κ S α) (s s' : ExecState Rust.executorModel ι κ S α),
      runFrom P.step (P.init clock store) ls = some s → P.step s (.start c) = some s' →
      s'.admitted c = false →
      (P.executorOf c).config.circuitBreakerThreshold.toNat ≤
          P.failuresReported clock store ls (P.via c) ∧
        ∃ time, P.ReportedAt clock store ls (P.via c) time ∧
          s.clock - time < (P.executorOf c).config.circuitBreakerResetSeconds.toNat * 1000000000) ∧
    (∀ (P : Setup Go.executorModel ι κ S α) (s s' : ExecState Go.executorModel ι κ S α),
      runFrom P.step (P.init clock store) ls = some s → P.step s (.start c) = some s' →
      s'.admitted c = false →
      (P.executorOf c).newBreaker.failureThreshold.toInt ≤
          P.failuresReported clock store ls (P.via c) ∧
        ∃ time, P.ReportedAt clock store ls (P.via c) time ∧
          ((s.clock - time : ℕ) : ℤ) < (P.executorOf c).newBreaker.resetTimeout.toInt) := by
  refine ⟨fun P s s' hrun h hrefused => ?_, fun P s s' hrun h hrefused => ?_⟩
  · obtain ⟨hnew, hcounter⟩ := Rust.sequentialModel.newBreaker_counter (P.executorOf c)
    obtain ⟨hle, time, hreported, hlt⟩ :=
      Setup.grounds_of_refused Rust.reporting hnew hcounter hrun h hrefused
    exact ⟨Int.ofNat_le.mp hle, time, hreported, Int.ofNat_lt.mp hlt⟩
  · obtain ⟨hnew, hcounter⟩ := Go.sequentialModel.newBreaker_counter (P.executorOf c)
    obtain ⟨hle, time, hreported, hlt⟩ :=
      Setup.grounds_of_refused (P := P) Go.reporting hnew hcounter hrun h hrefused
    exact ⟨hle, time, hreported, hlt⟩

/-- The call that arrives while the first one sleeps is refused by its failure. -/
theorem refusal_has_recent_failures_retried :
    (∃ s s', runFrom hastyRust.step (hastyRust.init 0 ()) retriedRust = some s ∧
      hastyRust.step s (.start 1) = some s' ∧
      1 ≤ hastyRust.failuresReported 0 () retriedRust () ∧
      ∃ time, hastyRust.ReportedAt 0 () retriedRust () time ∧
        s.clock - time < 30 * 1000000000) ∧
    ∃ s s', runFrom hastyGo.step (hastyGo.init 0 ()) retriedGo = some s ∧
      hastyGo.step s (.start 1) = some s' ∧
      1 ≤ hastyGo.failuresReported 0 () retriedGo () ∧
      ∃ time, hastyGo.ReportedAt 0 () retriedGo () time ∧
        ((s.clock - time : ℕ) : ℤ) < 30 * 1000000000 := by
  constructor
  · exact ⟨_, _, rfl, rfl,
      (refusal_has_recent_failures 0 () retriedRust 1).1 hastyRust _ _ rfl rfl rfl⟩
  · obtain ⟨hle, time, hreported, hlt⟩ :=
      (refusal_has_recent_failures 0 () retriedGo 1).2 hastyGo _ _ rfl rfl (by decide)
    have hthreshold : (hastyGo.executorOf 1).newBreaker.failureThreshold.toInt = 1 := by decide
    have hreset : (hastyGo.executorOf 1).newBreaker.resetTimeout.toInt = 30 * 1000000000 := by
      decide
    exact ⟨_, _, rfl, rfl, Int.ofNat_le.mp (hthreshold.symm.trans_le hle), time, hreported,
      hlt.trans_eq hreset⟩

end BothLibraries

end GoyStore
