import GoyStore.Resilience.RetryAccounting

/-!
# What becomes of failed attempts

A failed attempt is reported to the breaker, and the state of the breaker is published.  Then the
loop counts a retry and goes to sleep, or it ends with the error.  So the failed attempts of a call
are its sleeps, the failure that is being reported or published, and the failure that ended its loop
(`settled_run`).

Summed up over the calls, the attempts that fail under some labels and the sleeps that are cancelled
are the retries that are counted, the failures that are being settled and the admitted calls that
returned an error (`failures_conserved`).
-/

namespace GoyStore

open Runs

/-- The elements of a list that meet a condition, counted one by one. -/
lemma sum_count_filter {κ : Type*} [DecidableEq κ] {C : Finset κ} {cs : List κ}
    (hC : ∀ c ∈ cs, c ∈ C) (p : κ → Prop) [DecidablePred p] :
    ∑ c ∈ C.filter p, cs.count c = cs.countP p := by
  have hsum := Multiset.sum_count_eq_card (s := C.filter p) (m := (cs.filter p : Multiset κ))
    fun c hc => by simpa using (List.mem_filter.mp hc).imp_left (hC c)
  rw [List.countP_eq_length_filter, ← Multiset.coe_card, ← hsum]
  refine Finset.sum_congr rfl fun c hc => ?_
  have hp : decide (p c) = true := decide_eq_true (Finset.mem_filter.mp hc).2
  rw [Multiset.coe_count]
  exact (List.count_filter (l := cs) (p := fun b => decide (p b)) hp).symm

/-! ### The failures of one call -/

namespace Phase

variable {X : ExecutorModel} {α : Type*}

/-- A failure is being reported or published. -/
def settling : Phase X α → Bool
  | .reporting (.failure _ _) _ => true
  | .publishing (.failure _ _) _ => true
  | _ => false

/-- Returned with an error. -/
def gaveUp : Phase X α → Bool
  | .returned (.error _) => true
  | _ => false

/-- The failures of a call in this phase that has woken so often and, when it has given up, was
admitted or not. -/
def failures (p : Phase X α) (admitted : Bool) (woken : ℕ) : ℕ :=
  woken + p.asleep.toNat + p.settling.toNat + (admitted && p.gaveUp).toNat

/-- A report does not change the number of failures. -/
lemma failures_afterReport (outcome : Outcome X α) (point point' : Option X.FailPoint)
    (admitted : Bool) (woken : ℕ) : (Setup.afterReport outcome point').failures admitted woken =
      (Phase.reporting outcome point).failures admitted woken := by
  rcases point' with - | p <;> rcases outcome with result | ⟨a, err⟩ <;> rfl

/-- An admission check is no failure of an attempt. -/
lemma failures_afterCheck {ι κ S : Type*} {P : Setup X ι κ S α} {c : κ} {N : ℕ}
    (R : Rounds X (P.executorOf c) N) (r : Except String Unit) (woken : ℕ) :
    (P.afterCheck c r).failures r.isOk woken = woken := by
  rcases r with err | ⟨⟩
  · rfl
  · rw [Setup.afterCheck]
    simp only [R.first]
    rfl

end Phase

namespace Tally

variable {X : ExecutorModel} {ι κ S α : Type*} {P : Setup X ι κ S α} {c : κ} {N : ℕ}
  {R : Rounds X (P.executorOf c) N} {invoked woken : ℕ}

/-- A publication is followed by a sleep, or by the end of an admitted call. -/
lemma failures_afterPublish {outcome : Outcome X α} {code : Option ℕ}
    (h : Tally R (.publishing outcome code : Phase X α) true invoked woken) :
    (P.afterPublish c outcome).failures true woken =
      (Phase.publishing outcome code : Phase X α).failures true woken := by
  rcases outcome with result | ⟨a, err⟩
  · rfl
  · rw [h.afterPublish_eq]
    split_ifs
    · rfl
    · rfl

/-- A sleep that ends has a failure before it. -/
lemma failures_nextRound {a : X.Counter} {err : String} {admitted : Bool}
    (h : Tally R (.backingOff a err : Phase X α) admitted invoked woken) :
    (P.nextRound c a err).failures admitted (woken + 1) =
      (Phase.backingOff a err : Phase X α).failures admitted woken := by
  rw [h.nextRound_eq, Phase.failures, Phase.failures]
  cases admitted <;> rfl

end Tally

namespace Setup

variable {X : ExecutorModel} {ι κ S α : Type*} [DecidableEq ι] [DecidableEq κ]
  {P : Setup X ι κ S α} {N : ι → ℕ} {R : ∀ i, Rounds X (P.executor i) (N i)}
  {s s' : ExecState X ι κ S α} {ls : List (ExecLabel κ)} {l : ExecLabel κ}

/-- The failed attempts of every call so far were followed by a sleep, are being settled or ended
its loop. -/
def Settled (s : ExecState X ι κ S α) (ls : List (ExecLabel κ)) : Prop :=
  ∀ c, (ls.filterMap ExecLabel.failing).count c =
    (s.phase c).failures (s.admitted c) (wakes ls c)

/-- Every step keeps the account of the failures. -/
theorem settled_step (hs : Settled s ls) (hbalanced : Balanced R s ls) (hactive : ActiveAdmitted s)
    (h : P.step s l = some s') : Settled s' (ls ++ [l]) := by
  intro d
  have hcount := hs d
  rw [ExecLabel.count_filterMap_concat]
  by_cases hl : l.caller = some d
  · obtain ⟨-, hwake, -⟩ := counts_concat ls l d
    have htally := hbalanced d
    have hadmitted : l ≠ .start d → s.admitted d = true ∧ s'.admitted d = true := by
      intro hstart
      have hd := hactive d (active_of_caller h hl hstart)
      exact ⟨hd, (admitted_of_ne_start h hstart).trans hd⟩
    rw [hwake]
    cases callMoves_of_step h hl with
    | start r hc hc' hisOk =>
      obtain ⟨hnone, -⟩ := htally.idle hc
      rw [hc, hnone] at hcount
      rw [hc', hisOk, Phase.failures_afterCheck (R (P.via d))]
      exact hcount
    | fail err a effect hc hc' =>
      obtain ⟨hd, hd'⟩ := hadmitted (by simp)
      rw [hc, hd] at hcount
      have hfailing : (ExecLabel.fail d err).failing = some d := rfl
      rw [hc', hd', hcount, decide_eq_true hfailing, if_neg (by simp)]
      rfl
    | report outcome point point' hc hc' =>
      obtain ⟨hd, hd'⟩ := hadmitted (by simp)
      rw [hc, hd] at hcount
      rw [hc', hd', Phase.failures_afterReport outcome point]
      exact hcount
    | readState outcome code hc hc' =>
      obtain ⟨hd, hd'⟩ := hadmitted (by simp)
      rw [hc, hd] at hcount
      rw [hc', hd']
      rcases outcome with result | ⟨a, err⟩ <;> exact hcount
    | publish outcome code hc hc' =>
      obtain ⟨hd, hd'⟩ := hadmitted (by simp)
      rw [hc, hd] at hcount htally
      rw [hc', hd']
      exact hcount.trans htally.failures_afterPublish.symm
    | wake a err hc hc' =>
      obtain ⟨hd, hd'⟩ := hadmitted (by simp)
      rw [hc, hd] at hcount htally
      rw [hc', hd', if_pos rfl]
      exact hcount.trans htally.failures_nextRound.symm
    | _ =>
      -- the other steps neither fail nor settle a failure; a cancelled sleep ends the call
      rename_i hc hc'
      obtain ⟨hd, hd'⟩ := hadmitted (by simp)
      rw [hc, hd] at hcount
      rw [hc', hd']
      exact hcount
  · obtain ⟨-, hwake, -⟩ := counts_of_caller_ne ls hl
    have hfailing : l.failing ≠ some d := mt ExecLabel.caller_of_failing hl
    rw [hwake, phase_of_caller_ne h hl, admitted_of_caller_ne h hl, decide_eq_false hfailing]
    exact hcount

/-- After every run the failures of the calls are accounted for. -/
theorem settled_run (R : ∀ i, Rounds X (P.executor i) (N i)) {clock : ℕ} {store : S}
    (h : runFrom P.step (P.init clock store) ls = some s) : Settled s ls := by
  refine history_of_runFrom (I := Settled) (fun ls l u u' hu hsettled hl => ?_) (fun c => rfl) h
  have hinit : ActiveAdmitted (P.init clock store) := fun c hc => hc.elim
  have hactive : ActiveAdmitted u := invariant_of_runFrom activeAdmitted_step hinit hu
  exact settled_step hsettled (balanced_run R hu) hactive hl

/-! ### The failures of all calls -/

/-- A call that has not started has not failed. -/
lemma started_of_failing (R : ∀ i, Rounds X (P.executor i) (N i)) {clock : ℕ} {store : S}
    (h : runFrom P.step (P.init clock store) ls = some s) {c : κ}
    (hc : c ∈ ls.filterMap ExecLabel.failing) : s.phase c ≠ .notStarted := by
  intro hphase
  obtain ⟨hadmitted, hwoken⟩ := (balanced_run R h c).idle hphase
  have hcount : (ls.filterMap ExecLabel.failing).count c = 0 := by
    rw [settled_run R h c, hphase, hadmitted, hwoken]
    rfl
  exact List.count_eq_zero.mp hcount hc

/-- How many calls with some labels are settling a failure. -/
def settlingCalls (P : Setup X ι κ S α) (s : ExecState X ι κ S α) (C : Finset κ)
    (contract opName backend : String) : ℕ :=
  (C.filter fun c => P.Labelled contract opName backend c ∧ (s.phase c).settling = true).card

/-- How many calls with some labels have returned an error after they were admitted. -/
def failedCalls (P : Setup X ι κ S α) (s : ExecState X ι κ S α) (C : Finset κ)
    (contract opName backend : String) : ℕ :=
  (C.filter fun c => P.Labelled contract opName backend c ∧
    (s.admitted c && (s.phase c).gaveUp) = true).card

/-- How many sleeps of calls with some labels were cancelled. -/
def cancelledSleeps (P : Setup X ι κ S α) (ls : List (ExecLabel κ)) (C : Finset κ)
    (contract opName backend : String) : ℕ :=
  ∑ c ∈ C.filter (P.Labelled contract opName backend), cancellations ls c

/-- For any labels the attempts that fail under them and the sleeps under them that are cancelled
add up to the retries that are counted, the failures that are being settled and the admitted calls
that returned an error; `C` are any calls among which are those that have started. -/
theorem failures_conserved (R : ∀ i, Rounds X (P.executor i) (N i)) {clock : ℕ} {store : S}
    (h : runFrom P.step (P.init clock store) ls = some s) {C : Finset κ}
    (hC : ∀ c ∉ C, s.phase c = .notStarted) (contract opName backend : String) :
    ((ls.filterMap ExecLabel.failing).countP fun c => P.Labelled contract opName backend c) +
        P.cancelledSleeps ls C contract opName backend =
      s.metrics.retriesTotal contract opName backend +
        P.settlingCalls s C contract opName backend +
        P.failedCalls s C contract opName backend := by
  have hmem : ∀ c ∈ ls.filterMap ExecLabel.failing, c ∈ C := fun c hc =>
    of_not_not fun hnot => started_of_failing R h hc (hC c hnot)
  rw [counts_run h C hC, ← Finset.sum_filter, settlingCalls, failedCalls, cancelledSleeps,
    card_labelled, card_labelled, ← sum_count_filter hmem, ← Finset.sum_add_distrib,
    ← Finset.sum_add_distrib, ← Finset.sum_add_distrib]
  refine Finset.sum_congr rfl fun c _ => ?_
  rw [settled_run R h c, Phase.failures, counted]
  omega

end Setup

end GoyStore
