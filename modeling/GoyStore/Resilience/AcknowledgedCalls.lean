import GoyStore.Resilience.AttemptEffects
import GoyStore.Resilience.RetryAccounting

/-!
# Calls that have returned a result

Calls that overlap retry their operations, and attempts that were reported as failed may take effect
at any later moment.  The operations that took effect have one order all the same, and the results
that calls return fit it: a call returns what its operation gives at a place of that order between
its start and its return (`acknowledged_in_order`).  So a call that has returned a result comes
before every call that starts later, a refused call does not occur at all, and a call occurs once
for its result and once for each of its attempts that took effect although it was reported as
failed.

When no such attempt took effect, this is linearizability of the calls through an executor over a
backend whose operations are atomic.
-/

namespace GoyStore

open Runs

namespace Setup

variable {X : ExecutorModel} {ι κ S α : Type*} {P : Setup X ι κ S α}

/-! ### Results and the order of the effects -/

/-- The operation of a call gives the result at a place of the order, before which none of the
given calls occurs. -/
def AnsweredBefore (P : Setup X ι κ S α) (store : S) (applied : List κ) (later : κ → Prop) (c : κ)
    (result : α) : Prop :=
  ∃ xs ys, applied = xs ++ c :: ys ∧ ((P.call c).operation (replay P store xs)).1 = result ∧
    ∀ d, later d → d ∉ xs

/-- More operations take effect. -/
lemma AnsweredBefore.append {store : S} {applied : List κ} {later : κ → Prop} {c : κ} {result : α}
    (h : AnsweredBefore P store applied later c result) (more : List κ) :
    AnsweredBefore P store (applied ++ more) later c result := by
  obtain ⟨xs, ys, rfl, hresult, hlater⟩ := h
  exact ⟨xs, ys ++ more, by simp, hresult, hlater⟩

/-- Calls that do not occur in the order come later. -/
lemma AnsweredBefore.of_notMem {store : S} {applied : List κ} {later later' : κ → Prop} {c : κ}
    {result : α} (h : AnsweredBefore P store applied later c result)
    (hlater : ∀ d, later' d → d ∉ applied) : AnsweredBefore P store applied later' c result := by
  obtain ⟨xs, ys, rfl, hresult, -⟩ := h
  exact ⟨xs, ys, rfl, hresult, fun d hd hmem => hlater d hd (List.mem_append_left _ hmem)⟩

variable [DecidableEq ι] [DecidableEq κ]

/-- Every result of an attempt is the one of its operation where it took effect. -/
def EffectsAnswered (P : Setup X ι κ S α) (store : S) (s : ExecState X ι κ S α) : Prop :=
  ∀ c result, some result ∈ attemptEffects s c →
    AnsweredBefore P store s.applied (fun _ => False) c result

/-- Every step keeps the results. -/
lemma effectsAnswered_step {store : S} {s s' : ExecState X ι κ S α} {l : ExecLabel κ}
    (hstore : s.store = replay P store s.applied) (hs : EffectsAnswered P store s)
    (h : P.step s l = some s') : EffectsAnswered P store s' := by
  intro d result hresult
  rcases attemptEffects_step h with ⟨c, n, hn, -, happlied, hset, hother⟩ |
    ⟨-, happlied, heffects⟩
  · rw [happlied]
    by_cases hd : d = c
    · subst hd
      rw [hset] at hresult
      obtain hmem | heq := List.mem_or_eq_of_mem_set hresult
      · exact (hs d result hmem).append _
      · -- the operation takes effect in this step, after all the others
        refine ⟨s.applied, [], rfl, ?_, fun _ hfalse => hfalse.elim⟩
        rw [← hstore]
        exact (Option.some.inj heq).symm
    · rw [hother d hd] at hresult
      exact (hs d result hresult).append _
  · rw [happlied]
    refine hs d result ?_
    obtain heq | heq := heffects d
    · rwa [heq] at hresult
    · rw [heq] at hresult
      simpa using hresult

/-! ### Calls that are not admitted -/

/-- A call that was not admitted has tried nothing. -/
structure Untouched (s : ExecState X ι κ S α) : Prop where
  /-- Before its admission check a call is not admitted. -/
  notStarted : ∀ c, s.phase c = .notStarted → s.admitted c = false
  /-- No attempt has failed. -/
  failed : ∀ c, s.admitted c = false → s.failed c = []
  /-- None is under way, and none has succeeded. -/
  current : ∀ c, s.admitted c = false → currentEffect (s.phase c) = none

/-- The failed attempts of a call are changed by its own steps, or when one of them takes effect. -/
lemma failed_of_caller_ne {s s' : ExecState X ι κ S α} {l : ExecLabel κ} {c : κ}
    (h : P.step s l = some s') (hcaller : l.caller ≠ some c) (hnil : s.failed c = []) :
    s'.failed c = [] := by
  cases moves_of_step h with
  | lateEffect d n hd =>
    have hne : c ≠ d := by
      rintro rfl
      rw [hnil] at hd
      cases hd
    exact (Function.update_of_ne hne _ _).trans hnil
  | fail d err attempt effect hd =>
    have hne : c ≠ d := fun hc => hcaller (congrArg some hc.symm)
    exact (Function.update_of_ne hne _ _).trans hnil
  | _ => exact hnil

/-- Every step leaves the calls that were not admitted. -/
lemma untouched_step {s s' : ExecState X ι κ S α} {l : ExecLabel κ} (hs : Untouched s)
    (hactive : ActiveAdmitted s) (h : P.step s l = some s') : Untouched s' := by
  have hidle : ∀ c, l ≠ .start c → s'.admitted c = false →
      s.admitted c = false ∧ l.caller ≠ some c := by
    intro c hl hadmitted
    rw [admitted_of_ne_start h hl] at hadmitted
    refine ⟨hadmitted, fun hcaller => ?_⟩
    rw [hactive c (active_of_caller h hcaller hl)] at hadmitted
    cases hadmitted
  refine ⟨fun c hc => ?_, fun c hc => ?_, fun c hc => ?_⟩
  · by_cases hl : l = .start c
    · exact absurd hc (started_of_caller h (congrArg ExecLabel.caller hl))
    · rw [admitted_of_ne_start h hl]
      exact hs.notStarted c (notStarted_of_step h hc)
  · by_cases hl : l = .start c
    · subst hl
      have hbefore : s.phase c = .notStarted := by
        cases moves_of_step h with
        | start _ hphase => exact hphase
      rw [eq_of_step_start h]
      exact hs.failed c (hs.notStarted c hbefore)
    · obtain ⟨hadmitted, hcaller⟩ := hidle c hl hc
      exact failed_of_caller_ne h hcaller (hs.failed c hadmitted)
  · by_cases hl : l = .start c
    · subst hl
      rw [eq_of_step_start h]
      simp only [Function.update_self]
      exact currentEffect_afterCheck c _
    · obtain ⟨hadmitted, hcaller⟩ := hidle c hl hc
      rw [phase_of_caller_ne h hcaller]
      exact hs.current c hadmitted

/-! ### Runs -/

/-- What is known of the calls, the backend and the order of the effects after a run. -/
structure InOrder (P : Setup X ι κ S α) (store : S) (s : ExecState X ι κ S α) : Prop where
  /-- The backend is what the operations make of it in their order. -/
  applied : AppliedInvariant P store s
  /-- Every result is the one of its operation where it took effect. -/
  answered : EffectsAnswered P store s
  /-- A call that was not admitted has tried nothing. -/
  untouched : Untouched s
  /-- A call that is under way was admitted. -/
  active : ActiveAdmitted s

/-- Every run ends in order. -/
theorem inOrder_run {clock : ℕ} {store : S} {ls : List (ExecLabel κ)} {s : ExecState X ι κ S α}
    (h : runFrom P.step (P.init clock store) ls = some s) : InOrder P store s := by
  refine invariant_of_runFrom (I := InOrder P store) (fun u l u' hu hl => ?_) ?_ h
  · exact ⟨appliedInvariant_step store u l u' hu.applied hl,
      effectsAnswered_step hu.applied.store_eq hu.answered hl,
      untouched_step hu.untouched hu.active hl, activeAdmitted_step u l u' hu.active hl⟩
  · refine ⟨⟨rfl, fun _ => rfl⟩, fun c result hresult => ?_,
      ⟨fun _ _ => rfl, fun _ _ => rfl, fun _ _ => rfl⟩, fun _ hc => hc.elim⟩
    simp [attemptEffects, init, currentEffect] at hresult

omit [DecidableEq ι] in
/-- A call that was not admitted does not occur. -/
lemma InOrder.notMem {store : S} {s : ExecState X ι κ S α} {c : κ} (h : InOrder P store s)
    (hc : s.admitted c = false) : c ∉ s.applied := by
  rw [← List.count_eq_zero, h.applied.count_eq, attemptEffects, h.untouched.failed c hc,
    h.untouched.current c hc]
  rfl

omit [DecidableEq ι] in
/-- A call that has returned occurs once for its result and once for each attempt that took effect
although it was reported as failed. -/
lemma InOrder.count {store : S} {s : ExecState X ι κ S α} {c : κ} {r : Except String α}
    (h : InOrder P store s) (hc : s.phase c = .returned r) :
    s.applied.count c = lost s c + r.isOk.toNat := by
  rw [h.applied.count_eq, attemptEffects, List.countP_append, hc, lost]
  rcases r with err | result <;> rfl

/-- The order of the effects only grows. -/
lemma applied_prefix_of_run {s t : ExecState X ι κ S α} {ls : List (ExecLabel κ)}
    (h : runFrom P.step s ls = some t) : s.applied <+: t.applied := by
  refine invariant_of_runFrom (I := fun t => s.applied <+: t.applied) (fun u l u' hu hl => ?_)
    List.prefix_rfl h
  rcases attemptEffects_step hl with ⟨c, n, -, -, happlied, -⟩ | ⟨-, happlied, -⟩
  · rw [happlied]
    exact hu.trans (List.prefix_append _ _)
  · rwa [happlied]

end Setup

section Acknowledged

variable {ι κ S α : Type*} [DecidableEq ι] [DecidableEq κ]

/-- Take any run of concurrent calls through executors of either library, and any moment in it.
The operations that took effect have one order, and at the end the backend is what they make of it.
A call that has returned a result at the moment occurs in the order, its result is the one of its
operation there, and the calls that have not started at the moment occur later only.  A call that
was refused does not occur, and a call that has returned occurs once for its result and once for
each of its attempts that took effect although it was reported as failed. -/
theorem acknowledged_in_order (L : Lang) (P : Setup L.executor ι κ S α) (clock : ℕ) (store : S)
    (before after : List (ExecLabel κ)) {s t : ExecState L.executor ι κ S α}
    (hbefore : runFrom P.step (P.init clock store) before = some s)
    (hafter : runFrom P.step s after = some t) :
    t.store = Setup.replay P store t.applied ∧
      (∀ c result, s.phase c = .returned (.ok result) →
        ∃ xs ys, t.applied = xs ++ c :: ys ∧
          ((P.call c).operation (Setup.replay P store xs)).1 = result ∧
          ∀ d, s.phase d = .notStarted → d ∉ xs) ∧
      (∀ c, t.admitted c = false → c ∉ t.applied) ∧
      ∀ c r, t.phase c = .returned r → t.applied.count c = Setup.lost t c + r.isOk.toNat := by
  have hs := Setup.inOrder_run hbefore
  have ht := Setup.inOrder_run (runFrom_trans hbefore hafter)
  refine ⟨ht.applied.store_eq, fun c result hc => ?_, fun c hc => ht.notMem hc,
    fun c r hc => ht.count hc⟩
  obtain ⟨more, hmore⟩ := Setup.applied_prefix_of_run hafter
  have hmem : some result ∈ Setup.attemptEffects s c := by
    simp [Setup.attemptEffects, hc, Setup.currentEffect]
  have hanswered : Setup.AnsweredBefore P store s.applied (fun d => s.phase d = .notStarted) c
      result :=
    (hs.answered c result hmem).of_notMem fun d hd => hs.notMem (hs.untouched.notStarted d hd)
  rw [← hmore]
  exact hanswered.append more

/-- A call that takes the next number. -/
def nextNumber : Call ℕ ℕ := ⟨"next", fun n => (n, n + 1)⟩

/-- The second attempt of call 0 is acknowledged. -/
def acknowledgedRetry : List (ExecLabel ℕ) :=
  committedTwiceRust ++ [.report 0, .publish 0, .publish 0]

/-- Call 1 starts afterwards and takes effect. -/
def laterCall : List (ExecLabel ℕ) := [.start 1, .invoke 1, .takeEffect 1]

/-- The call whose first acknowledgement was lost returns the second number, and the call that
starts afterwards takes effect later. -/
theorem acknowledged_in_order_retried :
    ∃ t, runFrom (defaultRust "kv" nextNumber).step ((defaultRust "kv" nextNumber).init 0 0)
        (acknowledgedRetry ++ laterCall) = some t ∧
      ∃ xs ys, t.applied = xs ++ 0 :: ys ∧
        (nextNumber.operation (Setup.replay (defaultRust "kv" nextNumber) 0 xs)).1 = 1 ∧
        1 ∉ xs := by
  obtain ⟨xs, ys, happlied, hresult, hlater⟩ := (acknowledged_in_order .rust
    (defaultRust "kv" nextNumber) 0 0 acknowledgedRetry laterCall rfl rfl).2.1 0 1 rfl
  exact ⟨_, rfl, xs, ys, happlied, hresult, hlater 1 rfl⟩

end Acknowledged

end GoyStore
