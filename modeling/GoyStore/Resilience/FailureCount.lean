import GoyStore.Resilience.BreakerRuns

/-!
# An open circuit has its failures counted

The Rust breaker opens when its counter reaches the threshold and resets both together, so one
expects that the state is open or half-open only while the counter is at the threshold or above;
then a failed probe of the half-open breaker opens it again.

`on_failure` decides from the value that its `fetch_add` returned and writes the state later, and
an `on_success` in between resets the counter: the circuit is then open with a counter of 0
(`opened_after_reset`).  A counter at `u32::MAX` wraps to 0 as well.  The invariant holds in all
runs in which neither happens (`openCounted_along_guarded_runs`).
-/

namespace GoyStore

open Runs

namespace Rust

variable {τ : Type*}

/-- The Rust breaker of a state of a concurrent run. -/
abbrev breakerOf (s : BreakerState breakerModel τ) : CircuitBreaker := s.cb

/-- The `on_failure` call of the task `t` has counted its failure, the count reached the threshold,
and the state is not written yet. -/
def WillOpen (s : BreakerState breakerModel τ) (t : τ) : Prop :=
  match s.reporting t with
  | none => False
  | some (.counted failures) => (breakerOf s).failureThreshold ≤ failures
  | some .opening => True

/-- The circuit is open or half-open only if the counter is at the threshold or above. -/
def OpenCounted (cb : CircuitBreaker) : Prop :=
  cb.state ≠ .Closed → cb.failureThreshold ≤ cb.consecutiveFailures

/-- The steps that keep the failures of an open circuit counted: no success is reported while a
call that reached the threshold has yet to write the state, and no failure is counted at
`u32::MAX`. -/
def GuardedReport (s : BreakerState breakerModel τ) : BreakerLabel τ → Prop
  | .onSuccess _ => ∀ t, ¬ WillOpen s t
  | .onFailure t => s.reporting t = none → (breakerOf s).consecutiveFailures ≠ 4294967295
  | _ => True

/-- The invariant of the guarded runs: the failures of an open circuit are counted, and so are the
failures that a call is about to open the circuit for. -/
structure CountInvariant (s : BreakerState breakerModel τ) : Prop where
  /-- An open or half-open circuit has its failures counted. -/
  open_counted : OpenCounted (breakerOf s)
  /-- A call that will open the circuit has its failures counted. -/
  will_open : ∀ t, WillOpen s t →
    (breakerOf s).failureThreshold ≤ (breakerOf s).consecutiveFailures

/-- Below `u32::MAX` the counter grows by one. -/
lemma le_add_one_of_ne_max {a n : UInt32} (h : a ≤ n) (hn : n ≠ 4294967295) : a ≤ n + 1 := by
  rw [UInt32.le_iff_toNat_le] at h ⊢
  have hne : n.toNat ≠ 4294967295 := fun he => hn (UInt32.toNat_inj.mp he)
  have hlt := n.toNat_lt
  rw [UInt32.toNat_add, Nat.mod_eq_of_lt] <;> simp <;> omega

/-- The admission check writes nothing but the state, and that only to leave `Open`. -/
lemma canExecute_frame (now : ℕ) (cb : CircuitBreaker) :
    (cb.canExecute now).2 = cb ∨
      (cb.state = .Open ∧ (cb.canExecute now).2 = { cb with state := .HalfOpen }) := by
  unfold CircuitBreaker.canExecute
  cases hs : cb.state with
  | Closed => exact Or.inl rfl
  | HalfOpen => exact Or.inl rfl
  | Open =>
    unfold CircuitBreaker.checkReset
    cases hl : cb.lastFailureTime with
    | none => exact Or.inl rfl
    | some instant =>
      by_cases h : cb.resetTimeout ≤ now - instant
      · exact Or.inr ⟨rfl, by simp [h]⟩
      · exact Or.inl (by simp [h])

/-- Whether a call will open the circuit depends on its own place and the threshold only. -/
lemma willOpen_congr {s s' : BreakerState breakerModel τ} {t : τ}
    (hr : s'.reporting t = s.reporting t)
    (hthr : (breakerOf s').failureThreshold = (breakerOf s).failureThreshold) :
    WillOpen s' t ↔ WillOpen s t := by
  unfold WillOpen
  rw [hr, hthr]

variable [DecidableEq τ]

/-- The first step of a failure report counts the failure. -/
lemma willOpen_count {s : BreakerState breakerModel τ} {t u : τ} {s' : BreakerState breakerModel τ}
    (ht : s.reporting t = none) (h : s.step (.onFailure t) = some s') :
    breakerOf s' = (breakerOf s).countFailure.2 ∧
      (WillOpen s' u ↔ if u = t then (breakerOf s).failureThreshold ≤
        (breakerOf s).consecutiveFailures + 1 else WillOpen s u) := by
  obtain rfl := Option.some.inj h
  refine ⟨by rw [ht]; rfl, ?_⟩
  by_cases hu : u = t
  · subst hu
    simp [WillOpen, ht, breakerModel, CircuitBreaker.onFailureStep, CircuitBreaker.countFailure]
  · simp [WillOpen, ht, hu, breakerModel, CircuitBreaker.onFailureStep,
      CircuitBreaker.countFailure]

/-- The second step of a failure report writes the time; whether the call will open the circuit
stays as it was. -/
lemma willOpen_stamp {s : BreakerState breakerModel τ} {t u : τ} {failures : UInt32}
    {s' : BreakerState breakerModel τ} (ht : s.reporting t = some (.counted failures))
    (h : s.step (.onFailure t) = some s') :
    breakerOf s' = (breakerOf s).stampFailure s.clock ∧ (WillOpen s' u ↔ WillOpen s u) := by
  obtain rfl := Option.some.inj h
  refine ⟨by rw [ht]; rfl, ?_⟩
  by_cases hu : u = t
  · subst hu
    by_cases hf : (breakerOf s).failureThreshold ≤ failures <;>
      simp [WillOpen, ht, breakerModel, CircuitBreaker.onFailureStep, hf]
  · simp [WillOpen, ht, hu, breakerModel, CircuitBreaker.onFailureStep,
      CircuitBreaker.stampFailure]

/-- The last step of a failure report that reached the threshold opens the circuit. -/
lemma willOpen_open {s : BreakerState breakerModel τ} {t u : τ}
    {s' : BreakerState breakerModel τ} (ht : s.reporting t = some .opening)
    (h : s.step (.onFailure t) = some s') :
    breakerOf s' = (breakerOf s).openCircuit ∧ (WillOpen s' u ↔ u ≠ t ∧ WillOpen s u) := by
  obtain rfl := Option.some.inj h
  refine ⟨by rw [ht]; rfl, ?_⟩
  by_cases hu : u = t
  · subst hu
    simp [WillOpen, ht, breakerModel, CircuitBreaker.onFailureStep]
  · simp [WillOpen, ht, hu, breakerModel, CircuitBreaker.onFailureStep,
      CircuitBreaker.openCircuit]

/-- The step lemma: a guarded step keeps the invariant. -/
lemma countInvariant_step (s : BreakerState breakerModel τ) (l : BreakerLabel τ)
    (s' : BreakerState breakerModel τ) (hs : CountInvariant s) (hl : GuardedReport s l)
    (h : s.step l = some s') : CountInvariant s' := by
  obtain ⟨d, rfl, rfl⟩ | ⟨t, rfl, -, rfl⟩ | ⟨t, rfl, -, rfl⟩ | ⟨t, rfl, -⟩ :=
    BreakerState.step_cases h
  · exact ⟨hs.open_counted, hs.will_open⟩
  · rcases canExecute_frame s.clock (breakerOf s) with hcb | ⟨hopen, hcb⟩
    · have hcb' : (breakerModel.canExecute s.clock s.cb).2 = s.cb := hcb
      rw [hcb']
      exact ⟨hs.open_counted, hs.will_open⟩
    · have hcb' : (breakerModel.canExecute s.clock s.cb).2 =
          ({ breakerOf s with state := .HalfOpen } : CircuitBreaker) := hcb
      rw [hcb']
      have hcount := hs.open_counted (by rw [hopen]; decide)
      exact ⟨fun _ => hcount, fun u hu => hcount⟩
  · -- the guard: no call is about to open the circuit, and the circuit is closed now
    refine ⟨fun hne => absurd rfl hne, fun u hu => absurd ?_ (hl u)⟩
    exact (willOpen_congr rfl rfl).mp hu
  · cases hr : s.reporting t with
    | none =>
      have hmax := hl hr
      have hgrow : ∀ a : UInt32, a ≤ (breakerOf s).consecutiveFailures →
          a ≤ (breakerOf s).consecutiveFailures + 1 := fun a ha => le_add_one_of_ne_max ha hmax
      refine ⟨fun hne => ?_, fun u hu => ?_⟩
      · rw [(willOpen_count (u := t) hr h).1] at hne ⊢
        exact hgrow _ (hs.open_counted hne)
      · have hw := ((willOpen_count hr h).2.mp hu)
        rw [(willOpen_count (u := t) hr h).1]
        split_ifs at hw with hut
        · exact hw
        · exact hgrow _ (hs.will_open u hw)
    | some p =>
      cases p with
      | counted failures =>
        refine ⟨fun hne => ?_, fun u hu => ?_⟩
        · rw [(willOpen_stamp (u := t) hr h).1] at hne ⊢
          exact hs.open_counted hne
        · rw [(willOpen_stamp (u := t) hr h).1]
          exact hs.will_open u ((willOpen_stamp hr h).2.mp hu)
      | opening =>
        have hcount : (breakerOf s).failureThreshold ≤ (breakerOf s).consecutiveFailures :=
          hs.will_open t (by unfold WillOpen; rw [hr]; trivial)
        refine ⟨fun _ => ?_, fun u _ => ?_⟩ <;> rw [(willOpen_open (u := t) hr h).1] <;>
          exact hcount

/-- A call that is about to open the circuit stays so until its own last step, which opens it. -/
lemma opened_of_not_willOpen {s s' : BreakerState breakerModel τ} {l : BreakerLabel τ} {t : τ}
    (hw : WillOpen s t) (hnw : ¬ WillOpen s' t) (h : s.step l = some s') :
    l = .onFailure t ∧ (breakerOf s').state = .Open := by
  obtain ⟨d, rfl, rfl⟩ | ⟨u, rfl, -, rfl⟩ | ⟨u, rfl, -, rfl⟩ | ⟨u, rfl, -⟩ :=
    BreakerState.step_cases h
  · exact absurd ((willOpen_congr rfl rfl).mpr hw) hnw
  · have hthr : ((breakerOf s).canExecute s.clock).2.failureThreshold =
        (breakerOf s).failureThreshold := by
      rcases canExecute_frame s.clock (breakerOf s) with hcb | ⟨-, hcb⟩ <;> rw [hcb]
    refine absurd ((willOpen_congr ?_ ?_).mpr hw) hnw
    · rfl
    · exact hthr
  · exact absurd ((willOpen_congr rfl rfl).mpr hw) hnw
  · cases hr : s.reporting u with
    | none =>
      have htu : t ≠ u := by
        rintro rfl
        simp [WillOpen, hr] at hw
      exact absurd ((willOpen_count hr h).2.mpr (by rwa [if_neg htu])) hnw
    | some p =>
      cases p with
      | counted failures => exact absurd ((willOpen_stamp hr h).2.mpr hw) hnw
      | opening =>
        by_cases htu : t = u
        · subst htu
          exact ⟨rfl, by rw [(willOpen_open (u := t) hr h).1]; rfl⟩
        · exact absurd ((willOpen_open hr h).2.mpr ⟨htu, hw⟩) hnw

/-- In every run whose steps are guarded, the state is open or half-open only while the counter is
at the threshold or above; and every failure whose report begins while the breaker is half-open
and has ended has opened the circuit with its last step. -/
theorem openCounted_along_guarded_runs (clock : ℕ) (threshold : UInt32) (resetTimeout : ℕ)
    (ls : List (BreakerLabel τ))
    (hls : StepsMeet BreakerState.step GuardedReport
      (.init clock (CircuitBreaker.new threshold resetTimeout)) ls) :
    Always BreakerState.step (fun s => OpenCounted (breakerOf s))
      (.init clock (CircuitBreaker.new threshold resetTimeout)) ls ∧
    ∀ pre t post s s', ls = pre ++ .onFailure t :: post →
      runFrom BreakerState.step (.init clock (CircuitBreaker.new threshold resetTimeout)) pre =
        some s → s.reporting t = none → (breakerOf s).state = .HalfOpen →
      runFrom BreakerState.step s (.onFailure t :: post) = some s' → s'.reporting t = none →
      ∃ mid rest u u', post = mid ++ .onFailure t :: rest ∧
        runFrom BreakerState.step s (.onFailure t :: mid) = some u ∧
        u.step (.onFailure t) = some u' ∧ (breakerOf u').state = .Open := by
  have hinit : CountInvariant
      (.init clock (CircuitBreaker.new threshold resetTimeout) : BreakerState breakerModel τ) :=
    ⟨fun h => absurd rfl h, fun t ht => ht.elim⟩
  refine ⟨always_of_stepsMeet countInvariant_step (fun s hs => hs.open_counted) hinit hls, ?_⟩
  intro pre t post s s' heq hpre ht hhalf hrun hend
  have hpp : pre <+: ls := heq ▸ List.prefix_append pre _
  have hs : CountInvariant s :=
    invariant_of_stepsMeet countInvariant_step hinit (hls.of_prefix hpp) hpre
  obtain ⟨s₁, hs₁, hpost⟩ := Option.bind_eq_some_iff.mp hrun
  -- the count of this call is one above a counter that is at the threshold or above
  have hw : WillOpen s₁ t := by
    refine (willOpen_count ht hs₁).2.mpr ?_
    rw [if_pos rfl]
    refine le_add_one_of_ne_max (hs.open_counted (by rw [hhalf]; decide)) ?_
    refine hls pre (.onFailure t) s s₁ ?_ hpre hs₁ ht
    rw [heq]
    exact ⟨post, by simp⟩
  have hnw : ¬ WillOpen s' t := by
    unfold WillOpen
    rw [hend]
    exact not_false
  obtain ⟨mid, l, rest, u, u', rfl, hmid, hl, hwu, hwu'⟩ :=
    exists_crossing (Q := fun s => ¬ WillOpen s t) hpost (not_not.mpr hw) hnw
  obtain ⟨rfl, hopen⟩ := opened_of_not_willOpen (not_not.mp hwu) hwu' hl
  refine ⟨mid, rest, u, u', rfl, ?_, hl, hopen⟩
  rw [runFrom_cons, hs₁]
  exact hmid

/-- A failure opens the circuit, and the reset timeout passes; then a probe is admitted. -/
def admittedProbe : List (BreakerLabel ℕ) :=
  [.onFailure 0, .onFailure 0, .onFailure 0, .tick 1, .canExecute 1]

/-- The probe fails: the run is guarded, and the failure of the probe opens the circuit again. -/
theorem openCounted_along_failed_probe :
    Always BreakerState.step (fun s => OpenCounted (breakerOf s))
      (.init 0 (CircuitBreaker.new 1 1))
      (admittedProbe ++ .onFailure 1 :: [.onFailure 1, .onFailure 1]) ∧
    ∃ s mid rest u u',
      runFrom BreakerState.step (.init 0 (CircuitBreaker.new 1 1)) admittedProbe = some s ∧
      (breakerOf s).state = .HalfOpen ∧
      [.onFailure 1, .onFailure 1] = mid ++ .onFailure 1 :: rest ∧
      runFrom BreakerState.step s (.onFailure 1 :: mid) = some u ∧
      u.step (.onFailure 1) = some u' ∧ (breakerOf u').state = .Open := by
  obtain ⟨halways, hopens⟩ := openCounted_along_guarded_runs 0 1 1
    (admittedProbe ++ .onFailure 1 :: [.onFailure 1, .onFailure 1]) <| by
      refine .cons rfl ?_ <| .cons rfl ?_ <| .cons rfl ?_ <| .cons rfl trivial <|
        .cons rfl trivial <| .cons rfl ?_ <| .cons rfl ?_ <| .cons rfl ?_ <| .nil _
      · exact fun _ => by decide
      · exact fun h => absurd h (by decide)
      · exact fun h => absurd h (by decide)
      · exact fun _ => by decide
      · exact fun h => absurd h (by decide)
      · exact fun h => absurd h (by decide)
  obtain ⟨mid, rest, u, u', hpost, hmid, hu, hopen⟩ :=
    hopens admittedProbe 1 [.onFailure 1, .onFailure 1] _ _ rfl rfl rfl rfl rfl rfl
  exact ⟨halways, _, mid, rest, u, u', rfl, rfl, hpost, hmid, hu, hopen⟩

/-- Two failures of task 0 reach the threshold 2, but task 1 reports a success before task 0
writes the state. -/
def openedAfterReset : List (BreakerLabel ℕ) :=
  [.onFailure 0, .onFailure 0, .onFailure 0, .onSuccess 1, .onFailure 0, .onFailure 0]

/-- The circuit is then open with a counter of 0; and one reset timeout later a failed probe
leaves it half-open. -/
theorem opened_after_reset :
    ¬ (∀ (threshold : UInt32) (ls : List (BreakerLabel ℕ)) (s : BreakerState breakerModel ℕ),
      1 ≤ threshold →
      runFrom BreakerState.step (.init 0 (CircuitBreaker.new threshold 1)) ls = some s →
      s.Quiescent → OpenCounted (breakerOf s)) ∧
    ¬ (∀ (threshold : UInt32) (ls : List (BreakerLabel ℕ)) (s : BreakerState breakerModel ℕ),
      1 ≤ threshold →
      runFrom BreakerState.step (.init 0 (CircuitBreaker.new threshold 1)) ls = some s →
      s.Quiescent → (breakerOf s).state = .HalfOpen →
      ∀ now, ((breakerOf s).onFailure now).state = .Open) := by
  constructor
  · intro h
    have hq := h 2 openedAfterReset _ (by decide) rfl ?_
    · exact absurd (hq (by decide)) (by decide)
    · intro t
      by_cases ht : t = 0
      · subst ht
        rfl
      · simp only [Function.update_of_ne ht]
        rfl
  · intro h
    have hq := h 2 (openedAfterReset ++ [.tick 1, .canExecute 1]) _ (by decide) rfl ?_
      (by decide) 0
    · exact absurd hq (by decide)
    · intro t
      by_cases ht : t = 0
      · subst ht
        rfl
      · simp only [Function.update_of_ne ht]
        rfl

end Rust

end GoyStore
