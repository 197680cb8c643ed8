import Mathlib.Data.List.Induction
import Mathlib.Data.List.Infix
import Mathlib.Data.Option.Basic

/-!
# Runs of a guarded step function

A system is given by one function `step : σ → ℓ → Option σ`: `step s l` is the state after the
label `l`, and `none` when `l` is not enabled in `s`.  A label names everything that the
environment chooses (which task moves, what the backend answers), so a run is a list of labels and
replaying it is a computation.

`runFrom` replays a list of labels.  `Always` says that a property holds in every state that a run
reaches, `AlwaysAfter` the same of a property that also reads the labels so far, `StepsMeet` that
every step which a run takes meets a condition on the state before it.  `always_of_stepsMeet` is the
invariant rule, `always_iff_stepsMeet` its exact form for conditions whose violation shows at once,
`history_of_runFrom` the rule for invariants that mention the labels so far.  `exists_crossing`
finds the step at which a property becomes true, `countSteps` counts the steps that meet a
condition, `collectSteps` lists what the steps log, `runFrom_simulation` carries a run along a
simulation, and `runFrom_filterMap` is the run as a part of the system sees it.
-/

namespace Runs

variable {σ ℓ : Type*} (step : σ → ℓ → Option σ)

/-- Replay a list of labels from a state; `none` as soon as one of them is not enabled. -/
def runFrom : σ → List ℓ → Option σ
  | s, [] => some s
  | s, l :: ls => (step s l).bind fun s' => runFrom s' ls

/-- The property `Q` holds in every state that the run `ls` from `s` reaches, `s` included. -/
def Always (Q : σ → Prop) (s : σ) (ls : List ℓ) : Prop :=
  ∀ pre t, pre <+: ls → runFrom step s pre = some t → Q t

/-- The property `Q` holds of the labels and the state at every moment of the run `ls` from `s`. -/
def AlwaysAfter (Q : List ℓ → σ → Prop) (s : σ) (ls : List ℓ) : Prop :=
  ∀ pre t, pre <+: ls → runFrom step s pre = some t → Q pre t

/-- Every step of the run `ls` from `s` meets the condition `C` on the state before it. -/
def StepsMeet (C : σ → ℓ → Prop) (s : σ) (ls : List ℓ) : Prop :=
  ∀ pre l t t', pre ++ [l] <+: ls → runFrom step s pre = some t → step t l = some t' → C t l

@[simp] lemma runFrom_nil (s : σ) : runFrom step s [] = some s := rfl

lemma runFrom_cons (s : σ) (l : ℓ) (ls : List ℓ) :
    runFrom step s (l :: ls) = (step s l).bind fun s' => runFrom step s' ls := rfl

/-- Replaying one label. -/
lemma runFrom_singleton (s : σ) (l : ℓ) : runFrom step s [l] = step s l := by
  rw [runFrom_cons]
  simp

/-- Replaying two lists of labels one after the other. -/
lemma runFrom_append (s : σ) (xs ys : List ℓ) :
    runFrom step s (xs ++ ys) = (runFrom step s xs).bind fun t => runFrom step t ys := by
  induction xs generalizing s with
  | nil => rfl
  | cons l xs ih =>
    rw [List.cons_append, runFrom_cons, runFrom_cons, Option.bind_assoc]
    exact Option.bind_congr fun s' _ => ih s'

/-- Replaying one more label at the end. -/
lemma runFrom_concat (s : σ) (ls : List ℓ) (l : ℓ) :
    runFrom step s (ls ++ [l]) = (runFrom step s ls).bind fun t => step t l := by
  rw [runFrom_append]
  exact Option.bind_congr fun t _ => runFrom_singleton step t l

variable {step}

/-- A run that ends in `ls ++ [l]` has a last step. -/
lemma exists_of_runFrom_concat {s t' : σ} {ls : List ℓ} {l : ℓ}
    (h : runFrom step s (ls ++ [l]) = some t') :
    ∃ t, runFrom step s ls = some t ∧ step t l = some t' := by
  rw [runFrom_concat] at h
  exact Option.bind_eq_some_iff.mp h

/-- Two runs that fit together make one run. -/
lemma runFrom_trans {s t u : σ} {xs ys : List ℓ} (h₁ : runFrom step s xs = some t)
    (h₂ : runFrom step t ys = some u) : runFrom step s (xs ++ ys) = some u := by
  rw [runFrom_append, h₁]
  exact h₂

/-! ### The invariant rule -/

/-- A property that the first state has and that every enabled step keeps holds after a run. -/
theorem invariant_of_runFrom {I : σ → Prop} (hstep : ∀ s l s', I s → step s l = some s' → I s')
    {s t : σ} {ls : List ℓ} (hs : I s) (h : runFrom step s ls = some t) : I t := by
  induction ls generalizing s with
  | nil => exact Option.some.inj h ▸ hs
  | cons l ls ih =>
    obtain ⟨s', hs', h'⟩ := Option.bind_eq_some_iff.mp h
    exact ih (hstep s l s' hs hs') h'

/-- The condition of a longer run holds along every prefix of it. -/
lemma StepsMeet.of_prefix {C : σ → ℓ → Prop} {s : σ} {xs ys : List ℓ} (h : StepsMeet step C s ys)
    (hp : xs <+: ys) : StepsMeet step C s xs :=
  fun pre l t t' hpre => h pre l t t' (hpre.trans hp)

/-- No step, no condition. -/
lemma StepsMeet.nil {C : σ → ℓ → Prop} (s : σ) : StepsMeet step C s [] := by
  intro pre l t t' hpre
  simp at hpre

/-- The condition along a run, from its first step on. -/
lemma StepsMeet.cons {C : σ → ℓ → Prop} {s s' : σ} {l : ℓ} {ls : List ℓ} (hl : step s l = some s')
    (hC : C s l) (h : StepsMeet step C s' ls) : StepsMeet step C s (l :: ls) := by
  intro pre m t t' hpre ht hm
  cases pre with
  | nil =>
    obtain ⟨rfl, -⟩ := List.cons_prefix_cons.mp hpre
    exact Option.some.inj ht ▸ hC
  | cons k pre =>
    obtain ⟨rfl, hpre'⟩ := List.cons_prefix_cons.mp hpre
    rw [runFrom_cons, hl] at ht
    exact h pre m t t' hpre' ht hm

/-- The condition along a run is the condition at its first step and along the rest. -/
lemma stepsMeet_cons_iff {C : σ → ℓ → Prop} {s s' : σ} {l : ℓ} {ls : List ℓ}
    (hl : step s l = some s') :
    StepsMeet step C s (l :: ls) ↔ C s l ∧ StepsMeet step C s' ls := by
  refine ⟨fun h => ⟨h [] l s s' (List.prefix_append [l] ls) rfl hl, ?_⟩,
    fun h => .cons hl h.1 h.2⟩
  intro pre m t t' hpre ht hm
  refine h (l :: pre) m t t' (List.cons_prefix_cons.mpr ⟨rfl, hpre⟩) ?_ hm
  rw [runFrom_cons, hl]
  exact ht

/-- The condition along two runs that fit together. -/
lemma StepsMeet.append {C : σ → ℓ → Prop} {s t : σ} {xs ys : List ℓ}
    (hxs : StepsMeet step C s xs) (ht : runFrom step s xs = some t)
    (hys : StepsMeet step C t ys) : StepsMeet step C s (xs ++ ys) := by
  induction xs generalizing s with
  | nil => exact Option.some.inj ht ▸ hys
  | cons l xs ih =>
    obtain ⟨s', hl, ht'⟩ := Option.bind_eq_some_iff.mp ht
    refine .cons hl (hxs [] l s s' (List.prefix_append [l] xs) rfl hl) (ih ?_ ht')
    intro pre m u u' hpre hu hm
    refine hxs (l :: pre) m u u' (List.cons_prefix_cons.mpr ⟨rfl, hpre⟩) ?_ hm
    rw [runFrom_cons, hl]
    exact hu

/-- The condition along the second part of a run. -/
lemma StepsMeet.of_append {C : σ → ℓ → Prop} {s t : σ} {xs ys : List ℓ}
    (h : StepsMeet step C s (xs ++ ys)) (ht : runFrom step s xs = some t) :
    StepsMeet step C t ys := by
  intro pre l u u' hpre hu hl
  have hlong : xs ++ pre ++ [l] <+: xs ++ ys := by
    rw [List.append_assoc]
    exact (List.prefix_append_right_inj xs).mpr hpre
  exact h (xs ++ pre) l u u' hlong (runFrom_trans ht hu) hl

/-- Conditions that agree on every step agree along a run. -/
lemma stepsMeet_congr {C D : σ → ℓ → Prop} (h : ∀ s l, C s l ↔ D s l) (s : σ) (ls : List ℓ) :
    StepsMeet step C s ls ↔ StepsMeet step D s ls :=
  forall₄_congr fun _ l t _ => imp_congr_right fun _ => imp_congr_right fun _ =>
    imp_congr_right fun _ => h t l

/-- An invariant that every step meeting `C` keeps holds at the end of a run whose steps all
meet `C`. -/
theorem invariant_of_stepsMeet {I : σ → Prop} {C : σ → ℓ → Prop}
    (hstep : ∀ s l s', I s → C s l → step s l = some s' → I s') {s t : σ} {ls : List ℓ}
    (hs : I s) (hC : StepsMeet step C s ls) (h : runFrom step s ls = some t) : I t := by
  induction ls using List.reverseRecOn generalizing t with
  | nil => exact Option.some.inj h ▸ hs
  | append_singleton ls l ih =>
    obtain ⟨u, hu, hl⟩ := exists_of_runFrom_concat h
    have hIu : I u := ih (hC.of_prefix (List.prefix_append ls [l])) hu
    exact hstep u l t hIu (hC ls l u t List.prefix_rfl hu hl) hl

/-- The invariant rule with a log: a relation between the state and what the labels have logged so
far that every step meeting `C` keeps holds at the end of a run whose steps all meet `C`. -/
theorem logged_of_stepsMeet {ω : Type*} {log : ℓ → Option ω} {I : σ → List ω → Prop}
    {C : σ → ℓ → Prop}
    (hstep : ∀ s ws l s', I s ws → C s l → step s l = some s' → I s' (ws ++ (log l).toList))
    {s t : σ} {ls : List ℓ} (hs : I s []) (hC : StepsMeet step C s ls)
    (h : runFrom step s ls = some t) : I t (ls.filterMap log) := by
  induction ls using List.reverseRecOn generalizing t with
  | nil => exact Option.some.inj h ▸ hs
  | append_singleton ls l ih =>
    obtain ⟨u, hu, hl⟩ := exists_of_runFrom_concat h
    have hIu := ih (hC.of_prefix (List.prefix_append ls [l])) hu
    have hIt := hstep u _ l t hIu (hC ls l u t List.prefix_rfl hu hl) hl
    have hlog : [l].filterMap log = (log l).toList := by
      rcases hlast : log l with - | w
      · simp [hlast]
      · simp [hlast]
    rwa [List.filterMap_append, hlog]

/-- An invariant that mentions the labels so far holds at the end of a run whose steps all meet a
condition that lets it be kept. -/
theorem history_of_stepsMeet {I : σ → List ℓ → Prop} {C : σ → ℓ → Prop}
    (hstep : ∀ s ls l s', I s ls → C s l → step s l = some s' → I s' (ls ++ [l]))
    {s t : σ} {ls : List ℓ} (hs : I s []) (hC : StepsMeet step C s ls)
    (h : runFrom step s ls = some t) : I t ls := by
  have hlogged : I t (ls.filterMap some) := logged_of_stepsMeet hstep hs hC h
  rwa [List.filterMap_some] at hlogged

/-- An invariant that mentions the labels so far holds at the end of every run, when each step that
goes on from such a run keeps it. -/
theorem history_of_runFrom {I : σ → List ℓ → Prop} {s t : σ} {ls : List ℓ}
    (hstep : ∀ ls l u u', runFrom step s ls = some u → I u ls → step u l = some u' →
      I u' (ls ++ [l]))
    (hs : I s []) (h : runFrom step s ls = some t) : I t ls := by
  induction ls using List.reverseRecOn generalizing t with
  | nil => exact Option.some.inj h ▸ hs
  | append_singleton ls l ih =>
    obtain ⟨u, hu, hl⟩ := exists_of_runFrom_concat h
    exact hstep ls l u t hu (ih hu) hl

variable (step) in
/-- How many steps of a run meet a condition on the state before them. -/
def countSteps (C : σ → ℓ → Bool) : σ → List ℓ → ℕ
  | _, [] => 0
  | s, l :: ls => (step s l).elim 0 fun s' => (C s l).toNat + countSteps C s' ls

/-- One more step counts when it meets the condition. -/
lemma countSteps_concat (C : σ → ℓ → Bool) {s t t' : σ} {ls : List ℓ} {l : ℓ}
    (h : runFrom step s ls = some t) (hl : step t l = some t') :
    countSteps step C s (ls ++ [l]) = countSteps step C s ls + (C t l).toNat := by
  induction ls generalizing s with
  | nil =>
    obtain rfl := Option.some.inj h
    simp [countSteps, hl]
  | cons k ls ih =>
    obtain ⟨s', hk, h'⟩ := Option.bind_eq_some_iff.mp h
    simp only [List.cons_append, countSteps, hk, Option.elim_some, ih h', Nat.add_assoc]

variable (step) in
/-- What the steps of a run log, each in the state before it. -/
def collectSteps {ω : Type*} (log : σ → ℓ → Option ω) : σ → List ℓ → List ω
  | _, [] => []
  | s, l :: ls => (step s l).elim [] fun s' => (log s l).toList ++ collectSteps log s' ls

/-- One more step logs at the end. -/
lemma collectSteps_concat {ω : Type*} (log : σ → ℓ → Option ω) {s t t' : σ} {ls : List ℓ} {l : ℓ}
    (h : runFrom step s ls = some t) (hl : step t l = some t') :
    collectSteps step log s (ls ++ [l]) = collectSteps step log s ls ++ (log t l).toList := by
  induction ls generalizing s with
  | nil =>
    obtain rfl := Option.some.inj h
    simp [collectSteps, hl]
  | cons k ls ih =>
    obtain ⟨s', hk, h'⟩ := Option.bind_eq_some_iff.mp h
    simp only [List.cons_append, collectSteps, hk, Option.elim_some, ih h', List.append_assoc]

/-- The invariant rule for runs under a condition: an invariant `I` of the steps that meet `C`,
which gives `Q`, makes `Q` true in every state of every run whose steps meet `C`. -/
theorem always_of_stepsMeet {I Q : σ → Prop} {C : σ → ℓ → Prop}
    (hstep : ∀ s l s', I s → C s l → step s l = some s' → I s') (hQ : ∀ s, I s → Q s) {s : σ}
    {ls : List ℓ} (hs : I s) (hC : StepsMeet step C s ls) : Always step Q s ls :=
  fun _ t hpre ht => hQ t (invariant_of_stepsMeet hstep hs (hC.of_prefix hpre) ht)

/-- The exact form of the invariant rule: when a step that breaks `C` leads to a state without
`Q`, the property holds all along a run if and only if every step of the run meets `C`. -/
theorem always_iff_stepsMeet {I Q : σ → Prop} {C : σ → ℓ → Prop}
    (hstep : ∀ s l s', I s → C s l → step s l = some s' → I s') (hQ : ∀ s, I s → Q s)
    (hbad : ∀ s l s', I s → ¬ C s l → step s l = some s' → ¬ Q s') {s : σ} {ls : List ℓ}
    (hs : I s) : Always step Q s ls ↔ StepsMeet step C s ls := by
  refine ⟨fun hA => ?_, always_of_stepsMeet hstep hQ hs⟩
  -- The steps before the one at hand meet `C` by induction, so the invariant holds up to it.
  induction ls using List.reverseRecOn with
  | nil =>
    intro pre l t t' hpre
    simp at hpre
  | append_singleton ls l ih =>
    have hC : StepsMeet step C s ls :=
      ih fun pre t hpre => hA pre t (hpre.trans (List.prefix_append ls [l]))
    intro pre l' t t' hpre ht hl
    rcases List.prefix_concat_iff.mp hpre with heq | hshort
    · obtain ⟨rfl, hll⟩ := List.append_inj' heq rfl
      obtain rfl : l' = l := by simpa using hll
      have hIt : I t := invariant_of_stepsMeet hstep hs hC ht
      by_contra hn
      have hrun : runFrom step s (pre ++ [l']) = some t' := by
        rw [runFrom_concat, ht]
        exact hl
      exact hbad t l' t' hIt hn hl (hA _ t' List.prefix_rfl hrun)
    · exact hC pre l' t t' hshort ht hl

/-! ### Crossings and simulations -/

/-- Between a state without `Q` and a later state with it lies a step that makes `Q` true. -/
theorem exists_crossing {Q : σ → Prop} {s t : σ} {ls : List ℓ} (h : runFrom step s ls = some t)
    (hs : ¬ Q s) (ht : Q t) :
    ∃ pre l post u u', ls = pre ++ l :: post ∧ runFrom step s pre = some u ∧
      step u l = some u' ∧ ¬ Q u ∧ Q u' := by
  induction ls generalizing s with
  | nil => exact absurd (Option.some.inj h ▸ ht) hs
  | cons l ls ih =>
    obtain ⟨s', hs', h'⟩ := Option.bind_eq_some_iff.mp h
    by_cases hq : Q s'
    · exact ⟨[], l, ls, s, s', rfl, rfl, hs', hs, hq⟩
    · obtain ⟨pre, l', post, u, u', rfl, hu, hl', hnu, hqu⟩ := ih h' hq
      refine ⟨l :: pre, l', post, u, u', rfl, ?_, hl', hnu, hqu⟩
      rw [runFrom_cons, hs']
      exact hu

/-- A simulation, step by step: under an invariant `I`, every step of the concrete system is
matched by a run of the abstract one whose steps meet `C`.  Then every concrete run is matched by
such an abstract run. -/
theorem runFrom_simulation {σ' ℓ' : Type*} {step' : σ' → ℓ' → Option σ'} {I : σ → Prop}
    {C : σ' → ℓ' → Prop} (abs : σ → σ') (hinv : ∀ s l s', I s → step s l = some s' → I s')
    (hsim : ∀ s l s', I s → step s l = some s' →
      ∃ ls', runFrom step' (abs s) ls' = some (abs s') ∧ StepsMeet step' C (abs s) ls')
    {s t : σ} {ls : List ℓ} (hs : I s) (h : runFrom step s ls = some t) :
    ∃ ls', runFrom step' (abs s) ls' = some (abs t) ∧ StepsMeet step' C (abs s) ls' := by
  induction ls generalizing s with
  | nil => exact ⟨[], by rw [Option.some.inj h]; rfl, .nil _⟩
  | cons l ls ih =>
    obtain ⟨s', hs', h'⟩ := Option.bind_eq_some_iff.mp h
    obtain ⟨xs, hxs, hCxs⟩ := hsim s l s' hs hs'
    obtain ⟨ys, hys, hCys⟩ := ih (hinv s l s' hs hs') h'
    exact ⟨xs ++ ys, runFrom_trans hxs hys, hCxs.append hxs hCys⟩

/-- A run as a part of the system sees it: every step is a step of the part or none. -/
theorem runFrom_filterMap {σ' ℓ' : Type*} {step' : σ' → ℓ' → Option σ'} (part : σ → σ')
    (proj : ℓ → Option ℓ') (hstep : ∀ s l s', step s l = some s' →
      runFrom step' (part s) (proj l).toList = some (part s'))
    {s t : σ} {ls : List ℓ} (h : runFrom step s ls = some t) :
    runFrom step' (part s) (ls.filterMap proj) = some (part t) := by
  induction ls generalizing s with
  | nil => exact congrArg (some ∘ part) (Option.some.inj h)
  | cons l ls ih =>
    obtain ⟨s', hs', h'⟩ := Option.bind_eq_some_iff.mp h
    have hcons : (l :: ls).filterMap proj = (proj l).toList ++ ls.filterMap proj := by
      cases hl : proj l with
      | none => simp [hl]
      | some l' => simp [hl]
    rw [hcons]
    exact runFrom_trans (hstep s l s' hs') (ih h')

end Runs
