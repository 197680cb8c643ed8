import GoyStore.Library.Effects
import GoyStore.Library.Runs
import Mathlib.Logic.Function.Basic

/-!
# Programs that run at the same time

A `Pool` is an environment with a state and threads that run programs over it, one call of one
thread after the other.  Each thread keeps to a protocol, and `known` is what its own calls and
answers have told it.

`Pool.always_of_follow` is the invariant rule: what every call that the protocols allow preserves
holds in every state of every run, and at its end a thread knows what its protocol promises.
-/

namespace Effects

/-- Threads that run programs over a shared state. -/
structure Pool (ι κ ε C : Type) (A : C → Type) (ρ S : Type) where
  /-- The shared state. -/
  store : S
  /-- What is left of the program of each thread. -/
  threads : ι → Prog ε C A ρ
  /-- What each thread knows from its own calls. -/
  known : ι → κ

namespace Pool

variable {ι κ ε C ρ S : Type} {A : C → Type} [DecidableEq ι]
  (serve : (c : C) → S → A c × S) (P : ι → Protocol κ C A)

/-- A thread makes its next call. -/
def step (s : Pool ι κ ε C A ρ S) (t : ι) : Option (Pool ι κ ε C A ρ S) :=
  match s.threads t with
  | .call c k =>
    some
      { store := (serve c s.store).2
        threads := Function.update s.threads t (k (serve c s.store).1)
        known := Function.update s.known t ((P t).next (s.known t) c (serve c s.store).1) }
  | _ => none

/-- Every thread keeps to its protocol. -/
def Follow (Q : ι → κ → Except ε ρ → Prop) (s : Pool ι κ ε C A ρ S) : Prop :=
  ∀ t, (s.threads t).Follows (P t) (Q t) (s.known t)

variable {serve P} {Q : ι → κ → Except ε ρ → Prop} {s s' : Pool ι κ ε C A ρ S} {t : ι}

/-- What a step does: the thread gets the answer to a call, and the others stay as they are. -/
lemma of_step_eq_some (h : step serve P s t = some s') :
    ∃ c k, s.threads t = .call c k ∧ s'.store = (serve c s.store).2 ∧
      s'.threads = Function.update s.threads t (k (serve c s.store).1) ∧
      s'.known = Function.update s.known t ((P t).next (s.known t) c (serve c s.store).1) := by
  rw [step] at h
  split at h
  · rename_i c k hthread
    obtain rfl := Option.some.inj h
    exact ⟨c, k, hthread, rfl, rfl, rfl⟩
  · cases h

/-- A step depends on what is known after an answer, not on what is allowed. -/
lemma step_congr {P' : ι → Protocol κ C A} (h : ∀ t, (P t).next = (P' t).next) :
    (step serve P : Pool ι κ ε C A ρ S → ι → Option (Pool ι κ ε C A ρ S)) = step serve P' := by
  funext s t
  rw [step, step, h]

/-- The call that a thread makes is allowed, and the threads keep to their protocols. -/
lemma Follow.step (h : s.Follow P Q) (hstep : Pool.step serve P s t = some s') :
    s'.Follow P Q ∧ ∃ c k, s.threads t = .call c k ∧ (P t).pre (s.known t) c := by
  obtain ⟨c, k, hthread, -, hthreads, hknown⟩ := of_step_eq_some hstep
  have ht := h t
  rw [hthread] at ht
  refine ⟨fun u => ?_, c, k, hthread, ht.1⟩
  rw [hthreads, hknown]
  by_cases hu : u = t
  · subst hu
    rw [Function.update_self, Function.update_self]
    exact ht.2 _
  · rw [Function.update_of_ne hu, Function.update_of_ne hu]
    exact h u

/-- If every allowed call that meets a condition preserves a property of what is known and of the
shared state, it holds in every state of a run whose steps meet the condition. -/
theorem always_of_follow {I : (ι → κ) → S → Prop} {Meets : Pool ι κ ε C A ρ S → ι → Prop}
    (hcall : ∀ (s : Pool ι κ ε C A ρ S) t c k, I s.known s.store → s.threads t = .call c k →
      (P t).pre (s.known t) c → Meets s t →
      I (Function.update s.known t ((P t).next (s.known t) c (serve c s.store).1))
        (serve c s.store).2)
    (hfollow : s.Follow P Q) (hI : I s.known s.store) {ts : List ι}
    (hmeets : Runs.StepsMeet (Pool.step serve P) Meets s ts) :
    Runs.Always (Pool.step serve P) (fun s => s.Follow P Q ∧ I s.known s.store) s ts := by
  refine Runs.always_of_stepsMeet ?_ (fun _ h => h) ⟨hfollow, hI⟩ hmeets
  rintro s t s' ⟨hfollow, hI⟩ hmeet hstep
  obtain ⟨hfollow', c, k, hthread, hpre⟩ := hfollow.step hstep
  refine ⟨hfollow', ?_⟩
  obtain ⟨c', k', hthread', hstore, -, hknown⟩ := of_step_eq_some hstep
  rw [hthread] at hthread'
  cases hthread'
  rw [hstore, hknown]
  exact hcall s t c k hI hthread hpre hmeet

end Pool

end Effects
