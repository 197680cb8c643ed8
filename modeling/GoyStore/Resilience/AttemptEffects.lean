import GoyStore.Resilience.ExecutorRuns
import Mathlib.Data.List.Count

/-!
# What the attempts of a call do at the backend

The executors retry every failed attempt, whatever the operation, so an operation whose attempt
took effect and was reported as failed is applied again.  `attemptEffects` lists the attempts of a
call with their results, and `attemptEffects_step` says what a step makes of it.  From it: the
backend is what the applied operations make of it (`store_eq_replay`), and a call applies its
operation at most once and once more for every attempt that took effect although it was reported as
failed (`applied_le_one_add_lost`).
-/

namespace GoyStore

open Runs

/-! ### The operations that are not idempotent -/

namespace Rust

/-- `ResilientRelationalStore::execute`, over the `execute` of the inner store. -/
def ResilientRelationalStore.execute {S π : Type*} (inner : String → List π → S → UInt64 × S)
    (sql : String) (params : List π) : Call S UInt64 :=
  ⟨"execute", inner sql params⟩

/-- `ResilientPubSubStore::publish`, over the `publish` of the inner store. -/
def ResilientPubSubStore.publish {S : Type*} (inner : String → List UInt8 → S → Unit × S)
    (channel : String) (message : List UInt8) : Call S Unit :=
  ⟨"publish", inner channel message⟩

end Rust

namespace Go

/-- `resilientRelationalStore.Execute`, over the `Execute` of the inner store. -/
def resilientRelationalStore.execute {S π : Type*} (inner : String → List π → S → Int64 × S)
    (sql : String) (params : List π) : Call S Int64 :=
  ⟨"execute", inner sql params⟩

/-- `resilientRelationalStore.Transaction`, over the `Transaction` of the inner store; `fn` is
what the body of the transaction commits. -/
def resilientRelationalStore.transaction {S : Type*} (inner : (S → S) → S → Unit × S)
    (fn : S → S) : Call S Unit :=
  ⟨"transaction", inner fn⟩

/-- `resilientPubSubStore.Publish`, over the `Publish` of the inner store. -/
def resilientPubSubStore.publish {S : Type*} (inner : String → List UInt8 → S → Unit × S)
    (channel : String) (message : List UInt8) : Call S Unit :=
  ⟨"publish", inner channel message⟩

end Go

namespace Setup

variable {X : ExecutorModel} {ι κ S α : Type*} {P : Setup X ι κ S α}

/-! ### The attempts of a call -/

/-- The result of the attempt that is under way or was acknowledged, once it has taken effect. -/
def currentEffect : Phase X α → Option α
  | .running _ effect => effect
  | .reporting (.success result) _ => some result
  | .publishing (.success result) _ => some result
  | .returned (.ok result) => some result
  | _ => none

/-- The results of the attempts of a call that took effect: first the attempts that were reported
as failed, then the last one. -/
def attemptEffects (s : ExecState X ι κ S α) (c : κ) : List (Option α) :=
  s.failed c ++ [currentEffect (s.phase c)]

/-- The number of attempts of a call that took effect although they were reported as failed. -/
def lost (s : ExecState X ι κ S α) (c : κ) : ℕ := (s.failed c).countP Option.isSome

/-- After its admission check a call has no attempt under way. -/
lemma currentEffect_afterCheck (c : κ) (r : Except String Unit) :
    currentEffect (P.afterCheck c r) = none := by
  cases r with
  | error err => rfl
  | ok a =>
    simp only [afterCheck]
    split <;> rfl

/-- At the top of the loop a call has no attempt under way. -/
lemma currentEffect_nextRound (c : κ) (attempt : X.Counter) (err : String) :
    currentEffect (P.nextRound c attempt err) = none := by
  unfold nextRound
  split <;> rfl

/-- The publication changes nothing about the last attempt. -/
lemma currentEffect_afterPublish (c : κ) (outcome : Outcome X α) (code : Option ℕ) :
    currentEffect (P.afterPublish c outcome) = currentEffect (.publishing outcome code) := by
  cases outcome with
  | success result => rfl
  | failure attempt err =>
    simp only [afterPublish]
    split_ifs
    · rfl
    · exact currentEffect_nextRound c attempt err

/-- The report changes nothing about the last attempt. -/
lemma currentEffect_afterReport (outcome : Outcome X α) (point next : Option X.FailPoint) :
    currentEffect (afterReport outcome next) = currentEffect (.reporting outcome point) := by
  cases outcome <;> cases next <;> rfl

variable [DecidableEq ι] [DecidableEq κ]

omit [DecidableEq ι] in
/-- A change of phase that keeps the last attempt keeps the attempts. -/
lemma attemptEffects_of_phase {s s' : ExecState X ι κ S α} {c d : κ} {p : Phase X α}
    (hphase : s'.phase = Function.update s.phase c p) (hfailed : s'.failed = s.failed)
    (hp : currentEffect p = currentEffect (s.phase c)) :
    attemptEffects s' d = attemptEffects s d := by
  unfold attemptEffects
  rw [hphase, hfailed]
  by_cases hd : d = c
  · subst hd
    rw [Function.update_self, hp]
  · rw [Function.update_of_ne hd]

/-- What a step makes of the attempts: an attempt takes effect at the backend, or an attempt fails
and the next one comes behind it, or nothing changes. -/
lemma attemptEffects_step {s s' : ExecState X ι κ S α} {l : ExecLabel κ}
    (h : P.step s l = some s') :
    (∃ c n, (attemptEffects s c)[n]? = some none ∧
      s'.store = ((P.call c).operation s.store).2 ∧ s'.applied = s.applied ++ [c] ∧
      attemptEffects s' c =
        (attemptEffects s c).set n (some ((P.call c).operation s.store).1) ∧
      ∀ d, d ≠ c → attemptEffects s' d = attemptEffects s d) ∨
    (s'.store = s.store ∧ s'.applied = s.applied ∧
      ∀ d, attemptEffects s' d = attemptEffects s d ∨
        attemptEffects s' d = attemptEffects s d ++ [none]) := by
  cases moves_of_step h with
  | takeEffect c attempt hc =>
    refine Or.inl ⟨c, (s.failed c).length, ?_, rfl, rfl, ?_, fun d hd => ?_⟩
    · simp [attemptEffects, hc, currentEffect]
    · simp [attemptEffects, hc, currentEffect]
    · simp [attemptEffects, hd]
  | lateEffect c n hc =>
    have hn : n < (s.failed c).length := by
      by_contra hn
      rw [List.getElem?_eq_none (not_lt.mp hn)] at hc
      cases hc
    refine Or.inl ⟨c, n, ?_, rfl, rfl, ?_, fun d hd => ?_⟩
    · rw [attemptEffects, List.getElem?_append_left hn, hc]
    · simp [attemptEffects, List.set_append_left _ _ hn]
    · simp [attemptEffects, hd]
  | fail c err attempt effect hc =>
    refine Or.inr ⟨rfl, rfl, fun d => ?_⟩
    by_cases hd : d = c
    · subst hd
      exact Or.inr (by simp [attemptEffects, hc, currentEffect])
    · exact Or.inl (by simp [attemptEffects, hd])
  | start c hc =>
    refine Or.inr ⟨rfl, rfl, fun d => Or.inl ?_⟩
    refine attemptEffects_of_phase rfl rfl ?_
    rw [hc, currentEffect_afterCheck]
    rfl
  | report c outcome point hc =>
    refine Or.inr ⟨rfl, rfl, fun d => Or.inl ?_⟩
    refine attemptEffects_of_phase rfl rfl ?_
    rw [hc, currentEffect_afterReport outcome point]
  | publish c outcome code metrics hc hcode =>
    refine Or.inr ⟨rfl, rfl, fun d => Or.inl ?_⟩
    refine attemptEffects_of_phase rfl rfl ?_
    rw [hc, currentEffect_afterPublish c outcome code]
  | readState c outcome hc hmetrics =>
    refine Or.inr ⟨rfl, rfl, fun d => Or.inl ?_⟩
    refine attemptEffects_of_phase rfl rfl ?_
    rw [hc]
    cases outcome <;> rfl
  | wake c attempt err hc =>
    refine Or.inr ⟨rfl, rfl, fun d => Or.inl ?_⟩
    refine attemptEffects_of_phase rfl rfl ?_
    rw [hc, currentEffect_nextRound]
    rfl
  | tick d => exact Or.inr ⟨rfl, rfl, fun d => Or.inl rfl⟩
  | _ =>
    rename_i hc
    refine Or.inr ⟨rfl, rfl, fun d => Or.inl ?_⟩
    refine attemptEffects_of_phase rfl rfl ?_
    rw [hc]
    rfl

/-! ### The backend and the applied operations -/

/-- What a list of calls makes of the backend. -/
def replay (P : Setup X ι κ S α) (store : S) (cs : List κ) : S :=
  cs.foldl (fun s c => ((P.call c).operation s).2) store

/-- The invariant of all runs: the backend is what the applied operations make of it, and a call
has applied its operation once for each of its attempts that took effect. -/
structure AppliedInvariant (P : Setup X ι κ S α) (store : S) (s : ExecState X ι κ S α) :
    Prop where
  /-- The backend is what the applied operations make of it. -/
  store_eq : s.store = replay P store s.applied
  /-- A call is applied once for each of its attempts that took effect. -/
  count_eq : ∀ c, s.applied.count c = (attemptEffects s c).countP Option.isSome

/-- An attempt that takes effect is one more that did. -/
lemma countP_isSome_set {effects : List (Option α)} {n : ℕ} (h : effects[n]? = some none) (a : α) :
    (effects.set n (some a)).countP Option.isSome = effects.countP Option.isSome + 1 := by
  obtain ⟨hn, hget⟩ := List.getElem?_eq_some_iff.mp h
  rw [List.countP_set hn]
  simp [hget]

/-- Every step keeps the invariant. -/
lemma appliedInvariant_step (store : S) (s : ExecState X ι κ S α) (l : ExecLabel κ)
    (s' : ExecState X ι κ S α) (hs : AppliedInvariant P store s) (h : P.step s l = some s') :
    AppliedInvariant P store s' := by
  rcases attemptEffects_step h with ⟨c, n, hn, hstore, happlied, hset, hother⟩ |
    ⟨hstore, happlied, heffects⟩
  · refine ⟨?_, fun d => ?_⟩
    · rw [hstore, happlied, hs.store_eq]
      simp [replay]
    · rw [happlied, List.count_append, hs.count_eq]
      by_cases hd : d = c
      · subst hd
        rw [hset, countP_isSome_set hn]
        simp
      · rw [hother d hd]
        simp [Ne.symm hd]
  · refine ⟨?_, fun d => ?_⟩
    · rw [hstore, happlied]
      exact hs.store_eq
    · rw [happlied, hs.count_eq]
      rcases heffects d with heq | heq <;> rw [heq]
      simp

/-- The invariant holds after every run. -/
lemma appliedInvariant_of_run {clock : ℕ} {store : S} {ls : List (ExecLabel κ)}
    {s : ExecState X ι κ S α} (h : runFrom P.step (P.init clock store) ls = some s) :
    AppliedInvariant P store s :=
  invariant_of_runFrom (appliedInvariant_step store) ⟨rfl, fun _ => rfl⟩ h

/-- No call applies its operation at the backend twice. -/
def AtMostOnce (P : Setup X ι κ S α) : Prop :=
  ∀ (clock : ℕ) (store : S) (ls : List (ExecLabel κ)) (s : ExecState X ι κ S α) (c : κ),
    runFrom P.step (P.init clock store) ls = some s → s.applied.count c ≤ 1

end Setup

/-! ### How often an operation is applied -/

section Applications

variable {ι κ S α : Type*} [DecidableEq ι] [DecidableEq κ]

/-- In every run of either executor, whatever the operations are, a call applies its operation at
the backend at most once, and once more for every attempt that took effect although it was reported
as failed; and the backend is what the applied operations make of it, one after the other. -/
theorem applied_le_one_add_lost (L : Lang) (P : Setup L.executor ι κ S α) (clock : ℕ) (store : S)
    (ls : List (ExecLabel κ)) {s : ExecState L.executor ι κ S α}
    (hrun : runFrom P.step (P.init clock store) ls = some s) :
    (∀ c, s.applied.count c ≤ 1 + Setup.lost s c) ∧
      s.store = Setup.replay P store s.applied := by
  have hs : Setup.AppliedInvariant P store s := Setup.appliedInvariant_of_run hrun
  refine ⟨fun c => ?_, hs.store_eq⟩
  -- the attempts that were not reported as failed are at most the last one
  have hlast : ([Setup.currentEffect (s.phase c)] : List (Option α)).countP Option.isSome ≤ 1 :=
    List.countP_le_length
  rw [hs.count_eq, Setup.attemptEffects, List.countP_append, Setup.lost]
  omega

/-- Calls of one operation through a Rust executor with the default configuration. -/
def defaultRust (contract : String) (call : Call S α) : Setup Rust.executorModel Unit ℕ S α :=
  .shared _ ⟨.default, contract, "backend"⟩ fun _ => call

/-- Calls of one operation through a Go executor with the default configuration. -/
def defaultGo (contract : String) (call : Call S α) : Setup Go.executorModel Unit ℕ S α :=
  .shared _ (.new ⟨0, 0, 0, 0, 0⟩ true contract "backend") fun _ => call

/-- The first attempt of a call takes effect and times out, the second takes effect. -/
def committedTwiceRust : List (ExecLabel ℕ) :=
  [.start 0, .invoke 0, .takeEffect 0, .fail 0 Rust.ResilientExecutor.timedOut, .report 0,
    .report 0, .publish 0, .publish 0, .wake 0, .invoke 0, .takeEffect 0, .succeed 0]

/-- The first attempt of a call takes effect and its acknowledgement is lost, the second takes
effect. -/
def committedTwiceGo : List (ExecLabel ℕ) :=
  [.start 0, .invoke 0, .takeEffect 0, .fail 0 "unexpected EOF", .report 0, .publish 0,
    .publish 0, .wake 0, .invoke 0, .takeEffect 0, .succeed 0]

/-- Whatever the operation, a call through the Rust executor can apply it twice. -/
lemma not_atMostOnce_rust (contract : String) (call : Call S α) (store : S) :
    ¬ (defaultRust contract call).AtMostOnce := by
  obtain ⟨s, hrun, happlied⟩ : ∃ s, runFrom (defaultRust contract call).step
      ((defaultRust contract call).init 0 store) committedTwiceRust = some s ∧
      s.applied = [0, 0] := ⟨_, rfl, rfl⟩
  intro h
  have hle := h 0 store committedTwiceRust s 0 hrun
  rw [happlied] at hle
  exact absurd hle (by decide)

/-- Whatever the operation, a call through the Go executor can apply it twice. -/
lemma not_atMostOnce_go (contract : String) (call : Call S α) (store : S) :
    ¬ (defaultGo contract call).AtMostOnce := by
  obtain ⟨s, hrun, happlied⟩ : ∃ s, runFrom (defaultGo contract call).step
      ((defaultGo contract call).init 0 store) committedTwiceGo = some s ∧
      s.applied = [0, 0] := ⟨_, rfl, rfl⟩
  intro h
  have hle := h 0 store committedTwiceGo s 0 hrun
  rw [happlied] at hle
  exact absurd hle (by decide)

/-- An inner store that inserts the text of a statement, or of a message, into a list. -/
def insertText {β γ : Type} (answer : β) (text : String) (_ : γ) (rows : List String) :
    β × List String :=
  (answer, rows ++ [text])

/-- None of the operations that are not idempotent is applied at most once. -/
theorem lost_acknowledgement_applies_twice :
    ¬ (defaultRust "relational" (Rust.ResilientRelationalStore.execute
        (insertText 1) "INSERT" ([] : List String))).AtMostOnce ∧
      ¬ (defaultRust "pubsub" (Rust.ResilientPubSubStore.publish
        (insertText ()) "orders" [])).AtMostOnce ∧
      ¬ (defaultGo "relational" (Go.resilientRelationalStore.execute
        (insertText 1) "INSERT" ([] : List String))).AtMostOnce ∧
      ¬ (defaultGo "relational" (Go.resilientRelationalStore.transaction
        (fun fn rows => ((), fn rows)) (· ++ ["INSERT"]))).AtMostOnce ∧
      ¬ (defaultGo "pubsub" (Go.resilientPubSubStore.publish
        (insertText ()) "orders" [])).AtMostOnce :=
  ⟨not_atMostOnce_rust _ _ [], not_atMostOnce_rust _ _ [], not_atMostOnce_go _ _ [],
    not_atMostOnce_go _ _ [], not_atMostOnce_go _ _ []⟩

/-- A statement that is applied twice has lost one acknowledgement. -/
theorem execute_applied_with_one_lost :
    ∃ s, runFrom (defaultRust "relational" (Rust.ResilientRelationalStore.execute
          (insertText 1) "INSERT" ([] : List String))).step
        ((defaultRust "relational" (Rust.ResilientRelationalStore.execute
          (insertText 1) "INSERT" ([] : List String))).init 0 []) committedTwiceRust = some s ∧
      s.applied.count 0 ≤ 1 + Setup.lost s 0 ∧ Setup.lost s 0 = 1 ∧
      s.store = ["INSERT", "INSERT"] := by
  refine ⟨_, rfl, ?_, rfl, rfl⟩
  exact (applied_le_one_add_lost .rust (defaultRust "relational"
    (Rust.ResilientRelationalStore.execute (insertText 1) "INSERT" ([] : List String))) 0 []
    committedTwiceRust rfl).1 0

end Applications

end GoyStore
