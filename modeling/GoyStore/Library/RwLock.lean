import Mathlib.Data.Finset.Basic
import Mathlib.Logic.Function.Basic

/-!
# Reader-writer locks and programs that use them

`RwLock` is a reader-writer lock as the set of its holders, so that a reader beside a writer cannot
be written down.  A `LockProgram` describes tasks that share such locks: each point of the program
says which lock operation comes next and which guards are held there, and the laws in its fields
say that the two fit together.

Along every run the locks are as the points of the tasks say (`Describes`, `lockStep_describes`),
and a task that cannot go on waits for a lock that another task holds (`exists_holder_of_blocked`).
-/

namespace Locks

/-- The two ways to hold a lock. -/
inductive LockMode where
  | read
  | write
  deriving DecidableEq, Repr

/-- A reader-writer lock with its holders; a task holds at most one guard of a lock. -/
inductive RwLock (τ : Type*) where
  /-- Held for reading by the tasks of a finite set; free when the set is empty. -/
  | reading (ts : Finset τ)
  /-- Held for writing by one task. -/
  | writing (t : τ)
  deriving DecidableEq

namespace RwLock

variable {τ : Type*}

/-- A lock that nobody holds. -/
def free : RwLock τ := .reading ∅

variable [DecidableEq τ]

/-- How a task holds a lock. -/
def mode : RwLock τ → τ → Option LockMode
  | .reading ts, t => if t ∈ ts then some .read else none
  | .writing u, t => if t = u then some .write else none

/-- Acquire a lock; `none` when the lock has to be waited for. -/
def acquire : RwLock τ → LockMode → τ → Option (RwLock τ)
  | .reading ts, .read, t => some (.reading (insert t ts))
  | .reading ts, .write, t => if ts = ∅ then some (.writing t) else none
  | .writing _, _, _ => none

/-- Drop the guard of a task; `none` when it holds none. -/
def release : RwLock τ → τ → Option (RwLock τ)
  | .reading ts, t => if t ∈ ts then some (.reading (ts.erase t)) else none
  | .writing u, t => if t = u then some .free else none

@[simp] lemma mode_free (t : τ) : (free : RwLock τ).mode t = none := by
  simp [free, mode]

/-- After an acquisition the task holds the lock as it asked, and the others as before. -/
lemma mode_of_acquire {l l' : RwLock τ} {m : LockMode} {t : τ} (h : l.acquire m t = some l') :
    l'.mode = Function.update l.mode t (some m) := by
  funext u
  cases l with
  | writing v => cases h
  | reading ts =>
    cases m with
    | read =>
      obtain rfl := Option.some.inj h
      by_cases hu : u = t <;> simp [mode, hu]
    | write =>
      by_cases hts : ts = ∅
      · obtain rfl : RwLock.writing t = l' := by simpa [acquire, hts] using h
        by_cases hu : u = t <;> simp [mode, hu, hts]
      · simp [acquire, hts] at h

/-- After a release the task does not hold the lock, and the others hold it as before. -/
lemma mode_of_release {l l' : RwLock τ} {t : τ} (h : l.release t = some l') :
    l'.mode = Function.update l.mode t none := by
  funext u
  cases l with
  | reading ts =>
    by_cases ht : t ∈ ts
    · obtain rfl : RwLock.reading (ts.erase t) = l' := by simpa [release, ht] using h
      by_cases hu : u = t <;> simp [mode, hu]
    · simp [release, ht] at h
  | writing v =>
    by_cases ht : t = v
    · obtain rfl : free = l' := by simpa [release, ht] using h
      rw [mode_free]
      by_cases hu : u = t <;> simp [mode, ← ht, hu]
    · simp [release, ht] at h

/-- A holder can drop its guard. -/
lemma release_isSome_of_mode {l : RwLock τ} {t : τ} (h : l.mode t ≠ none) :
    (l.release t).isSome = true := by
  cases l with
  | reading ts =>
    have ht : t ∈ ts := by
      by_contra ht
      simp [mode, ht] at h
    simp [release, ht]
  | writing u =>
    have ht : t = u := by
      by_contra ht
      simp [mode, ht] at h
    simp [release, ht]

/-- A lock that has to be waited for has a holder. -/
lemma exists_mode_of_acquire_eq_none {l : RwLock τ} {m : LockMode} {t : τ}
    (h : l.acquire m t = none) : ∃ u, l.mode u ≠ none := by
  cases l with
  | writing u => exact ⟨u, by simp [mode]⟩
  | reading ts =>
    cases m with
    | read => cases h
    | write =>
      have hts : ts ≠ ∅ := by
        intro hts
        simp [acquire, hts] at h
      obtain ⟨u, hu⟩ := Finset.nonempty_iff_ne_empty.mpr hts
      exact ⟨u, by simp [mode, hu]⟩

/-- A lock that is held for writing has no other holder. -/
lemma eq_of_mode_write {l : RwLock τ} {t u : τ} (ht : l.mode t = some .write)
    (hu : l.mode u ≠ none) : u = t := by
  cases l with
  | reading ts =>
    simp only [mode] at ht
    split at ht <;> cases ht
  | writing v =>
    have htv : t = v := by
      by_contra htv
      simp [mode, htv] at ht
    have huv : u = v := by
      by_contra huv
      simp [mode, huv] at hu
    exact huv.trans htv.symm

/-- A lock that is held for writing has to be waited for. -/
lemma acquire_eq_none_of_mode_write {l : RwLock τ} {t u : τ} {m : LockMode}
    (ht : l.mode t = some .write) : l.acquire m u = none := by
  cases l with
  | reading ts =>
    simp only [mode] at ht
    split at ht <;> cases ht
  | writing v => rfl

end RwLock

/-! ### Programs over locks -/

/-- A lock operation of a task. -/
inductive LockOp (κ : Type*) where
  | acquire (k : κ) (m : LockMode)
  | release (k : κ)
  deriving DecidableEq, Repr

/-- A program whose steps are lock operations: the locks are named by `κ`, the tasks by `τ`, the
points between two operations by `π`, and `δ` is the data that the tasks share. -/
structure LockProgram (κ τ π δ : Type*) [DecidableEq κ] where
  /-- The lock operation that comes next at a point; `none` outside the program. -/
  next : π → Option (LockOp κ)
  /-- The guards that a task holds at a point. -/
  held : π → κ → Option LockMode
  /-- The code that a task runs with the next operation: where it stands afterwards, and the
  data. -/
  run : τ → δ → π → π × δ
  /-- Outside the program no guard is held. -/
  held_of_next_none : ∀ p, next p = none → ∀ k, held p k = none
  /-- An acquisition adds its guard. -/
  held_run_acquire : ∀ t d p k m, next p = some (.acquire k m) →
    held (run t d p).1 = Function.update (held p) k (some m)
  /-- A release drops a guard that is held. -/
  held_run_release : ∀ t d p k, next p = some (.release k) →
    held p k ≠ none ∧ held (run t d p).1 = Function.update (held p) k none

/-- The locks, the points of the tasks and the shared data. -/
structure LockState (κ τ π δ : Type*) where
  /-- The locks. -/
  locks : κ → RwLock τ
  /-- Where each task stands. -/
  point : τ → π
  /-- The shared data. -/
  data : δ

namespace LockProgram

variable {κ τ π δ : Type*} [DecidableEq κ] [DecidableEq τ] (P : LockProgram κ τ π δ)

/-- What the next lock operation of a task makes of the locks; `none` when it has to wait or is
outside the program. -/
def locksAfter (s : LockState κ τ π δ) (t : τ) : Option (κ → RwLock τ) :=
  match P.next (s.point t) with
  | none => none
  | some (.acquire k m) => ((s.locks k).acquire m t).map (Function.update s.locks k)
  | some (.release k) => ((s.locks k).release t).map (Function.update s.locks k)

/-- The next step of a task: its lock operation and the code that runs with it. -/
def lockStep (s : LockState κ τ π δ) (t : τ) : Option (LockState κ τ π δ) :=
  (P.locksAfter s t).map fun locks =>
    let r := P.run t s.data (s.point t)
    { locks := locks
      point := Function.update s.point t r.1
      data := r.2 }

/-- The locks are held as the points of the tasks say. -/
def Describes (s : LockState κ τ π δ) : Prop :=
  ∀ k t, (s.locks k).mode t = P.held (s.point t) k

/-- The task is inside the program. -/
def Inside (s : LockState κ τ π δ) (t : τ) : Prop := P.next (s.point t) ≠ none

/-- Some task is inside the program, and none of those can take its next step. -/
def Stuck (s : LockState κ τ π δ) : Prop :=
  (∃ t, P.Inside s t) ∧ ∀ t, P.Inside s t → P.lockStep s t = none

variable {P}

/-- What a step of a task is. -/
lemma eq_of_lockStep {s s' : LockState κ τ π δ} {t : τ} (h : P.lockStep s t = some s') :
    ∃ locks, P.locksAfter s t = some locks ∧
      s' = { locks := locks
             point := Function.update s.point t (P.run t s.data (s.point t)).1
             data := (P.run t s.data (s.point t)).2 } := by
  obtain ⟨locks, hl, heq⟩ := Option.map_eq_some_iff.mp h
  exact ⟨locks, hl, heq.symm⟩

/-- A change of one lock and one point that agree keeps the locks described. -/
lemma Describes.update {s : LockState κ τ π δ} {t : τ} {k : κ} {l : RwLock τ} {p : π} {d : δ}
    {m : Option LockMode} (h : P.Describes s)
    (hl : l.mode = Function.update (s.locks k).mode t m)
    (hp : P.held p = Function.update (P.held (s.point t)) k m) :
    P.Describes { locks := Function.update s.locks k l, point := Function.update s.point t p,
                  data := d } := by
  intro j u
  by_cases hj : j = k
  · subst hj
    by_cases hu : u = t
    · subst hu
      simp [hl, hp]
    · simpa [hl, hu] using h j u
  · by_cases hu : u = t
    · subst hu
      simpa [hp, hj] using h j u
    · simpa [hj, hu] using h j u

/-- A task that moves without a lock operation, to a point with the same guards, keeps the locks
described. -/
lemma Describes.move {s : LockState κ τ π δ} {t : τ} {p : π} {d : δ} (h : P.Describes s)
    (hp : P.held p = P.held (s.point t)) :
    P.Describes { s with point := Function.update s.point t p, data := d } := by
  intro k u
  by_cases hu : u = t
  · subst hu
    simpa [hp] using h k u
  · simpa [hu] using h k u

/-- Every step of a task keeps the locks described. -/
theorem lockStep_describes {s s' : LockState κ τ π δ} {t : τ} (h : P.Describes s)
    (hstep : P.lockStep s t = some s') : P.Describes s' := by
  obtain ⟨locks, hlocks, rfl⟩ := eq_of_lockStep hstep
  unfold locksAfter at hlocks
  split at hlocks
  · cases hlocks
  · rename_i k m hnext
    obtain ⟨l, hl, rfl⟩ := Option.map_eq_some_iff.mp hlocks
    exact h.update (RwLock.mode_of_acquire hl) (P.held_run_acquire t s.data _ k m hnext)
  · rename_i k hnext
    obtain ⟨l, hl, rfl⟩ := Option.map_eq_some_iff.mp hlocks
    exact h.update (RwLock.mode_of_release hl) (P.held_run_release t s.data _ k hnext).2

omit [DecidableEq τ] in
/-- A task that holds a guard is inside the program. -/
lemma inside_of_held {s : LockState κ τ π δ} {t : τ} {k : κ} (h : P.held (s.point t) k ≠ none) :
    P.Inside s t :=
  fun hn => h (P.held_of_next_none _ hn k)

/-- A task inside the program that cannot go on waits for a lock that some task holds. -/
theorem exists_holder_of_blocked {s : LockState κ τ π δ} {t : τ} (h : P.Describes s)
    (ht : P.Inside s t) (hstep : P.lockStep s t = none) :
    ∃ k m u, P.next (s.point t) = some (.acquire k m) ∧ P.held (s.point u) k ≠ none := by
  have hlocks : P.locksAfter s t = none := Option.map_eq_none_iff.mp hstep
  cases hnext : P.next (s.point t) with
  | none => exact absurd hnext ht
  | some op =>
    rw [locksAfter, hnext] at hlocks
    cases op with
    | acquire k m =>
      obtain ⟨u, hu⟩ := RwLock.exists_mode_of_acquire_eq_none (Option.map_eq_none_iff.mp hlocks)
      exact ⟨k, m, u, rfl, by rwa [← h k u]⟩
    | release k =>
      have hheld := (P.held_run_release t s.data _ k hnext).1
      rw [← h k t] at hheld
      have hsome := RwLock.release_isSome_of_mode hheld
      rw [Option.map_eq_none_iff.mp hlocks] at hsome
      cases hsome

/-- In a stuck state, whoever waits for a lock waits for a task that waits itself. -/
theorem exists_waiting_holder_of_stuck {s : LockState κ τ π δ} {t : τ} (h : P.Describes s)
    (hstuck : P.Stuck s) (ht : P.Inside s t) :
    ∃ k m u, P.next (s.point t) = some (.acquire k m) ∧ P.held (s.point u) k ≠ none ∧
      ∃ k' m', P.next (s.point u) = some (.acquire k' m') := by
  obtain ⟨k, m, u, hnext, hu⟩ := exists_holder_of_blocked h ht (hstuck.2 t ht)
  have hin : P.Inside s u := inside_of_held hu
  obtain ⟨k', m', -, hnext', -⟩ := exists_holder_of_blocked h hin (hstuck.2 u hin)
  exact ⟨k, m, u, hnext, hu, k', m', hnext'⟩

/-- A task that is about to acquire a lock that some task holds for writing cannot go on. -/
lemma lockStep_eq_none_of_held_write {s : LockState κ τ π δ} {t u : τ} {k : κ} {m : LockMode}
    (h : P.Describes s) (hnext : P.next (s.point t) = some (.acquire k m))
    (hu : P.held (s.point u) k = some .write) : P.lockStep s t = none := by
  have hmode : (s.locks k).mode u = some .write := (h k u).trans hu
  rw [lockStep, locksAfter, hnext]
  simp [RwLock.acquire_eq_none_of_mode_write hmode]

/-- Two tasks that hold one lock, the first for writing, are the same. -/
lemma eq_of_held_write {s : LockState κ τ π δ} {t u : τ} {k : κ} (h : P.Describes s)
    (ht : P.held (s.point t) k = some .write) (hu : P.held (s.point u) k ≠ none) : u = t :=
  RwLock.eq_of_mode_write ((h k t).trans ht) (by rwa [h k u])

end LockProgram

end Locks
