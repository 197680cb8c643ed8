import Mathlib.Logic.Function.Iterate

/-!
# Operations that can be repeated

An operation takes a state to a result and a state.  `Repeatable obs op s` says that from `s` on
nobody can tell how often, after the first time, the operation was applied: neither from what `obs`
shows of the state nor from the results.

Reads are repeatable (`repeatable_read`), and a write is repeatable when it acts on what is observed
and a second application changes nothing there (`repeatable_write`).
-/

namespace Repetition

variable {S O α : Type*}

/-- The state after a number of applications. -/
def repeated (op : S → α × S) (n : ℕ) (s : S) : S := (fun s => (op s).2)^[n] s

/-- Another application at the end. -/
lemma repeated_succ (op : S → α × S) (n : ℕ) (s : S) :
    repeated op (n + 1) s = (op (repeated op n s)).2 :=
  Function.iterate_succ_apply' (fun s => (op s).2) n s

/-- Applications after the first are invisible. -/
structure Repeatable (obs : S → O) (op : S → α × S) (s : S) : Prop where
  /-- The state is observed as after the first application. -/
  obs_eq : ∀ n, obs (repeated op (n + 1) s) = obs (op s).2
  /-- The result is that of the first application. -/
  result_eq : ∀ n, (op (repeated op n s)).1 = (op s).1

variable (obs : S → O)

/-- A read can be repeated. -/
theorem repeatable_read (f : S → α) (s : S) : Repeatable obs (fun s => (f s, s)) s := by
  have hsame : ∀ n, repeated (fun s => (f s, s)) n s = s := fun n =>
    congrFun (Function.iterate_id n) s
  exact ⟨fun n => by rw [hsame], fun n => by rw [hsame]⟩

variable {obs}

/-- A write that acts on what is observed, and does nothing there the second time, can be
repeated. -/
theorem repeatable_write {write : S → S} {F : O → O} (hwrite : ∀ s, obs (write s) = F (obs s))
    {s : S} (hF : F (F (obs s)) = F (obs s)) :
    Repeatable obs (fun s => ((), write s)) s := by
  refine ⟨fun n => ?_, fun n => rfl⟩
  induction n with
  | zero => rfl
  | succ n ih => rw [repeated_succ, hwrite, ih, hwrite, hF]

end Repetition
