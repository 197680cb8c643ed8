import Mathlib.Algebra.GroupWithZero.Nat
import Mathlib.Data.List.Perm.Basic

/-!
# Loops over a stack of pending items

`loop` takes the top item from a stack, lets a body push further items and add results, and ends
when the stack is empty.  It has fuel, so that it is a function whatever the body does.

`Expands` says what a body does with one item: it pushes items that are smaller together, and what
the item yields is what is added at once and what the pushed items yield.  The results so far and
what the pending items yield are then the same up to their order after every round, so the loop ends
and its results are what the items at its start yield (`loop_eq`).
-/

namespace Worklist

variable {σ β ε : Type}

/-- Take items from a stack until none is left; `none` when the fuel runs out. -/
def loop (body : σ → List σ × List β → Except ε (List σ × List β)) :
    Nat → List σ × List β → Option (Except ε (List β))
  | 0, _ => none
  | _ + 1, ([], results) => some (.ok results)
  | n + 1, (x :: stack, results) =>
    match body x (stack, results) with
    | .error e => some (.error e)
    | .ok s => loop body n s

/-- The body pushes smaller items for a good one, and adds the rest of what the item yields. -/
structure Expands (body : σ → List σ × List β → Except ε (List σ × List β)) (good : σ → Prop)
    (size : σ → Nat) (yield : σ → List β) (x : σ) (pushed : List σ) (added : List β) : Prop where
  /-- What the body does, whatever is pending and was found before. -/
  body_eq : ∀ stack results, body x (stack, results) = .ok (pushed ++ stack, results ++ added)
  /-- The pushed items are good. -/
  good : ∀ y ∈ pushed, good y
  /-- They are smaller together. -/
  smaller : (pushed.map size).sum < size x
  /-- Nothing is lost, and nothing is added twice. -/
  yield : (yield x).Perm (added ++ pushed.flatMap yield)

variable {body : σ → List σ × List β → Except ε (List σ × List β)} {good : σ → Prop}
  {size : σ → Nat} {yield : σ → List β}

/-- More fuel does not change how the loop ends. -/
lemma loop_mono {n m : Nat} {s : List σ × List β} {r : Except ε (List β)}
    (h : loop body n s = some r) (hnm : n ≤ m) : loop body m s = some r := by
  induction n generalizing m s with
  | zero => cases h
  | succ n ih =>
    obtain ⟨m, rfl⟩ := Nat.exists_eq_add_of_lt (Nat.lt_of_lt_of_le n.succ_pos hnm)
    obtain ⟨stack, results⟩ := s
    cases stack with
    | nil => exact h
    | cons x stack =>
      rw [loop] at h ⊢
      rcases hbody : body x (stack, results) with e | s
      · rw [hbody] at h
        exact h
      · rw [hbody] at h
        exact ih h (by omega)

/-- With more fuel than the size of what is pending, the loop ends with what it had found and what
is pending yields. -/
lemma loop_ends (h : ∀ x, good x → ∃ pushed added, Expands body good size yield x pushed added)
    {n : Nat} {stack : List σ} (results : List β) (hstack : ∀ x ∈ stack, good x)
    (hn : (stack.map size).sum < n) :
    ∃ found, loop body n (stack, results) = some (.ok found) ∧
      found.Perm (results ++ stack.flatMap yield) := by
  induction n generalizing stack results with
  | zero => exact absurd hn (Nat.not_lt_zero _)
  | succ n ih =>
    cases stack with
    | nil => exact ⟨results, rfl, by simp⟩
    | cons x stack =>
      obtain ⟨pushed, added, hx⟩ := h x (hstack x List.mem_cons_self)
      have hgood : ∀ y ∈ pushed ++ stack, good y := by
        intro y hy
        rcases List.mem_append.mp hy with hnew | hold
        · exact hx.good y hnew
        · exact hstack y (List.mem_cons_of_mem x hold)
      have hsize : ((pushed ++ stack).map size).sum < n := by
        have hsmaller := hx.smaller
        rw [List.map_cons, List.sum_cons] at hn
        rw [List.map_append, List.sum_append]
        omega
      obtain ⟨found, hloop, hperm⟩ := ih (results ++ added) hgood hsize
      refine ⟨found, ?_, hperm.trans ?_⟩
      · rw [loop, hx.body_eq]
        exact hloop
      · rw [List.flatMap_append, List.flatMap_cons, List.append_assoc, ← List.append_assoc added]
        exact (hx.yield.symm.append_right _).append_left results

/-- With enough fuel, the loop ends with what it had found and what is pending yields. -/
theorem loop_eq (h : ∀ x, good x → ∃ pushed added, Expands body good size yield x pushed added)
    {stack : List σ} (results : List β) (hstack : ∀ x ∈ stack, good x) :
    ∃ found, (∀ n > (stack.map size).sum, loop body n (stack, results) = some (.ok found)) ∧
      found.Perm (results ++ stack.flatMap yield) := by
  obtain ⟨found, hloop, hperm⟩ := loop_ends h results hstack (Nat.lt_succ_self _)
  exact ⟨found, fun n hn => loop_mono hloop hn, hperm⟩

end Worklist
