import GoyStore.Library.GuardedObject

/-!
# Linearizability of objects behind a reader-writer lock

The calls of a `Guarded` object release its lock in one order.  The records of this order and of the
returns are those of the labels of the run, and the order is the one of real time: a call that
returned before another one was made released the lock before it (`recorded_of_runFrom`).  With a
refinement of the methods by operations in one step the object is linearizable
(`always_linearized`).
-/

namespace Locks

open Effects Runs

namespace Guarded

variable {τ ι ε C ρ S : Type} {A : C → Type} [DecidableEq τ] {G : Guarded ι ε C A ρ S}
  {s s' : GuardedState τ ι ε C A ρ S} {s₀ : S} {t : τ}

/-! ### The order of real time -/

/-- Between the steps `m` and `n` the task neither makes a call nor returns from one. -/
def Busy (ls : List (GuardedLabel τ ι)) (t : τ) (m n : ℕ) : Prop :=
  ∀ k l, m < k → k < n → ls[k]? = some l → l ≠ .answer t ∧ ∀ i, l ≠ .call t i

/-- The recorded calls are those of the labels: every call that has released the lock was made, once
and at the step that its record says, and every return is the return of the call that its task
made last. -/
structure Recorded (ls : List (GuardedLabel τ ι)) (s : GuardedState τ ι ε C A ρ S) : Prop where
  /-- A recorded call was made. -/
  made : ∀ e ∈ s.released, ls[e.madeAt]? = some (.call e.task e.call)
  /-- No call is recorded twice. -/
  once : (s.released.map CallRecord.madeAt).Nodup
  /-- The returns are those of the labels. -/
  returned : ∀ n t, ls[n]? = some (.answer t) ↔ ∃ e, (e, n) ∈ s.returned ∧ e.task = t
  /-- What returns has released the lock before, and is the last call of its task. -/
  last : ∀ e n, (e, n) ∈ s.returned → e ∈ s.released ∧ e.madeAt < n ∧ Busy ls e.task e.madeAt n

/-- The recorded calls and those that are under way. -/
structure Stamped (ls : List (GuardedLabel τ ι)) (s : GuardedState τ ι ε C A ρ S) : Prop
    extends Recorded ls s where
  /-- The clock counts the steps. -/
  clock : s.clock = ls.length
  /-- A call that is under way is the last one of its task. -/
  running : ∀ t i n, (s.point t).current = some (i, n) →
    ls[n]? = some (.call t i) ∧ Busy ls t n ls.length
  /-- It is recorded only when it has released the lock. -/
  fresh : ∀ t i n, (s.point t).current = some (i, n) → ∀ e ∈ s.released, e.madeAt = n →
    s.point t = .released e
  /-- A call that has released the lock is recorded. -/
  done : ∀ t e, s.point t = .released e → e ∈ s.released ∧ e.task = t
  /-- Of two recorded calls the first was not made after the second had returned. -/
  order : s.released.Pairwise fun e e' => ∀ n, (e', n) ∈ s.returned → e.madeAt < n

variable {ls : List (GuardedLabel τ ι)} {l : GuardedLabel τ ι} {i : ι} {m n : ℕ}

section Records

omit [DecidableEq τ]

/-- The labels of a run with one more step. -/
lemma getElem?_concat_iff {x : GuardedLabel τ ι} :
    (ls ++ [l])[n]? = some x ↔ ls[n]? = some x ∨ n = ls.length ∧ l = x := by
  rw [List.getElem?_append]
  split_ifs with hlt
  · have hne : n ≠ ls.length := Nat.ne_of_lt hlt
    simp [hne]
  · have hnone : ls[n]? = none := by simpa using hlt
    rw [hnone]
    by_cases heq : n = ls.length
    · simp [heq]
    · have hpos : n - ls.length ≠ 0 := by omega
      simp [heq, hpos]

/-- One more step does not change what happened before. -/
lemma Busy.concat (h : Busy ls t m n) (hn : n ≤ ls.length) (l : GuardedLabel τ ι) :
    Busy (ls ++ [l]) t m n := by
  intro k x hk hkn hx
  rcases getElem?_concat_iff.mp hx with hx | ⟨heq, -⟩
  · exact h k x hk hkn hx
  · exact absurd heq (by omega)

/-- One more step of another kind. -/
lemma Busy.succ (h : Busy ls t m ls.length) (hl : l ≠ .answer t ∧ ∀ i, l ≠ .call t i) :
    Busy (ls ++ [l]) t m (ls ++ [l]).length := by
  intro k x hk hkn hx
  rcases getElem?_concat_iff.mp hx with hx | ⟨-, rfl⟩
  · exact h k x hk (List.getElem?_eq_some_iff.mp hx).1 hx
  · exact hl

/-- A return is one of the labels. -/
lemma Recorded.lt_of_returned (h : Recorded ls s) {e : CallRecord τ ι (Except ε ρ)}
    (he : (e, n) ∈ s.returned) : n < ls.length :=
  (List.getElem?_eq_some_iff.mp ((h.returned n e.task).mpr ⟨e, he, rfl⟩)).1

/-- A step that is no return; it may record a call. -/
lemma Recorded.concat (h : Recorded ls s) (hl : ∀ t, l ≠ .answer t)
    (hsub : s.released ⊆ s'.released)
    (hmade : ∀ e ∈ s'.released, ls[e.madeAt]? = some (.call e.task e.call))
    (honce : (s'.released.map CallRecord.madeAt).Nodup) (hreturned : s'.returned = s.returned) :
    Recorded (ls ++ [l]) s' where
  made e he := getElem?_concat_iff.mpr (.inl (hmade e he))
  once := honce
  returned n t := by
    rw [getElem?_concat_iff, hreturned, ← h.returned n t]
    exact or_iff_left fun hlast => hl t hlast.2
  last e n he := by
    rw [hreturned] at he
    obtain ⟨hmem, hlt, hbusy⟩ := h.last e n he
    exact ⟨hsub hmem, hlt, hbusy.concat (h.lt_of_returned he).le l⟩

/-- A step that is no return and records no call. -/
lemma Recorded.keep (h : Recorded ls s) (hl : ∀ t, l ≠ .answer t)
    (hreleased : s'.released = s.released) (hreturned : s'.returned = s.returned) :
    Recorded (ls ++ [l]) s' := by
  refine h.concat hl ?_ ?_ ?_ hreturned
  · rw [hreleased]
    exact List.Subset.refl _
  · rw [hreleased]
    exact h.made
  · rw [hreleased]
    exact h.once

/-- The clock counts one more step. -/
lemma Stamped.clock_concat (h : Stamped ls s) (hclock : s'.clock = s.clock + 1)
    (l : GuardedLabel τ ι) : s'.clock = (ls ++ [l]).length := by
  rw [hclock, h.clock, List.length_append, List.length_singleton]

/-- A call that is under way stays the last one of its task while its task neither makes a call nor
returns. -/
lemma Stamped.running_concat (h : Stamped ls s) (ht : (s.point t).current = some (i, n))
    (hl : l ≠ .answer t ∧ ∀ i, l ≠ .call t i) :
    (ls ++ [l])[n]? = some (.call t i) ∧ Busy (ls ++ [l]) t n (ls ++ [l]).length := by
  obtain ⟨hmade, hbusy⟩ := h.running t i n ht
  exact ⟨getElem?_concat_iff.mpr (.inl hmade), hbusy.succ hl⟩

end Records

/-- A task gives up its call or goes on with it, and nothing is recorded. -/
lemma Stamped.quiet (h : Stamped ls s) (hanswer : ∀ u, l ≠ .answer u) (hcall : ∀ u i, l ≠ .call u i)
    {x : CallPoint τ ι ε C A ρ} (hpoint : s'.point = Function.update s.point t x)
    (hx : ∀ i n, x.current = some (i, n) → (s.point t).current = some (i, n))
    (hbefore : ∀ e, s.point t ≠ .released e) (hafter : ∀ e, x ≠ .released e)
    (hreleased : s'.released = s.released) (hreturned : s'.returned = s.returned)
    (hclock : s'.clock = s.clock + 1) : Stamped (ls ++ [l]) s' := by
  have hcurrent : ∀ u i n, (s'.point u).current = some (i, n) →
      (s.point u).current = some (i, n) := by
    intro u i n hu
    rw [hpoint] at hu
    by_cases hut : u = t
    · subst hut
      exact hx i n (by rwa [Function.update_self] at hu)
    · rwa [Function.update_of_ne hut] at hu
  have hdone : ∀ u e, s'.point u = .released e ↔ s.point u = .released e := by
    intro u e
    rw [hpoint]
    by_cases hut : u = t
    · subst hut
      rw [Function.update_self]
      exact ⟨fun hu => absurd hu (hafter e), fun hu => absurd hu (hbefore e)⟩
    · rw [Function.update_of_ne hut]
  refine ⟨h.keep hanswer hreleased hreturned, ?_, fun u i n hu => ?_,
    fun u i n hu e he hn => ?_, fun u e hu => ?_, ?_⟩
  · exact h.clock_concat hclock _
  · exact h.running_concat (hcurrent u i n hu) ⟨hanswer u, hcall u⟩
  · exact (hdone u e).mpr (h.fresh u i n (hcurrent u i n hu) e (hreleased ▸ he) hn)
  · rw [hreleased]
    exact h.done u e ((hdone u e).mp hu)
  · rw [hreleased, hreturned]
    exact h.order

/-- A task that is in no call makes one. -/
lemma Stamped.call (h : Stamped ls s) (hidle : s.point t = .idle)
    (hpoint : s'.point = Function.update s.point t (.waiting i s.clock))
    (hreleased : s'.released = s.released) (hreturned : s'.returned = s.returned)
    (hclock : s'.clock = s.clock + 1) : Stamped (ls ++ [.call t i]) s' where
  toRecorded := h.keep (fun u hu => by cases hu) hreleased hreturned
  clock := h.clock_concat hclock _
  running u j n hu := by
    rw [hpoint] at hu
    by_cases hut : u = t
    · subst hut
      rw [Function.update_self] at hu
      obtain ⟨rfl, rfl⟩ := Prod.mk.inj (Option.some.inj hu)
      refine ⟨getElem?_concat_iff.mpr (.inr ⟨h.clock, rfl⟩), fun k x hk hlt => ?_⟩
      rw [List.length_append, List.length_singleton, ← h.clock] at hlt
      omega
    · rw [Function.update_of_ne hut] at hu
      refine h.running_concat hu ⟨fun hl => (by cases hl), fun k hl => ?_⟩
      cases hl
      exact hut rfl
  fresh u j n hu e he hn := by
    rw [hpoint] at hu ⊢
    rw [hreleased] at he
    by_cases hut : u = t
    · subst hut
      rw [Function.update_self] at hu
      obtain ⟨-, rfl⟩ := Prod.mk.inj (Option.some.inj hu)
      have hlt := (List.getElem?_eq_some_iff.mp (h.made e he)).1
      rw [hn, h.clock] at hlt
      exact absurd hlt (Nat.lt_irrefl _)
    · rw [Function.update_of_ne hut] at hu ⊢
      exact h.fresh u j n hu e he hn
  done u e hu := by
    rw [hpoint] at hu
    rw [hreleased]
    by_cases hut : u = t
    · subst hut
      rw [Function.update_self] at hu
      cases hu
    · rw [Function.update_of_ne hut] at hu
      exact h.done u e hu
  order := by
    rw [hreleased, hreturned]
    exact h.order

/-- A call releases the lock. -/
lemma Stamped.release (h : Stamped ls s) {p : Prog ε C A ρ} {r : Except ε ρ}
    (hinside : s.point t = .inside i n p)
    (hpoint : s'.point = Function.update s.point t (.released ⟨t, i, r, n⟩))
    (hreleased : s'.released = s.released ++ [⟨t, i, r, n⟩]) (hreturned : s'.returned = s.returned)
    (hclock : s'.clock = s.clock + 1) : Stamped (ls ++ [.release t]) s' := by
  have hcurrent : (s.point t).current = some (i, n) := by rw [hinside]; rfl
  have hmade := (h.running t i n hcurrent).1
  -- the call is not recorded yet
  have hnew : ∀ e ∈ s.released, e.madeAt ≠ n := by
    intro e he hn
    cases hinside.symm.trans (h.fresh t i n hcurrent e he hn)
  have hmem : ∀ e, e ∈ s'.released ↔ e ∈ s.released ∨ e = ⟨t, i, r, n⟩ := by
    intro e
    rw [hreleased, List.mem_append, List.mem_singleton]
  have hsame : ∀ u, (s'.point u).current = (s.point u).current := by
    intro u
    rw [hpoint]
    by_cases hut : u = t
    · subst hut
      rw [Function.update_self, hcurrent]
      rfl
    · rw [Function.update_of_ne hut]
  refine ⟨h.concat (fun u hu => by cases hu) ?_ ?_ ?_ hreturned, ?_, ?_, ?_, ?_, ?_⟩
  · exact fun e he => (hmem e).mpr (.inl he)
  · intro e he
    rcases (hmem e).mp he with hold | rfl
    · exact h.made e hold
    · exact hmade
  · rw [hreleased, List.map_append, List.nodup_append]
    refine ⟨h.once, List.nodup_singleton _, ?_⟩
    rintro _ hold _ hlast rfl
    obtain ⟨e, he, heq⟩ := List.mem_map.mp hold
    exact hnew e he (heq.trans (List.mem_singleton.mp hlast))
  · exact h.clock_concat hclock _
  · intro u j m hu
    exact h.running_concat (hsame u ▸ hu) ⟨fun hl => (by cases hl), fun k hl => by cases hl⟩
  · intro u j m hu e he hm
    rw [hsame u] at hu
    rw [hpoint]
    rcases (hmem e).mp he with hold | rfl
    · have hut : u ≠ t := by
        rintro rfl
        obtain ⟨-, rfl⟩ := Prod.mk.inj (Option.some.inj (hu.symm.trans hcurrent))
        exact hnew e hold hm
      rw [Function.update_of_ne hut]
      exact h.fresh u j m hu e hold hm
    · obtain rfl : n = m := hm
      have hcall := Option.some.inj ((h.running u j n hu).1.symm.trans hmade)
      obtain ⟨rfl, -⟩ := GuardedLabel.call.inj hcall
      exact Function.update_self ..
  · intro u e hu
    rw [hpoint] at hu
    by_cases hut : u = t
    · subst hut
      rw [Function.update_self] at hu
      obtain rfl := CallPoint.released.inj hu
      exact ⟨(hmem _).mpr (.inr rfl), rfl⟩
    · rw [Function.update_of_ne hut] at hu
      obtain ⟨hold, htask⟩ := h.done u e hu
      exact ⟨(hmem e).mpr (.inl hold), htask⟩
  · rw [hreleased, hreturned, List.pairwise_append]
    refine ⟨h.order, List.pairwise_singleton _ _, fun e _ e' he' k hk => ?_⟩
    obtain rfl := List.mem_singleton.mp he'
    exact absurd rfl (hnew _ (h.last _ k hk).1)

/-- A call returns. -/
lemma Stamped.answer (h : Stamped ls s) {e : CallRecord τ ι (Except ε ρ)}
    (hdone : s.point t = .released e) (hpoint : s'.point = Function.update s.point t .idle)
    (hreleased : s'.released = s.released) (hreturned : s'.returned = s.returned ++ [(e, s.clock)])
    (hclock : s'.clock = s.clock + 1) : Stamped (ls ++ [.answer t]) s' := by
  obtain ⟨hmem, rfl⟩ := h.done t e hdone
  have hbusy := (h.running e.task e.call e.madeAt (by rw [hdone]; rfl)).2
  have hlt : ∀ e' ∈ s.released, e'.madeAt < ls.length :=
    fun e' he' => (List.getElem?_eq_some_iff.mp (h.made e' he')).1
  have hpair : ∀ p, p ∈ s'.returned ↔ p ∈ s.returned ∨ p = (e, ls.length) := by
    intro p
    rw [hreturned, List.mem_append, List.mem_singleton, h.clock]
  -- the task of the call is now idle, and the others stand where they stood
  have hother : ∀ u x, s'.point u = x → x ≠ .idle → u ≠ e.task ∧ s.point u = x := by
    intro u x hu hx
    rw [hpoint] at hu
    by_cases hut : u = e.task
    · rw [hut, Function.update_self] at hu
      exact absurd hu.symm hx
    · rw [Function.update_of_ne hut] at hu
      exact ⟨hut, hu⟩
  have hcurrent : ∀ u j m, (s'.point u).current = some (j, m) →
      u ≠ e.task ∧ s'.point u = s.point u := by
    intro u j m hu
    obtain ⟨hut, heq⟩ := hother u _ rfl fun hidle => by
      rw [hidle] at hu
      cases hu
    exact ⟨hut, heq.symm⟩
  refine ⟨⟨fun e' he' => ?_, ?_, fun m u => ?_, fun e' m he' => ?_⟩, ?_, fun u j m hu => ?_,
    fun u j m hu e' he' hm => ?_, fun u e' hu => ?_, ?_⟩
  · exact getElem?_concat_iff.mpr (.inl (h.made e' (hreleased ▸ he')))
  · rw [hreleased]
    exact h.once
  · rw [getElem?_concat_iff, h.returned m u]
    constructor
    · rintro (⟨e', he', htask⟩ | ⟨rfl, hl⟩)
      · exact ⟨e', (hpair _).mpr (.inl he'), htask⟩
      · exact ⟨e, (hpair _).mpr (.inr rfl), GuardedLabel.answer.inj hl⟩
    · rintro ⟨e', he', rfl⟩
      rcases (hpair _).mp he' with hold | heq
      · exact .inl ⟨e', hold, rfl⟩
      · obtain ⟨rfl, rfl⟩ := Prod.mk.inj heq
        exact .inr ⟨rfl, rfl⟩
  · rw [hreleased]
    rcases (hpair _).mp he' with hold | heq
    · obtain ⟨hmem', hlt', hbusy'⟩ := h.last e' m hold
      exact ⟨hmem', hlt', hbusy'.concat (h.lt_of_returned hold).le _⟩
    · obtain ⟨rfl, rfl⟩ := Prod.mk.inj heq
      exact ⟨hmem, hlt e' hmem, hbusy.concat le_rfl _⟩
  · exact h.clock_concat hclock _
  · obtain ⟨hut, hsame⟩ := hcurrent u j m hu
    refine h.running_concat (hsame ▸ hu) ⟨fun hl => ?_, fun k hl => by cases hl⟩
    exact hut (GuardedLabel.answer.inj hl).symm
  · obtain ⟨-, hsame⟩ := hcurrent u j m hu
    rw [hsame]
    exact h.fresh u j m (hsame ▸ hu) e' (hreleased ▸ he') hm
  · rw [hreleased]
    exact h.done u e' (hother u _ hu fun hidle => by cases hidle).2
  · rw [hreleased]
    refine h.order.imp_of_mem fun {e₁ e₂} he₁ _ hold m hm => ?_
    rcases (hpair _).mp hm with hm | heq
    · exact hold m hm
    · exact (Prod.mk.inj heq).2 ▸ hlt e₁ he₁

/-- Every step keeps the records stamped. -/
lemma Stamped.step (h : Stamped ls s) (hl : G.step s l = some s') : Stamped (ls ++ [l]) s' := by
  obtain ⟨u, hu, rfl⟩ := moves_of_step hl
  cases hu with
  | call i hpoint => exact h.call hpoint rfl rfl rfl rfl
  | abandon hpoint =>
    refine h.quiet (fun t hl => by cases hl) (fun t i hl => by cases hl) rfl
      (fun i n hx => by cases hx) (fun e he => by cases hpoint.symm.trans he)
      (fun e he => by cases he) rfl rfl rfl
  | enter hpoint hlock =>
    refine h.quiet (fun t hl => by cases hl) (fun t i hl => by cases hl) rfl
      (fun i n hx => by rw [hpoint]; exact hx) (fun e he => by cases hpoint.symm.trans he)
      (fun e he => by cases he) rfl rfl rfl
  | access hpoint =>
    refine h.quiet (fun t hl => by cases hl) (fun t i hl => by cases hl) rfl
      (fun i n hx => by rw [hpoint]; exact hx) (fun e he => by cases hpoint.symm.trans he)
      (fun e he => by cases he) rfl rfl rfl
  | release hpoint hp hlock => exact h.release hpoint rfl rfl rfl rfl
  | answer hpoint => exact h.answer hpoint rfl rfl rfl rfl

omit [DecidableEq τ] in
/-- At the start nothing is recorded. -/
lemma stamped_start (s₀ : S) : Stamped [] (start τ s₀ : GuardedState τ ι ε C A ρ S) where
  made e he := absurd he List.not_mem_nil
  once := List.nodup_nil
  returned n t := ⟨fun h => (by cases h), fun ⟨e, he, _⟩ => absurd he List.not_mem_nil⟩
  last e n he := absurd he List.not_mem_nil
  clock := rfl
  running t i n h := by cases h
  fresh t i n h := by cases h
  done t e h := by cases h
  order := .nil

/-- After every run the recorded calls are those of the labels, and a call that returned before
another one was made released the lock before it. -/
theorem recorded_of_runFrom (h : runFrom G.step (start τ s₀) ls = some s) :
    Recorded ls s ∧ ∀ e n e', (e, n) ∈ s.returned → e' ∈ s.released → n < e'.madeAt →
      [e, e'].Sublist s.released := by
  have hs : Stamped ls s :=
    history_of_runFrom (I := fun s ls => Stamped ls s) (fun _ _ _ _ _ ih hl => ih.step hl)
      (stamped_start s₀) h
  refine ⟨hs.toRecorded, fun e n e' he he' hlt => ?_⟩
  obtain ⟨hmem, hmade, -⟩ := hs.last e n he
  have hne : e ≠ e' := by
    rintro rfl
    exact absurd (hmade.trans hlt) (Nat.lt_irrefl _)
  obtain ⟨xs, ys, hsplit⟩ := List.append_of_mem he'
  have horder := hs.order
  rw [hsplit] at hmem horder ⊢
  rcases List.mem_append.mp hmem with hbefore | hafter
  · exact (List.singleton_sublist.mpr hbefore).append
      (List.singleton_sublist.mpr List.mem_cons_self)
  · have hin : e ∈ ys := (List.mem_cons.mp hafter).resolve_left hne
    have hlater := List.rel_of_pairwise_cons (List.pairwise_append.mp horder).2.1 hin n he
    exact absurd (hlater.trans hlt) (Nat.lt_irrefl _)

/-! ### Linearizability -/

/-- Concurrent callers see an object as if their calls were made in one step, one after the other,
from `t₀` on, in an order that agrees with real time. -/
structure Linearized {T : Type} (G : Guarded ι ε C A ρ S) (spec : ι → T → Except ε ρ × T)
    (rel : S → T → Prop) (t₀ : T) (ls : List (GuardedLabel τ ι))
    (s : GuardedState τ ι ε C A ρ S) : Prop where
  /-- The calls that have released the lock are a sequential history, in the order in which they
  did, and unless a call is writing the object is as they left it. -/
  sequential : ∃ t, Legal spec t₀ s.released t ∧
    ((∀ u, s.lock.mode u ≠ some .write) → rel s.object t)
  /-- These calls and the returns are those of the run. -/
  recorded : Recorded ls s
  /-- A call that returned before another one was made comes before it in the history. -/
  realTime : ∀ e n e', (e, n) ∈ s.returned → e' ∈ s.released → n < e'.madeAt →
    [e, e'].Sublist s.released
  /-- What releases the lock later comes later in the history. -/
  later : ∀ ls s', runFrom G.step s ls = some s' → s.released <+: s'.released
  /-- As long as some call has not returned, some call can go on. -/
  goes_on : ∀ t, s.point t ≠ .idle → ∃ u, (G.step s (.enter u)).isSome ∨
    (G.step s (.access u)).isSome ∨ (G.step s (.release u)).isSome ∨ (G.step s (.answer u)).isSome

/-- An object whose calls refine operations in one step is linearizable. -/
theorem always_linearized {T : Type} {spec : ι → T → Except ε ρ × T} {rel : S → T → Prop}
    (href : ∀ i s t, rel s t →
      (G.perform i s).1 = (spec i t).1 ∧ rel (G.perform i s).2 (spec i t).2)
    {t₀ : T} (hrel : rel s₀ t₀) (ls : List (GuardedLabel τ ι)) :
    AlwaysAfter G.step (G.Linearized spec rel t₀) (start τ s₀) ls := by
  intro pre s _ hrun
  obtain ⟨a, ha⟩ := exists_explained_of_runFrom hrun
  obtain ⟨t, ht, hlegal⟩ := ha.legal.refine href hrel
  obtain ⟨hrecorded, hrealTime⟩ := recorded_of_runFrom hrun
  exact
    { sequential := ⟨t, hlegal, fun hfree => ha.object hfree ▸ ht⟩
      recorded := hrecorded
      realTime := hrealTime
      later := fun _ _ hlater => released_prefix_of_runFrom hlater
      goes_on := fun _ hpoint => exists_step_of_not_idle ha hpoint }

end Guarded

end Locks
