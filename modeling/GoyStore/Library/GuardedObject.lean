import GoyStore.Library.Effects
import GoyStore.Library.RwLock
import GoyStore.Library.Runs

/-!
# Objects behind a reader-writer lock

A `Guarded` object has methods that access it in several steps.  A call acquires the lock of the
object, makes its accesses one by one, releases the lock, and only then returns its result; a call
that holds the lock for reading makes only accesses that change nothing.  Tasks make calls at any
time, and one that waits for the lock may be given up.

In every run the calls are, in the order in which they release the lock, a sequential history of the
object (`exists_explained_of_runFrom`), and nobody waits for a lock that is not given back
(`exists_step_of_not_idle`).  `Legal.refine` carries such a history along a refinement of the
methods by operations in one step.
-/

namespace Locks

open Effects Runs

/-! ### Sequential histories -/

/-- A call with its result. -/
structure CallRecord (τ ι R : Type) where
  /-- The task that made the call. -/
  task : τ
  /-- The call. -/
  call : ι
  /-- Its result. -/
  result : R
  /-- The step of the run that made it. -/
  madeAt : ℕ

section Legal

variable {τ ι R S T : Type} {perform : ι → S → R × S} {spec : ι → T → R × T}

/-- The calls of the list, made one after the other, give their results and lead from one state to
another. -/
def Legal (perform : ι → S → R × S) : S → List (CallRecord τ ι R) → S → Prop
  | s, [], t => s = t
  | s, e :: log, t => (perform e.call s).1 = e.result ∧ Legal perform (perform e.call s).2 log t

/-- One more call. -/
lemma Legal.concat {s t : S} {log : List (CallRecord τ ι R)} (h : Legal perform s log t)
    {e : CallRecord τ ι R} (he : e.result = (perform e.call t).1) :
    Legal perform s (log ++ [e]) (perform e.call t).2 := by
  induction log generalizing s with
  | nil =>
    obtain rfl : s = t := h
    exact ⟨he.symm, rfl⟩
  | cons call log ih => exact ⟨h.1, ih h.2⟩

/-- A history of calls is a history of the operations that they refine. -/
theorem Legal.refine {rel : S → T → Prop}
    (href : ∀ i s t, rel s t →
      (perform i s).1 = (spec i t).1 ∧ rel (perform i s).2 (spec i t).2)
    {s s' : S} {t : T} {log : List (CallRecord τ ι R)} (hrel : rel s t)
    (h : Legal perform s log s') : ∃ t', rel s' t' ∧ Legal spec t log t' := by
  induction log generalizing s t with
  | nil =>
    obtain rfl : s = s' := h
    exact ⟨t, hrel, rfl⟩
  | cons e log ih =>
    obtain ⟨hresult, hrel'⟩ := href e.call s t hrel
    obtain ⟨t', ht', hlegal⟩ := ih hrel' h.2
    exact ⟨t', ht', hresult.symm.trans h.1, hlegal⟩

/-- What every operation keeps holds after a sequential history. -/
lemma Legal.invariant {I : T → Prop} (hI : ∀ i t, I t → I (spec i t).2) {t t' : T}
    {log : List (CallRecord τ ι R)} (ht : I t) (h : Legal spec t log t') : I t' := by
  induction log generalizing t with
  | nil =>
    obtain rfl : t = t' := h
    exact ht
  | cons e log ih => exact ih (hI _ t ht) h.2

/-- A history in two parts. -/
lemma legal_append_iff {t t' : T} {xs ys : List (CallRecord τ ι R)} :
    Legal spec t (xs ++ ys) t' ↔ ∃ u, Legal spec t xs u ∧ Legal spec u ys t' := by
  induction xs generalizing t with
  | nil => simp [Legal]
  | cons e xs ih => simp [Legal, ih, and_assoc]

end Legal

/-! ### The object and its tasks -/

/-- An object whose methods hold its lock around all their accesses. -/
structure Guarded (ι ε C : Type) (A : C → Type) (ρ S : Type) where
  /-- What an access does. -/
  serve : (c : C) → S → A c × S
  /-- How a call holds the lock. -/
  mode : ι → LockMode
  /-- The accesses of a call. -/
  body : ι → Prog ε C A ρ
  /-- A call that holds the lock for reading does not change the object. -/
  reads : ∀ i, mode i = .read → (body i).Makes fun c => ∀ s, (serve c s).2 = s

/-- Where a task stands. -/
inductive CallPoint (τ ι ε C : Type) (A : C → Type) (ρ : Type) where
  /-- It makes no call. -/
  | idle
  /-- Its call, made at the step `n`, waits for the lock. -/
  | waiting (i : ι) (n : ℕ)
  /-- Its call holds the lock; `rest` is what is left of its accesses. -/
  | inside (i : ι) (n : ℕ) (rest : Prog ε C A ρ)
  /-- Its call has released the lock and is about to return. -/
  | released (e : CallRecord τ ι (Except ε ρ))

/-- An object with its lock and the tasks that use it. -/
structure GuardedState (τ ι ε C : Type) (A : C → Type) (ρ S : Type) where
  /-- The object. -/
  object : S
  /-- Its lock. -/
  lock : RwLock τ
  /-- Where the tasks stand. -/
  point : τ → CallPoint τ ι ε C A ρ
  /-- For the statements: the number of steps so far. -/
  clock : ℕ
  /-- For the statements: the calls that have released the lock, in this order. -/
  released : List (CallRecord τ ι (Except ε ρ))
  /-- For the statements: the calls that have returned, and the step at which each did. -/
  returned : List (CallRecord τ ι (Except ε ρ) × ℕ)

/-- A step of a task. -/
inductive GuardedLabel (τ ι : Type) where
  /-- It makes a call. -/
  | call (t : τ) (i : ι)
  /-- It gives up a call that waits for the lock. -/
  | abandon (t : τ)
  /-- Its call acquires the lock. -/
  | enter (t : τ)
  /-- Its call makes an access. -/
  | access (t : τ)
  /-- Its call releases the lock. -/
  | release (t : τ)
  /-- Its call returns. -/
  | answer (t : τ)

/-- The call in which a task is, and the step at which it was made. -/
def CallPoint.current {τ ι ε C ρ : Type} {A : C → Type} : CallPoint τ ι ε C A ρ → Option (ι × ℕ)
  | .idle => none
  | .waiting i n => some (i, n)
  | .inside i n _ => some (i, n)
  | .released e => some (e.call, e.madeAt)

namespace Guarded

variable {τ ι ε C ρ S : Type} {A : C → Type} [DecidableEq τ] (G : Guarded ι ε C A ρ S)

/-- A call that is alone: its result and the object after it. -/
def perform (i : ι) (s : S) : Except ε ρ × S := (G.body i).run G.serve s

/-- No task has made a call. -/
def start (τ : Type) (s : S) : GuardedState τ ι ε C A ρ S := ⟨s, .free, fun _ => .idle, 0, [], []⟩

/-- A call releases the lock and has its result. -/
def finish (s : GuardedState τ ι ε C A ρ S) (e : CallRecord τ ι (Except ε ρ)) :
    Option (GuardedState τ ι ε C A ρ S) :=
  (s.lock.release e.task).map fun lock =>
    { s with
      lock
      point := Function.update s.point e.task (.released e)
      released := s.released ++ [e] }

/-- What a step does, but for the clock. -/
def move (s : GuardedState τ ι ε C A ρ S) :
    GuardedLabel τ ι → Option (GuardedState τ ι ε C A ρ S)
  | .call t i =>
    match s.point t with
    | .idle => some { s with point := Function.update s.point t (.waiting i s.clock) }
    | _ => none
  | .abandon t =>
    match s.point t with
    | .waiting _ _ => some { s with point := Function.update s.point t .idle }
    | _ => none
  | .enter t =>
    match s.point t with
    | .waiting i n => (s.lock.acquire (G.mode i) t).map fun lock =>
        { s with lock, point := Function.update s.point t (.inside i n (G.body i)) }
    | _ => none
  | .access t =>
    match s.point t with
    | .inside i n (.call c k) => some
        { s with
          object := (G.serve c s.object).2
          point := Function.update s.point t (.inside i n (k (G.serve c s.object).1)) }
    | _ => none
  | .release t =>
    match s.point t with
    | .inside i n (.done r) => finish s ⟨t, i, .ok r, n⟩
    | .inside i n (.fail e) => finish s ⟨t, i, .error e, n⟩
    | _ => none
  | .answer t =>
    match s.point t with
    | .released e => some
        { s with
          point := Function.update s.point t .idle
          returned := s.returned ++ [(e, s.clock)] }
    | _ => none

/-- The step function. -/
def step (s : GuardedState τ ι ε C A ρ S) (l : GuardedLabel τ ι) :
    Option (GuardedState τ ι ε C A ρ S) :=
  (G.move s l).map fun s' => { s' with clock := s.clock + 1 }

/-- The calls that have released the lock lead to the state `a`, and each call that is inside goes
on as it would alone from there. -/
structure Explained (s₀ : S) (s : GuardedState τ ι ε C A ρ S) (a : S) : Prop where
  /-- The calls that have released the lock. -/
  legal : Legal G.perform s₀ s.released a
  /-- The lock is held by the calls that are inside. -/
  held : ∀ t m, s.lock.mode t = some m ↔ ∃ i n p, s.point t = .inside i n p ∧ G.mode i = m
  /-- A call that is inside goes on as it would alone. -/
  rest : ∀ t i n p, s.point t = .inside i n p → p.run G.serve s.object = G.perform i a
  /-- A call that is inside for reading goes on reading. -/
  reads : ∀ t i n p, s.point t = .inside i n p → G.mode i = .read →
    p.Makes fun c => ∀ s, (G.serve c s).2 = s
  /-- Without a writer the object is as those calls left it. -/
  object : (∀ t, s.lock.mode t ≠ some .write) → s.object = a

/-! ### What a step does -/

/-- The step of each label, but for the clock. -/
inductive Moves (s : GuardedState τ ι ε C A ρ S) :
    GuardedLabel τ ι → GuardedState τ ι ε C A ρ S → Prop where
  /-- A task makes a call. -/
  | call {t : τ} (i : ι) (hpoint : s.point t = .idle) :
      Moves s (.call t i) { s with point := Function.update s.point t (.waiting i s.clock) }
  /-- A call is given up. -/
  | abandon {t : τ} {i : ι} {n : ℕ} (hpoint : s.point t = .waiting i n) :
      Moves s (.abandon t) { s with point := Function.update s.point t .idle }
  /-- A call acquires the lock. -/
  | enter {t : τ} {i : ι} {n : ℕ} {lock : RwLock τ} (hpoint : s.point t = .waiting i n)
      (hlock : s.lock.acquire (G.mode i) t = some lock) :
      Moves s (.enter t)
        { s with lock, point := Function.update s.point t (.inside i n (G.body i)) }
  /-- A call makes an access. -/
  | access {t : τ} {i : ι} {n : ℕ} {c : C} {k : A c → Prog ε C A ρ}
      (hpoint : s.point t = .inside i n (.call c k)) :
      Moves s (.access t)
        { s with
          object := (G.serve c s.object).2
          point := Function.update s.point t (.inside i n (k (G.serve c s.object).1)) }
  /-- A call releases the lock; it makes no more accesses. -/
  | release {t : τ} {i : ι} {n : ℕ} {p : Prog ε C A ρ} {r : Except ε ρ} {lock : RwLock τ}
      (hpoint : s.point t = .inside i n p) (hp : ∀ o, p.run G.serve o = (r, o))
      (hlock : s.lock.release t = some lock) :
      Moves s (.release t)
        { s with
          lock
          point := Function.update s.point t (.released ⟨t, i, r, n⟩)
          released := s.released ++ [⟨t, i, r, n⟩] }
  /-- A call returns. -/
  | answer {t : τ} {e : CallRecord τ ι (Except ε ρ)} (hpoint : s.point t = .released e) :
      Moves s (.answer t)
        { s with
          point := Function.update s.point t .idle
          returned := s.returned ++ [(e, s.clock)] }

variable {G} {s s' : GuardedState τ ι ε C A ρ S} {s₀ a : S} {t : τ}

/-- Every step is one of these. -/
lemma moves_of_step {l : GuardedLabel τ ι} (h : G.step s l = some s') :
    ∃ u, G.Moves s l u ∧ s' = { u with clock := s.clock + 1 } := by
  obtain ⟨u, hu, rfl⟩ := Option.map_eq_some_iff.mp h
  refine ⟨u, ?_, rfl⟩
  cases l with
  | call t i =>
    cases hpoint : s.point t with
    | idle =>
      simp only [move, hpoint, Option.some.injEq] at hu
      exact hu ▸ .call i hpoint
    | _ => simp [move, hpoint] at hu
  | abandon t =>
    cases hpoint : s.point t with
    | waiting i n =>
      simp only [move, hpoint, Option.some.injEq] at hu
      exact hu ▸ .abandon hpoint
    | _ => simp [move, hpoint] at hu
  | enter t =>
    cases hpoint : s.point t with
    | waiting i n =>
      simp only [move, hpoint] at hu
      obtain ⟨lock, hlock, rfl⟩ := Option.map_eq_some_iff.mp hu
      exact .enter hpoint hlock
    | _ => simp [move, hpoint] at hu
  | access t =>
    cases hpoint : s.point t with
    | inside i n p =>
      cases p with
      | call c k =>
        simp only [move, hpoint, Option.some.injEq] at hu
        exact hu ▸ .access hpoint
      | _ => simp [move, hpoint] at hu
    | _ => simp [move, hpoint] at hu
  | release t =>
    cases hpoint : s.point t with
    | inside i n p =>
      cases p with
      | done r =>
        simp only [move, hpoint] at hu
        obtain ⟨lock, hlock, rfl⟩ := Option.map_eq_some_iff.mp hu
        exact .release hpoint (fun _ => rfl) hlock
      | fail e =>
        simp only [move, hpoint] at hu
        obtain ⟨lock, hlock, rfl⟩ := Option.map_eq_some_iff.mp hu
        exact .release hpoint (fun _ => rfl) hlock
      | call c k => simp [move, hpoint] at hu
    | _ => simp [move, hpoint] at hu
  | answer t =>
    cases hpoint : s.point t with
    | released e =>
      simp only [move, hpoint, Option.some.injEq] at hu
      exact hu ▸ .answer hpoint
    | _ => simp [move, hpoint] at hu

/-! ### The history of the object -/

/-- Who is inside after one task has moved. -/
lemma update_eq_inside_iff {point : τ → CallPoint τ ι ε C A ρ} {x : CallPoint τ ι ε C A ρ} {u : τ}
    {i : ι} {n : ℕ} {p : Prog ε C A ρ} : Function.update point t x u = .inside i n p ↔
      (u = t ∧ x = .inside i n p) ∨ (u ≠ t ∧ point u = .inside i n p) := by
  by_cases hu : u = t
  · simp [hu]
  · simp [hu]

/-- A task that comes from a point outside the lock to another one changes nothing. -/
lemma Explained.move (h : G.Explained s₀ s a) {x : CallPoint τ ι ε C A ρ}
    (hout : ∀ i n p, s.point t ≠ .inside i n p) (hx : ∀ i n p, x ≠ .inside i n p) :
    G.Explained s₀ { s with point := Function.update s.point t x } a := by
  have hpoint : ∀ u i n p,
      Function.update s.point t x u = .inside i n p ↔ s.point u = .inside i n p := by
    intro u i n p
    rw [update_eq_inside_iff]
    refine ⟨fun h => h.elim (fun h => absurd h.2 (hx i n p)) And.right, fun h => .inr ⟨?_, h⟩⟩
    rintro rfl
    exact hout i n p h
  refine ⟨h.legal, fun u m => ?_, fun u i n p hu => ?_, fun u i n p hu => ?_, h.object⟩
  · simp only [hpoint, h.held u m]
  · exact h.rest u i n p ((hpoint u i n p).mp hu)
  · exact h.reads u i n p ((hpoint u i n p).mp hu)

/-- A call that acquires the lock finds the object as the earlier calls left it. -/
lemma Explained.enter (h : G.Explained s₀ s a) {i : ι} {n : ℕ} {lock : RwLock τ}
    (hlock : s.lock.acquire (G.mode i) t = some lock) (hpoint : s.point t = .waiting i n) :
    G.Explained s₀
      { s with lock, point := Function.update s.point t (.inside i n (G.body i)) } a := by
  have hmode := RwLock.mode_of_acquire hlock
  have hobject : s.object = a := by
    refine h.object fun u hu => ?_
    rw [RwLock.acquire_eq_none_of_mode_write hu] at hlock
    cases hlock
  refine ⟨h.legal, fun u m => ?_, fun u j k p hu => ?_, fun u j k p hu => ?_, fun _ => hobject⟩
  · simp only [hmode, update_eq_inside_iff]
    by_cases hut : u = t
    · subst hut
      simp only [Function.update_self, Option.some.injEq, CallPoint.inside.injEq]
      grind
    · simp only [Function.update_of_ne hut, h.held u m]
      grind
  · rcases update_eq_inside_iff.mp hu with ⟨rfl, hx⟩ | ⟨-, hu⟩
    · cases hx
      exact congrArg ((G.body i).run G.serve) hobject
    · exact h.rest u j k p hu
  · rcases update_eq_inside_iff.mp hu with ⟨rfl, hx⟩ | ⟨-, hu⟩
    · cases hx
      exact G.reads i
    · exact h.reads u j k p hu

/-- Beside a call that is inside for writing no other call is inside. -/
lemma Explained.alone (h : G.Explained s₀ s a) {i j : ι} {m n : ℕ} {p q : Prog ε C A ρ} {u : τ}
    (ht : s.point t = .inside i m p) (hwrite : G.mode i = .write)
    (hu : s.point u = .inside j n q) : u = t := by
  have hheld : s.lock.mode t = some .write := (h.held t _).mpr ⟨i, m, p, ht, hwrite⟩
  refine RwLock.eq_of_mode_write hheld fun hnone => ?_
  rw [(h.held u (G.mode j)).mpr ⟨j, n, q, hu, rfl⟩] at hnone
  cases hnone

/-- Of two calls that are inside, each is inside for reading. -/
lemma Explained.mode_eq_read (h : G.Explained s₀ s a) {i j : ι} {m n : ℕ} {p q : Prog ε C A ρ}
    {u : τ} (ht : s.point t = .inside i m p) (hu : s.point u = .inside j n q) (hut : u ≠ t) :
    G.mode i = .read := by
  cases hmode : G.mode i with
  | read => rfl
  | write => exact absurd (h.alone ht hmode hu) hut

/-- After an access the calls that are inside still go on as they would alone. -/
lemma Explained.access (h : G.Explained s₀ s a) {i : ι} {n : ℕ} {c : C} {k : A c → Prog ε C A ρ}
    (hpoint : s.point t = .inside i n (.call c k)) :
    G.Explained s₀
      { s with
        object := (G.serve c s.object).2
        point := Function.update s.point t (.inside i n (k (G.serve c s.object).1)) } a := by
  have hread : G.mode i = .read → (G.serve c s.object).2 = s.object :=
    fun hm => (h.reads t i n _ hpoint hm).1 s.object
  refine ⟨h.legal, fun u m => ?_, fun u j m p hu => ?_, fun u j m p hu hm => ?_, fun hfree => ?_⟩
  · rw [h.held u m]
    simp only [update_eq_inside_iff]
    by_cases hut : u = t
    · subst hut
      simp only [hpoint, CallPoint.inside.injEq]
      grind
    · grind
  · rcases update_eq_inside_iff.mp hu with ⟨rfl, hx⟩ | ⟨hut, hu⟩
    · cases hx
      exact h.rest u i n _ hpoint
    · have hobject := hread (h.mode_eq_read hpoint hu hut)
      exact (congrArg (p.run G.serve) hobject).trans (h.rest u j m p hu)
  · rcases update_eq_inside_iff.mp hu with ⟨rfl, hx⟩ | ⟨-, hu⟩
    · cases hx
      exact (h.reads u i n _ hpoint hm).2 _
    · exact h.reads u j m p hu hm
  · refine (hread ?_).trans (h.object hfree)
    cases hmode : G.mode i with
    | read => rfl
    | write => exact absurd ((h.held t _).mpr ⟨i, n, _, hpoint, hmode⟩) (hfree t)

/-- A call that releases the lock is the next one of the history. -/
lemma Explained.release (h : G.Explained s₀ s a) {i : ι} {n : ℕ} {p : Prog ε C A ρ}
    {r : Except ε ρ} {lock : RwLock τ} (hpoint : s.point t = .inside i n p)
    (hp : p.run G.serve s.object = (r, s.object)) (hlock : s.lock.release t = some lock) :
    G.Explained s₀
      { s with
        lock
        point := Function.update s.point t (.released ⟨t, i, r, n⟩)
        released := s.released ++ [⟨t, i, r, n⟩] } (G.perform i a).2 := by
  have hmode := RwLock.mode_of_release hlock
  have hperform : G.perform i a = (r, s.object) := (h.rest t i n p hpoint).symm.trans hp
  have hlegal := h.legal.concat (e := ⟨t, i, r, n⟩) (congrArg Prod.fst hperform).symm
  rw [hperform] at hlegal ⊢
  have hinside : ∀ {u j m q},
      Function.update s.point t (.released ⟨t, i, r, n⟩) u = .inside j m q →
        u ≠ t ∧ s.point u = .inside j m q := by
    intro u j m q hu
    rcases update_eq_inside_iff.mp hu with ⟨-, hx⟩ | hu
    · cases hx
    · exact hu
  refine ⟨hlegal, fun u m => ?_, fun u j m q hu => ?_, fun u j m q hu => ?_, fun _ => rfl⟩
  · simp only [hmode, update_eq_inside_iff]
    by_cases hut : u = t
    · simp [hut]
    · simp [hut, h.held u m]
  · obtain ⟨hut, hu⟩ := hinside hu
    -- another call is inside, so both read, and the object is as the earlier calls left it
    have hobject : s.object = a := by
      refine h.object fun v hv => ?_
      obtain ⟨l, k, o, hl, hwrite⟩ := (h.held v _).mp hv
      exact hut ((h.alone hl hwrite hu).trans (h.alone hl hwrite hpoint).symm)
    have hrest := h.rest u j m q hu
    rwa [← hobject] at hrest
  · exact h.reads u j m q (hinside hu).2

/-- Every step keeps the object explained by the calls that have released the lock. -/
lemma Explained.step (h : G.Explained s₀ s a) {l : GuardedLabel τ ι} (hl : G.step s l = some s') :
    ∃ a', G.Explained s₀ s' a' := by
  obtain ⟨u, hu, rfl⟩ := moves_of_step hl
  suffices hmove : ∃ a', G.Explained s₀ u a' by
    obtain ⟨a', ha'⟩ := hmove
    exact ⟨a', ha'.legal, ha'.held, ha'.rest, ha'.reads, ha'.object⟩
  cases hu with
  | call i hpoint =>
    exact ⟨a, h.move (fun j n p hin => by cases hpoint.symm.trans hin)
      fun j n p hin => by cases hin⟩
  | abandon hpoint =>
    exact ⟨a, h.move (fun j n p hin => by cases hpoint.symm.trans hin)
      fun j n p hin => by cases hin⟩
  | enter hpoint hlock => exact ⟨a, h.enter hlock hpoint⟩
  | access hpoint => exact ⟨a, h.access hpoint⟩
  | release hpoint hp hlock => exact ⟨_, h.release hpoint (hp _) hlock⟩
  | answer hpoint =>
    have hidle := h.move (x := .idle) (fun j n p hin => by cases hpoint.symm.trans hin)
      fun j n p hin => by cases hin
    exact ⟨a, hidle.legal, hidle.held, hidle.rest, hidle.reads, hidle.object⟩

/-- At the start nothing has to be explained. -/
lemma explained_start (s₀ : S) : G.Explained s₀ (start τ s₀) s₀ where
  legal := rfl
  held t m := by simp [start]
  rest t i n p hp := by cases hp
  reads t i n p hp := by cases hp
  object _ := rfl

/-- In every state of every run the object is explained by the calls that have released the lock. -/
theorem exists_explained_of_runFrom {ls : List (GuardedLabel τ ι)}
    (h : runFrom G.step (start τ s₀) ls = some s) : ∃ a, G.Explained s₀ s a := by
  refine invariant_of_runFrom (I := fun s => ∃ a, G.Explained s₀ s a) ?_
    ⟨s₀, explained_start s₀⟩ h
  rintro s l s' ⟨a, ha⟩ hl
  exact ha.step hl

/-- A call that has released the lock stays in the history, and one that does so later comes after
it. -/
lemma released_prefix_of_step {l : GuardedLabel τ ι} (hl : G.step s l = some s') :
    s.released <+: s'.released := by
  obtain ⟨u, hu, rfl⟩ := moves_of_step hl
  cases hu with
  | release hpoint hp hlock => exact List.prefix_append _ _
  | _ => exact List.prefix_rfl

/-- Along a run the history only grows at its end. -/
theorem released_prefix_of_runFrom {ls : List (GuardedLabel τ ι)}
    (h : runFrom G.step s ls = some s') : s.released <+: s'.released :=
  invariant_of_runFrom (I := fun s' => s.released <+: s'.released)
    (fun _ _ _ hs hl => hs.trans (released_prefix_of_step hl)) List.prefix_rfl h

/-- As long as some task is in a call, some call can acquire the lock, make an access, release the
lock or return. -/
theorem exists_step_of_not_idle (h : G.Explained s₀ s a) (ht : s.point t ≠ .idle) :
    ∃ u, (G.step s (.enter u)).isSome ∨ (G.step s (.access u)).isSome ∨
      (G.step s (.release u)).isSome ∨ (G.step s (.answer u)).isSome := by
  -- a call that is inside can go on or release the lock
  have hinside : ∀ u i n p, s.point u = .inside i n p →
      (G.step s (.access u)).isSome ∨ (G.step s (.release u)).isSome := by
    intro u i n p hu
    have hheld : s.lock.mode u ≠ none := by
      rw [(h.held u _).mpr ⟨i, n, p, hu, rfl⟩]
      exact Option.some_ne_none _
    obtain ⟨lock, hlock⟩ := Option.isSome_iff_exists.mp (RwLock.release_isSome_of_mode hheld)
    cases p with
    | call c k => exact .inl (by simp [Guarded.step, Guarded.move, hu])
    | done r => exact .inr (by simp [Guarded.step, Guarded.move, hu, Guarded.finish, hlock])
    | fail e => exact .inr (by simp [Guarded.step, Guarded.move, hu, Guarded.finish, hlock])
  cases hpoint : s.point t with
  | idle => exact absurd hpoint ht
  | inside i n p => exact ⟨t, .inr ((hinside t i n p hpoint).imp_right .inl)⟩
  | released e => exact ⟨t, .inr (.inr (.inr (by simp [Guarded.step, Guarded.move, hpoint])))⟩
  | waiting i n =>
    cases hlock : s.lock.acquire (G.mode i) t with
    | some lock => exact ⟨t, .inl (by simp [Guarded.step, Guarded.move, hpoint, hlock])⟩
    | none =>
      obtain ⟨u, hu⟩ := RwLock.exists_mode_of_acquire_eq_none hlock
      obtain ⟨m, hm⟩ := Option.ne_none_iff_exists'.mp hu
      obtain ⟨j, k, p, hinsideu, -⟩ := (h.held u m).mp hm
      exact ⟨u, .inr ((hinside u j k p hinsideu).imp_right .inl)⟩

end Guarded

end Locks
