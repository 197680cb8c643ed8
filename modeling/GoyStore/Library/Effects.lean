import Mathlib.Data.List.Basic

/-!
# Programs that call an environment

A `Prog` is a program as the tree of its calls: it returns, fails, or makes a call and goes on with
the answer.  `C` is the type of the calls, `A c` that of the answers to `c`, `ε` that of the
errors.

`Makes` says that a program makes good calls only, and what these keep, it keeps (`Makes.run_rel`).
`Always allowed p Q` says that `Q` holds of the calls and the result of every run of `p` in which
the environment gives allowed answers only.  `Confined` is the case of a safety property of the
calls: the program fails, or all its calls are good.

A `Protocol` says which calls a program may make, by what it knows from the answers so far;
`Follows` says that it keeps to them, whatever it is answered.
-/

namespace Effects

/-- A program over an environment. -/
inductive Prog (ε C : Type) (A : C → Type) (ρ : Type) where
  /-- Return a result. -/
  | done (r : ρ)
  /-- Fail with an error. -/
  | fail (e : ε)
  /-- Make a call and go on with the answer. -/
  | call (c : C) (k : A c → Prog ε C A ρ)

namespace Prog

variable {ε C : Type} {A : C → Type} {ρ σ : Type}

/-- Run one program and go on with its result. -/
def bind : Prog ε C A ρ → (ρ → Prog ε C A σ) → Prog ε C A σ
  | .done r, f => f r
  | .fail e, _ => .fail e
  | .call c k, f => .call c fun a => (k a).bind f

instance : Monad (Prog ε C A) where
  pure := .done
  bind := .bind

/-- Make a call and return its answer. -/
def perform (c : C) : Prog ε C A (A c) := .call c .done

/-- Return the value of an `Except`, or fail with its error. -/
def ofExcept : Except ε ρ → Prog ε C A ρ
  | .ok r => .done r
  | .error e => .fail e

/-- Run one program and go on with another, whatever the result of the first is. -/
def andThen : Prog ε C A σ → Prog ε C A ρ → Prog ε C A ρ
  | .done _, q => q
  | .fail _, q => q
  | .call c k, q => .call c fun a => (k a).andThen q

/-- Run a program and then another one, however the first ends; the result is that of the first. -/
def ensuring : Prog ε C A ρ → Prog ε C A σ → Prog ε C A ρ
  | .done r, q => q.andThen (.done r)
  | .fail e, q => q.andThen (.fail e)
  | .call c k, q => .call c fun a => (k a).ensuring q

/-- Run a program over an environment with a state that answers every call. -/
def run {S : Type} (serve : (c : C) → S → A c × S) : Prog ε C A ρ → S → Except ε ρ × S
  | .done r, s => (.ok r, s)
  | .fail e, s => (.error e, s)
  | .call c k, s => (k (serve c s).1).run serve (serve c s).2

/-- `Q` holds of the calls and the result of every run with allowed answers. -/
def Always (allowed : ∀ c, A c → Prop) : Prog ε C A ρ → (List C → Except ε ρ → Prop) → Prop
  | .done r, Q => Q [] (.ok r)
  | .fail e, Q => Q [] (.error e)
  | .call c k, Q => ∀ a, allowed c a → (k a).Always allowed fun cs r => Q (c :: cs) r

variable {allowed : ∀ c, A c → Prop}

/-- A weaker property of all runs. -/
lemma Always.mono {p : Prog ε C A ρ} {Q R : List C → Except ε ρ → Prop}
    (h : p.Always allowed Q) (hQR : ∀ cs r, Q cs r → R cs r) : p.Always allowed R := by
  induction p generalizing Q R with
  | done r => exact hQR [] _ h
  | fail e => exact hQR [] _ h
  | call c k ih => exact fun a ha => ih a (h a ha) fun cs r => hQR (c :: cs) r

/-- The runs of a program that goes on with another. -/
lemma always_bind {p : Prog ε C A ρ} {f : ρ → Prog ε C A σ}
    {Q : List C → Except ε σ → Prop} :
    (p >>= f).Always allowed Q ↔ p.Always allowed fun cs r =>
      match r with
      | .ok r => (f r).Always allowed fun cs' r' => Q (cs ++ cs') r'
      | .error e => Q cs (.error e) := by
  induction p generalizing Q with
  | done r => exact Iff.rfl
  | fail e => exact Iff.rfl
  | call c k ih =>
    refine forall_congr' fun a => forall_congr' fun _ => ?_
    exact ih a

/-! ### Runs over an environment with a state -/

section Run

variable {S : Type} {serve : (c : C) → S → A c × S} {p : Prog ε C A ρ} {s s' : S}

/-- A program that returns a result goes on. -/
lemma run_bind_of_ok {r : ρ} (h : p.run serve s = (.ok r, s')) (f : ρ → Prog ε C A σ) :
    (p >>= f).run serve s = (f r).run serve s' := by
  induction p generalizing s with
  | done r' =>
    cases h
    rfl
  | fail e => cases h
  | call c k ih => exact ih (serve c s).1 h

/-- A program that fails does not go on. -/
lemma run_bind_of_error {e : ε} (h : p.run serve s = (.error e, s')) (f : ρ → Prog ε C A σ) :
    (p >>= f).run serve s = (.error e, s') := by
  induction p generalizing s with
  | done r => cases h
  | fail e' =>
    cases h
    rfl
  | call c k ih => exact ih (serve c s).1 h

/-- A program that returns a result has run its parts one after the other. -/
lemma of_run_bind_eq_ok {f : ρ → Prog ε C A σ} {r : σ} (h : (p >>= f).run serve s = (.ok r, s')) :
    ∃ x s₁, p.run serve s = (.ok x, s₁) ∧ (f x).run serve s₁ = (.ok r, s') := by
  rcases hp : p.run serve s with ⟨e | x, s₁⟩
  · rw [run_bind_of_error hp] at h
    cases h
  · exact ⟨x, s₁, rfl, (run_bind_of_ok hp f).symm.trans h⟩

/-- A value or an error makes no call. -/
lemma run_ofExcept (r : Except ε ρ) : (ofExcept r : Prog ε C A ρ).run serve s = (r, s) := by
  rcases r with e | r
  · rfl
  · rfl

/-- A program that starts with a call goes on with its answer. -/
lemma run_call {c : C} {a : A c} (h : serve c s = (a, s')) (k : A c → Prog ε C A ρ) :
    (Prog.call c k).run serve s = (k a).run serve s' := by
  rw [run, h]

/-- A program that starts with a call and goes on with another. -/
lemma run_call_bind {c : C} {a : A c} (h : serve c s = (a, s')) (k : A c → Prog ε C A ρ)
    (f : ρ → Prog ε C A σ) :
    ((Prog.call c k : Prog ε C A ρ) >>= f).run serve s = (k a >>= f).run serve s' :=
  run_call h fun a => k a >>= f

/-- A call before a program that uses its answer. -/
lemma run_perform_bind {c : C} {a : A c} (h : serve c s = (a, s')) (f : A c → Prog ε C A σ) :
    (perform c >>= f).run serve s = (f a).run serve s' :=
  run_call h f

end Run

/-! ### Frame rule -/

/-- Every call that the program can make is good, whatever it is answered. -/
def Makes (good : C → Prop) : Prog ε C A ρ → Prop
  | .done _ => True
  | .fail _ => True
  | .call c k => good c ∧ ∀ a, (k a).Makes good

/-- Calls before calls. -/
lemma Makes.bind {good : C → Prop} {p : Prog ε C A ρ} {f : ρ → Prog ε C A σ} (hp : p.Makes good)
    (hf : ∀ r, (f r).Makes good) : (p >>= f).Makes good := by
  induction p with
  | done r => exact hf r
  | fail e => trivial
  | call c k ih => exact ⟨hp.1, fun a => ih a (hp.2 a)⟩

/-- A value or an error makes no call. -/
lemma makes_ofExcept {good : C → Prop} (r : Except ε ρ) :
    (ofExcept r : Prog ε C A ρ).Makes good := by
  rcases r with e | r
  · trivial
  · trivial

/-- One call. -/
lemma makes_perform {good : C → Prop} {c : C} (hc : good c) :
    (perform c : Prog ε C A (A c)).Makes good :=
  ⟨hc, fun _ => trivial⟩

/-- If there is nothing to demand of the calls, every program makes such calls only. -/
lemma makes_of_forall {good : C → Prop} (h : ∀ c, good c) (p : Prog ε C A ρ) : p.Makes good := by
  induction p with
  | done r => trivial
  | fail e => trivial
  | call c k ih => exact ⟨h c, ih⟩

/-- What every good call keeps, a program that makes good calls only keeps. -/
theorem Makes.run_rel {S : Type} {serve : (c : C) → S → A c × S} {good : C → Prop}
    {R : S → S → Prop} (hrefl : ∀ s, R s s) (htrans : ∀ s t u, R s t → R t u → R s u)
    (hserve : ∀ c s, good c → R s (serve c s).2) {p : Prog ε C A ρ} (hp : p.Makes good) (s : S) :
    R s (p.run serve s).2 := by
  induction p generalizing s with
  | done r => exact hrefl s
  | fail e => exact hrefl s
  | call c k ih => exact htrans _ _ _ (hserve c s hp.1) (ih _ (hp.2 _) _)

/-! ### Safety of the calls -/

/-- Every run with allowed answers fails. -/
def Fails (allowed : ∀ c, A c → Prop) (p : Prog ε C A ρ) : Prop :=
  p.Always allowed fun _ r => ∃ e, r = .error e

/-- Every run with allowed answers fails or makes good calls only. -/
def Confined (allowed : ∀ c, A c → Prop) (good : C → Prop) (p : Prog ε C A ρ) : Prop :=
  p.Always allowed fun cs r => (∃ e, r = .error e) ∨ ∀ c ∈ cs, good c

variable {good : C → Prop}

/-- A program that fails is confined. -/
lemma Fails.confined {p : Prog ε C A ρ} (h : p.Fails allowed) : p.Confined allowed good :=
  Always.mono h fun _ _ he => Or.inl he

/-- A program that returns is confined. -/
lemma confined_done (r : ρ) : (Prog.done r : Prog ε C A ρ).Confined allowed good :=
  Or.inr (by simp)

/-- A failure is confined. -/
lemma confined_fail (e : ε) : (Prog.fail e : Prog ε C A ρ).Confined allowed good :=
  Or.inl ⟨e, rfl⟩

/-- A good call before confined programs. -/
lemma confined_call {c : C} {k : A c → Prog ε C A ρ} (hc : good c)
    (hk : ∀ a, allowed c a → (k a).Confined allowed good) :
    (Prog.call c k).Confined allowed good := by
  intro a ha
  refine Always.mono (hk a ha) ?_
  rintro cs r (he | hcs)
  · exact Or.inl he
  · refine Or.inr fun c' hc' => ?_
    rcases List.mem_cons.mp hc' with rfl | hmem
    · exact hc
    · exact hcs c' hmem

/-- A confined program before confined programs. -/
lemma Confined.bind {p : Prog ε C A ρ} {f : ρ → Prog ε C A σ} (hp : p.Confined allowed good)
    (hf : ∀ r, (f r).Confined allowed good) : (p >>= f).Confined allowed good := by
  refine always_bind.mpr (Always.mono hp ?_)
  rintro cs (e | r) hcs
  · exact Or.inl ⟨e, rfl⟩
  · rcases hcs with ⟨e, he⟩ | hcs
    · cases he
    · refine Always.mono (hf r) ?_
      rintro cs' r' (he | hcs')
      · exact Or.inl he
      · refine Or.inr fun c hc => ?_
        rcases List.mem_append.mp hc with hmem | hmem
        · exact hcs c hmem
        · exact hcs' c hmem

/-- A program whose continuation always fails. -/
lemma Fails.of_bind {p : Prog ε C A ρ} {f : ρ → Prog ε C A σ}
    (hf : ∀ r, (f r).Fails allowed) : (p >>= f).Fails allowed := by
  induction p with
  | done r => exact hf r
  | fail e => exact ⟨e, rfl⟩
  | call c k ih => exact fun a _ => ih a

/-- A program that fails, whatever comes after it. -/
lemma Fails.bind {p : Prog ε C A ρ} (hp : p.Fails allowed) (f : ρ → Prog ε C A σ) :
    (p >>= f).Fails allowed := by
  refine always_bind.mpr (Always.mono hp ?_)
  rintro cs r ⟨e, rfl⟩
  exact ⟨e, rfl⟩

/-! ### Protocols -/

end Prog

/-- What a program may call, by what it knows. -/
structure Protocol (κ C : Type) (A : C → Type) where
  /-- The calls that are allowed. -/
  pre : κ → C → Prop
  /-- What is known after an answer. -/
  next : κ → (c : C) → A c → κ

namespace Prog

variable {κ ε C : Type} {A : C → Type} {ρ σ : Type} {P : Protocol κ C A}

/-- Every run of the program keeps to the protocol, and `Q` holds of what is known at its end and of
its result. -/
def Follows (P : Protocol κ C A) (Q : κ → Except ε ρ → Prop) : Prog ε C A ρ → κ → Prop
  | .done r, s => Q s (.ok r)
  | .fail e, s => Q s (.error e)
  | .call c k, s => P.pre s c ∧ ∀ a, (k a).Follows P Q (P.next s c a)

/-- A weaker property of the end. -/
lemma Follows.mono {Q R : κ → Except ε ρ → Prop} (hQR : ∀ s r, Q s r → R s r)
    {p : Prog ε C A ρ} {s : κ} (h : p.Follows P Q s) : p.Follows P R s := by
  induction p generalizing s with
  | done r => exact hQR s _ h
  | fail e => exact hQR s _ h
  | call c k ih => exact ⟨h.1, fun a => ih a (h.2 a)⟩

/-- A program that goes on with another. -/
lemma Follows.bind {Q : κ → Except ε σ → Prop} {f : ρ → Prog ε C A σ} {p : Prog ε C A ρ} {s : κ}
    (h : p.Follows P (fun s r => match r with
      | .ok r => (f r).Follows P Q s
      | .error e => Q s (.error e)) s) : (p >>= f).Follows P Q s := by
  induction p generalizing s with
  | done r => exact h
  | fail e => exact h
  | call c k ih => exact ⟨h.1, fun a => ih a (h.2 a)⟩

/-- A program before another, whatever its result is. -/
lemma Follows.andThen {Q : κ → Except ε ρ → Prop} {q : Prog ε C A ρ} {p : Prog ε C A σ} {s : κ}
    (h : p.Follows P (fun s _ => q.Follows P Q s) s) : (p.andThen q).Follows P Q s := by
  induction p generalizing s with
  | done r => exact h
  | fail e => exact h
  | call c k ih => exact ⟨h.1, fun a => ih a (h.2 a)⟩

/-- A program with another one at its end. -/
lemma Follows.ensuring {Q : κ → Except ε ρ → Prop} {q : Prog ε C A σ} {p : Prog ε C A ρ} {s : κ}
    (h : p.Follows P (fun s r => q.Follows P (fun s' _ => Q s' r) s) s) :
    (p.ensuring q).Follows P Q s := by
  induction p generalizing s with
  | done r => exact Follows.andThen h
  | fail e => exact Follows.andThen h
  | call c k ih => exact ⟨h.1, fun a => ih a (h.2 a)⟩

end Prog

end Effects
