import Mathlib.Logic.Function.Basic
import Mathlib.Order.Basic

/-!
# Maps whose entries expire

An expiring map gives every entry an optional deadline, from which on the entry counts as absent
until it is written again.  A plain map takes the same calls and ignores the deadlines.

`answers_eq_iff_readsLive` says when a plain map gives the answers of the expiring one: exactly
along the calls none of which reads an entry that has expired.

Times are of any type with a decidable order; `deadline` is the time at which a time to live that
starts at a given time ends.
-/

namespace ExpiringMap

/-- A call, with times to live of type `δ`. -/
inductive Call (κ ν δ : Type) where
  /-- Read the value of a key. -/
  | get (key : κ)
  /-- Write a value. -/
  | set (key : κ) (value : ν) (ttl : Option δ)
  /-- Remove a key. -/
  | delete (key : κ)
  /-- Ask for a key. -/
  | contains (key : κ)
  /-- Write a value unless the key is there. -/
  | setIfNotExists (key : κ) (value : ν) (ttl : Option δ)

/-- What a call returns. -/
inductive Answer (ν : Type) where
  /-- The value of a key. -/
  | value (found : Option ν)
  /-- Nothing. -/
  | done
  /-- Whether a key is there, or was written. -/
  | flag (b : Bool)
  deriving DecidableEq

/-- The key that a call reads. -/
def Call.reads {κ ν δ : Type} : Call κ ν δ → Option κ
  | .get key => some key
  | .contains key => some key
  | .setIfNotExists key _ _ => some key
  | _ => none

/-- Timed calls one after the other: the answers. -/
def answers {σ κ ν δ τ : Type} (perform : τ → σ → Call κ ν δ → σ × Answer ν) :
    σ → List (τ × Call κ ν δ) → List (Answer ν)
  | _, [] => []
  | s, (now, c) :: calls =>
    (perform now s c).2 :: answers perform (perform now s c).1 calls

/-- A value with its deadline. -/
structure Entry (ν τ : Type) where
  /-- The value. -/
  value : ν
  /-- The time from which on the entry counts as absent. -/
  deadline : Option τ

variable {κ ν δ τ : Type} [DecidableEq κ]

/-- A call of a plain map. -/
def performPlain (m : κ → Option ν) : Call κ ν δ → (κ → Option ν) × Answer ν
  | .get key => (m, .value (m key))
  | .set key value _ => (Function.update m key (some value), .done)
  | .delete key => (Function.update m key none, .done)
  | .contains key => (m, .flag (m key).isSome)
  | .setIfNotExists key value _ =>
    if (m key).isSome then (m, .flag false)
    else (Function.update m key (some value), .flag true)

/-- A store whose contents are a plain map gives the answers of the plain map. -/
theorem answers_eq_answers_plain {σ : Type} {perform : τ → σ → Call κ ν δ → σ × Answer ν}
    (contents : σ → κ → Option ν)
    (h : ∀ now s c, (contents (perform now s c).1, (perform now s c).2) =
      performPlain (contents s) c) (s : σ) (calls : List (τ × Call κ ν δ)) :
    answers perform s calls = answers (fun _ => performPlain) (contents s) calls := by
  induction calls generalizing s with
  | nil => rfl
  | cons call calls ih =>
    obtain ⟨now, c⟩ := call
    rw [answers, answers, ih, ← h now s c]

variable [LE τ] [DecidableLE τ]

/-- The deadline has passed. -/
def Entry.expired (now : τ) (e : Entry ν τ) : Bool := e.deadline.any (· ≤ now)

/-- The value of a key that is there and has not expired. -/
def live (now : τ) (m : κ → Option (Entry ν τ)) (key : κ) : Option ν :=
  match m key with
  | some e => if e.expired now then none else some e.value
  | none => none

/-- A call of an expiring map. -/
def perform (deadline : τ → δ → τ) (now : τ) (m : κ → Option (Entry ν τ)) :
    Call κ ν δ → (κ → Option (Entry ν τ)) × Answer ν
  | .get key => (m, .value (live now m key))
  | .set key value ttl =>
    (Function.update m key (some ⟨value, ttl.map (deadline now)⟩), .done)
  | .delete key => (Function.update m key none, .done)
  | .contains key => (m, .flag (live now m key).isSome)
  | .setIfNotExists key value ttl =>
    if (live now m key).isSome then (m, .flag false)
    else (Function.update m key (some ⟨value, ttl.map (deadline now)⟩), .flag true)

/-- The call reads an entry that has expired. -/
def ReadsExpired (now : τ) (m : κ → Option (Entry ν τ)) (c : Call κ ν δ) : Prop :=
  ∃ key e, c.reads = some key ∧ m key = some e ∧ e.expired now = true

/-- No call reads an entry that has expired. -/
def ReadsLive (deadline : τ → δ → τ) : (κ → Option (Entry ν τ)) → List (τ × Call κ ν δ) → Prop
  | _, [] => True
  | m, (now, c) :: calls =>
    ¬ ReadsExpired now m c ∧ ReadsLive deadline (perform deadline now m c).1 calls

/-- The values of a map, expired or not. -/
def values (m : κ → Option (Entry ν τ)) (key : κ) : Option ν := (m key).map Entry.value

variable {deadline : τ → δ → τ} {now : τ} {m : κ → Option (Entry ν τ)}

omit [DecidableEq κ] in
/-- An entry that has expired is absent. -/
lemma live_of_expired {key : κ} {e : Entry ν τ} (he : m key = some e)
    (hexpired : e.expired now = true) : live now m key = none := by
  rw [live, he]
  exact if_pos hexpired

omit [DecidableEq κ] in
/-- Unless its entry has expired, the value of a key is live. -/
lemma live_eq_values {key : κ} (h : ∀ e, m key = some e → ¬ e.expired now = true) :
    live now m key = values m key := by
  rw [live, values]
  cases hm : m key with
  | none => rfl
  | some e => exact if_neg (h e hm)

omit [LE τ] [DecidableLE τ] in
/-- The values after a write. -/
lemma values_update (m : κ → Option (Entry ν τ)) (key : κ) (o : Option (Entry ν τ)) :
    values (Function.update m key o) = Function.update (values m) key (o.map Entry.value) := by
  funext key'
  by_cases hkey : key' = key
  · subst hkey
    simp [values]
  · simp [values, hkey]

/-- A call that reads no expired entry does to the values what it does to a plain map, and answers
the same. -/
lemma performPlain_values {c : Call κ ν δ} (h : ¬ ReadsExpired now m c) :
    performPlain (values m) c =
      (values (perform deadline now m c).1, (perform deadline now m c).2) := by
  have hlive : ∀ key, c.reads = some key → live now m key = values m key := fun key hkey =>
    live_eq_values fun e he hexpired => h ⟨key, e, hkey, he, hexpired⟩
  cases c with
  | get key => rw [performPlain, perform, hlive key rfl]
  | set key value ttl =>
    rw [performPlain, perform, values_update]
    rfl
  | delete key =>
    rw [performPlain, perform, values_update]
    rfl
  | contains key => rw [performPlain, perform, hlive key rfl]
  | setIfNotExists key value ttl =>
    rw [performPlain, perform, hlive key rfl]
    split_ifs
    · rfl
    · rw [values_update]
      rfl

/-- A call that reads an expired entry is answered differently by a plain map. -/
lemma performPlain_ne {c : Call κ ν δ} (h : ReadsExpired now m c) :
    (performPlain (values m) c).2 ≠ (perform deadline now m c).2 := by
  obtain ⟨key, e, hreads, he, hexpired⟩ := h
  have hlive : live now m key = none := live_of_expired he hexpired
  have hvalue : values m key = some e.value := by rw [values, he, Option.map_some]
  cases c with
  | get key' =>
    obtain rfl := Option.some.inj hreads
    simp [performPlain, perform, hlive, hvalue]
  | contains key' =>
    obtain rfl := Option.some.inj hreads
    simp [performPlain, perform, hlive, hvalue]
  | setIfNotExists key' value ttl =>
    obtain rfl := Option.some.inj hreads
    simp [performPlain, perform, hlive, hvalue]
  | set => cases hreads
  | delete => cases hreads

/-- A plain map gives the answers of the expiring one if and only if no call reads an entry that has
expired. -/
theorem answers_eq_iff_readsLive (m : κ → Option (Entry ν τ)) (calls : List (τ × Call κ ν δ)) :
    answers (fun _ => performPlain) (values m) calls = answers (perform deadline) m calls ↔
      ReadsLive deadline m calls := by
  induction calls generalizing m with
  | nil => exact ⟨fun _ => trivial, fun _ => rfl⟩
  | cons call calls ih =>
    obtain ⟨now, c⟩ := call
    rw [answers, answers, ReadsLive, List.cons.injEq]
    by_cases hexpired : ReadsExpired now m c
    · exact ⟨fun h => absurd h.1 (performPlain_ne hexpired), fun h => absurd hexpired h.1⟩
    · rw [performPlain_values hexpired, ih]
      exact and_congr (iff_of_true rfl hexpired) Iff.rfl

end ExpiringMap
