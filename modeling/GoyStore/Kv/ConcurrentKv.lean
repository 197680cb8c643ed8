import GoyStore.Kv.TimeToLive
import GoyStore.Library.GuardedHistory

/-!
# The in-memory key-value stores under concurrent callers

A method of `MemoryKvStore` of the Rust library or of `memoryKV` of the Go library holds the lock
of the map while it looks a key up, inserts or removes it; `set_if_not_exists` looks the key up and
then inserts it.  Other calls come at any time, and a Rust call that waits for the lock is dropped
when its timeout elapses.

In every run the calls are, in the order in which they release the lock, a sequential history of the
store; a call that returned before another one was made comes before it.  A `set_if_not_exists`
writes if and only if the key was not there at the calls that released the lock earlier, so between
two that write one key a delete of it has released the lock (`kv_linearizable`).
-/

namespace GoyStore

open Effects Runs Locks ExpiringMap

/-! ### Accesses -/

/-- An access to the map of a store. -/
inductive KvAccess where
  /-- Look a key up. -/
  | lookup (key : String)
  /-- Insert a value. -/
  | insert (key : String) (value : List UInt8)
  /-- Remove a key. -/
  | remove (key : String)

namespace KvAccess

/-- What an access gives. -/
def Answer : KvAccess → Type
  | .lookup _ => Option (List UInt8)
  | _ => Unit

/-- What an access does. -/
def serve : (c : KvAccess) → (String → Option (List UInt8)) →
    c.Answer × (String → Option (List UInt8))
  | .lookup key, data => (data key, data)
  | .insert key value, data => ((), Function.update data key (some value))
  | .remove key, data => ((), Function.update data key none)

end KvAccess

/-- A call of a store, with times to live in `δ`. -/
abbrev KvCall (δ : Type) := ExpiringMap.Call String (List UInt8) δ

/-- A method as the tree of its accesses; no method fails. -/
abbrev KvProg (ρ : Type) := Prog Empty KvAccess KvAccess.Answer ρ

/-- Look a key up. -/
def KvProg.lookup (key : String) : KvProg (Option (List UInt8)) :=
  Prog.perform (KvAccess.lookup key)

/-- Insert a value. -/
def KvProg.insert (key : String) (value : List UInt8) : KvProg Unit :=
  Prog.perform (KvAccess.insert key value)

/-- Remove a key. -/
def KvProg.remove (key : String) : KvProg Unit := Prog.perform (KvAccess.remove key)

/-- How a method holds the lock. -/
def kvMode {δ : Type} : KvCall δ → LockMode
  | .get _ => .read
  | .contains _ => .read
  | _ => .write

/-- The accesses of a method; the time to live is ignored. -/
def kvBody {δ : Type} : KvCall δ → KvProg (Answer (List UInt8))
  | .get key => do
    let found ← KvProg.lookup key
    return .value found
  | .set key value _ => do
    KvProg.insert key value
    return .done
  | .delete key => do
    KvProg.remove key
    return .done
  | .contains key => do
    let found ← KvProg.lookup key
    return .flag found.isSome
  | .setIfNotExists key value _ => do
    let found ← KvProg.lookup key
    if found.isSome then return .flag false
    else do
      KvProg.insert key value
      return .flag true

/-- A store behind its lock. -/
def kvGuarded (δ : Type) : Guarded (KvCall δ) Empty KvAccess KvAccess.Answer
    (Answer (List UInt8)) (String → Option (List UInt8)) where
  serve := KvAccess.serve
  mode := kvMode
  body := kvBody
  reads c hc := by
    cases c with
    | get key => exact ⟨fun _ => rfl, fun _ => trivial⟩
    | contains key => exact ⟨fun _ => rfl, fun _ => trivial⟩
    | _ => cases hc

/-- `MemoryKvStore` behind its lock. -/
def Rust.MemoryKvStore.guarded := kvGuarded ℕ

/-- `memoryKV` behind its lock. -/
def Go.memoryKV.guarded := kvGuarded Int64

/-! ### Histories -/

/-- Whether a key is there after a call. -/
def takenAfter {δ : Type} (key : String) (taken : Bool) : KvCall δ → Bool
  | .set k _ _ => if k = key then true else taken
  | .setIfNotExists k _ _ => if k = key then true else taken
  | .delete k => if k = key then false else taken
  | _ => taken

/-- A call with its result. -/
abbrev KvRecord (τ δ : Type) := CallRecord τ (KvCall δ) (Except Empty (Answer (List UInt8)))

/-- Every `set_if_not_exists` writes if and only if the key was not there at the start or before, at
the calls that released the lock earlier. -/
def WritesIfFree {τ δ : Type} (data : String → Option (List UInt8))
    (released : List (KvRecord τ δ)) : Prop :=
  ∀ pre post e key value ttl, released = pre ++ e :: post →
    e.call = .setIfNotExists key value ttl →
      e.result = .ok (.flag !(pre.map CallRecord.call).foldl (takenAfter key) (data key).isSome)

/-- The call is a `set_if_not_exists` that has written the key. -/
def Takes {τ δ : Type} (e : KvRecord τ δ) (key : String) : Prop :=
  e.result = .ok (.flag true) ∧ ∃ value ttl, e.call = .setIfNotExists key value ttl

/-- Between two `set_if_not_exists` that have written one key, a delete of it released the lock. -/
def TakenOnce {τ δ : Type} (released : List (KvRecord τ δ)) : Prop :=
  ∀ pre e mid e' post key, released = pre ++ e :: mid ++ e' :: post → Takes e key → Takes e' key →
    ∃ d ∈ mid, d.call = .delete key

variable {τ δ : Type}

/-- A call that is alone is a call of a plain map. -/
lemma kvGuarded_perform (c : KvCall δ) (data : String → Option (List UInt8)) :
    (kvGuarded δ).perform c data = (.ok (performPlain data c).2, (performPlain data c).1) := by
  cases c with
  | setIfNotExists key value ttl =>
    have hlookup : (kvGuarded δ).perform (.setIfNotExists key value ttl) data =
        Prog.run KvAccess.serve (if (data key).isSome = true then .done (.flag false)
          else .call (.insert key value) fun _ => .done (.flag true)) data := rfl
    rw [hlookup, performPlain]
    split_ifs
    · rfl
    · rfl
  | _ => rfl

/-- Whether a key is there after a call of a plain map. -/
lemma isSome_performPlain (c : KvCall δ) (data : String → Option (List UInt8)) (key : String) :
    ((performPlain data c).1 key).isSome = takenAfter key (data key).isSome c := by
  cases c with
  | set k value ttl =>
    by_cases hk : k = key
    · simp [performPlain, takenAfter, hk]
    · simp [performPlain, takenAfter, hk, Function.update_of_ne (Ne.symm hk)]
  | delete k =>
    by_cases hk : k = key
    · simp [performPlain, takenAfter, hk]
    · simp [performPlain, takenAfter, hk, Function.update_of_ne (Ne.symm hk)]
  | setIfNotExists k value ttl =>
    by_cases hk : k = key
    · cases hkey : (data key).isSome <;> simp [performPlain, takenAfter, hk, hkey]
    · cases hkey : (data k).isSome <;>
        simp [performPlain, takenAfter, hk, hkey, Function.update_of_ne (Ne.symm hk)]
  | _ => rfl

/-- Whether a key is there after a history. -/
lemma isSome_of_legal {spec : KvCall δ → (String → Option (List UInt8)) →
      Except Empty (Answer (List UInt8)) × (String → Option (List UInt8))}
    (hspec : ∀ c data, spec c data = (.ok (performPlain data c).2, (performPlain data c).1))
    {data data' : String → Option (List UInt8)}
    {log : List (KvRecord τ δ)} (h : Legal spec data log data') (key : String) :
    (data' key).isSome = (log.map CallRecord.call).foldl (takenAfter key) (data key).isSome := by
  induction log generalizing data with
  | nil =>
    obtain rfl : data = data' := h
    rfl
  | cons call log ih =>
    rw [ih h.2, hspec, isSome_performPlain]
    rfl

/-- In a history a `set_if_not_exists` writes if and only if the key is not there. -/
lemma writesIfFree_of_legal {data data' : String → Option (List UInt8)}
    {log : List (KvRecord τ δ)} (h : Legal (kvGuarded δ).perform data log data') :
    WritesIfFree data log := by
  rintro pre post e key value ttl rfl hcall
  obtain ⟨mid, hpre, hr, -⟩ := legal_append_iff.mp h
  rw [← hr, hcall, kvGuarded_perform, performPlain, ← isSome_of_legal kvGuarded_perform hpre key]
  split_ifs with hfree
  · simp [hfree]
  · simp [hfree]

/-- A key that is there stays until it is deleted. -/
lemma exists_delete_of_foldl {key : String} {calls : List (KvCall δ)}
    (h : calls.foldl (takenAfter key) true = false) : .delete key ∈ calls := by
  induction calls with
  | nil => cases h
  | cons c calls ih =>
    rw [List.foldl_cons] at h
    by_cases hc : c = .delete key
    · exact hc ▸ List.mem_cons_self
    · have hkeep : takenAfter key true c = true := by
        cases c with
        | delete k =>
          have hk : k ≠ key := fun heq => hc (heq ▸ rfl)
          simp [takenAfter, hk]
        | set k value ttl => simp [takenAfter]
        | setIfNotExists k value ttl => simp [takenAfter]
        | _ => rfl
      rw [hkeep] at h
      exact List.mem_cons_of_mem c (ih h)

/-- A key is taken by one `set_if_not_exists` only, until it is deleted. -/
lemma WritesIfFree.takenOnce {data : String → Option (List UInt8)} {log : List (KvRecord τ δ)}
    (h : WritesIfFree data log) : TakenOnce log := by
  rintro pre e mid e' post key rfl ⟨-, value, ttl, hcall⟩ ⟨hresult', value', ttl', hcall'⟩
  have hfree := h (pre ++ e :: mid) post e' key value' ttl' rfl hcall'
  rw [hresult', List.map_append, List.foldl_append, List.map_cons, List.foldl_cons, hcall] at hfree
  have hfalse : (mid.map CallRecord.call).foldl (takenAfter key) true = false := by
    simpa [takenAfter] using hfree
  exact List.mem_map.mp (exists_delete_of_foldl hfalse)

/-! ### Runs -/

/-- A call in one step. -/
def inOneStep {σ : Type} (perform : σ → KvCall δ → σ × Answer (List UInt8)) (c : KvCall δ) (m : σ) :
    Except Empty (Answer (List UInt8)) × σ :=
  (.ok (perform m c).2, (perform m c).1)

/-- Concurrent callers see a store as if their calls were made one after the other, and a key is
taken by one `set_if_not_exists` only, until it is deleted. -/
def KvLinearized [DecidableEq τ] {σ : Type} (contents : σ → String → Option (List UInt8))
    (perform : σ → KvCall δ → σ × Answer (List UInt8)) (m : σ)
    (ls : List (GuardedLabel τ (KvCall δ)))
    (s : GuardedState τ (KvCall δ) Empty KvAccess KvAccess.Answer (Answer (List UInt8))
      (String → Option (List UInt8))) : Prop :=
  (kvGuarded δ).Linearized (inOneStep perform) (fun data m' => data = contents m') m ls s ∧
    WritesIfFree (contents m) s.released ∧ TakenOnce s.released

variable [DecidableEq τ]

/-- A store whose methods are those of a plain map. -/
lemma always_kvLinearized {σ : Type} {contents : σ → String → Option (List UInt8)}
    {perform : σ → KvCall δ → σ × Answer (List UInt8)}
    (hplain : ∀ m c, (contents (perform m c).1, (perform m c).2) = performPlain (contents m) c)
    (m : σ) (ls : List (GuardedLabel τ (KvCall δ))) :
    AlwaysAfter (kvGuarded δ).step (KvLinearized contents perform m)
      (Guarded.start τ (contents m)) ls := by
  intro pre s hpre hrun
  have hrefine : ∀ c data m', data = contents m' →
      ((kvGuarded δ).perform c data).1 = (inOneStep perform c m').1 ∧
        ((kvGuarded δ).perform c data).2 = contents (inOneStep perform c m').2 := by
    rintro c _ m' rfl
    rw [kvGuarded_perform, ← hplain m' c]
    exact ⟨rfl, rfl⟩
  obtain ⟨data, hexplained⟩ := Guarded.exists_explained_of_runFrom hrun
  have hwrites := writesIfFree_of_legal hexplained.legal
  exact ⟨Guarded.always_linearized hrefine rfl ls pre s hpre hrun, hwrites, hwrites.takenOnce⟩

/-- Any number of concurrent callers see the in-memory stores of the two libraries as if their calls
were made one after the other, in an order that agrees with real time, and a key is taken by one
`set_if_not_exists` only, until it is deleted. -/
theorem kv_linearizable (rust : Rust.MemoryKvStore) (go : Go.memoryKV)
    (rustRun : List (GuardedLabel τ (KvCall ℕ))) (goRun : List (GuardedLabel τ (KvCall Int64))) :
    AlwaysAfter Rust.MemoryKvStore.guarded.step
      (KvLinearized Rust.MemoryKvStore.data (Rust.MemoryKvStore.perform 0) rust)
      (Guarded.start τ rust.data) rustRun ∧
    AlwaysAfter Go.memoryKV.guarded.step
      (KvLinearized Go.memoryKV.data (Go.memoryKV.perform 0) go) (Guarded.start τ go.data) goRun :=
  ⟨always_kvLinearized (Rust.MemoryKvStore.perform_eq_plain 0) rust rustRun,
    always_kvLinearized (Go.memoryKV.perform_eq_plain 0) go goRun⟩

end GoyStore
