import GoyStore.Kv.SetIfNotExists
import GoyStore.Library.ExpiringMap

/-!
# Times to live in the in-memory stores

The `set` and `set_if_not_exists` of the key-value contract take an optional time to live.  The
Redis backend is an expiring map; the `MemoryKvStore` of the Rust library and the `memoryKV` of the
Go library ignore the argument, so they are plain maps.

They answer like the expiring map exactly along the calls of which no `get`, `exists` or
`set_if_not_exists` comes at a key whose time to live has run out (`ttl_iff_readsLive`).
-/

namespace GoyStore

open ExpiringMap

namespace Rust.MemoryKvStore

/-- `MemoryKvStore::default`. -/
def new : MemoryKvStore := ⟨fun _ => none⟩

/-- `MemoryKvStore::set`; the time to live is ignored. -/
def set (key : String) (value : List UInt8) (_ttl : Option ℕ) (s : MemoryKvStore) :
    MemoryKvStore :=
  ⟨Function.update s.data key (some value)⟩

/-- `MemoryKvStore::delete`. -/
def delete (key : String) (s : MemoryKvStore) : MemoryKvStore :=
  ⟨Function.update s.data key none⟩

/-- `MemoryKvStore::exists`. -/
def containsKey (key : String) (s : MemoryKvStore) : Bool := (s.data key).isSome

/-- A call, with times to live in nanoseconds; the store does not look at the clock. -/
def perform (_now : ℕ) (s : MemoryKvStore) :
    ExpiringMap.Call String (List UInt8) ℕ → MemoryKvStore × Answer (List UInt8)
  | .get key => (s, .value (s.get key))
  | .set key value ttl => (s.set key value ttl, .done)
  | .delete key => (s.delete key, .done)
  | .contains key => (s, .flag (s.containsKey key))
  | .setIfNotExists key value ttl =>
    ((setIfNotExists key value ttl s).2, .flag (setIfNotExists key value ttl s).1)

/-- The store is a plain map. -/
lemma perform_eq_plain (now : ℕ) (s : MemoryKvStore)
    (c : ExpiringMap.Call String (List UInt8) ℕ) :
    ((s.perform now c).1.data, (s.perform now c).2) = performPlain s.data c := by
  cases c with
  | setIfNotExists key value ttl =>
    simp only [perform, setIfNotExists, performPlain]
    split_ifs <;> rfl
  | _ => rfl

end Rust.MemoryKvStore

namespace Go.memoryKV

/-- A store without keys. -/
def new : memoryKV := ⟨fun _ => none⟩

/-- `memoryKV.Set`; the time to live is ignored. -/
def set (key : String) (value : List UInt8) (_ttl : Option Int64) (m : memoryKV) : memoryKV :=
  ⟨Function.update m.data key (some value)⟩

/-- `memoryKV.Delete`. -/
def delete (key : String) (m : memoryKV) : memoryKV := ⟨Function.update m.data key none⟩

/-- `memoryKV.Exists`. -/
def containsKey (key : String) (m : memoryKV) : Bool := (m.data key).isSome

/-- A call, with times to live in nanoseconds, which may be negative; the store does not look at the
clock. -/
def perform (_now : ℤ) (m : memoryKV) :
    ExpiringMap.Call String (List UInt8) Int64 → memoryKV × Answer (List UInt8)
  | .get key => (m, .value (m.get key))
  | .set key value ttl => (m.set key value ttl, .done)
  | .delete key => (m.delete key, .done)
  | .contains key => (m, .flag (m.containsKey key))
  | .setIfNotExists key value ttl =>
    -- `SetIfNotExists` ignores the time to live as well
    let created := setIfNotExists key value (ttl.map fun d => d.toInt.toNat) m
    (created.2, .flag created.1)

/-- The store is a plain map. -/
lemma perform_eq_plain (now : ℤ) (m : memoryKV)
    (c : ExpiringMap.Call String (List UInt8) Int64) :
    ((m.perform now c).1.data, (m.perform now c).2) = performPlain m.data c := by
  cases c with
  | setIfNotExists key value ttl =>
    simp only [perform, setIfNotExists, performPlain]
    cases m.data key <;> rfl
  | _ => rfl

end Go.memoryKV

/-- The end of a time to live of the Rust contract. -/
def Rust.deadline (now ttl : ℕ) : ℕ := now + ttl

/-- The end of a time to live of the Go contract. -/
def Go.deadline (now : ℤ) (ttl : Int64) : ℤ := now + ttl.toInt

/-- The expiring map without keys. -/
def noEntries {τ : Type} : String → Option (Entry (List UInt8) τ) := fun _ => none

/-- The in-memory stores of the two libraries answer like an expiring map if and only if no `get`,
`exists` or `set_if_not_exists` reads a key whose time to live has run out. -/
theorem ttl_iff_readsLive (rust : List (ℕ × ExpiringMap.Call String (List UInt8) ℕ))
    (go : List (ℤ × ExpiringMap.Call String (List UInt8) Int64)) :
    (answers (fun now s => s.perform now) Rust.MemoryKvStore.new rust =
        answers (ExpiringMap.perform Rust.deadline) noEntries rust ↔
      ReadsLive Rust.deadline noEntries rust) ∧
    (answers (fun now m => m.perform now) Go.memoryKV.new go =
        answers (ExpiringMap.perform Go.deadline) noEntries go ↔
      ReadsLive Go.deadline noEntries go) := by
  constructor
  · rw [answers_eq_answers_plain Rust.MemoryKvStore.data Rust.MemoryKvStore.perform_eq_plain]
    exact answers_eq_iff_readsLive noEntries rust
  · rw [answers_eq_answers_plain Go.memoryKV.data Go.memoryKV.perform_eq_plain]
    exact answers_eq_iff_readsLive noEntries go

/-- A session with a time to live of one second is still there after one second. -/
theorem expired_session_found :
    (¬ ∀ calls : List (ℕ × ExpiringMap.Call String (List UInt8) ℕ),
      (calls.map Prod.fst).Pairwise (· ≤ ·) →
      answers (fun now s => s.perform now) Rust.MemoryKvStore.new calls =
        answers (ExpiringMap.perform Rust.deadline) noEntries calls) ∧
    ¬ ∀ calls : List (ℤ × ExpiringMap.Call String (List UInt8) Int64),
      (calls.map Prod.fst).Pairwise (· ≤ ·) →
      answers (fun now m => m.perform now) Go.memoryKV.new calls =
        answers (ExpiringMap.perform Go.deadline) noEntries calls := by
  constructor
  · intro h
    have hcalls := h [(0, .set "session" [1] (some 1000000000)), (1000000000, .get "session")]
      (by decide)
    exact absurd hcalls (by decide)
  · intro h
    have hcalls := h [(0, .set "session" [1] (some 1000000000)), (1000000000, .get "session")]
      (by decide)
    exact absurd hcalls (by decide)

end GoyStore
