import Mathlib.Algebra.Order.Ring.Int
import Mathlib.Logic.Function.Basic

/-!
# Times to live in the Redis stores

The Redis stores of both libraries turn a time to live into an expiry in whole seconds or whole
milliseconds.  The Rust store takes the whole seconds of every time to live of a second or more; the
Go store leaves the choice to its client, which takes a time to live of zero for none.

`keepsTtl_iff` says which times to live are kept to the millisecond, or refused with nothing stored.
-/

namespace GoyStore

/-! ### The server -/

namespace RedisKv

/-- What a command says about the expiry of its key. -/
inductive Expiry where
  /-- The key does not expire. -/
  | none
  /-- The key expires after whole seconds. -/
  | ex (seconds : ℤ)
  /-- The key expires after whole milliseconds. -/
  | px (millis : ℤ)
  /-- The key keeps the expiry that it has. -/
  | keepTtl
  deriving DecidableEq, Repr

/-- A time that is left, in whole milliseconds. -/
abbrev Millis := {millis : ℕ // 0 < millis}

/-- A value on a server, with the time that it has left. -/
structure Entry where
  /-- The value. -/
  value : List UInt8
  /-- The time until the key expires. -/
  expiry : Option Millis
  deriving DecidableEq

/-- The keys on a server. -/
abbrev Store := String → Option Entry

/-- What the stores use of a server: which expiries it takes.  None of them is zero or less. -/
structure Server where
  /-- The server takes a command with this expiry. -/
  accepts : Expiry → Bool
  /-- Seconds are positive. -/
  pos_of_ex : ∀ seconds, accepts (.ex seconds) = true → 0 < seconds
  /-- Milliseconds are positive. -/
  pos_of_px : ∀ millis, accepts (.px millis) = true → 0 < millis
  /-- A key need not expire. -/
  accepts_none : accepts .none = true

/-- The time that is left after a command. -/
def Expiry.left (old : Option Entry) : Expiry → Option Millis
  | .none => .none
  | .ex seconds => if h : 0 < seconds then some ⟨(seconds * 1000).toNat, by omega⟩ else .none
  | .px millis => if h : 0 < millis then some ⟨millis.toNat, by omega⟩ else .none
  | .keepTtl => old.bind Entry.expiry

/-- `SET` with its options, of which `SETEX`, `PSETEX` and `SETNX` are cases.  The answer is an
error, or whether the key was set. -/
def Server.set (server : Server) (nx : Bool) (key : String) (value : List UInt8) (expiry : Expiry)
    (store : Store) : Option Bool × Store :=
  if server.accepts expiry = false then (none, store)
  else if nx = true ∧ (store key).isSome = true then (some false, store)
  else (some true, Function.update store key (some ⟨value, expiry.left (store key)⟩))

/-- A call with a time to live, in nanoseconds, stores nothing, or it stores the value with an
expiry that is less than a millisecond off. -/
def KeepsTtl (store : Store) (key : String) (value : List UInt8) (ttl : ℤ)
    (result : Option Bool × Store) : Prop :=
  (result.1 ≠ some true ∧ result.2 = store) ∨
    ∃ left : Millis, result.2 key = some ⟨value, some left⟩ ∧
      |(left : ℤ) * 1000000 - ttl| < 1000000

/-- An expiry that a server of today takes: a whole number of milliseconds in 64 bits. -/
def Server.standard : Server where
  accepts
    | .ex seconds => 0 < seconds ∧ seconds ≤ (2 ^ 63 - 1) / 1000
    | .px millis => 0 < millis ∧ millis ≤ 2 ^ 63 - 1
    | _ => true
  pos_of_ex _ h := (of_decide_eq_true h).1
  pos_of_px _ h := (of_decide_eq_true h).1
  accepts_none := rfl

end RedisKv

open RedisKv

/-! ### Rust -/

namespace Rust.RedisKvStore

/-- `RedisKvStore::set`, with the time to live in nanoseconds. -/
def set (server : Server) (key : String) (value : List UInt8) (ttl : Option ℕ) (store : Store) :
    Option Bool × Store :=
  match ttl with
  | some ttl =>
    let seconds : ℕ := ttl / 1000000000
    if seconds > 0 then
      -- `SETEX`
      server.set false key value (.ex seconds) store
    else
      let millis : ℕ := ttl / 1000000 % 2 ^ 64
      -- `PSETEX`
      server.set false key value (.px millis) store
  | none => server.set false key value .none store

/-- `RedisKvStore::set_if_not_exists`. -/
def setIfNotExists (server : Server) (key : String) (value : List UInt8) (ttl : Option ℕ)
    (store : Store) : Option Bool × Store :=
  match ttl with
  | some ttl =>
    let seconds : ℕ := ttl / 1000000000
    if seconds > 0 then
      server.set true key value (.ex seconds) store
    else
      server.set true key value (.px (ttl / 1000000 % 2 ^ 64 : ℕ)) store
  | none => server.set true key value .none store

/-- The time to live is less than a second, or less than a millisecond above whole seconds, or of
more seconds than the server takes. -/
def FitsUnits (server : Server) (ttl : ℕ) : Prop :=
  ttl < 1000000000 ∨ ttl % 1000000000 < 1000000 ∨
    server.accepts (.ex (ttl / 1000000000 : ℕ)) = false

end Rust.RedisKvStore

/-! ### Go -/

namespace Go

/-- The expiry that a client sends for a duration in nanoseconds: none for zero, whole seconds and
whole milliseconds where they fit.  Nothing is said of negative durations. -/
structure SendsTtl (sends : ℤ → Expiry) : Prop where
  /-- Zero is no expiry. -/
  zero : sends 0 = .none
  /-- Whole seconds are sent as such. -/
  seconds : ∀ n, 0 < n → sends (n * 1000000000) = .ex n
  /-- Other durations are sent in whole milliseconds. -/
  millis : ∀ ttl, 1000000 ≤ ttl → ¬ 1000000000 ∣ ttl → sends ttl = .px (ttl / 1000000)
  /-- Less than a millisecond is sent as none or one. -/
  subMillis : ∀ ttl, 0 < ttl → ttl < 1000000 → sends ttl = .px 0 ∨ sends ttl = .px 1

/-- What the store uses of a Redis client: the expiries that its commands send. -/
structure RedisClient where
  /-- `Set`. -/
  set : ℤ → Expiry
  /-- `SetNX`. -/
  setNX : ℤ → Expiry
  /-- `Set` sends times to live. -/
  set_sends : SendsTtl set
  /-- `SetNX` sends times to live. -/
  setNX_sends : SendsTtl setNX

/-- A client that sends milliseconds unless whole seconds fit, and keeps the expiry for the duration
of -1 nanosecond. -/
def RedisClient.standard : RedisClient where
  set ttl :=
    if 0 < ttl then
      if 1000000000 ∣ ttl then .ex (ttl / 1000000000) else .px (max 1 (ttl / 1000000))
    else if ttl = -1 then .keepTtl
    else .none
  setNX ttl :=
    if ttl = 0 then .none
    else if ttl = -1 then .keepTtl
    else if ttl < 0 then .px (ttl.tdiv 1000000)
    else if 1000000000 ∣ ttl then .ex (ttl / 1000000000)
    else .px (max 1 (ttl / 1000000))
  set_sends := by
    refine ⟨rfl, fun n hn => ?_, fun ttl hlong hmillis => ?_, fun ttl hpos hshort => ?_⟩
    · rw [if_pos (by omega), if_pos ⟨n, mul_comm _ _⟩, Int.mul_ediv_cancel _ (by decide)]
    · rw [if_pos (by omega), if_neg hmillis, max_eq_right (by omega)]
    · rw [if_pos hpos, if_neg (by omega), max_eq_left (by omega)]
      exact .inr rfl
  setNX_sends := by
    refine ⟨rfl, fun n hn => ?_, fun ttl hlong hmillis => ?_, fun ttl hpos hshort => ?_⟩
    · rw [if_neg (by omega), if_neg (by omega), if_neg (by omega), if_pos ⟨n, mul_comm _ _⟩,
        Int.mul_ediv_cancel _ (by decide)]
    · rw [if_neg (by omega), if_neg (by omega), if_neg (by omega), if_neg hmillis,
        max_eq_right (by omega)]
    · rw [if_neg (by omega), if_neg (by omega), if_neg (by omega), if_neg (by omega),
        max_eq_left (by omega)]
      exact .inr rfl

namespace RedisKVStore

/-- `Set`, with the time to live in nanoseconds. -/
def set (client : RedisClient) (server : Server) (key : String) (value : List UInt8)
    (ttl : Option ℤ) (store : Store) : Option Bool × Store :=
  let expiration := ttl.getD 0
  server.set false key value (client.set expiration) store

/-- `SetIfNotExists`. -/
def setIfNotExists (client : RedisClient) (server : Server) (key : String) (value : List UInt8)
    (ttl : Option ℤ) (store : Store) : Option Bool × Store :=
  let expiration := ttl.getD 0
  server.set true key value (client.setNX expiration) store

end RedisKVStore

end Go

/-! ### Which times to live are kept -/

namespace RedisKv

variable {server : Server} {store : Store} {key : String} {value : List UInt8} {nx : Bool}
  {expiry : Expiry} {ttl : ℤ}

/-- A command keeps a time to live if and only if it is refused, or finds its key, or leaves the
time that was asked for. -/
lemma keepsTtl_set_iff : KeepsTtl store key value ttl (server.set nx key value expiry store) ↔
    server.accepts expiry = false ∨ (nx = true ∧ (store key).isSome = true) ∨
      ∃ left : Millis, expiry.left (store key) = some left ∧
        |(left : ℤ) * 1000000 - ttl| < 1000000 := by
  rw [Server.set]
  split_ifs with hrefused hfound
  · exact iff_of_true (.inl ⟨Option.some_ne_none true |>.symm, rfl⟩) (.inl hrefused)
  · exact iff_of_true (.inl ⟨fun h => Bool.false_ne_true (Option.some.inj h), rfl⟩)
      (.inr (.inl hfound))
  · rw [or_iff_right hrefused, or_iff_right hfound, KeepsTtl, or_iff_right fun h => h.1 rfl]
    simp only [Function.update_self, Option.some_inj, Entry.mk.injEq, true_and]

/-- The time that is left after whole seconds. -/
lemma left_ex {seconds : ℤ} (h : 0 < seconds) (old : Option Entry) :
    ∃ left : Millis, (Expiry.ex seconds).left old = some left ∧ (left : ℤ) = seconds * 1000 :=
  ⟨_, dif_pos h, Int.toNat_of_nonneg (by omega)⟩

/-- The time that is left after whole milliseconds. -/
lemma left_px {millis : ℤ} (h : 0 < millis) (old : Option Entry) :
    ∃ left : Millis, (Expiry.px millis).left old = some left ∧ (left : ℤ) = millis :=
  ⟨_, dif_pos h, Int.toNat_of_nonneg h.le⟩

/-- Whole seconds keep a time to live that is less than a millisecond off. -/
lemma keepsTtl_ex_iff {seconds : ℤ} :
    KeepsTtl store key value ttl (server.set nx key value (.ex seconds) store) ↔
      server.accepts (.ex seconds) = false ∨ (nx = true ∧ (store key).isSome = true) ∨
        |seconds * 1000000000 - ttl| < 1000000 := by
  rw [keepsTtl_set_iff]
  cases haccepts : server.accepts (.ex seconds) with
  | false => exact iff_of_true (.inl rfl) (.inl rfl)
  | true =>
    obtain ⟨left, hleft, heq⟩ := left_ex (server.pos_of_ex _ haccepts) (store key)
    have hunits : (left : ℤ) * 1000000 = seconds * 1000000000 := by omega
    simp only [hleft, Option.some_inj, exists_eq_left', hunits]

/-- Whole milliseconds keep a time to live that is less than a millisecond off. -/
lemma keepsTtl_px_iff {millis : ℤ} :
    KeepsTtl store key value ttl (server.set nx key value (.px millis) store) ↔
      server.accepts (.px millis) = false ∨ (nx = true ∧ (store key).isSome = true) ∨
        |millis * 1000000 - ttl| < 1000000 := by
  rw [keepsTtl_set_iff]
  cases haccepts : server.accepts (.px millis) with
  | false => exact iff_of_true (.inl rfl) (.inl rfl)
  | true =>
    obtain ⟨left, hleft, heq⟩ := left_px (server.pos_of_px _ haccepts) (store key)
    simp only [hleft, Option.some_inj, exists_eq_left', heq]

/-- The unit that the Rust store picks keeps a time to live that fits it. -/
lemma keepsTtl_rust_iff {ttl : ℕ} :
    KeepsTtl store key value ttl (if ttl / 1000000000 > 0
      then server.set nx key value (.ex (ttl / 1000000000 : ℕ)) store
      else server.set nx key value (.px (ttl / 1000000 % 2 ^ 64 : ℕ)) store) ↔
        Rust.RedisKvStore.FitsUnits server ttl ∨ (nx = true ∧ (store key).isSome = true) := by
  rw [Rust.RedisKvStore.FitsUnits]
  split_ifs with hseconds
  · have hoff : |((ttl / 1000000000 : ℕ) : ℤ) * 1000000000 - ttl| < 1000000 ↔
        ttl % 1000000000 < 1000000 := by
      rw [abs_lt]
      omega
    have hlong : ¬ ttl < 1000000000 := by omega
    rw [keepsTtl_ex_iff, hoff, or_iff_right hlong]
    constructor
    · rintro (hrefused | hfound | hclose)
      · exact .inl (.inr hrefused)
      · exact .inr hfound
      · exact .inl (.inl hclose)
    · rintro ((hclose | hrefused) | hfound)
      · exact .inr (.inr hclose)
      · exact .inl hrefused
      · exact .inr (.inl hfound)
  · have hshort : ttl < 1000000000 := by omega
    have hoff : |((ttl / 1000000 % 2 ^ 64 : ℕ) : ℤ) * 1000000 - ttl| < 1000000 := by
      rw [abs_lt]
      omega
    exact iff_of_true (keepsTtl_px_iff.mpr (.inr (.inr hoff))) (.inl (.inl hshort))

/-- What a client sends for a time to live keeps it if it is positive, and otherwise only if the
server refuses it. -/
lemma keepsTtl_go_iff {sends : ℤ → Expiry} (h : Go.SendsTtl sends) :
    KeepsTtl store key value ttl (server.set nx key value (sends ttl) store) ↔
      0 < ttl ∨ server.accepts (sends ttl) = false ∨
        (nx = true ∧ (store key).isSome = true) := by
  by_cases hpos : 0 < ttl
  · refine iff_of_true ?_ (.inl hpos)
    by_cases hseconds : (1000000000 : ℤ) ∣ ttl
    · obtain ⟨n, rfl⟩ := hseconds
      rw [mul_comm, h.seconds n (by omega), keepsTtl_ex_iff, sub_self, abs_zero]
      exact .inr (.inr (by decide))
    by_cases hmillis : 1000000 ≤ ttl
    · rw [h.millis ttl hmillis hseconds, keepsTtl_px_iff, abs_lt]
      omega
    rcases h.subMillis ttl hpos (by omega) with hsent | hsent
    · rw [hsent, keepsTtl_px_iff, abs_lt]
      omega
    · rw [hsent, keepsTtl_px_iff, abs_lt]
      omega
  · rw [keepsTtl_set_iff, or_iff_right hpos]
    refine or_congr_right (or_iff_left ?_)
    rintro ⟨left, -, hoff⟩
    have hleft := left.property
    rw [abs_lt] at hoff
    omega

/-- The Rust stores keep a time to live, or refuse it, if and only if it fits the units; the Go
stores if and only if it is positive or refused.  A key that is there already is left alone. -/
theorem keepsTtl_iff (server : Server) (client : Go.RedisClient) (store : Store) (key : String)
    (value : List UInt8) (ttl : ℕ) (ttl' : ℤ) :
    (KeepsTtl store key value ttl (Rust.RedisKvStore.set server key value (some ttl) store) ↔
      Rust.RedisKvStore.FitsUnits server ttl) ∧
    (KeepsTtl store key value ttl
        (Rust.RedisKvStore.setIfNotExists server key value (some ttl) store) ↔
      Rust.RedisKvStore.FitsUnits server ttl ∨ (store key).isSome = true) ∧
    (KeepsTtl store key value ttl'
        (Go.RedisKVStore.set client server key value (some ttl') store) ↔
      0 < ttl' ∨ server.accepts (client.set ttl') = false) ∧
    (KeepsTtl store key value ttl'
        (Go.RedisKVStore.setIfNotExists client server key value (some ttl') store) ↔
      0 < ttl' ∨ server.accepts (client.setNX ttl') = false ∨ (store key).isSome = true) := by
  refine ⟨?_, ?_, ?_, ?_⟩
  · exact keepsTtl_rust_iff.trans (or_iff_left fun h => Bool.false_ne_true h.1)
  · exact keepsTtl_rust_iff.trans (or_congr_right (and_iff_right rfl))
  · exact (keepsTtl_go_iff client.set_sends).trans
      (or_congr_right (or_iff_left fun h => Bool.false_ne_true h.1))
  · exact (keepsTtl_go_iff client.setNX_sends).trans
      (or_congr_right (or_congr_right (and_iff_right rfl)))

/-- A lease of one and a half seconds of the Rust store is stored with one second, and a time to
live of zero of the Go store with no expiry. -/
theorem not_keepsTtl :
    ¬ KeepsTtl (fun _ => none) "lease" [1] 1500000000
      (Rust.RedisKvStore.set .standard "lease" [1] (some 1500000000) fun _ => none) ∧
    ¬ KeepsTtl (fun _ => none) "lease" [1] 0
      (Go.RedisKVStore.set .standard .standard "lease" [1] (some 0) fun _ => none) := by
  constructor
  · rintro (⟨hstored, -⟩ | ⟨left, hleft, hoff⟩)
    · exact hstored rfl
    · have hsecond : left = ⟨1000, by decide⟩ := (Option.some.inj
        (congrArg Entry.expiry (Option.some.inj hleft))).symm
      rw [hsecond] at hoff
      exact absurd hoff (by decide)
  · rintro (⟨hstored, -⟩ | ⟨left, hleft, -⟩)
    · exact hstored rfl
    · exact Option.some_ne_none left (congrArg Entry.expiry (Option.some.inj hleft)).symm

end RedisKv

end GoyStore
