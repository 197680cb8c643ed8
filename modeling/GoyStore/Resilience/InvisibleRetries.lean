import GoyStore.Blob.MemoryBlobStore
import GoyStore.Kv.TimeToLive
import GoyStore.Resilience.AttemptEffects
import GoyStore.SortedSet.RepeatedCalls

/-!
# Retries of idempotent operations

An attempt that is reported as failed may have taken effect, and is retried all the same.  For an
operation that can be repeated (`Repetition.Repeatable`) a caller cannot tell
(`retriesInvisible_of_repeatable`): the answer of a call that succeeds and what the store holds
after it are those of one application, and a call that fails left the store alone or applied the
operation once.  `retries_invisible` lists the operations of the in-memory stores of the Rust
library for which this is so.
-/

namespace GoyStore

open Runs Repetition

/-! ### Calls of one operation -/

/-- The call whose operation takes effect at the backend. -/
def ExecLabel.effect {κ : Type*} : ExecLabel κ → Option κ
  | .takeEffect c => some c
  | .lateEffect c _ => some c
  | _ => none

namespace Setup

section Invisible

variable {X : ExecutorModel} {ι κ S α O : Type*} [DecidableEq ι] [DecidableEq κ]

/-- The applied operations grow by the one that takes effect. -/
lemma applied_step {P : Setup X ι κ S α} {s s' : ExecState X ι κ S α} {l : ExecLabel κ}
    (h : P.step s l = some s') : s'.applied = s.applied ++ l.effect.toList := by
  cases moves_of_step h <;> first | rfl | exact (List.append_nil _).symm

/-- What a run leaves of a call that it started, when no other operation took effect: the store is
that of a number of applications, and the results of the attempts are those of the first. -/
structure Repeated (P : Setup X ι κ S α) (c : κ) (store : S) (t : ExecState X ι κ S α) : Prop where
  /-- The store after some applications, at least one if an attempt took effect. -/
  store_eq : ∃ n, t.store = repeated (P.call c).operation n store ∧
    ((∃ v, some v ∈ attemptEffects t c) → n ≠ 0)
  /-- The results of the attempts. -/
  result_eq : ∀ v, some v ∈ attemptEffects t c → v = ((P.call c).operation store).1

/-- A step keeps it. -/
lemma repeated_step {P : Setup X ι κ S α} {c : κ} {store : S} {obs : S → O}
    (hop : Repeatable obs (P.call c).operation store) {s s' : ExecState X ι κ S α}
    {l : ExecLabel κ} (hs : P.Repeated c store s) (hl : ∀ d, l.effect = some d → d = c)
    (h : P.step s l = some s') : P.Repeated c store s' := by
  obtain ⟨⟨n, hstore, hn⟩, hresult⟩ := hs
  rcases attemptEffects_step h with ⟨d, i, hi, hstore', happlied, hset, -⟩ |
    ⟨hstore', -, heffects⟩
  · have heffect : l.effect.toList = [d] := by
      have happlied' := applied_step h
      rw [happlied] at happlied'
      exact (List.append_cancel_left happlied').symm
    obtain rfl : d = c := by
      refine hl d ?_
      cases hl' : l.effect with
      | none => rw [hl'] at heffect; cases heffect
      | some d' => rw [hl'] at heffect; exact congrArg some (List.singleton_inj.mp heffect)
    refine ⟨⟨n + 1, ?_, fun _ => Nat.succ_ne_zero n⟩, fun v hv => ?_⟩
    · rw [hstore', hstore, repeated_succ]
    · rw [hset] at hv
      rcases List.mem_or_eq_of_mem_set hv with hv | hv
      · exact hresult v hv
      · rw [Option.some.inj hv, hstore]
        exact hop.result_eq n
  · have hmem : ∀ v, some v ∈ attemptEffects s' c → some v ∈ attemptEffects s c := by
      intro v hv
      rcases heffects c with heq | heq
      · rwa [heq] at hv
      · rw [heq, List.mem_append, List.mem_singleton] at hv
        exact hv.resolve_right nofun
    refine ⟨⟨n, hstore'.trans hstore, ?_⟩, fun v hv => hresult v (hmem v hv)⟩
    rintro ⟨v, hv⟩
    exact hn ⟨v, hmem v hv⟩

/-- A run keeps it. -/
lemma repeated_run {P : Setup X ι κ S α} {c : κ} {store : S} {obs : S → O}
    (hop : Repeatable obs (P.call c).operation store) {s t : ExecState X ι κ S α}
    {ls : List (ExecLabel κ)} (hs : P.Repeated c store s)
    (hls : ∀ l ∈ ls, ∀ d, l.effect = some d → d = c) (h : runFrom P.step s ls = some t) :
    P.Repeated c store t := by
  induction ls generalizing s with
  | nil => exact Option.some.inj h ▸ hs
  | cons l ls ih =>
    obtain ⟨u, hu, hrun⟩ := Option.bind_eq_some_iff.mp h
    rw [List.forall_mem_cons] at hls
    exact ih (repeated_step hop hs hls.1 hu) hls.2 hrun

end Invisible

end Setup

/-- One direct application to the store gives the value `value` and the store `after`.  In every run
of an executor from a state in which the store is as given, and in which no other operation takes
effect meanwhile: when the call has returned a value, it is `value` and the store is observed as
`after`, and when it has returned an error, the store is observed as before or as `after`. -/
def RetriesInvisible (X : ExecutorModel) {S α O : Type} (obs : S → O) (call : Call S α)
    (store : S) (value : α) (after : S) : Prop :=
  ∀ (ι κ : Type) [DecidableEq ι] [DecidableEq κ] (P : Setup X ι κ S α) (c : κ)
    (s t : ExecState X ι κ S α) (ls : List (ExecLabel κ)),
    P.call c = call → s.phase c = .notStarted → s.failed c = [] → s.store = store →
    (∀ l ∈ ls, ∀ d, l.effect = some d → d = c) → runFrom P.step s ls = some t →
    (∀ v, t.phase c = .returned (.ok v) → v = value ∧ obs t.store = obs after) ∧
    (∀ err, t.phase c = .returned (.error err) →
      obs t.store = obs store ∨ obs t.store = obs after)

/-- The retries of an operation that can be repeated are invisible. -/
theorem retriesInvisible_of_repeatable {X : ExecutorModel} {S α O : Type} {obs : S → O}
    {call : Call S α} {store : S} (h : Repeatable obs call.operation store) :
    RetriesInvisible X obs call store (call.operation store).1 (call.operation store).2 := by
  intro ι κ _ _ P c s t ls hcall hphase hfailed hstore hls hrun
  have hnone : Setup.attemptEffects s c = [none] := by
    rw [Setup.attemptEffects, hfailed, hphase]
    rfl
  have hstart : P.Repeated c store s := by
    refine ⟨⟨0, hstore, ?_⟩, fun v hv => ?_⟩
    · rintro ⟨v, hv⟩
      rw [hnone] at hv
      cases List.mem_singleton.mp hv
    · rw [hnone] at hv
      cases List.mem_singleton.mp hv
  have hop : Repeatable obs (P.call c).operation store := by rwa [hcall]
  obtain ⟨⟨n, hn, hpos⟩, hresult⟩ := Setup.repeated_run hop hstart hls hrun
  rw [hcall] at hn hresult
  refine ⟨fun v hv => ?_, fun err _ => ?_⟩
  · have hmem : some v ∈ Setup.attemptEffects t c := by
      rw [Setup.attemptEffects, hv]
      exact List.mem_append_right _ (List.mem_singleton_self _)
    obtain ⟨m, rfl⟩ := Nat.exists_eq_succ_of_ne_zero (hpos ⟨v, hmem⟩)
    exact ⟨hresult v hmem, by rw [hn, h.obs_eq]⟩
  · rcases n with - | m
    · exact .inl (congrArg obs hn)
    · exact .inr (by rw [hn, h.obs_eq])

namespace Rust

/-! ### The idempotent operations of the resilient stores, over the in-memory stores -/

namespace ResilientKvStore

/-- `ResilientKvStore::get`. -/
def get (key : String) : Call MemoryKvStore (Option (List UInt8)) :=
  ⟨"get", fun st => (st.get key, st)⟩

/-- `ResilientKvStore::set`. -/
def set (key : String) (value : List UInt8) (ttl : Option ℕ) : Call MemoryKvStore Unit :=
  ⟨"set", fun st => ((), st.set key value ttl)⟩

/-- `ResilientKvStore::delete`. -/
def delete (key : String) : Call MemoryKvStore Unit := ⟨"delete", fun st => ((), st.delete key)⟩

/-- `ResilientKvStore::exists`. -/
def containsKey (key : String) : Call MemoryKvStore Bool :=
  ⟨"exists", fun st => (st.containsKey key, st)⟩

end ResilientKvStore

namespace ResilientSortedSetStore

/-- `ResilientSortedSetStore::add`. -/
def add (set member : String) (score : Binary64) : Call MemorySortedSetStore Unit :=
  ⟨"add", fun st => ((), st.add set member score)⟩

/-- `ResilientSortedSetStore::remove`. -/
def remove (set member : String) : Call MemorySortedSetStore Unit :=
  ⟨"remove", fun st => ((), st.remove set member)⟩

/-- `ResilientSortedSetStore::range_by_score`.  The answer `none` stands for the panic of
`BTreeMap::range`; such an attempt never ends, so no call returns this answer. -/
def rangeByScore (set : String) (min max : Binary64) (limit : Option ℕ) :
    Call MemorySortedSetStore (Option (List (String × Binary64))) :=
  ⟨"range_by_score", fun st => (st.rangeByScore set min max limit, st)⟩

/-- `ResilientSortedSetStore::count`. -/
def count (set : String) : Call MemorySortedSetStore ℕ := ⟨"count", fun st => (st.count set, st)⟩

/-- `ResilientSortedSetStore::score`. -/
def score (set member : String) : Call MemorySortedSetStore (Option Binary64) :=
  ⟨"score", fun st => (st.score set member, st)⟩

end ResilientSortedSetStore

namespace ResilientBlobStore

/-- `ResilientBlobStore::put`. -/
def put (key : String) (data : List UInt8) (metadata : Option Metadata) :
    Call MemoryBlobStore Unit :=
  ⟨"put", fun st => ((), st.put key data metadata)⟩

/-- `ResilientBlobStore::get`. -/
def get (key : String) : Call MemoryBlobStore (Option (List UInt8 × Metadata)) :=
  ⟨"get", fun st => (st.get key, st)⟩

/-- `ResilientBlobStore::delete`. -/
def delete (key : String) : Call MemoryBlobStore Unit :=
  ⟨"delete", fun st => ((), st.delete key)⟩

/-- `ResilientBlobStore::list`; `start` is its argument `prefix`. -/
def list (start : Option String) : Call MemoryBlobStore (List String) :=
  ⟨"list", fun st => (st.list start, st)⟩

end ResilientBlobStore

/-- Further calls of `MemoryKvStore::set` with the same arguments change nothing. -/
lemma repeatable_kvSet (st : MemoryKvStore) (key : String) (value : List UInt8) (ttl : Option ℕ) :
    Repeatable MemoryKvStore.data (fun st => ((), st.set key value ttl)) st := by
  apply repeatable_write (F := fun data => Function.update data key (some value)) fun _ => rfl
  exact Function.update_idem ..

/-- Further calls of `MemoryKvStore::delete` with the same arguments change nothing. -/
lemma repeatable_kvDelete (st : MemoryKvStore) (key : String) :
    Repeatable MemoryKvStore.data (fun st => ((), st.delete key)) st := by
  apply repeatable_write (F := fun data => Function.update data key none) fun _ => rfl
  exact Function.update_idem ..

/-- Through the resilient stores over the in-memory stores, in every reachable state and for all
arguments, nobody can tell how many attempts of an idempotent operation took effect before they were
reported as failed or timed out: value and store are those of one direct call of the store's own
operation.  For the sorted set this holds of the two maps with the order of every bucket. -/
theorem retries_invisible :
    (∀ (st : MemoryKvStore) (key : String) (value : List UInt8) (ttl : Option ℕ),
      RetriesInvisible executorModel MemoryKvStore.data (ResilientKvStore.get key) st
        (st.get key) st ∧
      RetriesInvisible executorModel MemoryKvStore.data (ResilientKvStore.set key value ttl) st
        () (st.set key value ttl) ∧
      RetriesInvisible executorModel MemoryKvStore.data (ResilientKvStore.delete key) st
        () (st.delete key) ∧
      RetriesInvisible executorModel MemoryKvStore.data (ResilientKvStore.containsKey key) st
        (st.containsKey key) st) ∧
    (∀ (ops : List SortedSetOp) (st : MemorySortedSetStore),
      runFrom MemorySortedSetStore.step .new ops = some st →
      ∀ (set member : String) (score min max : Binary64),
        RetriesInvisible executorModel MemorySortedSetStore.contents
          (ResilientSortedSetStore.add set member score) st () (st.add set member score) ∧
        RetriesInvisible executorModel MemorySortedSetStore.contents
          (ResilientSortedSetStore.remove set member) st () (st.remove set member) ∧
        RetriesInvisible executorModel MemorySortedSetStore.contents
          (ResilientSortedSetStore.count set) st (st.count set) st ∧
        RetriesInvisible executorModel MemorySortedSetStore.contents
          (ResilientSortedSetStore.score set member) st (st.score set member) st ∧
        (min.le max = true → RetriesInvisible executorModel MemorySortedSetStore.contents
          (ResilientSortedSetStore.rangeByScore set min max none) st
          (st.rangeByScore set min max none) st)) ∧
    (∀ (st : MemoryBlobStore) (key : String) (data : List UInt8) (metadata : Option Metadata)
        (start : Option String),
      RetriesInvisible executorModel MemoryBlobStore.contents
        (ResilientBlobStore.put key data metadata) st () (st.put key data metadata) ∧
      RetriesInvisible executorModel MemoryBlobStore.contents (ResilientBlobStore.get key) st
        (st.get key) st ∧
      RetriesInvisible executorModel MemoryBlobStore.contents (ResilientBlobStore.delete key) st
        () (st.delete key) ∧
      RetriesInvisible executorModel MemoryBlobStore.contents
        (ResilientBlobStore.list start) st (st.list start) st) := by
  refine ⟨fun st key value ttl => ⟨?_, ?_, ?_, ?_⟩,
    fun ops st hst set member score min max => ⟨?_, ?_, ?_, ?_, fun _ => ?_⟩,
    fun st key data metadata start => ⟨?_, ?_, ?_, ?_⟩⟩
  all_goals apply retriesInvisible_of_repeatable
  · exact repeatable_read _ _ st
  · exact repeatable_kvSet st key value ttl
  · exact repeatable_kvDelete st key
  · exact repeatable_read _ _ st
  · exact MemorySortedSetStore.repeatable_add hst set member score
  · exact MemorySortedSetStore.repeatable_remove st set member
  · exact repeatable_read _ _ st
  · exact repeatable_read _ _ st
  · exact repeatable_read _ _ st
  · exact MemoryBlobStore.repeatable_put st key data metadata
  · exact repeatable_read _ _ st
  · exact MemoryBlobStore.repeatable_delete st key
  · exact repeatable_read _ _ st

/-- Calls of one `add` through an executor with the default configuration. -/
def addCalls : Setup executorModel Unit ℕ MemorySortedSetStore Unit :=
  defaultRust "sorted_set" (ResilientSortedSetStore.add "set" "member" MemorySortedSetStore.one)

/-- The first attempt of an `add` takes effect and times out, and the second succeeds: the set is
as after one `add`. -/
theorem retries_invisible_add_twice : ∃ t,
    runFrom addCalls.step (addCalls.init 0 .new)
      (committedTwiceRust ++ [.report 0, .publish 0, .publish 0]) = some t ∧
    t.phase 0 = .returned (.ok ()) ∧ t.applied = [0, 0] ∧ t.store.contents =
      (MemorySortedSetStore.new.add "set" "member" MemorySortedSetStore.one).contents := by
  obtain ⟨t, hrun, hphase, happlied⟩ : ∃ t, runFrom addCalls.step (addCalls.init 0 .new)
      (committedTwiceRust ++ [.report 0, .publish 0, .publish 0]) = some t ∧
      t.phase 0 = .returned (.ok ()) ∧ t.applied = [0, 0] := ⟨_, rfl, rfl, rfl⟩
  have hadd := (retries_invisible.2.1 [] .new rfl "set" "member" MemorySortedSetStore.one
    MemorySortedSetStore.one MemorySortedSetStore.two).1 Unit ℕ addCalls 0 _ t _ rfl rfl rfl rfl
    (by decide) hrun
  exact ⟨t, hrun, hphase, happlied, (hadd.1 () hphase).2⟩

end Rust

end GoyStore
