import GoyStore.Resilience.AttemptEffects

/-!
# `set_if_not_exists` through the retry layer

Any number of clients call `set_if_not_exists` on one key through resilient stores over one atomic
inner store, and use the answer as a lock.  An attempt that created the key and was reported as
failed is retried; the retry finds the key that the call itself created and answers `false`
(`creator_told_false`).  The answers are truthful in exactly the runs in which no call returns the
answer of an attempt after an earlier attempt of it, reported as failed, has created the key
(`truthful_iff_no_ack_after_lost_creation`).
-/

namespace GoyStore

open Runs

/-! ### The inner stores -/

/-- A key-value store whose `set_if_not_exists` is atomic. -/
structure AtomicKvStore where
  /-- The contents of the store. -/
  Store : Type
  /-- The value of a key. -/
  get : String → Store → Option (List UInt8)
  /-- `set_if_not_exists`, with the key, the value and the time to live. -/
  setIfNotExists : String → List UInt8 → Option ℕ → Store → Bool × Store
  /-- A key that exists is left alone. -/
  setIfNotExists_of_present : ∀ key value ttl s, get key s ≠ none →
    setIfNotExists key value ttl s = (false, s)
  /-- A key that does not exist is created. -/
  setIfNotExists_of_absent : ∀ key value ttl s, get key s = none →
    (setIfNotExists key value ttl s).1 = true ∧
      get key (setIfNotExists key value ttl s).2 = some value

namespace Rust

/-- `MemoryKvStore`: the map behind its lock. -/
structure MemoryKvStore where
  /-- The field `data`. -/
  data : String → Option (List UInt8)

namespace MemoryKvStore

/-- `MemoryKvStore::get`. -/
def get (key : String) (s : MemoryKvStore) : Option (List UInt8) := s.data key

/-- `MemoryKvStore::set_if_not_exists`; the time to live is ignored. -/
def setIfNotExists (key : String) (value : List UInt8) (_ttl : Option ℕ) (s : MemoryKvStore) :
    Bool × MemoryKvStore :=
  if (s.data key).isSome then (false, s)
  else (true, { data := Function.update s.data key (some value) })

end MemoryKvStore

/-- The in-memory store of the Rust library. -/
def memoryKvStore : AtomicKvStore where
  Store := MemoryKvStore
  get := MemoryKvStore.get
  setIfNotExists := MemoryKvStore.setIfNotExists
  setIfNotExists_of_present key value ttl s h :=
    if_pos (Option.isSome_iff_ne_none.mpr h)
  setIfNotExists_of_absent key value ttl s h := by
    have habsent : s.data key = none := h
    simp [MemoryKvStore.setIfNotExists, MemoryKvStore.get, habsent]

end Rust

namespace Go

/-- `memoryKV`: the map behind its mutex. -/
structure memoryKV where
  /-- The field `data`. -/
  data : String → Option (List UInt8)

namespace memoryKV

/-- `memoryKV.Get`. -/
def get (key : String) (m : memoryKV) : Option (List UInt8) := m.data key

/-- `memoryKV.SetIfNotExists`; the time to live is ignored. -/
def setIfNotExists (key : String) (value : List UInt8) (_ttl : Option ℕ) (m : memoryKV) :
    Bool × memoryKV :=
  match m.data key with
  | some _ => (false, m)
  | none => (true, { data := Function.update m.data key (some value) })

end memoryKV

/-- The in-memory store of the Go library. -/
def memoryKvStore : AtomicKvStore where
  Store := memoryKV
  get := memoryKV.get
  setIfNotExists := memoryKV.setIfNotExists
  setIfNotExists_of_present key value ttl s h := by
    obtain ⟨old, hold⟩ := Option.ne_none_iff_exists'.mp h
    have hpresent : s.data key = some old := hold
    simp [memoryKV.setIfNotExists, hpresent]
  setIfNotExists_of_absent key value ttl s h := by
    have habsent : s.data key = none := h
    simp [memoryKV.setIfNotExists, memoryKV.get, habsent]

end Go

/-- `ResilientKvStore::set_if_not_exists` and `resilientKVStore.SetIfNotExists`, over the inner
store. -/
def AtomicKvStore.resilientSetIfNotExists (K : AtomicKvStore) (key : String)
    (value : List UInt8) (ttl : Option ℕ) : Call K.Store Bool :=
  ⟨"set_if_not_exists", K.setIfNotExists key value ttl⟩

/-- Clients that call `set_if_not_exists` on one key. -/
structure Clients (X : ExecutorModel) (K : AtomicKvStore) (ι κ : Type*) where
  /-- The executors of the resilient stores. -/
  executor : ι → X.Executor
  /-- The store that a client calls. -/
  via : κ → ι
  /-- The key. -/
  key : String
  /-- The value of each client. -/
  value : κ → List UInt8
  /-- The time to live of each client. -/
  ttl : κ → Option ℕ

namespace Clients

variable {X : ExecutorModel} {K : AtomicKvStore} {ι κ : Type*} (C : Clients X K ι κ)

/-- The calls of the clients. -/
def setup : Setup X ι κ K.Store Bool where
  executor := C.executor
  via := C.via
  call c := K.resilientSetIfNotExists C.key (C.value c) (C.ttl c)

/-- The key holds the value that the call of a client wrote: an attempt of it created the key, and
the key has its value. -/
def HoldsWriteOf (s : ExecState X ι κ K.Store Bool) (c : κ) : Prop :=
  some true ∈ Setup.attemptEffects s c ∧ K.get C.key s.store = some (C.value c)

/-- No client whose write the key holds was told that the key existed. -/
def Truthful (s : ExecState X ι κ K.Store Bool) : Prop :=
  ∀ c, C.HoldsWriteOf s c → s.phase c ≠ .returned (.ok false)

/-- The step does not let a call return the answer of an acknowledged attempt after an earlier
attempt of the call, reported as failed, has created the key. -/
def NoAckAfterLostCreation (s : ExecState X ι κ K.Store Bool) : ExecLabel κ → Prop
  | .publish c => ∀ answer code, s.phase c = .publishing (.success answer) code →
    -- the step returns when the state of the breaker is read, or is not published
    (code = none → X.hasMetrics (C.setup.executorOf c) = false) → some true ∉ s.failed c
  | _ => True

variable {C}

/-! ### The key and the attempts -/

/-- The invariant of all runs on a key that is absent at the start. -/
structure KeyInvariant (C : Clients X K ι κ) (s : ExecState X ι κ K.Store Bool) : Prop where
  /-- Once an attempt has taken effect the key exists. -/
  present : ∀ c answer, some answer ∈ Setup.attemptEffects s c → K.get C.key s.store ≠ none
  /-- The key holds the value of the call that created it. -/
  value_eq : ∀ c, some true ∈ Setup.attemptEffects s c → K.get C.key s.store = some (C.value c)
  /-- A call creates the key at most once. -/
  created_once : ∀ c, (Setup.attemptEffects s c).count (some true) ≤ 1

variable [DecidableEq ι] [DecidableEq κ]

/-- Every step keeps the invariant. -/
lemma keyInvariant_step (s : ExecState X ι κ K.Store Bool) (l : ExecLabel κ)
    (s' : ExecState X ι κ K.Store Bool) (hs : KeyInvariant C s) (h : C.setup.step s l = some s') :
    KeyInvariant C s' := by
  rcases Setup.attemptEffects_step h with ⟨c, n, hn, hstore, -, hset, hother⟩ |
    ⟨hstore, -, heffects⟩
  · obtain ⟨hlen, hget⟩ := List.getElem?_eq_some_iff.mp hn
    by_cases hkey : K.get C.key s.store = none
    · -- the first attempt of all that takes effect: it creates the key
      have hfirst : ∀ d answer, some answer ∉ Setup.attemptEffects s d :=
        fun d answer ha => hs.present d answer ha hkey
      obtain ⟨hanswer, hvalue⟩ :=
        K.setIfNotExists_of_absent C.key (C.value c) (C.ttl c) s.store hkey
      have hkey' : K.get C.key s'.store = some (C.value c) := by
        rw [hstore]
        exact hvalue
      have hset' : Setup.attemptEffects s' c =
          (Setup.attemptEffects s c).set n (some true) := by
        rw [hset, ← hanswer]
        rfl
      refine ⟨fun d answer _ => by rw [hkey']; simp, fun d hd => ?_, fun d => ?_⟩
      · by_cases hdc : d = c
        · rw [hdc]
          exact hkey'
        · rw [hother d hdc] at hd
          exact absurd hd (hfirst d true)
      · by_cases hdc : d = c
        · rw [hdc, hset', List.count_set hlen, List.count_eq_zero.mpr (hfirst c true)]
          simp
        · rw [hother d hdc]
          exact hs.created_once d
    · -- the key exists: the attempt answers `false` and leaves the store
      have hcall := K.setIfNotExists_of_present C.key (C.value c) (C.ttl c) s.store hkey
      have hstore' : s'.store = s.store := by
        rw [hstore]
        exact congrArg Prod.snd hcall
      have hset' : Setup.attemptEffects s' c =
          (Setup.attemptEffects s c).set n (some false) := by
        rw [hset]
        exact congrArg (fun r => (Setup.attemptEffects s c).set n (some r.1)) hcall
      have hold : ∀ d, some true ∈ Setup.attemptEffects s' d →
          some true ∈ Setup.attemptEffects s d := by
        intro d hd
        by_cases hdc : d = c
        · subst hdc
          rw [hset'] at hd
          exact (List.mem_or_eq_of_mem_set hd).resolve_right (by simp)
        · rwa [hother d hdc] at hd
      refine ⟨fun d answer _ => by rwa [hstore'], fun d hd => ?_, fun d => ?_⟩
      · rw [hstore']
        exact hs.value_eq d (hold d hd)
      · by_cases hdc : d = c
        · rw [hdc, hset', List.count_set hlen, hget]
          simpa using hs.created_once c
        · rw [hother d hdc]
          exact hs.created_once d
  · have hold : ∀ d answer, some answer ∈ Setup.attemptEffects s' d →
        some answer ∈ Setup.attemptEffects s d := by
      intro d answer hd
      rcases heffects d with heq | heq <;> rw [heq] at hd
      · exact hd
      · simpa using hd
    refine ⟨fun d answer hd => ?_, fun d hd => ?_, fun d => ?_⟩
    · rw [hstore]
      exact hs.present d answer (hold d answer hd)
    · rw [hstore]
      exact hs.value_eq d (hold d true hd)
    · rcases heffects d with heq | heq <;> rw [heq]
      · exact hs.created_once d
      · rw [List.count_append]
        simpa using hs.created_once d

/-- A call creates the key in a step only if the key is absent before it. -/
lemma absent_of_creates {s s' : ExecState X ι κ K.Store Bool} {l : ExecLabel κ} {d : κ}
    (h : C.setup.step s l = some s') (hs : some true ∉ Setup.attemptEffects s d)
    (hs' : some true ∈ Setup.attemptEffects s' d) : K.get C.key s.store = none := by
  rcases Setup.attemptEffects_step h with ⟨c, n, -, -, -, hset, hother⟩ | ⟨-, -, heffects⟩
  · by_contra hkey
    have hcall := K.setIfNotExists_of_present C.key (C.value c) (C.ttl c) s.store hkey
    by_cases hdc : d = c
    · subst hdc
      rw [hset] at hs'
      rcases List.mem_or_eq_of_mem_set hs' with hold | hnew
      · exact hs hold
      · have hfalse : ((C.setup.call d).operation s.store).1 = false := congrArg Prod.fst hcall
        rw [hfalse] at hnew
        cases hnew
    · rw [hother d hdc] at hs'
      exact hs hs'
  · rcases heffects d with heq | heq <;> rw [heq] at hs'
    · exact absurd hs' hs
    · exact absurd (by simpa using hs') hs

/-- The invariant of the runs that meet the condition. -/
structure TruthInvariant (C : Clients X K ι κ) (s : ExecState X ι κ K.Store Bool) : Prop
    extends KeyInvariant C s where
  /-- The answers are truthful. -/
  truthful : C.Truthful s

/-- A step that meets the condition keeps the answers truthful. -/
lemma truthInvariant_step (s : ExecState X ι κ K.Store Bool) (l : ExecLabel κ)
    (s' : ExecState X ι κ K.Store Bool) (hs : TruthInvariant C s)
    (hl : C.NoAckAfterLostCreation s l) (h : C.setup.step s l = some s') :
    TruthInvariant C s' := by
  refine ⟨keyInvariant_step s l s' hs.toKeyInvariant h, ?_⟩
  rintro d ⟨hcreated, -⟩ hret
  by_cases hbefore : s.phase d = .returned (.ok false)
  · -- the call had returned before, so the key exists and nothing is created any more
    have hnot : some true ∉ Setup.attemptEffects s d :=
      fun hd => hs.truthful d ⟨hd, hs.value_eq d hd⟩ hbefore
    refine hs.present d false ?_ (absent_of_creates h hnot hcreated)
    simp [Setup.attemptEffects, hbefore, Setup.currentEffect]
  · obtain ⟨code, rfl, hphase, hcode, hfailed⟩ := Setup.returned_ok_step h hbefore hret
    have hnot := hl false code hphase hcode
    rw [← hfailed] at hnot
    refine hnot ?_
    simpa [Setup.attemptEffects, hret, Setup.currentEffect] using hcreated

/-- A step that breaks the condition tells the creator of the key that the key existed. -/
lemma not_truthful_of_ack {s s' : ExecState X ι κ K.Store Bool} {l : ExecLabel κ}
    (hs : KeyInvariant C s) (hl : ¬ C.NoAckAfterLostCreation s l)
    (h : C.setup.step s l = some s') : ¬ C.Truthful s' := by
  have hs' := keyInvariant_step s l s' hs h
  cases l with
  | publish c =>
    simp only [NoAckAfterLostCreation, not_forall, not_not] at hl
    obtain ⟨answer, code, hphase, hcode, hlost⟩ := hl
    -- the key was created by an attempt that was reported as failed, so the last one found it
    have hfalse : answer = false := by
      have honce := hs.created_once c
      rw [Setup.attemptEffects, hphase, List.count_append] at honce
      have hpos : 0 < (s.failed c).count (some true) := List.count_pos_iff.mpr hlost
      cases answer with
      | false => rfl
      | true =>
        simp [Setup.currentEffect] at honce
        omega
    subst hfalse
    obtain ⟨hret, hfailed⟩ := Setup.returned_of_publish h hphase hcode
    have hcreated : some true ∈ Setup.attemptEffects s' c := by
      rw [Setup.attemptEffects, hfailed]
      exact List.mem_append_left _ hlost
    intro htruthful
    exact htruthful c ⟨hcreated, hs'.value_eq c hcreated⟩ hret
  | _ => exact absurd trivial hl

end Clients

/-! ### Truthful answers -/

section TruthfulAnswers

variable {ι κ : Type*} [DecidableEq ι] [DecidableEq κ]

/-- In every run of either executor over an atomic store: no client whose write the key holds is
ever told that the key existed, if and only if no call returns the answer of an acknowledged
attempt after an earlier attempt of the call, reported as failed, has created the key. -/
theorem truthful_iff_no_ack_after_lost_creation (L : Lang) (K : AtomicKvStore)
    (C : Clients L.executor K ι κ) (clock : ℕ) (store : K.Store) (ls : List (ExecLabel κ)) :
    Always C.setup.step C.Truthful (C.setup.init clock store) ls ↔
      StepsMeet C.setup.step C.NoAckAfterLostCreation (C.setup.init clock store) ls := by
  have hinit : Clients.TruthInvariant C (C.setup.init clock store) := by
    refine ⟨⟨?_, ?_, ?_⟩, ?_⟩
    · intro c answer hc
      simp [Setup.attemptEffects, Setup.init, Setup.currentEffect] at hc
    · intro c hc
      simp [Setup.attemptEffects, Setup.init, Setup.currentEffect] at hc
    · intro c
      simp [Setup.attemptEffects, Setup.init, Setup.currentEffect]
    · rintro c - hret
      cases hret
  refine always_iff_stepsMeet Clients.truthInvariant_step ?_ ?_ hinit
  · intro s hs
    exact hs.truthful
  · intro s l s' hs hl h
    exact Clients.not_truthful_of_ack hs.toKeyInvariant hl h

/-- Clients of the Rust in-memory store with the default configuration. -/
def lockClientsRust : Clients Rust.executorModel Rust.memoryKvStore Unit ℕ where
  executor _ := ⟨.default, "kv", "memory"⟩
  via _ := ()
  key := "lock"
  value c := [UInt8.ofNat c]
  ttl _ := none

/-- Clients of the Go in-memory store with the default configuration. -/
def lockClientsGo : Clients Go.executorModel Go.memoryKvStore Unit ℕ where
  executor _ := .new ⟨0, 0, 0, 0, 0⟩ true "kv" "memory"
  via _ := ()
  key := "lock"
  value c := [UInt8.ofNat c]
  ttl _ := none

/-- The first attempt of the Rust client creates the key and times out; the second is
acknowledged. -/
def lostCreationRust : List (ExecLabel ℕ) :=
  committedTwiceRust ++ [.report 0, .publish 0, .publish 0]

/-- The first attempt of the Go client creates the key and its acknowledgement is lost; the second
is acknowledged. -/
def lostCreationGo : List (ExecLabel ℕ) :=
  committedTwiceGo ++ [.report 0, .publish 0, .publish 0]

/-- A client whose attempt created the absent key is told that the key existed, in either
library. -/
theorem creator_told_false :
    (¬ ∀ ls, Always lockClientsRust.setup.step lockClientsRust.Truthful
      (lockClientsRust.setup.init 0 ⟨fun _ => none⟩) ls) ∧
    ¬ ∀ ls, Always lockClientsGo.setup.step lockClientsGo.Truthful
      (lockClientsGo.setup.init 0 ⟨fun _ => none⟩) ls := by
  constructor
  · intro h
    obtain ⟨s, hrun, hfailed, hret, hkey⟩ : ∃ s, runFrom lockClientsRust.setup.step
        (lockClientsRust.setup.init 0 ⟨fun _ => none⟩) lostCreationRust = some s ∧
        s.failed 0 = [some true] ∧ s.phase 0 = .returned (.ok false) ∧
        Rust.memoryKvStore.get "lock" s.store = some [0] := ⟨_, rfl, rfl, rfl, rfl⟩
    refine h lostCreationRust _ s List.prefix_rfl hrun 0 ⟨?_, hkey⟩ hret
    simp [Setup.attemptEffects, hfailed]
  · intro h
    obtain ⟨s, hrun, hfailed, hret, hkey⟩ : ∃ s, runFrom lockClientsGo.setup.step
        (lockClientsGo.setup.init 0 ⟨fun _ => none⟩) lostCreationGo = some s ∧
        s.failed 0 = [some true] ∧ s.phase 0 = .returned (.ok false) ∧
        Go.memoryKvStore.get "lock" s.store = some [0] := ⟨_, rfl, rfl, rfl, rfl⟩
    refine h lostCreationGo _ s List.prefix_rfl hrun 0 ⟨?_, hkey⟩ hret
    simp [Setup.attemptEffects, hfailed]

end TruthfulAnswers

end GoyStore
