import GoyStore.Blob.GoLocalBlobStore
import GoyStore.Kv.TimeToLive
import GoyStore.Library.SharedCells
import GoyStore.PubSub.MemoryPubSub

/-!
# Slices and pointers in the in-memory stores of the Go library

A Go slice is a part of an array, and a caller that passes one to a store can still write to the
array.  `memoryKV` and `memoryPubSub` keep the slices that they are given and hand them out;
`memoryBlob` copies the data on the way in and on the way out, but keeps and hands out the pointer
to the metadata.

A `memoryKV` or a `memoryPubSub` holds and answers what a store of the byte strings themselves does,
in a run of any callers that call it and write to their arrays, if and only if no write changes a
byte that the store holds; the data of a `memoryBlob` are in every run those of a store of byte
strings, and the metadata if and only if no held metadata are changed (`memoryStores_by_reference`).
-/

namespace GoyStore

namespace Go

open Runs SharedCells

/-! ### Slices and pointers -/

/-- A slice: a part of an array. -/
structure Slice where
  /-- The number of the array. -/
  array : ℕ
  /-- Where the part begins. -/
  offset : ℕ
  /-- How long it is. -/
  length : ℕ
  deriving DecidableEq, Repr

/-- Arrays of bytes, written to byte by byte, and their slices. -/
def byteArrays : Memory (List UInt8) (ℕ × UInt8) Slice (List UInt8) where
  cell s := s.array
  view s bytes := (bytes.drop s.offset).take s.length
  edit w bytes := bytes.set w.1 w.2
  fresh v := v
  whole n v := ⟨n, 0, v.length⟩
  cell_whole _ _ := rfl
  view_whole _ _ := List.take_length

/-- An assignment to a field of metadata or to an entry of their map. -/
inductive MetadataWrite where
  /-- Assign to `ContentType`. -/
  | contentType (value : String)
  /-- Assign a new map or `nil` to `Custom`. -/
  | custom (value : Option (String → Option String))
  /-- Assign to an entry of `Custom`, or delete it. -/
  | entry (name : String) (value : Option String)

/-- What an assignment does; an entry of a `nil` map is never there. -/
def MetadataWrite.apply : MetadataWrite → Metadata → Metadata
  | .contentType value, md => { md with contentType := value }
  | .custom value, md => { md with custom := value }
  | .entry name value, md =>
    { md with custom := md.custom.map fun entries => Function.update entries name value }

/-- Variables with metadata, and the pointers to them.  Each variable has its own `Custom` map:
writes through a map that two variables share are left out. -/
def metadataVariables : Memory Metadata MetadataWrite ℕ Metadata where
  cell n := n
  view _ md := md
  edit := MetadataWrite.apply
  fresh md := md
  whole n _ := n
  cell_whole _ _ := rfl
  view_whole _ _ := rfl

/-- The zero value. -/
instance : Inhabited Metadata := ⟨⟨"", none⟩⟩

/-- No write changes a byte of a slice that the store holds. -/
def KeepsHeldBytes {State Op Ans : Type → Type} (B : Blind State Op Ans)
    (s : Sharing (List UInt8) Slice (List UInt8) State Ans) :
    CallerStep (ℕ × UInt8) (List UInt8) (Op Slice) → Prop
  | .change n (i, b) => ∀ r, B.Holds s.store r → r.array = n → r.offset ≤ i →
      i < r.offset + r.length → ∀ bytes, s.heap[n]? = some bytes → ∀ old, bytes[i]? = some old →
        b = old
  | _ => True

/-- The bytes of a part of an array after a write to the array. -/
lemma part_set_eq_iff (bytes : List UInt8) (offset length i : ℕ) (b : UInt8) :
    ((bytes.set i b).drop offset).take length = (bytes.drop offset).take length ↔
      (offset ≤ i → i < offset + length → ∀ old, bytes[i]? = some old → b = old) := by
  constructor
  · intro heq hoffset hlength old hold
    have hat := congrArg (·[i - offset]?) heq
    have hindex : offset + (i - offset) = i := by omega
    have hinside : i - offset < length := by omega
    simp only [List.getElem?_take, if_pos hinside, List.getElem?_drop, hindex] at hat
    rw [List.getElem?_set_self (List.getElem?_eq_some_iff.mp hold).1, hold] at hat
    exact Option.some.inj hat
  · intro hkeeps
    refine List.ext_getElem? fun k => ?_
    simp only [List.getElem?_take, List.getElem?_drop]
    split_ifs with hk
    · by_cases heq : i = offset + k
      · subst heq
        rcases hold : bytes[offset + k]? with - | old
        · rw [List.set_eq_of_length_le (List.getElem?_eq_none_iff.mp hold), hold]
        · rw [List.getElem?_set_self (List.getElem?_eq_some_iff.mp hold).1,
            hkeeps (Nat.le_add_right _ _) (by omega) old hold]
      · rw [List.getElem?_set_ne heq]
    · rfl

/-- A write leaves the values of the held slices alone if and only if it changes no byte of them. -/
lemma leavesHeld_iff {State Op Ans : Type → Type} (B : Blind State Op Ans)
    (s : Sharing (List UInt8) Slice (List UInt8) State Ans)
    (l : CallerStep (ℕ × UInt8) (List UInt8) (Op Slice)) :
    s.LeavesHeld byteArrays B l ↔ KeepsHeldBytes B s l := by
  rcases l with v | ⟨n, i, b⟩ | op
  · exact Iff.rfl
  · refine forall₂_congr fun r _ => ?_
    by_cases hn : r.array = n
    · subst hn
      rcases hbytes : s.heap[r.array]? with - | bytes
      · have hsame : byteArrays.read (s.heap.modify r.array (byteArrays.edit (i, b))) r =
            byteArrays.read s.heap r := by
          simp [Memory.read, byteArrays, hbytes]
        simp [hsame]
      · have hpart := part_set_eq_iff bytes r.offset r.length i b
        simpa [Memory.read, byteArrays, List.getElem?_modify, hbytes] using hpart
    · have hsame : byteArrays.read (s.heap.modify n (byteArrays.edit (i, b))) r =
          byteArrays.read s.heap r := Memory.read_modify_of_ne hn (byteArrays.edit (i, b))
      simp [hsame, hn]
  · exact Iff.rfl

/-! ### The key-value store -/

/-- A call with another value. -/
def mapCall {V W : Type} (f : V → W) :
    ExpiringMap.Call String V Int64 → ExpiringMap.Call String W Int64
  | .get key => .get key
  | .set key value ttl => .set key (f value) ttl
  | .delete key => .delete key
  | .contains key => .contains key
  | .setIfNotExists key value ttl => .setIfNotExists key (f value) ttl

/-- The value of a call. -/
def callValue {V : Type} : ExpiringMap.Call String V Int64 → Option V
  | .set _ value _ => some value
  | .setIfNotExists _ value _ => some value
  | _ => none

/-- An answer with another value. -/
def mapAnswer {V W : Type} (f : V → W) : ExpiringMap.Answer V → ExpiringMap.Answer W
  | .value found => .value (found.map f)
  | .done => .done
  | .flag b => .flag b

/-- The value of an answer. -/
def answerValue {V : Type} : ExpiringMap.Answer V → Option V
  | .value found => found
  | _ => none

/-- A map of other values after an assignment. -/
lemma map_update {V W : Type} (f : V → W) (m : String → Option V) (key : String) (o : Option V) :
    (fun k => (Function.update m key o k).map f) =
      Function.update (fun k => (m k).map f) key (o.map f) :=
  Function.comp_update (Option.map f) m key o

/-- `memoryKV` with values of any type. -/
def blindKV : Blind (fun V => String → Option V) (fun V => ExpiringMap.Call String V Int64)
    ExpiringMap.Answer where
  perform op m := ExpiringMap.performPlain m op
  mapState f m key := (m key).map f
  mapOp := mapCall
  mapAns := mapAnswer
  Holds m v := ∃ key, m key = some v
  given := callValue
  returned := answerValue
  natural f op m := by
    rcases op with key | ⟨key, value, ttl⟩ | key | key | ⟨key, value, ttl⟩
    · rfl
    · simp [ExpiringMap.performPlain, mapCall, mapAnswer, map_update]
    · simp [ExpiringMap.performPlain, mapCall, mapAnswer, map_update]
    · simp [ExpiringMap.performPlain, mapCall, mapAnswer]
    · rcases hkey : m key with - | old
      · simp [ExpiringMap.performPlain, mapCall, mapAnswer, map_update, hkey]
      · simp [ExpiringMap.performPlain, mapCall, mapAnswer, hkey]
  mapState_eq_iff f g m := by
    constructor
    · rintro h v ⟨key, hkey⟩
      have hat := congrFun h key
      rw [hkey, Option.map_some, Option.map_some] at hat
      exact Option.some.inj hat
    · intro h
      funext key
      exact Option.map_congr fun v hv => h v ⟨key, hv⟩
  mapOp_congr f g op h := by
    rcases op with key | ⟨key, value, ttl⟩ | key | key | ⟨key, value, ttl⟩
    · rfl
    · rw [mapCall, mapCall, h value rfl]
    · rfl
    · rfl
    · rw [mapCall, mapCall, h value rfl]
  mapAns_congr f g ans h := by
    rcases ans with found | - | b
    · exact congrArg _ (Option.map_congr h)
    · rfl
    · rfl
  mapOp_mapOp f g op := by cases op <;> rfl
  mapAns_mapAns f g ans := by
    rcases ans with found | - | b
    · exact congrArg _ (Option.map_map g f found)
    · rfl
    · rfl
  given_mapOp f op := by cases op <;> rfl
  returned_mapAns f ans := by cases ans <;> rfl
  holds_perform op m v := by
    have hupdate : ∀ (key : String) (o : Option _), (∃ k, Function.update m key o k = some v) →
        (∃ k, m k = some v) ∨ o = some v := by
      rintro key o ⟨k, hk⟩
      by_cases heq : k = key
      · subst heq
        exact .inr (Function.update_self k o m ▸ hk)
      · exact .inl ⟨k, Function.update_of_ne heq o m ▸ hk⟩
    rcases op with key | ⟨key, value, ttl⟩ | key | key | ⟨key, value, ttl⟩
    · exact .inl
    · exact hupdate key (some value)
    · exact fun h => .inl ((hupdate key none h).resolve_right (Option.some_ne_none v).symm)
    · exact .inl
    · intro h
      rw [ExpiringMap.performPlain] at h
      split_ifs at h
      · exact .inl h
      · exact hupdate key (some value) h
  returned_perform op m v := by
    rcases op with key | ⟨key, value, ttl⟩ | key | key | ⟨key, value, ttl⟩
    · exact fun h => .inl ⟨key, h⟩
    · exact fun h => absurd h (Option.not_mem_none v)
    · exact fun h => absurd h (Option.not_mem_none v)
    · exact fun h => absurd h (Option.not_mem_none v)
    · intro h
      rw [ExpiringMap.performPlain] at h
      split_ifs at h
      · exact absurd h (Option.not_mem_none v)
      · exact absurd h (Option.not_mem_none v)

/-! ### The pub/sub store -/

/-- A `Message` with a payload of any type. -/
structure MessageOf (V : Type) where
  /-- The field `Channel`. -/
  channel : String
  /-- The field `Payload`. -/
  payload : V
  /-- The field `Timestamp`. -/
  timestamp : ℤ

/-- A message with another payload. -/
def MessageOf.map {V W : Type} (f : V → W) (msg : MessageOf V) : MessageOf W :=
  ⟨msg.channel, f msg.payload, msg.timestamp⟩

/-- `memoryPubSub` with payloads of any type, and the Go channels that it made. -/
structure PubSubOf (V : Type) where
  /-- The field `subscribers`. -/
  subscribers : String → Finset ℕ
  /-- The buffers of the Go channels. -/
  chans : List (List (MessageOf V))

/-- A call of the store, or what a consumer does. -/
inductive PubSubOpOf (V : Type) where
  /-- `Publish`. -/
  | publish (channel : String) (payload : V) (timestamp : ℤ)
  /-- `Subscribe`. -/
  | subscribe (channels : List String)
  /-- `Unsubscribe`. -/
  | unsubscribe (channels : List String)
  /-- The consumer of a Go channel receives the next message. -/
  | receive (j : ℕ)

/-- What a call returns: the message that was received. -/
abbrev PubSubAnswer (V : Type) := Option (MessageOf V)

/-- The buffer of a Go channel after the `select` of `Publish`: a full one is skipped. -/
def offeredTo {V : Type} (msg : MessageOf V) (buffer : List (MessageOf V)) : List (MessageOf V) :=
  if buffer.length < MemoryPubSub.capacity then buffer ++ [msg] else buffer

/-- What a call does. -/
def PubSubOf.perform {V : Type} (s : PubSubOf V) : PubSubOpOf V → PubSubOf V × PubSubAnswer V
  | .publish channel payload timestamp =>
    ({ s with
      chans := s.chans.mapIdx fun j buffer =>
        if j ∈ s.subscribers channel then offeredTo ⟨channel, payload, timestamp⟩ buffer
        else buffer }, none)
  | .subscribe channels =>
    (⟨channels.foldl
      (fun subs channel => Function.update subs channel (insert s.chans.length (subs channel)))
      s.subscribers, s.chans ++ [[]]⟩, none)
  | .unsubscribe channels =>
    ({ s with
      subscribers := channels.foldl (fun subs channel => Function.update subs channel ∅)
        s.subscribers }, none)
  | .receive j =>
    ({ s with chans := s.chans.modify j List.tail }, (s.chans[j]?.getD []).head?)

/-- A call with another payload. -/
def PubSubOpOf.map {V W : Type} (f : V → W) : PubSubOpOf V → PubSubOpOf W
  | .publish channel payload timestamp => .publish channel (f payload) timestamp
  | .subscribe channels => .subscribe channels
  | .unsubscribe channels => .unsubscribe channels
  | .receive j => .receive j

/-- The payload of a call. -/
def PubSubOpOf.payload {V : Type} : PubSubOpOf V → Option V
  | .publish _ payload _ => some payload
  | _ => none

/-- The store with other payloads. -/
def PubSubOf.map {V W : Type} (f : V → W) (s : PubSubOf V) : PubSubOf W :=
  ⟨s.subscribers, s.chans.map (List.map (MessageOf.map f))⟩

/-- The store of byte strings is the `memoryPubSub` of the other modules. -/
def PubSubOf.toMemoryPubSub (s : PubSubOf (List UInt8)) : MemoryPubSub :=
  ⟨s.subscribers, s.chans.map (List.map fun msg => ⟨msg.channel, msg.payload, msg.timestamp⟩)⟩

/-- A full buffer is full with other payloads. -/
lemma map_offeredTo {V W : Type} (f : V → W) (msg : MessageOf V) (buffer : List (MessageOf V)) :
    (offeredTo msg buffer).map (MessageOf.map f) =
      offeredTo (msg.map f) (buffer.map (MessageOf.map f)) := by
  rw [offeredTo, offeredTo, List.length_map]
  split_ifs
  · rw [List.map_append, List.map_singleton]
  · rfl

/-- What a buffer holds after an offer. -/
lemma mem_offeredTo {V : Type} {msg m : MessageOf V} {buffer : List (MessageOf V)}
    (h : m ∈ offeredTo msg buffer) : m ∈ buffer ∨ m = msg := by
  rw [offeredTo] at h
  split_ifs at h
  · exact (List.mem_append.mp h).imp_right List.mem_singleton.mp
  · exact .inl h

/-- `memoryPubSub` with payloads of any type. -/
def blindPubSub : Blind PubSubOf PubSubOpOf PubSubAnswer where
  perform op s := s.perform op
  mapState := PubSubOf.map
  mapOp := PubSubOpOf.map
  mapAns f ans := ans.map (MessageOf.map f)
  Holds s v := ∃ buffer ∈ s.chans, ∃ msg ∈ buffer, msg.payload = v
  given := PubSubOpOf.payload
  returned ans := ans.map MessageOf.payload
  natural f op s := by
    rcases op with ⟨channel, payload, timestamp⟩ | channels | channels | j
    · refine Prod.ext (congrArg (PubSubOf.mk s.subscribers) ?_) rfl
      refine List.ext_getElem? fun k => ?_
      simp only [PubSubOf.perform, PubSubOf.map, List.getElem?_mapIdx, List.getElem?_map,
        Option.map_map]
      refine Option.map_congr fun buffer _ => ?_
      by_cases hk : k ∈ s.subscribers channel
      · rw [Function.comp_apply, Function.comp_apply, if_pos hk, map_offeredTo]
        exact if_pos hk
      · rw [Function.comp_apply, Function.comp_apply, if_neg hk]
        exact if_neg hk
    · simp [PubSubOf.perform, PubSubOf.map, PubSubOpOf.map]
    · rfl
    · have hchans : (s.map f).chans.modify j List.tail =
          (s.chans.modify j List.tail).map (List.map (MessageOf.map f)) := by
        refine List.ext_getElem? fun k => ?_
        simp only [PubSubOf.map, List.getElem?_modify, List.getElem?_map]
        rcases s.chans[k]? with - | buffer
        · rfl
        · by_cases hk : j = k
          · simp [hk]
          · simp [hk]
      refine Prod.ext (congrArg (PubSubOf.mk s.subscribers) hchans) ?_
      simp only [PubSubOf.perform, PubSubOf.map, PubSubOpOf.map, List.getElem?_map]
      rcases s.chans[j]? with - | buffer
      · rfl
      · exact List.head?_map
  mapState_eq_iff f g s := by
    constructor
    · rintro h v ⟨buffer, hbuffer, msg, hmsg, rfl⟩
      have hchans := List.map_inj_left.mp (congrArg PubSubOf.chans h) buffer hbuffer
      exact congrArg MessageOf.payload (List.map_inj_left.mp hchans msg hmsg)
    · intro h
      refine congrArg (PubSubOf.mk s.subscribers) (List.map_inj_left.mpr fun buffer hbuffer => ?_)
      refine List.map_inj_left.mpr fun msg hmsg => ?_
      rw [MessageOf.map, MessageOf.map, h _ ⟨buffer, hbuffer, msg, hmsg, rfl⟩]
  mapOp_congr f g op h := by
    rcases op with ⟨channel, payload, timestamp⟩ | channels | channels | j
    · rw [PubSubOpOf.map, PubSubOpOf.map, h payload rfl]
    · rfl
    · rfl
    · rfl
  mapAns_congr f g ans h := by
    refine Option.map_congr fun msg hmsg => ?_
    rw [MessageOf.map, MessageOf.map, h _ (Option.mem_map_of_mem _ hmsg)]
  mapOp_mapOp f g op := by cases op <;> rfl
  mapAns_mapAns f g ans := Option.map_map ..
  given_mapOp f op := by cases op <;> rfl
  returned_mapAns f ans := by rw [Option.map_map, Option.map_map]; rfl
  holds_perform op s v := by
    rcases op with ⟨channel, payload, timestamp⟩ | channels | channels | j
    · rintro ⟨buffer, hbuffer, msg, hmsg, rfl⟩
      obtain ⟨k, hk, rfl⟩ := List.mem_mapIdx.mp hbuffer
      split_ifs at hmsg
      · rcases mem_offeredTo hmsg with hold | rfl
        · exact .inl ⟨_, List.getElem_mem hk, msg, hold, rfl⟩
        · exact .inr rfl
      · exact .inl ⟨_, List.getElem_mem hk, msg, hmsg, rfl⟩
    · rintro ⟨buffer, hbuffer, msg, hmsg, rfl⟩
      rcases List.mem_append.mp hbuffer with hold | hnew
      · exact .inl ⟨buffer, hold, msg, hmsg, rfl⟩
      · rw [List.mem_singleton.mp hnew] at hmsg
        exact absurd hmsg List.not_mem_nil
    · exact .inl
    · rintro ⟨buffer, hbuffer, msg, hmsg, rfl⟩
      obtain ⟨k, hk⟩ := List.getElem?_of_mem hbuffer
      rw [PubSubOf.perform, List.getElem?_modify, Option.map_eq_map,
        Option.map_eq_some_iff] at hk
      obtain ⟨old, hold, rfl⟩ := hk
      refine .inl ⟨old, List.mem_of_getElem? hold, msg, ?_, rfl⟩
      split_ifs at hmsg
      · exact List.mem_of_mem_tail hmsg
      · exact hmsg
  returned_perform op s v := by
    rcases op with ⟨channel, payload, timestamp⟩ | channels | channels | j
    · exact fun h => absurd h (Option.not_mem_none v)
    · exact fun h => absurd h (Option.not_mem_none v)
    · exact fun h => absurd h (Option.not_mem_none v)
    · intro h
      obtain ⟨msg, hmsg, rfl⟩ := Option.mem_map.mp h
      refine .inl ?_
      rcases hbuffer : s.chans[j]? with - | buffer
      · simp [PubSubOf.perform, hbuffer] at hmsg
      · simp only [PubSubOf.perform, hbuffer, Option.getD_some] at hmsg
        exact ⟨buffer, List.mem_of_getElem? hbuffer, msg, List.mem_of_mem_head? hmsg, rfl⟩

/-- A call of the `memoryPubSub` of the other modules. -/
def MemoryPubSub.performed (m : MemoryPubSub) : PubSubOpOf (List UInt8) → MemoryPubSub
  | .publish channel payload timestamp => m.deliver ⟨channel, payload, timestamp⟩
  | .subscribe channels => m.subscribe channels
  | .unsubscribe channels => m.unsubscribe channels
  | .receive j => m.receive j

/-- With byte strings the store is the `memoryPubSub` of the other modules. -/
theorem toMemoryPubSub_perform (s : PubSubOf (List UInt8)) (op : PubSubOpOf (List UInt8)) :
    (s.perform op).1.toMemoryPubSub = s.toMemoryPubSub.performed op := by
  rcases op with ⟨channel, payload, timestamp⟩ | channels | channels | j
  · refine congrArg (MemoryPubSub.mk s.subscribers) (List.ext_getElem? fun k => ?_)
    simp only [PubSubOf.perform, PubSubOf.toMemoryPubSub, List.getElem?_mapIdx,
      List.getElem?_map, Option.map_map]
    refine Option.map_congr fun buffer _ => ?_
    by_cases hk : k ∈ s.subscribers channel
    · simp only [Function.comp_apply, if_pos hk, offeredTo, MemoryPubSub.offered, List.length_map]
      split_ifs
      · rw [List.map_append, List.map_singleton]
      · rfl
    · rw [Function.comp_apply, Function.comp_apply, if_neg hk]
      exact (if_neg hk).symm
  · simp [PubSubOf.perform, PubSubOf.toMemoryPubSub, MemoryPubSub.performed,
      MemoryPubSub.subscribe]
  · rfl
  · refine congrArg (MemoryPubSub.mk s.subscribers) (List.ext_getElem? fun k => ?_)
    simp only [PubSubOf.perform, PubSubOf.toMemoryPubSub, List.getElem?_modify,
      List.getElem?_map]
    rcases s.chans[k]? with - | buffer
    · rfl
    · by_cases hk : j = k
      · simp [hk]
      · simp [hk]

/-! ### The blob store -/

/-- `blobData`, with data and pointers of any type. -/
structure BlobDataOf (D P : Type) where
  /-- The field `data`. -/
  data : D
  /-- The field `metadata`. -/
  metadata : Option P

/-- A blob with other data and another pointer. -/
def BlobDataOf.map {D P D' P' : Type} (f : D → D') (g : P → P') (b : BlobDataOf D P) :
    BlobDataOf D' P' :=
  ⟨f b.data, b.metadata.map g⟩

/-- `memoryBlob`, with data and pointers of any type; the entries of the map in some order. -/
abbrev BlobsOf (D P : Type) := List (String × BlobDataOf D P)

/-- A call of the store. -/
inductive BlobOpOf (D P : Type) where
  /-- `Put`. -/
  | put (key : String) (data : D) (metadata : Option P)
  /-- `Get`. -/
  | get (key : String)
  /-- `Delete`. -/
  | delete (key : String)
  /-- `List`. -/
  | list (start : Option String)

/-- What a call returns. -/
inductive BlobAnswerOf (D P : Type) where
  /-- Data and metadata, if the key is there. -/
  | found (blob : Option (BlobDataOf D P))
  /-- Keys. -/
  | keys (names : List String)
  /-- Nothing. -/
  | done

/-- A call with other data and another pointer. -/
def BlobOpOf.map {D P D' P' : Type} (f : D → D') (g : P → P') : BlobOpOf D P → BlobOpOf D' P'
  | .put key data metadata => .put key (f data) (metadata.map g)
  | .get key => .get key
  | .delete key => .delete key
  | .list start => .list start

/-- An answer with other data and another pointer. -/
def BlobAnswerOf.map {D P D' P' : Type} (f : D → D') (g : P → P') :
    BlobAnswerOf D P → BlobAnswerOf D' P'
  | .found blob => .found (blob.map (BlobDataOf.map f g))
  | .keys names => .keys names
  | .done => .done

section Replacements

variable {D P D' P' D'' P'' : Type}

/-- Two replacements, one after the other. -/
lemma BlobOpOf.map_map (f : D → D') (g : P → P') (f' : D' → D'') (g' : P' → P'')
    (op : BlobOpOf D P) : (op.map f g).map f' g' = op.map (f' ∘ f) (g' ∘ g) := by
  rcases op with ⟨key, data, metadata⟩ | key | key | start
  · simp [BlobOpOf.map]
  · rfl
  · rfl
  · rfl

/-- Two replacements, one after the other. -/
lemma BlobAnswerOf.map_map (f : D → D') (g : P → P') (f' : D' → D'') (g' : P' → P'')
    (ans : BlobAnswerOf D P) : (ans.map f g).map f' g' = ans.map (f' ∘ f) (g' ∘ g) := by
  rcases ans with (- | b) | names | -
  · rfl
  · simp [BlobAnswerOf.map, BlobDataOf.map]
  · rfl
  · rfl

/-- The data of a call. -/
def BlobOpOf.data : BlobOpOf D P → Option D
  | .put _ data _ => some data
  | _ => none

/-- The pointer of a call. -/
def BlobOpOf.metadata : BlobOpOf D P → Option P
  | .put _ _ metadata => metadata
  | _ => none

/-- The data in an answer. -/
def BlobAnswerOf.data : BlobAnswerOf D P → Option D
  | .found blob => blob.map BlobDataOf.data
  | _ => none

/-- The pointer in an answer. -/
def BlobAnswerOf.metadata : BlobAnswerOf D P → Option P
  | .found blob => blob.bind BlobDataOf.metadata
  | _ => none

/-- An answer with data has a blob. -/
lemma BlobAnswerOf.exists_of_data {ans : BlobAnswerOf D P} {v : D} (h : v ∈ ans.data) :
    ∃ b, ans = .found (some b) ∧ b.data = v := by
  rcases ans with blob | names | -
  · obtain ⟨b, rfl, hb⟩ := Option.map_eq_some_iff.mp h
    exact ⟨b, rfl, hb⟩
  · exact absurd h (Option.not_mem_none v)
  · exact absurd h (Option.not_mem_none v)

/-- An answer with a pointer has a blob. -/
lemma BlobAnswerOf.exists_of_metadata {ans : BlobAnswerOf D P} {v : P} (h : v ∈ ans.metadata) :
    ∃ b, ans = .found (some b) ∧ b.metadata = some v := by
  rcases ans with blob | names | -
  · obtain ⟨b, rfl, hb⟩ := Option.bind_eq_some_iff.mp h
    exact ⟨b, rfl, hb⟩
  · exact absurd h (Option.not_mem_none v)
  · exact absurd h (Option.not_mem_none v)

end Replacements

namespace BlobsOf

variable {D P D' P' : Type}

/-- The entries of the other keys. -/
def without (key : String) (blobs : BlobsOf D P) : BlobsOf D P := blobs.filter fun b => b.1 != key

/-- The blob of a key. -/
def blobAt (key : String) (blobs : BlobsOf D P) : Option (BlobDataOf D P) :=
  (blobs.find? fun b => b.1 == key).map Prod.snd

/-- `memoryBlob.List`, whatever the order of the entries. -/
def listed (start : Option String) (blobs : BlobsOf D P) : List String :=
  ((blobs.map Prod.fst).filter fun k => match start with
    | none => true
    | some p => p.toList.isPrefixOf k.toList).mergeSort fun a b => a ≤ b

/-- What a call does. -/
def perform (blobs : BlobsOf D P) : BlobOpOf D P → BlobsOf D P × BlobAnswerOf D P
  | .put key data metadata => (blobs.without key ++ [(key, ⟨data, metadata⟩)], .done)
  | .get key => (blobs, .found (blobs.blobAt key))
  | .delete key => (blobs.without key, .done)
  | .list start => (blobs, .keys (blobs.listed start))

/-- The store with other data and pointers. -/
def map (f : D → D') (g : P → P') (blobs : BlobsOf D P) : BlobsOf D' P' :=
  List.map (Prod.map id (BlobDataOf.map f g)) blobs

/-- An entry after a call was there before or is put. -/
lemma exists_of_mem_perform {op : BlobOpOf D P} {blobs : BlobsOf D P} {b : String × BlobDataOf D P}
    (h : b ∈ (blobs.perform op).1) :
    b ∈ blobs ∨ ∃ key data metadata, op = .put key data metadata ∧ b = (key, ⟨data, metadata⟩) := by
  rcases op with ⟨key, data, metadata⟩ | key | key | start
  · rcases List.mem_append.mp h with hold | hnew
    · exact .inl (List.mem_of_mem_filter hold)
    · exact .inr ⟨key, data, metadata, rfl, List.mem_singleton.mp hnew⟩
  · exact .inl h
  · exact .inl (List.mem_of_mem_filter h)
  · exact .inl h

/-- A blob that a call returns is in the store. -/
lemma exists_of_found {op : BlobOpOf D P} {blobs : BlobsOf D P} {b : BlobDataOf D P}
    (h : (blobs.perform op).2 = .found (some b)) : ∃ key, (key, b) ∈ blobs := by
  rcases op with ⟨key, data, metadata⟩ | key | key | start
  · cases h
  · obtain ⟨⟨key', b'⟩, hfind, rfl⟩ := Option.map_eq_some_iff.mp (BlobAnswerOf.found.inj h)
    exact ⟨key', List.mem_of_find?_eq_some hfind⟩
  · cases h
  · cases h

/-- The other keys of a store with other data and pointers. -/
lemma map_without (f : D → D') (g : P → P') (key : String) (blobs : BlobsOf D P) :
    (blobs.map f g).without key = (blobs.without key).map f g :=
  List.filter_map ..

/-- A call never looks into data or metadata. -/
lemma perform_map (f : D → D') (g : P → P') (op : BlobOpOf D P) (blobs : BlobsOf D P) :
    (blobs.map f g).perform (op.map f g) =
      ((blobs.perform op).1.map f g, (blobs.perform op).2.map f g) := by
  rcases op with ⟨key, data, metadata⟩ | key | key | start
  · refine Prod.ext ?_ rfl
    change (blobs.map f g).without key ++ [_] = List.map _ (blobs.without key ++ [_])
    rw [map_without, List.map_append]
    rfl
  · refine Prod.ext rfl (congrArg BlobAnswerOf.found ?_)
    simp only [blobAt, map, List.find?_map, Option.map_map]
    rfl
  · exact Prod.ext (map_without f g key blobs) rfl
  · refine Prod.ext rfl (congrArg BlobAnswerOf.keys ?_)
    simp only [listed, map, List.map_map]
    rfl

/-- Stores with other data and pointers are the same if and only if all entries are. -/
lemma map_eq_iff (f f' : D → D') (g g' : P → P') (blobs : BlobsOf D P) :
    blobs.map f g = blobs.map f' g' ↔
      ∀ b ∈ blobs, f b.2.data = f' b.2.data ∧ b.2.metadata.map g = b.2.metadata.map g' := by
  refine List.map_inj_left.trans (forall₂_congr fun b _ => ?_)
  simp [BlobDataOf.map, Prod.map]

end BlobsOf

/-- `memoryBlob` with data of any type, beside the same pointers. -/
def blindBlobData : Blind (fun D => BlobsOf D ℕ) (fun D => BlobOpOf D ℕ)
    (fun D => BlobAnswerOf D ℕ) where
  perform op blobs := blobs.perform op
  mapState f blobs := blobs.map f id
  mapOp f op := op.map f id
  mapAns f ans := ans.map f id
  Holds blobs v := ∃ b ∈ blobs, b.2.data = v
  given := BlobOpOf.data
  returned := BlobAnswerOf.data
  natural f op blobs := BlobsOf.perform_map f id op blobs
  mapState_eq_iff f g blobs := by
    refine (BlobsOf.map_eq_iff f g id id blobs).trans ?_
    constructor
    · rintro h v ⟨b, hb, rfl⟩
      exact (h b hb).1
    · exact fun h b hb => ⟨h _ ⟨b, hb, rfl⟩, rfl⟩
  mapOp_congr f g op h := by
    rcases op with ⟨key, data, metadata⟩ | key | key | start
    · simp only [BlobOpOf.map, h data rfl]
    · rfl
    · rfl
    · rfl
  mapAns_congr f g ans h := by
    rcases ans with (- | b) | names | -
    · rfl
    · simp only [BlobAnswerOf.map, Option.map_some, BlobDataOf.map, h b.data rfl]
    · rfl
    · rfl
  mapOp_mapOp f g op := BlobOpOf.map_map f id g id op
  mapAns_mapAns f g ans := BlobAnswerOf.map_map f id g id ans
  given_mapOp f op := by cases op <;> rfl
  returned_mapAns f ans := by
    rcases ans with (- | b) | names | - <;> rfl
  holds_perform op blobs v := by
    rintro ⟨b, hb, rfl⟩
    rcases BlobsOf.exists_of_mem_perform hb with hold | ⟨key, data, metadata, rfl, rfl⟩
    · exact .inl ⟨b, hold, rfl⟩
    · exact .inr rfl
  returned_perform op blobs v h := by
    obtain ⟨b, hb, rfl⟩ := BlobAnswerOf.exists_of_data h
    obtain ⟨key, hkey⟩ := BlobsOf.exists_of_found hb
    exact .inl ⟨_, hkey, rfl⟩

/-- `memoryBlob` with pointers of any type, beside the same data. -/
def blindBlobMetadata : Blind (fun P => BlobsOf (List UInt8) P)
    (fun P => BlobOpOf (List UInt8) P) (fun P => BlobAnswerOf (List UInt8) P) where
  perform op blobs := blobs.perform op
  mapState g blobs := blobs.map id g
  mapOp g op := op.map id g
  mapAns g ans := ans.map id g
  Holds blobs v := ∃ b ∈ blobs, b.2.metadata = some v
  given := BlobOpOf.metadata
  returned := BlobAnswerOf.metadata
  natural g op blobs := BlobsOf.perform_map id g op blobs
  mapState_eq_iff f g blobs := by
    refine (BlobsOf.map_eq_iff id id f g blobs).trans ?_
    constructor
    · rintro h v ⟨b, hb, hv⟩
      have hmap := (h b hb).2
      rw [hv, Option.map_some, Option.map_some] at hmap
      exact Option.some.inj hmap
    · exact fun h b hb => ⟨rfl, Option.map_congr fun v hv => h v ⟨b, hb, hv⟩⟩
  mapOp_congr f g op h := by
    rcases op with ⟨key, data, metadata⟩ | key | key | start
    · exact congrArg (BlobOpOf.put key data) (Option.map_congr h)
    · rfl
    · rfl
    · rfl
  mapAns_congr f g ans h := by
    rcases ans with (- | b) | names | -
    · rfl
    · have hmap : b.metadata.map f = b.metadata.map g := Option.map_congr h
      simp only [BlobAnswerOf.map, Option.map_some, BlobDataOf.map, hmap]
    · rfl
    · rfl
  mapOp_mapOp f g op := BlobOpOf.map_map id f id g op
  mapAns_mapAns f g ans := BlobAnswerOf.map_map id f id g ans
  given_mapOp f op := by cases op <;> rfl
  returned_mapAns f ans := by
    rcases ans with (- | b) | names | - <;> rfl
  holds_perform op blobs v := by
    rintro ⟨b, hb, hv⟩
    rcases BlobsOf.exists_of_mem_perform hb with hold | ⟨key, data, metadata, rfl, rfl⟩
    · exact .inl ⟨b, hold, hv⟩
    · exact .inr hv
  returned_perform op blobs v h := by
    obtain ⟨b, hb, hv⟩ := BlobAnswerOf.exists_of_metadata h
    obtain ⟨key, hkey⟩ := BlobsOf.exists_of_found hb
    exact .inl ⟨_, hkey, hv⟩

/-! ### The stores by reference -/

/-- The in-memory stores of the Go library, in any run of callers that call them and write to their
arrays and variables.  The key-value and the pub/sub store hold and answer what stores of the byte
strings do if and only if no write changes a byte that the store holds; the blob store holds and
answers the data that a store of byte strings does, and the metadata if and only if no write changes
metadata that it holds. -/
theorem memoryStores_by_reference :
    (∀ ls, Always (Sharing.step byteArrays blindKV false) (Sharing.Faithful byteArrays blindKV)
        (Sharing.start byteArrays blindKV fun _ => none) ls ↔
      StepsMeet (Sharing.step byteArrays blindKV false) (KeepsHeldBytes blindKV)
        (Sharing.start byteArrays blindKV fun _ => none) ls) ∧
    (∀ ls, Always (Sharing.step byteArrays blindPubSub false)
        (Sharing.Faithful byteArrays blindPubSub)
        (Sharing.start byteArrays blindPubSub ⟨fun _ => ∅, []⟩) ls ↔
      StepsMeet (Sharing.step byteArrays blindPubSub false) (KeepsHeldBytes blindPubSub)
        (Sharing.start byteArrays blindPubSub ⟨fun _ => ∅, []⟩) ls) ∧
    (∀ ls, Always (Sharing.step byteArrays blindBlobData true)
        (Sharing.Faithful byteArrays blindBlobData)
        (Sharing.start byteArrays blindBlobData []) ls) ∧
    ∀ ls, Always (Sharing.step metadataVariables blindBlobMetadata false)
        (Sharing.Faithful metadataVariables blindBlobMetadata)
        (Sharing.start metadataVariables blindBlobMetadata []) ls ↔
      StepsMeet (Sharing.step metadataVariables blindBlobMetadata false)
        (Sharing.LeavesHeld metadataVariables blindBlobMetadata)
        (Sharing.start metadataVariables blindBlobMetadata []) ls := by
  refine ⟨fun ls => ?_, fun ls => ?_, fun ls => ?_, fun ls => ?_⟩
  · rw [← stepsMeet_congr (leavesHeld_iff blindKV)]
    refine Sharing.always_faithful_iff (M := byteArrays) (B := blindKV) ?_ ls
    rintro r ⟨key, hkey⟩
    cases hkey
  · rw [← stepsMeet_congr (leavesHeld_iff blindPubSub)]
    refine Sharing.always_faithful_iff ?_ ls
    rintro r ⟨buffer, hbuffer, -⟩
    exact List.not_mem_nil hbuffer
  · refine Sharing.always_faithful (M := byteArrays) (B := blindBlobData) ?_ ls
    rintro r ⟨b, hb, -⟩
    exact List.not_mem_nil hb
  · refine Sharing.always_faithful_iff ?_ ls
    rintro r ⟨b, hb, -⟩
    exact List.not_mem_nil hb

end Go

end GoyStore
