import GoyStore.PubSub.MemoryPubSub
import GoyStore.PubSub.RedisPubSubStore

/-!
# What the streams of the two in-memory pub/sub stores yield

The `memoryPubSub` of the Go library registers a stream for every channel of the list, until the
channel is unsubscribed.  The `MemoryPubSubStore` of the Rust library has a broadcast sender for
each channel; a stream is a receiver of the sender of the first channel of the list, and
`unsubscribe` does nothing.

`expected` and `expectedFirst` say what a stream yields, from the calls made after its `subscribe`.
The two differ on a list of two channels (`second_channel_yields_in_go_only`), and they are the
same for one channel that is not unsubscribed (`memory_streams_yield`).
-/

namespace GoyStore

open Runs

/-! ### Calls -/

/-- A call of a pub/sub store, or its consumer at work. -/
inductive PubSubCall where
  /-- A call of `subscribe`. -/
  | subscribe (channels : List String)
  /-- A call of `unsubscribe`. -/
  | unsubscribe (channels : List String)
  /-- A call of `publish`, at a time of the clock. -/
  | publish (channel : String) (payload : List UInt8) (timestamp : ℤ)
  /-- The consumer of a stream takes the next message, if there is one. -/
  | receive (i : ℕ)
  deriving DecidableEq, Repr

/-- The number of streams that the calls created. -/
def streamCount (calls : List PubSubCall) : ℕ :=
  calls.countP fun call => match call with
    | .subscribe _ => true
    | _ => false

/-- The messages published on one of the channels, each channel until it is unsubscribed. -/
def expected (channels : List String) : List PubSubCall → List (String × List UInt8)
  | [] => []
  | .publish channel payload _ :: calls =>
    if channel ∈ channels then (channel, payload) :: expected channels calls
    else expected channels calls
  | .unsubscribe ended :: calls => expected (channels.filter (· ∉ ended)) calls
  | .subscribe _ :: calls => expected channels calls
  | .receive _ :: calls => expected channels calls

/-- The messages published on the channel. -/
def expectedFirst (channel : String) : List PubSubCall → List (String × List UInt8)
  | [] => []
  | .publish published payload _ :: calls =>
    if published = channel then (published, payload) :: expectedFirst channel calls
    else expectedFirst channel calls
  | .unsubscribe _ :: calls => expectedFirst channel calls
  | .subscribe _ :: calls => expectedFirst channel calls
  | .receive _ :: calls => expectedFirst channel calls

/-- The calls unsubscribe no channel of the list. -/
def NeverUnsubscribed (channels : List String) (calls : List PubSubCall) : Prop :=
  ∀ ended, .unsubscribe ended ∈ calls → ∀ channel ∈ channels, channel ∉ ended

/-- For one channel that is never unsubscribed, the two say the same. -/
lemma expected_eq_expectedFirst {channels : List String} {channel : String}
    (hone : ∀ c, c ∈ channels ↔ c = channel) {calls : List PubSubCall}
    (hnever : NeverUnsubscribed channels calls) :
    expected channels calls = expectedFirst channel calls := by
  induction calls with
  | nil => rfl
  | cons call calls ih =>
    have hrest : expected channels calls = expectedFirst channel calls :=
      ih fun ended hended => hnever ended (List.mem_cons_of_mem call hended)
    cases call with
    | subscribe listed => exact hrest
    | receive i => exact hrest
    | publish published payload timestamp =>
      unfold expected expectedFirst
      rw [hrest]
      simp only [hone published]
    | unsubscribe ended =>
      have hkept : channels.filter (· ∉ ended) = channels := by
        apply List.filter_eq_self.mpr
        intro c hc
        exact decide_eq_true (hnever ended List.mem_cons_self c hc)
      unfold expected expectedFirst
      rw [hkept]
      exact hrest

/-! ### Go -/

namespace Go

/-- A `memoryPubSub` with the messages that the consumers have taken. -/
structure MemoryStreams where
  /-- The store. -/
  store : MemoryPubSub
  /-- The messages that the consumer of each stream has taken. -/
  taken : List (List Message)

namespace MemoryStreams

/-- A new store. -/
def init : MemoryStreams := ⟨.init, []⟩

/-- The consumer of a stream takes the next message. -/
def receive (s : MemoryStreams) (i : ℕ) : MemoryStreams :=
  match s.store.chans[i]? with
  | some (msg :: _) => ⟨s.store.receive i, s.taken.modify i (· ++ [msg])⟩
  | _ => s

/-- The effect of a call. -/
def perform (s : MemoryStreams) : PubSubCall → MemoryStreams
  | .subscribe channels => ⟨s.store.subscribe channels, s.taken ++ [[]]⟩
  | .unsubscribe channels => { s with store := s.store.unsubscribe channels }
  | .publish channel payload timestamp =>
    { s with store := s.store.deliver ⟨channel, payload, timestamp⟩ }
  | .receive i => s.receive i

/-- The step function. -/
def step (s : MemoryStreams) (call : PubSubCall) : Option MemoryStreams := some (s.perform call)

/-- A `Publish` skips no stream. -/
def HasRoom (s : MemoryStreams) : PubSubCall → Prop
  | .publish channel _ _ => ∀ j ∈ s.store.subscribers channel, ∀ buffer,
      s.store.chans[j]? = some buffer → buffer.length < MemoryPubSub.capacity
  | _ => True

/-- What a stream yields: the messages taken and those in its buffer. -/
def yields (s : MemoryStreams) (i : ℕ) : List (String × List UInt8) :=
  (s.taken[i]?.getD [] ++ s.store.chans[i]?.getD []).map fun msg => (msg.channel, msg.payload)

/-- There is a buffer and a consumer for each stream, and no other stream is registered. -/
structure WellNumbered (s : MemoryStreams) : Prop where
  /-- Each buffer has its consumer. -/
  length : s.taken.length = s.store.chans.length
  /-- The registered streams exist. -/
  created : ∀ channel, ∀ j ∈ s.store.subscribers channel, j < s.store.chans.length

variable {s s' : MemoryStreams}

/-- The state after more calls. -/
lemma runFrom_step_cons {call : PubSubCall} {calls : List PubSubCall}
    (h : runFrom step s (call :: calls) = some s') :
    runFrom step (s.perform call) calls = some s' := h

/-- A new stream changes no other. -/
lemma yields_subscribe (hs : s.WellNumbered) {i : ℕ} (hi : i < s.store.chans.length)
    (channels : List String) : (s.perform (.subscribe channels)).yields i = s.yields i := by
  change ((s.taken ++ [[]])[i]?.getD [] ++ (s.store.chans ++ [[]])[i]?.getD []).map _ = _
  rw [List.getElem?_append_left hi, List.getElem?_append_left (hs.length ▸ hi)]
  rfl

/-- What a registered stream with room yields after a `Publish`. -/
lemma yields_publish_of_mem {i : ℕ} {channel : String} {payload : List UInt8} {timestamp : ℤ}
    (hi : i < s.store.chans.length) (hmem : i ∈ s.store.subscribers channel)
    (hroom : s.HasRoom (.publish channel payload timestamp)) :
    (s.perform (.publish channel payload timestamp)).yields i =
      s.yields i ++ [(channel, payload)] := by
  obtain ⟨buffer, hbuffer⟩ : ∃ buffer, s.store.chans[i]? = some buffer :=
    ⟨_, List.getElem?_eq_getElem hi⟩
  have hlt : buffer.length < MemoryPubSub.capacity := hroom i hmem buffer hbuffer
  have hchans : (s.perform (.publish channel payload timestamp)).store.chans[i]? =
      some (buffer ++ [⟨channel, payload, timestamp⟩]) := by
    change (s.store.deliver ⟨channel, payload, timestamp⟩).chans[i]? = _
    unfold MemoryPubSub.deliver
    rw [List.getElem?_mapIdx, hbuffer, Option.map_some, if_pos hmem, MemoryPubSub.offered,
      if_pos hlt]
  have htaken : (s.perform (.publish channel payload timestamp)).taken = s.taken := rfl
  unfold yields
  rw [hchans, htaken, hbuffer]
  simp

/-- A `Publish` changes no stream that is not registered for the channel. -/
lemma yields_publish_of_notMem {i : ℕ} {channel : String} {payload : List UInt8} {timestamp : ℤ}
    (hmem : i ∉ s.store.subscribers channel) :
    (s.perform (.publish channel payload timestamp)).yields i = s.yields i := by
  have hchans : (s.perform (.publish channel payload timestamp)).store.chans[i]? =
      s.store.chans[i]? := by
    change (s.store.deliver ⟨channel, payload, timestamp⟩).chans[i]? = _
    unfold MemoryPubSub.deliver
    rw [List.getElem?_mapIdx]
    simp only [if_neg hmem]
    exact Option.map_id'
  have htaken : (s.perform (.publish channel payload timestamp)).taken = s.taken := rfl
  unfold yields
  rw [hchans, htaken]

/-- A message that is taken stays in what the stream yields. -/
lemma yields_receive (hs : s.WellNumbered) (i j : ℕ) : (s.receive j).yields i = s.yields i := by
  unfold receive
  split
  next msg rest hj =>
    have hlt : j < s.store.chans.length := (List.getElem?_eq_some_iff.mp hj).1
    obtain ⟨taken, htaken⟩ : ∃ taken, s.taken[j]? = some taken :=
      ⟨_, List.getElem?_eq_getElem (hs.length ▸ hlt)⟩
    unfold yields MemoryPubSub.receive
    rw [List.getElem?_modify, List.getElem?_modify]
    by_cases hji : j = i
    · subst hji
      rw [hj, htaken]
      simp
    · simp [hji]
  next => rfl

/-- The lengths and the registrations stay in order. -/
lemma wellNumbered_perform (hs : s.WellNumbered) (call : PubSubCall) :
    (s.perform call).WellNumbered := by
  cases call with
  | subscribe channels =>
    constructor
    · change (s.taken ++ [[]]).length = (s.store.chans ++ [[]]).length
      rw [List.length_append, List.length_append, hs.length]
    · intro channel j hj
      change j < (s.store.chans ++ [[]]).length
      rw [List.length_append, List.length_singleton]
      rcases (MemoryPubSub.mem_subscribers_subscribe s.store channels channel j).mp hj with
        hold | ⟨hnew, -⟩
      · have hlt := hs.created channel j hold
        omega
      · omega
  | unsubscribe channels =>
    refine ⟨hs.length, fun channel j hj => ?_⟩
    change j ∈ (s.store.unsubscribe channels).subscribers channel at hj
    rw [MemoryPubSub.subscribers_unsubscribe] at hj
    split_ifs at hj
    · exact absurd hj (Finset.notMem_empty j)
    · exact hs.created channel j hj
  | publish channel payload timestamp =>
    have hlen : (s.store.deliver ⟨channel, payload, timestamp⟩).chans.length =
        s.store.chans.length := List.length_mapIdx
    constructor
    · exact hs.length.trans hlen.symm
    · intro c j hj
      have hlt := hs.created c j hj
      exact lt_of_lt_of_eq hlt hlen.symm
  | receive i =>
    change (s.receive i).WellNumbered
    unfold receive
    split
    next msg rest _ =>
      constructor
      · change (s.taken.modify i _).length = (s.store.chans.modify i _).length
        rw [List.length_modify, List.length_modify, hs.length]
      · intro channel j hj
        change j < (s.store.chans.modify i _).length
        rw [List.length_modify]
        exact hs.created channel j hj
    next => exact hs

/-- What a stream yields after more calls, from the channels that it is registered for. -/
lemma yields_of_run {i : ℕ} {channels : List String} {calls : List PubSubCall}
    (hs : s.WellNumbered) (hi : i < s.store.chans.length)
    (hreg : ∀ channel, i ∈ s.store.subscribers channel ↔ channel ∈ channels)
    (hroom : StepsMeet step HasRoom s calls) (hrun : runFrom step s calls = some s') :
    s'.yields i = s.yields i ++ expected channels calls := by
  induction calls generalizing s channels with
  | nil =>
    obtain rfl := Option.some.inj hrun
    exact (List.append_nil _).symm
  | cons call calls ih =>
    have hstep : step s call = some (s.perform call) := rfl
    obtain ⟨hfirst, hrest⟩ := (stepsMeet_cons_iff hstep).mp hroom
    have hs' := wellNumbered_perform hs call
    have hrun' : runFrom step (s.perform call) calls = some s' := runFrom_step_cons hrun
    cases call with
    | subscribe listed =>
      have hlen : (s.perform (.subscribe listed)).store.chans.length =
          s.store.chans.length + 1 := List.length_append
      have hreg' : ∀ channel,
          i ∈ (s.perform (.subscribe listed)).store.subscribers channel ↔ channel ∈ channels := by
        intro channel
        have hmem := MemoryPubSub.mem_subscribers_subscribe s.store listed channel i
        rw [← hreg channel]
        refine hmem.trans ⟨fun h => h.resolve_right fun hnew => ?_, Or.inl⟩
        omega
      rw [ih hs' (by omega) hreg' hrest hrun', yields_subscribe hs hi]
      rfl
    | unsubscribe ended =>
      have hreg' : ∀ channel, i ∈ (s.perform (.unsubscribe ended)).store.subscribers channel ↔
          channel ∈ channels.filter (· ∉ ended) := by
        intro channel
        change i ∈ (s.store.unsubscribe ended).subscribers channel ↔ _
        rw [MemoryPubSub.subscribers_unsubscribe, List.mem_filter, ← hreg channel]
        by_cases hended : channel ∈ ended
        · simp [hended]
        · simp [hended]
      rw [ih hs' hi hreg' hrest hrun']
      rfl
    | publish channel payload timestamp =>
      have hlen : (s.perform (.publish channel payload timestamp)).store.chans.length =
          s.store.chans.length := List.length_mapIdx
      rw [ih hs' (by omega) hreg hrest hrun', expected]
      by_cases hmem : channel ∈ channels
      · rw [yields_publish_of_mem hi ((hreg channel).mpr hmem) hfirst, if_pos hmem,
          List.append_assoc]
        rfl
      · rw [yields_publish_of_notMem fun h => hmem ((hreg channel).mp h), if_neg hmem]
    | receive j =>
      have hsame : (s.receive j).store.subscribers = s.store.subscribers ∧
          (s.receive j).store.chans.length = s.store.chans.length := by
        unfold receive
        split
        next => exact ⟨rfl, List.length_modify ..⟩
        next => exact ⟨rfl, rfl⟩
      have hreg' : ∀ channel, i ∈ (s.receive j).store.subscribers channel ↔
          channel ∈ channels := by
        rw [hsame.1]
        exact hreg
      rw [ih hs' (lt_of_lt_of_eq hi hsame.2.symm) hreg' hrest hrun']
      have hyields : (s.perform (.receive j)).yields i = s.yields i := yields_receive hs i j
      rw [hyields]
      rfl

/-- The number of streams after calls. -/
lemma streamCount_of_run {calls : List PubSubCall} (hs : s.WellNumbered)
    (hrun : runFrom step s calls = some s') :
    s'.WellNumbered ∧ s'.store.chans.length = s.store.chans.length + streamCount calls := by
  induction calls generalizing s with
  | nil =>
    obtain rfl := Option.some.inj hrun
    exact ⟨hs, rfl⟩
  | cons call calls ih =>
    have hs' := wellNumbered_perform hs call
    obtain ⟨hend, hlen⟩ := ih hs' (runFrom_step_cons hrun)
    refine ⟨hend, hlen.trans ?_⟩
    unfold streamCount
    rw [List.countP_cons]
    have htaken := hs'.length
    cases call with
    | subscribe channels =>
      have hone : (s.perform (.subscribe channels)).store.chans.length =
          s.store.chans.length + 1 := List.length_append
      rw [hone]
      simp only [if_true]
      omega
    | unsubscribe channels => rfl
    | publish channel payload timestamp =>
      have hsame : (s.perform (.publish channel payload timestamp)).store.chans.length =
          s.store.chans.length := List.length_mapIdx
      rw [hsame]
      rfl
    | receive i =>
      have hsame : (s.receive i).store.chans.length = s.store.chans.length := by
        unfold receive
        split
        next => exact List.length_modify ..
        next => rfl
      change (s.receive i).store.chans.length + _ = _
      rw [hsame]
      rfl

/-- No stream has been created yet. -/
lemma wellNumbered_init : init.WellNumbered :=
  ⟨rfl, fun _ j hj => absurd hj (Finset.notMem_empty j)⟩

/-- The stream of a `Subscribe` yields the messages published on one of its channels, each channel
until it is unsubscribed. -/
theorem yields_eq_expected {before after : List PubSubCall} {channels : List String}
    (hroom : StepsMeet step HasRoom init (before ++ .subscribe channels :: after))
    (hrun : runFrom step init (before ++ .subscribe channels :: after) = some s) :
    s.yields (streamCount before) = expected channels after := by
  rw [runFrom_append] at hrun
  obtain ⟨s₀, hs₀, hrun⟩ := Option.bind_eq_some_iff.mp hrun
  obtain ⟨hwell, hlen⟩ := streamCount_of_run wellNumbered_init hs₀
  have hzero : init.store.chans.length = 0 := rfl
  have hi : s₀.store.chans.length = streamCount before := by omega
  have hreg : ∀ channel, streamCount before ∈
      (s₀.perform (.subscribe channels)).store.subscribers channel ↔ channel ∈ channels := by
    intro channel
    have hmem := MemoryPubSub.mem_subscribers_subscribe s₀.store channels channel
      (streamCount before)
    refine hmem.trans ⟨?_, fun h => Or.inr ⟨hi.symm, h⟩⟩
    rintro (hold | ⟨-, h⟩)
    · have hlt := hwell.created channel _ hold
      omega
    · exact h
  have hafter : StepsMeet step HasRoom s₀ (.subscribe channels :: after) :=
    hroom.of_append hs₀
  have hstep : step s₀ (.subscribe channels) = some (s₀.perform (.subscribe channels)) := rfl
  have hnew : (s₀.perform (.subscribe channels)).store.chans.length =
      s₀.store.chans.length + 1 := List.length_append
  have hyields := yields_of_run (wellNumbered_perform hwell (.subscribe channels)) (by omega) hreg
    ((stepsMeet_cons_iff hstep).mp hafter).2 (runFrom_step_cons hrun)
  have hempty : (s₀.perform (.subscribe channels)).yields (streamCount before) = [] := by
    rw [← hi]
    change ((s₀.taken ++ [[]])[_]?.getD [] ++ (s₀.store.chans ++ [[]])[_]?.getD []).map _ = _
    rw [List.getElem?_concat_length, ← hwell.length, List.getElem?_concat_length]
    rfl
  rw [hyields, hempty]
  rfl

end MemoryStreams

end Go

/-! ### Rust -/

namespace Rust

/-- A receiver of a broadcast sender, with what its consumer has taken. -/
structure Receiver where
  /-- The number of the sender. -/
  tx : ℕ
  /-- The messages that are still to be received. -/
  unread : List Message
  /-- The messages that the consumer has taken. -/
  taken : List Message
  deriving DecidableEq, Repr

namespace Receiver

/-- What the stream of a receiver yields: the messages taken and those still to be received. -/
def yields (r : Receiver) : List (String × List UInt8) :=
  (r.taken ++ r.unread).map fun msg => (msg.channel, msg.payload)

/-- The receiver after its consumer took the next message, if there is one. -/
def next (r : Receiver) : Receiver :=
  match r.unread with
  | msg :: rest => { r with unread := rest, taken := r.taken ++ [msg] }
  | [] => r

/-- A message that is taken stays in what the stream yields. -/
lemma next_yields (r : Receiver) : r.next.yields = r.yields := by
  unfold next
  split
  next msg rest hunread =>
    unfold yields
    simp [hunread]
  next => rfl

/-- A receiver keeps its sender. -/
lemma next_tx (r : Receiver) : r.next.tx = r.tx := by
  unfold next
  split <;> rfl

end Receiver

/-- `MemoryPubSubStore`, with the receivers in the streams that it returned. -/
structure MemoryPubSubStore where
  /-- The field `channels`, to the number of the sender. -/
  channels : String → Option ℕ
  /-- The receivers. -/
  receivers : List Receiver
  /-- The number of the next sender. -/
  nextTx : ℕ

namespace MemoryPubSubStore

/-- `MemoryPubSubStore::default`. -/
def init : MemoryPubSubStore := ⟨fun _ => none, [], 0⟩

/-- The capacity that `subscribe` asks for.  tokio rounds it up to 1024, so that a receiver that
keeps within it loses no message. -/
def capacity : ℕ := 1000

/-- `send`: a receiver that lags behind loses its oldest messages. -/
def send (s : MemoryPubSubStore) (tx : ℕ) (msg : Message) : MemoryPubSubStore :=
  { s with
    receivers := s.receivers.map fun r =>
      if r.tx = tx then
        { r with unread := (r.unread ++ [msg]).drop (r.unread.length + 1 - capacity) }
      else r }

/-- `publish`. -/
def publish (s : MemoryPubSubStore) (msg : Message) : MemoryPubSubStore :=
  match s.channels msg.channel with
  | some tx => s.send tx msg
  | none => s

/-- `subscribe`; the stream that it returns is the last one. -/
def subscribe (s : MemoryPubSubStore) (channels : List String) : MemoryPubSubStore :=
  match s.channels (channelName channels) with
  | some tx => { s with receivers := s.receivers ++ [⟨tx, [], []⟩] }
  | none =>
    { channels := Function.update s.channels (channelName channels) (some s.nextTx)
      receivers := s.receivers ++ [⟨s.nextTx, [], []⟩]
      nextTx := s.nextTx + 1 }

/-- `unsubscribe`. -/
def unsubscribe (s : MemoryPubSubStore) (_channels : List String) : MemoryPubSubStore := s

/-- The consumer of a stream takes the next message. -/
def receive (s : MemoryPubSubStore) (i : ℕ) : MemoryPubSubStore :=
  { s with receivers := s.receivers.modify i Receiver.next }

/-- The effect of a call. -/
def perform (s : MemoryPubSubStore) : PubSubCall → MemoryPubSubStore
  | .subscribe channels => s.subscribe channels
  | .unsubscribe channels => s.unsubscribe channels
  | .publish channel payload timestamp => s.publish ⟨channel, payload, timestamp⟩
  | .receive i => s.receive i

/-- The step function. -/
def step (s : MemoryPubSubStore) (call : PubSubCall) : Option MemoryPubSubStore :=
  some (s.perform call)

/-- A `publish` makes no receiver lag behind. -/
def HasRoom (s : MemoryPubSubStore) : PubSubCall → Prop
  | .publish channel _ _ => ∀ r ∈ s.receivers, s.channels channel = some r.tx →
      r.unread.length < capacity
  | _ => True

/-- What a stream yields. -/
def yields (s : MemoryPubSubStore) (i : ℕ) : List (String × List UInt8) :=
  (s.receivers[i]?).elim [] Receiver.yields

/-- Every sender is the sender of one channel. -/
structure OneChannel (s : MemoryPubSubStore) : Prop where
  /-- The senders have been made. -/
  made : ∀ channel tx, s.channels channel = some tx → tx < s.nextTx
  /-- Two channels have two senders. -/
  injective : ∀ channel channel' tx, s.channels channel = some tx →
    s.channels channel' = some tx → channel = channel'

variable {s s' : MemoryPubSubStore} {i : ℕ} {r : Receiver} {channel : String}

/-- The state after more calls. -/
lemma runFrom_step_cons {call : PubSubCall} {calls : List PubSubCall}
    (h : runFrom step s (call :: calls) = some s') :
    runFrom step (s.perform call) calls = some s' := h

/-- The sender of a channel after a `subscribe`. -/
lemma subscribe_channels (s : MemoryPubSubStore) (listed : List String) :
    (s.subscribe listed).channels =
      Function.update s.channels (channelName listed)
        (some ((s.channels (channelName listed)).getD s.nextTx)) := by
  unfold subscribe
  split
  next tx htx =>
    rw [htx, Option.getD_some]
    exact (Function.update_eq_self_iff.mpr htx.symm).symm
  next hnone => rw [hnone]; rfl

/-- The receivers after a `subscribe`. -/
lemma subscribe_receivers (s : MemoryPubSubStore) (listed : List String) :
    (s.subscribe listed).receivers =
      s.receivers ++ [⟨(s.channels (channelName listed)).getD s.nextTx, [], []⟩] := by
  unfold subscribe
  split
  next tx htx => rw [htx]; rfl
  next hnone => rw [hnone]; rfl

/-- A channel keeps its sender. -/
lemma channels_subscribe {tx : ℕ} (h : s.channels channel = some tx) (listed : List String) :
    (s.subscribe listed).channels channel = some tx := by
  rw [subscribe_channels]
  by_cases heq : channel = channelName listed
  · subst heq
    rw [Function.update_self, h]
    rfl
  · rw [Function.update_of_ne heq, h]

/-- A new sender for a channel that has none. -/
lemma OneChannel.insert (hs : s.OneChannel) (hnone : s.channels channel = none)
    (hchannels : s'.channels = Function.update s.channels channel (some s.nextTx))
    (hnext : s'.nextTx = s.nextTx + 1) : s'.OneChannel := by
  have hother : ∀ c tx, c ≠ channel → s'.channels c = some tx → s.channels c = some tx := by
    intro c tx hne htx
    rw [hchannels, Function.update_of_ne hne] at htx
    exact htx
  have hown : ∀ tx, s'.channels channel = some tx → tx = s.nextTx := by
    intro tx htx
    rw [hchannels, Function.update_self] at htx
    exact (Option.some.inj htx).symm
  constructor
  · intro c tx htx
    rw [hnext]
    by_cases heq : c = channel
    · subst heq
      have hnew := hown tx htx
      omega
    · have hlt := hs.made c tx (hother c tx heq htx)
      omega
  · intro c c' tx htx htx'
    by_cases heq : c = channel
    · by_cases heq' : c' = channel
      · rw [heq, heq']
      · subst heq
        have hnew := hown tx htx
        have hlt := hs.made c' tx (hother c' tx heq' htx')
        omega
    · by_cases heq' : c' = channel
      · subst heq'
        have hnew := hown tx htx'
        have hlt := hs.made c tx (hother c tx heq htx)
        omega
      · exact hs.injective c c' tx (hother c tx heq htx) (hother c' tx heq' htx')

/-- The senders after a `subscribe`. -/
lemma oneChannel_subscribe (hs : s.OneChannel) (listed : List String) :
    (s.subscribe listed).OneChannel := by
  unfold subscribe
  split
  next => exact ⟨hs.made, hs.injective⟩
  next hnone => exact hs.insert hnone rfl rfl

/-- A `publish` on a channel with a sender. -/
lemma publish_of_some {msg : Message} {tx : ℕ} (h : s.channels msg.channel = some tx) :
    s.publish msg = s.send tx msg := by
  unfold publish
  rw [h]

/-- A `publish` on a channel without a sender. -/
lemma publish_of_none {msg : Message} (h : s.channels msg.channel = none) : s.publish msg = s := by
  unfold publish
  rw [h]

/-- A `publish` makes no sender. -/
lemma publish_channels (s : MemoryPubSubStore) (msg : Message) :
    (s.publish msg).channels = s.channels ∧ (s.publish msg).nextTx = s.nextTx := by
  cases h : s.channels msg.channel with
  | none => rw [publish_of_none h]; exact ⟨rfl, rfl⟩
  | some tx => rw [publish_of_some h]; exact ⟨rfl, rfl⟩

/-- The senders after a call. -/
lemma oneChannel_perform (hs : s.OneChannel) (call : PubSubCall) :
    (s.perform call).OneChannel := by
  cases call with
  | subscribe listed => exact oneChannel_subscribe hs listed
  | unsubscribe ended => exact hs
  | publish published payload timestamp =>
    obtain ⟨hchannels, hnext⟩ := publish_channels s ⟨published, payload, timestamp⟩
    constructor
    · intro channel tx htx
      change (s.publish ⟨published, payload, timestamp⟩).channels channel = some tx at htx
      change tx < (s.publish ⟨published, payload, timestamp⟩).nextTx
      rw [hnext]
      rw [hchannels] at htx
      exact hs.made channel tx htx
    · intro channel channel' tx htx htx'
      change (s.publish ⟨published, payload, timestamp⟩).channels channel = some tx at htx
      change (s.publish ⟨published, payload, timestamp⟩).channels channel' = some tx at htx'
      rw [hchannels] at htx htx'
      exact hs.injective channel channel' tx htx htx'
  | receive i => exact ⟨hs.made, hs.injective⟩

/-- A receiver after a `publish` that makes none lag behind. -/
lemma getElem?_publish (hs : s.OneChannel) (hi : s.receivers[i]? = some r)
    (hchannel : s.channels channel = some r.tx) {published : String} {payload : List UInt8}
    {timestamp : ℤ} (hroom : s.HasRoom (.publish published payload timestamp)) :
    (s.perform (.publish published payload timestamp)).receivers[i]? =
      some (if published = channel then
        { r with unread := r.unread ++ [⟨published, payload, timestamp⟩] } else r) := by
  change (s.publish ⟨published, payload, timestamp⟩).receivers[i]? = _
  by_cases heq : published = channel
  · subst heq
    have hlt : r.unread.length < capacity := hroom r (List.mem_of_getElem? hi) hchannel
    have hzero : r.unread.length + 1 - capacity = 0 := by omega
    rw [publish_of_some hchannel, send, List.getElem?_map, hi, Option.map_some, if_pos rfl,
      if_pos rfl, hzero, List.drop_zero]
  · rw [if_neg heq]
    cases htx : s.channels published with
    | none => rw [publish_of_none htx, hi]
    | some tx =>
      have hne : r.tx ≠ tx := by
        rintro rfl
        exact heq (hs.injective published channel r.tx htx hchannel)
      rw [publish_of_some htx, send, List.getElem?_map, hi, Option.map_some, if_neg hne]

/-- What a stream yields after more calls, from its channel. -/
lemma yields_of_run {calls : List PubSubCall} (hs : s.OneChannel) (hi : s.receivers[i]? = some r)
    (hchannel : s.channels channel = some r.tx) (hroom : StepsMeet step HasRoom s calls)
    (hrun : runFrom step s calls = some s') :
    s'.yields i = r.yields ++ expectedFirst channel calls := by
  induction calls generalizing s r with
  | nil =>
    obtain rfl := Option.some.inj hrun
    unfold yields
    rw [hi]
    exact (List.append_nil _).symm
  | cons call calls ih =>
    have hstep : step s call = some (s.perform call) := rfl
    obtain ⟨hfirst, hrest⟩ := (stepsMeet_cons_iff hstep).mp hroom
    have hs' := oneChannel_perform hs call
    have hrun' : runFrom step (s.perform call) calls = some s' := runFrom_step_cons hrun
    cases call with
    | subscribe listed =>
      have hi' : (s.perform (.subscribe listed)).receivers[i]? = some r := by
        change (s.subscribe listed).receivers[i]? = some r
        rw [subscribe_receivers,
          List.getElem?_append_left (List.getElem?_eq_some_iff.mp hi).1, hi]
      exact ih hs' hi' (channels_subscribe hchannel listed) hrest hrun'
    | unsubscribe ended => exact ih hs' hi hchannel hrest hrun'
    | publish published payload timestamp =>
      have hi' := getElem?_publish hs hi hchannel hfirst
      have hchannel' : (s.perform (.publish published payload timestamp)).channels channel =
          some r.tx := by
        change (s.publish ⟨published, payload, timestamp⟩).channels channel = some r.tx
        rw [(publish_channels s _).1, hchannel]
      unfold expectedFirst
      by_cases heq : published = channel
      · rw [if_pos heq] at hi' ⊢
        rw [ih hs' hi' hchannel' hrest hrun']
        unfold Receiver.yields
        simp
      · rw [if_neg heq] at hi' ⊢
        exact ih hs' hi' hchannel' hrest hrun'
    | receive j =>
      have hget : (s.perform (.receive j)).receivers[i]? =
          some (if j = i then r.next else r) := by
        change (s.receivers.modify j Receiver.next)[i]? = _
        rw [List.getElem?_modify, hi]
        split_ifs <;> rfl
      by_cases hji : j = i
      · rw [if_pos hji] at hget
        rw [ih hs' hget (r.next_tx ▸ hchannel) hrest hrun', r.next_yields]
        rfl
      · rw [if_neg hji] at hget
        exact ih hs' hget hchannel hrest hrun'

/-- The number of streams after calls. -/
lemma streamCount_of_run {calls : List PubSubCall} (hs : s.OneChannel)
    (hrun : runFrom step s calls = some s') :
    s'.OneChannel ∧ s'.receivers.length = s.receivers.length + streamCount calls := by
  induction calls generalizing s with
  | nil =>
    obtain rfl := Option.some.inj hrun
    exact ⟨hs, rfl⟩
  | cons call calls ih =>
    obtain ⟨hend, hlen⟩ := ih (oneChannel_perform hs call) (runFrom_step_cons hrun)
    refine ⟨hend, hlen.trans ?_⟩
    unfold streamCount
    rw [List.countP_cons]
    cases call with
    | subscribe listed =>
      change (s.subscribe listed).receivers.length + _ = _
      rw [subscribe_receivers, List.length_append, List.length_singleton]
      simp only [if_true]
      omega
    | unsubscribe ended => rfl
    | publish published payload timestamp =>
      change (s.publish ⟨published, payload, timestamp⟩).receivers.length + _ = _
      have hsame : (s.publish ⟨published, payload, timestamp⟩).receivers.length =
          s.receivers.length := by
        cases htx : s.channels published with
        | none => rw [publish_of_none htx]
        | some tx => rw [publish_of_some htx, send, List.length_map]
      rw [hsame]
      rfl
    | receive i =>
      change (s.receivers.modify i _).length + _ = _
      rw [List.length_modify]
      rfl

/-- No sender has been made yet. -/
lemma oneChannel_init : init.OneChannel := by
  refine ⟨fun _ tx htx => ?_, fun _ _ tx htx => ?_⟩
  · cases htx
  · cases htx

/-- The stream of a `subscribe` yields the messages published on the first channel of its list. -/
theorem yields_eq_expectedFirst {before after : List PubSubCall} {channels : List String}
    (hroom : StepsMeet step HasRoom init (before ++ .subscribe channels :: after))
    (hrun : runFrom step init (before ++ .subscribe channels :: after) = some s) :
    s.yields (streamCount before) = expectedFirst (channelName channels) after := by
  rw [runFrom_append] at hrun
  obtain ⟨s₀, hs₀, hrun⟩ := Option.bind_eq_some_iff.mp hrun
  obtain ⟨hone, hlen⟩ := streamCount_of_run oneChannel_init hs₀
  have hzero : init.receivers.length = 0 := rfl
  have hi : s₀.receivers.length = streamCount before := by omega
  have hnew : (s₀.perform (.subscribe channels)).receivers[streamCount before]? =
      some ⟨(s₀.channels (channelName channels)).getD s₀.nextTx, [], []⟩ := by
    change (s₀.subscribe channels).receivers[streamCount before]? = _
    rw [subscribe_receivers, ← hi, List.getElem?_concat_length]
  have hchannel : (s₀.perform (.subscribe channels)).channels (channelName channels) =
      some ((s₀.channels (channelName channels)).getD s₀.nextTx) := by
    change (s₀.subscribe channels).channels (channelName channels) = _
    rw [subscribe_channels, Function.update_self]
  have hstep : step s₀ (.subscribe channels) = some (s₀.perform (.subscribe channels)) := rfl
  exact yields_of_run (oneChannel_perform hone (.subscribe channels)) hnew hchannel
    ((stepsMeet_cons_iff hstep).mp (hroom.of_append hs₀)).2 (runFrom_step_cons hrun)

end MemoryPubSubStore

end Rust

/-! ### Both languages -/

/-- Along calls that overfill no buffer, the stream of a `subscribe` yields in Go the messages
published on the channels of its list, each until it is unsubscribed, and in Rust those published
on the first channel of the list.  The two are the same when the list names one channel and that is
never unsubscribed. -/
theorem memory_streams_yield {before after : List PubSubCall} {channels : List String}
    {g : Go.MemoryStreams} {r : Rust.MemoryPubSubStore}
    (hgoroom : StepsMeet Go.MemoryStreams.step Go.MemoryStreams.HasRoom .init
      (before ++ .subscribe channels :: after))
    (hgo : runFrom Go.MemoryStreams.step .init (before ++ .subscribe channels :: after) = some g)
    (hrustroom : StepsMeet Rust.MemoryPubSubStore.step Rust.MemoryPubSubStore.HasRoom .init
      (before ++ .subscribe channels :: after))
    (hrust : runFrom Rust.MemoryPubSubStore.step .init
      (before ++ .subscribe channels :: after) = some r) :
    g.yields (streamCount before) = expected channels after ∧
    r.yields (streamCount before) = expectedFirst (Rust.channelName channels) after ∧
    ((∃ channel, ∀ c, c ∈ channels ↔ c = channel) → NeverUnsubscribed channels after →
      r.yields (streamCount before) = g.yields (streamCount before)) := by
  have hgoyields := Go.MemoryStreams.yields_eq_expected hgoroom hgo
  have hrustyields := Rust.MemoryPubSubStore.yields_eq_expectedFirst hrustroom hrust
  refine ⟨hgoyields, hrustyields, ?_⟩
  rintro ⟨channel, hone⟩ hnever
  have hfirst : Rust.channelName channels = channel := by
    cases channels with
    | nil => exact absurd ((hone channel).mpr rfl) List.not_mem_nil
    | cons first rest => exact (hone first).mp List.mem_cons_self
  rw [hgoyields, hrustyields, hfirst, expected_eq_expectedFirst hone hnever]

/-- A Go store with one empty buffer has room. -/
lemma Go.MemoryStreams.hasRoom_of_empty {s : Go.MemoryStreams} (h : s.store.chans = [[]])
    (call : PubSubCall) : s.HasRoom call := by
  cases call with
  | publish channel payload timestamp =>
    intro j _ buffer hbuffer
    rw [h] at hbuffer
    obtain rfl := List.mem_singleton.mp (List.mem_of_getElem? hbuffer)
    decide
  | _ => trivial

/-- A Rust store with one receiver that is up to date has room. -/
lemma Rust.MemoryPubSubStore.hasRoom_of_empty {s : Rust.MemoryPubSubStore}
    (h : s.receivers = [⟨0, [], []⟩]) (call : PubSubCall) : s.HasRoom call := by
  cases call with
  | publish channel payload timestamp =>
    intro r hr _
    rw [h] at hr
    obtain rfl := List.mem_singleton.mp hr
    decide
  | _ => trivial

/-- The calls of a subscriber of two channels, and a message on the second one. -/
def publishOnSecond : List PubSubCall :=
  [.subscribe ["a", "b"], .publish "b" [7] 0]

/-- After a `subscribe` of two channels, a message on the second one is yielded in Go and not in
Rust; no buffer is overfilled. -/
theorem second_channel_yields_in_go_only :
    ∃ (g : Go.MemoryStreams) (r : Rust.MemoryPubSubStore),
      StepsMeet Go.MemoryStreams.step Go.MemoryStreams.HasRoom .init publishOnSecond ∧
      runFrom Go.MemoryStreams.step .init publishOnSecond = some g ∧
      StepsMeet Rust.MemoryPubSubStore.step Rust.MemoryPubSubStore.HasRoom .init publishOnSecond ∧
      runFrom Rust.MemoryPubSubStore.step .init publishOnSecond = some r ∧
      g.yields 0 = [("b", [7])] ∧ r.yields 0 = [] := by
  refine ⟨_, _, ?_, rfl, ?_, rfl, rfl, rfl⟩
  · refine (stepsMeet_cons_iff rfl).mpr ⟨trivial, ?_⟩
    exact (stepsMeet_cons_iff rfl).mpr ⟨Go.MemoryStreams.hasRoom_of_empty rfl _, .nil _⟩
  · refine (stepsMeet_cons_iff rfl).mpr ⟨trivial, ?_⟩
    exact (stepsMeet_cons_iff rfl).mpr ⟨Rust.MemoryPubSubStore.hasRoom_of_empty rfl _, .nil _⟩

/-- The calls of a subscriber of one channel, and a message on it. -/
def publishOnFirst : List PubSubCall :=
  [.subscribe ["a"], .publish "a" [7] 0]

/-- After a `subscribe` of one channel, a message on it is yielded in Go and in Rust. -/
theorem one_channel_yields_in_both :
    ∃ (g : Go.MemoryStreams) (r : Rust.MemoryPubSubStore),
      runFrom Go.MemoryStreams.step .init publishOnFirst = some g ∧
      runFrom Rust.MemoryPubSubStore.step .init publishOnFirst = some r ∧
      g.yields 0 = [("a", [7])] ∧ r.yields 0 = g.yields 0 := by
  have hgoroom : StepsMeet Go.MemoryStreams.step Go.MemoryStreams.HasRoom .init
      ([] ++ publishOnFirst) := by
    refine (stepsMeet_cons_iff rfl).mpr ⟨trivial, ?_⟩
    exact (stepsMeet_cons_iff rfl).mpr ⟨Go.MemoryStreams.hasRoom_of_empty rfl _, .nil _⟩
  have hrustroom : StepsMeet Rust.MemoryPubSubStore.step Rust.MemoryPubSubStore.HasRoom .init
      ([] ++ publishOnFirst) := by
    refine (stepsMeet_cons_iff rfl).mpr ⟨trivial, ?_⟩
    exact (stepsMeet_cons_iff rfl).mpr ⟨Rust.MemoryPubSubStore.hasRoom_of_empty rfl _, .nil _⟩
  obtain ⟨g, hg⟩ : ∃ g, runFrom Go.MemoryStreams.step .init ([] ++ publishOnFirst) = some g :=
    ⟨_, rfl⟩
  obtain ⟨r, hr⟩ : ∃ r, runFrom Rust.MemoryPubSubStore.step .init ([] ++ publishOnFirst) =
      some r := ⟨_, rfl⟩
  obtain ⟨hgo, -, hsame⟩ := memory_streams_yield hgoroom hg hrustroom hr
  refine ⟨g, r, hg, hr, hgo, hsame ⟨"a", fun c => List.mem_singleton⟩ ?_⟩
  intro ended hended
  simp at hended

end GoyStore
