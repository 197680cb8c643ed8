import GoyStore.Library.Runs
import Mathlib.Logic.Function.Basic
import Mathlib.Tactic.SplitIfs

/-!
# Forwarders of the Redis pub/sub store

`RedisPubSubStore` of the Rust library keeps a broadcast sender for each subscribed channel.  The
first `subscribe` of a channel spawns a forwarder, which sends the messages from Redis into the
sender; later calls reuse the sender.  A forwarder ends when its connection fails or when it sends
while no stream is listening, and the entry of the channel stays.

A `subscribe` that reuses such an entry returns a stream that nothing feeds
(`resubscribed_stream_has_no_forwarder`) and that never yields
(`received_eq_nil_of_stale_subscribe`).  Every listening stream has a running forwarder in exactly
the runs in which no `subscribe` reuses the entry of an ended forwarder
(`live_iff_no_stale_subscribe`).
-/

namespace GoyStore

namespace Rust

open Runs

/-! ### The store, its forwarders and its streams -/

/-- `Message`. -/
structure Message where
  /-- The field `channel`. -/
  channel : String
  /-- The field `payload`. -/
  payload : List UInt8
  /-- The field `timestamp`. -/
  timestamp : ℤ
  deriving DecidableEq, Repr

/-- Where a forwarder is. -/
inductive ForwarderStatus where
  /-- It connects to Redis or subscribes there. -/
  | connecting
  /-- It waits for the next message. -/
  | forwarding
  /-- The task has ended. -/
  | ended
  deriving DecidableEq, Repr

/-- A task that `subscribe` spawned. -/
structure Forwarder where
  /-- The local `ch_str`. -/
  channel : String
  /-- The sender `tx_clone`, by its number. -/
  tx : ℕ
  /-- Where the task is. -/
  status : ForwarderStatus
  deriving DecidableEq, Repr

/-- A stream that `subscribe` returned. -/
structure Subscription where
  /-- The channel that was subscribed. -/
  channel : String
  /-- The number of the sender that the receiver belongs to. -/
  rx : ℕ
  /-- The messages that were sent to the receiver. -/
  received : List Message
  /-- The stream has been dropped. -/
  dropped : Bool
  /-- The channel has been unsubscribed since the stream was created. -/
  unsubscribed : Bool
  /-- The connection that feeds the sender has failed since the stream was created. -/
  disconnected : Bool
  deriving DecidableEq, Repr

/-- A `RedisPubSubStore` with the tasks that it spawned and the streams that it returned. -/
structure RedisPubSubState where
  /-- The map `channels`, to the number of the sender. -/
  channels : String → Option ℕ
  /-- The spawned tasks. -/
  forwarders : List Forwarder
  /-- The returned streams. -/
  streams : List Subscription
  /-- The number of the next sender. -/
  nextTx : ℕ

/-- A step of the store, of a task or of the owner of a stream. -/
inductive PubSubLabel where
  /-- A call of `subscribe`. -/
  | subscribe (channels : List String)
  /-- A call of `unsubscribe`. -/
  | unsubscribe (channels : List String)
  /-- The owner of a stream drops it. -/
  | dropStream (i : ℕ)
  /-- A task has connected and subscribed. -/
  | connected (k : ℕ)
  /-- A task fails to connect or to subscribe, or its message stream ends. -/
  | disconnected (k : ℕ)
  /-- A message arrives at a task; its payload may be missing. -/
  | message (k : ℕ) (payload : Option (List UInt8)) (timestamp : ℤ)

/-- The local `channel_name` of `subscribe`. -/
def channelName (channels : List String) : String := channels.head?.getD "default"

namespace RedisPubSubState

/-- A new store. -/
def init : RedisPubSubState := ⟨fun _ => none, [], [], 0⟩

/-- A new stream of a channel, with a receiver of the sender `tx`. -/
def newStream (channel : String) (tx : ℕ) : Subscription := ⟨channel, tx, [], false, false, false⟩

/-- `RedisPubSubStore::subscribe`: the stream that it returns is the last one.  The task that it may
spawn has yet to connect. -/
def subscribe (s : RedisPubSubState) (channels : List String) : RedisPubSubState :=
  match s.channels (channelName channels) with
  | some existingTx =>
    { s with streams := s.streams ++ [newStream (channelName channels) existingTx] }
  | none =>
    { channels := Function.update s.channels (channelName channels) (some s.nextTx)
      forwarders := s.forwarders ++ [⟨channelName channels, s.nextTx, .connecting⟩]
      streams := s.streams ++ [newStream (channelName channels) s.nextTx]
      nextTx := s.nextTx + 1 }

/-- `RedisPubSubStore::unsubscribe`. -/
def unsubscribe (s : RedisPubSubState) (channels : List String) : RedisPubSubState :=
  { s with
    channels := channels.foldl (fun chans ch => Function.update chans ch none) s.channels
    streams := s.streams.map fun r =>
      if r.channel ∈ channels then { r with unsubscribed := true } else r }

/-- The owner of a stream drops it. -/
def dropStream (s : RedisPubSubState) (i : ℕ) : RedisPubSubState :=
  { s with streams := s.streams.modify i fun r => { r with dropped := true } }

/-- Put a task into another status. -/
def setStatus (s : RedisPubSubState) (k : ℕ) (status : ForwarderStatus) : RedisPubSubState :=
  { s with forwarders := s.forwarders.modify k fun f => { f with status := status } }

/-- The sender has an active receiver. -/
def hasReceiver (s : RedisPubSubState) (tx : ℕ) : Bool :=
  s.streams.any fun r => !r.dropped && r.rx == tx

/-- `send` with an active receiver: every active receiver of the sender gets the message. -/
def deliver (s : RedisPubSubState) (tx : ℕ) (m : Message) : RedisPubSubState :=
  { s with
    streams := s.streams.map fun r =>
      if !r.dropped && r.rx == tx then { r with received := r.received ++ [m] } else r }

/-- The body of the loop of a task: a `send` without an active receiver ends it. -/
def forward (s : RedisPubSubState) (k : ℕ) (f : Forwarder) (payload : Option (List UInt8))
    (timestamp : ℤ) : RedisPubSubState :=
  if s.hasReceiver f.tx then s.deliver f.tx ⟨f.channel, payload.getD [], timestamp⟩
  else s.setStatus k .ended

/-- The end of a task whose connection fails. -/
def disconnect (s : RedisPubSubState) (k : ℕ) (f : Forwarder) : RedisPubSubState :=
  { s.setStatus k .ended with
    streams := s.streams.map fun r => if r.rx = f.tx then { r with disconnected := true } else r }

/-- The step function. -/
def step (s : RedisPubSubState) : PubSubLabel → Option RedisPubSubState
  | .subscribe channels => some (s.subscribe channels)
  | .unsubscribe channels => some (s.unsubscribe channels)
  | .dropStream i =>
    if s.streams[i]?.any fun r => !r.dropped then some (s.dropStream i) else none
  | .connected k =>
    s.forwarders[k]?.bind fun f =>
      if f.status = .connecting then some (s.setStatus k .forwarding) else none
  | .disconnected k =>
    s.forwarders[k]?.bind fun f => if f.status = .ended then none else some (s.disconnect k f)
  | .message k payload timestamp =>
    s.forwarders[k]?.bind fun f =>
      if f.status = .forwarding then some (s.forward k f payload timestamp) else none

/-- A running task for the channel sends into the sender `tx`. -/
def Fed (s : RedisPubSubState) (channel : String) (tx : ℕ) : Prop :=
  ∃ (k : ℕ) (f : Forwarder), s.forwarders[k]? = some f ∧ f.channel = channel ∧ f.tx = tx ∧
    f.status ≠ .ended

end RedisPubSubState

/-- The stream is not dropped, and since it was created its channel has not been unsubscribed and
its connection has not failed. -/
def Subscription.Listens (r : Subscription) : Prop :=
  r.dropped = false ∧ r.unsubscribed = false ∧ r.disconnected = false

namespace RedisPubSubState

/-- Every listening stream has a running task for its channel that sends into its sender. -/
def Live (s : RedisPubSubState) : Prop := ∀ r ∈ s.streams, r.Listens → s.Fed r.channel r.rx

/-- The step is no `subscribe` that finds an entry whose task has ended. -/
def NoStaleSubscribe (s : RedisPubSubState) : PubSubLabel → Prop
  | .subscribe channels =>
    ∀ tx, s.channels (channelName channels) = some tx → s.Fed (channelName channels) tx
  | _ => True

variable {s s' : RedisPubSubState} {channel : String} {tx : ℕ}

/-! ### What a step does -/

/-- The step of each label. -/
inductive Moves (s : RedisPubSubState) : PubSubLabel → RedisPubSubState → Prop where
  /-- A call of `subscribe`. -/
  | subscribe (channels : List String) : Moves s (.subscribe channels) (s.subscribe channels)
  /-- A call of `unsubscribe`. -/
  | unsubscribe (channels : List String) : Moves s (.unsubscribe channels) (s.unsubscribe channels)
  /-- A stream is dropped. -/
  | dropStream (i : ℕ) : Moves s (.dropStream i) (s.dropStream i)
  /-- A task has connected. -/
  | connected {k : ℕ} {f : Forwarder} (hk : s.forwarders[k]? = some f)
      (hf : f.status = .connecting) : Moves s (.connected k) (s.setStatus k .forwarding)
  /-- The connection of a task fails. -/
  | disconnected {k : ℕ} {f : Forwarder} (hk : s.forwarders[k]? = some f)
      (hf : f.status ≠ .ended) : Moves s (.disconnected k) (s.disconnect k f)
  /-- A task gets a message. -/
  | message {k : ℕ} {f : Forwarder} (hk : s.forwarders[k]? = some f) (hf : f.status = .forwarding)
      (payload : Option (List UInt8)) (timestamp : ℤ) :
      Moves s (.message k payload timestamp) (s.forward k f payload timestamp)

/-- Every step is one of these. -/
lemma moves_of_step {l : PubSubLabel} (h : step s l = some s') : Moves s l s' := by
  cases l with
  | subscribe channels =>
    obtain rfl := Option.some.inj h
    exact .subscribe channels
  | unsubscribe channels =>
    obtain rfl := Option.some.inj h
    exact .unsubscribe channels
  | dropStream i =>
    obtain ⟨-, heq⟩ := Option.ite_none_right_eq_some.mp h
    obtain rfl := Option.some.inj heq
    exact .dropStream i
  | connected k =>
    obtain ⟨f, hk, hf⟩ := Option.bind_eq_some_iff.mp h
    obtain ⟨hstatus, heq⟩ := Option.ite_none_right_eq_some.mp hf
    obtain rfl := Option.some.inj heq
    exact .connected hk hstatus
  | disconnected k =>
    obtain ⟨f, hk, hf⟩ := Option.bind_eq_some_iff.mp h
    obtain ⟨hstatus, heq⟩ := Option.ite_none_left_eq_some.mp hf
    obtain rfl := Option.some.inj heq
    exact .disconnected hk hstatus
  | message k payload timestamp =>
    obtain ⟨f, hk, hf⟩ := Option.bind_eq_some_iff.mp h
    obtain ⟨hstatus, heq⟩ := Option.ite_none_right_eq_some.mp hf
    obtain rfl := Option.some.inj heq
    exact .message hk hstatus payload timestamp

/-- `subscribe` of a channel with an entry. -/
lemma subscribe_of_some {channels : List String} {existingTx : ℕ}
    (h : s.channels (channelName channels) = some existingTx) :
    s.subscribe channels =
      { s with streams := s.streams ++ [newStream (channelName channels) existingTx] } := by
  rw [subscribe, h]

/-- `subscribe` of a channel without an entry. -/
lemma subscribe_of_none {channels : List String}
    (h : s.channels (channelName channels) = none) :
    s.subscribe channels =
      { channels := Function.update s.channels (channelName channels) (some s.nextTx)
        forwarders := s.forwarders ++ [⟨channelName channels, s.nextTx, .connecting⟩]
        streams := s.streams ++ [newStream (channelName channels) s.nextTx]
        nextTx := s.nextTx + 1 } := by
  rw [subscribe, h]

/-! ### Running tasks -/

/-- A task of a state in which the status of one task has changed. -/
lemma getElem?_setStatus (s : RedisPubSubState) (k : ℕ) (status : ForwarderStatus) {j : ℕ}
    {f : Forwarder} (h : s.forwarders[j]? = some f) :
    (s.setStatus k status).forwarders[j]? =
      some (if k = j then { f with status := status } else f) := by
  rw [setStatus, List.getElem?_modify, h]
  split_ifs <;> rfl

/-- New tasks end no task. -/
lemma Fed.of_append {new : List Forwarder} (h : s.Fed channel tx)
    (hnew : s'.forwarders = s.forwarders ++ new) : s'.Fed channel tx := by
  obtain ⟨k, f, hk, hf⟩ := h
  refine ⟨k, f, ?_, hf⟩
  rw [hnew, List.getElem?_append_left (List.getElem?_eq_some_iff.mp hk).1]
  exact hk

/-- The same tasks are running. -/
lemma Fed.of_eq (h : s.Fed channel tx) (heq : s'.forwarders = s.forwarders) :
    s'.Fed channel tx := by
  have happend : s'.forwarders = s.forwarders ++ [] := by
    rw [heq, List.append_nil]
  exact h.of_append happend

/-- A task that has connected is running. -/
lemma Fed.setStatus {k : ℕ} {status : ForwarderStatus} (h : s.Fed channel tx)
    (hstatus : status ≠ .ended) : (s.setStatus k status).Fed channel tx := by
  obtain ⟨j, f, hj, hchannel, htx, hrunning⟩ := h
  have hj' := getElem?_setStatus s k status hj
  split_ifs at hj'
  · exact ⟨j, _, hj', hchannel, htx, hstatus⟩
  · exact ⟨j, f, hj', hchannel, htx, hrunning⟩

/-- The end of a task does not matter for the other senders. -/
lemma Fed.setStatus_of_ne {k : ℕ} {status : ForwarderStatus} {f : Forwarder}
    (h : s.Fed channel tx) (hk : s.forwarders[k]? = some f) (hne : tx ≠ f.tx) :
    (s.setStatus k status).Fed channel tx := by
  obtain ⟨j, g, hj, hchannel, htx, hrunning⟩ := h
  have hkj : k ≠ j := by
    rintro rfl
    obtain rfl : g = f := Option.some.inj (hj.symm.trans hk)
    exact hne htx.symm
  have hj' := getElem?_setStatus s k status hj
  rw [if_neg hkj] at hj'
  exact ⟨j, g, hj', hchannel, htx, hrunning⟩

/-! ### Listening streams along a step -/

/-- A step keeps the streams fed if each stream that listens after it listened before it and is fed
as before. -/
lemma Live.of_kept (hs : s.Live)
    (hkept : ∀ r' ∈ s'.streams, r'.Listens → ∃ r ∈ s.streams, r.Listens ∧
      r.channel = r'.channel ∧ r.rx = r'.rx ∧ (s.Fed r.channel r.rx → s'.Fed r.channel r.rx)) :
    s'.Live := by
  intro r' hr' hlistens
  obtain ⟨r, hr, hrlistens, hchannel, hrx, hfed⟩ := hkept r' hr' hlistens
  rw [← hchannel, ← hrx]
  exact hfed (hs r hr hrlistens)

/-- A `subscribe` that finds no stale entry keeps the streams fed. -/
lemma live_subscribe {channels : List String} (hs : s.Live)
    (hC : s.NoStaleSubscribe (.subscribe channels)) : (s.subscribe channels).Live := by
  intro r hr hlistens
  cases hentry : s.channels (channelName channels) with
  | some existingTx =>
    rw [subscribe_of_some hentry] at hr ⊢
    rcases List.mem_append.mp hr with hold | hnew
    · exact (hs r hold hlistens).of_eq rfl
    · obtain rfl := List.mem_singleton.mp hnew
      exact (hC existingTx hentry).of_eq rfl
  | none =>
    rw [subscribe_of_none hentry] at hr ⊢
    rcases List.mem_append.mp hr with hold | hnew
    · exact (hs r hold hlistens).of_append rfl
    · -- the task that was spawned with the stream
      obtain rfl := List.mem_singleton.mp hnew
      refine ⟨s.forwarders.length, ⟨channelName channels, s.nextTx, .connecting⟩, ?_, rfl, rfl, ?_⟩
      · simp
      · simp

/-- `unsubscribe` leaves the tasks alone. -/
lemma live_unsubscribe (hs : s.Live) (channels : List String) :
    (s.unsubscribe channels).Live := by
  apply hs.of_kept
  intro r' hr' hlistens
  obtain ⟨r, hr, rfl⟩ := List.mem_map.mp hr'
  split_ifs at hlistens ⊢ with hmem
  · exact absurd hlistens.2.1 (by simp)
  · exact ⟨r, hr, hlistens, rfl, rfl, fun h => h.of_eq rfl⟩

/-- Dropping a stream leaves the tasks alone. -/
lemma live_dropStream (hs : s.Live) (i : ℕ) : (s.dropStream i).Live := by
  apply hs.of_kept
  intro r' hr' hlistens
  obtain ⟨j, hj⟩ := List.mem_iff_getElem?.mp hr'
  rw [dropStream, List.getElem?_modify] at hj
  obtain ⟨r, hr, rfl⟩ := Option.map_eq_some_iff.mp hj
  split_ifs at hlistens ⊢ with hij
  · exact absurd hlistens.1 (by simp)
  · exact ⟨r, List.mem_of_getElem? hr, hlistens, rfl, rfl, fun h => h.of_eq rfl⟩

/-- The end of a connection is noted in the streams of its sender. -/
lemma live_disconnect {k : ℕ} {f : Forwarder} (hs : s.Live) (hk : s.forwarders[k]? = some f) :
    (s.disconnect k f).Live := by
  apply hs.of_kept
  intro r' hr' hlistens
  obtain ⟨r, hr, rfl⟩ := List.mem_map.mp hr'
  split_ifs at hlistens ⊢ with hrx
  · exact absurd hlistens.2.2 (by simp)
  · exact ⟨r, hr, hlistens, rfl, rfl, fun h => (h.setStatus_of_ne hk hrx).of_eq rfl⟩

/-- A task that ends because no receiver of its sender is active feeds no listening stream. -/
lemma live_forward {k : ℕ} {f : Forwarder} (hs : s.Live) (hk : s.forwarders[k]? = some f)
    (payload : Option (List UInt8)) (timestamp : ℤ) : (s.forward k f payload timestamp).Live := by
  unfold forward
  split_ifs with hreceiver
  · apply hs.of_kept
    intro r' hr' hlistens
    obtain ⟨r, hr, rfl⟩ := List.mem_map.mp hr'
    split_ifs at hlistens ⊢ with hactive
    · exact ⟨r, hr, hlistens, rfl, rfl, fun h => h.of_eq rfl⟩
    · exact ⟨r, hr, hlistens, rfl, rfl, fun h => h.of_eq rfl⟩
  · refine hs.of_kept fun r hr hlistens => ⟨r, hr, hlistens, rfl, rfl, fun h => ?_⟩
    have hrx : r.rx ≠ f.tx := by
      intro hrx
      refine hreceiver (List.any_eq_true.mpr ⟨r, hr, ?_⟩)
      simp [hlistens.1, hrx]
    exact h.setStatus_of_ne hk hrx

/-- Every step that is no `subscribe` of a stale entry keeps the streams fed. -/
lemma live_step (s : RedisPubSubState) (l : PubSubLabel) (s' : RedisPubSubState) (hs : s.Live)
    (hC : s.NoStaleSubscribe l) (h : step s l = some s') : s'.Live := by
  cases moves_of_step h with
  | subscribe channels => exact live_subscribe hs hC
  | unsubscribe channels => exact live_unsubscribe hs channels
  | dropStream i => exact live_dropStream hs i
  | connected hk hf =>
    refine hs.of_kept fun r hr hlistens => ⟨r, hr, hlistens, rfl, rfl, fun hfed => ?_⟩
    exact hfed.setStatus (by simp)
  | disconnected hk hf => exact live_disconnect hs hk
  | message hk hf payload timestamp => exact live_forward hs hk payload timestamp

/-- A `subscribe` of a stale entry returns a listening stream that no task feeds. -/
lemma not_live_of_staleSubscribe {l : PubSubLabel} (hC : ¬ s.NoStaleSubscribe l)
    (h : step s l = some s') : ¬ s'.Live := by
  cases l with
  | subscribe channels =>
    simp only [NoStaleSubscribe, not_forall] at hC
    obtain ⟨tx, hentry, hstale⟩ := hC
    obtain rfl := Option.some.inj h
    rw [subscribe_of_some hentry]
    intro hlive
    have hnew := hlive (newStream (channelName channels) tx) (by simp) ⟨rfl, rfl, rfl⟩
    exact hstale (hnew.of_eq rfl)
  | _ => exact absurd trivial hC

/-- In every run, every listening stream has a running forwarder in all states if and only if no
`subscribe` finds the entry of a forwarder that has ended. -/
theorem live_iff_no_stale_subscribe (ls : List PubSubLabel) :
    Always step Live init ls ↔ StepsMeet step NoStaleSubscribe init ls := by
  have hinit : init.Live := by
    intro r hr
    cases hr
  refine always_iff_stepsMeet live_step (fun s hs => hs) ?_ hinit
  intro s l s' _ hC h
  exact not_live_of_staleSubscribe hC h

/-- A stream is dropped, a message arrives, and the channel is subscribed again. -/
def resubscribeAfterDrop : List PubSubLabel :=
  [.subscribe ["c"], .connected 0, .dropStream 0, .message 0 (some []) 0, .subscribe ["c"]]

/-- A channel that is subscribed again after its forwarder has ended has no forwarder. -/
theorem resubscribed_stream_has_no_forwarder : ¬ ∀ ls, Always step Live init ls := by
  intro h
  obtain ⟨s, hrun, hforwarders, hstreams⟩ : ∃ s, runFrom step init resubscribeAfterDrop = some s ∧
      s.forwarders = [⟨"c", 0, .ended⟩] ∧ newStream "c" 0 ∈ s.streams :=
    ⟨_, rfl, rfl, by decide⟩
  have hlive : s.Live := h resubscribeAfterDrop _ s List.prefix_rfl hrun
  obtain ⟨k, f, hk, -, -, hrunning⟩ := hlive _ hstreams ⟨rfl, rfl, rfl⟩
  rw [hforwarders] at hk
  obtain rfl := List.mem_singleton.mp (List.mem_of_getElem? hk)
  exact hrunning rfl

/-! ### The stream of a stale entry -/

/-- What is known of the senders in every reachable state. -/
structure Known (s : RedisPubSubState) : Prop where
  /-- The sender of a task is not new. -/
  forwarder_lt : ∀ f ∈ s.forwarders, f.tx < s.nextTx
  /-- The sender of an entry is not new. -/
  entry_lt : ∀ channel tx, s.channels channel = some tx → tx < s.nextTx
  /-- The tasks of the sender of an entry are tasks for its channel. -/
  entry_channel : ∀ channel tx, s.channels channel = some tx →
    ∀ f ∈ s.forwarders, f.tx = tx → f.channel = channel

/-- A step that brings no entry, no sender and no task for a sender. -/
lemma Known.of_kept (hs : s.Known) (hnext : s'.nextTx = s.nextTx)
    (hchannels : ∀ channel tx, s'.channels channel = some tx → s.channels channel = some tx)
    (htasks : ∀ f' ∈ s'.forwarders, ∃ f ∈ s.forwarders, f.channel = f'.channel ∧ f.tx = f'.tx) :
    s'.Known := by
  refine ⟨fun f' hf' => ?_, fun channel tx h => ?_, fun channel tx h f' hf' htx => ?_⟩
  · obtain ⟨f, hf, -, htx⟩ := htasks f' hf'
    rw [hnext, ← htx]
    exact hs.forwarder_lt f hf
  · rw [hnext]
    exact hs.entry_lt channel tx (hchannels channel tx h)
  · obtain ⟨f, hf, hchannel, htx'⟩ := htasks f' hf'
    rw [← hchannel]
    exact hs.entry_channel channel tx (hchannels channel tx h) f hf (htx'.trans htx)

/-- A task of a state in which the status of one task has changed was a task before. -/
lemma exists_of_mem_setStatus {k : ℕ} {status : ForwarderStatus} {f' : Forwarder}
    (h : f' ∈ (s.setStatus k status).forwarders) :
    ∃ j f, s.forwarders[j]? = some f ∧ f.channel = f'.channel ∧ f.tx = f'.tx ∧
      f'.status = if k = j then status else f.status := by
  obtain ⟨j, hj⟩ := List.mem_iff_getElem?.mp h
  rw [setStatus, List.getElem?_modify] at hj
  obtain ⟨f, hf, rfl⟩ := Option.map_eq_some_iff.mp hj
  refine ⟨j, f, hf, ?_⟩
  split_ifs
  · exact ⟨rfl, rfl, rfl⟩
  · exact ⟨rfl, rfl, rfl⟩

/-- A change of a status keeps what is known. -/
lemma known_setStatus (hs : s.Known) (k : ℕ) (status : ForwarderStatus) :
    (s.setStatus k status).Known := by
  refine hs.of_kept rfl (fun _ _ h => h) fun f' hf' => ?_
  obtain ⟨j, f, hj, hchannel, htx, -⟩ := exists_of_mem_setStatus hf'
  exact ⟨f, List.mem_of_getElem? hj, hchannel, htx⟩

/-- Removing entries brings none. -/
lemma entry_of_removed {channels : List String} {chans : String → Option ℕ}
    (h : channels.foldl (fun chans ch => Function.update chans ch none) chans channel = some tx) :
    chans channel = some tx := by
  induction channels generalizing chans with
  | nil => exact h
  | cons ch channels ih =>
    have hupdate : Function.update chans ch none channel = some tx := ih h
    by_cases hch : channel = ch
    · subst hch
      rw [Function.update_self] at hupdate
      cases hupdate
    · rwa [Function.update_of_ne hch] at hupdate

/-- Every step keeps what is known. -/
lemma known_step (s : RedisPubSubState) (l : PubSubLabel) (s' : RedisPubSubState) (hs : s.Known)
    (h : step s l = some s') : s'.Known := by
  have hsame : ∀ f' ∈ s.forwarders, ∃ f ∈ s.forwarders, f.channel = f'.channel ∧ f.tx = f'.tx :=
    fun f hf => ⟨f, hf, rfl, rfl⟩
  cases moves_of_step h with
  | subscribe channels =>
    cases hentry : s.channels (channelName channels) with
    | some existingTx =>
      rw [subscribe_of_some hentry]
      exact hs.of_kept rfl (fun _ _ h => h) hsame
    | none =>
      rw [subscribe_of_none hentry]
      have hnew : ∀ c tx, Function.update s.channels (channelName channels) (some s.nextTx) c =
          some tx → c = channelName channels ∧ tx = s.nextTx ∨ s.channels c = some tx := by
        intro c tx htx
        by_cases hc : c = channelName channels
        · rw [hc, Function.update_self] at htx
          exact Or.inl ⟨hc, (Option.some.inj htx).symm⟩
        · rw [Function.update_of_ne hc] at htx
          exact Or.inr htx
      refine ⟨fun f hf => ?_, fun c tx htx => ?_, fun c tx htx f hf hftx => ?_⟩
      · rcases List.mem_append.mp hf with hold | hspawned
        · exact Nat.lt_succ_of_lt (hs.forwarder_lt f hold)
        · obtain rfl := List.mem_singleton.mp hspawned
          exact Nat.lt_succ_self _
      · rcases hnew c tx htx with ⟨-, rfl⟩ | hold
        · exact Nat.lt_succ_self _
        · exact Nat.lt_succ_of_lt (hs.entry_lt c tx hold)
      · rcases List.mem_append.mp hf with hold | hspawned
        · have hlt := hs.forwarder_lt f hold
          rcases hnew c tx htx with ⟨-, rfl⟩ | hentry'
          · -- the sender of the new entry has no older task
            omega
          · exact hs.entry_channel c tx hentry' f hold hftx
        · obtain rfl := List.mem_singleton.mp hspawned
          rcases hnew c tx htx with ⟨hc, -⟩ | hentry'
          · exact hc.symm
          · have hlt := hs.entry_lt c tx hentry'
            exact absurd hlt (hftx ▸ Nat.lt_irrefl _)
  | unsubscribe channels => exact hs.of_kept rfl (fun _ _ h => entry_of_removed h) hsame
  | dropStream i => exact hs.of_kept rfl (fun _ _ h => h) hsame
  | connected hk hf => exact known_setStatus hs _ _
  | disconnected hk hf =>
    exact (known_setStatus hs _ .ended).of_kept rfl (fun _ _ h => h) fun f hf => ⟨f, hf, rfl, rfl⟩
  | message hk hf payload timestamp =>
    unfold forward
    split_ifs
    · exact hs.of_kept rfl (fun _ _ h => h) hsame
    · exact known_setStatus hs _ _

/-- The tasks of a sender have ended, and no later one is a task of it. -/
def SenderDone (s : RedisPubSubState) (tx : ℕ) : Prop :=
  tx < s.nextTx ∧ ∀ f ∈ s.forwarders, f.tx = tx → f.status = .ended

/-- A change of a status leaves the sender done if it restarts none of its tasks. -/
lemma SenderDone.setStatus {k : ℕ} {status : ForwarderStatus} (hs : s.SenderDone tx)
    (hstatus : ∀ f, s.forwarders[k]? = some f → f.tx = tx → status = .ended) :
    (s.setStatus k status).SenderDone tx := by
  refine ⟨hs.1, fun f' hf' htx => ?_⟩
  obtain ⟨j, f, hj, -, hftx, hf'status⟩ := exists_of_mem_setStatus hf'
  rw [hf'status]
  split_ifs with hkj
  · subst hkj
    exact hstatus f hj (hftx.trans htx)
  · exact hs.2 f (List.mem_of_getElem? hj) (hftx.trans htx)

/-- A sender that is done stays done. -/
lemma senderDone_step {l : PubSubLabel} (hs : s.SenderDone tx) (h : step s l = some s') :
    s'.SenderDone tx := by
  cases moves_of_step h with
  | subscribe channels =>
    cases hentry : s.channels (channelName channels) with
    | some existingTx =>
      rw [subscribe_of_some hentry]
      exact hs
    | none =>
      rw [subscribe_of_none hentry]
      refine ⟨Nat.lt_succ_of_lt hs.1, fun f hf htx => ?_⟩
      rcases List.mem_append.mp hf with hold | hspawned
      · exact hs.2 f hold htx
      · obtain rfl := List.mem_singleton.mp hspawned
        exact absurd hs.1 (htx ▸ Nat.lt_irrefl _)
  | unsubscribe channels => exact hs
  | dropStream i => exact hs
  | connected hk hf =>
    apply hs.setStatus
    intro f hk' htx
    have hended := hs.2 f (List.mem_of_getElem? hk') htx
    obtain rfl := Option.some.inj (hk.symm.trans hk')
    rw [hended] at hf
    cases hf
  | disconnected hk hf => exact hs.setStatus fun _ _ _ => rfl
  | message hk hf payload timestamp =>
    unfold forward
    split_ifs
    · exact hs
    · exact hs.setStatus fun _ _ _ => rfl

/-- A step keeps a stream and its sender, and sends nothing to it when its sender is done. -/
lemma stream_step {l : PubSubLabel} (h : step s l = some s') {i : ℕ} {r : Subscription}
    (hr : s.streams[i]? = some r) : ∃ r', s'.streams[i]? = some r' ∧ r'.rx = r.rx ∧
      (s.SenderDone r.rx → r'.received = r.received) := by
  have hsame : ∀ s₁ : RedisPubSubState, s₁.streams[i]? = some r → ∃ r', s₁.streams[i]? = some r' ∧
      r'.rx = r.rx ∧ (s.SenderDone r.rx → r'.received = r.received) :=
    fun s₁ h₁ => ⟨r, h₁, rfl, fun _ => rfl⟩
  have hmap : ∀ g : Subscription → Subscription, (s.streams.map g)[i]? = some (g r) := by
    intro g
    rw [List.getElem?_map, hr]
    rfl
  cases moves_of_step h with
  | subscribe channels =>
    have hi := (List.getElem?_eq_some_iff.mp hr).1
    cases hentry : s.channels (channelName channels) with
    | some existingTx =>
      rw [subscribe_of_some hentry]
      exact hsame _ ((List.getElem?_append_left hi).trans hr)
    | none =>
      rw [subscribe_of_none hentry]
      exact hsame _ ((List.getElem?_append_left hi).trans hr)
  | unsubscribe channels =>
    refine ⟨_, hmap _, ?_⟩
    split_ifs
    · exact ⟨rfl, fun _ => rfl⟩
    · exact ⟨rfl, fun _ => rfl⟩
  | dropStream j =>
    refine ⟨if j = i then { r with dropped := true } else r, ?_, ?_⟩
    · rw [dropStream, List.getElem?_modify, hr]
      rfl
    · split_ifs
      · exact ⟨rfl, fun _ => rfl⟩
      · exact ⟨rfl, fun _ => rfl⟩
  | connected hk hf => exact hsame _ hr
  | disconnected hk hf =>
    refine ⟨_, hmap _, ?_⟩
    split_ifs
    · exact ⟨rfl, fun _ => rfl⟩
    · exact ⟨rfl, fun _ => rfl⟩
  | @message k f hk hf payload timestamp =>
    unfold forward
    split_ifs
    · refine ⟨_, hmap _, ?_⟩
      split_ifs with hactive
      · -- the task is running, so the sender is not done
        refine ⟨rfl, fun hdone => ?_⟩
        have hrx : r.rx = f.tx := by simpa using (Bool.and_eq_true_iff.mp hactive).2
        have hended := hdone.2 f (List.mem_of_getElem? hk) hrx.symm
        rw [hended] at hf
        cases hf
      · exact ⟨rfl, fun _ => rfl⟩
    · exact hsame _ hr

/-- The stream `i` belongs to a sender that is done, and nothing has been sent to it. -/
def Silent (i : ℕ) (s : RedisPubSubState) : Prop :=
  ∃ r, s.streams[i]? = some r ∧ s.SenderDone r.rx ∧ r.received = []

/-- A silent stream stays silent. -/
lemma silent_step (i : ℕ) (s : RedisPubSubState) (l : PubSubLabel) (s' : RedisPubSubState)
    (hs : Silent i s) (h : step s l = some s') : Silent i s' := by
  obtain ⟨r, hr, hdone, hreceived⟩ := hs
  obtain ⟨r', hr', hrx, hreceived'⟩ := stream_step h hr
  refine ⟨r', hr', ?_, (hreceived' hdone).trans hreceived⟩
  rw [hrx]
  exact senderDone_step hdone h

/-- A stream that `subscribe` returns on a stale entry receives no message in any continuation of
the run, whatever is published. -/
theorem received_eq_nil_of_stale_subscribe {ls ls' : List PubSubLabel} {channels : List String}
    {t : RedisPubSubState} (hs : runFrom step init ls = some s)
    (hentry : s.channels (channelName channels) = some tx)
    (hstale : ¬ s.Fed (channelName channels) tx)
    (ht : runFrom step (s.subscribe channels) ls' = some t) :
    ∃ r, t.streams[s.streams.length]? = some r ∧ r.received = [] := by
  have hknown : s.Known := by
    refine invariant_of_runFrom known_step ⟨?_, ?_, ?_⟩ hs
    · intro f hf
      cases hf
    · intro channel tx h
      cases h
    · intro channel tx h
      cases h
  have hdone : s.SenderDone tx := by
    refine ⟨hknown.entry_lt _ tx hentry, fun f hf htx => ?_⟩
    obtain ⟨k, hk⟩ := List.mem_iff_getElem?.mp hf
    have hchannel := hknown.entry_channel _ tx hentry f hf htx
    by_contra hrunning
    exact hstale ⟨k, f, hk, hchannel, htx, hrunning⟩
  have hsilent : Silent s.streams.length (s.subscribe channels) := by
    rw [subscribe_of_some hentry]
    exact ⟨newStream (channelName channels) tx, by simp, hdone, rfl⟩
  obtain ⟨r, hr, -, hreceived⟩ := invariant_of_runFrom (silent_step _) hsilent ht
  exact ⟨r, hr, hreceived⟩

end RedisPubSubState

end Rust

end GoyStore
