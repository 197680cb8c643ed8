import GoyStore.Library.Runs
import GoyStore.PubSub.MemoryPubSub
import Mathlib.Data.Finset.Erase
import Mathlib.Data.Finset.Filter
import Mathlib.Data.Finset.Range

/-!
# Delivery of the in-memory pub/sub store

`DeliveryState` is the `memoryPubSub` of the Go library with any number of publishers and consumers.
`Publish` holds the read lock while it sends, `Subscribe` and `Unsubscribe` hold the write lock.

The streams, the calls of `Publish`, the sends and what was taken after a run are those of its
labels.  Every `Publish` that has returned was sent exactly once to every stream that was registered
for its channel, and to no other, and a stream yields what was sent to it while its buffer was not
full, in the order in which it was sent (`always_exactDelivery`).
-/

namespace GoyStore

namespace Go

open Runs

/-! ### Publishers and consumers -/

/-- A call of `Publish`, from when it has the read lock. -/
structure PublishCall where
  /-- The publisher that makes the call. -/
  publisher : ℕ
  /-- The local `msg`. -/
  message : Message
  /-- The streams of the loop that are still to be sent to. -/
  pending : Finset ℕ
  /-- The call has returned. -/
  returned : Bool
  /-- For the statements: the streams that were registered for the channel at the start of the
  call. -/
  registered : Finset ℕ

/-- A send to a stream, seen from outside. -/
structure SendStep where
  /-- The number of the call that sends. -/
  call : ℕ
  /-- Its publisher. -/
  publisher : ℕ
  /-- Its message. -/
  message : Message
  /-- The number of messages in the buffer just before the send. -/
  buffered : ℕ
  deriving DecidableEq, Repr

/-- The history of a stream, for the statements. -/
structure StreamHistory where
  /-- The channels that `Subscribe` listed. -/
  channels : List String
  /-- The channels that were unsubscribed since the stream was created. -/
  unsubscribed : List String
  /-- The sends to the stream. -/
  sends : List SendStep
  /-- The messages that the consumer has taken. -/
  taken : List Message

/-- The channel was subscribed and has not been unsubscribed since. -/
def StreamHistory.registered (h : StreamHistory) (channel : String) : Bool :=
  channel ∈ h.channels && channel ∉ h.unsubscribed

/-- A store with its publishers, and the histories of its streams. -/
structure DeliveryState where
  /-- The store. -/
  store : MemoryPubSub
  /-- The calls of `Publish`, in the order in which they got the lock. -/
  calls : List PublishCall
  /-- The histories of the streams. -/
  streams : List StreamHistory

/-- A step of a caller of the store. -/
inductive DeliveryLabel where
  /-- A call of `Subscribe`, from lock to unlock. -/
  | subscribe (channels : List String)
  /-- A call of `Unsubscribe`, from lock to unlock. -/
  | unsubscribe (channels : List String)
  /-- A publisher enters `Publish`: it gets the read lock and makes the message. -/
  | start (publisher : ℕ) (channel : String) (payload : List UInt8) (timestamp : ℤ)
  /-- A call of `Publish` sends to the next stream that the map yields. -/
  | send (k : ℕ) (j : ℕ)
  /-- A call of `Publish` leaves the loop and gives the lock back. -/
  | finish (k : ℕ)
  /-- The consumer of a stream takes a message. -/
  | receive (j : ℕ)

namespace DeliveryState

/-- A new store. -/
def init : DeliveryState := ⟨.init, [], []⟩

/-- The streams that were subscribed to the channel and from which it has not been unsubscribed
since. -/
def registeredFor (s : DeliveryState) (channel : String) : Finset ℕ :=
  (Finset.range s.streams.length).filter fun j =>
    s.streams[j]?.any fun h => h.registered channel

/-- No publisher holds the read lock. -/
def noReader (s : DeliveryState) : Bool := s.calls.all fun call => call.returned

/-- A call of `Subscribe`. -/
def subscribe (s : DeliveryState) (channels : List String) : DeliveryState where
  store := s.store.subscribe channels
  calls := s.calls
  streams := s.streams ++ [⟨channels, [], [], []⟩]

/-- A call of `Unsubscribe`. -/
def unsubscribe (s : DeliveryState) (channels : List String) : DeliveryState where
  store := s.store.unsubscribe channels
  calls := s.calls
  streams := s.streams.map fun h => { h with unsubscribed := h.unsubscribed ++ channels }

/-- The start of a call of `Publish`. -/
def start (s : DeliveryState) (publisher : ℕ) (msg : Message) : DeliveryState :=
  { s with
    calls := s.calls ++ [⟨publisher, msg, s.store.subscribers msg.channel, false,
      s.registeredFor msg.channel⟩] }

/-- A send to the stream `j`, with `buffer` in its Go channel. -/
def send (s : DeliveryState) (k j : ℕ) (call : PublishCall) (buffer : List Message) :
    DeliveryState where
  store := s.store.offer call.message j
  calls := s.calls.set k { call with pending := call.pending.erase j }
  streams := s.streams.modify j fun h =>
    { h with sends := h.sends ++ [⟨k, call.publisher, call.message, buffer.length⟩] }

/-- The end of a call of `Publish`. -/
def finish (s : DeliveryState) (k : ℕ) (call : PublishCall) : DeliveryState :=
  { s with calls := s.calls.set k { call with returned := true } }

/-- The consumer of the stream `j` takes the message. -/
def receive (s : DeliveryState) (j : ℕ) (msg : Message) : DeliveryState where
  store := s.store.receive j
  calls := s.calls
  streams := s.streams.modify j fun h => { h with taken := h.taken ++ [msg] }

/-- The step function.  A publisher calls `Publish` again only after its last call has returned. -/
def step (s : DeliveryState) : DeliveryLabel → Option DeliveryState
  | .subscribe channels => if s.noReader then some (s.subscribe channels) else none
  | .unsubscribe channels => if s.noReader then some (s.unsubscribe channels) else none
  | .start publisher channel payload timestamp =>
    if s.calls.all fun call => call.publisher != publisher || call.returned then
      some (s.start publisher ⟨channel, payload, timestamp⟩)
    else none
  | .send k j =>
    s.calls[k]?.bind fun call => s.store.chans[j]?.bind fun buffer =>
      if j ∈ call.pending then some (s.send k j call buffer) else none
  | .finish k =>
    s.calls[k]?.bind fun call =>
      if call.pending = ∅ ∧ call.returned = false then some (s.finish k call) else none
  | .receive j =>
    s.store.chans[j]?.bind fun buffer => buffer.head?.map fun msg => s.receive j msg

end DeliveryState

/-! ### What exact delivery means -/

/-- The call `k` has sent to the stream `j`, which was registered for its channel. -/
def SentTo (calls : List PublishCall) (k j : ℕ) : Prop :=
  ∃ call, calls[k]? = some call ∧ j ∈ call.registered ∧ j ∉ call.pending

/-- The stream `j`, with its history and its buffer, got what it should. -/
structure StreamExact (calls : List PublishCall) (j : ℕ) (h : StreamHistory)
    (buffer : List Message) : Prop where
  /-- A call that has sent to the stream did so once. -/
  once : ∀ k, SentTo calls k j → (h.sends.map SendStep.call).count k = 1
  /-- No other call has sent to the stream. -/
  only : ∀ k, ¬ SentTo calls k j → k ∉ h.sends.map SendStep.call
  /-- A send is the send of a call. -/
  genuine : ∀ e ∈ h.sends, ∃ call, calls[e.call]? = some call ∧
    e.publisher = call.publisher ∧ e.message = call.message
  /-- Only messages of channels that were subscribed are sent. -/
  listed : ∀ e ∈ h.sends, e.message.channel ∈ h.channels
  /-- The sends of one publisher come in the order of its calls. -/
  ordered : ∀ publisher, ((h.sends.filter fun e => e.publisher = publisher).map
    SendStep.call).Pairwise (· < ·)
  /-- The stream yields what was sent while its buffer was not full. -/
  yields : h.taken ++ buffer =
    (h.sends.filter fun e => e.buffered < MemoryPubSub.capacity).map SendStep.message
  /-- The buffer is within its capacity. -/
  bounded : buffer.length ≤ MemoryPubSub.capacity

namespace DeliveryState

/-- The streams and the calls of a state are exact: every stream got what it should, and every call
of `Publish` is done with the streams that are registered for its channel during the call. -/
structure ExactState (s : DeliveryState) : Prop where
  /-- Every stream got what it should. -/
  streams : ∀ j h buffer, s.streams[j]? = some h → s.store.chans[j]? = some buffer →
    StreamExact s.calls j h buffer
  /-- The registered streams of a call do not change while it runs. -/
  running : ∀ call ∈ s.calls, call.returned = false →
    call.registered = s.registeredFor call.message.channel
  /-- A call that has returned is done with all of them. -/
  returned : ∀ call ∈ s.calls, call.returned = true → call.pending = ∅

end DeliveryState

/-! ### What the callers did -/

/-- A stream, as its callers know it. -/
structure Subscription where
  /-- The channels that `Subscribe` listed. -/
  channels : List String
  /-- The channels that were unsubscribed since. -/
  unsubscribed : List String
  deriving DecidableEq, Repr

/-- A call of `Publish`, as its caller knows it. -/
structure Publication where
  /-- The publisher. -/
  publisher : ℕ
  /-- The message. -/
  message : Message
  /-- The streams that were registered for the channel when the call started. -/
  registered : Finset ℕ

/-- The streams and the calls of `Publish` that the callers asked for. -/
structure Requests where
  /-- The calls of `Subscribe`, one for each stream. -/
  subscriptions : List Subscription
  /-- The calls of `Publish`. -/
  publications : List Publication

/-- The channel was subscribed and has not been unsubscribed since. -/
def Subscription.registered (h : Subscription) (channel : String) : Bool :=
  channel ∈ h.channels && channel ∉ h.unsubscribed

namespace Requests

/-- The streams that are registered for the channel. -/
def registeredFor (r : Requests) (channel : String) : Finset ℕ :=
  (Finset.range r.subscriptions.length).filter fun j =>
    r.subscriptions[j]?.any fun h => h.registered channel

/-- One more step of the callers. -/
def note (r : Requests) : DeliveryLabel → Requests
  | .subscribe channels => { r with subscriptions := r.subscriptions ++ [⟨channels, []⟩] }
  | .unsubscribe channels =>
    { r with subscriptions := r.subscriptions.map fun h =>
        { h with unsubscribed := h.unsubscribed ++ channels } }
  | .start publisher channel payload timestamp =>
    { r with publications := r.publications ++
        [⟨publisher, ⟨channel, payload, timestamp⟩, r.registeredFor channel⟩] }
  | _ => r

end Requests

/-- What the callers asked for in a run. -/
def requestsOf (ls : List DeliveryLabel) : Requests := ls.foldl Requests.note ⟨[], []⟩

/-- The stream, as its callers know it. -/
def StreamHistory.subscription (h : StreamHistory) : Subscription := ⟨h.channels, h.unsubscribed⟩

/-- The call, as its caller knows it. -/
def PublishCall.publication (call : PublishCall) : Publication :=
  ⟨call.publisher, call.message, call.registered⟩

/-- The step takes a message from the stream `j`. -/
def DeliveryLabel.takesFrom (j : ℕ) : DeliveryLabel → Bool
  | .receive i => i = j
  | _ => false

/-- The step is the return of the call `k`. -/
def DeliveryLabel.returns (k : ℕ) : DeliveryLabel → Bool
  | .finish i => i = k
  | _ => false

namespace DeliveryState

/-- The streams and the calls of a state, as the callers know them. -/
def requests (s : DeliveryState) : Requests :=
  ⟨s.streams.map StreamHistory.subscription, s.calls.map PublishCall.publication⟩

/-- The call that sends to the stream `j` in a step, and how many messages are in the buffer. -/
def sendTo (j : ℕ) (s : DeliveryState) : DeliveryLabel → Option (ℕ × ℕ)
  | .send k i => if i = j then s.store.chans[j]?.map fun buffer => (k, buffer.length) else none
  | _ => none

/-- The sends to the stream `j`; none when there is no such stream. -/
def sendsTo (s : DeliveryState) (j : ℕ) : List SendStep := s.streams[j]?.elim [] (·.sends)

/-- What was taken from the stream `j`; nothing when there is no such stream. -/
def takenFrom (s : DeliveryState) (j : ℕ) : List Message := s.streams[j]?.elim [] (·.taken)

/-- The call `k` has returned. -/
def hasReturned (s : DeliveryState) (k : ℕ) : Bool := s.calls[k]?.any fun call => call.returned

/-- The delivery after a run is exact: the streams, the calls, the sends and what was taken are
those of the run, every stream got what it should, and every call of `Publish` is done with the
streams that are registered for its channel during the call. -/
structure ExactDelivery (ls : List DeliveryLabel) (s : DeliveryState) : Prop extends ExactState s
    where
  /-- Every stream has its Go channel. -/
  length : s.streams.length = s.store.chans.length
  /-- The streams are those of the calls of `Subscribe`, and the calls of `Publish` those of the
  publishers, each with the streams that were registered when it started. -/
  requested : s.requests = requestsOf ls
  /-- The sends to a stream are those of the run, with what was in the buffer before each. -/
  sent : ∀ j, (s.sendsTo j).map (fun e => (e.call, e.buffered)) =
    collectSteps step (sendTo j) init ls
  /-- The consumers took as many messages as they asked for. -/
  taken : ∀ j, (s.takenFrom j).length = ls.countP (DeliveryLabel.takesFrom j)
  /-- The calls that have returned are those that left the loop. -/
  finished : ∀ k, s.hasReturned k = ls.any (DeliveryLabel.returns k)

variable {s s' : DeliveryState}

/-! ### What a step does -/

/-- The step of each label. -/
inductive Moves (s : DeliveryState) : DeliveryLabel → DeliveryState → Prop where
  /-- A call of `Subscribe`. -/
  | subscribe (channels : List String) (hlock : s.noReader = true) :
      Moves s (.subscribe channels) (s.subscribe channels)
  /-- A call of `Unsubscribe`. -/
  | unsubscribe (channels : List String) (hlock : s.noReader = true) :
      Moves s (.unsubscribe channels) (s.unsubscribe channels)
  /-- A call of `Publish` starts. -/
  | start (publisher : ℕ) (msg : Message)
      (hidle : ∀ call ∈ s.calls, call.publisher = publisher → call.returned = true) :
      Moves s (.start publisher msg.channel msg.payload msg.timestamp) (s.start publisher msg)
  /-- A send. -/
  | send {k j : ℕ} {call : PublishCall} {buffer : List Message} (hk : s.calls[k]? = some call)
      (hj : s.store.chans[j]? = some buffer) (hpending : j ∈ call.pending) :
      Moves s (.send k j) (s.send k j call buffer)
  /-- A call of `Publish` returns. -/
  | finish {k : ℕ} {call : PublishCall} (hk : s.calls[k]? = some call)
      (hpending : call.pending = ∅) : Moves s (.finish k) (s.finish k call)
  /-- A message is taken. -/
  | receive {j : ℕ} {msg : Message} {rest : List Message}
      (hj : s.store.chans[j]? = some (msg :: rest)) : Moves s (.receive j) (s.receive j msg)

/-- Every step is one of these. -/
lemma moves_of_step {l : DeliveryLabel} (h : step s l = some s') : Moves s l s' := by
  cases l with
  | subscribe channels =>
    obtain ⟨hlock, heq⟩ := Option.ite_none_right_eq_some.mp h
    obtain rfl := Option.some.inj heq
    exact .subscribe channels hlock
  | unsubscribe channels =>
    obtain ⟨hlock, heq⟩ := Option.ite_none_right_eq_some.mp h
    obtain rfl := Option.some.inj heq
    exact .unsubscribe channels hlock
  | start publisher channel payload timestamp =>
    obtain ⟨hidle, heq⟩ := Option.ite_none_right_eq_some.mp h
    obtain rfl := Option.some.inj heq
    refine .start publisher ⟨channel, payload, timestamp⟩ fun call hcall hpublisher => ?_
    have hor := List.all_eq_true.mp hidle call hcall
    simpa [hpublisher] using hor
  | send k j =>
    obtain ⟨call, hk, h⟩ := Option.bind_eq_some_iff.mp h
    obtain ⟨buffer, hj, h⟩ := Option.bind_eq_some_iff.mp h
    obtain ⟨hpending, heq⟩ := Option.ite_none_right_eq_some.mp h
    obtain rfl := Option.some.inj heq
    exact .send hk hj hpending
  | finish k =>
    obtain ⟨call, hk, h⟩ := Option.bind_eq_some_iff.mp h
    obtain ⟨⟨hpending, -⟩, heq⟩ := Option.ite_none_right_eq_some.mp h
    obtain rfl := Option.some.inj heq
    exact .finish hk hpending
  | receive j =>
    obtain ⟨buffer, hj, h⟩ := Option.bind_eq_some_iff.mp h
    obtain ⟨msg, hmsg, heq⟩ := Option.map_eq_some_iff.mp h
    obtain ⟨rest, rfl⟩ := List.head?_eq_some_iff.mp hmsg
    obtain rfl := heq
    exact .receive hj

/-! ### Registration -/

/-- A stream is registered only for channels that it listed. -/
lemma listed_of_registered {h : StreamHistory} {channel : String}
    (hregistered : h.registered channel = true) : channel ∈ h.channels := by
  unfold StreamHistory.registered at hregistered
  rw [Bool.and_eq_true, decide_eq_true_eq] at hregistered
  exact hregistered.1

/-- A stream that is registered for a channel. -/
lemma mem_registeredFor {channel : String} {j : ℕ} :
    j ∈ s.registeredFor channel ↔ ∃ h, s.streams[j]? = some h ∧ h.registered channel = true := by
  unfold registeredFor
  rw [Finset.mem_filter, Finset.mem_range, Option.any_eq_true]
  constructor
  · rintro ⟨-, hregistered⟩
    exact hregistered
  · rintro ⟨h, hj, hregistered⟩
    exact ⟨(List.getElem?_eq_some_iff.mp hj).1, h, hj, hregistered⟩

/-- A change of a history that keeps its requests keeps the registrations. -/
lemma registeredFor_of_modify {i : ℕ} {f : StreamHistory → StreamHistory}
    (hstreams : s'.streams = s.streams.modify i f)
    (hf : ∀ h channel, (f h).registered channel = h.registered channel) (channel : String) :
    s'.registeredFor channel = s.registeredFor channel := by
  ext j
  rw [mem_registeredFor, mem_registeredFor, hstreams, List.getElem?_modify]
  constructor
  · rintro ⟨h', hj, hregistered⟩
    obtain ⟨h, hh, rfl⟩ := Option.map_eq_some_iff.mp hj
    refine ⟨h, hh, ?_⟩
    split_ifs at hregistered
    · rw [← hf h channel]
      exact hregistered
    · exact hregistered
  · rintro ⟨h, hh, hregistered⟩
    refine ⟨if i = j then f h else h, by rw [hh]; rfl, ?_⟩
    split_ifs
    · rw [hf h channel]
      exact hregistered
    · exact hregistered

/-- The streams that are registered after a call of `Subscribe`. -/
lemma mem_registeredFor_subscribe {channels : List String} {channel : String} {j : ℕ} :
    j ∈ (s.subscribe channels).registeredFor channel ↔
      j ∈ s.registeredFor channel ∨ j = s.streams.length ∧ channel ∈ channels := by
  rw [mem_registeredFor, mem_registeredFor]
  have hstreams : (s.subscribe channels).streams = s.streams ++ [⟨channels, [], [], []⟩] := rfl
  rw [hstreams, List.getElem?_append]
  split_ifs with hlt
  · have hne : j ≠ s.streams.length := by omega
    simp [hne]
  · have hnone : s.streams[j]? = none := by simpa using hlt
    rw [hnone]
    by_cases heq : j = s.streams.length
    · subst heq
      simp [StreamHistory.registered]
    · have hpos : j - s.streams.length ≠ 0 := by omega
      simp [heq, hpos]

/-- The streams that are registered after a call of `Unsubscribe`. -/
lemma mem_registeredFor_unsubscribe {channels : List String} {channel : String} {j : ℕ} :
    j ∈ (s.unsubscribe channels).registeredFor channel ↔
      j ∈ s.registeredFor channel ∧ channel ∉ channels := by
  rw [mem_registeredFor, mem_registeredFor]
  have hstreams : (s.unsubscribe channels).streams =
      s.streams.map fun h => { h with unsubscribed := h.unsubscribed ++ channels } := rfl
  have hend : ∀ h : StreamHistory,
      StreamHistory.registered { h with unsubscribed := h.unsubscribed ++ channels } channel =
        (h.registered channel && channel ∉ channels) := by
    intro h
    simp [StreamHistory.registered, Bool.and_assoc]
  rw [hstreams, List.getElem?_map]
  constructor
  · rintro ⟨h', hj, hregistered⟩
    obtain ⟨h, hh, rfl⟩ := Option.map_eq_some_iff.mp hj
    rw [hend h, Bool.and_eq_true, decide_eq_true_eq] at hregistered
    exact ⟨⟨h, hh, hregistered.1⟩, hregistered.2⟩
  · rintro ⟨⟨h, hh, hregistered⟩, hchannels⟩
    refine ⟨_, Option.map_eq_some_iff.mpr ⟨h, hh, rfl⟩, ?_⟩
    rw [hend h, Bool.and_eq_true, decide_eq_true_eq]
    exact ⟨hregistered, hchannels⟩

end DeliveryState

/-! ### Calls along a step -/

variable {calls calls' : List PublishCall} {k j : ℕ} {call call' : PublishCall}

/-- The calls are still there, with their publishers and their messages. -/
def CallsKept (calls calls' : List PublishCall) : Prop :=
  ∀ (k : ℕ) (call : PublishCall), calls[k]? = some call → ∃ call', calls'[k]? = some call' ∧
    call'.publisher = call.publisher ∧ call'.message = call.message

/-- A new call keeps the others. -/
lemma callsKept_append (calls : List PublishCall) (new : PublishCall) :
    CallsKept calls (calls ++ [new]) := by
  intro k call hk
  have hlt : k < calls.length := (List.getElem?_eq_some_iff.mp hk).1
  exact ⟨call, by rw [List.getElem?_append_left hlt, hk], rfl, rfl⟩

/-- The progress of a call keeps it. -/
lemma callsKept_set (hk : calls[k]? = some call) (hpublisher : call'.publisher = call.publisher)
    (hmessage : call'.message = call.message) : CallsKept calls (calls.set k call') := by
  intro i c hi
  by_cases hik : k = i
  · subst hik
    obtain rfl : c = call := Option.some.inj (hi.symm.trans hk)
    have hlt : k < calls.length := (List.getElem?_eq_some_iff.mp hk).1
    exact ⟨call', List.getElem?_set_self hlt, hpublisher, hmessage⟩
  · exact ⟨c, by rw [List.getElem?_set_ne hik, hi], rfl, rfl⟩

/-- A send of a call that is kept is still the send of a call. -/
lemma CallsKept.genuine (hkept : CallsKept calls calls') {e : SendStep}
    (h : ∃ call, calls[e.call]? = some call ∧ e.publisher = call.publisher ∧
      e.message = call.message) :
    ∃ call, calls'[e.call]? = some call ∧ e.publisher = call.publisher ∧
      e.message = call.message := by
  obtain ⟨call, hcall, hpublisher, hmessage⟩ := h
  obtain ⟨call', hcall', hpublisher', hmessage'⟩ := hkept e.call call hcall
  exact ⟨call', hcall', hpublisher.trans hpublisher'.symm, hmessage.trans hmessage'.symm⟩

/-- A call that has yet to send has sent to no stream. -/
lemma sentTo_append {new : PublishCall} (hnew : new.pending = new.registered) :
    SentTo (calls ++ [new]) k j ↔ SentTo calls k j := by
  unfold SentTo
  rw [List.getElem?_append]
  split_ifs with hlt
  · rfl
  · have hnone : calls[k]? = none := by simpa using hlt
    rw [hnone]
    constructor
    · rintro ⟨c, hc, hregistered, hpending⟩
      obtain rfl := List.mem_singleton.mp (List.mem_of_getElem? hc)
      rw [hnew] at hpending
      exact absurd hregistered hpending
    · rintro ⟨c, hc, -⟩
      cases hc

/-- The progress of a call elsewhere. -/
lemma sentTo_set {i : ℕ} (hi : calls[i]? = some call)
    (hregistered : call'.registered = call.registered)
    (hpending : j ∈ call'.pending ↔ j ∈ call.pending) :
    SentTo (calls.set i call') k j ↔ SentTo calls k j := by
  have hlt : i < calls.length := (List.getElem?_eq_some_iff.mp hi).1
  unfold SentTo
  by_cases hik : i = k
  · subst hik
    rw [List.getElem?_set_self hlt, hi]
    constructor
    · rintro ⟨c, hc, hmem, hnot⟩
      obtain rfl := Option.some.inj hc
      exact ⟨call, rfl, hregistered ▸ hmem, fun h => hnot (hpending.mpr h)⟩
    · rintro ⟨c, hc, hmem, hnot⟩
      obtain rfl := Option.some.inj hc
      exact ⟨call', rfl, hregistered ▸ hmem, fun h => hnot (hpending.mp h)⟩
  · rw [List.getElem?_set_ne hik]

/-- A send. -/
lemma sentTo_send {i : ℕ} (hi : calls[i]? = some call) (hsub : call.pending ⊆ call.registered)
    (hj : j ∈ call.pending) :
    SentTo (calls.set i { call with pending := call.pending.erase j }) k j ↔
      SentTo calls k j ∨ k = i := by
  have hlt : i < calls.length := (List.getElem?_eq_some_iff.mp hi).1
  unfold SentTo
  by_cases hik : i = k
  · subst hik
    rw [List.getElem?_set_self hlt]
    constructor
    · exact fun _ => Or.inr rfl
    · exact fun _ => ⟨_, rfl, hsub hj, Finset.notMem_erase j call.pending⟩
  · rw [List.getElem?_set_ne hik]
    have hne : k ≠ i := Ne.symm hik
    simp [hne]

/-! ### Streams along a step -/

variable {h : StreamHistory} {buffer : List Message}

/-- What a stream got does not change when nothing is sent to it. -/
lemma StreamExact.of_kept (hexact : StreamExact calls j h buffer) (hkept : CallsKept calls calls')
    (hsent : ∀ k, SentTo calls' k j ↔ SentTo calls k j) : StreamExact calls' j h buffer where
  once k hk := hexact.once k ((hsent k).mp hk)
  only k hk := hexact.only k fun h => hk ((hsent k).mpr h)
  genuine e he := hkept.genuine (hexact.genuine e he)
  listed := hexact.listed
  ordered := hexact.ordered
  yields := hexact.yields
  bounded := hexact.bounded

/-- A new stream. -/
lemma streamExact_new (channels : List String) (hnone : ∀ k, ¬ SentTo calls k j) :
    StreamExact calls j ⟨channels, [], [], []⟩ [] where
  once k hk := absurd hk (hnone k)
  only := by simp
  genuine := by simp
  listed := by simp
  ordered := by simp
  yields := rfl
  bounded := Nat.zero_le _

/-- An `Unsubscribe` sends nothing. -/
lemma StreamExact.unsubscribe (hexact : StreamExact calls j h buffer) (channels : List String) :
    StreamExact calls j { h with unsubscribed := h.unsubscribed ++ channels } buffer where
  once := hexact.once
  only := hexact.only
  genuine := hexact.genuine
  listed := hexact.listed
  ordered := hexact.ordered
  yields := hexact.yields
  bounded := hexact.bounded

/-- A stream whose consumer takes a message. -/
lemma StreamExact.receive {msg : Message} {rest : List Message}
    (hexact : StreamExact calls j h (msg :: rest)) :
    StreamExact calls j { h with taken := h.taken ++ [msg] } rest where
  once := hexact.once
  only := hexact.only
  genuine := hexact.genuine
  listed := hexact.listed
  ordered := hexact.ordered
  yields := by
    rw [← hexact.yields]
    simp
  bounded := by
    have hle := hexact.bounded
    rw [List.length_cons] at hle
    omega

/-- A stream to which a call sends.  The call is the last one of its publisher. -/
lemma StreamExact.send {i : ℕ} (hexact : StreamExact calls j h buffer) (hi : calls[i]? = some call)
    (hsub : call.pending ⊆ call.registered) (hj : j ∈ call.pending)
    (hlisted : call.message.channel ∈ h.channels)
    (hlast : ∀ (k : ℕ) (c : PublishCall), calls[k]? = some c → c.publisher = call.publisher →
      k ≤ i) :
    StreamExact (calls.set i { call with pending := call.pending.erase j }) j
      { h with sends := h.sends ++ [⟨i, call.publisher, call.message, buffer.length⟩] }
      (MemoryPubSub.offered buffer call.message) := by
  have hnot : ¬ SentTo calls i j := by
    rintro ⟨c, hc, -, hpending⟩
    obtain rfl := Option.some.inj (hc.symm.trans hi)
    exact hpending hj
  have hfresh : i ∉ h.sends.map SendStep.call := hexact.only i hnot
  have hkept : CallsKept calls (calls.set i { call with pending := call.pending.erase j }) :=
    callsKept_set hi rfl rfl
  constructor
  case once =>
    intro k hk
    rw [List.map_append, List.count_append]
    rcases (sentTo_send hi hsub hj).mp hk with hold | rfl
    · have hne : k ≠ i := by
        rintro rfl
        exact hnot hold
      rw [hexact.once k hold]
      simp [hne.symm]
    · rw [List.count_eq_zero.mpr hfresh]
      simp
  case only =>
    intro k hk
    have hboth := not_or.mp (mt (sentTo_send hi hsub hj).mpr hk)
    rw [List.map_append, List.mem_append]
    rintro (hmem | hmem)
    · exact hexact.only k hboth.1 hmem
    · exact hboth.2 (by simpa using hmem)
  case genuine =>
    intro e he
    rcases List.mem_append.mp he with hold | hnew
    · exact hkept.genuine (hexact.genuine e hold)
    · obtain rfl := List.mem_singleton.mp hnew
      exact hkept.genuine ⟨call, hi, rfl, rfl⟩
  case listed =>
    intro e he
    rcases List.mem_append.mp he with hold | hnew
    · exact hexact.listed e hold
    · obtain rfl := List.mem_singleton.mp hnew
      exact hlisted
  case ordered =>
    intro publisher
    rw [List.filter_append, List.map_append, List.pairwise_append]
    refine ⟨hexact.ordered publisher, ?_, ?_⟩
    · exact List.Pairwise.map _ (fun _ _ hab => hab)
        (List.Pairwise.sublist List.filter_sublist (List.pairwise_singleton _ _))
    · intro a ha b hb
      obtain ⟨e, he, rfl⟩ := List.mem_map.mp ha
      obtain ⟨e', he', rfl⟩ := List.mem_map.mp hb
      obtain ⟨hmem, hp⟩ := List.mem_filter.mp he
      obtain ⟨hmem', hp'⟩ := List.mem_filter.mp he'
      obtain rfl := List.mem_singleton.mp hmem'
      obtain ⟨c, hc, hpublisher, -⟩ := hexact.genuine e hmem
      have hsame : c.publisher = call.publisher := by
        rw [← hpublisher, of_decide_eq_true hp, ← of_decide_eq_true hp']
      have hle : e.call ≤ i := hlast e.call c hc hsame
      have hne : e.call ≠ i := fun heq => hfresh (heq ▸ List.mem_map_of_mem hmem)
      exact lt_of_le_of_ne hle hne
  case yields =>
    rw [List.filter_append, List.map_append, ← hexact.yields]
    unfold MemoryPubSub.offered
    by_cases hroom : buffer.length < MemoryPubSub.capacity
    · simp [hroom]
    · simp [hroom]
  case bounded =>
    have hle := hexact.bounded
    unfold MemoryPubSub.offered
    split_ifs with hroom
    · rw [List.length_append, List.length_singleton]
      omega
    · exact hle

namespace DeliveryState

variable {s s' : DeliveryState}

/-! ### The invariant -/

/-- What every reachable state has, besides exact streams and calls. -/
structure Sound (s : DeliveryState) : Prop where
  /-- There is a history for each Go channel. -/
  length : s.streams.length = s.store.chans.length
  /-- The map of the store is the registrations. -/
  subscribers : ∀ channel, s.store.subscribers channel = s.registeredFor channel
  /-- A call sends to registered streams only. -/
  pending : ∀ call ∈ s.calls, call.pending ⊆ call.registered
  /-- The registered streams of a call have been created. -/
  created : ∀ call ∈ s.calls, ∀ j ∈ call.registered, j < s.streams.length
  /-- Every call of a publisher but its last one has returned. -/
  sequential : ∀ (k k' : ℕ) (call call' : PublishCall), s.calls[k]? = some call →
    s.calls[k']? = some call' → call.publisher = call'.publisher → k < k' → call.returned = true
  /-- The streams and the calls are exact. -/
  exact : s.ExactState

/-- A Go channel is the one of a stream. -/
lemma Sound.lt_of_chan (hs : Sound s) {j : ℕ} {buffer : List Message}
    (hj : s.store.chans[j]? = some buffer) : j < s.streams.length := by
  rw [hs.length]
  exact (List.getElem?_eq_some_iff.mp hj).1

/-- Nothing has happened yet. -/
lemma sound_init : Sound init where
  length := rfl
  subscribers channel := by
    ext j
    rw [mem_registeredFor]
    constructor
    · intro hj
      exact absurd hj (Finset.notMem_empty j)
    · rintro ⟨h, hj, -⟩
      cases hj
  pending := by simp [init]
  created := by simp [init]
  sequential := by
    intro k k' call call' hk
    cases hk
  exact := by
    refine ⟨?_, by simp [init], by simp [init]⟩
    intro j h buffer hj
    cases hj

/-- No call is running when the write lock is free. -/
lemma returned_of_noReader (hlock : s.noReader = true) (call : PublishCall)
    (hcall : call ∈ s.calls) : call.returned = true :=
  List.all_eq_true.mp hlock call hcall

/-- A call of `Subscribe`. -/
lemma sound_subscribe (hs : Sound s) (hlock : s.noReader = true) (channels : List String) :
    Sound (s.subscribe channels) where
  length := by
    change (s.streams ++ [_]).length = (s.store.chans ++ [[]]).length
    rw [List.length_append, List.length_append, hs.length]
    rfl
  subscribers channel := by
    ext j
    have hmem := MemoryPubSub.mem_subscribers_subscribe s.store channels channel j
    rw [mem_registeredFor_subscribe, ← hs.subscribers channel, hs.length]
    exact hmem
  pending := hs.pending
  created call hcall j hj := by
    have hlt := hs.created call hcall j hj
    change j < (s.streams ++ [_]).length
    rw [List.length_append]
    omega
  sequential := hs.sequential
  exact := by
    refine ⟨?_, fun call hcall hrunning => ?_, hs.exact.returned⟩
    · intro j h buffer hj hbuffer
      change (s.streams ++ [⟨channels, [], [], []⟩])[j]? = some h at hj
      change (s.store.chans ++ [[]])[j]? = some buffer at hbuffer
      rw [List.getElem?_append] at hj hbuffer
      by_cases hlt : j < s.streams.length
      · rw [if_pos hlt] at hj
        rw [if_pos (hs.length ▸ hlt)] at hbuffer
        exact hs.exact.streams j h buffer hj hbuffer
      · rw [if_neg hlt] at hj
        rw [if_neg (hs.length ▸ hlt)] at hbuffer
        obtain rfl := List.mem_singleton.mp (List.mem_of_getElem? hj)
        obtain rfl := List.mem_singleton.mp (List.mem_of_getElem? hbuffer)
        apply streamExact_new channels
        rintro k ⟨call, hk, hregistered, -⟩
        exact hlt (hs.created call (List.mem_of_getElem? hk) j hregistered)
    · rw [returned_of_noReader hlock call hcall] at hrunning
      cases hrunning

/-- A call of `Unsubscribe`. -/
lemma sound_unsubscribe (hs : Sound s) (hlock : s.noReader = true) (channels : List String) :
    Sound (s.unsubscribe channels) where
  length := by
    change (s.streams.map _).length = s.store.chans.length
    rw [List.length_map, hs.length]
  subscribers channel := by
    ext j
    have hsubs := MemoryPubSub.subscribers_unsubscribe s.store channels channel
    change j ∈ (s.store.unsubscribe channels).subscribers channel ↔ _
    rw [hsubs, mem_registeredFor_unsubscribe, ← hs.subscribers channel]
    by_cases hmem : channel ∈ channels
    · simp [hmem]
    · simp [hmem]
  pending := hs.pending
  created call hcall j hj := by
    change j < (s.streams.map _).length
    rw [List.length_map]
    exact hs.created call hcall j hj
  sequential := hs.sequential
  exact := by
    refine ⟨?_, fun call hcall hrunning => ?_, hs.exact.returned⟩
    · intro j h' buffer hj hbuffer
      change (s.streams.map _)[j]? = some h' at hj
      rw [List.getElem?_map] at hj
      obtain ⟨h, hh, rfl⟩ := Option.map_eq_some_iff.mp hj
      exact (hs.exact.streams j h buffer hh hbuffer).unsubscribe channels
    · rw [returned_of_noReader hlock call hcall] at hrunning
      cases hrunning

/-- A call of `Publish` starts. -/
lemma sound_start (hs : Sound s) {publisher : ℕ} (msg : Message)
    (hidle : ∀ call ∈ s.calls, call.publisher = publisher → call.returned = true) :
    Sound (s.start publisher msg) := by
  have hcalls : (s.start publisher msg).calls =
      s.calls ++ [⟨publisher, msg, s.store.subscribers msg.channel, false,
        s.registeredFor msg.channel⟩] := rfl
  constructor
  · exact hs.length
  · exact hs.subscribers
  · intro call hcall
    rw [hcalls] at hcall
    rcases List.mem_append.mp hcall with hold | hnew
    · exact hs.pending call hold
    · obtain rfl := List.mem_singleton.mp hnew
      exact (hs.subscribers msg.channel).subset
  · intro call hcall j hj
    rw [hcalls] at hcall
    rcases List.mem_append.mp hcall with hold | hnew
    · exact hs.created call hold j hj
    · obtain rfl := List.mem_singleton.mp hnew
      obtain ⟨h, hh, -⟩ := mem_registeredFor.mp hj
      exact (List.getElem?_eq_some_iff.mp hh).1
  · intro k k' call call' hk hk' hsame hlt
    rw [hcalls] at hk hk'
    have hk'len : k' < s.calls.length + 1 := by
      have hbound := (List.getElem?_eq_some_iff.mp hk').1
      simpa using hbound
    rw [List.getElem?_append_left (by omega)] at hk
    rw [List.getElem?_append] at hk'
    split_ifs at hk' with hold
    · exact hs.sequential k k' call call' hk hk' hsame hlt
    · obtain rfl := List.mem_singleton.mp (List.mem_of_getElem? hk')
      exact hidle call (List.mem_of_getElem? hk) hsame
  · refine ⟨?_, ?_, ?_⟩
    · intro j h buffer hj hbuffer
      have hexact := hs.exact.streams j h buffer hj hbuffer
      exact hexact.of_kept (callsKept_append s.calls _)
        fun k => sentTo_append (hs.subscribers msg.channel)
    · intro call hcall hrunning
      rw [hcalls] at hcall
      rcases List.mem_append.mp hcall with hold | hnew
      · exact hs.exact.running call hold hrunning
      · obtain rfl := List.mem_singleton.mp hnew
        rfl
    · intro call hcall hreturned
      rw [hcalls] at hcall
      rcases List.mem_append.mp hcall with hold | hnew
      · exact hs.exact.returned call hold hreturned
      · obtain rfl := List.mem_singleton.mp hnew
        cases hreturned

/-- The calls of a state in which a call has made progress. -/
lemma mem_calls_set {P : PublishCall → Prop} (hold : ∀ c ∈ calls, P c) (hnew : P call') :
    ∀ c ∈ calls.set k call', P c := by
  intro c hc
  rcases List.mem_or_eq_of_mem_set hc with hmem | rfl
  · exact hold c hmem
  · exact hnew

/-- The order of the calls of a publisher when one of them makes progress. -/
lemma sequential_set (hs : Sound s) (hk : s.calls[k]? = some call)
    (hpublisher : call'.publisher = call.publisher)
    (hreturned : call.returned = true → call'.returned = true) :
    ∀ (i i' : ℕ) (c c' : PublishCall), (s.calls.set k call')[i]? = some c →
      (s.calls.set k call')[i']? = some c' → c.publisher = c'.publisher → i < i' →
      c.returned = true := by
  -- A call of the new list comes from a call of the old one at the same place.
  have horigin : ∀ (i : ℕ) (c : PublishCall), (s.calls.set k call')[i]? = some c →
      ∃ c₀, s.calls[i]? = some c₀ ∧ c.publisher = c₀.publisher ∧
        (c₀.returned = true → c.returned = true) := by
    intro i c hi
    by_cases hki : k = i
    · subst hki
      rw [List.getElem?_set_self (List.getElem?_eq_some_iff.mp hk).1] at hi
      obtain rfl := Option.some.inj hi
      exact ⟨call, hk, hpublisher, hreturned⟩
    · rw [List.getElem?_set_ne hki] at hi
      exact ⟨c, hi, rfl, id⟩
  intro i i' c c' hi hi' hsame hlt
  obtain ⟨c₀, hc₀, hp, hr⟩ := horigin i c hi
  obtain ⟨c₀', hc₀', hp', -⟩ := horigin i' c' hi'
  exact hr (hs.sequential i i' c₀ c₀' hc₀ hc₀' (by rw [← hp, hsame, hp']) hlt)

/-- A send. -/
lemma sound_send (hs : Sound s) (hk : s.calls[k]? = some call)
    (hj : s.store.chans[j]? = some buffer) (hpending : j ∈ call.pending) :
    Sound (s.send k j call buffer) := by
  have hmem : call ∈ s.calls := List.mem_of_getElem? hk
  have hsub : call.pending ⊆ call.registered := hs.pending call hmem
  have hstreams : (s.send k j call buffer).streams = s.streams.modify j fun h =>
      { h with sends := h.sends ++ [⟨k, call.publisher, call.message, buffer.length⟩] } := rfl
  have hchans : (s.send k j call buffer).store.chans =
      s.store.chans.modify j fun b => MemoryPubSub.offered b call.message := rfl
  have hreg : ∀ channel, (s.send k j call buffer).registeredFor channel =
      s.registeredFor channel := registeredFor_of_modify hstreams fun _ _ => rfl
  have hrunning : call.returned = false := by
    by_contra hret
    have hempty := hs.exact.returned call hmem (by simpa using hret)
    rw [hempty] at hpending
    exact absurd hpending (Finset.notMem_empty j)
  -- The call is the last one of its publisher: it has not returned.
  have hlast : ∀ (i : ℕ) (c : PublishCall), s.calls[i]? = some c →
      c.publisher = call.publisher → i ≤ k := by
    intro i c hi hsame
    by_contra hlt
    have hret := hs.sequential k i call c hk hi hsame.symm (by omega)
    rw [hrunning] at hret
    cases hret
  constructor
  · rw [hstreams, hchans, List.length_modify, List.length_modify, hs.length]
  · intro channel
    rw [hreg channel]
    exact hs.subscribers channel
  · exact mem_calls_set hs.pending ((Finset.erase_subset j call.pending).trans hsub)
  · rw [hstreams, List.length_modify]
    exact mem_calls_set hs.created (hs.created call hmem)
  · exact sequential_set hs hk rfl id
  · refine ⟨?_, ?_, ?_⟩
    · intro i h' buffer' hi hbuffer
      rw [hstreams, List.getElem?_modify] at hi
      rw [hchans, List.getElem?_modify] at hbuffer
      obtain ⟨h, hh, rfl⟩ := Option.map_eq_some_iff.mp hi
      obtain ⟨b, hb, rfl⟩ := Option.map_eq_some_iff.mp hbuffer
      have hexact := hs.exact.streams i h b hh hb
      by_cases hji : j = i
      · subst hji
        obtain rfl : b = buffer := Option.some.inj (hb.symm.trans hj)
        rw [if_pos rfl, if_pos rfl]
        have hregistered := hs.exact.running call hmem hrunning ▸ hsub hpending
        obtain ⟨h₀, hh₀, hlisted⟩ := mem_registeredFor.mp hregistered
        obtain rfl := Option.some.inj (hh₀.symm.trans hh)
        exact hexact.send hk hsub hpending (listed_of_registered hlisted) hlast
      · rw [if_neg hji, if_neg hji]
        refine hexact.of_kept (callsKept_set hk rfl rfl) fun i' => sentTo_set hk rfl ?_
        rw [Finset.mem_erase]
        exact ⟨fun h => h.2, fun h => ⟨Ne.symm hji, h⟩⟩
    · refine mem_calls_set (fun c hc hret => ?_) fun hret => ?_
      · rw [hreg]
        exact hs.exact.running c hc hret
      · rw [hreg]
        exact hs.exact.running call hmem hret
    · apply mem_calls_set hs.exact.returned
      intro hret
      rw [hrunning] at hret
      cases hret

/-- A call of `Publish` returns. -/
lemma sound_finish (hs : Sound s) (hk : s.calls[k]? = some call) (hpending : call.pending = ∅) :
    Sound (s.finish k call) := by
  have hmem : call ∈ s.calls := List.mem_of_getElem? hk
  constructor
  · exact hs.length
  · exact hs.subscribers
  · exact mem_calls_set hs.pending (hs.pending call hmem)
  · exact mem_calls_set hs.created (hs.created call hmem)
  · exact sequential_set hs hk rfl fun _ => rfl
  · refine ⟨?_, ?_, ?_⟩
    · intro i h b hi hb
      refine (hs.exact.streams i h b hi hb).of_kept (callsKept_set hk rfl rfl) fun i' => ?_
      exact sentTo_set hk rfl Iff.rfl
    · apply mem_calls_set hs.exact.running
      intro hret
      cases hret
    · exact mem_calls_set hs.exact.returned fun _ => hpending

/-- A message is taken. -/
lemma sound_receive (hs : Sound s) {msg : Message} {rest : List Message}
    (hj : s.store.chans[j]? = some (msg :: rest)) : Sound (s.receive j msg) := by
  have hstreams : (s.receive j msg).streams =
      s.streams.modify j fun h => { h with taken := h.taken ++ [msg] } := rfl
  have hchans : (s.receive j msg).store.chans = s.store.chans.modify j List.tail := rfl
  have hreg : ∀ channel, (s.receive j msg).registeredFor channel = s.registeredFor channel :=
    registeredFor_of_modify hstreams fun _ _ => rfl
  constructor
  · rw [hstreams, hchans, List.length_modify, List.length_modify, hs.length]
  · intro channel
    rw [hreg channel]
    exact hs.subscribers channel
  · exact hs.pending
  · rw [hstreams, List.length_modify]
    exact hs.created
  · exact hs.sequential
  · refine ⟨?_, ?_, hs.exact.returned⟩
    · intro i h' buffer' hi hbuffer
      rw [hstreams, List.getElem?_modify] at hi
      rw [hchans, List.getElem?_modify] at hbuffer
      obtain ⟨h, hh, rfl⟩ := Option.map_eq_some_iff.mp hi
      obtain ⟨b, hb, rfl⟩ := Option.map_eq_some_iff.mp hbuffer
      have hexact := hs.exact.streams i h b hh hb
      by_cases hji : j = i
      · subst hji
        obtain rfl : b = msg :: rest := Option.some.inj (hb.symm.trans hj)
        rw [if_pos rfl, if_pos rfl]
        exact hexact.receive
      · rw [if_neg hji, if_neg hji]
        exact hexact
    · intro c hc hret
      rw [hreg]
      exact hs.exact.running c hc hret

/-- Every step keeps the invariant. -/
lemma sound_step (s : DeliveryState) (l : DeliveryLabel) (s' : DeliveryState) (hs : Sound s)
    (h : step s l = some s') : Sound s' := by
  cases moves_of_step h with
  | subscribe channels hlock => exact sound_subscribe hs hlock channels
  | unsubscribe channels hlock => exact sound_unsubscribe hs hlock channels
  | start publisher msg hidle => exact sound_start hs msg hidle
  | send hk hj hpending => exact sound_send hs hk hj hpending
  | finish hk hpending => exact sound_finish hs hk hpending
  | receive hj => exact sound_receive hs hj

/-! ### A call of `Publish` without interruption -/

/-- The sends of a call, one after the other. -/
lemma runFrom_sends (hk : s.calls[k]? = some call) {order : List ℕ} (hnodup : order.Nodup)
    (horder : ∀ j, j ∈ order ↔ j ∈ call.pending) (hlen : ∀ j ∈ order, j < s.store.chans.length) :
    ∃ t, runFrom step s (order.map fun j => .send k j) = some t ∧
      t.store = s.store.publish call.message order ∧
      t.calls[k]? = some { call with pending := ∅ } := by
  induction order generalizing s call with
  | nil =>
    have hempty : call.pending = ∅ := by
      rw [Finset.eq_empty_iff_forall_notMem]
      intro j hj
      exact List.not_mem_nil ((horder j).mpr hj)
    exact ⟨s, rfl, rfl, by rw [hk, ← hempty]⟩
  | cons first rest ih =>
    obtain ⟨hfirst, hrest⟩ := List.nodup_cons.mp hnodup
    have hpending : first ∈ call.pending := (horder first).mp List.mem_cons_self
    have hlt := hlen first List.mem_cons_self
    obtain ⟨buffer, hbuffer⟩ : ∃ buffer, s.store.chans[first]? = some buffer :=
      ⟨_, List.getElem?_eq_getElem hlt⟩
    have hstep : step s (.send k first) = some (s.send k first call buffer) := by
      simp only [step, hk, hbuffer, Option.bind_some, if_pos hpending]
    have hklt : k < s.calls.length := (List.getElem?_eq_some_iff.mp hk).1
    have hk' : (s.send k first call buffer).calls[k]? =
        some { call with pending := call.pending.erase first } := List.getElem?_set_self hklt
    obtain ⟨t, ht, hstore, hcall⟩ := ih hk' hrest (by
      intro j
      rw [Finset.mem_erase, ← horder j, List.mem_cons]
      constructor
      · exact fun hj => ⟨fun heq => hfirst (heq ▸ hj), Or.inr hj⟩
      · rintro ⟨hne, rfl | hj⟩
        · exact absurd rfl hne
        · exact hj) (by
      intro j hj
      change j < (s.store.chans.modify first _).length
      rw [List.length_modify]
      exact hlen j (List.mem_cons_of_mem first hj))
    refine ⟨t, ?_, hstore, hcall⟩
    rw [List.map_cons, runFrom_cons, hstep]
    exact ht

/-- A call of `Publish` that is not interrupted takes the store to `publish`. -/
theorem publish_run (hs : Sound s) {publisher : ℕ} (msg : Message) {order : List ℕ}
    (hidle : ∀ call ∈ s.calls, call.publisher = publisher → call.returned = true)
    (hnodup : order.Nodup) (horder : ∀ j, j ∈ order ↔ j ∈ s.store.subscribers msg.channel) :
    ∃ t, runFrom step s (.start publisher msg.channel msg.payload msg.timestamp ::
        order.map (.send s.calls.length) ++ [.finish s.calls.length]) = some t ∧
      t.store = s.store.publish msg order := by
  have hstart : step s (.start publisher msg.channel msg.payload msg.timestamp) =
      some (s.start publisher msg) := by
    refine if_pos (List.all_eq_true.mpr fun call hcall => ?_)
    by_cases hsame : call.publisher = publisher
    · simp [hidle call hcall hsame]
    · simp [hsame]
  have hk : (s.start publisher msg).calls[s.calls.length]? = some ⟨publisher, msg,
      s.store.subscribers msg.channel, false, s.registeredFor msg.channel⟩ :=
    List.getElem?_concat_length
  obtain ⟨t, ht, hstore, hcall⟩ := runFrom_sends hk hnodup horder (by
    intro j hj
    have hregistered := (horder j).mp hj
    rw [hs.subscribers, mem_registeredFor] at hregistered
    obtain ⟨h, hh, -⟩ := hregistered
    change j < s.store.chans.length
    rw [← hs.length]
    exact (List.getElem?_eq_some_iff.mp hh).1)
  refine ⟨t.finish s.calls.length ⟨publisher, msg, ∅, false, s.registeredFor msg.channel⟩, ?_,
    hstore⟩
  rw [List.cons_append, runFrom_cons, hstart]
  apply runFrom_trans ht
  rw [runFrom_singleton]
  simp only [step, hcall, Option.bind_some]
  rfl

/-! ### What a step adds to the run -/

/-- The registered streams of a state are those that its callers know. -/
lemma registeredFor_requests (s : DeliveryState) (channel : String) :
    s.requests.registeredFor channel = s.registeredFor channel := by
  unfold Requests.registeredFor registeredFor requests
  rw [List.length_map]
  refine Finset.filter_congr fun j _ => ?_
  rw [List.getElem?_map, Option.any_map]
  rfl

/-- A change of a history that keeps its requests keeps what the callers know. -/
lemma map_subscription_modify (streams : List StreamHistory) (j : ℕ)
    {f : StreamHistory → StreamHistory} (hf : ∀ h, (f h).subscription = h.subscription) :
    (streams.modify j f).map StreamHistory.subscription =
      streams.map StreamHistory.subscription := by
  refine List.ext_getElem? fun i => ?_
  rw [List.getElem?_map, List.getElem?_map, List.getElem?_modify, Option.map_eq_map,
    Option.map_map]
  refine Option.map_congr fun h _ => ?_
  change (if j = i then f h else h).subscription = h.subscription
  split_ifs
  · exact hf h
  · rfl

/-- The progress of a call keeps what the callers know. -/
lemma map_publication_set (hk : calls[k]? = some call)
    (hcall : call'.publication = call.publication) :
    (calls.set k call').map PublishCall.publication = calls.map PublishCall.publication := by
  refine List.ext_getElem? fun i => ?_
  rw [List.getElem?_map, List.getElem?_map]
  by_cases hki : k = i
  · subst hki
    rw [List.getElem?_set_self (List.getElem?_eq_some_iff.mp hk).1, hk, Option.map_some,
      Option.map_some, hcall]
  · rw [List.getElem?_set_ne hki]

/-- A step adds its request. -/
lemma requests_step {l : DeliveryLabel} (h : step s l = some s') :
    s'.requests = s.requests.note l := by
  cases moves_of_step h with
  | subscribe channels hlock => simp [requests, DeliveryState.subscribe, Requests.note,
      StreamHistory.subscription]
  | unsubscribe channels hlock =>
    simp [requests, DeliveryState.unsubscribe, Requests.note, StreamHistory.subscription,
      Function.comp_def]
  | start publisher msg hidle =>
    simp only [Requests.note, registeredFor_requests]
    simp [requests, DeliveryState.start, PublishCall.publication]
  | send hk hj hpending =>
    exact congrArg₂ Requests.mk (map_subscription_modify _ _ fun _ => rfl)
      (map_publication_set hk rfl)
  | finish hk hpending => exact congrArg (Requests.mk _) (map_publication_set hk rfl)
  | receive hj =>
    exact congrArg (Requests.mk · _) (map_subscription_modify _ _ fun _ => rfl)

/-- What the streams have after a new one was created. -/
lemma elim_append_new {α : Type} (streams : List StreamHistory) (channels : List String) (j : ℕ)
    {f : StreamHistory → List α} (hf : f ⟨channels, [], [], []⟩ = []) :
    (streams ++ [⟨channels, [], [], []⟩])[j]?.elim [] f = streams[j]?.elim [] f := by
  rw [List.getElem?_append]
  split_ifs with hlt
  · rfl
  · have hnone : streams[j]? = none := by simpa using hlt
    rw [hnone]
    rcases hnew : [(⟨channels, [], [], []⟩ : StreamHistory)][j - streams.length]? with - | h
    · rfl
    · obtain rfl := List.mem_singleton.mp (List.mem_of_getElem? hnew)
      exact hf

/-- What the streams have after a change of all of them that keeps it. -/
lemma elim_map {α : Type} (streams : List StreamHistory) (j : ℕ)
    {f : StreamHistory → StreamHistory} {g : StreamHistory → List α} (hf : ∀ h, g (f h) = g h) :
    (streams.map f)[j]?.elim [] g = streams[j]?.elim [] g := by
  rw [List.getElem?_map]
  cases streams[j]? with
  | none => rfl
  | some h => exact hf h

/-- What the streams have after a change of one of them. -/
lemma elim_modify {α : Type} (streams : List StreamHistory) (i j : ℕ)
    {f : StreamHistory → StreamHistory} {g : StreamHistory → List α} {xs : List α}
    (hlt : i < streams.length) (hf : ∀ h, g (f h) = g h ++ xs) :
    (streams.modify i f)[j]?.elim [] g =
      streams[j]?.elim [] g ++ if i = j then xs else [] := by
  rw [List.getElem?_modify]
  by_cases hij : i = j
  · subst hij
    simp [hlt, hf]
  · simp [hij]

/-- A step adds its send. -/
lemma sendsTo_step (hs : Sound s) {l : DeliveryLabel} (h : step s l = some s') (j : ℕ) :
    (s'.sendsTo j).map (fun e => (e.call, e.buffered)) =
      (s.sendsTo j).map (fun e => (e.call, e.buffered)) ++ (sendTo j s l).toList := by
  cases moves_of_step h with
  | subscribe channels hlock =>
    have hsends : (s.subscribe channels).sendsTo j = s.sendsTo j := elim_append_new _ channels j rfl
    rw [hsends]
    exact (List.append_nil _).symm
  | unsubscribe channels hlock =>
    have hsends : (s.unsubscribe channels).sendsTo j = s.sendsTo j := elim_map _ j fun _ => rfl
    rw [hsends]
    exact (List.append_nil _).symm
  | @send k i call buffer hk hi hpending =>
    have hsends : (s.send k i call buffer).sendsTo j = s.sendsTo j ++
        if i = j then [⟨k, call.publisher, call.message, buffer.length⟩] else [] :=
      elim_modify s.streams i j (hs.lt_of_chan hi) fun _ => rfl
    rw [hsends, List.map_append, sendTo]
    split_ifs with hij
    · rw [← hij, hi]
      rfl
    · rfl
  | @receive i msg rest hi =>
    have hsends : (s.receive i msg).sendsTo j = s.sendsTo j ++ if i = j then [] else [] :=
      elim_modify s.streams i j (hs.lt_of_chan hi) fun _ => (List.append_nil _).symm
    rw [hsends, ite_self, List.append_nil]
    exact (List.append_nil _).symm
  | _ => exact (List.append_nil _).symm

/-- A step adds what it takes. -/
lemma length_takenFrom_step (hs : Sound s) {l : DeliveryLabel} (h : step s l = some s') (j : ℕ) :
    (s'.takenFrom j).length = (s.takenFrom j).length + (l.takesFrom j).toNat := by
  cases moves_of_step h with
  | subscribe channels hlock =>
    exact congrArg List.length (elim_append_new _ channels j rfl)
  | unsubscribe channels hlock =>
    exact congrArg List.length (elim_map _ j fun _ => rfl)
  | @send k i call buffer hk hi hpending =>
    have htaken : (s.send k i call buffer).takenFrom j = s.takenFrom j ++
        if i = j then [] else [] :=
      elim_modify s.streams i j (hs.lt_of_chan hi) fun _ => (List.append_nil _).symm
    rw [htaken, ite_self, List.append_nil]
    rfl
  | @receive i msg rest hi =>
    have htaken : (s.receive i msg).takenFrom j = s.takenFrom j ++ if i = j then [msg] else [] :=
      elim_modify s.streams i j (hs.lt_of_chan hi) fun _ => rfl
    rw [htaken, List.length_append, DeliveryLabel.takesFrom]
    by_cases hij : i = j
    · simp [hij]
    · simp [hij]
  | _ => rfl

/-- A call after it has made progress. -/
lemma any_set (hk : calls[k]? = some call) (i : ℕ) :
    (calls.set k call')[i]?.any (·.returned) =
      if k = i then call'.returned else calls[i]?.any (·.returned) := by
  split_ifs with hki
  · subst hki
    rw [List.getElem?_set_self (List.getElem?_eq_some_iff.mp hk).1]
    rfl
  · rw [List.getElem?_set_ne hki]

/-- A step adds the call that returns. -/
lemma hasReturned_step {l : DeliveryLabel} (h : step s l = some s') (i : ℕ) :
    s'.hasReturned i = (s.hasReturned i || l.returns i) := by
  cases moves_of_step h with
  | start publisher msg hidle =>
    change (s.calls ++ [_])[i]?.any _ = (s.calls[i]?.any _ || false)
    rw [Bool.or_false, List.getElem?_append]
    split_ifs with hlt
    · rfl
    · have hnone : s.calls[i]? = none := by simpa using hlt
      rw [hnone]
      rcases hi : i - s.calls.length with - | n <;> rfl
  | @send k j call buffer hk hj hpending =>
    change (s.calls.set k _)[i]?.any _ = (s.calls[i]?.any _ || false)
    rw [any_set hk, Bool.or_false]
    split_ifs with hki
    · rw [← hki, hk]
      rfl
    · rfl
  | @finish k call hk hpending =>
    change (s.calls.set k _)[i]?.any _ = (s.calls[i]?.any _ || decide (k = i))
    rw [any_set hk]
    by_cases hki : k = i
    · simp [hki]
    · simp [hki]
  | _ => exact (Bool.or_false _).symm

/-! ### Exact delivery along every run -/

/-- Along every run the delivery is exact. -/
theorem always_exactDelivery (ls : List DeliveryLabel) :
    AlwaysAfter step ExactDelivery init ls := by
  intro pre t _ ht
  have hsound : ∀ ls u, runFrom step init ls = some u → Sound u :=
    fun ls u hu => invariant_of_runFrom sound_step sound_init hu
  refine
    { toExactState := (hsound pre t ht).exact
      length := (hsound pre t ht).length
      requested := ?_
      sent := fun j => ?_
      taken := fun j => ?_
      finished := fun k => ?_ }
  · refine history_of_runFrom (I := fun u ls => u.requests = requestsOf ls)
      (fun ls l u u' _ ih hl => ?_) rfl ht
    rw [requests_step hl, ih, requestsOf, requestsOf, List.foldl_append]
    rfl
  · refine history_of_runFrom (I := fun u ls => (u.sendsTo j).map (fun e => (e.call, e.buffered)) =
      collectSteps step (sendTo j) init ls) (fun ls l u u' hu ih hl => ?_) rfl ht
    rw [sendsTo_step (hsound ls u hu) hl, ih, collectSteps_concat (sendTo j) hu hl]
  · refine history_of_runFrom (I := fun u ls => (u.takenFrom j).length =
      ls.countP (DeliveryLabel.takesFrom j)) (fun ls l u u' hu ih hl => ?_) rfl ht
    rw [length_takenFrom_step (hsound ls u hu) hl, ih, List.countP_append, List.countP_singleton]
    cases l.takesFrom j <;> rfl
  · refine history_of_runFrom (I := fun u ls => u.hasReturned k =
      ls.any (DeliveryLabel.returns k)) (fun ls l u u' _ ih hl => ?_) rfl ht
    rw [hasReturned_step hl, ih, List.any_append, List.any_cons, List.any_nil, Bool.or_false]

end DeliveryState

end Go

end GoyStore
