import Mathlib.Data.Finset.Insert
import Mathlib.Logic.Function.Basic

/-!
# The in-memory pub/sub store

`memoryPubSub` of the Go library keeps, for each channel, the set of the Go channels that were
subscribed to it.  `Publish` sends to the Go channels of the set one by one, in the order in which
the map yields them; a full one is skipped.  What it does to the buffers does not depend on that
order (`publish_eq_deliver`).
-/

namespace GoyStore

namespace Go

/-! ### The store -/

/-- `Message`. -/
structure Message where
  /-- The field `Channel`. -/
  channel : String
  /-- The field `Payload`. -/
  payload : List UInt8
  /-- The field `Timestamp`. -/
  timestamp : ℤ
  deriving DecidableEq, Repr

/-- `memoryPubSub`, with the Go channels that it made. -/
structure MemoryPubSub where
  /-- The field `subscribers`: the numbers of the Go channels of a channel. -/
  subscribers : String → Finset ℕ
  /-- The buffers of the Go channels. -/
  chans : List (List Message)

namespace MemoryPubSub

/-- A new store. -/
def init : MemoryPubSub := ⟨fun _ => ∅, []⟩

/-- The capacity of a Go channel that `Subscribe` makes. -/
def capacity : ℕ := 100

/-- `Subscribe`; the Go channel that it returns is the last one. -/
def subscribe (m : MemoryPubSub) (channels : List String) : MemoryPubSub where
  subscribers := channels.foldl
    (fun subs channel => Function.update subs channel (insert m.chans.length (subs channel)))
    m.subscribers
  chans := m.chans ++ [[]]

/-- `Unsubscribe`. -/
def unsubscribe (m : MemoryPubSub) (channels : List String) : MemoryPubSub :=
  { m with
    subscribers := channels.foldl (fun subs channel => Function.update subs channel ∅)
      m.subscribers }

/-- The buffer of a Go channel after the `select` of `Publish`: a full one is skipped. -/
def offered (buffer : List Message) (msg : Message) : List Message :=
  if buffer.length < capacity then buffer ++ [msg] else buffer

/-- One round of the loop of `Publish`. -/
def offer (m : MemoryPubSub) (msg : Message) (j : ℕ) : MemoryPubSub :=
  { m with chans := m.chans.modify j fun buffer => offered buffer msg }

/-- `Publish`; `order` is the order in which the map yields the Go channels of the channel. -/
def publish (m : MemoryPubSub) (msg : Message) (order : List ℕ) : MemoryPubSub :=
  order.foldl (fun m j => m.offer msg j) m

/-- What `Publish` does to the buffers, in whatever order the map yields the Go channels. -/
def deliver (m : MemoryPubSub) (msg : Message) : MemoryPubSub :=
  { m with
    chans := m.chans.mapIdx fun j buffer =>
      if j ∈ m.subscribers msg.channel then offered buffer msg else buffer }

/-- The owner of a Go channel has taken the first message out of it. -/
def receive (m : MemoryPubSub) (j : ℕ) : MemoryPubSub :=
  { m with chans := m.chans.modify j List.tail }

/-- The streams that are registered for a channel after `Subscribe`. -/
lemma mem_subscribers_subscribe (m : MemoryPubSub) (channels : List String) (channel : String)
    (j : ℕ) : j ∈ (m.subscribe channels).subscribers channel ↔
      j ∈ m.subscribers channel ∨ j = m.chans.length ∧ channel ∈ channels := by
  unfold subscribe
  simp only
  generalize m.subscribers = subs
  induction channels generalizing subs with
  | nil => simp
  | cons first rest ih =>
    rw [List.foldl_cons, ih]
    by_cases hfirst : channel = first
    · subst hfirst
      rw [Function.update_self, Finset.mem_insert, List.mem_cons]
      tauto
    · rw [Function.update_of_ne hfirst, List.mem_cons]
      tauto

/-- The streams that are registered for a channel after `Unsubscribe`. -/
lemma subscribers_unsubscribe (m : MemoryPubSub) (channels : List String) (channel : String) :
    (m.unsubscribe channels).subscribers channel =
      if channel ∈ channels then ∅ else m.subscribers channel := by
  unfold unsubscribe
  simp only
  generalize m.subscribers = subs
  induction channels generalizing subs with
  | nil => simp
  | cons first rest ih =>
    rw [List.foldl_cons, ih]
    by_cases hrest : channel ∈ rest
    · rw [if_pos hrest, if_pos (List.mem_cons_of_mem _ hrest)]
    · by_cases hfirst : channel = first
      · subst hfirst
        rw [if_neg hrest, Function.update_self, if_pos List.mem_cons_self]
      · rw [if_neg hrest, Function.update_of_ne hfirst, if_neg (by simp [hfirst, hrest])]

/-- The registrations during `Publish`. -/
lemma publish_subscribers (m : MemoryPubSub) (msg : Message) (order : List ℕ) :
    (m.publish msg order).subscribers = m.subscribers := by
  induction order generalizing m with
  | nil => rfl
  | cons first rest ih => exact ih (m.offer msg first)

/-- The buffers after `Publish`. -/
lemma publish_chans (m : MemoryPubSub) (msg : Message) {order : List ℕ} (hnodup : order.Nodup)
    (i : ℕ) : (m.publish msg order).chans[i]? =
      (m.chans[i]?).map fun buffer => if i ∈ order then offered buffer msg else buffer := by
  induction order generalizing m with
  | nil => simp [publish]
  | cons first rest ih =>
    obtain ⟨hfirst, hrest⟩ := List.nodup_cons.mp hnodup
    have hstep : m.publish msg (first :: rest) = (m.offer msg first).publish msg rest := rfl
    rw [hstep, ih (m.offer msg first) hrest]
    unfold offer
    rw [List.getElem?_modify]
    by_cases hi : first = i
    · subst hi
      simp [hfirst, Function.comp_def]
    · have hne : i ≠ first := Ne.symm hi
      simp [hi, hne]

/-- `Publish` does the same to the buffers in every order in which the map can yield the Go
channels. -/
theorem publish_eq_deliver (m : MemoryPubSub) (msg : Message) {order : List ℕ}
    (hnodup : order.Nodup) (horder : ∀ j, j ∈ order ↔ j ∈ m.subscribers msg.channel) :
    m.publish msg order = m.deliver msg := by
  have hchans : (m.publish msg order).chans = (m.deliver msg).chans := by
    ext1 i
    unfold deliver
    rw [publish_chans m msg hnodup i, List.getElem?_mapIdx]
    simp only [horder i]
  have hsubs := publish_subscribers m msg order
  calc m.publish msg order
      = ⟨(m.publish msg order).subscribers, (m.publish msg order).chans⟩ := rfl
    _ = ⟨m.subscribers, (m.deliver msg).chans⟩ := by rw [hsubs, hchans]
    _ = m.deliver msg := rfl

end MemoryPubSub

end Go

end GoyStore
