import GoyStore.Library.Runs
import GoyStore.PubSub.MemoryPubSub

/-!
# Subscriptions of the Go Redis pub/sub store

`RedisPubSubStore` of the Go library opens one `redis.PubSub` for each call of `Subscribe` and
registers it in `subs` under every channel of the call; a goroutine forwards its messages to the
stream.  `Unsubscribe` ends the named channel on the registered objects, and closes them.

Closing ends the other channels of the same call, too
(`unsubscribe_ends_other_channel`).  Every channel that was never unsubscribed is forwarded in
exactly the runs in which each `Unsubscribe` that names a channel of a stream names all of them
that are left (`stillForwarded_iff_endsWhole`).
-/

namespace GoyStore

namespace Go

open Runs

/-! ### The store and its goroutines -/

/-- A `redis.PubSub` that `Subscribe` opened, with its goroutine and its stream. -/
structure RedisSubscription where
  /-- The channels of the call of `Subscribe`. -/
  requested : List String
  /-- The channels that the server sends to the object. -/
  active : List String
  /-- `Close` was called on the object. -/
  closed : Bool
  /-- The call has registered the object, started the goroutine and returned the stream. -/
  registered : Bool
  /-- The context of the call is done. -/
  ctxDone : Bool
  /-- The goroutine is in its loop. -/
  forwarding : Bool
  /-- The local `ch` of the goroutine: the messages that came from the server. -/
  incoming : List (String × List UInt8)
  /-- The stream `out`. -/
  out : List Message
  /-- For the statements: the channels that were unsubscribed since the stream was returned. -/
  unsubscribed : List String
  deriving DecidableEq, Repr

/-- A `RedisPubSubStore` with what its calls of `Subscribe` opened. -/
structure RedisSubscriptions where
  /-- The field `subs`, by the numbers of the objects. -/
  subs : String → List ℕ
  /-- The opened objects. -/
  opened : List RedisSubscription

/-- A step of a caller of the store, of the server or of a goroutine. -/
inductive SubscriptionLabel where
  /-- `Subscribe` opens an object and waits for the confirmation, which may not come. -/
  | open (channels : List String) (confirmed : Bool)
  /-- The rest of a call of `Subscribe`, under the lock. -/
  | register (i : ℕ)
  /-- A call of `Unsubscribe`, under the lock. -/
  | unsubscribe (channels : List String)
  /-- A message is published. -/
  | publish (channel : String) (payload : List UInt8)
  /-- The context of a call of `Subscribe` is cancelled. -/
  | cancel (i : ℕ)
  /-- A goroutine forwards a message. -/
  | forward (i : ℕ) (timestamp : ℤ)
  /-- A goroutine sees that its context is done. -/
  | stopCancelled (i : ℕ)
  /-- A goroutine sees that the messages from the server have ended. -/
  | stopClosed (i : ℕ)
  /-- The consumer of a stream takes a message. -/
  | receive (i : ℕ)

namespace RedisSubscription

/-- A new object, whose subscription the server has confirmed or not; in the second case `Subscribe`
closes it and returns an error. -/
def new (channels : List String) (confirmed : Bool) : RedisSubscription :=
  ⟨channels, channels, !confirmed, false, false, false, [], [], []⟩

/-- What the loop of `Unsubscribe` does to a registered object: `sub.Unsubscribe(ctx, ch)`, then
`sub.Close()`. -/
def endChannel (r : RedisSubscription) (channel : String) : RedisSubscription :=
  { r with active := r.active.filter (· ≠ channel), closed := true }

/-- A message of the server, which the driver is taken to hand on at once. -/
def deliver (r : RedisSubscription) (channel : String) (payload : List UInt8) :
    RedisSubscription :=
  if r.closed = false ∧ channel ∈ r.active then
    { r with incoming := r.incoming ++ [(channel, payload)] }
  else r

/-- The note of an `Unsubscribe`, for the statements. -/
def note (r : RedisSubscription) (channels : List String) : RedisSubscription :=
  if r.registered then { r with unsubscribed := r.unsubscribed ++ channels } else r

end RedisSubscription

namespace RedisSubscriptions

/-- A new store. -/
def init : RedisSubscriptions := ⟨fun _ => [], []⟩

/-- The capacity of a stream. -/
def capacity : ℕ := 1000

/-- The first part of `Subscribe`. -/
def openObject (s : RedisSubscriptions) (channels : List String) (confirmed : Bool) :
    RedisSubscriptions :=
  if channels.isEmpty then s
  else { s with opened := s.opened ++ [.new channels confirmed] }

/-- Put a changed object in its place. -/
def put (s : RedisSubscriptions) (i : ℕ) (r : RedisSubscription) : RedisSubscriptions :=
  { s with opened := s.opened.set i r }

/-- The second part of `Subscribe`: the object is registered under each channel of the call. -/
def register (s : RedisSubscriptions) (i : ℕ) (r : RedisSubscription) : RedisSubscriptions where
  subs := r.requested.foldl (fun subs ch => Function.update subs ch (subs ch ++ [i])) s.subs
  opened := s.opened.set i { r with registered := true, forwarding := true }

/-- The round of the loop of `Unsubscribe` for one channel. -/
def unsubscribeChannel (s : RedisSubscriptions) (ch : String) : RedisSubscriptions where
  subs := Function.update s.subs ch []
  opened := (s.subs ch).foldl (fun opened i => opened.modify i fun r => r.endChannel ch) s.opened

/-- The notes of an `Unsubscribe`, for the statements. -/
def note (s : RedisSubscriptions) (channels : List String) : RedisSubscriptions :=
  { s with opened := s.opened.map fun r => r.note channels }

/-- `Unsubscribe`. -/
def unsubscribe (s : RedisSubscriptions) (channels : List String) : RedisSubscriptions :=
  channels.foldl unsubscribeChannel (s.note channels)

/-- The server sends a message to the objects that are subscribed to its channel. -/
def publish (s : RedisSubscriptions) (channel : String) (payload : List UInt8) :
    RedisSubscriptions :=
  { s with opened := s.opened.map fun r => r.deliver channel payload }

/-- The step function. -/
def step (s : RedisSubscriptions) : SubscriptionLabel → Option RedisSubscriptions
  | .open channels confirmed => some (s.openObject channels confirmed)
  | .register i =>
    s.opened[i]?.bind fun r =>
      if r.registered = false ∧ r.closed = false then some (s.register i r) else none
  | .unsubscribe channels => some (s.unsubscribe channels)
  | .publish channel payload => some (s.publish channel payload)
  | .cancel i => s.opened[i]?.map fun r => s.put i { r with ctxDone := true }
  | .forward i timestamp =>
    s.opened[i]?.bind fun r => r.incoming.head?.bind fun msg =>
      if r.forwarding = true ∧ r.out.length < capacity then
        some (s.put i
          { r with incoming := r.incoming.tail, out := r.out ++ [⟨msg.1, msg.2, timestamp⟩] })
      else none
  | .stopCancelled i =>
    s.opened[i]?.bind fun r =>
      if r.forwarding = true ∧ r.ctxDone = true then
        some (s.put i { r with closed := true, forwarding := false })
      else none
  | .stopClosed i =>
    s.opened[i]?.bind fun r =>
      if r.forwarding = true ∧ r.closed = true ∧ r.incoming = [] then
        some (s.put i { r with forwarding := false })
      else none
  | .receive i => s.opened[i]?.map fun r => s.put i { r with out := r.out.tail }

/-- A message that is published now on a channel that was never unsubscribed reaches the goroutine
of every stream that was subscribed to it and whose context is not done. -/
def StillForwarded (s : RedisSubscriptions) : Prop :=
  ∀ (i : ℕ) (r : RedisSubscription), s.opened[i]? = some r → r.registered = true →
    r.ctxDone = false → ∀ channel ∈ r.requested, channel ∉ r.unsubscribed → ∀ payload,
      ∃ r' : RedisSubscription, (s.publish channel payload).opened[i]? = some r' ∧
        r'.forwarding = true ∧ r'.incoming = r.incoming ++ [(channel, payload)]

/-- The step is no `Unsubscribe` that names a channel of a stream, whose context is not done, and
leaves another one of it. -/
def EndsWhole (s : RedisSubscriptions) : SubscriptionLabel → Prop
  | .unsubscribe channels =>
    ∀ (i : ℕ) (r : RedisSubscription), s.opened[i]? = some r → r.registered = true →
      r.ctxDone = false → (∃ ch ∈ channels, i ∈ s.subs ch) →
        ∀ channel ∈ r.requested, channel ∈ r.unsubscribed ∨ channel ∈ channels
  | _ => True

variable {s s' : RedisSubscriptions} {i j : ℕ} {r r' : RedisSubscription} {channels : List String}

/-! ### Objects in their places -/

/-- The object that was put in a place. -/
lemma opened_put_self (hi : s.opened[i]? = some r) : (s.put i r').opened[i]? = some r' :=
  List.getElem?_set_self (List.getElem?_eq_some_iff.mp hi).1

/-- The other objects stay. -/
lemma opened_put_of_ne (hij : i ≠ j) : (s.put i r').opened[j]? = s.opened[j]? :=
  List.getElem?_set_ne hij

/-- The object that was registered. -/
lemma opened_register_self (hi : s.opened[i]? = some r) : (s.register i r).opened[i]? =
    some { r with registered := true, forwarding := true } :=
  List.getElem?_set_self (List.getElem?_eq_some_iff.mp hi).1

/-- A registration leaves the other objects. -/
lemma opened_register_of_ne (hij : i ≠ j) : (s.register i r).opened[j]? = s.opened[j]? :=
  List.getElem?_set_ne hij

/-! ### What `Unsubscribe` does -/

/-- Ending a channel twice is ending it once. -/
lemma endChannel_endChannel (r : RedisSubscription) (ch : String) :
    (r.endChannel ch).endChannel ch = r.endChannel ch := by
  unfold RedisSubscription.endChannel
  simp

/-- An idempotent change of the entries at some indices of a list. -/
lemma getElem?_foldl_modify {α : Type} {f : α → α} (hf : ∀ a, f (f a) = f a) (is : List ℕ)
    (xs : List α) (i : ℕ) :
    (is.foldl (fun xs i => xs.modify i f) xs)[i]? =
      if i ∈ is then (xs[i]?).map f else xs[i]? := by
  induction is generalizing xs with
  | nil => simp
  | cons first rest ih =>
    rw [List.foldl_cons, ih, List.getElem?_modify]
    by_cases hfirst : first = i
    · subst hfirst
      by_cases hrest : first ∈ rest
      · have hcomp : f ∘ f = f := funext hf
        simp [hrest, hcomp]
      · simp [hrest]
    · have hne : i ≠ first := Ne.symm hfirst
      by_cases hrest : i ∈ rest
      · simp [hrest, hfirst]
      · simp [hrest, hfirst, hne]

/-- An object after the round of the loop for one channel. -/
lemma opened_unsubscribeChannel (s : RedisSubscriptions) (ch : String) (i : ℕ) :
    (s.unsubscribeChannel ch).opened[i]? =
      if i ∈ s.subs ch then (s.opened[i]?).map fun r => r.endChannel ch else s.opened[i]? :=
  getElem?_foldl_modify (fun r => endChannel_endChannel r ch) (s.subs ch) s.opened i

/-- What is registered for a channel after the loop. -/
lemma subs_foldl_unsubscribeChannel (s : RedisSubscriptions) (channels : List String)
    (ch : String) : (channels.foldl unsubscribeChannel s).subs ch =
      if ch ∈ channels then [] else s.subs ch := by
  induction channels generalizing s with
  | nil => rfl
  | cons first rest ih =>
    rw [List.foldl_cons, ih]
    change (if ch ∈ rest then [] else Function.update s.subs first [] ch) = _
    by_cases hfirst : ch = first
    · subst hfirst
      simp
    · simp [hfirst]

/-- An object that is not registered for a channel of the loop. -/
lemma opened_of_not_named (hnot : ∀ ch ∈ channels, i ∉ s.subs ch) :
    (channels.foldl unsubscribeChannel s).opened[i]? = s.opened[i]? := by
  induction channels generalizing s with
  | nil => rfl
  | cons first rest ih =>
    have hfirst : i ∉ s.subs first := hnot first List.mem_cons_self
    rw [List.foldl_cons, ih, opened_unsubscribeChannel, if_neg hfirst]
    intro ch hch
    change i ∉ Function.update s.subs first [] ch
    by_cases heq : ch = first
    · subst heq
      rw [Function.update_self]
      exact List.not_mem_nil
    · rw [Function.update_of_ne heq]
      exact hnot ch (List.mem_cons_of_mem first hch)

/-- The loop changes the active channels and whether the object is closed, and opens none. -/
lemma opened_foldl_unsubscribeChannel (hi : s.opened[i]? = some r) :
    ∃ active closed, (channels.foldl unsubscribeChannel s).opened[i]? =
      some { r with active := active, closed := closed } ∧ (r.closed = true → closed = true) := by
  induction channels generalizing s r with
  | nil => exact ⟨r.active, r.closed, hi, id⟩
  | cons first rest ih =>
    have hfirst := opened_unsubscribeChannel s first i
    rw [hi] at hfirst
    rw [List.foldl_cons]
    by_cases hmem : i ∈ s.subs first
    · rw [if_pos hmem] at hfirst
      obtain ⟨active, closed, hopened, hclosed⟩ := ih hfirst
      exact ⟨active, closed, hopened, fun _ => hclosed rfl⟩
    · rw [if_neg hmem] at hfirst
      exact ih hfirst

/-- The loop opens no object. -/
lemma length_foldl_unsubscribeChannel (s : RedisSubscriptions) (channels : List String) :
    (channels.foldl unsubscribeChannel s).opened.length = s.opened.length := by
  have hinner : ∀ (is : List ℕ) (ch : String) (opened : List RedisSubscription),
      (is.foldl (fun opened i => opened.modify i fun r => r.endChannel ch) opened).length =
        opened.length := by
    intro is ch opened
    induction is generalizing opened with
    | nil => rfl
    | cons first rest ih => rw [List.foldl_cons, ih, List.length_modify]
  induction channels generalizing s with
  | nil => rfl
  | cons first rest ih =>
    rw [List.foldl_cons, ih]
    exact hinner (s.subs first) first s.opened

/-- The loop closes an object that is registered for one of its channels. -/
lemma closed_of_named {ch : String} (hch : ch ∈ channels) (hmem : i ∈ s.subs ch)
    (hi : s.opened[i]? = some r) :
    ∃ active, (channels.foldl unsubscribeChannel s).opened[i]? =
      some { r with active := active, closed := true } := by
  induction channels generalizing s r with
  | nil => exact absurd hch List.not_mem_nil
  | cons first rest ih =>
    have hfirst := opened_unsubscribeChannel s first i
    rw [hi] at hfirst
    rw [List.foldl_cons]
    by_cases hnow : i ∈ s.subs first
    · rw [if_pos hnow] at hfirst
      obtain ⟨active, closed, hopened, hclosed⟩ := opened_foldl_unsubscribeChannel hfirst
      obtain rfl : closed = true := hclosed rfl
      exact ⟨active, hopened⟩
    · rw [if_neg hnow] at hfirst
      have hne : ch ≠ first := fun heq => hnow (heq ▸ hmem)
      refine ih (List.mem_of_ne_of_mem hne hch) ?_ hfirst
      change i ∈ Function.update s.subs first [] ch
      rw [Function.update_of_ne hne]
      exact hmem

/-! ### What a step does -/

/-- A change of an object by its context, its goroutine or its consumer: it is closed only when its
context is done, and its goroutine ends only when its context is done or the object is closed. -/
structure Progress (r r' : RedisSubscription) : Prop where
  /-- The call of `Subscribe` stays. -/
  requested : r'.requested = r.requested
  /-- The subscriptions at the server stay. -/
  active : r'.active = r.active
  /-- The registration stays. -/
  registered : r'.registered = r.registered
  /-- The note of the unsubscribed channels stays. -/
  noted : r'.unsubscribed = r.unsubscribed
  /-- A context that is done stays done. -/
  done : r.ctxDone = true → r'.ctxDone = true
  /-- The object is closed for its context only. -/
  closed : r'.closed = true → r.closed = true ∨ r'.ctxDone = true
  /-- The goroutine goes on while the object is open and its context is not done. -/
  forwarding : r.forwarding = true → r'.forwarding = true ∨ r'.ctxDone = true ∨ r.closed = true
  /-- No goroutine starts. -/
  stopped : r.forwarding = false → r'.forwarding = false

/-- The step of each label. -/
inductive Moves (s : RedisSubscriptions) : SubscriptionLabel → RedisSubscriptions → Prop where
  /-- An object is opened. -/
  | open (channels : List String) (confirmed : Bool) :
      Moves s (.open channels confirmed) (s.openObject channels confirmed)
  /-- An object is registered. -/
  | register {i : ℕ} {r : RedisSubscription} (hi : s.opened[i]? = some r)
      (hnew : r.registered = false) (hopen : r.closed = false) :
      Moves s (.register i) (s.register i r)
  /-- A call of `Unsubscribe`. -/
  | unsubscribe (channels : List String) :
      Moves s (.unsubscribe channels) (s.unsubscribe channels)
  /-- A message is published. -/
  | publish (channel : String) (payload : List UInt8) :
      Moves s (.publish channel payload) (s.publish channel payload)
  /-- Another step changes one object. -/
  | progress {l : SubscriptionLabel} {i : ℕ} {r r' : RedisSubscription}
      (hi : s.opened[i]? = some r) (hr : Progress r r') : Moves s l (s.put i r')

/-- Every step is one of these. -/
lemma moves_of_step {l : SubscriptionLabel} (h : step s l = some s') : Moves s l s' := by
  cases l with
  | «open» channels confirmed =>
    obtain rfl := Option.some.inj h
    exact .open channels confirmed
  | register i =>
    obtain ⟨r, hi, h⟩ := Option.bind_eq_some_iff.mp h
    obtain ⟨⟨hnew, hopen⟩, heq⟩ := Option.ite_none_right_eq_some.mp h
    obtain rfl := Option.some.inj heq
    exact .register hi hnew hopen
  | unsubscribe channels =>
    obtain rfl := Option.some.inj h
    exact .unsubscribe channels
  | publish channel payload =>
    obtain rfl := Option.some.inj h
    exact .publish channel payload
  | cancel i =>
    obtain ⟨r, hi, rfl⟩ := Option.map_eq_some_iff.mp h
    exact .progress hi ⟨rfl, rfl, rfl, rfl, fun _ => rfl, Or.inl, Or.inl, id⟩
  | forward i timestamp =>
    obtain ⟨r, hi, h⟩ := Option.bind_eq_some_iff.mp h
    obtain ⟨msg, -, h⟩ := Option.bind_eq_some_iff.mp h
    obtain ⟨-, heq⟩ := Option.ite_none_right_eq_some.mp h
    obtain rfl := Option.some.inj heq
    exact .progress hi ⟨rfl, rfl, rfl, rfl, id, Or.inl, Or.inl, id⟩
  | stopCancelled i =>
    obtain ⟨r, hi, h⟩ := Option.bind_eq_some_iff.mp h
    obtain ⟨⟨-, hdone⟩, heq⟩ := Option.ite_none_right_eq_some.mp h
    obtain rfl := Option.some.inj heq
    exact .progress hi ⟨rfl, rfl, rfl, rfl, id, fun _ => Or.inr hdone,
      fun _ => Or.inr (Or.inl hdone), fun _ => rfl⟩
  | stopClosed i =>
    obtain ⟨r, hi, h⟩ := Option.bind_eq_some_iff.mp h
    obtain ⟨⟨-, hclosed, -⟩, heq⟩ := Option.ite_none_right_eq_some.mp h
    obtain rfl := Option.some.inj heq
    exact .progress hi ⟨rfl, rfl, rfl, rfl, id, Or.inl, fun _ => Or.inr (Or.inr hclosed),
      fun _ => rfl⟩
  | receive i =>
    obtain ⟨r, hi, rfl⟩ := Option.map_eq_some_iff.mp h
    exact .progress hi ⟨rfl, rfl, rfl, rfl, id, Or.inl, Or.inl, id⟩

/-! ### Published messages -/

/-- A message that is delivered only waits for its goroutine. -/
lemma deliver_eq (r : RedisSubscription) (channel : String) (payload : List UInt8) :
    ∃ incoming, r.deliver channel payload = { r with incoming := incoming } := by
  unfold RedisSubscription.deliver
  split_ifs
  · exact ⟨_, rfl⟩
  · exact ⟨r.incoming, rfl⟩

/-- An object after a message was published. -/
lemma opened_publish (s : RedisSubscriptions) (channel : String) (payload : List UInt8) (i : ℕ) :
    (s.publish channel payload).opened[i]? =
      (s.opened[i]?).map fun r : RedisSubscription => r.deliver channel payload :=
  List.getElem?_map ..

/-! ### The invariant -/

/-- The object serves the channel: the server sends it the messages of the channel and the goroutine
forwards them. -/
def Serves (r : RedisSubscription) (channel : String) : Prop :=
  r.closed = false ∧ channel ∈ r.active ∧ r.forwarding = true

/-- What every state of a run has whose calls of `Unsubscribe` end whole subscriptions. -/
structure Sound (s : RedisSubscriptions) : Prop where
  /-- The map holds registered objects only. -/
  known : ∀ ch, ∀ i ∈ s.subs ch, ∃ r, s.opened[i]? = some r ∧ r.registered = true
  /-- Nothing has happened to an object that is yet to be registered. -/
  fresh : ∀ (i : ℕ) (r : RedisSubscription), s.opened[i]? = some r → r.registered = false →
    r.active = r.requested ∧ r.forwarding = false
  /-- A registered object whose context is not done serves what was never unsubscribed. -/
  serves : ∀ (i : ℕ) (r : RedisSubscription), s.opened[i]? = some r → r.registered = true →
    r.ctxDone = false → ∀ channel ∈ r.requested, channel ∉ r.unsubscribed → Serves r channel

/-- A server sends a message to an object that serves the channel. -/
lemma stillForwarded_of_sound (hs : Sound s) : s.StillForwarded := by
  intro i r hi hregistered hdone channel hchannel hnever payload
  obtain ⟨hclosed, hactive, hforwarding⟩ :=
    hs.serves i r hi hregistered hdone channel hchannel hnever
  refine ⟨r.deliver channel payload, ?_, ?_, ?_⟩
  · rw [opened_publish, hi]
    rfl
  · unfold RedisSubscription.deliver
    rw [if_pos ⟨hclosed, hactive⟩]
    exact hforwarding
  · unfold RedisSubscription.deliver
    rw [if_pos ⟨hclosed, hactive⟩]

/-- Nothing has been opened yet. -/
lemma sound_init : Sound init where
  known _ i hi := absurd hi List.not_mem_nil
  fresh i r hi := by cases hi
  serves i r hi := by cases hi

/-- An object is opened. -/
lemma sound_open (hs : Sound s) (channels : List String) (confirmed : Bool) :
    Sound (s.openObject channels confirmed) := by
  unfold openObject
  split_ifs with hempty
  · exact hs
  have hopened : ∀ {i : ℕ} {r : RedisSubscription},
      (s.opened ++ [RedisSubscription.new channels confirmed])[i]? = some r →
        s.opened[i]? = some r ∨ r = .new channels confirmed := by
    intro i r hi
    rw [List.getElem?_append] at hi
    split_ifs at hi
    · exact Or.inl hi
    · exact Or.inr (List.mem_singleton.mp (List.mem_of_getElem? hi))
  constructor
  · intro ch i hi
    obtain ⟨r, hr, hregistered⟩ := hs.known ch i hi
    have hlt : i < s.opened.length := (List.getElem?_eq_some_iff.mp hr).1
    exact ⟨r, (List.getElem?_append_left hlt).trans hr, hregistered⟩
  · intro i r hi hnew
    rcases hopened hi with hold | rfl
    · exact hs.fresh i r hold hnew
    · exact ⟨rfl, rfl⟩
  · intro i r hi hregistered
    rcases hopened hi with hold | rfl
    · exact hs.serves i r hold hregistered
    · cases hregistered

/-- What is registered after the second part of `Subscribe`. -/
lemma mem_subs_register {ch : String} {j : ℕ} :
    j ∈ (s.register i r).subs ch ↔ j ∈ s.subs ch ∨ j = i ∧ ch ∈ r.requested := by
  unfold register
  simp only
  generalize s.subs = subs
  generalize r.requested = requested
  induction requested generalizing subs with
  | nil => simp
  | cons first rest ih =>
    rw [List.foldl_cons, ih]
    by_cases hfirst : ch = first
    · subst hfirst
      rw [Function.update_self, List.mem_append, List.mem_singleton, List.mem_cons]
      tauto
    · rw [Function.update_of_ne hfirst, List.mem_cons]
      tauto

/-- An object is registered. -/
lemma sound_register (hs : Sound s) (hi : s.opened[i]? = some r) (hnew : r.registered = false)
    (hopen : r.closed = false) : Sound (s.register i r) := by
  have hself := opened_register_self hi
  constructor
  · intro ch j hj
    rcases mem_subs_register.mp hj with hold | ⟨rfl, -⟩
    · obtain ⟨r₀, hr₀, hregistered⟩ := hs.known ch j hold
      by_cases hij : i = j
      · subst hij
        exact ⟨_, hself, rfl⟩
      · exact ⟨r₀, (opened_register_of_ne hij).trans hr₀, hregistered⟩
    · exact ⟨_, hself, rfl⟩
  · intro j r₀ hj hfresh
    by_cases hij : i = j
    · subst hij
      obtain rfl := Option.some.inj (hself.symm.trans hj)
      cases hfresh
    · exact hs.fresh j r₀ ((opened_register_of_ne hij).symm.trans hj) hfresh
  · intro j r₀ hj hregistered hdone channel hchannel hnever
    by_cases hij : i = j
    · subst hij
      obtain rfl := Option.some.inj (hself.symm.trans hj)
      obtain ⟨hactive, -⟩ := hs.fresh i r hi hnew
      exact ⟨hopen, hactive ▸ hchannel, rfl⟩
    · have hj' : s.opened[j]? = some r₀ := (opened_register_of_ne hij).symm.trans hj
      exact hs.serves j r₀ hj' hregistered hdone channel hchannel hnever

/-- A message is published. -/
lemma sound_publish (hs : Sound s) (channel : String) (payload : List UInt8) :
    Sound (s.publish channel payload) := by
  have hopened : ∀ {i : ℕ} {r' : RedisSubscription},
      (s.publish channel payload).opened[i]? = some r' →
        ∃ r incoming, s.opened[i]? = some r ∧ r' = { r with incoming := incoming } := by
    intro i r' hi
    rw [opened_publish] at hi
    obtain ⟨r, hr, rfl⟩ := Option.map_eq_some_iff.mp hi
    obtain ⟨incoming, heq⟩ := deliver_eq r channel payload
    exact ⟨r, incoming, hr, heq⟩
  constructor
  · intro ch i hi
    obtain ⟨r, hr, hregistered⟩ := hs.known ch i hi
    obtain ⟨incoming, heq⟩ := deliver_eq r channel payload
    refine ⟨r.deliver channel payload, ?_, ?_⟩
    · rw [opened_publish, hr]
      rfl
    · rw [heq]
      exact hregistered
  · intro i r' hi hnew
    obtain ⟨r, incoming, hr, rfl⟩ := hopened hi
    exact hs.fresh i r hr hnew
  · intro i r' hi hregistered hdone
    obtain ⟨r, incoming, hr, rfl⟩ := hopened hi
    exact hs.serves i r hr hregistered hdone

/-- One object makes progress. -/
lemma sound_put (hs : Sound s) (hi : s.opened[i]? = some r) (hr : Progress r r') :
    Sound (s.put i r') := by
  have hself : (s.put i r').opened[i]? = some r' := opened_put_self hi
  constructor
  · intro ch j hj
    obtain ⟨r₀, hr₀, hregistered⟩ := hs.known ch j hj
    by_cases hij : i = j
    · subst hij
      obtain rfl := Option.some.inj (hi.symm.trans hr₀)
      exact ⟨r', hself, hr.registered.trans hregistered⟩
    · exact ⟨r₀, (opened_put_of_ne hij).trans hr₀, hregistered⟩
  · intro j r₀ hj hnew
    by_cases hij : i = j
    · subst hij
      obtain rfl := Option.some.inj (hself.symm.trans hj)
      obtain ⟨hactive, hstopped⟩ := hs.fresh i r hi (hr.registered ▸ hnew)
      exact ⟨by rw [hr.active, hr.requested, hactive], hr.stopped hstopped⟩
    · exact hs.fresh j r₀ ((opened_put_of_ne hij).symm.trans hj) hnew
  · intro j r₀ hj hregistered hdone channel hchannel hnever
    by_cases hij : i = j
    · subst hij
      obtain rfl := Option.some.inj (hself.symm.trans hj)
      have hnotDone : r.ctxDone = false := by
        by_contra h
        rw [hr.done (by simpa using h)] at hdone
        cases hdone
      obtain ⟨hclosed, hactive, hforwarding⟩ := hs.serves i r hi (hr.registered ▸ hregistered)
        hnotDone channel (hr.requested ▸ hchannel) (hr.noted ▸ hnever)
      refine ⟨?_, hr.active ▸ hactive, ?_⟩
      · by_contra h
        rcases hr.closed (by simpa using h) with hold | hctx
        · rw [hclosed] at hold
          cases hold
        · rw [hdone] at hctx
          cases hctx
      · rcases hr.forwarding hforwarding with hgo | hctx | hold
        · exact hgo
        · rw [hdone] at hctx
          cases hctx
        · rw [hclosed] at hold
          cases hold
    · have hj' : s.opened[j]? = some r₀ := (opened_put_of_ne hij).symm.trans hj
      exact hs.serves j r₀ hj' hregistered hdone channel hchannel hnever

/-- What the note of an `Unsubscribe` changes. -/
lemma note_eq (r : RedisSubscription) (channels : List String) :
    ∃ unsubscribed, r.note channels = { r with unsubscribed := unsubscribed } ∧
      (∀ c ∈ r.unsubscribed, c ∈ unsubscribed) ∧
      (r.registered = true → unsubscribed = r.unsubscribed ++ channels) := by
  unfold RedisSubscription.note
  split_ifs with hregistered
  · exact ⟨_, rfl, fun c hc => List.mem_append_left channels hc, fun _ => rfl⟩
  · exact ⟨r.unsubscribed, rfl, fun _ hc => hc, fun h => absurd h hregistered⟩

/-- The note of an `Unsubscribe` on an object. -/
lemma opened_note (hi : s.opened[i]? = some r) :
    (s.note channels).opened[i]? = some (r.note channels) := by
  change (s.opened.map _)[i]? = _
  rw [List.getElem?_map, hi]
  rfl

/-- An object after a call of `Unsubscribe` comes from one before it. -/
lemma exists_of_opened_unsubscribe {r' : RedisSubscription}
    (hi : (s.unsubscribe channels).opened[i]? = some r') : ∃ r, s.opened[i]? = some r := by
  have hlt : i < (s.unsubscribe channels).opened.length := (List.getElem?_eq_some_iff.mp hi).1
  have hlen : (s.note channels).opened.length = s.opened.length := List.length_map ..
  unfold unsubscribe at hlt
  rw [length_foldl_unsubscribeChannel, hlen] at hlt
  exact ⟨s.opened[i], List.getElem?_eq_getElem hlt⟩

/-- An object that the loop does not name stays as it is, but for the note, and one that it names is
closed. -/
lemma of_opened_unsubscribe {r' : RedisSubscription}
    (hi : (s.unsubscribe channels).opened[i]? = some r') : ∃ r, s.opened[i]? = some r ∧
      (r' = r.note channels ∨ (∃ ch ∈ channels, i ∈ s.subs ch) ∧
        ∃ active, r' = { r.note channels with active := active, closed := true }) := by
  obtain ⟨r, hr⟩ := exists_of_opened_unsubscribe hi
  refine ⟨r, hr, ?_⟩
  by_cases hnamed : ∃ ch ∈ channels, i ∈ s.subs ch
  · obtain ⟨ch, hch, hmem⟩ := hnamed
    obtain ⟨active, hopened⟩ := closed_of_named (s := s.note channels) hch hmem (opened_note hr)
    exact Or.inr ⟨⟨ch, hch, hmem⟩, active, Option.some.inj (hi.symm.trans hopened)⟩
  · have hnot : ∀ ch ∈ channels, i ∉ (s.note channels).subs ch :=
      fun ch hch hmem => hnamed ⟨ch, hch, hmem⟩
    have hopened := (opened_of_not_named hnot).trans (opened_note hr)
    exact Or.inl (Option.some.inj (hi.symm.trans hopened))

/-- What is registered after a call of `Unsubscribe`. -/
lemma subs_unsubscribe (s : RedisSubscriptions) (channels : List String) (ch : String) :
    (s.unsubscribe channels).subs ch = if ch ∈ channels then [] else s.subs ch :=
  subs_foldl_unsubscribeChannel (s.note channels) channels ch

/-- A call of `Unsubscribe` that ends whole subscriptions. -/
lemma sound_unsubscribe (hs : Sound s) (hwhole : s.EndsWhole (.unsubscribe channels)) :
    Sound (s.unsubscribe channels) := by
  constructor
  · intro ch i hi
    rw [subs_unsubscribe] at hi
    split_ifs at hi
    · exact absurd hi List.not_mem_nil
    · obtain ⟨r, hr, hregistered⟩ := hs.known ch i hi
      obtain ⟨unsubscribed, hnote, -⟩ := note_eq r channels
      have hnoted : (s.note channels).opened[i]? = some (r.note channels) := opened_note hr
      obtain ⟨active, closed, hopened, -⟩ :
          ∃ active closed, (s.unsubscribe channels).opened[i]? =
            some { r.note channels with active := active, closed := closed } ∧
              ((r.note channels).closed = true → closed = true) :=
        opened_foldl_unsubscribeChannel hnoted
      refine ⟨_, hopened, ?_⟩
      rw [hnote]
      exact hregistered
  · intro i r' hi hnew
    obtain ⟨r, hr, heq | ⟨⟨ch, hch, hmem⟩, active, heq⟩⟩ := of_opened_unsubscribe hi
    · obtain ⟨unsubscribed, hnote, -⟩ := note_eq r channels
      rw [hnote] at heq
      subst heq
      exact hs.fresh i r hr hnew
    · obtain ⟨r₀, hr₀, hregistered⟩ := hs.known ch i hmem
      obtain rfl := Option.some.inj (hr.symm.trans hr₀)
      obtain ⟨unsubscribed, hnote, -⟩ := note_eq r channels
      rw [hnote] at heq
      subst heq
      rw [hregistered] at hnew
      cases hnew
  · intro i r' hi hregistered hdone channel hchannel hnever
    obtain ⟨r, hr, heq | ⟨hnamed, active, heq⟩⟩ := of_opened_unsubscribe hi
    · obtain ⟨unsubscribed, hnote, hmore, -⟩ := note_eq r channels
      rw [hnote] at heq
      subst heq
      exact hs.serves i r hr hregistered hdone channel hchannel fun h => hnever (hmore channel h)
    · obtain ⟨unsubscribed, hnote, -, hall⟩ := note_eq r channels
      rw [hnote] at heq
      subst heq
      have hgone := hwhole i r hr hregistered hdone hnamed channel hchannel
      have hnew : unsubscribed = r.unsubscribed ++ channels := hall hregistered
      exact absurd (hnew ▸ List.mem_append.mpr hgone) hnever

/-- A call of `Unsubscribe` that leaves a channel of a stream that it closes. -/
lemma not_stillForwarded_of_not_endsWhole (hwhole : ¬ s.EndsWhole (.unsubscribe channels)) :
    ¬ (s.unsubscribe channels).StillForwarded := by
  intro hlive
  refine hwhole fun i r hi hregistered hdone ⟨ch, hch, hmem⟩ channel hchannel => ?_
  by_contra hleft
  obtain ⟨hbefore, hnow⟩ := not_or.mp hleft
  obtain ⟨unsubscribed, hnote, -, hall⟩ := note_eq r channels
  obtain ⟨active, hopened⟩ := closed_of_named (s := s.note channels) hch hmem (opened_note hi)
  have hnever : channel ∉ unsubscribed := by
    rw [hall hregistered, List.mem_append]
    exact hleft
  rw [hnote] at hopened
  obtain ⟨r', hr', -, hincoming⟩ :=
    hlive i _ hopened hregistered hdone channel hchannel hnever []
  -- The object is closed, so the server sends it nothing.
  have hsame : ((s.unsubscribe channels).publish channel []).opened[i]? = some
      { r with active := active, closed := true, unsubscribed := unsubscribed } := by
    have hget : (s.unsubscribe channels).opened[i]? = _ := hopened
    rw [opened_publish, hget]
    rfl
  obtain rfl := Option.some.inj (hr'.symm.trans hsame)
  simp at hincoming

/-! ### The channels that are still forwarded -/

/-- A step that ends whole subscriptions keeps the invariant. -/
lemma sound_step (s : RedisSubscriptions) (l : SubscriptionLabel) (s' : RedisSubscriptions)
    (hs : Sound s) (hC : s.EndsWhole l) (h : step s l = some s') : Sound s' := by
  cases moves_of_step h with
  | «open» channels confirmed => exact sound_open hs channels confirmed
  | register hi hnew hopen => exact sound_register hs hi hnew hopen
  | unsubscribe channels => exact sound_unsubscribe hs hC
  | publish channel payload => exact sound_publish hs channel payload
  | progress hi hr => exact sound_put hs hi hr

/-- Along a run, the channels that were never unsubscribed are forwarded if and only if every call
of `Unsubscribe` ends whole subscriptions. -/
theorem stillForwarded_iff_endsWhole (ls : List SubscriptionLabel) :
    Always step StillForwarded init ls ↔ StepsMeet step EndsWhole init ls := by
  refine always_iff_stepsMeet sound_step (fun s => stillForwarded_of_sound) ?_ sound_init
  intro s l s' _ hC h
  cases l with
  | unsubscribe channels =>
    obtain rfl := Option.some.inj h
    exact not_stillForwarded_of_not_endsWhole hC
  | _ => exact absurd trivial hC

/-- A subscriber of two channels, and an `Unsubscribe` of the first one. -/
def unsubscribeFirst : List SubscriptionLabel :=
  [.open ["a", "b"] true, .register 0, .unsubscribe ["a"]]

/-- After the `Unsubscribe` of the first of two channels, a message on the second one does not reach
the stream; its context is not done and the second channel was never unsubscribed. -/
theorem unsubscribe_ends_other_channel :
    ∃ s r, runFrom step init unsubscribeFirst = some s ∧ s.opened[0]? = some r ∧
      r.registered = true ∧ r.ctxDone = false ∧ "b" ∈ r.requested ∧ "b" ∉ r.unsubscribed ∧
      (s.publish "b" [7]).opened[0]? = some r ∧ r.incoming = [] ∧ ¬ s.StillForwarded := by
  refine ⟨_, _, rfl, rfl, rfl, rfl, by decide, by decide, rfl, rfl, fun hlive => ?_⟩
  obtain ⟨r', hr', -, hincoming⟩ := hlive 0 _ rfl rfl rfl "b" (by decide) (by decide) [7]
  obtain rfl := Option.some.inj hr'
  cases hincoming

end RedisSubscriptions

end Go

end GoyStore
