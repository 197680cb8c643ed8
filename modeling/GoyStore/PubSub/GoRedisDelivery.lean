import GoyStore.PubSub.GoRedisPubSub

/-!
# Delivery of the Go Redis pub/sub store

Between the driver and the consumer of a stream stand the local `ch`, which the driver fills, the
goroutine of `Subscribe` and the stream itself.  Any number of calls of `Subscribe` and
`Unsubscribe` share the store, contexts are cancelled and consumers read when they like.  Which
messages the driver puts into `ch` is left open: it may drop or delay what the server sends.  It
closes `ch` only after `Close`, and puts nothing into it afterwards.

In every run, what a consumer has taken, what its stream holds and what its goroutine still has to
forward are together the messages that arrived in `ch`, each once and in the order in which they
arrived; a stream that ends without its context being done has been given them all, and while the
goroutine runs the consumer can get them all (`always_exactForwarding`).
-/

namespace GoyStore

namespace Go

open Runs

/-! ### The history of the streams -/

/-- The channel and the payload of a message. -/
def Message.content (msg : Message) : String × List UInt8 := (msg.channel, msg.payload)

/-- The store, with the history of its streams. -/
structure ForwardingHistory where
  /-- The store. -/
  store : RedisSubscriptions
  /-- The driver has closed the local `ch` of each object. -/
  ended : ℕ → Bool
  /-- For the statements: the messages that arrived in the local `ch` of each object. -/
  arrived : ℕ → List (String × List UInt8)
  /-- For the statements: the messages that the consumer of each stream has taken. -/
  taken : ℕ → List Message

/-- A step of the store or of the driver. -/
inductive ForwardingLabel where
  /-- A step of a caller of the store, of a goroutine or of a consumer.  A publication only reaches
  the server. -/
  | act (l : SubscriptionLabel)
  /-- The driver puts a message into the local `ch` of an object. -/
  | arrive (i : ℕ) (channel : String) (payload : List UInt8)
  /-- The driver closes the local `ch` of an object on which `Close` was called. -/
  | finish (i : ℕ)

namespace ForwardingHistory

/-- A new store. -/
def init : ForwardingHistory := ⟨.init, fun _ => false, fun _ => [], fun _ => []⟩

/-- What a step does to the store. -/
def storeStep (h : ForwardingHistory) : ForwardingLabel → Option RedisSubscriptions
  | .act (.publish _ _) => some h.store
  | .act (.stopClosed i) => if h.ended i then h.store.step (.stopClosed i) else none
  | .act l => h.store.step l
  | .arrive i channel payload =>
    if h.ended i then none
    else h.store.opened[i]?.map fun r =>
      h.store.put i { r with incoming := r.incoming ++ [(channel, payload)] }
  | .finish i => h.store.opened[i]?.bind fun r => if r.closed then some h.store else none

/-- The step closes the local `ch` of an object. -/
def ends (i : ℕ) : ForwardingLabel → Bool
  | .finish j => j = i
  | _ => false

/-- What a step adds to the messages that arrived. -/
def newlyArrived (i : ℕ) : ForwardingLabel → List (String × List UInt8)
  | .arrive j channel payload => if j = i then [(channel, payload)] else []
  | _ => []

/-- What a step adds to the messages that a consumer has taken. -/
def newlyTaken (s : RedisSubscriptions) (i : ℕ) : ForwardingLabel → List Message
  | .act (.receive j) => if j = i then (s.opened[i]?.bind fun r => r.out.head?).toList else []
  | _ => []

/-- The step function. -/
def step (h : ForwardingHistory) (l : ForwardingLabel) : Option ForwardingHistory :=
  (h.storeStep l).map fun store =>
    { store
      ended := fun i => h.ended i || ends i l
      arrived := fun i => h.arrived i ++ newlyArrived i l
      taken := fun i => h.taken i ++ newlyTaken h.store i l }

/-- The step is one of the goroutine or of the consumer of a stream. -/
def ofStream (i : ℕ) : ForwardingLabel → Bool
  | .act (.forward j _) => j = i
  | .act (.receive j) => j = i
  | _ => false

/-- An object whose stream got what it should. -/
structure ExactObject (ended : Bool) (arrived : List (String × List UInt8)) (taken : List Message)
    (r : RedisSubscription) : Prop where
  /-- Each message was taken, is in the stream or is still to be forwarded, in this order. -/
  content : (taken ++ r.out).map Message.content ++ r.incoming = arrived
  /-- A goroutine that has returned was cancelled, or has forwarded all messages. -/
  stopped : r.registered = true → r.forwarding = false →
    r.ctxDone = true ∨ ended = true ∧ r.incoming = []
  /-- The driver has closed `ch` only after `Close`. -/
  closed : ended = true → r.closed = true

/-- All streams got what they should. -/
structure Exact (h : ForwardingHistory) : Prop where
  /-- The objects. -/
  object : ∀ (i : ℕ) (r : RedisSubscription), h.store.opened[i]? = some r →
    ExactObject (h.ended i) (h.arrived i) (h.taken i) r
  /-- Nothing arrives for objects that are not opened yet. -/
  unopened : ∀ i, h.store.opened[i]? = none →
    h.ended i = false ∧ h.arrived i = [] ∧ h.taken i = []

variable {h h' : ForwardingHistory} {s : RedisSubscriptions} {i j : ℕ} {r r' : RedisSubscription}
  {ended : Bool} {arrived : List (String × List UInt8)} {taken : List Message}

/-! ### What the steps do to an object -/

/-- A new object. -/
lemma exactObject_new (channels : List String) (confirmed : Bool) :
    ExactObject false [] [] (.new channels confirmed) where
  content := rfl
  stopped hregistered := by cases hregistered
  closed hended := by cases hended

/-- The goroutine of an object starts. -/
lemma ExactObject.register (hr : ExactObject ended arrived taken r) :
    ExactObject ended arrived taken { r with registered := true, forwarding := true } where
  content := hr.content
  stopped _ hstopped := by cases hstopped
  closed := hr.closed

/-- A call of `Unsubscribe`. -/
lemma ExactObject.unsubscribe (hr : ExactObject ended arrived taken r)
    {active unsubscribed : List String} {closed : Bool}
    (hclosed : r.closed = true → closed = true) :
    ExactObject ended arrived taken
      { r with active := active, closed := closed, unsubscribed := unsubscribed } where
  content := hr.content
  stopped := hr.stopped
  closed hended := hclosed (hr.closed hended)

/-- A message arrives. -/
lemma ExactObject.arrive (hr : ExactObject ended arrived taken r) (hopen : ended = false)
    (msg : String × List UInt8) :
    ExactObject ended (arrived ++ [msg]) taken { r with incoming := r.incoming ++ [msg] } where
  content := by rw [← hr.content, List.append_assoc]
  stopped hregistered hstopped := by
    refine (hr.stopped hregistered hstopped).imp_right fun hend => ?_
    rw [hopen] at hend
    cases hend.1
  closed := hr.closed

/-- The driver closes `ch`. -/
lemma ExactObject.finish (hr : ExactObject ended arrived taken r) (hclosed : r.closed = true) :
    ExactObject true arrived taken r where
  content := hr.content
  stopped hregistered hstopped :=
    (hr.stopped hregistered hstopped).imp_right fun hend => ⟨rfl, hend.2⟩
  closed _ := hclosed

/-- A message is forwarded. -/
lemma ExactObject.forward (hr : ExactObject ended arrived taken r) {msg : String × List UInt8}
    (hmsg : r.incoming.head? = some msg) (hrunning : r.forwarding = true) (timestamp : ℤ) :
    ExactObject ended arrived taken
      { r with incoming := r.incoming.tail, out := r.out ++ [⟨msg.1, msg.2, timestamp⟩] } where
  content := by
    have hsplit : r.incoming = msg :: r.incoming.tail := List.eq_cons_of_mem_head? hmsg
    have hbefore := hr.content
    rw [hsplit] at hbefore
    rw [← hbefore]
    simp [Message.content]
  stopped _ hstopped := by
    rw [hrunning] at hstopped
    cases hstopped
  closed := hr.closed

/-- The consumer takes a message, if there is one. -/
lemma ExactObject.receive (hr : ExactObject ended arrived taken r) :
    ExactObject ended arrived (taken ++ r.out.head?.toList) { r with out := r.out.tail } where
  content := by
    rw [← hr.content]
    cases r.out <;> simp
  stopped := hr.stopped
  closed := hr.closed

/-! ### What the steps do to the store -/

/-- A step that concerns one object. -/
lemma Exact.change (hs : h.Exact) (hi : h'.store.opened[i]? = some r)
    (hstore : ∀ j, i ≠ j → h'.store.opened[j]? = h.store.opened[j]?)
    (hrest : ∀ j, i ≠ j →
      h'.ended j = h.ended j ∧ h'.arrived j = h.arrived j ∧ h'.taken j = h.taken j)
    (hr : ExactObject (h'.ended i) (h'.arrived i) (h'.taken i) r) : h'.Exact where
  object j r' hj := by
    by_cases hij : i = j
    · subst hij
      obtain rfl := Option.some.inj (hi.symm.trans hj)
      exact hr
    · obtain ⟨hended, harrived, htaken⟩ := hrest j hij
      rw [hended, harrived, htaken]
      exact hs.object j r' ((hstore j hij).symm.trans hj)
  unopened j hj := by
    have hij : i ≠ j := by
      rintro rfl
      cases hi.symm.trans hj
    obtain ⟨hended, harrived, htaken⟩ := hrest j hij
    rw [hended, harrived, htaken]
    exact hs.unopened j ((hstore j hij).symm.trans hj)

/-- An object is opened. -/
lemma Exact.open (hs : h.Exact) (channels : List String) (confirmed : Bool) :
    Exact { h with store := h.store.openObject channels confirmed } := by
  rw [RedisSubscriptions.openObject]
  split_ifs
  · exact hs
  refine ⟨fun i r hi => ?_, fun i hi => ?_⟩
  · by_cases hlt : i < h.store.opened.length
    · rw [List.getElem?_append_left hlt] at hi
      exact hs.object i r hi
    · have hnone : h.store.opened[i]? = none := List.getElem?_eq_none (not_lt.mp hlt)
      obtain ⟨hended, harrived, htaken⟩ := hs.unopened i hnone
      rw [List.getElem?_append_right (not_lt.mp hlt)] at hi
      obtain rfl := List.mem_singleton.mp (List.mem_of_getElem? hi)
      simp only [hended, harrived, htaken]
      exact exactObject_new channels confirmed
  · refine hs.unopened i (List.getElem?_eq_none ?_)
    have hlength := List.getElem?_eq_none_iff.mp hi
    rw [List.length_append] at hlength
    omega

/-- A call of `Unsubscribe`. -/
lemma Exact.unsubscribe (hs : h.Exact) (channels : List String) :
    Exact { h with store := h.store.unsubscribe channels } where
  object i r' hi := by
    obtain ⟨r, hr⟩ := RedisSubscriptions.exists_of_opened_unsubscribe hi
    obtain ⟨unsubscribed, hnote, -⟩ := RedisSubscriptions.note_eq r channels
    have hnoted : (h.store.note channels).opened[i]? = some (r.note channels) :=
      RedisSubscriptions.opened_note hr
    have hloop : ∃ active closed, (h.store.unsubscribe channels).opened[i]? =
        some { r.note channels with active := active, closed := closed } ∧
          ((r.note channels).closed = true → closed = true) :=
      RedisSubscriptions.opened_foldl_unsubscribeChannel hnoted
    obtain ⟨active, closed, hopened, hclosed⟩ := hloop
    obtain rfl := Option.some.inj (hopened.symm.trans hi)
    rw [hnote] at hclosed ⊢
    exact (hs.object i r hr).unsubscribe hclosed
  unopened i hi := by
    refine hs.unopened i (List.getElem?_eq_none ?_)
    have hlength := List.getElem?_eq_none_iff.mp hi
    rw [RedisSubscriptions.unsubscribe,
      RedisSubscriptions.length_foldl_unsubscribeChannel] at hlength
    have hnoted : (h.store.note channels).opened.length = h.store.opened.length :=
      List.length_map ..
    omega

/-- What a step of the driver or of one stream leaves. -/
lemma rest_of_step {l : ForwardingLabel} (hended : ∀ j, i ≠ j → ends j l = false)
    (harrived : ∀ j, i ≠ j → newlyArrived j l = [])
    (htaken : ∀ j, i ≠ j → newlyTaken h.store j l = []) (j : ℕ) (hij : i ≠ j) :
    (h.ended j || ends j l) = h.ended j ∧ h.arrived j ++ newlyArrived j l = h.arrived j ∧
      h.taken j ++ newlyTaken h.store j l = h.taken j := by
  rw [hended j hij, harrived j hij, htaken j hij, Bool.or_false, List.append_nil, List.append_nil]
  exact ⟨rfl, rfl, rfl⟩

/-- A step of a caller, a goroutine or a consumer on one object, by which no message is taken. -/
lemma Exact.put (hs : h.Exact) (hi : h.store.opened[i]? = some r) {l : SubscriptionLabel}
    (htaken : ∀ j, newlyTaken h.store j (.act l) = [])
    (hr : ExactObject (h.ended i) (h.arrived i) (h.taken i) r →
      ExactObject (h.ended i) (h.arrived i) (h.taken i) r') :
    Exact
      { store := h.store.put i r'
        ended := fun j => h.ended j || ends j (.act l)
        arrived := fun j => h.arrived j ++ newlyArrived j (.act l)
        taken := fun j => h.taken j ++ newlyTaken h.store j (.act l) } := by
  refine hs.change (RedisSubscriptions.opened_put_self hi)
    (fun j hij => RedisSubscriptions.opened_put_of_ne hij)
    (fun j hij => rest_of_step (fun _ _ => rfl) (fun _ _ => rfl) (fun j _ => htaken j) j hij) ?_
  have hend := hr (hs.object i r hi)
  simpa [ends, newlyArrived, htaken i] using hend

/-- Every step keeps the streams exact. -/
lemma exact_step (h : ForwardingHistory) (l : ForwardingLabel) (h' : ForwardingHistory)
    (hs : h.Exact) (hstep : step h l = some h') : h'.Exact := by
  obtain ⟨store, hstore, rfl⟩ := Option.map_eq_some_iff.mp hstep
  cases l with
  | arrive i channel payload =>
    obtain ⟨hopen, hstore⟩ := Option.ite_none_left_eq_some.mp hstore
    obtain ⟨r, hi, rfl⟩ := Option.map_eq_some_iff.mp hstore
    refine hs.change (RedisSubscriptions.opened_put_self hi)
      (fun j hij => RedisSubscriptions.opened_put_of_ne hij)
      (fun j hij => rest_of_step (l := .arrive i channel payload) (fun _ _ => rfl)
        (fun j hij => if_neg hij) (fun _ _ => rfl) j hij) ?_
    have hend := (hs.object i r hi).arrive (by simpa using hopen) (channel, payload)
    simpa [ends, newlyArrived, newlyTaken] using hend
  | finish i =>
    obtain ⟨r, hi, hstore⟩ := Option.bind_eq_some_iff.mp hstore
    obtain ⟨hclosed, heq⟩ := Option.ite_none_right_eq_some.mp hstore
    obtain rfl := Option.some.inj heq
    refine hs.change hi (fun _ _ => rfl) (fun j hij => rest_of_step (l := .finish i)
      (fun j hij => decide_eq_false hij) (fun _ _ => rfl) (fun _ _ => rfl) j hij) ?_
    have hend := (hs.object i r hi).finish hclosed
    simpa [ends, newlyArrived, newlyTaken] using hend
  | act l =>
    cases l with
    | «open» channels confirmed =>
      obtain rfl := Option.some.inj hstore
      simpa [ends, newlyArrived, newlyTaken] using hs.open channels confirmed
    | unsubscribe channels =>
      obtain rfl := Option.some.inj hstore
      simpa [ends, newlyArrived, newlyTaken] using hs.unsubscribe channels
    | publish channel payload =>
      obtain rfl := Option.some.inj hstore
      simpa [ends, newlyArrived, newlyTaken] using hs
    | register i =>
      obtain ⟨r, hi, hstore⟩ := Option.bind_eq_some_iff.mp hstore
      obtain ⟨-, heq⟩ := Option.ite_none_right_eq_some.mp hstore
      obtain rfl := Option.some.inj heq
      refine hs.change (RedisSubscriptions.opened_register_self hi)
        (fun j hij => RedisSubscriptions.opened_register_of_ne hij) (fun j hij => rest_of_step
          (fun _ _ => rfl) (fun _ _ => rfl) (fun _ _ => rfl) j hij) ?_
      simpa [ends, newlyArrived, newlyTaken] using (hs.object i r hi).register
    | cancel i =>
      obtain ⟨r, hi, rfl⟩ := Option.map_eq_some_iff.mp hstore
      exact hs.put hi (fun _ => rfl) fun hr => ⟨hr.content, fun _ _ => .inl rfl, hr.closed⟩
    | forward i timestamp =>
      obtain ⟨r, hi, hstore⟩ := Option.bind_eq_some_iff.mp hstore
      obtain ⟨msg, hmsg, hstore⟩ := Option.bind_eq_some_iff.mp hstore
      obtain ⟨⟨hrunning, -⟩, heq⟩ := Option.ite_none_right_eq_some.mp hstore
      obtain rfl := Option.some.inj heq
      exact hs.put hi (fun _ => rfl) fun hr => hr.forward hmsg hrunning timestamp
    | stopCancelled i =>
      obtain ⟨r, hi, hstore⟩ := Option.bind_eq_some_iff.mp hstore
      obtain ⟨⟨-, hdone⟩, heq⟩ := Option.ite_none_right_eq_some.mp hstore
      obtain rfl := Option.some.inj heq
      exact hs.put hi (fun _ => rfl) fun hr => ⟨hr.content, fun _ _ => .inl hdone, fun _ => rfl⟩
    | stopClosed i =>
      obtain ⟨hended, hstore⟩ := Option.ite_none_right_eq_some.mp hstore
      obtain ⟨r, hi, hstore⟩ := Option.bind_eq_some_iff.mp hstore
      obtain ⟨⟨-, -, hempty⟩, heq⟩ := Option.ite_none_right_eq_some.mp hstore
      obtain rfl := Option.some.inj heq
      exact hs.put hi (fun _ => rfl) fun hr =>
        ⟨hr.content, fun _ _ => .inr ⟨hended, hempty⟩, hr.closed⟩
    | receive i =>
      obtain ⟨r, hi, rfl⟩ := Option.map_eq_some_iff.mp hstore
      refine hs.change (RedisSubscriptions.opened_put_self hi)
        (fun j hij => RedisSubscriptions.opened_put_of_ne hij) (fun j hij => rest_of_step
          (l := .act (.receive i)) (fun _ _ => rfl) (fun _ _ => rfl) (fun j hij => if_neg hij) j
          hij) ?_
      simpa [ends, newlyArrived, newlyTaken, hi] using (hs.object i r hi).receive

/-! ### The consumer can get all messages -/

/-- Where the goroutine of an object runs, it and the consumer can move one message on. -/
lemma exists_stream_step (hi : h.store.opened[i]? = some r) (hrunning : r.forwarding = true)
    (hleft : r.incoming ≠ [] ∨ r.out ≠ []) :
    ∃ l h' r', ofStream i l = true ∧ step h l = some h' ∧ h'.store.opened[i]? = some r' ∧
      r'.forwarding = true ∧ h'.arrived = h.arrived ∧
        2 * r'.incoming.length + r'.out.length < 2 * r.incoming.length + r.out.length := by
  cases hout : r.out with
  | cons msg out =>
    have hstep : h.storeStep (.act (.receive i)) =
        some (h.store.put i { r with out := r.out.tail }) := by
      simp [storeStep, RedisSubscriptions.step, hi]
    refine ⟨.act (.receive i), _, { r with out := r.out.tail }, by simp [ofStream],
      by rw [step, hstep]; rfl, RedisSubscriptions.opened_put_self hi, hrunning, ?_, ?_⟩
    · funext j
      exact List.append_nil _
    · simp [hout]
  | nil =>
    obtain ⟨msg, rest, hincoming⟩ :=
      List.exists_cons_of_ne_nil (hleft.resolve_right (by simp [hout]))
    have hstep : h.storeStep (.act (.forward i 0)) = some (h.store.put i
        { r with incoming := r.incoming.tail, out := r.out ++ [⟨msg.1, msg.2, 0⟩] }) := by
      simp [storeStep, RedisSubscriptions.step, hi, hincoming, hrunning, hout,
        RedisSubscriptions.capacity]
    refine ⟨.act (.forward i 0), _,
      { r with incoming := r.incoming.tail, out := r.out ++ [⟨msg.1, msg.2, 0⟩] },
      by simp [ofStream], by rw [step, hstep]; rfl, RedisSubscriptions.opened_put_self hi,
      hrunning, ?_, ?_⟩
    · funext j
      exact List.append_nil _
    · simp [hincoming, hout]
      omega

/-- Where the goroutine of an object runs, it and the consumer can move all messages on. -/
theorem exists_all_taken (hs : h.Exact) (hi : h.store.opened[i]? = some r)
    (hrunning : r.forwarding = true) :
    ∃ ls h', (∀ l ∈ ls, ofStream i l = true) ∧ runFrom step h ls = some h' ∧
      (h'.taken i).map Message.content = h.arrived i := by
  induction hn : 2 * r.incoming.length + r.out.length using Nat.strong_induction_on
    generalizing h r with
  | _ n ih =>
    by_cases hleft : r.incoming ≠ [] ∨ r.out ≠ []
    · obtain ⟨l, h₁, r₁, hl, hstep, hi₁, hrunning₁, harrived, hless⟩ :=
        exists_stream_step hi hrunning hleft
      obtain ⟨ls, h', hls, hrun, htaken⟩ :=
        ih _ (hn ▸ hless) (exact_step h l h₁ hs hstep) hi₁ hrunning₁ rfl
      refine ⟨l :: ls, h', ?_, ?_, by rw [htaken, harrived]⟩
      · intro m hm
        obtain rfl | hm := List.mem_cons.mp hm
        · exact hl
        · exact hls m hm
      · rw [runFrom_cons, hstep]
        exact hrun
    · push Not at hleft
      refine ⟨[], h, List.forall_mem_nil _, rfl, ?_⟩
      have hcontent := (hs.object i r hi).content
      rwa [hleft.1, hleft.2, List.append_nil, List.append_nil] at hcontent

/-- After a run, all streams got what they should of what arrived, and their consumers can get the
rest. -/
structure Forwards (ls : List ForwardingLabel) (h : ForwardingHistory) : Prop extends h.Exact where
  /-- The messages that arrived are those of the run. -/
  arrivals : ∀ i, h.arrived i = ls.flatMap (newlyArrived i)
  /-- The local `ch` that are closed are those of the run. -/
  endings : ∀ i, h.ended i = ls.any (ends i)
  /-- The steps of a goroutine that runs and of the consumer lead to where it has taken all. -/
  delivered : ∀ (i : ℕ) (r : RedisSubscription), h.store.opened[i]? = some r →
    r.forwarding = true → ∃ ls h', (∀ l ∈ ls, ofStream i l = true) ∧ runFrom step h ls = some h' ∧
      (h'.taken i).map Message.content = h.arrived i

/-- In every run, every stream has or will have exactly the messages that arrived in the local `ch`
of its goroutine, each once and in order, and the consumer can get them all while the goroutine
runs; a goroutine that has returned without being cancelled has forwarded them all. -/
theorem always_exactForwarding (ls : List ForwardingLabel) :
    AlwaysAfter step Forwards init ls := by
  intro pre h _ hrun
  have hs : h.Exact := by
    refine invariant_of_runFrom exact_step ⟨fun i r hi => ?_, fun i _ => ⟨rfl, rfl, rfl⟩⟩ hrun
    cases hi
  refine ⟨hs, fun i => ?_, fun i => ?_, fun i r hi hrunning => exists_all_taken hs hi hrunning⟩
  · refine history_of_runFrom (I := fun h ls => h.arrived i = ls.flatMap (newlyArrived i))
      (fun ls l u u' _ ih hl => ?_) rfl hrun
    obtain ⟨store, -, rfl⟩ := Option.map_eq_some_iff.mp hl
    rw [List.flatMap_append, ← ih]
    simp
  · refine history_of_runFrom (I := fun h ls => h.ended i = ls.any (ends i))
      (fun ls l u u' _ ih hl => ?_) rfl hrun
    obtain ⟨store, -, rfl⟩ := Option.map_eq_some_iff.mp hl
    rw [List.any_append, ← ih]
    simp

end ForwardingHistory

end Go

end GoyStore
