import GoyStore.PubSub.GoRedisPubSub

/-!
# The forwarder of a Go Redis stream

`Subscribe` of `RedisPubSubStore` starts a goroutine that takes the messages of its `redis.PubSub`
and sends them to the stream.  Its `select` watches the context and the messages, but the send to
the stream is a statement of its own, which waits while the stream is full.

A goroutine whose context is done can go on by itself in every state of a run if and only if it was
not at the send to a full stream when the context was cancelled, and took no message afterwards
while the stream was full (`notStuck_iff_leavesRoom`).  When nobody reads the stream any more it may
wait for ever (`full_stream_blocks_forwarder`), where `Publish` of the store in memory drops the
message.  What the goroutine does by itself is a run of the store of
`GoyStore.PubSub.GoRedisPubSub` (`exists_store_run`).
-/

namespace GoyStore

namespace Go

open Runs

/-! ### The goroutine -/

/-- Where the goroutine stands. -/
inductive ForwarderPoint where
  /-- At the `select`. -/
  | select
  /-- At the send of a message to the stream. -/
  | send (msg : Message)
  /-- It has returned, and the stream is closed. -/
  | returned
  deriving DecidableEq, Repr

/-- The goroutine of a call of `Subscribe`, with its context and its two channels. -/
structure Forwarder where
  /-- Where it stands. -/
  point : ForwarderPoint
  /-- The context of the call is done. -/
  ctxDone : Bool
  /-- The local `ch`: the messages of the `redis.PubSub` that are still to be taken. -/
  ch : List (String × List UInt8)
  /-- `Close` was called on the `redis.PubSub`. -/
  closed : Bool
  /-- The stream `out`. -/
  out : List Message
  deriving DecidableEq, Repr

/-- A step of the goroutine or of its environment. -/
inductive ForwarderLabel where
  /-- The `redis.PubSub` gets a message. -/
  | arrive (channel : String) (payload : List UInt8)
  /-- `Unsubscribe` closes the `redis.PubSub`. -/
  | close
  /-- The context is cancelled. -/
  | cancel
  /-- The consumer of the stream takes a message. -/
  | receive
  /-- The first case of the `select`: the context is done. -/
  | seeDone
  /-- The second case of the `select`, with a message. -/
  | take (timestamp : ℤ)
  /-- The second case of the `select`, after the last message. -/
  | seeClosed
  /-- The send to the stream. -/
  | send
  deriving DecidableEq, Repr

/-- The step is one of the goroutine. -/
def ForwarderLabel.ofGoroutine : ForwarderLabel → Bool
  | .seeDone => true
  | .take _ => true
  | .seeClosed => true
  | .send => true
  | _ => false

namespace Forwarder

/-- A goroutine that was just started. -/
def init : Forwarder := ⟨.select, false, [], false, []⟩

/-- The capacity of the stream. -/
def capacity : ℕ := RedisSubscriptions.capacity

/-- The step function. -/
def step (s : Forwarder) : ForwarderLabel → Option Forwarder
  | .arrive channel payload =>
    if s.closed then none else some { s with ch := s.ch ++ [(channel, payload)] }
  | .close => some { s with closed := true }
  | .cancel => some { s with ctxDone := true }
  | .receive =>
    match s.out with
    | [] => none
    | _ :: out => some { s with out }
  | .seeDone =>
    match s.point with
    | .select => if s.ctxDone then some { s with point := .returned, closed := true } else none
    | _ => none
  | .take timestamp =>
    match s.point, s.ch with
    | .select, msg :: ch => some { s with point := .send ⟨msg.1, msg.2, timestamp⟩, ch }
    | _, _ => none
  | .seeClosed =>
    match s.point with
    | .select => if s.closed ∧ s.ch = [] then some { s with point := .returned } else none
    | _ => none
  | .send =>
    match s.point with
    | .send msg =>
      if s.out.length < capacity then some { s with point := .select, out := s.out ++ [msg] }
      else none
    | _ => none

/-- If the context is done and the goroutine has not returned, it can make a step. -/
def NotStuck (s : Forwarder) : Prop :=
  s.ctxDone = true → s.point ≠ .returned →
    ∃ l : ForwarderLabel, l.ofGoroutine = true ∧ (s.step l).isSome = true

/-- The context is not cancelled while the goroutine is at the send to a full stream, and once it is
done, no message is taken while the stream is full. -/
def LeavesRoom (s : Forwarder) : ForwarderLabel → Prop
  | .cancel => ∀ msg, s.point = .send msg → s.out.length < capacity
  | .take _ => s.ctxDone = true → s.out.length < capacity
  | _ => True

variable {s s' : Forwarder}

/-! ### What a step does -/

/-- The step of each label. -/
inductive Moves (s : Forwarder) : ForwarderLabel → Forwarder → Prop where
  /-- A message arrives. -/
  | arrive (channel : String) (payload : List UInt8) (hopen : ¬ s.closed) :
      Moves s (.arrive channel payload) { s with ch := s.ch ++ [(channel, payload)] }
  /-- The `redis.PubSub` is closed. -/
  | close : Moves s .close { s with closed := true }
  /-- The context is cancelled. -/
  | cancel : Moves s .cancel { s with ctxDone := true }
  /-- The consumer takes the first message of the stream. -/
  | receive {msg : Message} {out : List Message} (hout : s.out = msg :: out) :
      Moves s .receive { s with out }
  /-- The goroutine stops because the context is done. -/
  | seeDone (hpoint : s.point = .select) (hdone : s.ctxDone = true) :
      Moves s .seeDone { s with point := .returned, closed := true }
  /-- The goroutine takes a message. -/
  | take {msg : String × List UInt8} {ch : List (String × List UInt8)} (timestamp : ℤ)
      (hpoint : s.point = .select) (hch : s.ch = msg :: ch) :
      Moves s (.take timestamp) { s with point := .send ⟨msg.1, msg.2, timestamp⟩, ch }
  /-- The goroutine stops because the `redis.PubSub` is closed. -/
  | seeClosed (hpoint : s.point = .select) (hclosed : s.closed = true) (hch : s.ch = []) :
      Moves s .seeClosed { s with point := .returned }
  /-- The goroutine sends the message it has taken. -/
  | send {msg : Message} (hpoint : s.point = .send msg) (hroom : s.out.length < capacity) :
      Moves s .send { s with point := .select, out := s.out ++ [msg] }

/-- Every step is one of these. -/
lemma moves_of_step {l : ForwarderLabel} (h : step s l = some s') : Moves s l s' := by
  cases l with
  | arrive channel payload =>
    obtain ⟨hopen, heq⟩ := Option.ite_none_left_eq_some.mp h
    obtain rfl := Option.some.inj heq
    exact .arrive channel payload hopen
  | close =>
    obtain rfl := Option.some.inj h
    exact .close
  | cancel =>
    obtain rfl := Option.some.inj h
    exact .cancel
  | receive =>
    cases hout : s.out with
    | nil => simp [step, hout] at h
    | cons msg out =>
      simp only [step, hout, Option.some.injEq] at h
      subst h
      exact .receive hout
  | seeDone =>
    cases hpoint : s.point with
    | select =>
      simp only [step, hpoint] at h
      obtain ⟨hdone, heq⟩ := Option.ite_none_right_eq_some.mp h
      obtain rfl := Option.some.inj heq
      exact .seeDone hpoint hdone
    | _ => simp [step, hpoint] at h
  | take timestamp =>
    cases hpoint : s.point with
    | select =>
      cases hch : s.ch with
      | nil => simp [step, hpoint, hch] at h
      | cons msg ch =>
        simp only [step, hpoint, hch, Option.some.injEq] at h
        subst h
        exact .take timestamp hpoint hch
    | _ => simp [step, hpoint] at h
  | seeClosed =>
    cases hpoint : s.point with
    | select =>
      simp only [step, hpoint] at h
      obtain ⟨hend, heq⟩ := Option.ite_none_right_eq_some.mp h
      obtain rfl := Option.some.inj heq
      exact .seeClosed hpoint hend.1 hend.2
    | _ => simp [step, hpoint] at h
  | send =>
    cases hpoint : s.point with
    | send msg =>
      simp only [step, hpoint] at h
      obtain ⟨hroom, heq⟩ := Option.ite_none_right_eq_some.mp h
      obtain rfl := Option.some.inj heq
      exact .send hpoint hroom
    | _ => simp [step, hpoint] at h

/-! ### When the goroutine is stuck -/

/-- A goroutine is stuck exactly at the send to a full stream. -/
lemma notStuck_iff :
    s.NotStuck ↔ (s.ctxDone = true → ∀ msg, s.point = .send msg → s.out.length < capacity) := by
  constructor
  · intro h hdone msg hmsg
    obtain ⟨l, hl, hsome⟩ := h hdone (by simp [hmsg])
    obtain ⟨s₁, hs₁⟩ := Option.isSome_iff_exists.mp hsome
    cases moves_of_step hs₁ with
    | seeDone hpoint hdone => cases hmsg.symm.trans hpoint
    | take timestamp hpoint hch => cases hmsg.symm.trans hpoint
    | seeClosed hpoint hclosed hch => cases hmsg.symm.trans hpoint
    | send hpoint hroom => exact hroom
    | _ => cases hl
  · intro h hdone hreturned
    cases hpoint : s.point with
    | select => exact ⟨.seeDone, rfl, by simp [step, hpoint, hdone]⟩
    | send msg => exact ⟨.send, rfl, by simp [step, hpoint, h hdone msg hpoint]⟩
    | returned => exact absurd hpoint hreturned

/-- A step that leaves room keeps the goroutine from getting stuck. -/
lemma notStuck_step (s : Forwarder) (l : ForwarderLabel) (s' : Forwarder) (hs : s.NotStuck)
    (hroom : s.LeavesRoom l) (h : step s l = some s') : s'.NotStuck := by
  rw [notStuck_iff] at hs ⊢
  cases moves_of_step h with
  | arrive channel payload hopen => exact hs
  | close => exact hs
  | cancel => exact fun _ => hroom
  | receive hout =>
    intro hdone msg hmsg
    have hlength := hs hdone msg hmsg
    rw [hout, List.length_cons] at hlength
    exact Nat.lt_of_succ_lt hlength
  | seeDone hpoint hdone =>
    rintro - msg hmsg
    cases hmsg
  | take timestamp hpoint hch => exact fun hdone _ _ => hroom hdone
  | seeClosed hpoint hclosed hch =>
    rintro - msg hmsg
    cases hmsg
  | send hpoint hfree =>
    rintro - msg hmsg
    cases hmsg

/-- A step that leaves no room gets the goroutine stuck. -/
lemma stuck_of_not_leavesRoom {l : ForwarderLabel} (hroom : ¬ s.LeavesRoom l)
    (h : step s l = some s') : ¬ s'.NotStuck := by
  rw [notStuck_iff]
  intro hs'
  cases moves_of_step h with
  | cancel => exact hroom fun msg hmsg => hs' rfl msg hmsg
  | take timestamp hpoint hch => exact hroom fun hdone => hs' hdone _ rfl
  | _ => exact hroom trivial

/-- Along a run, a goroutine whose context is done can always go on by itself, or has returned, if
and only if the context is never cancelled while the goroutine is at the send to a full stream, and
no message is taken while the context is done and the stream is full. -/
theorem notStuck_iff_leavesRoom (ls : List ForwarderLabel) :
    Always step NotStuck init ls ↔ StepsMeet step LeavesRoom init ls := by
  refine always_iff_stepsMeet notStuck_step (fun _ hs => hs)
    (fun s l s' _ hroom h => stuck_of_not_leavesRoom hroom h) ?_
  intro hdone
  cases hdone

/-! ### The goroutine in the store -/

/-- The message that was taken and is not sent yet. -/
def inHand (s : Forwarder) : List (String × List UInt8) :=
  match s.point with
  | .send msg => [(msg.channel, msg.payload)]
  | _ => []

/-- An object of the store with its goroutine, of which the store does not tell where it stands: the
message in hand counts as one that is still to be taken. -/
structure Follows (r : RedisSubscription) (s : Forwarder) : Prop where
  /-- The context. -/
  ctxDone : r.ctxDone = s.ctxDone
  /-- The `redis.PubSub`. -/
  closed : r.closed = s.closed
  /-- The goroutine. -/
  forwarding : r.forwarding = true ↔ s.point ≠ .returned
  /-- The messages that are not sent yet. -/
  incoming : r.incoming = s.inHand ++ s.ch
  /-- The stream. -/
  out : r.out = s.out

variable {t : RedisSubscriptions} {i : ℕ} {r : RedisSubscription}

/-- A step of the goroutine is one step of the store, or none. -/
lemma exists_store_step {l : ForwarderLabel} (hl : l.ofGoroutine = true)
    (hi : t.opened[i]? = some r) (hr : Follows r s) (h : s.step l = some s') :
    ∃ (ls : List SubscriptionLabel) (t' : RedisSubscriptions) (r' : RedisSubscription),
      runFrom RedisSubscriptions.step t ls = some t' ∧ t'.subs = t.subs ∧
        t'.opened[i]? = some r' ∧ Follows r' s' := by
  have hput : ∀ r', (t.put i r').opened[i]? = some r' :=
    fun _ => RedisSubscriptions.opened_put_self hi
  have hincoming := hr.incoming
  unfold inHand at hincoming
  cases moves_of_step h with
  | seeDone hpoint hdone =>
    have hrunning : r.forwarding = true := hr.forwarding.mpr (by simp [hpoint])
    have hdone' : r.ctxDone = true := hr.ctxDone.trans hdone
    rw [hpoint] at hincoming
    refine ⟨[.stopCancelled i], t.put i { r with closed := true, forwarding := false }, _, ?_,
      rfl, hput _, hr.ctxDone, rfl, by simp, hincoming, hr.out⟩
    simp [runFrom_singleton, RedisSubscriptions.step, hi, hrunning, hdone']
  | take timestamp hpoint hch =>
    -- the message in hand still counts as one to be taken: nothing happens in the store
    have hrunning : r.forwarding = true := hr.forwarding.mpr (by simp [hpoint])
    rw [hpoint] at hincoming
    refine ⟨[], t, r, rfl, rfl, hi, hr.ctxDone, hr.closed, by simp [hrunning], ?_, hr.out⟩
    exact hincoming.trans hch
  | seeClosed hpoint hend hch =>
    have hrunning : r.forwarding = true := hr.forwarding.mpr (by simp [hpoint])
    have hclosed : r.closed = true := hr.closed.trans hend
    rw [hpoint] at hincoming
    have hempty : r.incoming = [] := hincoming.trans hch
    refine ⟨[.stopClosed i], t.put i { r with forwarding := false }, _, ?_, rfl, hput _,
      hr.ctxDone, hr.closed, by simp, hincoming, hr.out⟩
    simp [runFrom_singleton, RedisSubscriptions.step, hi, hrunning, hclosed, hempty]
  | @send msg hpoint hroom =>
    have hrunning : r.forwarding = true := hr.forwarding.mpr (by simp [hpoint])
    have hroom' : r.out.length < RedisSubscriptions.capacity := by
      rw [hr.out]
      exact hroom
    rw [hpoint] at hincoming
    refine ⟨[.forward i msg.timestamp], t.put i { r with
      incoming := s.ch, out := r.out ++ [msg] }, _, ?_, rfl, hput _, hr.ctxDone, hr.closed,
      by simp [hrunning], rfl, congrArg (· ++ [msg]) hr.out⟩
    simp [runFrom_singleton, RedisSubscriptions.step, hi, hincoming, hrunning, hroom']
  | _ => cases hl

/-- What the goroutine does by itself is a run of the store. -/
theorem exists_store_run {ls : List ForwarderLabel} (hls : ∀ l ∈ ls, l.ofGoroutine = true)
    (hi : t.opened[i]? = some r) (hr : Follows r s) (h : runFrom step s ls = some s') :
    ∃ (ls' : List SubscriptionLabel) (t' : RedisSubscriptions) (r' : RedisSubscription),
      runFrom RedisSubscriptions.step t ls' = some t' ∧ t'.subs = t.subs ∧
        t'.opened[i]? = some r' ∧ Follows r' s' := by
  induction ls generalizing s t r with
  | nil => exact ⟨[], t, r, rfl, rfl, hi, Option.some.inj h ▸ hr⟩
  | cons l ls ih =>
    obtain ⟨s₁, hl, hrest⟩ := Option.bind_eq_some_iff.mp h
    obtain ⟨xs, t₁, r₁, hxs, hsubs, hi₁, hr₁⟩ :=
      exists_store_step (hls l List.mem_cons_self) hi hr hl
    obtain ⟨ys, t', r', hys, hsubs', hi', hr'⟩ :=
      ih (fun m hm => hls m (List.mem_cons_of_mem _ hm)) hi₁ hr₁ hrest
    exact ⟨xs ++ ys, t', r', runFrom_trans hxs hys, hsubs'.trans hsubs, hi', hr'⟩

/-! ### A stream that nobody reads -/

/-- A number of messages arrive and are sent to the stream. -/
def forwarded : ℕ → List ForwarderLabel
  | 0 => []
  | n + 1 => forwarded n ++ [.arrive "events" [], .take 0, .send]

/-- Up to the capacity the messages stay in the stream when nobody reads it. -/
lemma runFrom_forwarded {n : ℕ} (hn : n ≤ capacity) :
    ∃ out : List Message, out.length = n ∧
      runFrom step init (forwarded n) = some ⟨.select, false, [], false, out⟩ := by
  induction n with
  | zero => exact ⟨[], rfl, rfl⟩
  | succ n ih =>
    obtain ⟨out, hlength, hrun⟩ := ih (Nat.le_of_succ_le hn)
    refine ⟨out ++ [⟨"events", [], 0⟩], by rw [List.length_append, hlength]; rfl, ?_⟩
    have hroom : out.length < capacity := hlength ▸ hn
    refine runFrom_trans hrun ?_
    simp [runFrom, step, hroom]

/-- When a stream is full and nobody reads it, the goroutine waits at the send of the next message,
and does not see that its context is cancelled. -/
theorem full_stream_blocks_forwarder :
    ¬ ∀ ls : List ForwarderLabel, Always step NotStuck init ls := by
  intro hall
  obtain ⟨out, hlength, hrun⟩ := runFrom_forwarded (Nat.le_refl capacity)
  have hblocked : runFrom step init
      (forwarded capacity ++ [.arrive "events" [], .take 0, .cancel]) =
      some ⟨.send ⟨"events", [], 0⟩, true, [], false, out⟩ := runFrom_trans hrun rfl
  have hstuck := notStuck_iff.mp (hall _ _ _ List.prefix_rfl hblocked) rfl _ rfl
  exact absurd hlength (Nat.ne_of_lt hstuck)

end Forwarder

end Go

end GoyStore
