import GoyStore.PubSub.GoRedisPubSub

/-!
# What the Go Redis pub/sub store keeps

`RedisPubSubStore` registers a `redis.PubSub` under every channel of its call.  `Unsubscribe` closes
it and drops the entries of the channels that it names; a goroutine that sees that its context is
done closes it and drops none.  The other entries stay in `subs`.

Once the goroutines whose context is done have returned, the registry holds open objects only, all
along a run, if and only if no context is cancelled whose object is still registered and every
`Unsubscribe` names all channels that are left of the objects that it closes
(`registryLive_iff_keepsLive`).
-/

namespace GoyStore

namespace Go

open Runs

namespace RedisSubscriptions

/-- Every goroutine whose context is done has returned. -/
def Settled (s : RedisSubscriptions) : Prop :=
  ∀ (i : ℕ) (r : RedisSubscription), s.opened[i]? = some r → r.ctxDone = true →
    r.forwarding = false

/-- The registry holds objects only that are not closed. -/
def OnlyLive (s : RedisSubscriptions) : Prop :=
  ∀ (c : String), ∀ i ∈ s.subs c, ∀ r : RedisSubscription, s.opened[i]? = some r →
    r.closed = false

/-- Once some goroutines have seen that their contexts are done (none, when the state is settled),
and none is left that has not, the registry holds objects only that are not closed. -/
def RegistryLive (s : RedisSubscriptions) : Prop :=
  ∀ (stops : List ℕ) (t : RedisSubscriptions),
    runFrom step s (stops.map .stopCancelled) = some t → t.Settled → t.OnlyLive

/-- No context is cancelled whose object is registered under a channel, no object is registered
whose context is done, and an `Unsubscribe` that closes an object names all channels under which it
is registered. -/
def KeepsLive (s : RedisSubscriptions) : SubscriptionLabel → Prop
  | .cancel i => ∀ c, i ∉ s.subs c
  | .register i => ∀ r : RedisSubscription, s.opened[i]? = some r → r.ctxDone = false
  | .unsubscribe channels =>
    ∀ i, (∃ ch ∈ channels, i ∈ s.subs ch) → ∀ c, i ∈ s.subs c → c ∈ channels
  | _ => True

/-- A registered object that is open, and whose goroutine runs with a context that is not done. -/
structure InService (r : RedisSubscription) : Prop where
  /-- It is not closed. -/
  closed : r.closed = false
  /-- Its context is not done. -/
  ctxDone : r.ctxDone = false
  /-- Its goroutine is in its loop. -/
  forwarding : r.forwarding = true

/-- What every state of a run has whose steps keep the registry live. -/
structure Live (s : RedisSubscriptions) : Prop where
  /-- The registry holds objects in service. -/
  inService : ∀ c, ∀ i ∈ s.subs c, ∃ r, s.opened[i]? = some r ∧ InService r
  /-- Every object was opened for a channel, and its goroutine starts when it is registered. -/
  opened : ∀ (i : ℕ) (r : RedisSubscription), s.opened[i]? = some r →
    r.requested ≠ [] ∧ (r.registered = false → ∀ c, i ∉ s.subs c)

variable {s s' t : RedisSubscriptions} {i : ℕ} {r r' : RedisSubscription} {channels : List String}

/-! ### Goroutines that return -/

/-- An object that is closed stays closed while goroutines see that their contexts are done, and
the registry stays as it is. -/
lemma closed_of_stops {stops : List ℕ} (h : runFrom step s (stops.map .stopCancelled) = some t)
    (hi : s.opened[i]? = some r) :
    t.subs = s.subs ∧ ∃ r', t.opened[i]? = some r' ∧ (r.closed = true → r'.closed = true) ∧
      (r.forwarding = true → r.ctxDone = true →
        r'.closed = true ∨ r'.forwarding = true ∧ r'.ctxDone = true) := by
  induction stops generalizing s r with
  | nil =>
    obtain rfl := Option.some.inj h
    exact ⟨rfl, r, hi, id, fun hforwarding hdone => Or.inr ⟨hforwarding, hdone⟩⟩
  | cons j stops ih =>
    obtain ⟨s₁, hstep, hrest⟩ := Option.bind_eq_some_iff.mp h
    obtain ⟨rj, hj, hstep⟩ := Option.bind_eq_some_iff.mp hstep
    obtain ⟨⟨-, hdone⟩, heq⟩ := Option.ite_none_right_eq_some.mp hstep
    obtain rfl := Option.some.inj heq
    by_cases hij : j = i
    · subst hij
      obtain rfl := Option.some.inj (hi.symm.trans hj)
      obtain ⟨hsubs, r', hr', hclosed, -⟩ := ih hrest (opened_put_self hi)
      exact ⟨hsubs, r', hr', fun _ => hclosed rfl, fun _ _ => Or.inl (hclosed rfl)⟩
    · have hi' : (s.put j { rj with closed := true, forwarding := false }).opened[i]? = some r :=
        (opened_put_of_ne hij).trans hi
      have hlater := ih hrest hi'
      exact hlater

/-- Goroutines whose contexts are done can return one after the other. -/
lemma exists_settled_below (s : RedisSubscriptions) (n : ℕ) :
    ∃ (stops : List ℕ) (t : RedisSubscriptions),
      runFrom step s (stops.map .stopCancelled) = some t ∧
        t.opened.length = s.opened.length ∧
        ∀ i < n, ∀ r : RedisSubscription, t.opened[i]? = some r → r.ctxDone = true →
          r.forwarding = false := by
  induction n with
  | zero => exact ⟨[], s, rfl, rfl, fun i hi => absurd hi (Nat.not_lt_zero i)⟩
  | succ n ih =>
    obtain ⟨stops, t, hrun, hlength, hbelow⟩ := ih
    by_cases hpending : ∃ r, t.opened[n]? = some r ∧ r.forwarding = true ∧ r.ctxDone = true
    · obtain ⟨r, hn, hrunning⟩ := hpending
      refine ⟨stops ++ [n], t.put n { r with closed := true, forwarding := false }, ?_,
        (List.length_set ..).trans hlength, fun i hi r' hr' hdone => ?_⟩
      · rw [List.map_append]
        refine runFrom_trans hrun ?_
        simp [runFrom, step, hn, hrunning]
      · rcases Nat.lt_succ_iff_lt_or_eq.mp hi with hlow | rfl
        · have hne : n ≠ i := Nat.ne_of_gt hlow
          exact hbelow i hlow r' ((opened_put_of_ne hne).symm.trans hr') hdone
        · obtain rfl := Option.some.inj ((opened_put_self hn).symm.trans hr')
          rfl
    · refine ⟨stops, t, hrun, hlength, fun i hi r hr hdone => ?_⟩
      rcases Nat.lt_succ_iff_lt_or_eq.mp hi with hlow | rfl
      · exact hbelow i hlow r hr hdone
      · by_contra hforwarding
        exact hpending ⟨r, hr, by simpa using hforwarding, hdone⟩

/-- All goroutines whose contexts are done can return. -/
lemma exists_settled (s : RedisSubscriptions) :
    ∃ (stops : List ℕ) (t : RedisSubscriptions),
      runFrom step s (stops.map .stopCancelled) = some t ∧ t.Settled := by
  obtain ⟨stops, t, hrun, hlength, hbelow⟩ := s.exists_settled_below s.opened.length
  refine ⟨stops, t, hrun, fun i r hi => hbelow i ?_ r hi⟩
  rw [← hlength]
  exact (List.getElem?_eq_some_iff.mp hi).1

/-- A registered object that is closed, or whose goroutine will close it, stays in the registry. -/
lemma not_registryLive {c : String} (hmem : i ∈ s.subs c) (hi : s.opened[i]? = some r)
    (hdoomed : r.closed = true ∨ r.forwarding = true ∧ r.ctxDone = true) : ¬ s.RegistryLive := by
  intro hlive
  obtain ⟨stops, t, hrun, hsettled⟩ := s.exists_settled
  obtain ⟨hsubs, r', hr', hclosed, hrunning⟩ := closed_of_stops hrun hi
  have hopen := hlive stops t hrun hsettled c i (hsubs ▸ hmem) r' hr'
  rcases hdoomed with hc | ⟨hforwarding, hdone⟩
  · rw [hclosed hc] at hopen
    cases hopen
  · rcases hrunning hforwarding hdone with hc | ⟨hforwarding', hdone'⟩
    · rw [hc] at hopen
      cases hopen
    · rw [hsettled i r' hr' hdone'] at hforwarding'
      cases hforwarding'

/-! ### Steps that keep the registry live -/

/-- Nothing is registered yet. -/
lemma live_init : Live init where
  inService _ i hi := absurd hi List.not_mem_nil
  opened i r hi := by cases hi

/-- An object is opened. -/
lemma live_open (hs : Live s) (channels : List String) (confirmed : Bool) :
    Live (s.openObject channels confirmed) := by
  unfold openObject
  split_ifs with hempty
  · exact hs
  have hlt : ∀ {c : String} {i : ℕ}, i ∈ s.subs c → i < s.opened.length := by
    intro c i hi
    obtain ⟨r, hr, -⟩ := hs.inService c i hi
    exact (List.getElem?_eq_some_iff.mp hr).1
  constructor
  · intro c i hi
    obtain ⟨r, hr, hservice⟩ := hs.inService c i hi
    exact ⟨r, (List.getElem?_append_left (hlt hi)).trans hr, hservice⟩
  · intro i r hi
    change (s.opened ++ [RedisSubscription.new channels confirmed])[i]? = some r at hi
    rw [List.getElem?_append] at hi
    split_ifs at hi with hold
    · exact hs.opened i r hi
    · obtain rfl := List.mem_singleton.mp (List.mem_of_getElem? hi)
      exact ⟨fun hnil => hempty (List.isEmpty_iff.mpr hnil), fun _ c hmem => hold (hlt hmem)⟩

/-- An object is registered whose context is not done. -/
lemma live_register (hs : Live s) (hi : s.opened[i]? = some r) (hopen : r.closed = false)
    (hdone : r.ctxDone = false) : Live (s.register i r) := by
  have hself := opened_register_self hi
  constructor
  · intro c j hj
    by_cases hij : i = j
    · subst hij
      exact ⟨_, hself, hopen, hdone, rfl⟩
    · rcases mem_subs_register.mp hj with hold | ⟨heq, -⟩
      · obtain ⟨r₀, hr₀, hservice⟩ := hs.inService c j hold
        exact ⟨r₀, (opened_register_of_ne hij).trans hr₀, hservice⟩
      · exact absurd heq.symm hij
  · intro j r₀ hj
    by_cases hij : i = j
    · subst hij
      obtain rfl := Option.some.inj (hself.symm.trans hj)
      exact ⟨(hs.opened i r hi).1, fun hfresh => by cases hfresh⟩
    · obtain ⟨hrequested, hfresh⟩ := hs.opened j r₀ ((opened_register_of_ne hij).symm.trans hj)
      refine ⟨hrequested, fun hnew c hmem => ?_⟩
      rcases mem_subs_register.mp hmem with hold | ⟨heq, -⟩
      · exact hfresh hnew c hold
      · exact hij heq.symm

/-- The goroutine, the consumer or the context of an object changes it; if it is in service and
registered, it stays in service. -/
lemma live_put (hs : Live s) (hi : s.opened[i]? = some r)
    (hrequested : r'.requested = r.requested) (hregistered : r'.registered = r.registered)
    (hservice : ∀ c, i ∈ s.subs c → InService r → InService r') : Live (s.put i r') := by
  have hself : (s.put i r').opened[i]? = some r' := opened_put_self hi
  constructor
  · intro c j hj
    obtain ⟨r₀, hr₀, hold⟩ := hs.inService c j hj
    by_cases hij : i = j
    · subst hij
      obtain rfl := Option.some.inj (hi.symm.trans hr₀)
      exact ⟨r', hself, hservice c hj hold⟩
    · exact ⟨r₀, (opened_put_of_ne hij).trans hr₀, hold⟩
  · intro j r₀ hj
    by_cases hij : i = j
    · subst hij
      obtain rfl := Option.some.inj (hself.symm.trans hj)
      rw [hrequested, hregistered]
      exact hs.opened i r hi
    · exact hs.opened j r₀ ((opened_put_of_ne hij).symm.trans hj)

/-- A message is published. -/
lemma live_publish (hs : Live s) (channel : String) (payload : List UInt8) :
    Live (s.publish channel payload) := by
  constructor
  · intro c i hi
    obtain ⟨r, hr, hservice⟩ := hs.inService c i hi
    obtain ⟨incoming, heq⟩ := deliver_eq r channel payload
    refine ⟨{ r with incoming := incoming }, ?_, hservice.closed, hservice.ctxDone,
      hservice.forwarding⟩
    rw [opened_publish, hr, Option.map_some, heq]
  · intro i r' hi
    rw [opened_publish] at hi
    obtain ⟨r, hr, rfl⟩ := Option.map_eq_some_iff.mp hi
    obtain ⟨incoming, heq⟩ := deliver_eq r channel payload
    rw [heq]
    exact hs.opened i r hr

/-- A call of `Unsubscribe` that names all channels of the objects that it closes. -/
lemma live_unsubscribe (hs : Live s) (hkeeps : s.KeepsLive (.unsubscribe channels)) :
    Live (s.unsubscribe channels) := by
  constructor
  · intro c i hi
    rw [subs_unsubscribe] at hi
    split_ifs at hi with hc
    · exact absurd hi List.not_mem_nil
    obtain ⟨r, hr, hservice⟩ := hs.inService c i hi
    -- the object is registered under a channel that is not named, so under none that is
    have hnot : ∀ ch ∈ channels, i ∉ (s.note channels).subs ch :=
      fun ch hch hmem => hc (hkeeps i ⟨ch, hch, hmem⟩ c hi)
    obtain ⟨unsubscribed, hnote, -⟩ := note_eq r channels
    refine ⟨r.note channels, (opened_of_not_named hnot).trans (opened_note hr), ?_⟩
    rw [hnote]
    exact ⟨hservice.closed, hservice.ctxDone, hservice.forwarding⟩
  · intro i r' hi
    obtain ⟨r, hr, hr'⟩ := of_opened_unsubscribe hi
    obtain ⟨unsubscribed, hnote, -⟩ := note_eq r channels
    obtain ⟨hrequested, hfresh⟩ := hs.opened i r hr
    have hkept : r'.requested = r.requested ∧ r'.registered = r.registered := by
      rcases hr' with rfl | ⟨-, active, rfl⟩
      all_goals
        rw [hnote]
        exact ⟨rfl, rfl⟩
    rw [hkept.1, hkept.2]
    refine ⟨hrequested, fun hnew c hmem => ?_⟩
    rw [subs_unsubscribe] at hmem
    split_ifs at hmem
    · exact List.not_mem_nil hmem
    · exact hfresh hnew c hmem

/-- A step that keeps the registry live keeps the invariant. -/
lemma live_step (s : RedisSubscriptions) (l : SubscriptionLabel) (s' : RedisSubscriptions)
    (hs : Live s) (hkeeps : s.KeepsLive l) (h : step s l = some s') : Live s' := by
  cases l with
  | «open» channels confirmed => exact Option.some.inj h ▸ live_open hs channels confirmed
  | register i =>
    obtain ⟨r, hi, h⟩ := Option.bind_eq_some_iff.mp h
    obtain ⟨⟨-, hopen⟩, heq⟩ := Option.ite_none_right_eq_some.mp h
    exact Option.some.inj heq ▸ live_register hs hi hopen (hkeeps r hi)
  | unsubscribe channels => exact Option.some.inj h ▸ live_unsubscribe hs hkeeps
  | publish channel payload => exact Option.some.inj h ▸ live_publish hs channel payload
  | cancel i =>
    obtain ⟨r, hi, rfl⟩ := Option.map_eq_some_iff.mp h
    exact live_put hs hi rfl rfl fun c hmem => absurd hmem (hkeeps c)
  | forward i timestamp =>
    obtain ⟨r, hi, h⟩ := Option.bind_eq_some_iff.mp h
    obtain ⟨msg, -, h⟩ := Option.bind_eq_some_iff.mp h
    obtain ⟨-, heq⟩ := Option.ite_none_right_eq_some.mp h
    exact Option.some.inj heq ▸ live_put hs hi rfl rfl fun _ _ hold =>
      ⟨hold.closed, hold.ctxDone, hold.forwarding⟩
  | stopCancelled i =>
    obtain ⟨r, hi, h⟩ := Option.bind_eq_some_iff.mp h
    obtain ⟨⟨-, hdone⟩, heq⟩ := Option.ite_none_right_eq_some.mp h
    refine Option.some.inj heq ▸ live_put hs hi rfl rfl fun _ _ hold => ?_
    rw [hold.ctxDone] at hdone
    cases hdone
  | stopClosed i =>
    obtain ⟨r, hi, h⟩ := Option.bind_eq_some_iff.mp h
    obtain ⟨⟨-, hclosed, -⟩, heq⟩ := Option.ite_none_right_eq_some.mp h
    refine Option.some.inj heq ▸ live_put hs hi rfl rfl fun _ _ hold => ?_
    rw [hold.closed] at hclosed
    cases hclosed
  | receive i =>
    obtain ⟨r, hi, rfl⟩ := Option.map_eq_some_iff.mp h
    exact live_put hs hi rfl rfl fun _ _ hold => ⟨hold.closed, hold.ctxDone, hold.forwarding⟩

/-- A state with the invariant has a live registry. -/
lemma registryLive_of_live (hs : Live s) : s.RegistryLive := by
  rintro stops t hrun - c i hi r hr
  have hstops : StepsMeet step KeepsLive s (stops.map .stopCancelled) := by
    rintro pre l u u' hpre - -
    have hmem : l ∈ stops.map SubscriptionLabel.stopCancelled := hpre.subset (by simp)
    obtain ⟨j, -, rfl⟩ := List.mem_map.mp hmem
    exact trivial
  obtain ⟨r', hr', hservice⟩ := (invariant_of_stepsMeet live_step hs hstops hrun).inService c i hi
  rw [Option.some.inj (hr.symm.trans hr')]
  exact hservice.closed

/-- A step that does not keep the registry live leaves an object in it that is closed, or whose
goroutine will close it. -/
lemma not_registryLive_of_step {l : SubscriptionLabel} (hs : Live s) (hkeeps : ¬ s.KeepsLive l)
    (h : step s l = some s') : ¬ s'.RegistryLive := by
  cases l with
  | cancel i =>
    obtain ⟨r, hi, rfl⟩ := Option.map_eq_some_iff.mp h
    obtain ⟨c, hmem⟩ := not_forall_not.mp hkeeps
    obtain ⟨r₀, hr₀, hservice⟩ := hs.inService c i hmem
    obtain rfl := Option.some.inj (hi.symm.trans hr₀)
    exact not_registryLive (s := s.put i { r with ctxDone := true }) hmem (opened_put_self hi)
      (Or.inr ⟨hservice.forwarding, rfl⟩)
  | register i =>
    obtain ⟨r, hi, h⟩ := Option.bind_eq_some_iff.mp h
    obtain ⟨-, heq⟩ := Option.ite_none_right_eq_some.mp h
    obtain rfl := Option.some.inj heq
    have hdone : r.ctxDone = true := by
      by_contra hnot
      refine hkeeps fun r₀ hr₀ => ?_
      rw [← Option.some.inj (hi.symm.trans hr₀)]
      simpa using hnot
    obtain ⟨c, hc⟩ := List.exists_mem_of_ne_nil _ (hs.opened i r hi).1
    exact not_registryLive (mem_subs_register.mpr (Or.inr ⟨rfl, hc⟩)) (opened_register_self hi)
      (Or.inr ⟨rfl, hdone⟩)
  | unsubscribe channels =>
    obtain rfl := Option.some.inj h
    simp only [KeepsLive, not_forall] at hkeeps
    obtain ⟨i, ⟨ch, hch, hmem⟩, c, hc, hleft⟩ := hkeeps
    obtain ⟨r, hr, -⟩ := hs.inService c i hc
    obtain ⟨active, hopened⟩ := closed_of_named (s := s.note channels) hch hmem (opened_note hr)
    refine not_registryLive (s := s.unsubscribe channels) (c := c) ?_ hopened (Or.inl rfl)
    rw [subs_unsubscribe, if_neg hleft]
    exact hc
  | _ => exact absurd trivial hkeeps

/-! ### The registry -/

/-- Along a run, once the goroutines whose contexts are done have returned, the registry holds
objects only that are not closed, if and only if no context is cancelled before or while its object
is registered, and every `Unsubscribe` names all channels under which the objects that it closes
are registered. -/
theorem registryLive_iff_keepsLive (ls : List SubscriptionLabel) :
    Always step RegistryLive init ls ↔ StepsMeet step KeepsLive init ls :=
  always_iff_stepsMeet live_step (fun _ => registryLive_of_live)
    (fun _ _ _ hs hkeeps h => not_registryLive_of_step hs hkeeps h) live_init

/-- A subscriber whose context is cancelled, and whose goroutine returns. -/
def cancelled : List SubscriptionLabel :=
  [.open ["a"] true, .register 0, .cancel 0, .stopCancelled 0]

/-- After the context of a subscription was cancelled and its goroutine has returned, the closed
object is still registered. -/
theorem cancelled_object_stays_registered :
    ¬ ∀ (ls : List SubscriptionLabel) (s : RedisSubscriptions),
      runFrom step init ls = some s → s.Settled → s.OnlyLive := by
  intro hall
  obtain ⟨s, hrun, hget, hmem⟩ : ∃ s, runFrom step init cancelled = some s ∧
      s.opened = [⟨["a"], ["a"], true, true, true, false, [], [], []⟩] ∧ 0 ∈ s.subs "a" :=
    ⟨_, rfl, rfl, by decide⟩
  have hsettled : s.Settled := by
    intro i r hi hdone
    rw [hget] at hi
    obtain rfl := List.mem_singleton.mp (List.mem_of_getElem? hi)
    rfl
  have hopen := hall cancelled s hrun hsettled "a" 0 hmem _ (by rw [hget]; rfl)
  cases hopen

end RedisSubscriptions

end Go

end GoyStore
