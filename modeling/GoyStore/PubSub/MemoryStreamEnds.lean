import GoyStore.PubSub.MemoryDelivery

/-!
# The end of a stream of the in-memory pub/sub store

`memoryPubSub` of the Go library takes no notice of the context of a call of `Subscribe`, and its
`Unsubscribe` deletes the registrations of a channel without closing a stream: it leaves that to the
garbage collector.  A consumer that ranges over such a stream waits for ever.

All along a run every stream that has lost its registrations is closed, and none is registered whose
context was done when the last call began, if and only if every `Unsubscribe` leaves every stream a
registration and no call begins while the context of a registered stream is done
(`ended_iff_staysRegistered`).
-/

namespace GoyStore

namespace Go

open Runs

/-- A store with its callers, and the contexts of the calls of `Subscribe`. -/
structure StreamEnds where
  /-- The store and its callers. -/
  delivery : DeliveryState
  /-- The streams that were closed. -/
  closed : Finset ℕ
  /-- The streams whose context is done. -/
  ctxDone : Finset ℕ
  /-- For the statements: the streams whose context was done when the last call began. -/
  doneBefore : Finset ℕ

/-- A step of a caller, or of a context. -/
inductive StreamEndsLabel where
  /-- A step of a caller of the store. -/
  | caller (l : DeliveryLabel)
  /-- The context of the call of `Subscribe` is cancelled that makes, or is going to make, the
  stream `j`. -/
  | cancel (j : ℕ)

/-- The step begins a call of `Subscribe`, `Unsubscribe` or `Publish`. -/
def DeliveryLabel.begins : DeliveryLabel → Bool
  | .subscribe _ => true
  | .unsubscribe _ => true
  | .start .. => true
  | _ => false

namespace StreamEnds

/-- A new store. -/
def init : StreamEnds := ⟨.init, ∅, ∅, ∅⟩

/-- The step function.  No step of the store closes a stream, and none looks at a context. -/
def step (s : StreamEnds) : StreamEndsLabel → Option StreamEnds
  | .caller l =>
    (s.delivery.step l).map fun delivery =>
      { s with delivery, doneBefore := if l.begins then s.ctxDone else s.doneBefore }
  | .cancel j => some { s with ctxDone := insert j s.ctxDone }

/-- The stream is registered under a channel. -/
def Registered (d : DeliveryState) (j : ℕ) : Prop := ∃ c, j ∈ d.store.subscribers c

/-- The channels that the calls of `Subscribe` listed. -/
def requested (d : DeliveryState) : List (List String) := d.streams.map StreamHistory.channels

/-- A stream that is no longer registered is closed, and none is registered whose context was done
when the last call began. -/
structure Ended (s : StreamEnds) : Prop where
  /-- A stream that was registered, and is no longer, is closed. -/
  closed : ∀ (j : ℕ) (channels : List String), (requested s.delivery)[j]? = some channels →
    channels ≠ [] → ¬ Registered s.delivery j → j ∈ s.closed
  /-- No stream is registered whose context was done when the last call began. -/
  cancelled : ∀ j ∈ s.doneBefore, ¬ Registered s.delivery j

/-- No stream is registered whose context is done. -/
def NoneDone (s : StreamEnds) : Prop := ∀ j ∈ s.ctxDone, ¬ Registered s.delivery j

/-- No call begins while the context of a registered stream is done, no `Subscribe` registers a
stream whose context is done, and no `Unsubscribe` takes the last registration of a stream. -/
def StaysRegistered (s : StreamEnds) : StreamEndsLabel → Prop
  | .caller (.subscribe channels) =>
    s.NoneDone ∧ (channels ≠ [] → s.delivery.store.chans.length ∉ s.ctxDone)
  | .caller (.unsubscribe channels) =>
    s.NoneDone ∧
      ∀ j, Registered s.delivery j → ∃ c, c ∉ channels ∧ j ∈ s.delivery.store.subscribers c
  | .caller (.start ..) => s.NoneDone
  | _ => True

/-- What every state of a run has whose steps keep the streams registered. -/
structure Kept (s : StreamEnds) : Prop where
  /-- No stream was closed. -/
  closed : s.closed = ∅
  /-- Every stream has its Go channel. -/
  numbered : (requested s.delivery).length = s.delivery.store.chans.length
  /-- The streams for which channels were listed are registered, and no others. -/
  registered : ∀ j, Registered s.delivery j ↔
    ∃ channels, (requested s.delivery)[j]? = some channels ∧ channels ≠ []
  /-- No stream is registered whose context was done when the last call began. -/
  cancelled : ∀ j ∈ s.doneBefore, ¬ Registered s.delivery j

variable {s s' : StreamEnds} {d d' : DeliveryState} {channels : List String} {j : ℕ}

/-! ### Registrations along a step -/

/-- The registrations after `Subscribe`. -/
lemma registered_subscribe :
    Registered (d.subscribe channels) j ↔
      Registered d j ∨ j = d.store.chans.length ∧ channels ≠ [] := by
  have hmem : ∀ c, j ∈ (d.subscribe channels).store.subscribers c ↔
      j ∈ d.store.subscribers c ∨ j = d.store.chans.length ∧ c ∈ channels :=
    fun c => d.store.mem_subscribers_subscribe channels c j
  have hlisted : (∃ c, c ∈ channels) ↔ channels ≠ [] := by
    constructor
    · rintro ⟨c, hc⟩
      exact List.ne_nil_of_mem hc
    · exact List.exists_mem_of_ne_nil channels
  unfold Registered
  rw [exists_congr hmem, exists_or, exists_and_left, hlisted]

/-- The registrations after `Unsubscribe`. -/
lemma registered_unsubscribe :
    Registered (d.unsubscribe channels) j ↔ ∃ c, c ∉ channels ∧ j ∈ d.store.subscribers c := by
  have hsubs : ∀ c, (d.unsubscribe channels).store.subscribers c =
      if c ∈ channels then ∅ else d.store.subscribers c :=
    fun c => d.store.subscribers_unsubscribe channels c
  refine exists_congr fun c => ?_
  rw [hsubs]
  split_ifs with hc
  · simp [hc]
  · simp [hc]

/-- A change of a history that keeps its channels keeps the list of them. -/
lemma requested_modify {i : ℕ} {f : StreamHistory → StreamHistory}
    (hstreams : d'.streams = d.streams.modify i f) (hf : ∀ h, (f h).channels = h.channels) :
    requested d' = requested d := by
  unfold requested
  rw [hstreams]
  ext1 k
  rw [List.getElem?_map, List.getElem?_map, List.getElem?_modify]
  cases d.streams[k]? with
  | none => rfl
  | some h =>
    by_cases hik : i = k
    · simp [hik, hf h]
    · simp [hik]

/-! ### Steps that keep the streams registered -/

/-- Nothing is subscribed yet. -/
lemma kept_init : Kept init where
  closed := rfl
  numbered := rfl
  registered j := by
    constructor
    · rintro ⟨c, hj⟩
      exact absurd hj (Finset.notMem_empty j)
    · rintro ⟨channels, hj, -⟩
      cases hj
  cancelled j hj := absurd hj (Finset.notMem_empty j)

/-- A stream is subscribed whose context is not done. -/
lemma kept_subscribe (hs : Kept s) (hnone : s.NoneDone)
    (hnew : channels ≠ [] → s.delivery.store.chans.length ∉ s.ctxDone) :
    Kept { s with delivery := s.delivery.subscribe channels, doneBefore := s.ctxDone } := by
  have hrequested : requested (s.delivery.subscribe channels) =
      requested s.delivery ++ [channels] := List.map_append
  refine ⟨hs.closed, ?_, fun j => ?_, fun j hdone hregistered => ?_⟩
  · have hchans : (s.delivery.subscribe channels).store.chans.length =
        s.delivery.store.chans.length + 1 := List.length_append
    rw [hrequested, List.length_append, hs.numbered, hchans]
    rfl
  · rw [registered_subscribe, hrequested, hs.registered j, ← hs.numbered, List.getElem?_append]
    split_ifs with hold
    · have hne : j ≠ (requested s.delivery).length := Nat.ne_of_lt hold
      simp [hne]
    · have hnone : (requested s.delivery)[j]? = none := by simpa using hold
      rw [hnone]
      by_cases heq : j = (requested s.delivery).length
      · simp [heq]
      · have hpos : j - (requested s.delivery).length ≠ 0 := by omega
        simp [heq, hpos]
  · rcases registered_subscribe.mp hregistered with hold | ⟨rfl, hchannels⟩
    · exact hnone j hdone hold
    · exact hnew hchannels hdone

/-- Channels are unsubscribed that are not the last ones of a stream. -/
lemma kept_unsubscribe (hs : Kept s) (hnone : s.NoneDone)
    (hleft : ∀ j, Registered s.delivery j → Registered (s.delivery.unsubscribe channels) j) :
    Kept { s with delivery := s.delivery.unsubscribe channels, doneBefore := s.ctxDone } := by
  have hrequested : requested (s.delivery.unsubscribe channels) = requested s.delivery :=
    List.map_map
  have hregistered : ∀ j, Registered (s.delivery.unsubscribe channels) j ↔
      Registered s.delivery j := by
    refine fun j => ⟨fun hj => ?_, hleft j⟩
    obtain ⟨c, -, hc⟩ := registered_unsubscribe.mp hj
    exact ⟨c, hc⟩
  refine ⟨hs.closed, hrequested ▸ hs.numbered, fun j => ?_, fun j hdone hreg => ?_⟩
  · rw [hregistered j, hrequested]
    exact hs.registered j
  · exact hnone j hdone ((hregistered j).mp hreg)

/-- A step that leaves the registrations and the streams as they are. -/
lemma kept_frame (hs : Kept s) {doneBefore : Finset ℕ}
    (hsubs : d'.store.subscribers = s.delivery.store.subscribers)
    (hlength : d'.store.chans.length = s.delivery.store.chans.length)
    (hrequested : requested d' = requested s.delivery)
    (hdone : ∀ j ∈ doneBefore, ¬ Registered s.delivery j) :
    Kept { s with delivery := d', doneBefore := doneBefore } := by
  have hregistered : ∀ j, Registered d' j ↔ Registered s.delivery j := by
    intro j
    unfold Registered
    rw [hsubs]
  refine ⟨hs.closed, ?_, fun j => ?_, fun j hj hreg => ?_⟩
  · rw [hrequested, hlength]
    exact hs.numbered
  · rw [hregistered j, hrequested]
    exact hs.registered j
  · exact hdone j hj ((hregistered j).mp hreg)

/-- A step that keeps the streams registered keeps the invariant. -/
lemma kept_step (s : StreamEnds) (l : StreamEndsLabel) (s' : StreamEnds) (hs : Kept s)
    (hstays : s.StaysRegistered l) (h : step s l = some s') : Kept s' := by
  cases l with
  | cancel j =>
    obtain rfl := Option.some.inj h
    exact ⟨hs.closed, hs.numbered, hs.registered, hs.cancelled⟩
  | caller l =>
    obtain ⟨d', hstep, rfl⟩ := Option.map_eq_some_iff.mp h
    cases DeliveryState.moves_of_step hstep with
    | subscribe channels => exact kept_subscribe hs hstays.1 hstays.2
    | unsubscribe channels =>
      exact kept_unsubscribe hs hstays.1 fun j hj => registered_unsubscribe.mpr (hstays.2 j hj)
    | start publisher msg => exact kept_frame hs rfl rfl rfl hstays
    | send hk hj hpending =>
      exact kept_frame hs rfl (List.length_modify ..) (requested_modify rfl fun _ => rfl)
        hs.cancelled
    | finish hk hpending => exact kept_frame hs rfl rfl rfl hs.cancelled
    | receive hj =>
      exact kept_frame hs rfl (List.length_modify ..) (requested_modify rfl fun _ => rfl)
        hs.cancelled

/-- With the invariant no stream has to be closed, and none to be unregistered. -/
lemma ended_of_kept (hs : Kept s) : s.Ended where
  closed j channels hj hchannels hnot :=
    absurd ((hs.registered j).mpr ⟨channels, hj, hchannels⟩) hnot
  cancelled := hs.cancelled

/-- A call that begins while the context of a registered stream is done, and leaves it registered,
leaves a stream that has not ended. -/
lemma not_ended_of_done (hdone : s.doneBefore = s.ctxDone) (hnone : ¬ s.NoneDone) : ¬ s.Ended := by
  intro hended
  refine hnone fun j hj => hended.cancelled j ?_
  rw [hdone]
  exact hj

/-- An `Unsubscribe` that takes the last registration of a stream leaves it unclosed. -/
lemma not_ended_of_unsubscribe (hs : Kept s) (hj : Registered s.delivery j)
    (hnot : ¬ Registered (s.delivery.unsubscribe channels) j) :
    ¬ Ended { s with delivery := s.delivery.unsubscribe channels, doneBefore := s.ctxDone } := by
  intro hended
  have hrequested : requested (s.delivery.unsubscribe channels) = requested s.delivery :=
    List.map_map
  obtain ⟨listed, hlisted, hne⟩ := (hs.registered j).mp hj
  have hclosed : j ∈ s.closed := hended.closed j listed (hrequested ▸ hlisted) hne hnot
  rw [hs.closed] at hclosed
  exact Finset.notMem_empty j hclosed

/-- A step that does not keep the streams registered leaves one that has not ended. -/
lemma not_ended_of_step {l : StreamEndsLabel} (hs : Kept s) (hstays : ¬ s.StaysRegistered l)
    (h : step s l = some s') : ¬ s'.Ended := by
  cases l with
  | cancel j => exact absurd trivial hstays
  | caller l =>
    obtain ⟨d', hstep, rfl⟩ := Option.map_eq_some_iff.mp h
    cases DeliveryState.moves_of_step hstep with
    | subscribe channels =>
      refine not_ended_of_done rfl fun hnone => hstays ⟨fun j hj hold => ?_, fun hne hj => ?_⟩
      · exact hnone j hj (registered_subscribe.mpr (Or.inl hold))
      · exact hnone _ hj (registered_subscribe.mpr (Or.inr ⟨rfl, hne⟩))
    | unsubscribe channels =>
      by_cases hleft : ∀ j, Registered s.delivery j →
        Registered (s.delivery.unsubscribe channels) j
      · refine not_ended_of_done rfl fun hnone => hstays ⟨fun j hj hold => ?_, fun j hj => ?_⟩
        · exact hnone j hj (hleft j hold)
        · exact registered_unsubscribe.mp (hleft j hj)
      · simp only [not_forall] at hleft
        obtain ⟨j, hj, hnot⟩ := hleft
        exact not_ended_of_unsubscribe hs hj hnot
    | start publisher msg => exact not_ended_of_done rfl hstays
    | _ => exact absurd trivial hstays

/-! ### The end of the streams -/

/-- Along a run every stream that has lost its registrations is closed, and none is registered whose
context was done when the last call began, if and only if no `Unsubscribe` takes the last
registration of a stream and no call begins while the context of a registered stream is done. -/
theorem ended_iff_staysRegistered (ls : List StreamEndsLabel) :
    Always step Ended init ls ↔ StepsMeet step StaysRegistered init ls :=
  always_iff_stepsMeet kept_step (fun _ => ended_of_kept)
    (fun _ _ _ hs hstays h => not_ended_of_step hs hstays h) kept_init

/-- After `Unsubscribe` the stream is registered no longer, and not closed. -/
theorem unsubscribed_stream_not_closed :
    ¬ ∀ (ls : List StreamEndsLabel) (s : StreamEnds), runFrom step init ls = some s → s.Ended := by
  intro hall
  have hended := hall [.caller (.subscribe ["a"]), .caller (.unsubscribe ["a"])] _ rfl
  refine Finset.notMem_empty 0 (hended.closed 0 ["a"] rfl (List.cons_ne_nil _ _) fun hreg => ?_)
  obtain ⟨c, hother, hc⟩ := registered_unsubscribe.mp hreg
  rcases (DeliveryState.init.store.mem_subscribers_subscribe ["a"] c 0).mp hc with hold | ⟨-, ha⟩
  · exact Finset.notMem_empty 0 hold
  · exact hother ha

end StreamEnds

end Go

end GoyStore
