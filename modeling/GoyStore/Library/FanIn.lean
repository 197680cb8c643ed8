import GoyStore.Library.Runs
import Mathlib.Data.List.Nodup
import Mathlib.Data.List.Perm.Subperm
import Mathlib.Logic.Function.Basic

/-!
# Tasks that answer a collector

A collector starts one task for each of its sources.  A task asks its source, writes what it got
into a state that all of them share, and sends a reply into a channel with room for `capacity`
replies.  The collector takes one reply for each source out of the channel, in the order in which
they come, and folds them into its result.

When the replies and the notes of different sources commute, the result does not depend on the
order of the steps: it is the fold over the sources in a fixed order (`Sound.result_eq`).  A channel
with room for all the replies never blocks a task (`Sound.isSome_send`), the collector never waits
for a reply that does not come (`Sound.exists_step`), and a step is one of the few that it and the
tasks make (`toCome_of_step`).
-/

namespace FanIn

open Runs

variable {ι R M T β : Type}

/-! ### Folds over sources in any order -/

/-- The steps of a fold commute for different sources. -/
def Commutes (f : β → ι × R → β) : Prop :=
  ∀ b x y, x.1 ≠ y.1 → f (f b x) y = f (f b y) x

/-- A fold whose steps commute gives the same for every order of its sources. -/
lemma Commutes.foldl_eq {f : β → ι × R → β} (hf : Commutes f) {xs ys : List (ι × R)}
    (hxs : (xs.map Prod.fst).Nodup) (h : xs.Perm ys) (b : β) : xs.foldl f b = ys.foldl f b := by
  refine h.foldl_eq' (fun x hx y hy b => ?_) b
  by_cases hxy : x.1 = y.1
  · rw [List.inj_on_of_nodup_map hxs hx hy hxy]
  · exact hf b x y hxy

/-- What the sources have answered, in the order of the sources. -/
def inOrder (sources : List ι) (results : ι → R) : List (ι × R) :=
  sources.map fun i => (i, results i)

/-- Answers of all sources are the answers in the order of the sources, in another order. -/
lemma perm_inOrder {sources : List ι} (hnodup : sources.Nodup) (hall : ∀ i, i ∈ sources)
    {results : ι → R} {xs : List (ι × R)} (hxs : (xs.map Prod.fst).Nodup)
    (hmem : ∀ x, x ∈ xs ↔ results x.1 = x.2) : xs.Perm (inOrder sources results) := by
  have hinj : Function.Injective fun i => (i, results i) := fun i j h => congrArg Prod.fst h
  refine (List.perm_ext_iff_of_nodup hxs.of_map (hnodup.map hinj)).mpr fun x => ?_
  rw [hmem, List.mem_map]
  refine ⟨fun h => ⟨x.1, hall x.1, Prod.ext rfl h⟩, ?_⟩
  rintro ⟨i, -, rfl⟩
  rfl

/-! ### Tasks that ask -/

/-- Tasks that ask their sources. -/
structure Asking (ι R M : Type) where
  /-- The shared state. -/
  shared : M
  /-- What the sources have answered. -/
  answer : ι → Option R

namespace Asking

/-- No source has answered. -/
def start (m : M) : Asking ι R M := ⟨m, fun _ => none⟩

/-- The source `x.1` answers with `x.2`. -/
def step [DecidableEq ι] (note : M → ι × R → M) (s : Asking ι R M) (x : ι × R) :
    Option (Asking ι R M) :=
  if (s.answer x.1).isSome then none
  else some ⟨note s.shared x, Function.update s.answer x.1 (some x.2)⟩

/-- What a step does. -/
lemma step_eq_some_iff [DecidableEq ι] {note : M → ι × R → M} {s s' : Asking ι R M} {x : ι × R} :
    s.step note x = some s' ↔ s.answer x.1 = none ∧
      s' = ⟨note s.shared x, Function.update s.answer x.1 (some x.2)⟩ := by
  rw [step]
  split_ifs with h
  · constructor
    · intro hsome
      cases hsome
    · rintro ⟨hnone, -⟩
      rw [hnone] at h
      cases h
  · rw [Option.not_isSome_iff_eq_none] at h
    simp [h, eq_comm]

/-- The answers so far, in the order in which they came. -/
structure Noted (note : M → ι × R → M) (m : M) (s : Asking ι R M) (answered : List (ι × R)) :
    Prop where
  /-- One answer for each source. -/
  nodup : (answered.map Prod.fst).Nodup
  /-- They are the answers that the tasks have. -/
  mem_iff : ∀ x, x ∈ answered ↔ s.answer x.1 = some x.2
  /-- The shared state has them all. -/
  shared : s.shared = answered.foldl note m

variable {note : M → ι × R → M} {m : M} {s s' : Asking ι R M} {answered : List (ι × R)}

/-- Before the first answer. -/
lemma Noted.start (note : M → ι × R → M) (m : M) : (Asking.start m).Noted note m [] := by
  refine ⟨List.nodup_nil, fun x => ?_, rfl⟩
  simp [Asking.start]

/-- One more answer. -/
lemma Noted.step [DecidableEq ι] (h : s.Noted note m answered) {x : ι × R}
    (hstep : s.step note x = some s') : s'.Noted note m (answered ++ [x]) := by
  obtain ⟨hnone, rfl⟩ := step_eq_some_iff.mp hstep
  refine ⟨?_, fun y => ?_, ?_⟩
  · rw [List.map_append, List.nodup_append]
    refine ⟨h.nodup, List.nodup_singleton _, ?_⟩
    rintro i hi j hj rfl
    obtain ⟨y, hy, rfl⟩ := List.mem_map.mp hi
    have hyx : y.1 = x.1 := by simpa using hj
    have hsome := (h.mem_iff y).mp hy
    rw [hyx, hnone] at hsome
    cases hsome
  · rw [List.mem_append, List.mem_singleton, h.mem_iff]
    by_cases hyx : y.1 = x.1
    · simp [hyx, hnone, Prod.ext_iff, eq_comm]
    · have hne : y ≠ x := fun hy => hyx (congrArg Prod.fst hy)
      simp [Function.update_of_ne hyx, hne]
  · rw [List.foldl_append, ← h.shared]
    rfl

/-- When every source has answered, the shared state is the same for every order of the answers. -/
theorem Noted.shared_eq (h : s.Noted note m answered) (hnote : Commutes note) {sources : List ι}
    (hnodup : sources.Nodup) (hall : ∀ i, i ∈ sources) {results : ι → R}
    (hresults : ∀ i, s.answer i = some (results i)) :
    s.shared = (inOrder sources results).foldl note m := by
  rw [h.shared]
  refine hnote.foldl_eq h.nodup (perm_inOrder hnodup hall h.nodup fun x => ?_) m
  rw [h.mem_iff, hresults, Option.some_inj]

end Asking

/-! ### Tasks that send -/

/-- What the tasks and the collector do with an answer. -/
structure Collector (ι R M T β : Type) where
  /-- What a task writes into the shared state. -/
  note : M → ι × R → M
  /-- What it sends. -/
  reply : ι × R → T
  /-- How many replies the channel has room for. -/
  capacity : ℕ
  /-- What the collector does with a reply. -/
  collect : β → T → β

/-- The tasks, the channel and the collector. -/
structure Gathering (ι R M T β : Type) where
  /-- The tasks and what they share. -/
  asking : Asking ι R M
  /-- Whether a task has sent its reply. -/
  sent : ι → Bool
  /-- The replies in the channel, the oldest first. -/
  channel : List T
  /-- How many replies the collector still takes. -/
  left : ℕ
  /-- Its result so far. -/
  result : β

/-- A step of a task or of the collector. -/
inductive GatheringLabel (ι R : Type) where
  /-- The source of a task answers. -/
  | answer (x : ι × R)
  /-- A task sends its reply. -/
  | send (i : ι)
  /-- The collector takes a reply. -/
  | receive

namespace Gathering

/-- The collector has started the tasks. -/
def start (sources : List ι) (m : M) (b : β) : Gathering ι R M T β :=
  ⟨.start m, fun _ => false, [], sources.length, b⟩

variable [DecidableEq ι] (C : Collector ι R M T β)

/-- The task of `i` sends the reply for its answer `r`, when the channel has room. -/
def sendReply (s : Gathering ι R M T β) (i : ι) (r : R) : Option (Gathering ι R M T β) :=
  if s.channel.length < C.capacity then
    some { s with
      sent := Function.update s.sent i true
      channel := s.channel ++ [C.reply (i, r)] }
  else none

/-- The collector takes the oldest reply. -/
def receive (s : Gathering ι R M T β) : Option (Gathering ι R M T β) :=
  match s.left, s.channel with
  | n + 1, x :: rest =>
    some { s with
      channel := rest
      left := n
      result := C.collect s.result x }
  | _, _ => none

/-- One step. -/
def step (s : Gathering ι R M T β) : GatheringLabel ι R → Option (Gathering ι R M T β)
  | .answer x => (s.asking.step C.note x).map fun asking => { s with asking }
  | .send i =>
    if s.sent i then none
    else (s.asking.answer i).bind (s.sendReply C i)
  | .receive => s.receive C

/-- The answers whose replies the collector has taken, and those whose replies are in the
channel. -/
structure Sound (sources : List ι) (m : M) (b : β) (s : Gathering ι R M T β)
    (received pending : List (ι × R)) : Prop where
  /-- One reply for each source. -/
  nodup : ((received ++ pending).map Prod.fst).Nodup
  /-- They are the answers whose replies were sent. -/
  mem_iff : ∀ x, x ∈ received ++ pending ↔ s.asking.answer x.1 = some x.2 ∧ s.sent x.1 = true
  /-- The channel has the replies to come. -/
  channel : s.channel = pending.map C.reply
  /-- The collector takes one for each source. -/
  left : s.left + received.length = sources.length
  /-- Its result has the replies that it took. -/
  result : s.result = (received.map C.reply).foldl C.collect b
  /-- A task that has sent its reply has an answer. -/
  isSome_answer : ∀ i, s.sent i = true → (s.asking.answer i).isSome
  /-- What the tasks have noted. -/
  noted : ∃ answered, s.asking.Noted C.note m answered

variable {C} {sources : List ι} {m : M} {b : β} {s s' : Gathering ι R M T β}
  {received pending : List (ι × R)}

omit [DecidableEq ι] in
/-- At the start. -/
lemma Sound.start (C : Collector ι R M T β) (sources : List ι) (m : M) (b : β) :
    (Gathering.start sources m b).Sound C sources m b [] [] := by
  refine ⟨List.nodup_nil, fun x => ?_, rfl, rfl, rfl, fun i hi => ?_, [], .start C.note m⟩
  · simp [Gathering.start]
  · cases hi

/-- A source answers. -/
lemma Sound.answer (h : s.Sound C sources m b received pending) {x : ι × R}
    {asking : Asking ι R M} (hstep : s.asking.step C.note x = some asking) :
    { s with asking }.Sound C sources m b received pending := by
  obtain ⟨answered, hnoted⟩ := h.noted
  obtain ⟨hnone, hasking⟩ := Asking.step_eq_some_iff.mp hstep
  -- a task that has sent its reply is not the one that gets its answer now
  have hkeep : ∀ i, s.sent i = true → asking.answer i = s.asking.answer i := by
    intro i hi
    have hne : i ≠ x.1 := by
      rintro rfl
      have hsome := h.isSome_answer _ hi
      rw [hnone] at hsome
      cases hsome
    rw [hasking]
    exact Function.update_of_ne hne _ _
  refine ⟨h.nodup, fun y => ?_, h.channel, h.left, h.result, fun i hi => ?_, _, hnoted.step hstep⟩
  · rw [h.mem_iff]
    exact and_congr_left fun hy => by rw [hkeep _ hy]
  · rw [hkeep i hi]
    exact h.isSome_answer i hi

/-- A task sends its reply. -/
lemma Sound.send (h : s.Sound C sources m b received pending) {i : ι} {r : R}
    (hanswer : s.asking.answer i = some r) (hsent : s.sent i = false) :
    { s with
      sent := Function.update s.sent i true
      channel := s.channel ++ [C.reply (i, r)] }.Sound C sources m b received
        (pending ++ [(i, r)]) := by
  have hnew : ∀ y ∈ received ++ pending, y.1 ≠ i := by
    rintro y hy rfl
    have hy' := ((h.mem_iff y).mp hy).2
    rw [hsent] at hy'
    cases hy'
  refine ⟨?_, fun y => ?_, ?_, h.left, h.result, fun j hj => ?_, h.noted⟩
  · rw [← List.append_assoc, List.map_append, List.nodup_append]
    refine ⟨h.nodup, List.nodup_singleton _, ?_⟩
    rintro j hj k hk rfl
    obtain ⟨y, hy, rfl⟩ := List.mem_map.mp hj
    exact hnew y hy (by simpa using hk)
  · rw [← List.append_assoc, List.mem_append, List.mem_singleton, h.mem_iff]
    by_cases hy : y.1 = i
    · simp [hy, hsent, hanswer, Prod.ext_iff, eq_comm]
    · have hne : y ≠ (i, r) := fun hyi => hy (congrArg Prod.fst hyi)
      simp [Function.update_of_ne hy, hne]
  · rw [List.map_append, ← h.channel]
    rfl
  · by_cases hji : j = i
    · rw [hji, hanswer]
      rfl
    · have hj' : Function.update s.sent i true j = true := hj
      rw [Function.update_of_ne hji] at hj'
      exact h.isSome_answer j hj'

omit [DecidableEq ι] in
/-- The collector takes the reply `x`. -/
lemma Sound.receive {x : ι × R} (h : s.Sound C sources m b received (x :: pending)) {n : ℕ}
    (hleft : s.left = n + 1) :
    { s with
      channel := pending.map C.reply
      left := n
      result := C.collect s.result (C.reply x) }.Sound C sources m b (received ++ [x])
        pending := by
  have hsame : received ++ [x] ++ pending = received ++ x :: pending := by simp
  have hcount : n + (received ++ [x]).length = sources.length := by
    have hbefore := h.left
    rw [List.length_append, List.length_singleton]
    omega
  refine ⟨hsame ▸ h.nodup, hsame ▸ h.mem_iff, rfl, hcount, ?_, h.isSome_answer, h.noted⟩
  rw [List.map_append, List.foldl_append, ← h.result]
  rfl

/-- A step keeps the collector sound. -/
theorem Sound.step (h : s.Sound C sources m b received pending) {l : GatheringLabel ι R}
    (hstep : s.step C l = some s') :
    ∃ received' pending', s'.Sound C sources m b received' pending' := by
  cases l with
  | answer x =>
    obtain ⟨asking, hasking, rfl⟩ := Option.map_eq_some_iff.mp hstep
    exact ⟨received, pending, h.answer hasking⟩
  | send i =>
    rw [Gathering.step] at hstep
    split_ifs at hstep with hsent
    rw [Bool.not_eq_true] at hsent
    obtain ⟨r, hanswer, hsend⟩ := Option.bind_eq_some_iff.mp hstep
    rw [sendReply] at hsend
    split_ifs at hsend
    obtain rfl := Option.some.inj hsend
    exact ⟨received, _, h.send hanswer hsent⟩
  | receive =>
    rw [Gathering.step, Gathering.receive, h.channel] at hstep
    cases pending with
    | nil =>
      split at hstep
      · rename_i hnil
        cases hnil
      · cases hstep
    | cons x pending =>
      cases hleft : s.left with
      | zero =>
        rw [hleft] at hstep
        cases hstep
      | succ n =>
        rw [hleft] at hstep
        obtain rfl := Option.some.inj hstep
        exact ⟨_, pending, h.receive hleft⟩

/-- Every run keeps the collector sound. -/
theorem sound_of_runFrom (C : Collector ι R M T β) (sources : List ι) (m : M) (b : β)
    {ls : List (GatheringLabel ι R)}
    (h : runFrom (Gathering.step C) (.start sources m b) ls = some s) :
    ∃ received pending, s.Sound C sources m b received pending := by
  refine invariant_of_runFrom
    (I := fun s : Gathering ι R M T β => ∃ received pending, s.Sound C sources m b received pending)
    ?_ ⟨[], [], .start C sources m b⟩ h
  rintro s l s' ⟨received, pending, hsound⟩ hstep
  exact hsound.step hstep

omit [DecidableEq ι] in
/-- A collector that has returned has folded the replies of all sources, and every source has
answered: the result and the shared state do not depend on the order of the steps. -/
theorem Sound.result_eq (h : s.Sound C sources m b received pending) (hnodup : sources.Nodup)
    (hall : ∀ i, i ∈ sources) (hnote : Commutes C.note)
    (hcollect : Commutes fun acc x => C.collect acc (C.reply x)) (hleft : s.left = 0) :
    ∃ results : ι → R, (∀ i, s.asking.answer i = some (results i)) ∧
      s.result = (inOrder sources results).foldl (fun acc x => C.collect acc (C.reply x)) b ∧
      s.asking.shared = (inOrder sources results).foldl C.note m := by
  have hlength : received.length = sources.length := by
    have hcount := h.left
    rw [hleft] at hcount
    omega
  have hreceived : (received.map Prod.fst).Nodup := by
    have hboth := h.nodup
    rw [List.map_append] at hboth
    exact hboth.of_append_left
  -- as many replies as sources: every source has one
  have hperm : (received.map Prod.fst).Perm sources := by
    refine (hreceived.subperm fun i _ => hall i).perm_of_length_le ?_
    rw [List.length_map, hlength]
  have hsome : ∀ i, ∃ r, (i, r) ∈ received := by
    intro i
    obtain ⟨x, hx, rfl⟩ := List.mem_map.mp (hperm.mem_iff.mpr (hall i))
    exact ⟨x.2, hx⟩
  choose results hresults using hsome
  have hanswer : ∀ i, s.asking.answer i = some (results i) := fun i =>
    ((h.mem_iff _).mp (List.mem_append_left _ (hresults i))).1
  refine ⟨results, hanswer, ?_, ?_⟩
  · rw [h.result, List.foldl_map]
    refine hcollect.foldl_eq hreceived (perm_inOrder hnodup hall hreceived fun x => ?_) b
    refine ⟨fun hx => ?_, fun hx => ?_⟩
    · have hx' := ((h.mem_iff x).mp (List.mem_append_left _ hx)).1
      rw [hanswer] at hx'
      exact Option.some.inj hx'
    · have hx' : x = (x.1, results x.1) := Prod.ext rfl hx.symm
      rw [hx']
      exact hresults x.1
  · obtain ⟨answered, hnoted⟩ := h.noted
    exact hnoted.shared_eq hnote hnodup hall hanswer

/-- With room for all the replies, a task that has its answer can send its reply. -/
theorem Sound.isSome_send (h : s.Sound C sources m b received pending) (hall : ∀ i, i ∈ sources)
    (hcapacity : sources.length ≤ C.capacity) {i : ι} (hanswer : (s.asking.answer i).isSome)
    (hsent : s.sent i = false) : (s.step C (.send i)).isSome := by
  obtain ⟨r, hr⟩ := Option.isSome_iff_exists.mp hanswer
  have hnew : i ∉ (received ++ pending).map Prod.fst := by
    intro hi
    obtain ⟨y, hy, rfl⟩ := List.mem_map.mp hi
    have hy' := ((h.mem_iff y).mp hy).2
    rw [hsent] at hy'
    cases hy'
  have hlength : ((i :: (received ++ pending).map Prod.fst)).length ≤ sources.length :=
    ((List.nodup_cons.mpr ⟨hnew, h.nodup⟩).subperm fun j _ => hall j).length_le
  have hroom : s.channel.length < C.capacity := by
    rw [h.channel, List.length_map]
    simp only [List.length_cons, List.length_map, List.length_append] at hlength
    omega
  rw [Gathering.step, hsent, hr]
  simp [sendReply, hroom]

/-- While the collector waits, a source has not answered, a task can send or a reply is there. -/
theorem Sound.exists_step (h : s.Sound C sources m b received pending) (hnodup : sources.Nodup)
    (hall : ∀ i, i ∈ sources) (hcapacity : sources.length ≤ C.capacity) (hleft : s.left ≠ 0) :
    (∃ i, s.asking.answer i = none) ∨ (∃ i, (s.step C (.send i)).isSome) ∨
      (s.step C .receive).isSome := by
  cases pending with
  | cons x pending =>
    refine .inr (.inr ?_)
    obtain ⟨n, hn⟩ := Nat.exists_eq_succ_of_ne_zero hleft
    rw [Gathering.step, Gathering.receive, h.channel, hn]
    rfl
  | nil =>
    by_cases hwaiting : ∃ i, s.asking.answer i = none
    · exact .inl hwaiting
    · refine .inr (.inl ?_)
      -- fewer replies than sources: one of them is still to be sent
      have hfewer : received.length < sources.length := by
        have hcount := h.left
        omega
      have hunsent : ∃ i, s.sent i = false := by
        by_contra hno
        have hsubset : sources ⊆ received.map Prod.fst := by
          intro i _
          obtain ⟨r, hr⟩ := Option.ne_none_iff_exists'.mp fun hnone => hwaiting ⟨i, hnone⟩
          have hsent : s.sent i = true := by
            rw [← Bool.not_eq_false]
            exact fun hi => hno ⟨i, hi⟩
          have hmem := (h.mem_iff (i, r)).mpr ⟨hr, hsent⟩
          rw [List.append_nil] at hmem
          exact List.mem_map_of_mem hmem
        have hlength := (hnodup.subperm hsubset).length_le
        rw [List.length_map] at hlength
        omega
      obtain ⟨i, hi⟩ := hunsent
      refine ⟨i, h.isSome_send hall hcapacity ?_ hi⟩
      exact Option.isSome_iff_ne_none.mpr fun hnone => hwaiting ⟨i, hnone⟩

/-! ### Every run ends -/

/-- How many steps the tasks and the collector still make. -/
def toCome (sources : List ι) (s : Gathering ι R M T β) : ℕ :=
  sources.countP (fun i => (s.asking.answer i).isNone) + sources.countP (fun i => !s.sent i) +
    s.left

omit [DecidableEq ι] in
/-- A source that switches from `p` to not `q` is one less. -/
lemma countP_eq_add_one {p q : ι → Bool} {i : ι} (hnodup : sources.Nodup) (hi : i ∈ sources)
    (hp : p i = true) (hq : q i = false) (hsame : ∀ j, j ≠ i → p j = q j) :
    sources.countP p = sources.countP q + 1 := by
  induction sources with
  | nil => cases hi
  | cons j sources ih =>
    obtain ⟨hj, hrest⟩ := List.nodup_cons.mp hnodup
    by_cases hji : j = i
    · subst hji
      have hcongr : sources.countP p = sources.countP q := by
        refine List.countP_congr fun k hk => ?_
        rw [hsame k fun hkj => hj (hkj ▸ hk)]
      rw [List.countP_cons_of_pos hp, List.countP_cons_of_neg (by simp [hq]), hcongr]
    · have htail := ih hrest ((List.mem_cons.mp hi).resolve_left fun h => hji h.symm)
      rw [List.countP_cons, List.countP_cons, htail, hsame j hji]
      omega

/-- A step is one of the steps to come. -/
theorem toCome_of_step (hnodup : sources.Nodup) (hall : ∀ i, i ∈ sources) {l : GatheringLabel ι R}
    (h : s.step C l = some s') : toCome sources s = toCome sources s' + 1 := by
  cases l with
  | answer x =>
    obtain ⟨asking, hasking, rfl⟩ := Option.map_eq_some_iff.mp h
    obtain ⟨hnone, rfl⟩ := Asking.step_eq_some_iff.mp hasking
    have hone : sources.countP (fun i => (s.asking.answer i).isNone) = sources.countP
        (fun i => (Function.update s.asking.answer x.1 (some x.2) i).isNone) + 1 := by
      refine countP_eq_add_one hnodup (hall x.1) ?_ ?_ fun j hj => ?_
      · rw [hnone]
        rfl
      · rw [Function.update_self]
        rfl
      · rw [Function.update_of_ne hj]
    simp only [toCome, hone]
    omega
  | send i =>
    rw [Gathering.step] at h
    split_ifs at h with hsent
    obtain ⟨r, -, hsend⟩ := Option.bind_eq_some_iff.mp h
    rw [sendReply] at hsend
    split_ifs at hsend
    obtain rfl := Option.some.inj hsend
    have hone : sources.countP (fun j => !s.sent j) =
        sources.countP (fun j => !Function.update s.sent i true j) + 1 := by
      refine countP_eq_add_one hnodup (hall i) ?_ ?_ fun j hj => ?_
      · simpa using hsent
      · rw [Function.update_self]
        rfl
      · rw [Function.update_of_ne hj]
    simp only [toCome, hone]
    omega
  | receive =>
    rw [Gathering.step, Gathering.receive] at h
    split at h
    · rename_i n x rest hleft _
      obtain rfl := Option.some.inj h
      simp only [toCome, hleft]
      omega
    · cases h

end Gathering

end FanIn
