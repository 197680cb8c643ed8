import GoyStore.Library.Runs

/-!
# Values behind references

A store is given references to cells that its callers can still change.  `Memory` says how such
references work, `Blind` that the operations of a store move the values that they are given about
and never look into them, so that the store can be run on references as well as on values.

A store that shares keeps the references that it is given and hands out the ones that it keeps; a
store that copies keeps and hands out references to new cells only.  Any number of callers make
calls, change the cells that they know and make new ones.  Compared with the store of the values
themselves, a store that shares holds and answers the same in a run if and only if no step of it
changes a value that the store holds (`always_faithful_iff`), and a store that copies does in every
run (`always_faithful`).
-/

namespace SharedCells

open Runs

/-! ### References and stores -/

/-- References in `ρ` to numbered cells with contents in `γ`, which show values in `ν` and which
edits in `ω` change. -/
structure Memory (γ ω ρ ν : Type) where
  /-- The cell of a reference. -/
  cell : ρ → ℕ
  /-- What a reference shows of its cell. -/
  view : ρ → γ → ν
  /-- What an edit does to a cell. -/
  edit : ω → γ → γ
  /-- The contents of a new cell for a value. -/
  fresh : ν → γ
  /-- The reference to the whole of a new cell. -/
  whole : ℕ → ν → ρ
  /-- It is a reference to that cell. -/
  cell_whole : ∀ n v, cell (whole n v) = n
  /-- It shows the value. -/
  view_whole : ∀ n v, view (whole n v) (fresh v) = v

/-- A store whose operations never look into the values that they are given.  An operation is given
at most one value, and an answer has at most one. -/
structure Blind (State Op Ans : Type → Type) where
  /-- What an operation does. -/
  perform : ∀ {V : Type}, Op V → State V → State V × Ans V
  /-- Replace the values that the store holds. -/
  mapState : ∀ {V W : Type}, (V → W) → State V → State W
  /-- Replace the value that an operation is given. -/
  mapOp : ∀ {V W : Type}, (V → W) → Op V → Op W
  /-- Replace the value in an answer. -/
  mapAns : ∀ {V W : Type}, (V → W) → Ans V → Ans W
  /-- The store holds a value. -/
  Holds : ∀ {V : Type}, State V → V → Prop
  /-- The value that an operation is given. -/
  given : ∀ {V : Type}, Op V → Option V
  /-- The value in an answer. -/
  returned : ∀ {V : Type}, Ans V → Option V
  /-- An operation does the same to whatever values. -/
  natural : ∀ {V W : Type} (f : V → W) (op : Op V) (s : State V),
    perform (mapOp f op) (mapState f s) =
      (mapState f (perform op s).1, mapAns f (perform op s).2)
  /-- Only the values that the store holds are replaced. -/
  mapState_eq_iff : ∀ {V W : Type} (f g : V → W) (s : State V),
    mapState f s = mapState g s ↔ ∀ v, Holds s v → f v = g v
  /-- Only the value that the operation is given is replaced. -/
  mapOp_congr : ∀ {V W : Type} (f g : V → W) (op : Op V),
    (∀ v ∈ given op, f v = g v) → mapOp f op = mapOp g op
  /-- Only the value in the answer is replaced. -/
  mapAns_congr : ∀ {V W : Type} (f g : V → W) (ans : Ans V),
    (∀ v ∈ returned ans, f v = g v) → mapAns f ans = mapAns g ans
  /-- Two replacements, one after the other. -/
  mapOp_mapOp : ∀ {U V W : Type} (f : U → V) (g : V → W) (op : Op U),
    mapOp g (mapOp f op) = mapOp (g ∘ f) op
  /-- Two replacements, one after the other. -/
  mapAns_mapAns : ∀ {U V W : Type} (f : U → V) (g : V → W) (ans : Ans U),
    mapAns g (mapAns f ans) = mapAns (g ∘ f) ans
  /-- The value after a replacement. -/
  given_mapOp : ∀ {V W : Type} (f : V → W) (op : Op V), given (mapOp f op) = (given op).map f
  /-- The value after a replacement. -/
  returned_mapAns : ∀ {V W : Type} (f : V → W) (ans : Ans V),
    returned (mapAns f ans) = (returned ans).map f
  /-- What the store holds it held before or is given. -/
  holds_perform : ∀ {V : Type} (op : Op V) (s : State V) (v : V),
    Holds (perform op s).1 v → Holds s v ∨ v ∈ given op
  /-- What the store answers with it held before or is given. -/
  returned_perform : ∀ {V : Type} (op : Op V) (s : State V) (v : V),
    v ∈ returned (perform op s).2 → Holds s v ∨ v ∈ given op

variable {γ ω ρ ν : Type} {State Op Ans : Type → Type}

namespace Memory

variable (M : Memory γ ω ρ ν)

/-- The value that a reference shows; a reference to no cell shows the default one. -/
def read [Inhabited ν] (heap : List γ) (r : ρ) : ν := (heap[M.cell r]?.map (M.view r)).getD default

/-- The heap with a copy of the value of a reference, and the reference to the copy in the place of
all others. -/
def copied [Inhabited ν] (heap : List γ) (r : ρ) : List γ × (ρ → ρ) :=
  (heap ++ [M.fresh (M.read heap r)], fun _ => M.whole heap.length (M.read heap r))

/-- How a store takes in or hands out a reference: a store that copies makes a copy. -/
def handle [Inhabited ν] (copies : Bool) (heap : List γ) : Option ρ → List γ × (ρ → ρ)
  | some r => if copies then M.copied heap r else (heap, id)
  | none => (heap, id)

end Memory

/-! ### The system -/

/-- A store on references beside the store of the values themselves. -/
structure Sharing (γ ρ ν : Type) (State Ans : Type → Type) where
  /-- The contents of the cells, in the order in which they were made. -/
  heap : List γ
  /-- The cells to which a caller has a reference. -/
  known : List ℕ
  /-- The store on references. -/
  store : State ρ
  /-- The store of the values. -/
  plain : State ν
  /-- The answers, as they read when they were given. -/
  said : List (Ans ν)
  /-- The answers of the store of the values. -/
  expected : List (Ans ν)

/-- What a caller can do. -/
inductive CallerStep (ω ν : Type) (OpOnReferences : Type) where
  /-- Make a new cell. -/
  | make (v : ν)
  /-- Change a cell. -/
  | change (n : ℕ) (w : ω)
  /-- Call an operation of the store. -/
  | call (op : OpOnReferences)

namespace Sharing

variable [Inhabited ν] (M : Memory γ ω ρ ν) (B : Blind State Op Ans) (copies : Bool)

/-- A new store. -/
def start (empty : State ρ) : Sharing γ ρ ν State Ans :=
  ⟨[], [], empty, B.mapState (M.read []) empty, [], []⟩

/-- A call of an operation. -/
def call (s : Sharing γ ρ ν State Ans) (op : Op ρ) : Sharing γ ρ ν State Ans :=
  let taken := M.handle copies s.heap (B.given op)
  let done := B.perform (B.mapOp taken.2 op) s.store
  let handed := M.handle copies taken.1 (B.returned done.2)
  let ans := B.mapAns handed.2 done.2
  let plainly := B.perform (B.mapOp (M.read s.heap) op) s.plain
  { heap := handed.1
    known := s.known ++ (B.returned ans).toList.map M.cell
    store := done.1
    plain := plainly.1
    said := s.said ++ [B.mapAns (M.read handed.1) ans]
    expected := s.expected ++ [plainly.2] }

/-- One step of the system.  A caller changes the cells that it knows, and gives the references that
it has. -/
def step (s : Sharing γ ρ ν State Ans) : CallerStep ω ν (Op ρ) → Option (Sharing γ ρ ν State Ans)
  | .make v => some { s with
      heap := s.heap ++ [M.fresh v]
      known := s.known ++ [s.heap.length] }
  | .change n w =>
    if n ∈ s.known then some { s with heap := s.heap.modify n (M.edit w) } else none
  | .call op =>
    if ∀ r ∈ B.given op, M.cell r ∈ s.known then some (s.call M B copies op) else none

/-- The store holds the values that the store of the values holds, and it has answered the same. -/
structure Faithful (s : Sharing γ ρ ν State Ans) : Prop where
  /-- What it holds. -/
  holds : B.mapState (M.read s.heap) s.store = s.plain
  /-- What it has answered. -/
  answers : s.said = s.expected

/-- A step changes no value that the store holds. -/
def LeavesHeld (s : Sharing γ ρ ν State Ans) : CallerStep ω ν (Op ρ) → Prop
  | .change n w => ∀ r, B.Holds s.store r →
      M.read (s.heap.modify n (M.edit w)) r = M.read s.heap r
  | _ => True

end Sharing

/-! ### Reading -/

namespace Memory

variable [Inhabited ν] {M : Memory γ ω ρ ν} {heap : List γ} {copies : Bool}

/-- New cells change no value. -/
lemma read_append {r : ρ} (hr : M.cell r < heap.length) (more : List γ) :
    M.read (heap ++ more) r = M.read heap r := by
  rw [read, read, List.getElem?_append_left hr]

/-- A reference to a new cell shows its value. -/
lemma read_whole (v : ν) : M.read (heap ++ [M.fresh v]) (M.whole heap.length v) = v := by
  rw [read, M.cell_whole, List.getElem?_concat_length, Option.map_some, Option.getD_some,
    M.view_whole]

/-- A change of another cell changes no value. -/
lemma read_modify_of_ne {n : ℕ} {r : ρ} (hne : M.cell r ≠ n) (f : γ → γ) :
    M.read (heap.modify n f) r = M.read heap r := by
  simp only [read, List.getElem?_modify, if_neg (Ne.symm hne), Option.map_eq_map, Option.map_id']

/-- What a store takes in or hands out shows the same value; a store that copies uses a new cell. -/
structure Handled (M : Memory γ ω ρ ν) (copies : Bool) (heap : List γ) (o : Option ρ)
    (heap' : List γ) (f : ρ → ρ) : Prop where
  /-- The cells before are left alone. -/
  grows : ∃ more, heap' = heap ++ more
  /-- The value is the same. -/
  read : ∀ r ∈ o, M.read heap' (f r) = M.read heap r
  /-- There is a cell. -/
  inside : ∀ r ∈ o, M.cell (f r) < heap'.length
  /-- It is new if the store copies. -/
  new : copies = true → ∀ r ∈ o, heap.length ≤ M.cell (f r)

/-- There are no fewer cells. -/
lemma Handled.length_le {o : Option ρ} {heap' : List γ} {f : ρ → ρ}
    (h : M.Handled copies heap o heap' f) : heap.length ≤ heap'.length := by
  obtain ⟨more, rfl⟩ := h.grows
  rw [List.length_append]
  exact Nat.le_add_right _ _

/-- How a store takes in or hands out a reference to a cell. -/
lemma handled {o : Option ρ} (ho : ∀ r ∈ o, M.cell r < heap.length) :
    M.Handled copies heap o (M.handle copies heap o).1 (M.handle copies heap o).2 := by
  have hsame : ∀ o : Option ρ, (∀ r ∈ o, M.cell r < heap.length) → (copies = true → o = none) →
      M.Handled copies heap o heap id := by
    intro o ho hnone
    refine ⟨⟨[], (List.append_nil heap).symm⟩, fun r _ => rfl, ho, fun hcopies r hr => ?_⟩
    rw [hnone hcopies] at hr
    exact absurd hr (Option.not_mem_none r)
  rcases o with - | r
  · exact hsame none ho fun _ => rfl
  · rcases copies with - | -
    · exact hsame (some r) ho fun h => absurd h Bool.false_ne_true
    · refine ⟨⟨_, rfl⟩, fun r' hr' => ?_, fun r' hr' => ?_, fun _ r' hr' => ?_⟩
      · obtain rfl := Option.mem_some_iff.mp hr'
        exact read_whole _
      · simp [handle, copied, M.cell_whole]
      · simp [handle, copied, M.cell_whole]

end Memory

/-! ### What a step keeps -/

namespace Sharing

variable [Inhabited ν] {M : Memory γ ω ρ ν} {B : Blind State Op Ans} {copies : Bool}
  {s s' : Sharing γ ρ ν State Ans}

/-- What holds in every state before a value that the store holds is changed. -/
structure Sound (M : Memory γ ω ρ ν) (B : Blind State Op Ans) (copies : Bool)
    (s : Sharing γ ρ ν State Ans) : Prop where
  /-- The callers know existing cells. -/
  known : ∀ n ∈ s.known, n < s.heap.length
  /-- The store holds references to existing cells. -/
  inside : ∀ r, B.Holds s.store r → M.cell r < s.heap.length
  /-- No caller knows a cell of a store that copies. -/
  owned : copies = true → ∀ r, B.Holds s.store r → M.cell r ∉ s.known
  /-- The values are those of the other store. -/
  faithful : s.Faithful M B

/-- A heap that shows the same values makes the same values of the store. -/
lemma mapState_read {heap heap' : List γ} {st : State ρ}
    (h : ∀ r, B.Holds st r → M.read heap' r = M.read heap r) :
    B.mapState (M.read heap') st = B.mapState (M.read heap) st :=
  (B.mapState_eq_iff _ _ _).mpr h

/-- A caller makes a new cell. -/
lemma Sound.make (hs : s.Sound M B copies) (v : ν) :
    Sound M B copies { s with
      heap := s.heap ++ [M.fresh v]
      known := s.known ++ [s.heap.length] } where
  known n hn := by
    rw [List.length_append, List.length_singleton]
    rcases List.mem_append.mp hn with hold | hnew
    · exact Nat.lt_succ_of_lt (hs.known n hold)
    · rw [List.mem_singleton.mp hnew]
      exact Nat.lt_succ_self _
  inside r hr := by
    rw [List.length_append, List.length_singleton]
    exact Nat.lt_succ_of_lt (hs.inside r hr)
  owned hcopies r hr hknown := by
    rcases List.mem_append.mp hknown with hold | hnew
    · exact hs.owned hcopies r hr hold
    · exact (hs.inside r hr).ne (List.mem_singleton.mp hnew)
  faithful := by
    refine ⟨?_, hs.faithful.answers⟩
    rw [← hs.faithful.holds]
    exact mapState_read fun r hr => Memory.read_append (hs.inside r hr) _

/-- A caller changes a cell, and no value that the store holds. -/
lemma Sound.change (hs : s.Sound M B copies) {n : ℕ} {w : ω}
    (hleaves : s.LeavesHeld M B (.change n w)) :
    Sound M B copies { s with heap := s.heap.modify n (M.edit w) } where
  known k hk := by
    rw [List.length_modify]
    exact hs.known k hk
  inside r hr := by
    rw [List.length_modify]
    exact hs.inside r hr
  owned := hs.owned
  faithful := by
    refine ⟨?_, hs.faithful.answers⟩
    rw [← hs.faithful.holds]
    exact mapState_read hleaves

/-- What the store holds and is given during a call is in existing cells. -/
lemma Sound.inside_call (hs : s.Sound M B copies) {op : Op ρ} {heap₁ : List γ} {f : ρ → ρ}
    (htaken : M.Handled copies s.heap (B.given op) heap₁ f) {r : ρ}
    (hr : B.Holds s.store r ∨ r ∈ B.given (B.mapOp f op)) : M.cell r < heap₁.length := by
  rcases hr with hr | hr
  · exact (hs.inside r hr).trans_le htaken.length_le
  · rw [B.given_mapOp] at hr
    obtain ⟨r₀, hr₀, rfl⟩ := Option.mem_map.mp hr
    exact htaken.inside r₀ hr₀

/-- The store of the values does what the store does. -/
lemma Sound.perform_plain (hs : s.Sound M B copies) {op : Op ρ} {heap₁ : List γ} {f : ρ → ρ}
    (htaken : M.Handled copies s.heap (B.given op) heap₁ f) :
    B.perform (B.mapOp (M.read s.heap) op) s.plain =
      (B.mapState (M.read heap₁) (B.perform (B.mapOp f op) s.store).1,
        B.mapAns (M.read heap₁) (B.perform (B.mapOp f op) s.store).2) := by
  have hold : ∀ r, B.Holds s.store r → M.read heap₁ r = M.read s.heap r := by
    intro r hr
    obtain ⟨more, rfl⟩ := htaken.grows
    exact Memory.read_append (hs.inside r hr) more
  have hop : B.mapOp (M.read s.heap) op = B.mapOp (M.read heap₁) (B.mapOp f op) := by
    rw [B.mapOp_mapOp]
    exact B.mapOp_congr _ _ _ fun r hr => (htaken.read r hr).symm
  rw [← B.natural, hop, mapState_read hold, hs.faithful.holds]

/-- A call, however the store takes in and hands out the references. -/
lemma Sound.performed (hs : s.Sound M B copies) {op : Op ρ} {heap₁ heap₂ : List γ} {f g : ρ → ρ}
    (htaken : M.Handled copies s.heap (B.given op) heap₁ f)
    (hhanded : M.Handled copies heap₁ (B.returned (B.perform (B.mapOp f op) s.store).2) heap₂ g) :
    Sound M B copies
      { heap := heap₂
        known := s.known ++
          (B.returned (B.mapAns g (B.perform (B.mapOp f op) s.store).2)).toList.map M.cell
        store := (B.perform (B.mapOp f op) s.store).1
        plain := (B.perform (B.mapOp (M.read s.heap) op) s.plain).1
        said := s.said ++
          [B.mapAns (M.read heap₂) (B.mapAns g (B.perform (B.mapOp f op) s.store).2)]
        expected := s.expected ++ [(B.perform (B.mapOp (M.read s.heap) op) s.plain).2] } := by
  rw [hs.perform_plain htaken]
  have hnew : ∀ n ∈ (B.returned (B.mapAns g (B.perform (B.mapOp f op) s.store).2)).toList.map
      M.cell, ∃ r ∈ B.returned (B.perform (B.mapOp f op) s.store).2, M.cell (g r) = n := by
    intro n hn
    obtain ⟨r, hr, rfl⟩ := List.mem_map.mp hn
    rw [Option.mem_toList, B.returned_mapAns] at hr
    obtain ⟨r₀, hr₀, rfl⟩ := Option.mem_map.mp hr
    exact ⟨r₀, hr₀, rfl⟩
  refine ⟨fun n hn => ?_, fun r hr => ?_, fun hcopies r hr hknown => ?_, ?_, ?_⟩
  · rcases List.mem_append.mp hn with hn | hn
    · exact (hs.known n hn).trans_le (htaken.length_le.trans hhanded.length_le)
    · obtain ⟨r, hr, rfl⟩ := hnew n hn
      exact hhanded.inside r hr
  · exact (hs.inside_call htaken (B.holds_perform _ _ r hr)).trans_le hhanded.length_le
  · have hcell := hs.inside_call htaken (B.holds_perform _ _ r hr)
    rcases List.mem_append.mp hknown with hn | hn
    · rcases B.holds_perform _ _ r hr with hr | hr
      · exact hs.owned hcopies r hr hn
      · rw [B.given_mapOp] at hr
        obtain ⟨r₀, hr₀, rfl⟩ := Option.mem_map.mp hr
        exact absurd (hs.known _ hn) (htaken.new hcopies r₀ hr₀).not_gt
    · obtain ⟨r', hr', heq⟩ := hnew _ hn
      have hlate := hhanded.new hcopies r' hr'
      rw [heq] at hlate
      exact absurd hcell hlate.not_gt
  · refine mapState_read fun r hr => ?_
    obtain ⟨further, rfl⟩ := hhanded.grows
    exact Memory.read_append (hs.inside_call htaken (B.holds_perform _ _ r hr)) further
  · have hanswer : B.mapAns (M.read heap₂) (B.mapAns g (B.perform (B.mapOp f op) s.store).2) =
        B.mapAns (M.read heap₁) (B.perform (B.mapOp f op) s.store).2 := by
      rw [B.mapAns_mapAns]
      exact B.mapAns_congr _ _ _ hhanded.read
    rw [hanswer, hs.faithful.answers]

/-- A caller makes a call with a reference to a cell that it knows. -/
lemma Sound.call (hs : s.Sound M B copies) {op : Op ρ}
    (hop : ∀ r ∈ B.given op, M.cell r ∈ s.known) : (s.call M B copies op).Sound M B copies := by
  have htaken := @Memory.handled _ _ _ _ _ M s.heap copies (B.given op) fun r hr =>
    hs.known _ (hop r hr)
  exact hs.performed htaken (Memory.handled fun r hr =>
    hs.inside_call htaken (B.returned_perform _ _ r hr))

/-- A step that changes no value that the store holds. -/
lemma Sound.step (hs : s.Sound M B copies) {l : CallerStep ω ν (Op ρ)}
    (hleaves : s.LeavesHeld M B l) (hl : s.step M B copies l = some s') :
    s'.Sound M B copies := by
  rcases l with v | ⟨n, w⟩ | op
  · exact Option.some.inj hl ▸ hs.make v
  · obtain ⟨-, heq⟩ := Option.ite_none_right_eq_some.mp hl
    exact Option.some.inj heq ▸ hs.change hleaves
  · obtain ⟨hop, heq⟩ := Option.ite_none_right_eq_some.mp hl
    exact Option.some.inj heq ▸ hs.call hop

/-- A step that changes a value that the store holds shows. -/
lemma Sound.not_faithful (hs : s.Sound M B copies) {l : CallerStep ω ν (Op ρ)}
    (hleaves : ¬ s.LeavesHeld M B l) (hl : s.step M B copies l = some s') :
    ¬ s'.Faithful M B := by
  rcases l with v | ⟨n, w⟩ | op
  · exact absurd trivial hleaves
  · obtain ⟨-, heq⟩ := Option.ite_none_right_eq_some.mp hl
    obtain rfl := Option.some.inj heq
    intro hfaithful
    exact hleaves ((B.mapState_eq_iff _ _ _).mp
      (hfaithful.holds.trans hs.faithful.holds.symm))
  · exact absurd trivial hleaves

/-- No step of a caller changes a value that a store holds which copies. -/
lemma Sound.leavesHeld (hs : s.Sound M B true) {l : CallerStep ω ν (Op ρ)}
    (hl : s.step M B true l = some s') : s.LeavesHeld M B l := by
  rcases l with v | ⟨n, w⟩ | op
  · trivial
  · obtain ⟨hn, -⟩ := Option.ite_none_right_eq_some.mp hl
    intro r hr
    refine Memory.read_modify_of_ne (fun heq => ?_) _
    exact hs.owned rfl r hr (heq ▸ hn)
  · trivial

/-- A new store holds nothing. -/
lemma sound_start {empty : State ρ} (hempty : ∀ r, ¬ B.Holds empty r) :
    (start (ν := ν) M B empty).Sound M B copies where
  known _ hn := absurd hn List.not_mem_nil
  inside r hr := absurd hr (hempty r)
  owned _ r hr := absurd hr (hempty r)
  faithful := ⟨rfl, rfl⟩

/-! ### Runs -/

variable {empty : State ρ}

/-- A store that shares is in a run what the store of the values is if and only if no step of the
run changes a value that it holds. -/
theorem always_faithful_iff (hempty : ∀ r, ¬ B.Holds empty r)
    (ls : List (CallerStep ω ν (Op ρ))) :
    Always (step M B false) (Faithful M B) (start M B empty) ls ↔
      StepsMeet (step M B false) (LeavesHeld M B) (start M B empty) ls :=
  always_iff_stepsMeet (I := Sound M B false) (fun _ _ _ hs hleaves hl => hs.step hleaves hl)
    (fun _ hs => hs.faithful) (fun _ _ _ hs hleaves hl => hs.not_faithful hleaves hl)
    (sound_start hempty)

/-- A store that copies is in every run what the store of the values is. -/
theorem always_faithful (hempty : ∀ r, ¬ B.Holds empty r) (ls : List (CallerStep ω ν (Op ρ))) :
    Always (step M B true) (Faithful M B) (start M B empty) ls :=
  fun _ _ _ ht => (invariant_of_runFrom
    (fun _ _ _ hs hl => Sound.step hs (hs.leavesHeld hl) hl) (sound_start hempty) ht).faithful

end Sharing

end SharedCells
