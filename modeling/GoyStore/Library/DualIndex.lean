import Mathlib.Data.List.Nodup
import Mathlib.Logic.Function.Basic
import Std.Data.TreeMap

/-!
# Two indexes of one relation

Members carry a key.  One index gives the key of a member, the other the bucket of a key, the list
of the members that carry it.  Both are partial functions here, so that any finite map can be read
as one of them.

`Coherent` says that the two agree, that a bucket holds each of its members once, and that no
bucket is empty.  The rules follow the three elementary updates: a member leaves its bucket
(`Coherent.detach`), a member joins a bucket (`Coherent.attach`), a whole bucket goes
(`Coherent.dropBucket`).  `InOrder` says that all buckets list their members in the order of one
list; it has the same three rules.
-/

namespace DualIndex

variable {κ μ : Type*}

/-- The buckets and the keys of the members are two indexes of one relation. -/
structure Coherent (bucket : κ → Option (List μ)) (key : μ → Option κ) : Prop where
  /-- A member has a key if and only if it is in the bucket of the key. -/
  key_iff : ∀ m k, key m = some k ↔ ∃ b, bucket k = some b ∧ m ∈ b
  /-- No member is twice in a bucket. -/
  nodup : ∀ k b, bucket k = some b → b.Nodup
  /-- No bucket is empty. -/
  ne_nil : ∀ k b, bucket k = some b → b ≠ []

/-- The empty indexes are coherent. -/
lemma coherent_empty : Coherent (fun _ : κ => none) (fun _ : μ => none) := by
  refine ⟨fun m k => ?_, fun k b h => ?_, fun k b h => ?_⟩
  · simp
  · cases h
  · cases h

variable {bucket : κ → Option (List μ)} {key : μ → Option κ}

/-- A member that has a key is in exactly one bucket. -/
lemma Coherent.existsUnique_bucket (h : Coherent bucket key) {m : μ} {k : κ} (hm : key m = some k) :
    ∃! k, ∃ b, bucket k = some b ∧ m ∈ b := by
  refine ⟨k, (h.key_iff m k).mp hm, fun k' hk' => ?_⟩
  have hm' : key m = some k' := (h.key_iff m k').mpr hk'
  exact Option.some.inj (hm'.symm.trans hm)

/-- A member that is in a bucket is in it once. -/
lemma Coherent.count_eq_one [DecidableEq μ] (h : Coherent bucket key) {m : μ} {k : κ} {b : List μ}
    (hb : bucket k = some b) (hm : m ∈ b) : b.count m = 1 :=
  List.count_eq_one_of_mem (h.nodup k b hb) hm

/-- The bucket without a member; an emptied bucket is dropped. -/
def without [DecidableEq μ] (m : μ) (b : List μ) : Option (List μ) :=
  if (b.filter (· ≠ m)).isEmpty then none else some (b.filter (· ≠ m))

/-- What is left in a bucket is what was there before, less the member. -/
lemma mem_without_iff [DecidableEq μ] {m m' : μ} {b : List μ} :
    (∃ b', without m b = some b' ∧ m' ∈ b') ↔ m' ∈ b ∧ m' ≠ m := by
  have hmem : m' ∈ b.filter (· ≠ m) ↔ m' ∈ b ∧ m' ≠ m := by
    simp
  unfold without
  split
  · rename_i hempty
    rw [List.isEmpty_iff] at hempty
    rw [← hmem, hempty]
    simp
  · rw [← hmem]
    simp

variable [DecidableEq κ]

/-- A property of all buckets, when one bucket changes. -/
lemma forall_bucket_update {P : List μ → Prop} (h : ∀ k b, bucket k = some b → P b) (k : κ)
    {o : Option (List μ)} (ho : ∀ b, o = some b → P b) :
    ∀ k' b, Function.update bucket k o k' = some b → P b := by
  intro k' b hb
  by_cases hk : k' = k
  · subst hk
    rw [Function.update_self] at hb
    exact ho b hb
  · rw [Function.update_of_ne hk] at hb
    exact h k' b hb

variable [DecidableEq μ]

/-- What is left in a bucket is not empty, and is the bucket less the member. -/
lemma eq_filter_of_without {m : μ} {b b' : List μ} (h : without m b = some b') :
    b' ≠ [] ∧ b' = b.filter (· ≠ m) := by
  unfold without at h
  split at h
  · cases h
  · rename_i hempty
    obtain rfl := Option.some.inj h
    rw [List.isEmpty_iff] at hempty
    exact ⟨hempty, rfl⟩

/-- A member leaves its bucket. -/
theorem Coherent.detach (h : Coherent bucket key) {m : μ} {k : κ} {b : List μ}
    (hb : bucket k = some b) (hm : m ∈ b) :
    Coherent (Function.update bucket k (without m b)) (Function.update key m none) := by
  have hkey : key m = some k := (h.key_iff m k).mpr ⟨b, hb, hm⟩
  refine ⟨fun m' k' => ?_, forall_bucket_update h.nodup k fun b' hb' => ?_,
    forall_bucket_update h.ne_nil k fun b' hb' => (eq_filter_of_without hb').1⟩
  · by_cases hk : k' = k
    · subst hk
      rw [Function.update_self, mem_without_iff]
      by_cases hmm : m' = m
      · subst hmm
        simp
      · rw [Function.update_of_ne hmm, h.key_iff m' k', hb]
        simp [hmm]
    · rw [Function.update_of_ne hk]
      by_cases hmm : m' = m
      · -- the member was in no other bucket
        subst hmm
        rw [Function.update_self, ← h.key_iff, hkey]
        simp [Ne.symm hk]
      · rw [Function.update_of_ne hmm, h.key_iff]
  · rw [(eq_filter_of_without hb').2]
    exact (h.nodup k b hb).filter _

/-- A member without a key joins the end of a bucket. -/
theorem Coherent.attach (h : Coherent bucket key) {m : μ} (hm : key m = none) (k : κ) :
    Coherent (Function.update bucket k (some ((bucket k).getD [] ++ [m])))
      (Function.update key m (some k)) := by
  have habsent : ∀ k' b, bucket k' = some b → m ∉ b := by
    intro k' b hb hmem
    have hkey := (h.key_iff m k').mpr ⟨b, hb, hmem⟩
    rw [hm] at hkey
    cases hkey
  have hmem : ∀ m', m' ∈ (bucket k).getD [] ↔ ∃ b, bucket k = some b ∧ m' ∈ b := by
    intro m'
    cases bucket k <;> simp
  refine ⟨fun m' k' => ?_, forall_bucket_update h.nodup k fun b' hb' => ?_,
    forall_bucket_update h.ne_nil k fun b' hb' => ?_⟩
  · by_cases hk : k' = k
    · subst hk
      by_cases hmm : m' = m
      · subst hmm
        simp
      · rw [Function.update_of_ne hmm, h.key_iff m' k', ← hmem]
        simp [hmm]
    · rw [Function.update_of_ne hk]
      by_cases hmm : m' = m
      · subst hmm
        rw [Function.update_self]
        refine ⟨fun heq => absurd (Option.some.inj heq).symm hk, ?_⟩
        rintro ⟨b, hb, hmem'⟩
        exact absurd hmem' (habsent k' b hb)
      · rw [Function.update_of_ne hmm, h.key_iff]
  · obtain rfl := Option.some.inj hb'
    cases hb : bucket k with
    | none => simp
    | some b =>
      refine List.Nodup.append (h.nodup k b hb) (List.nodup_singleton m) ?_
      rw [List.disjoint_singleton]
      exact habsent k b hb
  · obtain rfl := Option.some.inj hb'
    simp

/-- A whole bucket goes, and its members with it. -/
theorem Coherent.dropBucket (h : Coherent bucket key) {k : κ} {b : List μ}
    (hb : bucket k = some b) :
    Coherent (Function.update bucket k none) fun m => if m ∈ b then none else key m := by
  refine ⟨fun m k' => ?_, forall_bucket_update h.nodup k (by simp),
    forall_bucket_update h.ne_nil k (by simp)⟩
  by_cases hk : k' = k
  · subst hk
    rw [Function.update_self]
    split
    · simp
    · rename_i hmem
      rw [h.key_iff, hb]
      simp [hmem]
  · rw [Function.update_of_ne hk, ← h.key_iff]
    split
    · rename_i hmem
      have hkey : key m = some k := (h.key_iff m k).mpr ⟨b, hb, hmem⟩
      rw [hkey]
      simp [Ne.symm hk]
    · exact Iff.rfl

/-! ### A member that moves -/

/-- The buckets without a member, wherever it is. -/
def leave (bucket : κ → Option (List μ)) (key : μ → Option κ) (m : μ) : κ → Option (List μ) :=
  match key m with
  | some k =>
    match bucket k with
    | some b => Function.update bucket k (without m b)
    | none => bucket
  | none => bucket

/-- The buckets with a member at the end of one of them. -/
def join (bucket : κ → Option (List μ)) (m : μ) (k : κ) : κ → Option (List μ) :=
  Function.update bucket k (some ((bucket k).getD [] ++ [m]))

/-- A member leaves the buckets. -/
theorem Coherent.leave (h : Coherent bucket key) (m : μ) :
    Coherent (leave bucket key m) (Function.update key m none) := by
  unfold DualIndex.leave
  cases hkey : key m with
  | some k =>
    obtain ⟨b, hb, hm⟩ := (h.key_iff m k).mp hkey
    simp only [hb]
    exact h.detach hb hm
  | none =>
    rwa [Function.update_eq_self_iff.mpr hkey.symm]

/-- A member without a key that has joined a bucket leaves it again. -/
theorem Coherent.leave_join (h : Coherent bucket key) {m : μ} (hm : key m = none) (k : κ) :
    DualIndex.leave (join bucket m k) (Function.update key m (some k)) m = bucket := by
  have hrest : without m ((bucket k).getD [] ++ [m]) = bucket k := by
    have habsent : ∀ b, bucket k = some b → m ∉ b := by
      intro b hb hmem
      have hkey := (h.key_iff m k).mpr ⟨b, hb, hmem⟩
      rw [hm] at hkey
      cases hkey
    cases hb : bucket k with
    | none => simp [without]
    | some b =>
      have hfilter : (b ++ [m]).filter (· ≠ m) = b := by
        rw [List.filter_append, List.filter_eq_self.mpr]
        · simp
        · intro m' hm'
          exact decide_eq_true fun heq => habsent b hb (heq ▸ hm')
      rw [Option.getD_some, without, hfilter, if_neg]
      rw [List.isEmpty_iff]
      exact h.ne_nil k b hb
  rw [DualIndex.leave, Function.update_self]
  simp only [join, Function.update_self]
  rw [hrest, Function.update_idem, Function.update_eq_self]

/-! ### The order in the buckets -/

/-- Every bucket lists its members in the order of one list. -/
def InOrder (order : List μ) (bucket : κ → Option (List μ)) (key : μ → Option κ) : Prop :=
  ∀ k b, bucket k = some b → b = order.filter fun m => key m = some k

omit [DecidableEq μ] in
/-- The members with a key, in the order of the list, are the bucket of the key. -/
lemma InOrder.filter_eq {order : List μ} (ho : InOrder order bucket key)
    (h : Coherent bucket key) (k : κ) :
    (order.filter fun m => key m = some k) = (bucket k).getD [] := by
  cases hb : bucket k with
  | some b => exact (ho k b hb).symm
  | none =>
    rw [Option.getD_none, List.filter_eq_nil_iff]
    intro m _ hm
    obtain ⟨b, hb', _⟩ := (h.key_iff m k).mp (of_decide_eq_true hm)
    rw [hb] at hb'
    cases hb'

/-- A member without a key can be taken out of the list. -/
lemma InOrder.erase {order : List μ} (ho : InOrder order bucket key) {m : μ} (hm : key m = none) :
    InOrder (order.filter (· ≠ m)) bucket key := by
  intro k b hb
  rw [ho k b hb, List.filter_filter]
  apply List.filter_congr
  intro m' _
  by_cases hmm : m' = m
  · subst hmm
    simp [hm]
  · simp [hmm]

/-- A member leaves its bucket, and the others keep their order. -/
lemma InOrder.detach {order : List μ} (ho : InOrder order bucket key) {m : μ} {k : κ} {b : List μ}
    (hb : bucket k = some b) (hm : key m = some k) :
    InOrder order (Function.update bucket k (without m b)) (Function.update key m none) := by
  intro k' b' hb'
  by_cases hk : k' = k
  · subst hk
    rw [Function.update_self] at hb'
    rw [(eq_filter_of_without hb').2, ho k' b hb, List.filter_filter]
    apply List.filter_congr
    intro m' _
    by_cases hmm : m' = m
    · subst hmm
      simp
    · simp [hmm]
  · rw [Function.update_of_ne hk] at hb'
    rw [ho k' b' hb']
    apply List.filter_congr
    intro m' _
    by_cases hmm : m' = m
    · subst hmm
      simp [hm, Ne.symm hk]
    · simp [hmm]

/-- A member that joins the end of a bucket comes last. -/
lemma InOrder.attach {order : List μ} (ho : InOrder order bucket key) (h : Coherent bucket key)
    {m : μ} (hmem : m ∉ order) (k : κ) :
    InOrder (order ++ [m]) (Function.update bucket k (some ((bucket k).getD [] ++ [m])))
      (Function.update key m (some k)) := by
  -- the new key changes nothing about the members that were there
  have hold : ∀ k', (order.filter fun m' => Function.update key m (some k) m' = some k') =
      order.filter fun m' => key m' = some k' := by
    intro k'
    apply List.filter_congr
    intro m' hm'
    have hne : m' ≠ m := fun heq => hmem (heq ▸ hm')
    rw [Function.update_of_ne hne]
  intro k' b hb
  rw [List.filter_append, hold]
  by_cases hk : k' = k
  · subst hk
    rw [Function.update_self] at hb
    obtain rfl := Option.some.inj hb
    rw [ho.filter_eq h]
    simp
  · rw [Function.update_of_ne hk] at hb
    rw [← ho k' b hb]
    simp [Ne.symm hk]

/-- A whole bucket goes, and the others keep their order. -/
lemma InOrder.dropBucket {order : List μ} (ho : InOrder order bucket key)
    (h : Coherent bucket key) {k : κ} {b : List μ} (hb : bucket k = some b) :
    InOrder order (Function.update bucket k none) fun m => if m ∈ b then none else key m := by
  intro k' b' hb'
  by_cases hk : k' = k
  · subst hk
    rw [Function.update_self] at hb'
    cases hb'
  · rw [Function.update_of_ne hk] at hb'
    rw [ho k' b' hb']
    apply List.filter_congr
    intro m _
    by_cases hm : m ∈ b
    · have hkey : key m = some k := (h.key_iff m k).mpr ⟨b, hb, hm⟩
      simp [hm, hkey, Ne.symm hk]
    · simp [hm]

/-! ### Listing buckets -/

omit [DecidableEq κ] [DecidableEq μ] in
/-- A list of different buckets lists every member at most once. -/
theorem Coherent.nodup_flatMap (h : Coherent bucket key) {es : List (κ × List μ)}
    (hes : ∀ e ∈ es, bucket e.1 = some e.2) (hdistinct : es.Pairwise fun a b => a.1 ≠ b.1) :
    (es.flatMap Prod.snd).Nodup := by
  rw [List.nodup_flatMap]
  refine ⟨fun e he => h.nodup e.1 e.2 (hes e he), ?_⟩
  refine hdistinct.imp_of_mem fun {a b} ha hb hne m hma hmb => hne ?_
  have hkeya := (h.key_iff m a.1).mpr ⟨a.2, hes a ha, hma⟩
  have hkeyb := (h.key_iff m b.1).mpr ⟨b.2, hes b hb, hmb⟩
  exact Option.some.inj (hkeya.symm.trans hkeyb)

/-! ### Finite maps -/

section Lookup

variable {α β : Type*} {cmp : α → α → Ordering}

/-- A finite map, read as a partial function. -/
def lookup (t : Std.TreeMap α β cmp) (a : α) : Option β := t[a]?

variable [Std.TransCmp cmp] [Std.LawfulEqCmp cmp] [DecidableEq α]

/-- Inserting an entry updates the function. -/
lemma lookup_insert (t : Std.TreeMap α β cmp) (k : α) (v : β) :
    lookup (t.insert k v) = Function.update (lookup t) k (some v) := by
  funext a
  by_cases h : a = k
  · subst h
    rw [Function.update_self]
    exact Std.TreeMap.getElem?_insert_self
  · have hcmp : cmp k a ≠ .eq := fun heq => h (Std.LawfulEqCmp.eq_of_compare heq).symm
    rw [Function.update_of_ne h, lookup, Std.TreeMap.getElem?_insert, if_neg hcmp, lookup]

/-- Erasing an entry updates the function. -/
lemma lookup_erase (t : Std.TreeMap α β cmp) (k : α) :
    lookup (t.erase k) = Function.update (lookup t) k none := by
  funext a
  by_cases h : a = k
  · subst h
    rw [Function.update_self]
    exact Std.TreeMap.getElem?_erase_self
  · have hcmp : cmp k a ≠ .eq := fun heq => h (Std.LawfulEqCmp.eq_of_compare heq).symm
    rw [Function.update_of_ne h, lookup, Std.TreeMap.getElem?_erase, if_neg hcmp, lookup]

/-- Erasing a list of entries. -/
lemma lookup_foldl_erase (t : Std.TreeMap α β cmp) (ks : List α) :
    lookup (ks.foldl (fun t k => t.erase k) t) = fun a => if a ∈ ks then none else lookup t a := by
  induction ks generalizing t with
  | nil => simp
  | cons k ks ih =>
    rw [List.foldl_cons, ih, lookup_erase]
    funext a
    by_cases h : a = k
    · subst h
      simp
    · simp [h]

omit [Std.LawfulEqCmp cmp] [DecidableEq α] in
/-- Erasing a key that is there. -/
lemma size_erase_of_lookup {t : Std.TreeMap α β cmp} {k : α} {v : β} (h : lookup t k = some v) :
    (t.erase k).size + 1 = t.size := by
  have hmem : k ∈ t := Std.TreeMap.mem_iff_isSome_getElem?.mpr (Option.isSome_of_mem h)
  have hpos : 0 < t.size := by
    by_contra hzero
    have hempty : t.isEmpty = true := Std.TreeMap.isEmpty_eq_size_eq_zero ▸ by simpa using hzero
    exact absurd hmem (Std.TreeMap.not_mem_of_isEmpty hempty)
  rw [Std.TreeMap.size_erase, if_pos (Std.TreeMap.contains_iff_mem.mpr hmem)]
  omega

/-- Erasing different keys that are there. -/
lemma size_foldl_erase {ks : List α} {t : Std.TreeMap α β cmp} (hnodup : ks.Nodup)
    (hks : ∀ k ∈ ks, ∃ v, lookup t k = some v) :
    (ks.foldl (fun t k => t.erase k) t).size + ks.length = t.size := by
  induction ks generalizing t with
  | nil => rfl
  | cons k ks ih =>
    obtain ⟨hk, hrest⟩ := List.nodup_cons.mp hnodup
    obtain ⟨v, hv⟩ := hks k List.mem_cons_self
    have hrest' : ∀ k' ∈ ks, ∃ v, lookup (t.erase k) k' = some v := by
      intro k' hk'
      have hne : k' ≠ k := fun heq => hk (heq ▸ hk')
      rw [lookup_erase, Function.update_of_ne hne]
      exact hks k' (List.mem_cons_of_mem k hk')
    have hsize := ih hrest hrest'
    have hone := size_erase_of_lookup hv
    rw [List.foldl_cons, List.length_cons]
    omega

omit [DecidableEq α] in
/-- Maps with the same keys have the same size. -/
lemma size_congr {γ : Type*} {t : Std.TreeMap α β cmp} {u : Std.TreeMap α γ cmp}
    (h : ∀ a, (lookup t a).isSome = (lookup u a).isSome) : t.size = u.size := by
  have hmem : ∀ a, a ∈ t.keys ↔ a ∈ u.keys := by
    intro a
    rw [Std.TreeMap.mem_keys, Std.TreeMap.mem_keys, Std.TreeMap.mem_iff_isSome_getElem?,
      Std.TreeMap.mem_iff_isSome_getElem?]
    exact Bool.eq_iff_iff.mp (h a)
  have hperm : t.keys.Perm u.keys :=
    (List.perm_ext_iff_of_nodup Std.TreeMap.nodup_keys Std.TreeMap.nodup_keys).mpr hmem
  rw [← Std.TreeMap.length_keys, ← Std.TreeMap.length_keys, hperm.length_eq]

end Lookup

end DualIndex
