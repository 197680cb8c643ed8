import GoyStore.SortedSet.MemorySortedSetStore

/-!
# The two in-memory sorted sets agree

The `memorySortedSet` of the Go library is a map from members to scores for each set; a range query
filters the map in the order in which the iteration yields it and sorts the result.  The
`MemorySortedSetStore` of the Rust library keeps its members in buckets, one for each score.

Along any calls with finite scores and bounds other than negative zero, the two give the same
answers, and a range query of the Rust store lists the members of the range once, in the order of
their scores (`always_agree`).
-/

namespace GoyStore

open DualIndex

/-! ### Calls and answers -/

/-- A call of a sorted set store, with the range query without a limit. -/
inductive SortedSetCall where
  /-- A call of `add`. -/
  | add (set member : String) (score : Binary64)
  /-- A call of `remove`. -/
  | remove (set member : String)
  /-- A call of `remove_range`. -/
  | removeRange (set : String) (min max : Binary64)
  /-- A call of `count`. -/
  | count (set : String)
  /-- A call of `score`. -/
  | score (set member : String)
  /-- A call of `range_by_score`. -/
  | rangeByScore (set : String) (min max : Binary64)

/-- What a call returns. -/
inductive SortedSetAnswer where
  /-- Nothing. -/
  | done
  /-- A number of members. -/
  | number (n : ℕ)
  /-- The score of a member. -/
  | found (score : Option Binary64)
  /-- The members of a range with their scores; `none` is a panic. -/
  | range (members : Option (List (String × Binary64)))
  deriving DecidableEq, Repr

/-- A finite number other than negative zero. -/
def Plain (x : Binary64) : Prop := x.IsFinite ∧ x.bits ≠ 0x8000000000000000#64

instance (x : Binary64) : Decidable (Plain x) := inferInstanceAs (Decidable (_ ∧ _))

/-- The scores and the bounds of a call are plain. -/
def SortedSetCall.IsPlain : SortedSetCall → Prop
  | .add _ _ x => Plain x
  | .removeRange _ min max => Plain min ∧ Plain max
  | .rangeByScore _ min max => Plain min ∧ Plain max
  | _ => True

/-- The comparison `<=` of plain numbers is the order of their keys. -/
lemma Plain.le_iff {x y : Binary64} (hx : Plain x) (hy : Plain y) :
    x.le y = true ↔ x.totalKey ≤ y.totalKey :=
  Binary64.le_iff_totalKey_le hx.1 hx.2 hy.1 hy.2

/-! ### Go -/

namespace Go

/-- What the Go runtime and its library choose in a call: the order in which a map is iterated, and
the way in which elements are sorted by their scores. -/
structure Runtime where
  /-- The iteration of a map, from a list of its entries. -/
  iterate : List (String × Binary64) → List (String × Binary64)
  /-- `sort.Slice` by the scores. -/
  sortSlice : List (String × Binary64) → List (String × Binary64)

/-- An iteration yields every entry once, and sorting gives a sorted permutation when every score
is a number. -/
structure Runtime.Lawful (rt : Runtime) : Prop where
  /-- The iteration yields every entry once. -/
  iterate_perm : ∀ entries, (rt.iterate entries).Perm entries
  /-- Sorting permutes. -/
  sort_perm : ∀ entries, (rt.sortSlice entries).Perm entries
  /-- Sorting sorts. -/
  sort_sorted : ∀ entries, (∀ e ∈ entries, e.2.isNaN = false) →
    (rt.sortSlice entries).Pairwise fun a b => a.2.le b.2

/-- The comparison of the scores of two entries. -/
def byScore (a b : String × Binary64) : Bool := a.2.value.getD 0 ≤ b.2.value.getD 0

/-- A runtime that iterates a map in the order of its entries and sorts by merging. -/
def Runtime.inOrder : Runtime where
  iterate entries := entries
  sortSlice entries := entries.mergeSort byScore

/-- This runtime is lawful. -/
lemma Runtime.inOrder_lawful : Runtime.inOrder.Lawful where
  iterate_perm _ := .refl _
  sort_perm _ := List.mergeSort_perm _ _
  sort_sorted entries hnumbers := by
    have htrans : ∀ a b c, byScore a b = true → byScore b c = true → byScore a c = true := by
      intro a b c hab hbc
      simp only [byScore, decide_eq_true_eq] at *
      omega
    have htotal : ∀ a b, (byScore a b || byScore b a) = true := by
      intro a b
      simp only [byScore, Bool.or_eq_true, decide_eq_true_eq]
      omega
    have hsorted := List.pairwise_mergeSort htrans htotal entries
    have hvalue : ∀ e ∈ Runtime.inOrder.sortSlice entries, ∃ v, e.2.value = some v := by
      intro e he
      have hnumber := hnumbers e ((List.mergeSort_perm _ _).mem_iff.mp he)
      unfold Binary64.value
      rw [hnumber]
      cases e.2.bits.msb <;> simp
    apply hsorted.imp_of_mem
    intro a b ha hb hab
    obtain ⟨v, hv⟩ := hvalue a ha
    obtain ⟨w, hw⟩ := hvalue b hb
    rw [byScore, hv, hw] at hab
    rw [Binary64.le, hv, hw]
    exact hab

/-- `memorySortedSet`. -/
structure MemorySortedSet where
  /-- The field `sets`. -/
  sets : Std.TreeMap String (Std.TreeMap String Binary64)

namespace MemorySortedSet

/-- A new store. -/
def new : MemorySortedSet := ⟨∅⟩

/-- The comparison of the loops: `score >= min && score <= max`. -/
def inRange (min max score : Binary64) : Bool := min.le score && score.le max

/-- `Add`. -/
def add (m : MemorySortedSet) (set member : String) (score : Binary64) : MemorySortedSet :=
  ⟨m.sets.insert set ((m.sets[set]?.getD ∅).insert member score)⟩

/-- `Remove`. -/
def remove (m : MemorySortedSet) (set member : String) : MemorySortedSet :=
  match m.sets[set]? with
  | some members => ⟨m.sets.insert set (members.erase member)⟩
  | none => m

/-- `RangeByScore` without a limit. -/
def rangeByScore (rt : Runtime) (m : MemorySortedSet) (set : String) (min max : Binary64) :
    List (String × Binary64) :=
  let result := match m.sets[set]? with
    | some members => (rt.iterate members.toList).filter fun e => inRange min max e.2
    | none => []
  rt.sortSlice result

/-- `Count`. -/
def count (m : MemorySortedSet) (set : String) : ℕ := (m.sets[set]?.getD ∅).size

/-- The body of the loop of `RemoveRange`, on the map and the number of removed members. -/
def removeEntry (min max : Binary64) (acc : Std.TreeMap String Binary64 × ℕ)
    (e : String × Binary64) : Std.TreeMap String Binary64 × ℕ :=
  if inRange min max e.2 then (acc.1.erase e.1, acc.2 + 1) else acc

/-- `RemoveRange`, with the number that it returns. -/
def removeRange (rt : Runtime) (m : MemorySortedSet) (set : String) (min max : Binary64) :
    MemorySortedSet × ℕ :=
  match m.sets[set]? with
  | some members =>
    let removed := (rt.iterate members.toList).foldl (removeEntry min max) (members, 0)
    (⟨m.sets.insert set removed.1⟩, removed.2)
  | none => (m, 0)

/-- `Score`. -/
def score (m : MemorySortedSet) (set member : String) : Option Binary64 :=
  match m.sets[set]? with
  | some members => members[member]?
  | none => none

/-- A call, with the choices of the runtime, and its answer. -/
def perform (m : MemorySortedSet) (rt : Runtime) : SortedSetCall → MemorySortedSet × SortedSetAnswer
  | .add set member score => (m.add set member score, .done)
  | .remove set member => (m.remove set member, .done)
  | .removeRange set min max =>
    ((m.removeRange rt set min max).1, .number (m.removeRange rt set min max).2)
  | .count set => (m, .number (m.count set))
  | .score set member => (m, .found (m.score set member))
  | .rangeByScore set min max => (m, .range (some (m.rangeByScore rt set min max)))

end MemorySortedSet

end Go

/-! ### Rust -/

namespace Rust.MemorySortedSetStore

/-- A call and its answer. -/
def perform (st : MemorySortedSetStore) : SortedSetCall → MemorySortedSetStore × SortedSetAnswer
  | .add set member score => (st.add set member score, .done)
  | .remove set member => (st.remove set member, .done)
  | .removeRange set min max =>
    ((st.removeRange set min max).1, .number (st.removeRange set min max).2)
  | .count set => (st, .number (st.count set))
  | .score set member => (st, .found (st.score set member))
  | .rangeByScore set min max => (st, .range (st.rangeByScore set min max none))

end Rust.MemorySortedSetStore

/-! ### Agreement -/

/-- The answers to a call agree.  `members` is the Go map of the set of a range query before the
call: when the bounds are in order, the Rust store lists its members in the range, once each, in the
order of their scores, and so a permutation of what the Go store lists. -/
def AnswersAgree (m : Go.MemorySortedSet) (call : SortedSetCall)
    (rust go : SortedSetAnswer) : Prop :=
  match call with
  | .rangeByScore set min max => min.le max → ∃ r g, rust = .range (some r) ∧ go = .range (some g) ∧
      (r.map Prod.fst).Nodup ∧ (r.Pairwise fun a b => a.2.le b.2) ∧ r.Perm g ∧
      ∀ member score, (member, score) ∈ r ↔
        m.score set member = some score ∧ min.le score ∧ score.le max
  | _ => rust = go

/-- The answers to all the calls agree. -/
def AlwaysAgree (st : Rust.MemorySortedSetStore) (m : Go.MemorySortedSet) :
    List (SortedSetCall × Go.Runtime) → Prop
  | [] => True
  | (call, rt) :: calls =>
    AnswersAgree m call (st.perform call).2 (m.perform rt call).2 ∧
      AlwaysAgree (st.perform call).1 (m.perform rt call).1 calls

/-! ### The Rust set -/

namespace Rust.InnerSet

/-- The scores that are left when one of them is removed, and how many members go. -/
lemma Agrees.lookup_removeScore {acc : InnerSet × ℕ} (h : acc.1.Agrees) (score : OrderedScore) :
    (∀ m, lookup (InnerSet.removeScore acc score).1.memberScores m =
      (lookup acc.1.memberScores m).filter (· ≠ score)) ∧
    (InnerSet.removeScore acc score).2 + (InnerSet.removeScore acc score).1.memberScores.size =
      acc.2 + acc.1.memberScores.size := by
  unfold InnerSet.removeScore
  cases hbucket : acc.1.scores[score]? with
  | some members =>
    have hkey : ∀ m, m ∈ members ↔ lookup acc.1.memberScores m = some score := by
      intro m
      rw [h.key_iff m score]
      constructor
      · exact fun hm => ⟨members, hbucket, hm⟩
      · rintro ⟨b, hb, hm⟩
        obtain rfl := Option.some.inj (hb.symm.trans hbucket)
        exact hm
    constructor
    · intro m
      have herase := congrFun (lookup_foldl_erase acc.1.memberScores members) m
      simp only at herase ⊢
      rw [herase]
      cases hm : lookup acc.1.memberScores m with
      | none => simp
      | some s =>
        have hiff : m ∈ members ↔ s = score := by
          rw [hkey m, hm, Option.some.injEq]
        by_cases hs : s = score
        · simp [hiff, hs, Option.filter_some]
        · simp [hiff, hs, Option.filter_some]
    · have hsize := size_foldl_erase (h.nodup score members hbucket)
        fun m hm => ⟨score, (hkey m).mp hm⟩
      simp only
      omega
  | none =>
    refine ⟨fun m => ?_, rfl⟩
    cases hm : lookup acc.1.memberScores m with
    | none => rfl
    | some s =>
      have hs : s ≠ score := by
        rintro rfl
        obtain ⟨b, hb, _⟩ := (h.key_iff m s).mp hm
        exact absurd (hb.symm.trans hbucket) (by simp)
      simp [hs, Option.filter_some]

/-- The scores that are left when a list of them is removed, and how many members go. -/
lemma Agrees.lookup_foldl_removeScore (ss : List OrderedScore) {acc : InnerSet × ℕ}
    (h : acc.1.Agrees) :
    (∀ m, lookup (ss.foldl InnerSet.removeScore acc).1.memberScores m =
      (lookup acc.1.memberScores m).filter (· ∉ ss)) ∧
    (ss.foldl InnerSet.removeScore acc).2 +
        (ss.foldl InnerSet.removeScore acc).1.memberScores.size =
      acc.2 + acc.1.memberScores.size := by
  induction ss generalizing acc with
  | nil =>
    refine ⟨fun m => ?_, rfl⟩
    cases hm : lookup acc.1.memberScores m <;> simp [hm, Option.filter_some]
  | cons s ss ih =>
    obtain ⟨hone, hsize⟩ := Agrees.lookup_removeScore h s
    obtain ⟨hrest, hsize'⟩ := ih (Agrees.removeScore h s)
    rw [List.foldl_cons]
    refine ⟨fun m => ?_, hsize'.trans hsize⟩
    rw [hrest m, hone m, Option.filter_filter]
    congr 1
    funext s'
    simp

/-- `remove_range` takes out the members with a score in the range, and counts them. -/
lemma Agrees.lookup_removeRange {inner : InnerSet} (h : inner.Agrees) (min max : Binary64) :
    (∀ m, lookup (inner.removeRange min max).1.memberScores m =
      (lookup inner.memberScores m).filter fun s => !inRange min max s) ∧
    (inner.removeRange min max).2 + (inner.removeRange min max).1.memberScores.size =
      inner.memberScores.size := by
  obtain ⟨hlookup, hsize⟩ := Agrees.lookup_foldl_removeScore
    (inner.scores.keys.filter (inRange min max)) (show (inner, 0).1.Agrees from h)
  rw [← InnerSet.removeRange] at hlookup hsize
  refine ⟨fun m => ?_, by simpa using hsize⟩
  rw [hlookup m]
  cases hm : lookup inner.memberScores m with
  | none => rfl
  | some s =>
    have hkey : s ∈ inner.scores := by
      obtain ⟨b, hb, _⟩ := (h.key_iff m s).mp hm
      rw [Std.TreeMap.mem_iff_isSome_getElem?]
      exact Option.isSome_of_mem hb
    simp [Option.filter_some, hkey]

/-- Without a limit every member is pushed. -/
lemma pushMembers_none (result rest : List (String × Binary64)) :
    pushMembers none result rest = result ++ rest := by
  induction rest generalizing result with
  | nil => simp [pushMembers]
  | cons p rest ih => simp [pushMembers, ih]

/-- The entries in the range are the buckets in the range. -/
lemma mem_entriesInRange {inner : InnerSet} {min max : Binary64}
    {e : OrderedScore × List String} :
    e ∈ inner.entriesInRange min max ↔ lookup inner.scores e.1 = some e.2 ∧
      min.totalKey ≤ e.1.score.totalKey ∧ e.1.score.totalKey ≤ max.totalKey := by
  have hcompare : ∀ a b : OrderedScore, (compare a b).isLE = true ↔
      a.score.totalKey ≤ b.score.totalKey := fun a b =>
    Std.LawfulOrderOrd.isLE_compare a.score.totalKey b.score.totalKey
  obtain ⟨s, b⟩ := e
  rw [entriesInRange, List.mem_filter, Std.TreeMap.mem_toList_iff_getElem?_eq_some,
    Bool.and_eq_true, hcompare, hcompare]
  exact Iff.rfl

/-- The scores of two buckets in turn are in order. -/
lemma pairwise_entriesInRange (inner : InnerSet) (min max : Binary64) :
    (inner.entriesInRange min max).Pairwise fun a b =>
      a.1.score.totalKey < b.1.score.totalKey := by
  have hordered := Std.TreeMap.ordered_keys_toList (t := inner.scores)
  refine (hordered.imp fun {a b} hab => ?_).filter _
  exact Int.compare_eq_lt.mp hab

end Rust.InnerSet

/-! ### The Go set -/

namespace Go.MemorySortedSet

/-- The loop of `RemoveRange` deletes the members with a score in the range and counts them. -/
lemma foldl_removeEntry (min max : Binary64) (es : List (String × Binary64))
    (acc : Std.TreeMap String Binary64 × ℕ) :
    es.foldl (removeEntry min max) acc =
      (((es.filter fun e => inRange min max e.2).map Prod.fst).foldl (fun t k => t.erase k) acc.1,
        acc.2 + (es.filter fun e => inRange min max e.2).length) := by
  induction es generalizing acc with
  | nil => rfl
  | cons e es ih =>
    rw [List.foldl_cons, ih, removeEntry]
    by_cases he : inRange min max e.2 = true
    · simp only [he, if_true, List.filter_cons_of_pos, List.map_cons, List.foldl_cons,
        List.length_cons, Prod.mk.injEq, true_and]
      omega
    · simp [he]

/-- The entries of a map are listed once. -/
lemma nodup_toList (members : Std.TreeMap String Binary64) : members.toList.Nodup := by
  have hdistinct := Std.TreeMap.distinct_keys_toList (t := members)
  refine hdistinct.imp fun {a b} hab heq => hab ?_
  rw [heq]
  exact Std.ReflCmp.compare_self

/-- `RemoveRange` takes out the members with a score in the range, and counts them, in whatever
order it meets them. -/
lemma lookup_removeRange {rt : Runtime} (hrt : rt.Lawful) (members : Std.TreeMap String Binary64)
    (min max : Binary64) :
    let removed := (rt.iterate members.toList).foldl (removeEntry min max) (members, 0)
    (∀ m, lookup removed.1 m = (lookup members m).filter fun x => !inRange min max x) ∧
      removed.2 + removed.1.size = members.size := by
  intro removed
  have hperm := hrt.iterate_perm members.toList
  have hmem : ∀ e, e ∈ rt.iterate members.toList ↔ lookup members e.1 = some e.2 := by
    rintro ⟨k, x⟩
    rw [hperm.mem_iff, Std.TreeMap.mem_toList_iff_getElem?_eq_some]
    exact Iff.rfl
  set out := (rt.iterate members.toList).filter fun e => inRange min max e.2 with hout
  have hremoved : removed = ((out.map Prod.fst).foldl (fun t k => t.erase k) members,
      0 + out.length) := foldl_removeEntry min max _ _
  have hkeys : (out.map Prod.fst).Nodup := by
    have hall : ((rt.iterate members.toList).map Prod.fst).Nodup := by
      rw [(hperm.map Prod.fst).nodup_iff, Std.TreeMap.map_fst_toList_eq_keys]
      exact Std.TreeMap.nodup_keys
    exact (List.filter_sublist.map Prod.fst).nodup hall
  have hkey : ∀ m, m ∈ out.map Prod.fst ↔
      ∃ x, lookup members m = some x ∧ inRange min max x = true := by
    intro m
    simp only [hout, List.mem_map, List.mem_filter, hmem]
    constructor
    · rintro ⟨⟨k, x⟩, ⟨hlookup, hx⟩, rfl⟩
      exact ⟨x, hlookup, hx⟩
    · rintro ⟨x, hlookup, hx⟩
      exact ⟨(m, x), ⟨hlookup, hx⟩, rfl⟩
  rw [hremoved]
  constructor
  · intro m
    have herase := congrFun (lookup_foldl_erase members (out.map Prod.fst)) m
    simp only at herase ⊢
    rw [herase]
    cases hm : lookup members m with
    | none => simp
    | some x =>
      have hiff : m ∈ out.map Prod.fst ↔ inRange min max x = true := by
        rw [hkey m, hm]
        simp
      by_cases hx : inRange min max x = true
      · simp only [hiff, hx, if_true, Option.filter_some]
        rfl
      · simp only [hiff, hx, Option.filter_some]
        rfl
  · have hsize := size_foldl_erase hkeys fun m hm => by
      obtain ⟨x, hx, _⟩ := (hkey m).mp hm
      exact ⟨x, hx⟩
    rw [List.length_map] at hsize
    simp only
    omega

end Go.MemorySortedSet

/-! ### Simulation -/

/-- A set of the Rust store and a map of the Go store hold the same members with the same plain
scores. -/
structure SetSim (inner : Rust.InnerSet) (members : Std.TreeMap String Binary64) : Prop where
  /-- The two maps of the Rust set index one relation. -/
  agrees : inner.Agrees
  /-- The members have the same scores. -/
  lookup_eq : ∀ m, lookup members m = (lookup inner.memberScores m).map Rust.OrderedScore.score
  /-- The scores are plain. -/
  plain : ∀ m s, lookup inner.memberScores m = some s → Plain s.score

/-- New sets hold nothing. -/
lemma setSim_new : SetSim default ∅ where
  agrees := Rust.InnerSet.agrees_default
  lookup_eq m := by
    have hleft : lookup (∅ : Std.TreeMap String Binary64) m = none := Std.TreeMap.getElem?_emptyc
    have hright : lookup (default : Rust.InnerSet).memberScores m = none :=
      Std.TreeMap.getElem?_emptyc
    rw [hleft, hright]
    rfl
  plain m s hs := by
    have hnone : lookup (default : Rust.InnerSet).memberScores m = none :=
      Std.TreeMap.getElem?_emptyc
    rw [hnone] at hs
    cases hs

namespace SetSim

variable {inner : Rust.InnerSet} {members : Std.TreeMap String Binary64}

/-- A member is added to both. -/
lemma add (h : SetSim inner members) (member : String) {score : Binary64} (hscore : Plain score) :
    SetSim (inner.add member score) (members.insert member score) where
  agrees := h.agrees.add member score
  lookup_eq m := by
    have hrust : lookup (inner.add member score).memberScores =
        Function.update (lookup inner.memberScores) member (some ⟨score⟩) := lookup_insert _ _ _
    rw [hrust, lookup_insert]
    by_cases hm : m = member
    · subst hm
      simp
    · rw [Function.update_of_ne hm, Function.update_of_ne hm]
      exact h.lookup_eq m
  plain m s hs := by
    have hrust : lookup (inner.add member score).memberScores =
        Function.update (lookup inner.memberScores) member (some ⟨score⟩) := lookup_insert _ _ _
    rw [hrust] at hs
    by_cases hm : m = member
    · subst hm
      rw [Function.update_self] at hs
      obtain rfl := Option.some.inj hs
      exact hscore
    · rw [Function.update_of_ne hm] at hs
      exact h.plain m s hs

/-- The scores of a Rust set after `remove`. -/
lemma lookup_remove (inner : Rust.InnerSet) (member : String) :
    lookup (inner.remove member).memberScores =
      Function.update (lookup inner.memberScores) member none := by
  unfold Rust.InnerSet.remove
  cases hold : inner.memberScores[member]? with
  | some score => exact lookup_erase _ _
  | none => exact (Function.update_eq_self_iff.mpr hold.symm).symm

/-- A member is removed from both. -/
lemma remove (h : SetSim inner members) (member : String) :
    SetSim (inner.remove member) (members.erase member) where
  agrees := h.agrees.remove member
  lookup_eq m := by
    rw [lookup_remove, lookup_erase]
    by_cases hm : m = member
    · subst hm
      simp
    · rw [Function.update_of_ne hm, Function.update_of_ne hm]
      exact h.lookup_eq m
  plain m s hs := by
    rw [lookup_remove] at hs
    by_cases hm : m = member
    · subst hm
      rw [Function.update_self] at hs
      cases hs
    · rw [Function.update_of_ne hm] at hs
      exact h.plain m s hs

/-- The sets have the same number of members. -/
lemma size_eq (h : SetSim inner members) : inner.memberScores.size = members.size :=
  size_congr fun m => by rw [h.lookup_eq m, Option.isSome_map]

/-- A range is removed from both, and the numbers of removed members are the same. -/
lemma removeRange (h : SetSim inner members) {rt : Go.Runtime} (hrt : rt.Lawful)
    (min max : Binary64) :
    let removed := (rt.iterate members.toList).foldl (Go.MemorySortedSet.removeEntry min max)
      (members, 0)
    SetSim (inner.removeRange min max).1 removed.1 ∧
      (inner.removeRange min max).2 = removed.2 := by
  intro removed
  obtain ⟨hrust, hsize⟩ := h.agrees.lookup_removeRange min max
  obtain ⟨hgo, hsize'⟩ := Go.MemorySortedSet.lookup_removeRange hrt members min max
  have hsim : SetSim (inner.removeRange min max).1 removed.1 := by
    refine ⟨h.agrees.removeRange min max, fun m => ?_, fun m s hs => ?_⟩
    · rw [hrust m, hgo m, h.lookup_eq m, Option.filter_map]
      rfl
    · rw [hrust m] at hs
      exact h.plain m s (Option.filter_eq_some_iff.mp hs).1
  have hleft := h.size_eq
  have hright := hsim.size_eq
  have hcount : removed.2 + removed.1.size = members.size := hsize'
  refine ⟨hsim, ?_⟩
  omega

/-- Without a limit, the Rust set lists the members of a range once, in the order of their
scores. -/
lemma rangeByScore (h : SetSim inner members) {min max : Binary64} (hmin : Plain min)
    (hmax : Plain max) (hle : min.le max = true) :
    ∃ r, inner.rangeByScore min max none = some r ∧ (r.map Prod.fst).Nodup ∧
      (r.Pairwise fun a b => a.2.le b.2) ∧
      ∀ m x, (m, x) ∈ r ↔ lookup members m = some x ∧ min.le x ∧ x.le max := by
  have hgt : (compare (⟨min⟩ : Rust.OrderedScore) ⟨max⟩).isGT = false := by
    have hisLE : (compare (⟨min⟩ : Rust.OrderedScore) ⟨max⟩).isLE = true :=
      Int.isLE_compare.mpr ((Plain.le_iff hmin hmax).mp hle)
    cases hc : compare (⟨min⟩ : Rust.OrderedScore) ⟨max⟩ <;> simp_all
  have hplain : ∀ e ∈ inner.entriesInRange min max, Plain e.1.score := by
    intro e he
    have hbucket := (Rust.InnerSet.mem_entriesInRange.mp he).1
    obtain ⟨m, hm⟩ := List.exists_mem_of_ne_nil _ (h.agrees.ne_nil _ _ hbucket)
    exact h.plain m e.1 ((h.agrees.key_iff m e.1).mpr ⟨e.2, hbucket, hm⟩)
  refine ⟨(inner.entriesInRange min max).flatMap fun e => e.2.map fun m => (m, e.1.score),
    ?_, ?_, ?_, fun m x => ?_⟩
  · rw [Rust.InnerSet.rangeByScore, hgt, Rust.InnerSet.pushMembers_none]
    rfl
  · -- every member is in one bucket, and there once
    have hfst : ((inner.entriesInRange min max).flatMap fun e =>
        e.2.map fun m => (m, e.1.score)).map Prod.fst =
          (inner.entriesInRange min max).flatMap Prod.snd := by
      simp [List.map_flatMap, Function.comp_def]
    rw [hfst]
    refine h.agrees.nodup_flatMap (fun e he => (Rust.InnerSet.mem_entriesInRange.mp he).1) ?_
    refine (inner.pairwise_entriesInRange min max).imp fun {a b} hlt heq => ?_
    rw [heq] at hlt
    exact Int.lt_irrefl _ hlt
  · -- the buckets come in the order of their scores
    rw [List.pairwise_flatMap]
    constructor
    · intro e he
      rw [List.pairwise_map]
      have hrefl : e.1.score.le e.1.score = true :=
        (Plain.le_iff (hplain e he) (hplain e he)).mpr (Int.le_refl _)
      exact List.pairwise_of_forall fun _ _ => hrefl
    · refine (inner.pairwise_entriesInRange min max).imp_of_mem fun {a b} ha hb hlt => ?_
      intro p hp q hq
      obtain ⟨m, _, rfl⟩ := List.mem_map.mp hp
      obtain ⟨m', _, rfl⟩ := List.mem_map.mp hq
      exact (Plain.le_iff (hplain a ha) (hplain b hb)).mpr (Int.le_of_lt hlt)
  · rw [List.mem_flatMap, h.lookup_eq m]
    constructor
    · rintro ⟨e, he, hmem⟩
      obtain ⟨m', hm', heq⟩ := List.mem_map.mp hmem
      obtain ⟨rfl, rfl⟩ := Prod.mk.inj heq
      obtain ⟨hbucket, hlow, hhigh⟩ := Rust.InnerSet.mem_entriesInRange.mp he
      have hkey := (h.agrees.key_iff m' e.1).mpr ⟨e.2, hbucket, hm'⟩
      refine ⟨by rw [hkey]; rfl, ?_, ?_⟩
      · exact (Plain.le_iff hmin (hplain e he)).mpr hlow
      · exact (Plain.le_iff (hplain e he) hmax).mpr hhigh
    · rintro ⟨hlookup, hlow, hhigh⟩
      obtain ⟨s, hs, rfl⟩ := Option.map_eq_some_iff.mp hlookup
      have hscore := h.plain m s hs
      obtain ⟨b, hb, hm⟩ := (h.agrees.key_iff m s).mp hs
      refine ⟨(s, b), Rust.InnerSet.mem_entriesInRange.mpr ⟨hb, ?_, ?_⟩,
        List.mem_map.mpr ⟨m, hm, rfl⟩⟩
      · exact (Plain.le_iff hmin hscore).mp hlow
      · exact (Plain.le_iff hscore hmax).mp hhigh

end SetSim

/-- What the Go store lists: the members of the range, once each. -/
lemma Go.MemorySortedSet.mem_listed {rt : Go.Runtime} (hrt : rt.Lawful)
    (members : Std.TreeMap String Binary64) (min max : Binary64) :
    let listed := rt.sortSlice ((rt.iterate members.toList).filter fun e => inRange min max e.2)
    listed.Nodup ∧
      ∀ m x, (m, x) ∈ listed ↔ lookup members m = some x ∧ min.le x ∧ x.le max := by
  intro listed
  have hperm : listed.Perm (members.toList.filter fun e => inRange min max e.2) :=
    (hrt.sort_perm _).trans ((hrt.iterate_perm _).filter _)
  constructor
  · exact hperm.nodup_iff.mpr ((nodup_toList members).filter _)
  · intro m x
    rw [hperm.mem_iff, List.mem_filter, Std.TreeMap.mem_toList_iff_getElem?_eq_some, inRange,
      Bool.and_eq_true]
    exact Iff.rfl

/-- The sets of two stores simulate each other, name by name. -/
def StoreSim (st : Rust.MemorySortedSetStore) (m : Go.MemorySortedSet) : Prop :=
  ∀ set : String, Option.Rel SetSim st.sets[set]? m.sets[set]?

/-- New stores. -/
lemma storeSim_new : StoreSim .new .new := by
  intro set
  have hrust : Rust.MemorySortedSetStore.new.sets[set]? = none := Std.TreeMap.getElem?_emptyc
  have hgo : Go.MemorySortedSet.new.sets[set]? = none := Std.TreeMap.getElem?_emptyc
  rw [hrust, hgo]
  exact .none

namespace StoreSim

variable {st : Rust.MemorySortedSetStore} {m : Go.MemorySortedSet}

/-- Writing sets that simulate each other. -/
lemma insert (h : StoreSim st m) (set : String) {inner : Rust.InnerSet}
    {members : Std.TreeMap String Binary64} (hsim : SetSim inner members) :
    StoreSim ⟨st.sets.insert set inner⟩ ⟨m.sets.insert set members⟩ := by
  intro set'
  simp only [Std.TreeMap.getElem?_insert]
  by_cases hset : compare set set' = .eq
  · rw [if_pos hset, if_pos hset]
    exact .some hsim
  · rw [if_neg hset, if_neg hset]
    exact h set'

/-- A set is absent from both stores, or simulated. -/
lemma cases_set (h : StoreSim st m) (set : String) :
    (st.sets[set]? = none ∧ m.sets[set]? = none) ∨
      ∃ inner members, st.sets[set]? = some inner ∧ m.sets[set]? = some members ∧
        SetSim inner members := by
  have hset := h set
  cases hrust : st.sets[set]? with
  | none =>
    cases hgo : m.sets[set]? with
    | none => exact .inl ⟨rfl, rfl⟩
    | some members =>
      rw [hrust, hgo] at hset
      cases hset
  | some inner =>
    cases hgo : m.sets[set]? with
    | none =>
      rw [hrust, hgo] at hset
      cases hset
    | some members =>
      rw [hrust, hgo] at hset
      cases hset with
      | some hsim => exact .inr ⟨inner, members, rfl, rfl, hsim⟩

/-- A call keeps the simulation, and its answers agree. -/
theorem perform (h : StoreSim st m) {call : SortedSetCall} (hcall : call.IsPlain)
    {rt : Go.Runtime} (hrt : rt.Lawful) :
    AnswersAgree m call (st.perform call).2 (m.perform rt call).2 ∧
      StoreSim (st.perform call).1 (m.perform rt call).1 := by
  cases call with
  | add set member score =>
    refine ⟨rfl, h.insert set ?_⟩
    obtain ⟨hrust, hgo⟩ | ⟨inner, members, hrust, hgo, hsim⟩ := h.cases_set set
    · rw [hrust, hgo]
      exact setSim_new.add member hcall
    · rw [hrust, hgo]
      exact hsim.add member hcall
  | remove set member =>
    refine ⟨rfl, ?_⟩
    simp only [Rust.MemorySortedSetStore.perform, Rust.MemorySortedSetStore.remove,
      Go.MemorySortedSet.perform, Go.MemorySortedSet.remove]
    obtain ⟨hrust, hgo⟩ | ⟨inner, members, hrust, hgo, hsim⟩ := h.cases_set set
    · rw [hrust, hgo]
      exact h
    · rw [hrust, hgo]
      exact h.insert set (hsim.remove member)
  | removeRange set min max =>
    simp only [AnswersAgree, Rust.MemorySortedSetStore.perform, Go.MemorySortedSet.perform,
      Rust.MemorySortedSetStore.removeRange, Go.MemorySortedSet.removeRange]
    obtain ⟨hrust, hgo⟩ | ⟨inner, members, hrust, hgo, hsim⟩ := h.cases_set set
    · rw [hrust, hgo]
      exact ⟨rfl, h⟩
    · rw [hrust, hgo]
      obtain ⟨hsim', hnumber⟩ := hsim.removeRange hrt min max
      exact ⟨congrArg SortedSetAnswer.number hnumber, h.insert set hsim'⟩
  | count set =>
    refine ⟨congrArg SortedSetAnswer.number ?_, h⟩
    unfold Rust.MemorySortedSetStore.count Go.MemorySortedSet.count
    obtain ⟨hrust, hgo⟩ | ⟨inner, members, hrust, hgo, hsim⟩ := h.cases_set set
    · rw [hrust, hgo]
      rfl
    · rw [hrust, hgo]
      exact hsim.size_eq
  | score set member =>
    refine ⟨congrArg SortedSetAnswer.found ?_, h⟩
    unfold Rust.MemorySortedSetStore.score Go.MemorySortedSet.score
    obtain ⟨hrust, hgo⟩ | ⟨inner, members, hrust, hgo, hsim⟩ := h.cases_set set
    · rw [hrust, hgo]
    · rw [hrust, hgo]
      exact (hsim.lookup_eq member).symm
  | rangeByScore set min max =>
    refine ⟨fun hle => ?_, h⟩
    simp only [Rust.MemorySortedSetStore.perform, Go.MemorySortedSet.perform,
      Rust.MemorySortedSetStore.rangeByScore, Go.MemorySortedSet.rangeByScore,
      Go.MemorySortedSet.score]
    obtain ⟨hrust, hgo⟩ | ⟨inner, members, hrust, hgo, hsim⟩ := h.cases_set set
    · have hempty : rt.sortSlice [] = [] := (hrt.sort_perm []).eq_nil
      rw [hrust, hgo]
      exact ⟨[], [], rfl, congrArg (fun l => SortedSetAnswer.range (some l)) hempty,
        List.nodup_nil, .nil, .refl _, by simp⟩
    · obtain ⟨r, hr, hnodup, hsorted, hmem⟩ := hsim.rangeByScore hcall.1 hcall.2 hle
      obtain ⟨hlisted, hmem'⟩ := Go.MemorySortedSet.mem_listed hrt members min max
      rw [hrust, hgo]
      refine ⟨r, _, congrArg SortedSetAnswer.range hr, rfl, hnodup, hsorted, ?_, hmem⟩
      refine (List.perm_ext_iff_of_nodup (.of_map _ hnodup) hlisted).mpr ?_
      rintro ⟨member, x⟩
      exact (hmem member x).trans (hmem' member x).symm

end StoreSim

/-- Along any calls with plain scores and bounds, whatever the Go runtime chooses in each of them,
the answers of the two new stores agree. -/
theorem always_agree (calls : List (SortedSetCall × Go.Runtime))
    (hcalls : ∀ c ∈ calls, c.1.IsPlain ∧ c.2.Lawful) : AlwaysAgree .new .new calls := by
  have hrun : ∀ st m, StoreSim st m → AlwaysAgree st m calls := by
    induction calls with
    | nil => exact fun _ _ _ => trivial
    | cons c calls ih =>
      intro st m hsim
      obtain ⟨hplain, hlawful⟩ := hcalls c List.mem_cons_self
      obtain ⟨hanswers, hsim'⟩ := hsim.perform hplain hlawful
      exact ⟨hanswers, ih (fun c' hc' => hcalls c' (List.mem_cons_of_mem c hc')) _ _ hsim'⟩
  exact hrun _ _ storeSim_new

/-- Members with the scores 2 and 1, listed between 1 and 2. -/
theorem always_agree_three : AlwaysAgree .new .new
    [(.add "jobs" "a" ⟨0x4000000000000000#64⟩, .inOrder),
      (.add "jobs" "b" ⟨0x3ff0000000000000#64⟩, .inOrder),
      (.rangeByScore "jobs" ⟨0x3ff0000000000000#64⟩ ⟨0x4000000000000000#64⟩, .inOrder)] := by
  apply always_agree _
  simp only [List.forall_mem_cons, List.not_mem_nil, false_implies, implies_true, and_true]
  refine ⟨⟨?_, Go.Runtime.inOrder_lawful⟩, ⟨?_, Go.Runtime.inOrder_lawful⟩,
    ⟨?_, Go.Runtime.inOrder_lawful⟩⟩
  · exact (by decide : Plain ⟨0x4000000000000000#64⟩)
  · exact (by decide : Plain ⟨0x3ff0000000000000#64⟩)
  · exact (by decide : Plain ⟨0x3ff0000000000000#64⟩ ∧ Plain ⟨0x4000000000000000#64⟩)

end GoyStore
