import GoyStore.SortedSet.SortedSetAgreement

/-!
# Range queries of the Rust sorted set

`range_by_score` and `remove_range` of `MemorySortedSetStore` find the members of a range in two
ways.  The first asks the map of the buckets for the keys between the bounds in the total order of
the bits, and `BTreeMap::range` panics when the bounds are not in this order; the second goes
through all keys with the comparisons `>=` and `<=` of IEEE 754.

`selectsSame_iff` says for which bounds and scores the two select the same members, and
`takesFirst_iff` for which limits a range query lists as many members as it is asked for.
-/

namespace GoyStore

namespace Rust

open Runs DualIndex

/-- The score is between the bounds in the order of the map of the buckets. -/
def Between (min max x : Binary64) : Prop :=
  min.totalKey ≤ x.totalKey ∧ x.totalKey ≤ max.totalKey

instance (min max x : Binary64) : Decidable (Between min max x) :=
  inferInstanceAs (Decidable (_ ∧ _))

namespace InnerSet

variable {inner : InnerSet} {min max : Binary64}

/-! ### What the loops list -/

/-- The members of a range with their scores, in the order in which the loops of `range_by_score`
meet them. -/
def listed (inner : InnerSet) (min max : Binary64) : List (String × Binary64) :=
  (inner.entriesInRange min max).flatMap fun e => e.2.map fun member => (member, e.1.score)

/-- With bounds in order the range query pushes what the loops meet. -/
lemma rangeByScore_of_le (inner : InnerSet) (limit : Option ℕ) (h : min.totalKey ≤ max.totalKey) :
    inner.rangeByScore min max limit = some (pushMembers limit [] (inner.listed min max)) := by
  have hle : (compare (⟨min⟩ : OrderedScore) ⟨max⟩).isLE = true := Int.isLE_compare.mpr h
  have hgt : (compare (⟨min⟩ : OrderedScore) ⟨max⟩).isGT = false := by
    rw [← Ordering.not_isLE_eq_isGT, hle]
    rfl
  rw [rangeByScore, hgt]
  rfl

/-- With bounds out of order the range query panics. -/
lemma rangeByScore_of_lt (inner : InnerSet) (limit : Option ℕ) (h : max.totalKey < min.totalKey) :
    inner.rangeByScore min max limit = none := by
  have hgt : (compare (⟨min⟩ : OrderedScore) ⟨max⟩).isGT = true :=
    Ordering.isGT_iff_eq_gt.mpr (Int.compare_eq_gt.mpr h)
  rw [rangeByScore, if_pos hgt]

/-- The loops meet the members between the bounds, with their scores. -/
lemma Agrees.mem_listed (h : inner.Agrees) {m : String} {x : Binary64} :
    (m, x) ∈ inner.listed min max ↔
      lookup inner.memberScores m = some ⟨x⟩ ∧ Between min max x := by
  rw [listed, List.mem_flatMap]
  constructor
  · rintro ⟨⟨s, b⟩, he, hmem⟩
    obtain ⟨m', hm', heq⟩ := List.mem_map.mp hmem
    obtain ⟨rfl, rfl⟩ := Prod.mk.inj heq
    obtain ⟨hbucket, hbetween⟩ := mem_entriesInRange.mp he
    exact ⟨(h.key_iff m' s).mpr ⟨b, hbucket, hm'⟩, hbetween⟩
  · rintro ⟨hlookup, hbetween⟩
    obtain ⟨b, hb, hm⟩ := (h.key_iff m ⟨x⟩).mp hlookup
    exact ⟨(⟨x⟩, b), mem_entriesInRange.mpr ⟨hb, hbetween⟩, List.mem_map.mpr ⟨m, hm, rfl⟩⟩

/-- The loops meet every member once. -/
lemma Agrees.nodup_listed (h : inner.Agrees) (min max : Binary64) :
    ((inner.listed min max).map Prod.fst).Nodup := by
  have hfst : (inner.listed min max).map Prod.fst =
      (inner.entriesInRange min max).flatMap Prod.snd := by
    simp [listed, List.map_flatMap, Function.comp_def]
  rw [hfst]
  refine h.nodup_flatMap (fun e he => (mem_entriesInRange.mp he).1) ?_
  refine (inner.pairwise_entriesInRange min max).imp fun {a b} hlt heq => ?_
  rw [heq] at hlt
  exact Int.lt_irrefl _ hlt

end InnerSet

namespace MemorySortedSetStore

/-! ### Reachable stores -/

/-- The maps of a store after any calls agree. -/
lemma agrees_of_run {ops : List SortedSetOp} {st : MemorySortedSetStore}
    (h : runFrom step new ops = some st) : st.Agrees := by
  apply invariant_of_runFrom agrees_step _ h
  intro set inner hset
  have hnone : new.sets[set]? = none := Std.TreeMap.getElem?_emptyc
  rw [hnone] at hset
  cases hset

/-! ### The members of a range -/

/-- `range_by_score` returns, and it lists the members that `remove_range` would remove. -/
def SelectsSame (st : MemorySortedSetStore) (set : String) (min max : Binary64) : Prop :=
  ∃ listed, st.rangeByScore set min max none = some listed ∧
    (∀ m, m ∈ listed.map Prod.fst ↔
      st.score set m ≠ none ∧ (st.removeRange set min max).1.score set m = none) ∧
    (st.removeRange set min max).2 = listed.length ∧
    (st.removeRange set min max).1.rangeByScore set min max none = some []

/-- The bounds are in order, and the total order and the comparison `<=` do not part on a score of
the set. -/
structure ComparesSame (st : MemorySortedSetStore) (set : String) (min max : Binary64) : Prop where
  /-- The range does not start above its end. -/
  ordered : min.totalKey ≤ max.totalKey
  /-- Between numbers, no zero of the one sign is at a bound that is the zero of the other. -/
  zeros : min.isNaN = false → max.isNaN = false → ∀ m x, st.score set m = some x →
    ¬ (min = .zero ∧ x = .negZero) ∧ ¬ (max = .negZero ∧ x = .zero)
  /-- When a bound is a NaN, no score is between the bounds. -/
  nan : min.isNaN = true ∨ max.isNaN = true → ∀ m x, st.score set m = some x → ¬ Between min max x

end MemorySortedSetStore

/-- No score is between bounds of which one is a NaN. -/
lemma inRange_eq_false_of_isNaN {min max : Binary64}
    (hbounds : min.isNaN = true ∨ max.isNaN = true) (x : Binary64) :
    InnerSet.inRange min max ⟨x⟩ = false := by
  rw [InnerSet.inRange, Bool.and_eq_false_iff]
  rcases hbounds with hmin | hmax
  · exact .inl (Binary64.le_eq_false_of_isNaN (.inl hmin))
  · exact .inr (Binary64.le_eq_false_of_isNaN (.inr hmax))

/-- Where the total order and the comparison `<=` put a score on the same sides of the bounds. -/
lemma between_iff_inRange {min max : Binary64} (hle : min.totalKey ≤ max.totalKey)
    (x : Binary64) :
    (Between min max x ↔ InnerSet.inRange min max ⟨x⟩ = true) ↔
      (min.isNaN = false → max.isNaN = false →
        ¬ (min = .zero ∧ x = .negZero) ∧ ¬ (max = .negZero ∧ x = .zero)) ∧
      (min.isNaN = true ∨ max.isNaN = true → ¬ Between min max x) := by
  by_cases hbounds : min.isNaN = true ∨ max.isNaN = true
  · have hnumbers : min.isNaN = false → max.isNaN = false → False := by
      intro hmin hmax
      rw [hmin, hmax] at hbounds
      simp at hbounds
    rw [inRange_eq_false_of_isNaN hbounds, iff_false_right Bool.false_ne_true]
    constructor
    · intro hnot
      exact ⟨fun hmin hmax => (hnumbers hmin hmax).elim, fun _ => hnot⟩
    · rintro ⟨-, hnot⟩
      exact hnot hbounds
  · rw [InnerSet.inRange, Bool.and_eq_true]
    obtain ⟨hmin, hmax⟩ := not_or.mp hbounds
    rw [Bool.not_eq_true] at hmin hmax
    cases hx : x.isNaN with
    | true =>
      have hbetween : ¬ Between min max x := by
        rintro ⟨hlow, hhigh⟩
        rw [Binary64.isNaN_eq_false_of_between hmin hmax hlow hhigh] at hx
        cases hx
      have hlow : min.le x = false := Binary64.le_eq_false_of_isNaN (.inr hx)
      have hzero : x ≠ .zero := by
        rintro rfl
        exact absurd hx (by decide)
      have hnegZero : x ≠ .negZero := by
        rintro rfl
        exact absurd hx (by decide)
      rw [hlow]
      simp [hbetween, hzero, hnegZero]
    | false =>
      rw [Binary64.le_iff_of_not_isNaN hmin hx, Binary64.le_iff_of_not_isNaN hx hmax]
      simp only [Binary64.eq_zero_iff, Binary64.eq_negZero_iff, Between, hmin, hmax,
        Bool.false_eq_true, or_self, false_implies, forall_const, and_true]
      omega

namespace InnerSet

variable {inner : InnerSet} {min max : Binary64}

/-- The members that `range_by_score` lists. -/
lemma Agrees.mem_map_listed (h : inner.Agrees) {m : String} :
    m ∈ (inner.listed min max).map Prod.fst ↔
      ∃ s, lookup inner.memberScores m = some s ∧ Between min max s.score := by
  rw [List.mem_map]
  constructor
  · rintro ⟨⟨m', x⟩, hx, rfl⟩
    exact ⟨⟨x⟩, h.mem_listed.mp hx⟩
  · rintro ⟨s, hs⟩
    exact ⟨(m, s.score), h.mem_listed.mpr hs, rfl⟩

/-- When the two selections are the same, `remove_range` leaves nothing to list. -/
lemma Agrees.listed_removeRange (h : inner.Agrees)
    (hsame : ∀ m s, lookup inner.memberScores m = some s →
      (Between min max s.score ↔ inRange min max s = true)) :
    (inner.removeRange min max).1.listed min max = [] := by
  apply List.eq_nil_iff_forall_not_mem.mpr
  rintro ⟨m, x⟩ hmem
  obtain ⟨hlookup, hbetween⟩ := (h.removeRange min max).mem_listed.mp hmem
  rw [(h.lookup_removeRange min max).1 m, Option.filter_eq_some_iff] at hlookup
  have hin := (hsame m ⟨x⟩ hlookup.1).mp hbetween
  rw [hin] at hlookup
  exact absurd hlookup.2 (by decide)

/-- When the two selections are the same, `remove_range` counts what `range_by_score` lists. -/
lemma Agrees.removeRange_length (h : inner.Agrees)
    (hsame : ∀ m s, lookup inner.memberScores m = some s →
      (Between min max s.score ↔ inRange min max s = true)) :
    (inner.removeRange min max).2 = (inner.listed min max).length := by
  obtain ⟨hleft, hcount⟩ := h.lookup_removeRange min max
  have hlisted : ∀ m, m ∈ (inner.listed min max).map Prod.fst ↔
      ∃ s, lookup inner.memberScores m = some s ∧ inRange min max s = true := fun m =>
    h.mem_map_listed.trans (exists_congr fun s => and_congr_right fun hs => hsame m s hs)
  -- erasing the listed members leaves as many as `remove_range` leaves
  have hsize := size_foldl_erase (h.nodup_listed min max) fun m hm => by
    obtain ⟨s, hs, _⟩ := (hlisted m).mp hm
    exact ⟨s, hs⟩
  have hsame_size : (((inner.listed min max).map Prod.fst).foldl (fun t k => t.erase k)
      inner.memberScores).size = (inner.removeRange min max).1.memberScores.size := by
    refine size_congr fun m => ?_
    have herase := congrFun (lookup_foldl_erase inner.memberScores
      ((inner.listed min max).map Prod.fst)) m
    rw [herase, hleft m]
    cases hm : lookup inner.memberScores m with
    | none => simp
    | some s =>
      have hiff : m ∈ (inner.listed min max).map Prod.fst ↔ inRange min max s = true := by
        rw [hlisted m, hm]
        simp
      by_cases hs : inRange min max s = true
      · simp [hiff, hs, Option.filter_some]
      · simp [hiff, hs, Option.filter_some]
  rw [List.length_map] at hsize
  omega

end InnerSet

namespace MemorySortedSetStore

variable {st : MemorySortedSetStore} {set : String} {min max : Binary64}

/-- A set that is not there: nothing is listed, and nothing is removed. -/
lemma selectsSame_of_absent (hset : st.sets[set]? = none) : SelectsSame st set min max := by
  have hscore : ∀ m, st.score set m = none := fun m => by rw [score, hset]
  have hremove : st.removeRange set min max = (st, 0) := by rw [removeRange, hset]
  have hrange : st.rangeByScore set min max none = some [] := by rw [rangeByScore, hset]
  refine ⟨[], hrange, fun m => ?_, ?_, ?_⟩
  · simp [hscore]
  · rw [hremove]
    rfl
  · rw [hremove]
    exact hrange

/-- The scores of a set of the store. -/
lemma score_eq_some_iff {inner : InnerSet} (hset : st.sets[set]? = some inner) {m : String}
    {x : Binary64} : st.score set m = some x ↔ lookup inner.memberScores m = some ⟨x⟩ := by
  rw [score, hset]
  simp only [Option.map_eq_some_iff]
  constructor
  · rintro ⟨⟨y⟩, hy, rfl⟩
    exact hy
  · exact fun h => ⟨⟨x⟩, h, rfl⟩

/-- The set after `remove_range`. -/
lemma sets_removeRange {inner : InnerSet} (hset : st.sets[set]? = some inner) :
    (st.removeRange set min max).1.sets[set]? = some (inner.removeRange min max).1 ∧
      (st.removeRange set min max).2 = (inner.removeRange min max).2 := by
  rw [removeRange, hset]
  exact ⟨Std.TreeMap.getElem?_insert_self, rfl⟩

/-- The members that `remove_range` removes. -/
lemma removed_iff {inner : InnerSet} (hset : st.sets[set]? = some inner) (h : inner.Agrees)
    (m : String) :
    st.score set m ≠ none ∧ (st.removeRange set min max).1.score set m = none ↔
      ∃ s, lookup inner.memberScores m = some s ∧ InnerSet.inRange min max s = true := by
  have hleft := (h.lookup_removeRange min max).1 m
  have hafter : (st.removeRange set min max).1.score set m =
      (lookup (inner.removeRange min max).1.memberScores m).map OrderedScore.score := by
    rw [score, (sets_removeRange hset).1]
    rfl
  have hbefore : st.score set m = (lookup inner.memberScores m).map OrderedScore.score := by
    rw [score, hset]
    rfl
  rw [hafter, hbefore, hleft]
  cases hm : lookup inner.memberScores m with
  | none => simp
  | some s => simp [Option.filter_some]

/-- With bounds in order, the two comparisons part nowhere when they agree on every score of the
set. -/
lemma comparesSame_iff {inner : InnerSet} (hset : st.sets[set]? = some inner)
    (hle : min.totalKey ≤ max.totalKey) : ComparesSame st set min max ↔
      ∀ m s, lookup inner.memberScores m = some s →
        (Between min max s.score ↔ InnerSet.inRange min max s = true) := by
  constructor
  · intro hsame m s hs
    have hscore : st.score set m = some s.score := (score_eq_some_iff hset).mpr hs
    exact (between_iff_inRange hle s.score).mpr
      ⟨fun hmin hmax => hsame.zeros hmin hmax m _ hscore,
        fun hnan => hsame.nan hnan m _ hscore⟩
  · intro hsame
    have hiff : ∀ m x, st.score set m = some x → _ := fun m x hx =>
      (between_iff_inRange hle x).mp (hsame m ⟨x⟩ ((score_eq_some_iff hset).mp hx))
    exact ⟨hle, fun hmin hmax m x hx => (hiff m x hx).1 hmin hmax,
      fun hnan m x hx => (hiff m x hx).2 hnan⟩

/-- In a set that is there, the two select the same members exactly when the bounds are in order
and the total order and the comparison `<=` do not part on a score of the set. -/
lemma selectsSame_of_present {inner : InnerSet} (hset : st.sets[set]? = some inner)
    (h : inner.Agrees) : SelectsSame st set min max ↔ ComparesSame st set min max := by
  have hrange : st.rangeByScore set min max none = inner.rangeByScore min max none := by
    rw [rangeByScore, hset]
  rcases Int.lt_or_le max.totalKey min.totalKey with hlt | hle
  · -- the query panics
    refine ⟨fun hsame => ?_, fun hsame => absurd hsame.ordered (Int.not_le.mpr hlt)⟩
    obtain ⟨listed, hlisted, _⟩ := hsame
    rw [hrange, inner.rangeByScore_of_lt none hlt] at hlisted
    cases hlisted
  · have hlisted : st.rangeByScore set min max none = some (inner.listed min max) := by
      rw [hrange, inner.rangeByScore_of_le none hle, InnerSet.pushMembers_none]
      rfl
    rw [comparesSame_iff hset hle]
    constructor
    · rintro ⟨listed, hlisted', hremoved, _, _⟩ m s hs
      obtain rfl := Option.some.inj (hlisted.symm.trans hlisted')
      have hiff := h.mem_map_listed.symm.trans ((hremoved m).trans (removed_iff hset h m))
      rw [hs] at hiff
      simpa using hiff
    · intro hsame
      refine ⟨inner.listed min max, hlisted, fun m => ?_, ?_, ?_⟩
      · rw [h.mem_map_listed, removed_iff hset h m]
        exact exists_congr fun s => and_congr_right fun hs => hsame m s hs
      · rw [(sets_removeRange hset).2]
        exact h.removeRange_length hsame
      · rw [rangeByScore, (sets_removeRange hset).1]
        simp only [InnerSet.rangeByScore_of_le _ none hle, h.listed_removeRange hsame]
        rfl

/-- After any calls, `range_by_score` returns and lists the members that `remove_range` would remove
if and only if the set is not there, or its bounds are in order and the total order and the
comparison `<=` do not part on a score of the set. -/
theorem selectsSame_iff (ops : List SortedSetOp) {st : MemorySortedSetStore}
    (h : runFrom step new ops = some st) (set : String) (min max : Binary64) :
    SelectsSame st set min max ↔ st.sets[set]? = none ∨ ComparesSame st set min max := by
  cases hset : st.sets[set]? with
  | none => exact ⟨fun _ => .inl rfl, fun _ => selectsSame_of_absent hset⟩
  | some inner =>
    rw [selectsSame_of_present hset (agrees_of_run h set inner hset)]
    simp

/-- The number 1. -/
def one : Binary64 := ⟨0x3ff0000000000000#64⟩

/-- The number 2. -/
def two : Binary64 := ⟨0x4000000000000000#64⟩

/-- A range that starts above its end makes `range_by_score` panic, and a member with the score
negative zero is removed from the range between two zeros but not listed. -/
theorem not_selectsSame :
    (¬ ∀ (ops : List SortedSetOp) (st : MemorySortedSetStore), runFrom step new ops = some st →
      ∀ (set : String) (min max : Binary64), SelectsSame st set min max) ∧
    (new.add "jobs" "a" one).rangeByScore "jobs" two one none = none ∧
    (new.add "jobs" "a" .negZero).rangeByScore "jobs" .zero .zero none = some [] ∧
    ((new.add "jobs" "a" .negZero).removeRange "jobs" .zero .zero).2 = 1 := by
  have hpanic : (new.add "jobs" "a" one).rangeByScore "jobs" two one none = none := by decide
  refine ⟨fun h => ?_, hpanic, by decide, by decide⟩
  obtain ⟨listed, hlisted, _⟩ := h [.add "jobs" "a" one] _ rfl "jobs" two one
  rw [hpanic] at hlisted
  cases hlisted

/-- In the set of one member with the score 1, the two select the same members between 1 and 2. -/
theorem selectsSame_between_one_and_two :
    SelectsSame (new.add "jobs" "a" one) "jobs" one two := by
  apply (selectsSame_iff [.add "jobs" "a" one] rfl "jobs" one two).mpr
  refine .inr ⟨by decide, fun _ _ m x _ => ?_, fun hnan => ?_⟩
  · exact ⟨fun h => absurd h.1 (by decide), fun h => absurd h.1 (by decide)⟩
  · exact absurd hnan (by decide)

/-! ### The limit of a range query -/

/-- A range query with a limit lists the first members of the query without it. -/
def TakesFirst (st : MemorySortedSetStore) (set : String) (min max : Binary64) (n : ℕ) : Prop :=
  ∃ listed, st.rangeByScore set min max none = some listed ∧
    st.rangeByScore set min max (some n) = some (listed.take n)

end MemorySortedSetStore

/-- The loops stop when the result is as long as the limit, which they test after each push. -/
lemma InnerSet.pushMembers_some (n : ℕ) (result rest : List (String × Binary64))
    (h : result.length < n) :
    pushMembers (some n) result rest = result ++ rest.take (n - result.length) := by
  induction rest generalizing result with
  | nil => simp [pushMembers]
  | cons p rest ih =>
    have hone : n - result.length = n - (result.length + 1) + 1 := by omega
    rw [pushMembers, hone, List.take_succ_cons]
    by_cases hfull : n ≤ (result ++ [p]).length
    · have hend : n - (result.length + 1) = 0 := by
        rw [List.length_append, List.length_singleton] at hfull
        omega
      rw [hend, List.take_zero]
      simp only [Option.any_some, decide_eq_true_eq.mpr hfull, if_true]
    · have hnext := ih (result ++ [p]) (Nat.lt_of_not_le hfull)
      rw [List.length_append, List.length_singleton, List.append_assoc, List.singleton_append]
        at hnext
      simp only [Option.any_some, hfull, decide_false, Bool.false_eq_true, if_false]
      exact hnext

/-- With the limit 0 the loops list one member, if there is one. -/
lemma InnerSet.pushMembers_zero (rest : List (String × Binary64)) :
    pushMembers (some 0) [] rest = rest.take 1 := by
  cases rest with
  | nil => rfl
  | cons p rest => simp [pushMembers]

/-- What a range query with a limit lists. -/
lemma InnerSet.pushMembers_limit (n : ℕ) (rest : List (String × Binary64)) :
    pushMembers (some n) [] rest = rest.take (n ⊔ 1) := by
  rcases Nat.eq_zero_or_pos n with rfl | hpos
  · exact pushMembers_zero rest
  · have hmax : n ⊔ 1 = n := Nat.max_eq_left hpos
    rw [pushMembers_some n [] rest hpos, hmax]
    simp

namespace MemorySortedSetStore

/-- After any calls and with bounds in order, a range query with the limit `n` lists the first `n`
members of the range if and only if `n` is positive or no member has a score in the range. -/
theorem takesFirst_iff (ops : List SortedSetOp) {st : MemorySortedSetStore}
    (h : runFrom step new ops = some st) (set : String) {min max : Binary64}
    (hle : min.totalKey ≤ max.totalKey) (n : ℕ) :
    TakesFirst st set min max n ↔
      0 < n ∨ ∀ m x, st.score set m = some x → ¬ Between min max x := by
  cases hset : st.sets[set]? with
  | none =>
    have hscore : ∀ m, st.score set m = none := fun m => by rw [score, hset]
    have hrange : ∀ limit, st.rangeByScore set min max limit = some [] := fun limit => by
      rw [rangeByScore, hset]
    refine ⟨fun _ => .inr fun m x hx => ?_, fun _ => ⟨[], hrange none, ?_⟩⟩
    · rw [hscore m] at hx
      cases hx
    · rw [hrange (some n), List.take_nil]
  | some inner =>
    have hinner : inner.Agrees := agrees_of_run h set inner hset
    have hrange : ∀ limit, st.rangeByScore set min max limit =
        some (InnerSet.pushMembers limit [] (inner.listed min max)) := fun limit => by
      rw [rangeByScore, hset]
      exact inner.rangeByScore_of_le limit hle
    have hempty : inner.listed min max = [] ↔
        ∀ m x, st.score set m = some x → ¬ Between min max x := by
      rw [List.eq_nil_iff_forall_not_mem]
      constructor
      · exact fun hnil m x hx hbetween =>
          hnil (m, x) (hinner.mem_listed.mpr ⟨(score_eq_some_iff hset).mp hx, hbetween⟩)
      · rintro hnone ⟨m, x⟩ hmem
        obtain ⟨hlookup, hbetween⟩ := hinner.mem_listed.mp hmem
        exact hnone m x ((score_eq_some_iff hset).mpr hlookup) hbetween
    have htakes : TakesFirst st set min max n ↔
        (inner.listed min max).take (n ⊔ 1) = (inner.listed min max).take n := by
      unfold TakesFirst
      simp only [hrange, InnerSet.pushMembers_limit, InnerSet.pushMembers_none, Option.some.injEq]
      simp
    rw [htakes, ← hempty]
    rcases Nat.eq_zero_or_pos n with rfl | hpos
    · simp
    · have hmax : n ⊔ 1 = n := Nat.max_eq_left hpos
      rw [hmax]
      exact ⟨fun _ => .inl hpos, fun _ => rfl⟩

/-- With the limit 0 a range query lists a member. -/
theorem not_takesFirst_zero :
    ¬ ∀ (ops : List SortedSetOp) (st : MemorySortedSetStore), runFrom step new ops = some st →
      ∀ (set : String) (min max : Binary64), min.totalKey ≤ max.totalKey →
        ∀ n, TakesFirst st set min max n := by
  intro h
  obtain ⟨listed, _, hlimit⟩ := h [.add "jobs" "a" one] _ rfl "jobs" one two (by decide) 0
  have hone : (new.add "jobs" "a" one).rangeByScore "jobs" one two (some 0) =
      some [("a", one)] := by decide
  rw [hone, List.take_zero] at hlimit
  cases hlimit

/-- Of two members with the score 1, the first is listed with the limit 1. -/
theorem takesFirst_one :
    TakesFirst ((new.add "jobs" "b" one).add "jobs" "a" one) "jobs" one two 1 :=
  (takesFirst_iff [.add "jobs" "b" one, .add "jobs" "a" one] rfl "jobs" (by decide) 1).mpr
    (.inl Nat.one_pos)

end MemorySortedSetStore

end Rust

end GoyStore
