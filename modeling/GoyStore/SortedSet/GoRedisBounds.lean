import GoyStore.Library.DecimalText
import GoyStore.SortedSet.SortedSetAgreement
import Mathlib.Data.List.Sort

/-!
# The bounds that the Go Redis sorted set sends

`RangeByScore` and `RemoveRange` of `RedisSortedSetStore` print their bounds with `%f`, which keeps
six decimals, and the server compares the scores with the printed numbers.

`sendsFaithfully_iff` says for which contents of a set the members between the printed bounds are
those between the given ones.
-/

/-- The number that the bits of a finite number stand for. -/
def Binary64.toRat (x : Binary64) : ℚ := x.value.getD 0 / 2 ^ 1074

namespace GoyStore

namespace Go

open DecimalText

/-- The sorted sets on a server, with the scores of their members. -/
abbrev SortedSets := String → Std.TreeMap String Binary64

/-- The verb `%f`: the sign, the whole part and six decimals of a finite number. -/
def sprintfF (x : Binary64) : List Char :=
  fixed 6 x.bits.msb (roundHalfEven (x.magnitude / 2 ^ 1074 * 10 ^ 6)).toNat

/-- The bound that a text with six decimals stands for. -/
def printed (x : Binary64) : ℚ := roundHalfEven (x.toRat * 10 ^ 6) / 10 ^ 6

/-- What the store uses of a Redis server. -/
structure RedisServer where
  /-- `ZRangeByScoreWithScores`, from the bounds and the count of the options. -/
  zRangeByScoreWithScores :
    SortedSets → String → List Char → List Char → ℤ → List (String × Binary64)
  /-- `ZRemRangeByScore`, with the number of removed members. -/
  zRemRangeByScore : SortedSets → String → List Char → List Char → SortedSets × ℤ

/-- The server takes the texts of its bounds as decimal numbers, both of them included. -/
structure RedisServer.Lawful (server : RedisServer) : Prop where
  /-- A range is listed once. -/
  range_nodup : ∀ sets set low high,
    (server.zRangeByScoreWithScores sets set low high 0).Nodup
  /-- Without a count, a range has the members between the bounds. -/
  mem_range : ∀ sets set low high a b, value low = some a → value high = some b →
    ∀ (member : String) (score : Binary64),
      (member, score) ∈ server.zRangeByScoreWithScores sets set low high 0 ↔
        (sets set)[member]? = some score ∧ a ≤ score.toRat ∧ score.toRat ≤ b
  /-- The members between the bounds are removed. -/
  getElem?_remRange : ∀ sets set low high a b, value low = some a → value high = some b →
    ∀ member : String, ((server.zRemRangeByScore sets set low high).1 set)[member]? =
      ((sets set)[member]?).filter fun score : Binary64 =>
        ¬ (a ≤ score.toRat ∧ score.toRat ≤ b)
  /-- Other sets are not changed. -/
  remRange_other : ∀ sets set low high set', set' ≠ set →
    (server.zRemRangeByScore sets set low high).1 set' = sets set'

/-- A server that reads its bounds as decimal numbers. -/
def RedisServer.decimal : RedisServer where
  zRangeByScoreWithScores sets set low high count :=
    match value low, value high with
    | some a, some b =>
      let found := (sets set).toList.filter fun e => a ≤ e.2.toRat ∧ e.2.toRat ≤ b
      let sorted := found.mergeSort fun d e => d.2.toRat ≤ e.2.toRat
      if count ≤ 0 then sorted else sorted.take count.toNat
    | _, _ => []
  zRemRangeByScore sets set low high :=
    match value low, value high with
    | some a, some b =>
      let left := (sets set).filter fun _ score => ¬ (a ≤ score.toRat ∧ score.toRat ≤ b)
      (Function.update sets set left, (sets set).size - left.size)
    | _, _ => (sets, 0)

/-- This server is lawful. -/
lemma RedisServer.decimal_lawful : RedisServer.decimal.Lawful where
  range_nodup sets set low high := by
    simp only [RedisServer.decimal, le_refl, if_true]
    split
    · exact (List.mergeSort_perm _ _).nodup_iff.mpr ((MemorySortedSet.nodup_toList _).filter _)
    · exact List.nodup_nil
  mem_range sets set low high a b hlow hhigh member score := by
    simp only [RedisServer.decimal, le_refl, if_true, hlow, hhigh, List.mem_mergeSort,
      List.mem_filter, Std.TreeMap.mem_toList_iff_getElem?_eq_some, decide_eq_true_iff]
  getElem?_remRange sets set low high a b hlow hhigh member := by
    simp only [RedisServer.decimal, hlow, hhigh, Function.update_self,
      Std.TreeMap.getElem?_filter']
  remRange_other sets set low high set' hne := by
    simp only [RedisServer.decimal]
    split
    · exact Function.update_of_ne hne _ _
    · rfl

namespace RedisSortedSetStore

/-- `RangeByScore`. -/
def rangeByScore (server : RedisServer) (sets : SortedSets) (set : String) (min max : Binary64)
    (limit : Option ℤ) : List (String × Binary64) :=
  -- a count of zero is no limit
  server.zRangeByScoreWithScores sets set (sprintfF min) (sprintfF max) (limit.getD 0)

/-- `RemoveRange`. -/
def removeRange (server : RedisServer) (sets : SortedSets) (set : String) (min max : Binary64) :
    SortedSets × ℤ :=
  server.zRemRangeByScore sets set (sprintfF min) (sprintfF max)

/-- The range query has exactly the members between the given bounds, and the removal removes
exactly these. -/
structure SendsFaithfully (server : RedisServer) (sets : SortedSets) (set : String)
    (min max : Binary64) : Prop where
  /-- No member comes twice. -/
  nodup : (rangeByScore server sets set min max none).Nodup
  /-- The members of the range. -/
  mem_range : ∀ (member : String) (score : Binary64),
    (member, score) ∈ rangeByScore server sets set min max none ↔
      (sets set)[member]? = some score ∧ min.toRat ≤ score.toRat ∧ score.toRat ≤ max.toRat
  /-- The members that are left. -/
  removed : ∀ member : String, ((removeRange server sets set min max).1 set)[member]? =
    ((sets set)[member]?).filter fun score : Binary64 =>
      ¬ (min.toRat ≤ score.toRat ∧ score.toRat ≤ max.toRat)
  /-- Other sets are not changed. -/
  others : ∀ set', set' ≠ set → (removeRange server sets set min max).1 set' = sets set'

/-- No score of a member is between a bound and its text with six decimals, and on the inner side of
the other bound. -/
def ScoresClear (members : Std.TreeMap String Binary64) (min max : Binary64) : Prop :=
  ∀ (member : String) (score : Binary64), members[member]? = some score →
    ¬ (min.toRat ⊓ printed min ≤ score.toRat ∧ score.toRat < min.toRat ⊔ printed min ∧
      score.toRat ≤ max.toRat ⊓ printed max) ∧
    ¬ (max.toRat ⊓ printed max < score.toRat ∧ score.toRat ≤ max.toRat ⊔ printed max ∧
      min.toRat ⊔ printed min ≤ score.toRat)

variable {server : RedisServer} {sets : SortedSets} {set : String} {min max : Binary64}

/-- The number of a finite number is its magnitude with its sign. -/
lemma toRat_eq {x : Binary64} (hx : x.IsFinite) :
    x.toRat = (if x.bits.msb then -1 else 1) * ((x.magnitude : ℚ) / 2 ^ 1074) := by
  rw [Binary64.toRat, Binary64.value_of_isFinite hx, Option.getD_some]
  cases x.bits.msb with
  | true => rw [if_pos rfl, if_pos rfl, Int.cast_neg, Int.cast_natCast, neg_div, neg_one_mul]
  | false => rw [if_neg Bool.false_ne_true, if_neg Bool.false_ne_true, Int.cast_natCast, one_mul]

/-- The text of a bound stands for the bound rounded to six decimals. -/
lemma value_sprintfF {x : Binary64} (hx : x.IsFinite) : value (sprintfF x) = some (printed x) := by
  have hnonneg : (0 : ℚ) ≤ x.magnitude / 2 ^ 1074 * 10 ^ 6 := by positivity
  have hcast : (((roundHalfEven ((x.magnitude : ℚ) / 2 ^ 1074 * 10 ^ 6)).toNat : ℤ) : ℚ) =
      roundHalfEven ((x.magnitude : ℚ) / 2 ^ 1074 * 10 ^ 6) := by
    rw [Int.toNat_of_nonneg (roundHalfEven_nonneg hnonneg)]
  rw [Int.cast_natCast] at hcast
  rw [sprintfF, value_fixed (by decide), hcast, printed, toRat_eq hx]
  cases x.bits.msb with
  | true =>
    rw [if_pos rfl, neg_one_mul, neg_one_mul, neg_mul, roundHalfEven_neg, Int.cast_neg, neg_div]
  | false => rw [if_neg Bool.false_ne_true, one_mul, one_mul]

/-- The order of the bounds is kept. -/
lemma printed_le_printed (h : min.toRat ≤ max.toRat) : printed min ≤ printed max := by
  have hmul : min.toRat * 10 ^ 6 ≤ max.toRat * 10 ^ 6 :=
    mul_le_mul_of_nonneg_right h (by positivity)
  have hround : (roundHalfEven (min.toRat * 10 ^ 6) : ℚ) ≤
      roundHalfEven (max.toRat * 10 ^ 6) := by
    exact_mod_cast roundHalfEven_monotone hmul
  exact div_le_div_of_nonneg_right hround (by positivity)

/-- Two ranges agree on a number unless it is in a gap between their bounds. -/
lemma between_iff {a b a' b' s : ℚ} (h : a ≤ b) (h' : a' ≤ b') :
    (a ≤ s ∧ s ≤ b ↔ a' ≤ s ∧ s ≤ b') ↔
      ¬ (a ⊓ a' ≤ s ∧ s < a ⊔ a' ∧ s ≤ b ⊓ b') ∧
      ¬ (b ⊓ b' < s ∧ s ≤ b ⊔ b' ∧ a ⊔ a' ≤ s) := by
  rw [inf_le_iff, lt_sup_iff, le_inf_iff, inf_lt_iff, le_sup_iff, sup_le_iff]
  grind

/-- A Redis range query and removal of the Go store take the given bounds faithfully if and only if
no score is in a gap between a bound and its text. -/
theorem sendsFaithfully_iff (hserver : server.Lawful) (sets : SortedSets) (set : String)
    (hmin : min.IsFinite) (hmax : max.IsFinite) (hle : min.toRat ≤ max.toRat) :
    SendsFaithfully server sets set min max ↔ ScoresClear (sets set) min max := by
  have hrange := hserver.mem_range sets set _ _ _ _ (value_sprintfF hmin) (value_sprintfF hmax)
  have hremoved :=
    hserver.getElem?_remRange sets set _ _ _ _ (value_sprintfF hmin) (value_sprintfF hmax)
  have hsent := printed_le_printed hle
  constructor
  · intro h member score hscore
    refine (between_iff hle hsent).mp ?_
    have hmem := (h.mem_range member score).symm.trans (hrange member score)
    rwa [and_iff_right hscore, and_iff_right hscore] at hmem
  · intro h
    have hsame : ∀ (member : String) (score : Binary64), (sets set)[member]? = some score →
        (min.toRat ≤ score.toRat ∧ score.toRat ≤ max.toRat ↔
          printed min ≤ score.toRat ∧ score.toRat ≤ printed max) :=
      fun member score hscore => (between_iff hle hsent).mpr (h member score hscore)
    refine ⟨hserver.range_nodup _ _ _ _, fun member score => ?_, fun member => ?_,
      hserver.remRange_other _ _ _ _⟩
    · exact (hrange member score).trans
        (and_congr_right fun hscore => (hsame member score hscore).symm)
    · rw [removeRange, hremoved member]
      cases hscore : (sets set)[member]? with
      | none => rfl
      | some score =>
        have hkept : decide (¬ (printed min ≤ score.toRat ∧ score.toRat ≤ printed max)) =
            decide (¬ (min.toRat ≤ score.toRat ∧ score.toRat ≤ max.toRat)) :=
          decide_eq_decide.mpr (not_congr (hsame member score hscore).symm)
        rw [Option.filter_some, Option.filter_some, hkept]

/-- The bound 1 is sent as it is: the range from 1 to 1 has the member with the score 1. -/
theorem sendsFaithfully_one :
    let sets : SortedSets := fun _ => (∅ : Std.TreeMap String Binary64).insert "a"
      ⟨0x3ff0000000000000#64⟩
    RedisServer.decimal.Lawful ∧
      SendsFaithfully .decimal sets "s" ⟨0x3ff0000000000000#64⟩ ⟨0x3ff0000000000000#64⟩ := by
  intro sets
  refine ⟨RedisServer.decimal_lawful, (sendsFaithfully_iff RedisServer.decimal_lawful sets "s"
    (by decide) (by decide) le_rfl).mpr fun member score _ => ?_⟩
  -- the bound and its text are one number, so there is no gap between them
  have hprinted : printed ⟨0x3ff0000000000000#64⟩ = Binary64.toRat ⟨0x3ff0000000000000#64⟩ := by
    decide +kernel
  rw [hprinted, inf_idem, sup_idem]
  exact ⟨fun h => absurd h.1 (not_le.mpr h.2.1), fun h => absurd h.1 (not_lt.mpr h.2.1)⟩

/-- The bound 2⁻²¹ is sent as zero: the range from 2⁻²¹ to 2⁻²¹ has the member with the score zero.
-/
theorem not_sendsFaithfully :
    let sets : SortedSets := fun _ => (∅ : Std.TreeMap String Binary64).insert "a" .zero
    RedisServer.decimal.Lawful ∧
      ¬ SendsFaithfully .decimal sets "s" ⟨0x3ea0000000000000#64⟩ ⟨0x3ea0000000000000#64⟩ := by
  intro sets
  refine ⟨RedisServer.decimal_lawful, fun h => ?_⟩
  have hmember : ("a", Binary64.zero) ∈ rangeByScore .decimal sets "s" ⟨0x3ea0000000000000#64⟩
      ⟨0x3ea0000000000000#64⟩ none := by decide +kernel
  have hscore := ((h.mem_range "a" .zero).mp hmember).2.1
  exact absurd hscore (by decide +kernel)

end RedisSortedSetStore

end Go

end GoyStore
