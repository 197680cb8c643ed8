import Mathlib.Algebra.Order.Ring.Int
import GoyStore.Library.Ties
import GoyStore.SortedSet.SortedSetAgreement

/-!
# Range queries of the Go sorted set

`RangeByScore` of `memorySortedSet` collects the members of a range in the order in which the
iteration of a map yields them, sorts them with `sort.Slice` by their scores alone, and cuts the
result at the limit, a signed number.

The iteration and the order of equal scores are choices of the runtime, and `result[:*limit]`
panics when the limit is negative.  `wellDefined_iff` says when neither can be seen.
-/

namespace GoyStore

namespace Go

open DualIndex Ties

/-- The score of an entry as a number. -/
def scoreKey (e : String × Binary64) : ℤ := e.2.value.getD 0

/-- A runtime that sorts one list of entries in a given way. -/
def Runtime.sorting (entries sorted : List (String × Binary64)) : Runtime where
  iterate es := es
  sortSlice es := if es = entries then sorted else Runtime.inOrder.sortSlice es

namespace MemorySortedSet

/-- `RangeByScore`; `none` is a panic. -/
def rangeByScoreUpTo (rt : Runtime) (m : MemorySortedSet) (set : String) (min max : Binary64)
    (limit : Option ℤ) : Option (List (String × Binary64)) :=
  let result := m.rangeByScore rt set min max
  match limit with
  | none => some result
  | some limit =>
    if limit < result.length then
      -- `result[:*limit]`
      if limit < 0 then none else some (result.take limit.toNat)
    else some result

/-- The entries of a set that are in a range. -/
def entriesInRange (m : MemorySortedSet) (set : String) (min max : Binary64) :
    List (String × Binary64) :=
  (m.sets[set]?.getD ∅).toList.filter fun e => inRange min max e.2

/-- Whatever the runtime chooses, the query returns the members of the range in the order of their
scores, up to the limit, and always the same list. -/
def WellDefined (m : MemorySortedSet) (set : String) (min max : Binary64) (limit : Option ℤ) :
    Prop :=
  ∃ listed : List (String × Binary64), listed.Nodup ∧
    (∀ member score, (member, score) ∈ listed ↔
      m.score set member = some score ∧ min.le score ∧ score.le max) ∧
    (listed.Pairwise fun a b => a.2.le b.2) ∧
    ∀ rt : Runtime, rt.Lawful → m.rangeByScoreUpTo rt set min max limit =
      some (listed.take (limit.elim listed.length Int.toNat))

/-- Members of the range with equal scores come after the limit: at least as many members of the
range have a lower score. -/
def TiesCutOff (m : MemorySortedSet) (set : String) (min max : Binary64) (limit : Option ℤ) :
    Prop :=
  ∀ a b x y, a ≠ b → m.score set a = some x → m.score set b = some y →
    inRange min max x = true → inRange min max y = true → x.le y = true → y.le x = true →
      ∃ n, limit = some n ∧ n ≤ ((m.entriesInRange set min max).countP fun e => !x.le e.2 : ℕ)

variable {m : MemorySortedSet} {set : String} {min max : Binary64} {limit : Option ℤ}

/-- A score in a range is a number. -/
lemma isNaN_of_inRange {x : Binary64} (h : inRange min max x = true) : x.isNaN = false := by
  rw [inRange, Bool.and_eq_true] at h
  rw [← Bool.not_eq_true]
  intro hnan
  rw [Binary64.le_eq_false_of_isNaN (.inr hnan)] at h
  exact Bool.false_ne_true h.1

/-- The comparison of numbers is that of their keys. -/
lemma le_iff_scoreKey {a b : String × Binary64} (ha : a.2.isNaN = false) (hb : b.2.isNaN = false) :
    a.2.le b.2 = true ↔ scoreKey a ≤ scoreKey b := by
  have hv := Binary64.value_of_not_isNaN ha
  have hw := Binary64.value_of_not_isNaN hb
  rw [Binary64.le, hv, hw, scoreKey, scoreKey, hv, hw]
  exact decide_eq_true_iff

/-- The entries of a range. -/
lemma mem_entriesInRange {member : String} {score : Binary64} :
    (member, score) ∈ m.entriesInRange set min max ↔
      m.score set member = some score ∧ inRange min max score = true := by
  rw [entriesInRange, List.mem_filter, Std.TreeMap.mem_toList_iff_getElem?_eq_some,
    MemorySortedSet.score]
  cases m.sets[set]? with
  | none => simp
  | some members => exact Iff.rfl

/-- The entries of a range are numbers. -/
lemma isNaN_of_mem {e : String × Binary64} (he : e ∈ m.entriesInRange set min max) :
    e.2.isNaN = false :=
  isNaN_of_inRange (mem_entriesInRange.mp he).2

/-- The entries of a range come once. -/
lemma nodup_entriesInRange (m : MemorySortedSet) (set : String) (min max : Binary64) :
    (m.entriesInRange set min max).Nodup :=
  (nodup_toList _).filter _

/-- Whatever the runtime chooses, a query sorts the entries of the range. -/
lemma arranges_rangeByScore {rt : Runtime} (hrt : rt.Lawful) :
    Arranges scoreKey (m.entriesInRange set min max) (m.rangeByScore rt set min max) := by
  have hperm : (m.rangeByScore rt set min max).Perm (m.entriesInRange set min max) := by
    rw [rangeByScore, entriesInRange]
    refine (hrt.sort_perm _).trans ?_
    cases m.sets[set]? with
    | none => exact .refl _
    | some members => exact (hrt.iterate_perm _).filter _
  refine ⟨hperm, ?_⟩
  have hsorted : (m.rangeByScore rt set min max).Pairwise fun a b => a.2.le b.2 := by
    rw [rangeByScore]
    refine hrt.sort_sorted _ fun e he => ?_
    have hlisted := (hrt.sort_perm _).mem_iff.mpr he
    exact isNaN_of_mem (hperm.mem_iff.mp hlisted)
  refine hsorted.imp_of_mem fun {a b} ha hb hab => ?_
  exact (le_iff_scoreKey (isNaN_of_mem (hperm.mem_iff.mp ha))
    (isNaN_of_mem (hperm.mem_iff.mp hb))).mp hab

/-- A runtime that keeps the order of the map sorts the entries of the range. -/
lemma rangeByScore_of_iterate {rt : Runtime} (h : ∀ es, rt.iterate es = es) :
    m.rangeByScore rt set min max = rt.sortSlice (m.entriesInRange set min max) := by
  rw [rangeByScore, entriesInRange]
  cases m.sets[set]? with
  | none => rfl
  | some members =>
    simp only [h]
    rfl

/-- Every way to sort the entries of a range is the choice of some runtime. -/
lemma exists_runtime {sorted : List (String × Binary64)}
    (h : Arranges scoreKey (m.entriesInRange set min max) sorted) :
    ∃ rt : Runtime, rt.Lawful ∧ m.rangeByScore rt set min max = sorted := by
  refine ⟨.sorting (m.entriesInRange set min max) sorted, ⟨fun _ => .refl _, ?_, ?_⟩, ?_⟩
  · intro entries
    simp only [Runtime.sorting]
    split_ifs with heq
    · rw [heq]
      exact h.perm
    · exact Runtime.inOrder_lawful.sort_perm entries
  · intro entries hnumbers
    simp only [Runtime.sorting]
    split_ifs with heq
    · refine h.sorted.imp_of_mem fun {a b} ha hb hab => ?_
      exact (le_iff_scoreKey (isNaN_of_mem (h.perm.mem_iff.mp ha))
        (isNaN_of_mem (h.perm.mem_iff.mp hb))).mpr hab
    · exact Runtime.inOrder_lawful.sort_sorted entries hnumbers
  · rw [rangeByScore_of_iterate fun _ => rfl]
    exact if_pos rfl

/-- A limit that is not negative cuts the result. -/
lemma rangeByScoreUpTo_eq (rt : Runtime) (hlimit : ∀ n, limit = some n → 0 ≤ n) :
    m.rangeByScoreUpTo rt set min max limit = some ((m.rangeByScore rt set min max).take
      (limit.elim (m.rangeByScore rt set min max).length Int.toNat)) := by
  rcases limit with - | n
  · exact congrArg some (List.take_length).symm
  · have hn := hlimit n rfl
    simp only [rangeByScoreUpTo, Option.elim_some]
    split_ifs with hcut hneg
    · omega
    · rfl
    · rw [List.take_of_length_le (by omega)]

/-- The entries with a lower score are those below. -/
lemma countP_eq_below {e : String × Binary64} (he : e ∈ m.entriesInRange set min max) :
    ((m.entriesInRange set min max).countP fun d => !e.2.le d.2) =
      below scoreKey (m.entriesInRange set min max) e := by
  refine List.countP_congr fun d hd => ?_
  rw [Bool.not_eq_true', ← Bool.not_eq_true, le_iff_scoreKey (isNaN_of_mem he) (isNaN_of_mem hd),
    not_le, decide_eq_true_iff]

/-- An entry is not below itself. -/
lemma below_lt_length {e : String × Binary64} (he : e ∈ m.entriesInRange set min max) :
    below scoreKey (m.entriesInRange set min max) e < (m.entriesInRange set min max).length := by
  refine lt_of_le_of_ne List.countP_le_length fun heq => ?_
  have hself := List.countP_eq_length.mp heq e he
  rw [decide_eq_true_iff] at hself
  exact lt_irrefl _ hself

/-- The ties of the range, by the keys of the scores. -/
lemma tiesCutOff_iff (hlimit : ∀ n, limit = some n → 0 ≤ n) :
    m.TiesCutOff set min max limit ↔ TiesFrom scoreKey (m.entriesInRange set min max)
      (limit.elim (m.entriesInRange set min max).length Int.toNat) := by
  constructor
  · rintro h ⟨a, x⟩ ha ⟨b, y⟩ hb hne hkey
    obtain ⟨hax, hx⟩ := mem_entriesInRange.mp ha
    obtain ⟨hby, hy⟩ := mem_entriesInRange.mp hb
    have hmembers : a ≠ b := by
      rintro rfl
      rw [hax] at hby
      exact hne (congrArg (Prod.mk a) (Option.some.inj hby))
    have hxy := (le_iff_scoreKey (isNaN_of_mem ha) (isNaN_of_mem hb)).mpr hkey.le
    have hyx := (le_iff_scoreKey (isNaN_of_mem hb) (isNaN_of_mem ha)).mpr hkey.ge
    obtain ⟨n, rfl, hn⟩ := h a b x y hmembers hax hby hx hy hxy hyx
    rw [countP_eq_below ha] at hn
    exact Int.toNat_le.mpr hn
  · intro h a b x y hne hax hby hx hy hxy hyx
    have ha := mem_entriesInRange.mpr ⟨hax, hx⟩
    have hb := mem_entriesInRange.mpr ⟨hby, hy⟩
    have hkey : scoreKey (a, x) = scoreKey (b, y) :=
      le_antisymm ((le_iff_scoreKey (isNaN_of_mem ha) (isNaN_of_mem hb)).mp hxy)
        ((le_iff_scoreKey (isNaN_of_mem hb) (isNaN_of_mem ha)).mp hyx)
    have hbelow := h _ ha _ hb (fun heq => hne (congrArg Prod.fst heq)) hkey
    rcases limit with - | n
    · exact absurd hbelow (below_lt_length ha).not_ge
    · refine ⟨n, rfl, ?_⟩
      rw [countP_eq_below ha]
      exact Int.toNat_le.mp hbelow

/-- A range query of the Go store is well defined if and only if its limit is not negative and the
members of the range with equal scores come after the limit. -/
theorem wellDefined_iff (m : MemorySortedSet) (set : String) (min max : Binary64)
    (limit : Option ℤ) : m.WellDefined set min max limit ↔
      (∀ n, limit = some n → 0 ≤ n) ∧ m.TiesCutOff set min max limit := by
  constructor
  · rintro ⟨listed, -, -, -, hquery⟩
    have hlimit : ∀ n, limit = some n → 0 ≤ n := by
      rintro n rfl
      by_contra hneg
      -- the slice expression panics
      have hpanics := hquery _ Runtime.inOrder_lawful
      rw [rangeByScoreUpTo, if_pos (by omega), if_pos (by omega)] at hpanics
      cases hpanics
    refine ⟨hlimit, (tiesCutOff_iff hlimit).mpr ((take_eq_iff _ _ _).mp ?_)⟩
    have hone : ∀ as, Arranges scoreKey (m.entriesInRange set min max) as →
        as.take (limit.elim (m.entriesInRange set min max).length Int.toNat) =
          listed.take (limit.elim listed.length Int.toNat) := by
      intro as has
      obtain ⟨rt, hrt, rfl⟩ := exists_runtime has
      have hresult := hquery rt hrt
      rw [rangeByScoreUpTo_eq rt hlimit, has.perm.length_eq] at hresult
      exact Option.some.inj hresult
    exact fun as bs has hbs => (hone as has).trans (hone bs hbs).symm
  · rintro ⟨hlimit, hties⟩
    have harranged : Arranges scoreKey (m.entriesInRange set min max)
        (m.rangeByScore .inOrder set min max) := arranges_rangeByScore Runtime.inOrder_lawful
    refine ⟨m.rangeByScore .inOrder set min max,
      harranged.perm.nodup_iff.mpr (nodup_entriesInRange m set min max), ?_, ?_, ?_⟩
    · intro member score
      rw [harranged.perm.mem_iff, mem_entriesInRange, inRange, Bool.and_eq_true]
    · refine harranged.sorted.imp_of_mem fun {a b} ha hb hab => ?_
      exact (le_iff_scoreKey (isNaN_of_mem (harranged.perm.mem_iff.mp ha))
        (isNaN_of_mem (harranged.perm.mem_iff.mp hb))).mpr hab
    · intro rt hrt
      have hrt' : Arranges scoreKey (m.entriesInRange set min max)
          (m.rangeByScore rt set min max) := arranges_rangeByScore hrt
      rw [rangeByScoreUpTo_eq rt hlimit, hrt'.perm.length_eq, harranged.perm.length_eq]
      exact congrArg some (hrt'.take_eq harranged ((tiesCutOff_iff hlimit).mp hties))

/-- A limit of -1 panics, and two members with the score 1 come in either order. -/
theorem exists_not_wellDefined :
    let m := new.add "s" "a" ⟨0x3ff0000000000000#64⟩
    let m' := m.add "s" "b" ⟨0x3ff0000000000000#64⟩
    ¬ m.WellDefined "s" ⟨0x3ff0000000000000#64⟩ ⟨0x3ff0000000000000#64⟩ (some (-1)) ∧
      ¬ m'.WellDefined "s" ⟨0x3ff0000000000000#64⟩ ⟨0x3ff0000000000000#64⟩ none := by
  intro m m'
  constructor
  · rintro ⟨listed, -, -, -, hquery⟩
    have hpanics := hquery _ Runtime.inOrder_lawful
    rw [rangeByScoreUpTo, if_pos (by omega), if_pos (by omega)] at hpanics
    cases hpanics
  · rintro ⟨listed, -, -, -, hquery⟩
    have hentries : m'.entriesInRange "s" ⟨0x3ff0000000000000#64⟩ ⟨0x3ff0000000000000#64⟩ =
        [("a", ⟨0x3ff0000000000000#64⟩), ("b", ⟨0x3ff0000000000000#64⟩)] := by decide
    have hone : ∀ sorted, Arranges scoreKey
        (m'.entriesInRange "s" ⟨0x3ff0000000000000#64⟩ ⟨0x3ff0000000000000#64⟩) sorted →
        sorted = listed.take listed.length := by
      intro sorted hsorted
      obtain ⟨rt, hrt, rfl⟩ := exists_runtime hsorted
      exact Option.some.inj (hquery rt hrt)
    rw [hentries] at hone
    have hfirst := hone [("a", ⟨0x3ff0000000000000#64⟩), ("b", ⟨0x3ff0000000000000#64⟩)]
      ⟨by decide, by decide⟩
    have hsecond := hone [("b", ⟨0x3ff0000000000000#64⟩), ("a", ⟨0x3ff0000000000000#64⟩)]
      ⟨by decide, by decide⟩
    exact absurd (hfirst.trans hsecond.symm) (by decide)

end MemorySortedSet

end Go

end GoyStore
