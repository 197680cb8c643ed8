import GoyStore.SortedSet.RangeQueries
import Mathlib.Data.List.Pairwise
import Mathlib.Data.String.Basic

/-!
# Members with equal scores

`range_by_score` of the Rust `MemorySortedSetStore` lists the members with one score in the order of
the vector that holds them.  Every `add` puts its member at the end of a vector, so this is the
order of the last `add` of each member (`ordered_of_run`).  The Redis backend lists members with
equal scores in the order of their bytes, and to it both zeros are equal.

`answersByContents_iff` says for which histories the answers of the Rust store depend on its
contents only and come in this order.
-/

namespace GoyStore

namespace Rust

open Runs DualIndex

/-! ### The last add of each member -/

/-- What a call does to the order of the last adds to a set. -/
def SortedSetOp.addLast (set : String) (order : List String) : SortedSetOp → List String
  | .add set' member _ => if set' = set then order.filter (· ≠ member) ++ [member] else order
  | _ => order

/-- The members that were added to a set, in the order of their last adds. -/
def lastAdds (set : String) (ops : List SortedSetOp) : List String :=
  ops.foldl (SortedSetOp.addLast set) []

example : lastAdds "jobs" [.add "jobs" "a" .zero, .add "jobs" "b" .zero, .add "jobs" "a" .zero] =
    ["b", "a"] := by decide

namespace InnerSet

/-- The buckets of a set list their members in the order of a list. -/
def Ordered (inner : InnerSet) (order : List String) : Prop :=
  InOrder order (lookup inner.scores) (lookup inner.memberScores)

variable {inner : InnerSet} {order : List String}

/-- A new set has no buckets. -/
lemma ordered_default (order : List String) : (default : InnerSet).Ordered order := by
  intro s b hb
  have hnone : lookup (default : InnerSet).scores s = none := Std.TreeMap.getElem?_emptyc
  rw [hnone] at hb
  cases hb

/-- Once the old score is removed, the other members keep their order. -/
lemma Ordered.removeOldScore (ho : inner.Ordered order) (h : inner.Agrees) (member : String) :
    InOrder order (lookup (inner.removeOldScore member))
      (Function.update (lookup inner.memberScores) member none) := by
  unfold InnerSet.removeOldScore
  cases hold : inner.memberScores[member]? with
  | some oldScore =>
    obtain ⟨bucket, hbucket, _⟩ := (h.key_iff member oldScore).mp hold
    have hdetach := InOrder.detach ho hbucket hold
    rwa [← lookup_retainOthers member hbucket] at hdetach
  | none =>
    have hnone : Function.update (lookup inner.memberScores) member none =
        lookup inner.memberScores := Function.update_eq_self_iff.mpr hold.symm
    rw [hnone]
    exact ho

/-- `add` puts its member last. -/
lemma Ordered.add (ho : inner.Ordered order) (h : inner.Agrees) (member : String)
    (score : Binary64) :
    (inner.add member score).Ordered (order.filter (· ≠ member) ++ [member]) := by
  have herase := (ho.removeOldScore h member).erase (m := member) (Function.update_self ..)
  have hmem : member ∉ order.filter (· ≠ member) := by simp
  have hattach := herase.attach (h.removeOldScore member) hmem ⟨score⟩
  rwa [Function.update_idem, ← lookup_insert, ← lookup_insert] at hattach

/-- `remove` keeps the order of the others. -/
lemma Ordered.remove (ho : inner.Ordered order) (h : inner.Agrees) (member : String) :
    (inner.remove member).Ordered order := by
  unfold InnerSet.remove
  cases hold : inner.memberScores[member]? with
  | some score =>
    obtain ⟨bucket, hbucket, _⟩ := (h.key_iff member score).mp hold
    have hdetach := InOrder.detach ho hbucket hold
    rwa [← lookup_retainOthers member hbucket, ← lookup_erase] at hdetach
  | none => exact ho

/-- `remove_range` keeps the order of the others. -/
lemma Ordered.removeRange (ho : inner.Ordered order) (h : inner.Agrees) (min max : Binary64) :
    (inner.removeRange min max).1.Ordered order := by
  unfold InnerSet.removeRange
  have hloop : ∀ (ss : List OrderedScore) (acc : InnerSet × ℕ), acc.1.Agrees →
      acc.1.Ordered order → (ss.foldl InnerSet.removeScore acc).1.Ordered order := by
    intro ss
    induction ss with
    | nil => exact fun _ _ hacc => hacc
    | cons s ss ih =>
      intro acc hagrees hacc
      refine ih _ (Agrees.removeScore hagrees s) ?_
      unfold InnerSet.removeScore
      cases hbucket : acc.1.scores[s]? with
      | some members =>
        have hdrop := InOrder.dropBucket hacc hagrees hbucket
        rwa [← lookup_erase, ← lookup_foldl_erase] at hdrop
      | none => exact hacc
  exact hloop _ _ h ho

end InnerSet

namespace MemorySortedSetStore

/-- A set of a store in which a set was written. -/
lemma eq_or_of_getElem?_insert {sets : Std.TreeMap String InnerSet} {name set : String}
    {written inner : InnerSet} (h : (sets.insert name written)[set]? = some inner) :
    (name = set ∧ written = inner) ∨ sets[set]? = some inner := by
  rw [Std.TreeMap.getElem?_insert] at h
  split_ifs at h with hname
  · exact .inl ⟨Std.LawfulEqOrd.eq_of_compare hname, Option.some.inj h⟩
  · exact .inr h

/-- One call keeps the buckets of a set in the order of the last adds. -/
lemma ordered_step {before st : MemorySortedSetStore} {op : SortedSetOp} {set : String}
    {order : List String}
    (hagrees : ∀ (name : String) (old : InnerSet), before.sets[name]? = some old → old.Agrees)
    (ho : ∀ old : InnerSet, before.sets[set]? = some old → old.Ordered order)
    (hstep : step before op = some st) {inner : InnerSet} (hset : st.sets[set]? = some inner) :
    inner.Ordered (SortedSetOp.addLast set order op) := by
  cases op with
  | add name member score =>
    obtain rfl := Option.some.inj hstep
    by_cases hname : name = set
    · subst hname
      rw [add, Std.TreeMap.getElem?_insert_self] at hset
      obtain rfl := Option.some.inj hset
      rw [SortedSetOp.addLast, if_pos rfl]
      cases hold : before.sets[name]? with
      | some old => exact (ho old hold).add (hagrees name old hold) member score
      | none => exact (InnerSet.ordered_default _).add InnerSet.agrees_default member score
    · rw [SortedSetOp.addLast, if_neg hname]
      rcases eq_or_of_getElem?_insert hset with ⟨heq, _⟩ | hother
      · exact absurd heq hname
      · exact ho inner hother
  | remove name member =>
    obtain rfl := Option.some.inj hstep
    unfold remove at hset
    cases hold : before.sets[name]? with
    | none =>
      rw [hold] at hset
      exact ho inner hset
    | some old =>
      rw [hold] at hset
      rcases eq_or_of_getElem?_insert hset with ⟨rfl, rfl⟩ | hother
      · exact (ho old hold).remove (hagrees name old hold) member
      · exact ho inner hother
  | removeRange name min max =>
    obtain rfl := Option.some.inj hstep
    unfold removeRange at hset
    cases hold : before.sets[name]? with
    | none =>
      rw [hold] at hset
      exact ho inner hset
    | some old =>
      rw [hold] at hset
      rcases eq_or_of_getElem?_insert hset with ⟨rfl, rfl⟩ | hother
      · exact (ho old hold).removeRange (hagrees name old hold) min max
      · exact ho inner hother

/-- After any calls, the buckets of every set list their members in the order of their last
adds. -/
theorem ordered_of_run {ops : List SortedSetOp} {st : MemorySortedSetStore}
    (h : runFrom step new ops = some st) (set : String) {inner : InnerSet}
    (hset : st.sets[set]? = some inner) : inner.Ordered (lastAdds set ops) := by
  induction ops using List.reverseRecOn generalizing st inner with
  | nil =>
    obtain rfl := Option.some.inj h
    have hnone : new.sets[set]? = none := Std.TreeMap.getElem?_emptyc
    rw [hnone] at hset
    cases hset
  | append_singleton ops op ih =>
    obtain ⟨before, hbefore, hstep⟩ := exists_of_runFrom_concat h
    have hlast : lastAdds set (ops ++ [op]) = SortedSetOp.addLast set (lastAdds set ops) op := by
      rw [lastAdds, List.foldl_append]
      rfl
    rw [hlast]
    exact ordered_step (agrees_of_run hbefore) (fun _ hold => ih hbefore hold) hstep hset

end MemorySortedSetStore

/-! ### The order of the answers -/

/-- The place of a score in the order of the Redis sorted set, to which both zeros are equal. -/
def rank (x : Binary64) : ℤ := if x = .negZero then 0 else x.totalKey

/-- One member is listed before another: it has the lower score, or the scores are equal and its
bytes come first. -/
def Precedes (p q : String × Binary64) : Prop :=
  rank p.2 < rank q.2 ∨ rank p.2 = rank q.2 ∧ p.1 < q.1

/-- The order of the scores in the map of the buckets is that of their ranks, but that it separates
the zeros. -/
lemma rank_of_totalKey_lt {x y : Binary64} (h : x.totalKey < y.totalKey) :
    rank x < rank y ∨ x = .negZero ∧ y = .zero := by
  simp only [rank, Binary64.eq_negZero_iff, Binary64.eq_zero_iff]
  split_ifs <;> omega

/-- Of two members, not both are listed before the other. -/
lemma not_precedes_of_precedes {p q : String × Binary64} (h : Precedes p q) : ¬ Precedes q p := by
  rintro (hlt | ⟨heq, hlt⟩)
  · rcases h with h | ⟨h, _⟩ <;> omega
  · rcases h with h | ⟨_, h⟩
    · omega
    · exact lt_asymm h hlt

namespace MemorySortedSetStore

/-- The members of a range with their scores, as they should be listed. -/
structure Expected (st : MemorySortedSetStore) (set : String) (min max : Binary64)
    (expected : List (String × Binary64)) : Prop where
  /-- They are ordered by score and, among equal scores, by their bytes. -/
  ordered : expected.Pairwise Precedes
  /-- They are the members with a score in the range. -/
  mem_iff : ∀ m x, (m, x) ∈ expected ↔ st.score set m = some x ∧ Between min max x

/-- The answer is the first part of a list, all of it unless the limit is reached. -/
def CutAt (limit : Option ℕ) (expected answer : List (String × Binary64)) : Prop :=
  answer <+: expected ∧ (answer = expected ∨ ∃ n, limit = some n ∧ n ≤ answer.length)

/-- Two stores with the same contents of a set give the same answers, in the order of the scores
and, among equal scores, of the bytes. -/
def AnswersByContents (st₁ st₂ : MemorySortedSetStore) (set : String) : Prop :=
  ∀ min max : Binary64, min.totalKey ≤ max.totalKey → ∀ limit : Option ℕ,
    ∃ expected answer, Expected st₁ set min max expected ∧ CutAt limit expected answer ∧
      st₁.rangeByScore set min max limit = some answer ∧
      st₂.rangeByScore set min max limit = some answer

/-- The members with equal scores were last added in the order of their bytes, and those with the
score negative zero come before those with the score zero in this order. -/
structure TiesInOrder (st : MemorySortedSetStore) (set : String) (order : List String) : Prop where
  /-- The members with one score. -/
  same : ∀ x, (order.filter fun m => st.score set m = some x).Pairwise (· < ·)
  /-- The members with the two zeros. -/
  zeros : ∀ a b, st.score set a = some .negZero → st.score set b = some .zero → a < b

/-! ### When the answers are in order -/

/-- The range of all numbers and all NaNs. -/
def lowest : Binary64 := ⟨0xffffffffffffffff#64⟩

/-- The end of the range of all numbers and all NaNs. -/
def highest : Binary64 := ⟨0x7fffffffffffffff#64⟩

/-- Every score is in this range. -/
lemma between_lowest_highest (x : Binary64) : Between lowest highest x := by
  have hlow : lowest.totalKey = -0x8000000000000000 := by decide
  have hhigh : highest.totalKey = 0x7fffffffffffffff := by decide
  have hle := BitVec.le_toInt (Binary64.flipNegative x.bits)
  have hlt := BitVec.toInt_lt (x := Binary64.flipNegative x.bits)
  rw [Between, hlow, hhigh, Binary64.totalKey]
  constructor <;> omega

section OneStore

variable {st : MemorySortedSetStore} {set : String} {inner : InnerSet} {order : List String}
  {min max : Binary64}

/-- With ties in order, the loops meet the members in order. -/
lemma pairwise_listed (hset : st.sets[set]? = some inner) (ho : inner.Ordered order)
    (hties : TiesInOrder st set order) : (inner.listed min max).Pairwise Precedes := by
  have hmembers : ∀ e ∈ inner.entriesInRange min max, e.2.Pairwise (· < ·) ∧
      ∀ m ∈ e.2, st.score set m = some e.1.score := by
    intro e he
    have hbucket := ho e.1 e.2 (InnerSet.mem_entriesInRange.mp he).1
    have hfilter : e.2 = order.filter fun m => st.score set m = some e.1.score := by
      rw [hbucket]
      apply List.filter_congr
      intro m _
      rw [decide_eq_decide]
      exact (score_eq_some_iff hset).symm
    refine ⟨hfilter ▸ hties.same e.1.score, fun m hm => ?_⟩
    rw [hfilter] at hm
    exact of_decide_eq_true (List.mem_filter.mp hm).2
  rw [InnerSet.listed, List.pairwise_flatMap]
  constructor
  · intro e he
    rw [List.pairwise_map]
    exact (hmembers e he).1.imp fun {a b} hlt => .inr ⟨rfl, hlt⟩
  · refine (inner.pairwise_entriesInRange min max).imp_of_mem fun {e f} he hf hlt => ?_
    intro p hp q hq
    obtain ⟨a, ha, rfl⟩ := List.mem_map.mp hp
    obtain ⟨b, hb, rfl⟩ := List.mem_map.mp hq
    rcases rank_of_totalKey_lt hlt with hrank | ⟨hnegZero, hzero⟩
    · exact .inl hrank
    · -- the two zeros are equal to Redis
      have ha' := (hmembers e he).2 a ha
      have hb' := (hmembers f hf).2 b hb
      rw [hnegZero] at ha'
      rw [hzero] at hb'
      refine .inr ⟨?_, hties.zeros a b ha' hb'⟩
      simp only [hnegZero, hzero]
      decide

/-- The loops meet the buckets in the order of the map. -/
lemma pairwise_listed_totalKey (inner : InnerSet) (min max : Binary64) :
    (inner.listed min max).Pairwise fun p q => p.2.totalKey ≤ q.2.totalKey := by
  rw [InnerSet.listed, List.pairwise_flatMap]
  constructor
  · intro e _
    rw [List.pairwise_map]
    exact List.pairwise_of_forall fun _ _ => Int.le_refl _
  · refine (inner.pairwise_entriesInRange min max).imp fun {e f} hlt p hp q hq => ?_
    obtain ⟨a, _, rfl⟩ := List.mem_map.mp hp
    obtain ⟨b, _, rfl⟩ := List.mem_map.mp hq
    exact Int.le_of_lt hlt

omit st set order in
/-- Two different elements of a list come one after the other. -/
lemma rel_or_rel_of_pairwise {α : Type*} {R : α → α → Prop} {l : List α} (h : l.Pairwise R)
    {a b : α} (ha : a ∈ l) (hb : b ∈ l) (hne : a ≠ b) : R a b ∨ R b a := by
  have hsymm : Std.Symm fun a b => R a b ∨ R b a := ⟨fun _ _ => Or.symm⟩
  have hboth : l.Pairwise fun a b => R a b ∨ R b a := h.imp fun hab => Or.inl hab
  exact hboth.forall ha hb hne

/-- When the loops meet all members in order, the ties are in order. -/
lemma tiesInOrder_of_pairwise (hset : st.sets[set]? = some inner) (h : inner.Agrees)
    (ho : inner.Ordered order) (hlisted : (inner.listed lowest highest).Pairwise Precedes) :
    TiesInOrder st set order where
  same x := by
    have hfilter : (order.filter fun m => st.score set m = some x) =
        (lookup inner.scores ⟨x⟩).getD [] := by
      rw [← ho.filter_eq h]
      apply List.filter_congr
      intro m _
      rw [decide_eq_decide]
      exact score_eq_some_iff hset
    rw [hfilter]
    cases hbucket : lookup inner.scores ⟨x⟩ with
    | none => exact .nil
    | some b =>
      have hentry : ((⟨x⟩, b) : OrderedScore × List String) ∈
          inner.entriesInRange lowest highest :=
        InnerSet.mem_entriesInRange.mpr ⟨hbucket, between_lowest_highest x⟩
      have hmap := (List.pairwise_flatMap.mp hlisted).1 _ hentry
      rw [List.pairwise_map] at hmap
      refine hmap.imp fun {a b} hab => ?_
      rcases hab with hlt | ⟨_, hlt⟩
      · exact absurd hlt (Int.lt_irrefl _)
      · exact hlt
  zeros a b ha hb := by
    have hmem : ∀ {m : String} {x : Binary64}, st.score set m = some x →
        (m, x) ∈ inner.listed lowest highest := fun hm =>
      h.mem_listed.mpr ⟨(score_eq_some_iff hset).mp hm, between_lowest_highest _⟩
    have hboth := hlisted.and (pairwise_listed_totalKey inner lowest highest)
    have hne : (a, Binary64.negZero) ≠ (b, Binary64.zero) := fun heq =>
      absurd (Prod.mk.inj heq).2 (by decide)
    have hkeys : Binary64.negZero.totalKey = -1 ∧ Binary64.zero.totalKey = 0 := by decide
    rcases rel_or_rel_of_pairwise hboth (hmem ha) (hmem hb) hne with hab | hba
    · rcases hab.1 with hlt | ⟨_, hlt⟩
      · have hrank : ¬ rank .negZero < rank .zero := by decide
        exact absurd hlt hrank
      · exact hlt
    · have hle := hba.2
      simp only [hkeys] at hle
      omega

end OneStore

/-- What a limit makes of a list. -/
lemma cutAt_pushMembers (limit : Option ℕ) (listed : List (String × Binary64)) :
    CutAt limit listed (InnerSet.pushMembers limit [] listed) := by
  cases limit with
  | none =>
    rw [InnerSet.pushMembers_none]
    exact ⟨List.prefix_rfl, .inl rfl⟩
  | some n =>
    rw [InnerSet.pushMembers_limit]
    refine ⟨List.take_prefix _ _, ?_⟩
    rcases Nat.lt_or_ge listed.length (n ⊔ 1) with hlt | hle
    · exact .inl (List.take_of_length_le (Nat.le_of_lt hlt))
    · refine .inr ⟨n, rfl, ?_⟩
      rw [List.length_take_of_le hle]
      exact le_sup_left

/-- The expected list is unique. -/
lemma Expected.unique {st₁ st₂ : MemorySortedSetStore} {set : String} {min max : Binary64}
    {l₁ l₂ : List (String × Binary64)} (h₁ : Expected st₁ set min max l₁)
    (h₂ : Expected st₂ set min max l₂) (hsame : ∀ m, st₁.score set m = st₂.score set m) :
    l₁ = l₂ := by
  have hirrefl : ∀ p : String × Binary64, ¬ Precedes p p := fun p hp =>
    not_precedes_of_precedes hp hp
  have hnodup : ∀ {l : List (String × Binary64)}, l.Pairwise Precedes → l.Nodup := by
    intro l hl
    refine hl.imp fun {p q} hpq => ?_
    rintro rfl
    exact hirrefl p hpq
  have hperm : l₁.Perm l₂ := by
    refine (List.perm_ext_iff_of_nodup (hnodup h₁.ordered) (hnodup h₂.ordered)).mpr ?_
    rintro ⟨m, x⟩
    rw [h₁.mem_iff, h₂.mem_iff, hsame]
  exact List.Perm.eq_of_pairwise
    (fun _ _ _ _ hab hba => absurd hba (not_precedes_of_precedes hab)) h₁.ordered h₂.ordered hperm

/-- A store whose ties are in order lists what is expected. -/
lemma exists_expected {ops : List SortedSetOp} {st : MemorySortedSetStore}
    (h : runFrom step new ops = some st) (set : String)
    (hties : TiesInOrder st set (lastAdds set ops)) {min max : Binary64}
    (hle : min.totalKey ≤ max.totalKey) :
    ∃ expected, Expected st set min max expected ∧ ∀ limit,
      st.rangeByScore set min max limit = some (InnerSet.pushMembers limit [] expected) := by
  cases hset : st.sets[set]? with
  | none =>
    have hscore : ∀ m, st.score set m = none := fun m => by rw [score, hset]
    refine ⟨[], ⟨.nil, fun m x => ?_⟩, fun limit => ?_⟩
    · simp [hscore]
    · rw [rangeByScore, hset]
      rfl
  | some inner =>
    have hagrees := agrees_of_run h set inner hset
    refine ⟨inner.listed min max, ⟨pairwise_listed hset (ordered_of_run h set hset) hties,
      fun m x => ?_⟩, fun limit => ?_⟩
    · rw [hagrees.mem_listed, score_eq_some_iff hset]
    · rw [rangeByScore, hset]
      exact inner.rangeByScore_of_le limit hle

/-- A store that lists all its members in order has its ties in order. -/
lemma tiesInOrder_of_expected {ops : List SortedSetOp} {st : MemorySortedSetStore}
    (h : runFrom step new ops = some st) (set : String) {answer : List (String × Binary64)}
    (hanswer : st.rangeByScore set lowest highest none = some answer)
    (hordered : answer.Pairwise Precedes) : TiesInOrder st set (lastAdds set ops) := by
  cases hset : st.sets[set]? with
  | none =>
    have hscore : ∀ m, st.score set m = none := fun m => by rw [score, hset]
    refine ⟨fun x => ?_, fun a b ha _ => ?_⟩
    · simp [hscore]
    · rw [hscore a] at ha
      cases ha
  | some inner =>
    have hagrees := agrees_of_run h set inner hset
    apply tiesInOrder_of_pairwise hset hagrees (ordered_of_run h set hset)
    rw [rangeByScore, hset] at hanswer
    simp only [InnerSet.rangeByScore_of_le _ none (by decide : lowest.totalKey ≤ highest.totalKey),
      InnerSet.pushMembers_none, List.nil_append] at hanswer
    exact Option.some.inj hanswer ▸ hordered

/-- The scores of a set to which a member was added. -/
lemma score_add (st : MemorySortedSetStore) (set member : String) (x : Binary64) (m : String) :
    (st.add set member x).score set m = if m = member then some x else st.score set m := by
  rw [score, add, Std.TreeMap.getElem?_insert_self]
  have hadd : (((st.sets[set]?.getD default).add member x).memberScores[m]? : Option _) =
      Function.update (lookup (st.sets[set]?.getD default).memberScores) member (some ⟨x⟩) m :=
    congrFun (lookup_insert _ _ _) m
  simp only [hadd]
  by_cases hm : m = member
  · subst hm
    simp
  · rw [Function.update_of_ne hm, if_neg hm, score]
    cases hset : st.sets[set]? with
    | some inner => rfl
    | none =>
      have hnone : lookup (default : InnerSet).memberScores m = none :=
        Std.TreeMap.getElem?_emptyc
      simp [hnone]

/-- Two histories that leave a set with the same contents give the same answers, in the order of the
scores and of the bytes of the members, if and only if in both the members with equal scores were
last added in the order of their bytes. -/
theorem answersByContents_iff (ops₁ ops₂ : List SortedSetOp) {st₁ st₂ : MemorySortedSetStore}
    (h₁ : runFrom step new ops₁ = some st₁) (h₂ : runFrom step new ops₂ = some st₂) (set : String)
    (hsame : ∀ m, st₁.score set m = st₂.score set m) :
    AnswersByContents st₁ st₂ set ↔
      TiesInOrder st₁ set (lastAdds set ops₁) ∧ TiesInOrder st₂ set (lastAdds set ops₂) := by
  constructor
  · intro hanswers
    obtain ⟨expected, answer, hexpected, ⟨_, hcut⟩, hanswer₁, hanswer₂⟩ :=
      hanswers lowest highest (by decide) none
    have hall : answer = expected := hcut.resolve_right fun ⟨_, hn, _⟩ => by cases hn
    have hordered : answer.Pairwise Precedes := hall ▸ hexpected.ordered
    exact ⟨tiesInOrder_of_expected h₁ set hanswer₁ hordered,
      tiesInOrder_of_expected h₂ set hanswer₂ hordered⟩
  · rintro ⟨hties₁, hties₂⟩ min max hle limit
    obtain ⟨expected, hexpected, hanswer₁⟩ := exists_expected h₁ set hties₁ hle
    obtain ⟨expected', hexpected', hanswer₂⟩ := exists_expected h₂ set hties₂ hle
    obtain rfl := hexpected.unique hexpected' hsame
    exact ⟨expected, _, hexpected, cutAt_pushMembers limit expected, hanswer₁ limit,
      hanswer₂ limit⟩

/-- Two members with the score 1 come in the order in which they were added, and the limit 1 cuts
off the one or the other. -/
theorem not_answersByContents :
    (¬ ∀ (ops₁ ops₂ : List SortedSetOp) (st₁ st₂ : MemorySortedSetStore),
      runFrom step new ops₁ = some st₁ → runFrom step new ops₂ = some st₂ → ∀ set : String,
        (∀ m, st₁.score set m = st₂.score set m) → AnswersByContents st₁ st₂ set) ∧
    ((new.add "jobs" "a" one).add "jobs" "b" one).rangeByScore "jobs" one one (some 1) =
      some [("a", one)] ∧
    ((new.add "jobs" "b" one).add "jobs" "a" one).rangeByScore "jobs" one one (some 1) =
      some [("b", one)] := by
  have hab : ((new.add "jobs" "a" one).add "jobs" "b" one).rangeByScore "jobs" one one (some 1) =
      some [("a", one)] := by decide
  have hba : ((new.add "jobs" "b" one).add "jobs" "a" one).rangeByScore "jobs" one one (some 1) =
      some [("b", one)] := by decide
  refine ⟨fun h => ?_, hab, hba⟩
  have hsame : ∀ m, ((new.add "jobs" "a" one).add "jobs" "b" one).score "jobs" m =
      ((new.add "jobs" "b" one).add "jobs" "a" one).score "jobs" m := by
    intro m
    simp only [score_add]
    split_ifs <;> rfl
  obtain ⟨_, answer, _, _, h₁, h₂⟩ := h [.add "jobs" "a" one, .add "jobs" "b" one]
    [.add "jobs" "b" one, .add "jobs" "a" one] _ _ rfl rfl "jobs" hsame one one (Int.le_refl _)
    (some 1)
  rw [hab] at h₁
  rw [hba, ← h₁] at h₂
  exact absurd h₂ (by decide)

/-- Two members with the score 1 that are added in the order of their bytes, in one history after
the first has had another score. -/
theorem answersByContents_in_order :
    AnswersByContents ((new.add "jobs" "a" one).add "jobs" "b" one)
      (((new.add "jobs" "a" two).add "jobs" "a" one).add "jobs" "b" one) "jobs" := by
  have hnew : ∀ m, new.score "jobs" m = none := fun _ => rfl
  have hties : ∀ st : MemorySortedSetStore, (∀ m, st.score "jobs" m ≠ some .negZero) →
      TiesInOrder st "jobs" ["a", "b"] := fun st hst =>
    ⟨fun _ => List.Pairwise.filter _ (by decide), fun a _ ha => absurd ha (hst a)⟩
  apply (answersByContents_iff [.add "jobs" "a" one, .add "jobs" "b" one]
    [.add "jobs" "a" two, .add "jobs" "a" one, .add "jobs" "b" one] rfl rfl "jobs" ?_).mpr
  · refine ⟨hties _ fun m => ?_, hties _ fun m => ?_⟩
    · simp only [score_add, hnew]
      split_ifs <;> decide
    · simp only [score_add, hnew]
      split_ifs <;> decide
  · intro m
    simp only [score_add]
    split_ifs <;> rfl

end MemorySortedSetStore

end Rust

end GoyStore
