import GoyStore.Library.Binary64
import GoyStore.Library.DualIndex
import GoyStore.Library.Runs

/-!
# The two indexes of the in-memory sorted set

`MemorySortedSetStore` of the Rust library keeps, for each set, a map from scores to the list of
the members with that score and a map from members to their score.  `add` moves a member between
two buckets, `remove` takes it out of one, `remove_range` drops whole buckets.

The two maps index one relation in every reachable state (`always_dualIndexed`).
-/

namespace GoyStore

namespace Rust

open Runs DualIndex

/-! ### Scores and sets -/

/-- `OrderedScore`. -/
structure OrderedScore where
  /-- The field `0`. -/
  score : Binary64
  deriving DecidableEq, Repr

/-- `OrderedScore::cmp`. -/
instance : Ord OrderedScore := ⟨fun self other => Binary64.totalCmp self.score other.score⟩

instance : Std.TransOrd OrderedScore :=
  inferInstanceAs (Std.TransCmp (compareOn fun s : OrderedScore => s.score.totalKey))

instance : Std.LawfulEqOrd OrderedScore where
  compare_self := Std.ReflCmp.compare_self
  eq_of_compare {a b} h := by
    have hcmp : Binary64.totalCmp a.score b.score = .eq := h
    exact congrArg OrderedScore.mk (Std.LawfulEqCmp.eq_of_compare hcmp)

/-- `InnerSet`; the order of the hash map of the members is never used. -/
structure InnerSet where
  /-- The field `scores`. -/
  scores : Std.TreeMap OrderedScore (List String)
  /-- The field `member_scores`. -/
  memberScores : Std.TreeMap String OrderedScore

/-- `InnerSet::default`. -/
instance : Inhabited InnerSet := ⟨{ scores := ∅, memberScores := ∅ }⟩

namespace InnerSet

/-- What `add` and `remove` do with the bucket of the old score: `retain` the other members, and
remove the bucket when none is left. -/
def retainOthers (scores : Std.TreeMap OrderedScore (List String)) (oldScore : OrderedScore)
    (member : String) : Std.TreeMap OrderedScore (List String) :=
  match scores[oldScore]? with
  | some members =>
    let rest := members.filter (· ≠ member)
    if rest.isEmpty then scores.erase oldScore else scores.insert oldScore rest
  | none => scores

/-- The start of `add`: remove the old score if the member already exists. -/
def removeOldScore (inner : InnerSet) (member : String) :
    Std.TreeMap OrderedScore (List String) :=
  match inner.memberScores[member]? with
  | some oldScore => retainOthers inner.scores oldScore member
  | none => inner.scores

/-- The part of `MemorySortedSetStore::add` on the set. -/
def add (inner : InnerSet) (member : String) (score : Binary64) : InnerSet :=
  let ordScore : OrderedScore := ⟨score⟩
  let scores := inner.removeOldScore member
  { memberScores := inner.memberScores.insert member ordScore
    scores := scores.insert ordScore (scores[ordScore]?.getD [] ++ [member]) }

/-- The part of `MemorySortedSetStore::remove` on the set. -/
def remove (inner : InnerSet) (member : String) : InnerSet :=
  match inner.memberScores[member]? with
  | some score =>
    { memberScores := inner.memberScores.erase member
      scores := retainOthers inner.scores score member }
  | none => inner

/-- The filter of `remove_range`: `s.0 >= min && s.0 <= max`. -/
def inRange (min max : Binary64) (s : OrderedScore) : Bool :=
  min.le s.score && s.score.le max

/-- The body of the loop of `remove_range`, on the set and the number of removed members. -/
def removeScore (acc : InnerSet × ℕ) (score : OrderedScore) : InnerSet × ℕ :=
  match acc.1.scores[score]? with
  | some members =>
    ({ scores := acc.1.scores.erase score
       memberScores := members.foldl (fun t member => t.erase member) acc.1.memberScores },
      acc.2 + members.length)
  | none => acc

/-- The part of `MemorySortedSetStore::remove_range` on the set. -/
def removeRange (inner : InnerSet) (min max : Binary64) : InnerSet × ℕ :=
  (inner.scores.keys.filter (inRange min max)).foldl removeScore (inner, 0)

/-- The entries of `inner.scores.range(OrderedScore(min)..=OrderedScore(max))`. -/
def entriesInRange (inner : InnerSet) (min max : Binary64) : List (OrderedScore × List String) :=
  inner.scores.toList.filter fun e =>
    (compare (⟨min⟩ : OrderedScore) e.1).isLE && (compare e.1 ⟨max⟩).isLE

/-- The loops of `range_by_score` from a result on: they push the members one by one and return as
soon as the result is as long as the limit. -/
def pushMembers (limit : Option ℕ) (result : List (String × Binary64)) :
    List (String × Binary64) → List (String × Binary64)
  | [] => result
  | p :: rest =>
    let pushed := result ++ [p]
    if limit.any (· ≤ pushed.length) then pushed else pushMembers limit pushed rest

/-- The part of `MemorySortedSetStore::range_by_score` on the set; `none` is the panic of
`BTreeMap::range` when the range starts above its end. -/
def rangeByScore (inner : InnerSet) (min max : Binary64) (limit : Option ℕ) :
    Option (List (String × Binary64)) :=
  if (compare (⟨min⟩ : OrderedScore) ⟨max⟩).isGT then none
  else some (pushMembers limit [] ((inner.entriesInRange min max).flatMap fun e =>
    e.2.map fun member => (member, e.1.score)))

end InnerSet

/-- `MemorySortedSetStore`. -/
structure MemorySortedSetStore where
  /-- The field `sets`. -/
  sets : Std.TreeMap String InnerSet

/-- A call that changes the store. -/
inductive SortedSetOp where
  /-- A call of `add`. -/
  | add (set member : String) (score : Binary64)
  /-- A call of `remove`. -/
  | remove (set member : String)
  /-- A call of `remove_range`. -/
  | removeRange (set : String) (min max : Binary64)

namespace MemorySortedSetStore

/-- `MemorySortedSetStore::default`. -/
def new : MemorySortedSetStore := ⟨∅⟩

/-- `MemorySortedSetStore::add`. -/
def add (st : MemorySortedSetStore) (set member : String) (score : Binary64) :
    MemorySortedSetStore :=
  ⟨st.sets.insert set ((st.sets[set]?.getD default).add member score)⟩

/-- `MemorySortedSetStore::remove`. -/
def remove (st : MemorySortedSetStore) (set member : String) : MemorySortedSetStore :=
  match st.sets[set]? with
  | some inner => ⟨st.sets.insert set (inner.remove member)⟩
  | none => st

/-- `MemorySortedSetStore::remove_range`, with the number that it returns. -/
def removeRange (st : MemorySortedSetStore) (set : String) (min max : Binary64) :
    MemorySortedSetStore × ℕ :=
  match st.sets[set]? with
  | some inner =>
    let removed := inner.removeRange min max
    (⟨st.sets.insert set removed.1⟩, removed.2)
  | none => (st, 0)

/-- `MemorySortedSetStore::range_by_score`; `none` is a panic. -/
def rangeByScore (st : MemorySortedSetStore) (set : String) (min max : Binary64)
    (limit : Option ℕ) : Option (List (String × Binary64)) :=
  match st.sets[set]? with
  | some inner => inner.rangeByScore min max limit
  | none => some []

/-- `MemorySortedSetStore::count`. -/
def count (st : MemorySortedSetStore) (set : String) : ℕ :=
  match st.sets[set]? with
  | some inner => inner.memberScores.size
  | none => 0

/-- `MemorySortedSetStore::score`. -/
def score (st : MemorySortedSetStore) (set member : String) : Option Binary64 :=
  match st.sets[set]? with
  | some inner => inner.memberScores[member]?.map OrderedScore.score
  | none => none

/-- The step function: every call that changes the store is enabled. -/
def step (st : MemorySortedSetStore) : SortedSetOp → Option MemorySortedSetStore
  | .add set member score => some (st.add set member score)
  | .remove set member => some (st.remove set member)
  | .removeRange set min max => some (st.removeRange set min max).1

end MemorySortedSetStore

/-! ### The invariant -/

namespace InnerSet

/-- The two maps of a set index one relation. -/
structure DualIndexed (inner : InnerSet) : Prop where
  /-- A member has a score if and only if it is in the bucket of the score. -/
  member_iff : ∀ (m : String) (s : OrderedScore), inner.memberScores[m]? = some s ↔
    ∃ bucket, inner.scores[s]? = some bucket ∧ m ∈ bucket
  /-- A member is in exactly one bucket. -/
  one_bucket : ∀ (m : String) (s : OrderedScore), inner.memberScores[m]? = some s →
    ∃! s' : OrderedScore, ∃ bucket, inner.scores[s']? = some bucket ∧ m ∈ bucket
  /-- A member is in its bucket once. -/
  once : ∀ (m : String) (s : OrderedScore) (bucket : List String),
    inner.scores[s]? = some bucket → m ∈ bucket → bucket.count m = 1
  /-- No bucket is empty. -/
  no_empty : ∀ (s : OrderedScore) (bucket : List String),
    inner.scores[s]? = some bucket → bucket ≠ []

/-- The two maps, read as partial functions, are coherent. -/
def Agrees (inner : InnerSet) : Prop := Coherent (lookup inner.scores) (lookup inner.memberScores)

/-- Coherent maps index one relation. -/
lemma Agrees.dualIndexed {inner : InnerSet} (h : inner.Agrees) : inner.DualIndexed where
  member_iff := h.key_iff
  one_bucket _ _ hm := h.existsUnique_bucket hm
  once _ _ _ hb hm := h.count_eq_one hb hm
  no_empty := h.ne_nil

/-- The new set agrees. -/
lemma agrees_default : (default : InnerSet).Agrees := by
  have hscores : lookup (default : InnerSet).scores = fun _ => none := by
    funext s
    exact Std.TreeMap.getElem?_emptyc
  have hmembers : lookup (default : InnerSet).memberScores = fun _ => none := by
    funext m
    exact Std.TreeMap.getElem?_emptyc
  rw [Agrees, hscores, hmembers]
  exact coherent_empty

/-- Taking a member out of its bucket. -/
lemma lookup_retainOthers {scores : Std.TreeMap OrderedScore (List String)}
    {oldScore : OrderedScore} {members : List String} (member : String)
    (h : lookup scores oldScore = some members) :
    lookup (retainOthers scores oldScore member) =
      Function.update (lookup scores) oldScore (without member members) := by
  have hget : scores[oldScore]? = some members := h
  rw [retainOthers, hget, without]
  split_ifs with hempty
  · simp only [hempty, if_true]
    exact lookup_erase scores oldScore
  · simp only [hempty]
    exact lookup_insert scores oldScore _

/-- Once the old score is removed, the buckets are those of the other members. -/
lemma Agrees.removeOldScore {inner : InnerSet} (h : inner.Agrees) (member : String) :
    Coherent (lookup (inner.removeOldScore member))
      (Function.update (lookup inner.memberScores) member none) := by
  unfold InnerSet.removeOldScore
  cases hold : inner.memberScores[member]? with
  | some oldScore =>
    obtain ⟨bucket, hbucket, hmem⟩ := (h.key_iff member oldScore).mp hold
    have hdetach := Coherent.detach h hbucket hmem
    rwa [← lookup_retainOthers member hbucket] at hdetach
  | none =>
    have hnone : Function.update (lookup inner.memberScores) member none =
        lookup inner.memberScores := Function.update_eq_self_iff.mpr hold.symm
    rw [hnone]
    exact h

/-- `add` keeps the maps in agreement: the member leaves its old bucket and joins the new one. -/
lemma Agrees.add {inner : InnerSet} (h : inner.Agrees) (member : String) (score : Binary64) :
    (inner.add member score).Agrees := by
  have hattach := (h.removeOldScore member).attach (Function.update_self ..) ⟨score⟩
  rwa [Function.update_idem, ← lookup_insert, ← lookup_insert] at hattach

/-- `remove` keeps the maps in agreement. -/
lemma Agrees.remove {inner : InnerSet} (h : inner.Agrees) (member : String) :
    (inner.remove member).Agrees := by
  unfold InnerSet.remove
  cases hold : inner.memberScores[member]? with
  | some score =>
    obtain ⟨bucket, hbucket, hmem⟩ := (h.key_iff member score).mp hold
    have hdetach := Coherent.detach h hbucket hmem
    rwa [← lookup_retainOthers member hbucket, ← lookup_erase] at hdetach
  | none => exact h

/-- The loop body of `remove_range` keeps the maps in agreement. -/
lemma Agrees.removeScore {acc : InnerSet × ℕ} (h : acc.1.Agrees) (score : OrderedScore) :
    (removeScore acc score).1.Agrees := by
  unfold InnerSet.removeScore
  cases hbucket : acc.1.scores[score]? with
  | some members =>
    have hdrop := Coherent.dropBucket h hbucket
    rwa [← lookup_erase, ← lookup_foldl_erase] at hdrop
  | none => exact h

/-- `remove_range` keeps the maps in agreement, whatever its bounds are. -/
lemma Agrees.removeRange {inner : InnerSet} (h : inner.Agrees) (min max : Binary64) :
    (inner.removeRange min max).1.Agrees := by
  unfold InnerSet.removeRange
  have hloop : ∀ (ss : List OrderedScore) (acc : InnerSet × ℕ), acc.1.Agrees →
      (ss.foldl InnerSet.removeScore acc).1.Agrees := by
    intro ss
    induction ss with
    | nil => exact fun acc hacc => hacc
    | cons s ss ih => exact fun acc hacc => ih _ (hacc.removeScore s)
  exact hloop _ _ h

end InnerSet

namespace MemorySortedSetStore

/-- The maps of every set agree. -/
def Agrees (st : MemorySortedSetStore) : Prop :=
  ∀ (set : String) (inner : InnerSet), st.sets[set]? = some inner → inner.Agrees

/-- Writing a set whose maps agree. -/
lemma Agrees.insert {st : MemorySortedSetStore} (h : st.Agrees) (set : String) {inner : InnerSet}
    (hinner : inner.Agrees) : Agrees ⟨st.sets.insert set inner⟩ := by
  intro set' inner' hinner'
  rw [Std.TreeMap.getElem?_insert] at hinner'
  split_ifs at hinner' with hset
  · obtain rfl := Option.some.inj hinner'
    exact hinner
  · exact h set' inner' hinner'

/-- Every call keeps the maps of every set in agreement. -/
lemma agrees_step (st : MemorySortedSetStore) (op : SortedSetOp) (st' : MemorySortedSetStore)
    (h : st.Agrees) (hstep : step st op = some st') : st'.Agrees := by
  cases op with
  | add set member score =>
    obtain rfl := Option.some.inj hstep
    have hinner : (st.sets[set]?.getD default).Agrees := by
      cases hset : st.sets[set]? with
      | some inner => exact h set inner hset
      | none => exact InnerSet.agrees_default
    exact h.insert set (hinner.add member score)
  | remove set member =>
    obtain rfl := Option.some.inj hstep
    unfold remove
    cases hset : st.sets[set]? with
    | some inner => exact h.insert set ((h set inner hset).remove member)
    | none => exact h
  | removeRange set min max =>
    obtain rfl := Option.some.inj hstep
    unfold removeRange
    cases hset : st.sets[set]? with
    | some inner => exact h.insert set ((h set inner hset).removeRange min max)
    | none => exact h

/-- After any calls of `add`, `remove` and `remove_range`, with any names, members and scores, the
two maps of every set index one relation. -/
theorem always_dualIndexed (ops : List SortedSetOp) :
    Always step (fun st => ∀ (set : String) (inner : InnerSet), st.sets[set]? = some inner →
      inner.DualIndexed) new ops := by
  have hnew : new.Agrees := by
    intro set inner hset
    have hnone : new.sets[set]? = none := Std.TreeMap.getElem?_emptyc
    rw [hnone] at hset
    cases hset
  intro pre st _ hrun set inner hset
  exact (invariant_of_runFrom agrees_step hnew hrun set inner hset).dualIndexed

end MemorySortedSetStore

end Rust

end GoyStore
