import GoyStore.Library.Repetition
import GoyStore.SortedSet.RangeQueries

/-!
# Repeated calls of the in-memory sorted set

A second `add` of a member takes it out of its bucket, which may drop the bucket, and puts it at the
end of the bucket again; a second `remove` finds nothing.  On what the two maps of a set hold, with
the order of every bucket, neither changes anything (`repeatable_add`, `repeatable_remove`).
-/

namespace GoyStore

namespace Rust

open Runs DualIndex Repetition

/-- What a set holds: the bucket of each score, and the score of each member. -/
structure SetContents where
  /-- The buckets, with their order. -/
  buckets : OrderedScore → Option (List String)
  /-- The scores. -/
  scores : String → Option OrderedScore

namespace SetContents

/-- Nothing. -/
def empty : SetContents := ⟨fun _ => none, fun _ => none⟩

/-- A member goes to the end of the bucket of its new score. -/
def add (c : SetContents) (member : String) (score : Binary64) : SetContents where
  buckets := join (leave c.buckets c.scores member) member ⟨score⟩
  scores := Function.update c.scores member (some ⟨score⟩)

/-- A member goes. -/
def remove (c : SetContents) (member : String) : SetContents where
  buckets := leave c.buckets c.scores member
  scores := Function.update c.scores member none

/-- The second of two equal additions does nothing. -/
lemma add_add {c : SetContents} (h : Coherent c.buckets c.scores) (member : String)
    (score : Binary64) : (c.add member score).add member score = c.add member score := by
  have hleft := (h.leave member).leave_join (Function.update_self ..) (⟨score⟩ : OrderedScore)
  rw [Function.update_idem] at hleft
  unfold add
  simp only [hleft, Function.update_idem]

/-- The second of two equal removals does nothing. -/
lemma remove_remove (c : SetContents) (member : String) :
    (c.remove member).remove member = c.remove member := by
  have hgone : ∀ buckets : OrderedScore → Option (List String),
      leave buckets (Function.update c.scores member none) member = buckets := by
    intro buckets
    rw [leave, Function.update_self]
  unfold remove
  simp only [hgone, Function.update_idem]

end SetContents

namespace InnerSet

/-- What the maps of a set hold. -/
def contents (inner : InnerSet) : SetContents where
  buckets := lookup inner.scores
  scores := lookup inner.memberScores

/-- A new set holds nothing. -/
lemma contents_default : (default : InnerSet).contents = .empty := by
  have hscores : lookup (default : InnerSet).scores = fun _ => none :=
    funext fun _ => Std.TreeMap.getElem?_emptyc
  have hmembers : lookup (default : InnerSet).memberScores = fun _ => none :=
    funext fun _ => Std.TreeMap.getElem?_emptyc
  rw [contents, hscores, hmembers]
  rfl

/-- What `retain` leaves of the buckets. -/
lemma lookup_removeOldScore (inner : InnerSet) (member : String) :
    lookup (inner.removeOldScore member) =
      leave (lookup inner.scores) (lookup inner.memberScores) member := by
  unfold removeOldScore leave
  cases hold : inner.memberScores[member]? with
  | none =>
    have hnone : lookup inner.memberScores member = none := hold
    simp only [hnone]
  | some oldScore =>
    have hsome : lookup inner.memberScores member = some oldScore := hold
    cases hbucket : lookup inner.scores oldScore with
    | some members =>
      simp only [hsome, hbucket]
      exact lookup_retainOthers member hbucket
    | none =>
      have hget : inner.scores[oldScore]? = none := hbucket
      simp only [hsome, hbucket, retainOthers, hget]

/-- `add` on what the set holds. -/
lemma contents_add (inner : InnerSet) (member : String) (score : Binary64) :
    (inner.add member score).contents = inner.contents.add member score := by
  unfold add contents SetContents.add
  simp only [lookup_insert, lookup_removeOldScore, join]
  congr 1
  rw [← lookup_removeOldScore]
  rfl

/-- `remove` on what the set holds. -/
lemma contents_remove (inner : InnerSet) (member : String) :
    (inner.remove member).contents = inner.contents.remove member := by
  have hleave := inner.lookup_removeOldScore member
  unfold removeOldScore at hleave
  unfold remove contents SetContents.remove
  simp only
  rw [← hleave]
  cases hold : inner.memberScores[member]? with
  | some score => simp only [lookup_erase]
  | none =>
    have hnone : Function.update (lookup inner.memberScores) member none =
        lookup inner.memberScores := Function.update_eq_self_iff.mpr hold.symm
    simp only [hnone]

end InnerSet

namespace MemorySortedSetStore

/-- What the store holds: of each set that exists its contents. -/
def contents (st : MemorySortedSetStore) (set : String) : Option SetContents :=
  st.sets[set]?.map InnerSet.contents

/-- Writing a set. -/
lemma contents_insert (st : MemorySortedSetStore) (set : String) (inner : InnerSet) :
    contents ⟨st.sets.insert set inner⟩ =
      Function.update st.contents set (some inner.contents) := by
  funext set'
  by_cases hset : set' = set
  · subst hset
    rw [Function.update_self, contents, Std.TreeMap.getElem?_insert_self, Option.map_some]
  · have hcmp : compare set set' ≠ .eq := fun heq => hset (Std.LawfulEqCmp.eq_of_compare heq).symm
    rw [Function.update_of_ne hset, contents, Std.TreeMap.getElem?_insert, if_neg hcmp, contents]

/-- `add` on what the store holds. -/
lemma contents_add (st : MemorySortedSetStore) (set member : String) (score : Binary64) :
    (st.add set member score).contents = Function.update st.contents set
      (some (((st.contents set).getD .empty).add member score)) := by
  have hset : (st.sets[set]?.getD default).contents = (st.contents set).getD .empty := by
    unfold contents
    cases st.sets[set]? with
    | some inner => rfl
    | none => exact InnerSet.contents_default
  rw [add, contents_insert, InnerSet.contents_add, hset]

/-- `remove` on what the store holds. -/
lemma contents_remove (st : MemorySortedSetStore) (set member : String) :
    (st.remove set member).contents = Function.update st.contents set
      ((st.contents set).map (·.remove member)) := by
  unfold remove
  cases hset : st.sets[set]? with
  | some inner =>
    have hcontents : st.contents set = some inner.contents := by rw [contents, hset]; rfl
    simp only
    rw [contents_insert, InnerSet.contents_remove, hcontents, Option.map_some]
  | none =>
    have hcontents : st.contents set = none := by rw [contents, hset]; rfl
    rw [hcontents, Option.map_none, Function.update_eq_self_iff.mpr hcontents.symm]

/-- What a reachable store holds of a set is coherent. -/
lemma coherent_contents {ops : List SortedSetOp} {st : MemorySortedSetStore}
    (h : runFrom step new ops = some st) (set : String) :
    Coherent ((st.contents set).getD .empty).buckets ((st.contents set).getD .empty).scores := by
  unfold contents
  cases hset : st.sets[set]? with
  | some inner => exact agrees_of_run h set inner hset
  | none => exact coherent_empty

/-- In every reachable store, further calls of `add` with the same arguments change nothing. -/
theorem repeatable_add {ops : List SortedSetOp} {st : MemorySortedSetStore}
    (h : runFrom step new ops = some st) (set member : String) (score : Binary64) :
    Repeatable contents (fun st => ((), st.add set member score)) st := by
  apply repeatable_write (F := fun c => Function.update c set
    (some (((c set).getD .empty).add member score))) fun st => contents_add st set member score
  rw [Function.update_self, Option.getD_some, Function.update_idem,
    SetContents.add_add (coherent_contents h set)]

/-- Further calls of `remove` with the same arguments change nothing. -/
theorem repeatable_remove (st : MemorySortedSetStore) (set member : String) :
    Repeatable contents (fun st => ((), st.remove set member)) st := by
  apply repeatable_write (F := fun c => Function.update c set ((c set).map (·.remove member)))
    fun st => contents_remove st set member
  rw [Function.update_self, Function.update_idem]
  cases st.contents set with
  | some c => simp only [Option.map_some, SetContents.remove_remove]
  | none => rfl

end MemorySortedSetStore

end Rust

end GoyStore
