import GoyStore.Library.GuardedHistory
import GoyStore.SortedSet.GoRangeByScore

/-!
# The in-memory sorted sets under concurrent callers

A method of `MemorySortedSetStore` of the Rust library holds the lock of the sets while it accesses
the two maps of a set one after the other: between the accesses of `add` a member has a score but
is in no bucket, or a bucket is empty.  `memorySortedSet` of the Go library has one map for a set,
from which `RemoveRange` deletes the members one by one.

Other calls come at any time, and a Rust call that waits for the lock is dropped when its timeout
elapses.  In every run the calls are, in the order in which they release the lock, a sequential
history of the store; a call that returned before another one was made comes before it, and no call
that only reads meets a set whose maps disagree (`sortedSet_linearizable`).
-/

namespace GoyStore

open Effects Runs Locks DualIndex

/-- A call of a sorted set store, with any limit of the range query. -/
inductive StoreCall (lim : Type) where
  /-- A call, with the range query without a limit. -/
  | call (c : SortedSetCall)
  /-- A call of `range_by_score` with a limit. -/
  | rangeUpTo (set : String) (min max : Binary64) (limit : lim)

namespace Rust

/-! ### The accesses to a set of the Rust store -/

/-- An access to the maps of a set. -/
inductive InnerAccess where
  /-- `member_scores.get(member)`. -/
  | memberScore (member : String)
  /-- `scores.get_mut(score)`, `members.retain(..)` and `members.is_empty()`. -/
  | retain (score : OrderedScore) (member : String)
  /-- `scores.remove(&score)`. -/
  | dropBucket (score : OrderedScore)
  /-- `member_scores.insert(member, score)`. -/
  | insertMember (member : String) (score : OrderedScore)
  /-- `scores.entry(score).or_default().push(member)`. -/
  | push (score : OrderedScore) (member : String)
  /-- `member_scores.remove(member)`. -/
  | takeMember (member : String)
  /-- `scores.keys()`. -/
  | keys
  /-- `scores.range(OrderedScore(min)..=OrderedScore(max))`. -/
  | range (min max : Binary64)
  /-- `member_scores.len()`. -/
  | size

namespace InnerAccess

/-- What an access gives; a range that starts above its end panics. -/
def Answer : InnerAccess → Type
  | .memberScore _ => Option OrderedScore
  | .retain _ _ => Option Bool
  | .dropBucket _ => Option (List String)
  | .insertMember _ _ => Unit
  | .push _ _ => Unit
  | .takeMember _ => Option OrderedScore
  | .keys => List OrderedScore
  | .range _ _ => Option (List (OrderedScore × List String))
  | .size => ℕ

/-- `retain` the other members of a bucket, and ask whether it is empty. -/
def retained (inner : InnerSet) (score : OrderedScore) (member : String) : Option Bool × InnerSet :=
  match inner.scores[score]? with
  | some members =>
    let rest := members.filter (· ≠ member)
    (some rest.isEmpty, { inner with scores := inner.scores.insert score rest })
  | none => (none, inner)

/-- What an access does. -/
def serve : (a : InnerAccess) → InnerSet → a.Answer × InnerSet
  | .memberScore member, inner => (inner.memberScores[member]?, inner)
  | .retain score member, inner => retained inner score member
  | .dropBucket score, inner =>
    (inner.scores[score]?, { inner with scores := inner.scores.erase score })
  | .insertMember member score, inner =>
    ((), { inner with memberScores := inner.memberScores.insert member score })
  | .push score member, inner =>
    let members := inner.scores[score]?.getD []
    ((), { inner with scores := inner.scores.insert score (members ++ [member]) })
  | .takeMember member, inner =>
    (inner.memberScores[member]?, { inner with memberScores := inner.memberScores.erase member })
  | .keys, inner => (inner.scores.keys, inner)
  | .range min max, inner =>
    (if (compare (⟨min⟩ : OrderedScore) ⟨max⟩).isGT then none
      else some (inner.entriesInRange min max), inner)
  | .size, inner => (inner.memberScores.size, inner)

end InnerAccess

/-- A part of a method, as the tree of its accesses to one set. -/
abbrev InnerProg (ρ : Type) := Prog Empty InnerAccess InnerAccess.Answer ρ

namespace InnerProg

/-- `member_scores.get(member)`. -/
def memberScore (member : String) : InnerProg (Option OrderedScore) :=
  Prog.perform (InnerAccess.memberScore member)

/-- `retain` the other members. -/
def retain (score : OrderedScore) (member : String) : InnerProg (Option Bool) :=
  Prog.perform (InnerAccess.retain score member)

/-- `scores.remove(&score)`. -/
def dropBucket (score : OrderedScore) : InnerProg (Option (List String)) :=
  Prog.perform (InnerAccess.dropBucket score)

/-- `member_scores.insert(member, score)`. -/
def insertMember (member : String) (score : OrderedScore) : InnerProg Unit :=
  Prog.perform (InnerAccess.insertMember member score)

/-- Push a member. -/
def push (score : OrderedScore) (member : String) : InnerProg Unit :=
  Prog.perform (InnerAccess.push score member)

/-- `member_scores.remove(member)`. -/
def takeMember (member : String) : InnerProg (Option OrderedScore) :=
  Prog.perform (InnerAccess.takeMember member)

/-- `scores.keys()`. -/
def keys : InnerProg (List OrderedScore) := Prog.perform InnerAccess.keys

/-- `scores.range(..)`. -/
def range (min max : Binary64) : InnerProg (Option (List (OrderedScore × List String))) :=
  Prog.perform (InnerAccess.range min max)

/-- `member_scores.len()`. -/
def size : InnerProg ℕ := Prog.perform InnerAccess.size

/-- `scores.remove(&score)`, if the bucket is there and empty. -/
def dropIfEmpty (score : OrderedScore) : Option Bool → InnerProg Unit
  | some true => do
    let _ ← dropBucket score
    return ()
  | _ => return ()

/-- What `add` and `remove` do with the bucket of the old score of a member, if it has one: `retain`
the other members, and remove the bucket when none is left. -/
def leave (member : String) : Option OrderedScore → InnerProg Unit
  | some score => do
    let empty ← retain score member
    dropIfEmpty score empty
  | none => return ()

/-- `add`, on the set. -/
def add (member : String) (score : Binary64) : InnerProg SortedSetAnswer := do
  let old ← memberScore member
  leave member old
  insertMember member ⟨score⟩
  push ⟨score⟩ member
  return .done

/-- `remove`, on the set. -/
def remove (member : String) : InnerProg SortedSetAnswer := do
  let old ← takeMember member
  leave member old
  return .done

/-- The inner loop of `remove_range`. -/
def removeMembers : List String → InnerProg Unit
  | [] => return ()
  | member :: members => do
    let _ ← takeMember member
    removeMembers members

/-- The loop of `remove_range`, from a number of removed members on. -/
def removeScores : List OrderedScore → ℕ → InnerProg ℕ
  | [], count => return count
  | score :: scores, count => do
    let bucket ← dropBucket score
    match bucket with
    | some members => do
      removeMembers members
      removeScores scores (count + members.length)
    | none => removeScores scores count

/-- `remove_range`, on the set. -/
def removeRange (min max : Binary64) : InnerProg SortedSetAnswer := do
  let scores ← keys
  let count ← removeScores (scores.filter (InnerSet.inRange min max)) 0
  return .number count

/-- `range_by_score`, on the set. -/
def rangeByScore (min max : Binary64) (limit : Option ℕ) : InnerProg SortedSetAnswer := do
  let entries ← range min max
  return .range (entries.map fun entries => InnerSet.pushMembers limit [] (entries.flatMap fun e =>
    e.2.map fun member => (member, e.1.score)))

/-- `count`, on the set. -/
def count : InnerProg SortedSetAnswer := do
  let n ← size
  return .number n

/-- `score`, on the set. -/
def score (member : String) : InnerProg SortedSetAnswer := do
  let found ← memberScore member
  return .found (found.map OrderedScore.score)

end InnerProg

namespace InnerSet

/-! ### What the accesses to a set amount to -/

/-- Two sets with the same entries in both maps. -/
structure Equiv (a b : InnerSet) : Prop where
  /-- The buckets. -/
  scores : a.scores.Equiv b.scores
  /-- The members. -/
  memberScores : a.memberScores.Equiv b.memberScores

/-- The accesses of a part of a method amount to an operation on the set. -/
def AmountsTo (p : InnerProg SortedSetAnswer) (op : InnerSet → InnerSet × SortedSetAnswer) : Prop :=
  ∀ a b : InnerSet, a.Equiv b → (p.run InnerAccess.serve a).1 = .ok (op b).2 ∧
    (p.run InnerAccess.serve a).2.Equiv (op b).1

variable {a b : InnerSet} {member : String} {score : OrderedScore}

/-- Sets with the same entries give the same range. -/
lemma Equiv.entriesInRange_eq (h : a.Equiv b) (min max : Binary64) :
    a.entriesInRange min max = b.entriesInRange min max := by
  rw [entriesInRange, entriesInRange, h.scores.toList_eq]

/-- Removing a key that is not there. -/
lemma erase_equiv {α β : Type} [Ord α] [Std.TransOrd α] [Std.LawfulEqOrd α] {t : Std.TreeMap α β}
    {k : α} (h : t[k]? = none) : (t.erase k).Equiv t := by
  refine Std.TreeMap.Equiv.of_forall_constGet?_eq fun k' => ?_
  rw [Std.TreeMap.getElem?_erase]
  split_ifs with hk
  · rw [← Std.LawfulEqCmp.eq_of_compare hk, h]
  · rfl

/-- Taking a member out of its bucket, in maps with the same entries. -/
lemma retainOthers_equiv {t u : Std.TreeMap OrderedScore (List String)} (h : t.Equiv u) :
    (retainOthers t score member).Equiv (retainOthers u score member) := by
  rw [retainOthers, retainOthers, h.getElem?_eq]
  cases u[score]? with
  | none => exact h
  | some members =>
    dsimp only
    split_ifs
    · exact h.erase score
    · exact h.insert score _

/-- Adding a member of a bucket in maps with the same entries. -/
lemma push_equiv {t u : Std.TreeMap OrderedScore (List String)} (h : t.Equiv u) :
    (t.insert score (t[score]?.getD [] ++ [member])).Equiv
      (u.insert score (u[score]?.getD [] ++ [member])) := by
  rw [h.getElem?_eq]
  exact h.insert score _

/-- The accesses of `add` and `remove` to the bucket of the old score. -/
lemma run_leave (member : String) (old : Option OrderedScore) (a : InnerSet) :
    ∃ scores, (InnerProg.leave member old).run InnerAccess.serve a = (.ok (), { a with scores }) ∧
      scores.Equiv (old.elim a.scores fun score => retainOthers a.scores score member) := by
  cases old with
  | none => exact ⟨a.scores, rfl, .rfl⟩
  | some score =>
    have hrun : (InnerProg.leave member (some score)).run InnerAccess.serve a =
        (InnerProg.dropIfEmpty score (InnerAccess.retained a score member).1).run InnerAccess.serve
          (InnerAccess.retained a score member).2 := rfl
    rw [hrun, InnerAccess.retained, Option.elim, retainOthers]
    cases hbucket : a.scores[score]? with
    | none => exact ⟨a.scores, rfl, .rfl⟩
    | some members =>
      dsimp only
      generalize members.filter (· ≠ member) = rest
      cases hempty : rest.isEmpty with
      | false => exact ⟨_, rfl, .rfl⟩
      | true =>
        -- the empty bucket is there for a moment
        refine ⟨(a.scores.insert score rest).erase score, rfl, ?_⟩
        refine Std.TreeMap.Equiv.of_forall_constGet?_eq fun s => ?_
        simp only [if_true, Std.TreeMap.getElem?_erase, Std.TreeMap.getElem?_insert]
        split_ifs
        · rfl
        · rfl

/-- The accesses of `add`. -/
lemma amountsTo_add (member : String) (score : Binary64) :
    AmountsTo (InnerProg.add member score) fun b => (b.add member score, .done) := by
  intro a b h
  obtain ⟨scores, hleave, hscores⟩ := run_leave member a.memberScores[member]? a
  have hrun : (InnerProg.add member score).run InnerAccess.serve a =
      (.ok .done,
        { scores := scores.insert ⟨score⟩ (scores[(⟨score⟩ : OrderedScore)]?.getD [] ++ [member])
          memberScores := a.memberScores.insert member ⟨score⟩ }) :=
    (Prog.run_perform_bind rfl _).trans ((Prog.run_bind_of_ok hleave _).trans rfl)
  have hold : scores.Equiv (b.removeOldScore member) := by
    refine hscores.trans ?_
    rw [removeOldScore, ← h.memberScores.getElem?_eq]
    cases a.memberScores[member]? with
    | none => exact h.scores
    | some oldScore => exact retainOthers_equiv h.scores
  rw [hrun]
  exact ⟨rfl, push_equiv hold, h.memberScores.insert member _⟩

/-- The accesses of `remove`. -/
lemma amountsTo_remove (member : String) :
    AmountsTo (InnerProg.remove member) fun b => (b.remove member, .done) := by
  intro a b h
  obtain ⟨scores, hleave, hscores⟩ := run_leave member a.memberScores[member]?
    { a with memberScores := a.memberScores.erase member }
  have hrun : (InnerProg.remove member).run InnerAccess.serve a =
      (.ok .done, { scores, memberScores := a.memberScores.erase member }) :=
    (Prog.run_perform_bind rfl _).trans ((Prog.run_bind_of_ok hleave _).trans rfl)
  rw [hrun]
  refine ⟨rfl, ?_⟩
  dsimp only
  rw [InnerSet.remove, ← h.memberScores.getElem?_eq]
  cases hold : a.memberScores[member]? with
  | none =>
    rw [hold] at hscores
    exact ⟨hscores.trans h.scores, (erase_equiv hold).trans h.memberScores⟩
  | some score =>
    rw [hold] at hscores
    exact ⟨hscores.trans (retainOthers_equiv h.scores), h.memberScores.erase member⟩

/-- The accesses of the inner loop of `remove_range`. -/
lemma run_removeMembers (members : List String) (a : InnerSet) :
    (InnerProg.removeMembers members).run InnerAccess.serve a =
      (.ok (), { a with
        memberScores := members.foldl (fun t member => t.erase member) a.memberScores }) := by
  induction members generalizing a with
  | nil => rfl
  | cons member members ih => exact (Prog.run_perform_bind rfl _).trans (ih _)

/-- Removing members from maps with the same entries. -/
lemma foldl_erase_equiv {t u : Std.TreeMap String OrderedScore} (h : t.Equiv u)
    (members : List String) : (members.foldl (fun t member => t.erase member) t).Equiv
      (members.foldl (fun t member => t.erase member) u) := by
  induction members generalizing t u with
  | nil => exact h
  | cons member members ih => exact ih (h.erase member)

/-- The accesses of the loop of `remove_range`. -/
lemma run_removeScores (scores : List OrderedScore) (n : ℕ) {a b : InnerSet} (h : a.Equiv b) :
    ∃ after, (InnerProg.removeScores scores n).run InnerAccess.serve a =
        (.ok (scores.foldl removeScore (b, n)).2, after) ∧
      after.Equiv (scores.foldl removeScore (b, n)).1 := by
  induction scores generalizing n a b with
  | nil => exact ⟨a, rfl, h⟩
  | cons score scores ih =>
    have hbucket : a.scores[score]? = b.scores[score]? := h.scores.getElem?_eq
    rw [List.foldl_cons, removeScore, InnerProg.removeScores]
    cases hb : b.scores[score]? with
    | none =>
      have hdrop : InnerAccess.serve (.dropBucket score) a =
          (none, { a with scores := a.scores.erase score }) :=
        congrArg (·, _) (hbucket.trans hb)
      obtain ⟨after, hrun, hafter⟩ :=
        ih n (a := { a with scores := a.scores.erase score }) (b := b)
          ⟨(erase_equiv (hbucket.trans hb)).trans h.scores, h.memberScores⟩
      exact ⟨after, (Prog.run_perform_bind hdrop _).trans hrun, hafter⟩
    | some members =>
      have hdrop : InnerAccess.serve (.dropBucket score) a =
          (some members, { a with scores := a.scores.erase score }) :=
        congrArg (·, _) (hbucket.trans hb)
      obtain ⟨after, hrun, hafter⟩ := ih (n + members.length)
        (a := { scores := a.scores.erase score
                memberScores := members.foldl (fun t member => t.erase member) a.memberScores })
        (b := { scores := b.scores.erase score
                memberScores := members.foldl (fun t member => t.erase member) b.memberScores })
        ⟨h.scores.erase score, foldl_erase_equiv h.memberScores members⟩
      refine ⟨after, (Prog.run_perform_bind hdrop _).trans ?_, hafter⟩
      exact (Prog.run_bind_of_ok (run_removeMembers members _) _).trans hrun

/-- The accesses of `remove_range`. -/
lemma amountsTo_removeRange (min max : Binary64) :
    AmountsTo (InnerProg.removeRange min max) fun b =>
      ((b.removeRange min max).1, .number (b.removeRange min max).2) := by
  intro a b h
  obtain ⟨after, hloop, hafter⟩ :=
    run_removeScores (a.scores.keys.filter (inRange min max)) 0 h
  have hrun : (InnerProg.removeRange min max).run InnerAccess.serve a =
      (.ok (.number _), after) :=
    (Prog.run_perform_bind rfl _).trans ((Prog.run_bind_of_ok hloop _).trans rfl)
  rw [hrun]
  dsimp only
  rw [removeRange, ← h.scores.keys_eq]
  exact ⟨rfl, hafter⟩

/-- The accesses of `range_by_score`. -/
lemma amountsTo_rangeByScore (min max : Binary64) (limit : Option ℕ) :
    AmountsTo (InnerProg.rangeByScore min max limit) fun b =>
      (b, .range (b.rangeByScore min max limit)) := by
  intro a b h
  refine ⟨?_, h⟩
  dsimp only
  rw [rangeByScore, ← h.entriesInRange_eq]
  have hrun : ((InnerProg.rangeByScore min max limit).run InnerAccess.serve a).1 =
      .ok (.range ((if (compare (⟨min⟩ : OrderedScore) ⟨max⟩).isGT then none
        else some (a.entriesInRange min max)).map fun entries =>
          pushMembers limit [] (entries.flatMap fun e =>
            e.2.map fun member => (member, e.1.score)))) := rfl
  rw [hrun]
  split_ifs
  · rfl
  · rfl

/-- The access of `count`. -/
lemma amountsTo_count :
    AmountsTo InnerProg.count fun b => (b, .number b.memberScores.size) := by
  intro a b h
  refine ⟨?_, h⟩
  dsimp only
  rw [← h.memberScores.size_eq]
  rfl

/-- The access of `score`. -/
lemma amountsTo_score (member : String) :
    AmountsTo (InnerProg.score member) fun b =>
      (b, .found (b.memberScores[member]?.map OrderedScore.score)) := by
  intro a b h
  refine ⟨?_, h⟩
  dsimp only
  rw [← h.memberScores.getElem?_eq]
  rfl

end InnerSet

/-! ### The sets behind their lock -/

/-- An access to the sets. -/
inductive SetsAccess where
  /-- `sets.entry(set).or_default()`. -/
  | entry (set : String)
  /-- `sets.get(set)` or `sets.get_mut(set)`. -/
  | find (set : String)
  /-- An access to a set that is there. -/
  | within (set : String) (a : InnerAccess)

namespace SetsAccess

/-- What an access gives. -/
def Answer : SetsAccess → Type
  | .entry _ => Unit
  | .find _ => Bool
  | .within _ a => a.Answer

/-- What an access does. -/
def serve : (c : SetsAccess) → (String → Option InnerSet) → c.Answer × (String → Option InnerSet)
  | .entry set, sets => ((), Function.update sets set (some ((sets set).getD default)))
  | .find set, sets => ((sets set).isSome, sets)
  | .within set a, sets =>
    match sets set with
    | some inner =>
      ((a.serve inner).1, Function.update sets set (some (a.serve inner).2))
    | none => ((a.serve default).1, sets)

end SetsAccess

/-- A method as the tree of its accesses. -/
abbrev SetsProg (ρ : Type) := Prog Empty SetsAccess SetsAccess.Answer ρ

namespace SetsProg

/-- `sets.entry(set).or_default()`. -/
def entry (set : String) : SetsProg Unit := Prog.perform (SetsAccess.entry set)

/-- `sets.get(set)` or `sets.get_mut(set)`. -/
def find (set : String) : SetsProg Bool := Prog.perform (SetsAccess.find set)

/-- Accesses to a set that is there. -/
def within {ρ : Type} (set : String) : InnerProg ρ → SetsProg ρ
  | .done r => .done r
  | .fail e => .fail e
  | .call a k => .call (.within set a) fun x => within set (k x)

/-- Accesses to a set that was found, or nothing. -/
def onceFound {ρ : Type} (set : String) (absent : ρ) (p : InnerProg ρ) : Bool → SetsProg ρ
  | true => within set p
  | false => return absent

/-- Accesses to a set, if it is there. -/
def ifFound {ρ : Type} (set : String) (absent : ρ) (p : InnerProg ρ) : SetsProg ρ := do
  let found ← find set
  onceFound set absent p found

end SetsProg

namespace MemorySortedSetStore

/-- How a method holds the lock. -/
def mode : StoreCall ℕ → LockMode
  | .call (.add ..) => .write
  | .call (.remove ..) => .write
  | .call (.removeRange ..) => .write
  | _ => .read

/-- The accesses of a method. -/
def body : StoreCall ℕ → SetsProg SortedSetAnswer
  | .call (.add set member score) => do
    SetsProg.entry set
    SetsProg.within set (InnerProg.add member score)
  | .call (.remove set member) => SetsProg.ifFound set .done (InnerProg.remove member)
  | .call (.removeRange set min max) =>
    SetsProg.ifFound set (.number 0) (InnerProg.removeRange min max)
  | .call (.count set) => SetsProg.ifFound set (.number 0) InnerProg.count
  | .call (.score set member) => SetsProg.ifFound set (.found none) (InnerProg.score member)
  | .call (.rangeByScore set min max) =>
    SetsProg.ifFound set (.range (some [])) (InnerProg.rangeByScore min max none)
  | .rangeUpTo set min max limit =>
    SetsProg.ifFound set (.range (some [])) (InnerProg.rangeByScore min max (some limit))

/-- A call in one step. -/
def inOneStep : StoreCall ℕ → MemorySortedSetStore →
    Except Empty SortedSetAnswer × MemorySortedSetStore
  | .call c, st => (.ok (st.perform c).2, (st.perform c).1)
  | .rangeUpTo set min max limit, st =>
    (.ok (.range (st.rangeByScore set min max (some limit))), st)

/-- Accesses that change nothing in a set change nothing in the sets. -/
lemma makes_within {ρ : Type} (set : String) {p : InnerProg ρ}
    (hp : p.Makes fun a => ∀ inner, (a.serve inner).2 = inner) :
    (SetsProg.within set p).Makes fun c => ∀ sets, (c.serve sets).2 = sets := by
  induction p with
  | done r => trivial
  | fail e => trivial
  | call a k ih =>
    refine ⟨fun sets => ?_, fun x => ih x (hp.2 x)⟩
    rw [SetsAccess.serve]
    cases hset : sets set with
    | none => rfl
    | some inner =>
      dsimp only
      rw [hp.1 inner]
      exact Function.update_eq_self_iff.mpr hset.symm

/-- Accesses that only read a set only read the sets. -/
lemma makes_ifFound {ρ : Type} (set : String) (absent : ρ) {p : InnerProg ρ}
    (hp : p.Makes fun a => ∀ inner, (a.serve inner).2 = inner) :
    (SetsProg.ifFound set absent p).Makes fun c => ∀ sets, (c.serve sets).2 = sets := by
  refine ⟨fun _ => rfl, fun found => ?_⟩
  cases found with
  | true => exact makes_within set hp
  | false => trivial

/-- The store behind its lock. -/
def guarded : Guarded (StoreCall ℕ) Empty SetsAccess SetsAccess.Answer SortedSetAnswer
    (String → Option InnerSet) where
  serve := SetsAccess.serve
  mode := mode
  body := body
  reads c hc := by
    cases c with
    | rangeUpTo set min max limit =>
      exact makes_ifFound set _ ⟨fun _ => rfl, fun _ => trivial⟩
    | call c =>
      cases c with
      | count set => exact makes_ifFound set _ ⟨fun _ => rfl, fun _ => trivial⟩
      | score set member => exact makes_ifFound set _ ⟨fun _ => rfl, fun _ => trivial⟩
      | rangeByScore set min max => exact makes_ifFound set _ ⟨fun _ => rfl, fun _ => trivial⟩
      | _ => cases hc

/-- The sets are those of a store, up to the shape of their maps. -/
def Matches (sets : String → Option InnerSet) (st : MemorySortedSetStore) : Prop :=
  ∀ set, Option.Rel InnerSet.Equiv (sets set) (lookup st.sets set)

variable {sets : String → Option InnerSet} {st st' : MemorySortedSetStore} {set : String}
  {inner inner' : InnerSet}

/-- Writing a set. -/
lemma Matches.update (h : Matches sets st) (hinner : inner.Equiv inner')
    (hst' : lookup st'.sets = Function.update (lookup st.sets) set (some inner')) :
    Matches (Function.update sets set (some inner)) st' := by
  intro set'
  rw [hst']
  by_cases hset : set' = set
  · rw [hset, Function.update_self, Function.update_self]
    exact .some hinner
  · rw [Function.update_of_ne hset, Function.update_of_ne hset]
    exact h set'

/-- A set that the store has. -/
lemma Matches.exists_of_lookup (h : Matches sets st) (hset : lookup st.sets set = some inner) :
    ∃ inner₀, sets set = some inner₀ ∧ inner₀.Equiv inner := by
  have hrel := h set
  rw [hset] at hrel
  cases hsets : sets set with
  | none =>
    rw [hsets] at hrel
    cases hrel
  | some inner₀ =>
    rw [hsets] at hrel
    cases hrel with
    | some hequiv => exact ⟨inner₀, rfl, hequiv⟩

/-- A set that the store does not have. -/
lemma Matches.eq_none (h : Matches sets st) (hset : lookup st.sets set = none) :
    sets set = none := by
  have hrel := h set
  rw [hset] at hrel
  cases hsets : sets set with
  | none => rfl
  | some inner₀ =>
    rw [hsets] at hrel
    cases hrel

/-- Accesses to a set that is there. -/
lemma run_within {ρ : Type} (p : InnerProg ρ) (h : sets set = some inner) :
    (SetsProg.within set p).run SetsAccess.serve sets = ((p.run InnerAccess.serve inner).1,
      Function.update sets set (some (p.run InnerAccess.serve inner).2)) := by
  induction p generalizing sets inner with
  | done r => exact Prod.ext rfl (Function.update_eq_self_iff.mpr h.symm).symm
  | fail e => exact Prod.ext rfl (Function.update_eq_self_iff.mpr h.symm).symm
  | call a k ih =>
    have hserve : SetsAccess.serve (.within set a) sets = ((a.serve inner).1,
        Function.update sets set (some (a.serve inner).2)) := by
      rw [SetsAccess.serve, h]
      rfl
    rw [SetsProg.within, Prog.run_call hserve, ih _ (Function.update_self ..),
      Function.update_idem]
    rfl

/-- Accesses that amount to an operation, to a set that is there. -/
lemma Matches.within (h : Matches sets st) {p : InnerProg SortedSetAnswer}
    {op : InnerSet → InnerSet × SortedSetAnswer} (hp : InnerSet.AmountsTo p op)
    (hset : lookup st.sets set = some inner)
    (hst' : lookup st'.sets = Function.update (lookup st.sets) set (some (op inner).1)) :
    ((SetsProg.within set p).run SetsAccess.serve sets).1 = .ok (op inner).2 ∧
      Matches ((SetsProg.within set p).run SetsAccess.serve sets).2 st' := by
  obtain ⟨inner₀, hsets, hequiv⟩ := h.exists_of_lookup hset
  obtain ⟨hresult, hafter⟩ := hp inner₀ inner hequiv
  rw [run_within p hsets]
  exact ⟨hresult, h.update hafter hst'⟩

/-- Accesses that amount to an operation, to a set if it is there. -/
lemma Matches.ifFound (h : Matches sets st) {p : InnerProg SortedSetAnswer}
    {op : InnerSet → InnerSet × SortedSetAnswer} (hp : InnerSet.AmountsTo p op)
    {absent answer : SortedSetAnswer}
    (hnone : lookup st.sets set = none → answer = absent ∧ st' = st)
    (hsome : ∀ inner, lookup st.sets set = some inner → answer = (op inner).2 ∧
      lookup st'.sets = Function.update (lookup st.sets) set (some (op inner).1)) :
    ((SetsProg.ifFound set absent p).run SetsAccess.serve sets).1 = .ok answer ∧
      Matches ((SetsProg.ifFound set absent p).run SetsAccess.serve sets).2 st' := by
  have hrun : (SetsProg.ifFound set absent p).run SetsAccess.serve sets =
      (SetsProg.onceFound set absent p (sets set).isSome).run SetsAccess.serve sets := rfl
  cases hset : lookup st.sets set with
  | none =>
    obtain ⟨rfl, rfl⟩ := hnone hset
    rw [hrun, h.eq_none hset]
    exact ⟨rfl, h⟩
  | some inner =>
    obtain ⟨rfl, hst'⟩ := hsome inner hset
    obtain ⟨inner₀, hsets, -⟩ := h.exists_of_lookup hset
    rw [hrun, hsets]
    exact h.within hp hset hst'

/-- Accesses that only read a set, if it is there. -/
lemma Matches.ifFound_read (h : Matches sets st) {p : InnerProg SortedSetAnswer}
    {read : InnerSet → SortedSetAnswer}
    (hp : InnerSet.AmountsTo p fun inner => (inner, read inner)) {absent answer : SortedSetAnswer}
    (hnone : st.sets[set]? = none → answer = absent)
    (hsome : ∀ inner, st.sets[set]? = some inner → answer = read inner) :
    ((SetsProg.ifFound set absent p).run SetsAccess.serve sets).1 = .ok answer ∧
      Matches ((SetsProg.ifFound set absent p).run SetsAccess.serve sets).2 st :=
  h.ifFound hp (fun hset => ⟨hnone hset, rfl⟩) fun inner hset =>
    ⟨hsome inner hset, (Function.update_eq_self_iff.mpr hset.symm).symm⟩

/-- The accesses of a call amount to the call in one step. -/
theorem guarded_refines (c : StoreCall ℕ) (sets : String → Option InnerSet)
    (st : MemorySortedSetStore) (h : Matches sets st) :
    (guarded.perform c sets).1 = (inOneStep c st).1 ∧
      Matches (guarded.perform c sets).2 (inOneStep c st).2 := by
  cases c with
  | rangeUpTo set min max limit =>
    refine h.ifFound_read (InnerSet.amountsTo_rangeByScore min max (some limit))
      (fun hset => ?_) fun inner hset => ?_
    · rw [rangeByScore, hset]
    · rw [rangeByScore, hset]
  | call c =>
    cases c with
    | add set member score =>
      have hentry : Matches (SetsAccess.serve (.entry set) sets).2
          ⟨st.sets.insert set ((lookup st.sets set).getD default)⟩ := by
        refine h.update ?_ (lookup_insert st.sets set _)
        cases hset : lookup st.sets set with
        | none =>
          rw [h.eq_none hset]
          exact ⟨.rfl, .rfl⟩
        | some inner =>
          obtain ⟨inner₀, hsets, hequiv⟩ := h.exists_of_lookup hset
          rw [hsets]
          exact hequiv
      have hfound : lookup (st.sets.insert set ((lookup st.sets set).getD default)) set =
          some ((lookup st.sets set).getD default) := by
        rw [lookup_insert, Function.update_self]
      refine hentry.within (InnerSet.amountsTo_add member score) hfound ?_
      rw [lookup_insert, Function.update_idem]
      exact lookup_insert st.sets set _
    | remove set member =>
      refine h.ifFound (InnerSet.amountsTo_remove member) (fun hset => ⟨rfl, ?_⟩)
        fun inner hset => ⟨rfl, ?_⟩
      · have hset' : st.sets[set]? = none := hset
        simp only [inOneStep, perform, remove, hset']
      · have hset' : st.sets[set]? = some inner := hset
        simp only [inOneStep, perform, remove, hset']
        exact lookup_insert st.sets set _
    | removeRange set min max =>
      refine h.ifFound (InnerSet.amountsTo_removeRange min max) (fun hset => ?_)
        fun inner hset => ?_
      · have hset' : st.sets[set]? = none := hset
        simp only [inOneStep, perform, removeRange, hset', and_self]
      · have hset' : st.sets[set]? = some inner := hset
        simp only [inOneStep, perform, removeRange, hset', true_and]
        exact lookup_insert st.sets set _
    | count set =>
      refine h.ifFound_read InnerSet.amountsTo_count (fun hset => ?_) fun inner hset => ?_
      · simp only [perform, count, hset]
      · simp only [perform, count, hset]
    | score set member =>
      refine h.ifFound_read (InnerSet.amountsTo_score member) (fun hset => ?_) fun inner hset => ?_
      · simp only [perform, score, hset]
      · simp only [perform, score, hset]
    | rangeByScore set min max =>
      refine h.ifFound_read (InnerSet.amountsTo_rangeByScore min max none)
        (fun hset => ?_) fun inner hset => ?_
      · simp only [perform, rangeByScore, hset]
      · simp only [perform, rangeByScore, hset]

/-- A call in one step keeps the maps of every set in agreement. -/
lemma Agrees.inOneStep (h : st.Agrees) (c : StoreCall ℕ) :
    (MemorySortedSetStore.inOneStep c st).2.Agrees := by
  cases c with
  | rangeUpTo set min max limit => exact h
  | call c =>
    cases c with
    | add set member score => exact agrees_step st (.add set member score) _ h rfl
    | remove set member => exact agrees_step st (.remove set member) _ h rfl
    | removeRange set min max => exact agrees_step st (.removeRange set min max) _ h rfl
    | _ => exact h

/-- Sets with the entries of sets whose maps agree. -/
lemma Matches.dualIndexed (h : Matches sets st) (hst : st.Agrees) (hset : sets set = some inner) :
    inner.DualIndexed := by
  cases hlookup : lookup st.sets set with
  | none =>
    rw [h.eq_none hlookup] at hset
    cases hset
  | some inner' =>
    obtain ⟨inner₀, hsets, hequiv⟩ := h.exists_of_lookup hlookup
    obtain rfl : inner₀ = inner := Option.some.inj (hsets.symm.trans hset)
    refine InnerSet.Agrees.dualIndexed ?_
    have hscores : lookup inner₀.scores = lookup inner'.scores :=
      funext fun _ => hequiv.scores.getElem?_eq
    have hmembers : lookup inner₀.memberScores = lookup inner'.memberScores :=
      funext fun _ => hequiv.memberScores.getElem?_eq
    rw [InnerSet.Agrees, hscores, hmembers]
    exact hst set inner' hlookup

end MemorySortedSetStore

end Rust

namespace Go

/-! ### The Go store -/

/-- An access to the maps of `memorySortedSet`. -/
inductive MapsAccess where
  /-- `m.sets[set] != nil`. -/
  | find (set : String)
  /-- `m.sets[set] = make(map[string]float64)`. -/
  | make (set : String)
  /-- `m.sets[set][member] = score`. -/
  | put (set member : String) (score : Binary64)
  /-- `delete(m.sets[set], member)`. -/
  | delete (set member : String)
  /-- The iteration of `m.sets[set]`, in the order that the runtime chooses. -/
  | iterate (rt : Runtime) (set : String)
  /-- `len(m.sets[set])`. -/
  | len (set : String)
  /-- `m.sets[set][member]`. -/
  | get (set member : String)

namespace MapsAccess

/-- What an access gives. -/
def Answer : MapsAccess → Type
  | .find _ => Bool
  | .iterate _ _ => List (String × Binary64)
  | .len _ => ℕ
  | .get _ _ => Option Binary64
  | _ => Unit

/-- What an access does; a map that is not there reads as an empty one. -/
def serve : (c : MapsAccess) → (String → Option (Std.TreeMap String Binary64)) →
    c.Answer × (String → Option (Std.TreeMap String Binary64))
  | .find set, sets => ((sets set).isSome, sets)
  | .make set, sets => ((), Function.update sets set (some ∅))
  | .put set member score, sets =>
    ((), Function.update sets set (some (((sets set).getD ∅).insert member score)))
  | .delete set member, sets =>
    ((), Function.update sets set ((sets set).map fun members => members.erase member))
  | .iterate rt set, sets => (rt.iterate ((sets set).getD ∅).toList, sets)
  | .len set, sets => (((sets set).getD ∅).size, sets)
  | .get set member, sets => (((sets set).getD ∅)[member]?, sets)

end MapsAccess

/-- A method as the tree of its accesses. -/
abbrev MapsProg (ρ : Type) := Prog Empty MapsAccess MapsAccess.Answer ρ

namespace MapsProg

/-- `m.sets[set] != nil`. -/
def find (set : String) : MapsProg Bool := Prog.perform (MapsAccess.find set)

/-- `m.sets[set] = make(map[string]float64)`. -/
def make (set : String) : MapsProg Unit := Prog.perform (MapsAccess.make set)

/-- `m.sets[set][member] = score`. -/
def put (set member : String) (score : Binary64) : MapsProg Unit :=
  Prog.perform (MapsAccess.put set member score)

/-- `delete(m.sets[set], member)`. -/
def delete (set member : String) : MapsProg Unit := Prog.perform (MapsAccess.delete set member)

/-- The iteration of `m.sets[set]`. -/
def iterate (rt : Runtime) (set : String) : MapsProg (List (String × Binary64)) :=
  Prog.perform (MapsAccess.iterate rt set)

/-- `len(m.sets[set])`. -/
def len (set : String) : MapsProg ℕ := Prog.perform (MapsAccess.len set)

/-- `m.sets[set][member]`. -/
def get (set member : String) : MapsProg (Option Binary64) :=
  Prog.perform (MapsAccess.get set member)

/-- Make a map, if there is none. -/
def makeUnless (set : String) : Bool → MapsProg Unit
  | true => return ()
  | false => make set

/-- `Add`. -/
def add (set member : String) (score : Binary64) : MapsProg SortedSetAnswer := do
  let found ← find set
  makeUnless set found
  put set member score
  return .done

/-- Delete a member, if there is a map. -/
def deleteIf (set member : String) : Bool → MapsProg Unit
  | true => delete set member
  | false => return ()

/-- `Remove`. -/
def remove (set member : String) : MapsProg SortedSetAnswer := do
  let found ← find set
  deleteIf set member found
  return .done

/-- The loop of `RemoveRange`, from a number of removed members on. -/
def removeEntries (set : String) (min max : Binary64) :
    List (String × Binary64) → ℕ → MapsProg ℕ
  | [], count => return count
  | e :: entries, count =>
    if MemorySortedSet.inRange min max e.2 then do
      delete set e.1
      removeEntries set min max entries (count + 1)
    else removeEntries set min max entries count

/-- The iteration of a map, if there is one. -/
def iterateIf (rt : Runtime) (set : String) : Bool → MapsProg (List (String × Binary64))
  | true => iterate rt set
  | false => return []

/-- `RemoveRange`. -/
def removeRange (rt : Runtime) (set : String) (min max : Binary64) : MapsProg SortedSetAnswer := do
  let found ← find set
  let entries ← iterateIf rt set found
  let count ← removeEntries set min max entries 0
  return .number count

/-- `result[:*limit]`, if there is a limit that is less than the length of the result; a negative
limit panics. -/
def cut (limit : Option ℤ) (result : List (String × Binary64)) :
    Option (List (String × Binary64)) :=
  match limit with
  | none => some result
  | some limit =>
    if limit < result.length then if limit < 0 then none else some (result.take limit.toNat)
    else some result

/-- `RangeByScore`. -/
def rangeByScore (rt : Runtime) (set : String) (min max : Binary64) (limit : Option ℤ) :
    MapsProg SortedSetAnswer := do
  let found ← find set
  let entries ← iterateIf rt set found
  let result := entries.filter fun e => MemorySortedSet.inRange min max e.2
  return .range (cut limit (rt.sortSlice result))

/-- `Count`. -/
def count (set : String) : MapsProg SortedSetAnswer := do
  let n ← len set
  return .number n

/-- `Score`. -/
def score (set member : String) : MapsProg SortedSetAnswer := do
  let found ← get set member
  return .found found

end MapsProg

namespace MemorySortedSet

/-- How a method holds the lock. -/
def mode : Runtime × StoreCall ℤ → LockMode
  | (_, .call (.add ..)) => .write
  | (_, .call (.remove ..)) => .write
  | (_, .call (.removeRange ..)) => .write
  | _ => .read

/-- The accesses of a method, with the choices of the runtime. -/
def body : Runtime × StoreCall ℤ → MapsProg SortedSetAnswer
  | (_, .call (.add set member score)) => MapsProg.add set member score
  | (_, .call (.remove set member)) => MapsProg.remove set member
  | (rt, .call (.removeRange set min max)) => MapsProg.removeRange rt set min max
  | (_, .call (.count set)) => MapsProg.count set
  | (_, .call (.score set member)) => MapsProg.score set member
  | (rt, .call (.rangeByScore set min max)) => MapsProg.rangeByScore rt set min max none
  | (rt, .rangeUpTo set min max limit) => MapsProg.rangeByScore rt set min max (some limit)

/-- A call in one step. -/
def inOneStep : Runtime × StoreCall ℤ → MemorySortedSet →
    Except Empty SortedSetAnswer × MemorySortedSet
  | (rt, .call c), m => (.ok (m.perform rt c).2, (m.perform rt c).1)
  | (rt, .rangeUpTo set min max limit), m =>
    (.ok (.range (m.rangeByScoreUpTo rt set min max (some limit))), m)

/-- `RangeByScore` only reads. -/
lemma makes_rangeByScore (rt : Runtime) (set : String) (min max : Binary64) (limit : Option ℤ) :
    (MapsProg.rangeByScore rt set min max limit).Makes fun c =>
      ∀ sets, (c.serve sets).2 = sets := by
  refine ⟨fun _ => rfl, fun found => ?_⟩
  cases found with
  | true => exact ⟨fun _ => rfl, fun _ => trivial⟩
  | false => trivial

/-- The store behind its lock. -/
def guarded : Guarded (Runtime × StoreCall ℤ) Empty MapsAccess MapsAccess.Answer SortedSetAnswer
    (String → Option (Std.TreeMap String Binary64)) where
  serve := MapsAccess.serve
  mode := mode
  body := body
  reads c hc := by
    obtain ⟨rt, c⟩ := c
    cases c with
    | rangeUpTo set min max limit => exact makes_rangeByScore rt set min max (some limit)
    | call c =>
      cases c with
      | count set => exact ⟨fun _ => rfl, fun _ => trivial⟩
      | score set member => exact ⟨fun _ => rfl, fun _ => trivial⟩
      | rangeByScore set min max => exact makes_rangeByScore rt set min max none
      | _ => cases hc

variable {m : MemorySortedSet} {set : String}

/-- The loop of `RemoveRange`. -/
lemma run_removeEntries (min max : Binary64) (entries : List (String × Binary64))
    (sets : String → Option (Std.TreeMap String Binary64)) (members : Std.TreeMap String Binary64)
    (n : ℕ) :
    (MapsProg.removeEntries set min max entries n).run MapsAccess.serve
        (Function.update sets set (some members)) =
      (Except.ok (entries.foldl (removeEntry min max) (members, n)).2,
        Function.update sets set
          (some (entries.foldl (removeEntry min max) (members, n)).1)) := by
  induction entries generalizing members n with
  | nil => rfl
  | cons e entries ih =>
    rw [MapsProg.removeEntries, List.foldl_cons, removeEntry]
    split_ifs with he
    · have hdelete : MapsAccess.serve (.delete set e.1) (Function.update sets set (some members)) =
          ((), Function.update sets set (some (members.erase e.1))) :=
        Prod.ext rfl (by simp [MapsAccess.serve])
      exact (Prog.run_perform_bind hdelete _).trans (ih _ _)
    · exact ih members n

/-- Writing a member of a map. -/
lemma serve_put {sets : String → Option (Std.TreeMap String Binary64)}
    {found : Option (Std.TreeMap String Binary64)} (h : sets set = found) (member : String)
    (score : Binary64) : (MapsAccess.serve (.put set member score) sets).2 =
      Function.update sets set (some ((found.getD ∅).insert member score)) := by
  subst h
  rfl

/-- Deleting a member of a map. -/
lemma serve_delete {sets : String → Option (Std.TreeMap String Binary64)}
    {found : Option (Std.TreeMap String Binary64)} (h : sets set = found) (member : String) :
    (MapsAccess.serve (.delete set member) sets).2 =
      Function.update sets set (found.map fun members => members.erase member) := by
  subst h
  rfl

/-- The accesses of `Add`. -/
lemma run_add (set member : String) (score : Binary64)
    (sets : String → Option (Std.TreeMap String Binary64)) :
    (MapsProg.add set member score).run MapsAccess.serve sets =
      (Except.ok SortedSetAnswer.done,
        Function.update sets set (some (((sets set).getD ∅).insert member score))) := by
  have hrun : (MapsProg.add set member score).run MapsAccess.serve sets =
      (MapsProg.makeUnless set (sets set).isSome >>= fun _ => MapsProg.put set member score >>=
        fun _ => pure SortedSetAnswer.done).run MapsAccess.serve sets := rfl
  rw [hrun]
  cases hset : sets set with
  | some members =>
    exact (Prog.run_perform_bind (Prod.ext rfl (serve_put hset member score)) _).trans rfl
  | none =>
    have hentry : MapsAccess.serve (.make set) sets =
        ((), Function.update sets set (some ∅)) := rfl
    refine (Prog.run_perform_bind hentry _).trans ?_
    have hput := serve_put (Function.update_self set (some ∅) sets) member score
    rw [Function.update_idem] at hput
    exact (Prog.run_perform_bind (Prod.ext rfl hput) _).trans rfl

/-- The accesses of `Remove`. -/
lemma run_remove (set member : String) (sets : String → Option (Std.TreeMap String Binary64)) :
    (MapsProg.remove set member).run MapsAccess.serve sets =
      (Except.ok SortedSetAnswer.done,
        Function.update sets set ((sets set).map fun members => members.erase member)) := by
  have hrun : (MapsProg.remove set member).run MapsAccess.serve sets =
      (MapsProg.deleteIf set member (sets set).isSome >>=
        fun _ => pure SortedSetAnswer.done).run MapsAccess.serve sets := rfl
  rw [hrun]
  cases hset : sets set with
  | some members =>
    exact (Prog.run_perform_bind (Prod.ext rfl (serve_delete hset member)) _).trans rfl
  | none => exact Prod.ext rfl (Function.update_eq_self_iff.mpr hset.symm).symm

/-- The iteration of a map that is there. -/
lemma run_iterate (rt : Runtime) {members : Std.TreeMap String Binary64}
    (hset : m.sets[set]? = some members) :
    MapsAccess.serve (.iterate rt set) (lookup m.sets) =
      (rt.iterate members.toList, lookup m.sets) := by
  have hserve : MapsAccess.serve (.iterate rt set) (lookup m.sets) =
      (rt.iterate (m.sets[set]?.getD ∅).toList, lookup m.sets) := rfl
  rw [hserve, hset]
  rfl

/-- The accesses of `RemoveRange`. -/
lemma run_removeRange (rt : Runtime) (set : String) (min max : Binary64) (m : MemorySortedSet) :
    (MapsProg.removeRange rt set min max).run MapsAccess.serve (lookup m.sets) =
      (.ok (.number (m.removeRange rt set min max).2),
        lookup (m.removeRange rt set min max).1.sets) := by
  have hfind : MapsAccess.serve (.find set) (lookup m.sets) =
      (m.sets[set]?.isSome, lookup m.sets) := rfl
  refine (Prog.run_perform_bind hfind _).trans ?_
  rw [removeRange]
  cases hset : m.sets[set]? with
  | none => rfl
  | some members =>
    refine (Prog.run_perform_bind (run_iterate rt hset) _).trans ?_
    have hself : Function.update (lookup m.sets) set (some members) = lookup m.sets :=
      Function.update_eq_self_iff.mpr hset.symm
    have hloop := @run_removeEntries set min max (rt.iterate members.toList)
      (lookup m.sets) members 0
    rw [hself] at hloop
    refine (Prog.run_bind_of_ok hloop _).trans (Prod.ext rfl ?_)
    exact (lookup_insert m.sets set _).symm

/-- The accesses of `RangeByScore`. -/
lemma run_rangeByScore (rt : Runtime) (set : String) (min max : Binary64) (limit : Option ℤ)
    (m : MemorySortedSet) :
    (MapsProg.rangeByScore rt set min max limit).run MapsAccess.serve (lookup m.sets) =
      (.ok (.range (m.rangeByScoreUpTo rt set min max limit)), lookup m.sets) := by
  have hfind : MapsAccess.serve (.find set) (lookup m.sets) =
      (m.sets[set]?.isSome, lookup m.sets) := rfl
  refine (Prog.run_perform_bind hfind _).trans ?_
  have hcut : m.rangeByScoreUpTo rt set min max limit =
      MapsProg.cut limit (m.rangeByScore rt set min max) := by
    cases limit with
    | none => rfl
    | some limit => rfl
  rw [hcut, rangeByScore]
  cases hset : m.sets[set]? with
  | none => rfl
  | some members =>
    refine (Prog.run_perform_bind (run_iterate rt hset) _).trans rfl

/-- The accesses of a call amount to the call in one step. -/
theorem guarded_refines (c : Runtime × StoreCall ℤ)
    (sets : String → Option (Std.TreeMap String Binary64)) (m : MemorySortedSet)
    (h : sets = lookup m.sets) :
    (guarded.perform c sets).1 = (inOneStep c m).1 ∧
      (guarded.perform c sets).2 = lookup (inOneStep c m).2.sets := by
  subst h
  obtain ⟨rt, c⟩ := c
  cases c with
  | rangeUpTo set min max limit =>
    have hrun := run_rangeByScore rt set min max (some limit) m
    exact ⟨congrArg Prod.fst hrun, congrArg Prod.snd hrun⟩
  | call c =>
    cases c with
    | add set member score =>
      have hrun := run_add set member score (lookup m.sets)
      refine ⟨congrArg Prod.fst hrun, (congrArg Prod.snd hrun).trans ?_⟩
      exact (lookup_insert m.sets set _).symm
    | remove set member =>
      have hrun := run_remove set member (lookup m.sets)
      refine ⟨congrArg Prod.fst hrun, (congrArg Prod.snd hrun).trans ?_⟩
      have hstep : (inOneStep (rt, .call (.remove set member)) m).2 = m.remove set member := rfl
      rw [hstep, remove]
      cases hset : m.sets[set]? with
      | none => exact Function.update_eq_self_iff.mpr (by rw [lookup, hset]; rfl)
      | some members =>
        rw [lookup_insert]
        exact congrArg (fun t => Function.update (lookup m.sets) set
          (Option.map (fun members => members.erase member) t)) hset
    | removeRange set min max =>
      have hrun := run_removeRange rt set min max m
      exact ⟨congrArg Prod.fst hrun, congrArg Prod.snd hrun⟩
    | count set => exact ⟨rfl, rfl⟩
    | score set member =>
      refine ⟨?_, rfl⟩
      have hstep : (inOneStep (rt, .call (.score set member)) m).1 =
        .ok (.found (m.score set member)) := rfl
      rw [hstep, score]
      have hget : (guarded.perform (rt, .call (.score set member)) (lookup m.sets)).1 =
        .ok (.found ((m.sets[set]?.getD ∅)[member]?)) := rfl
      rw [hget]
      cases hset : m.sets[set]? with
      | none => simp
      | some members => rfl
    | rangeByScore set min max =>
      have hrun := run_rangeByScore rt set min max none m
      exact ⟨congrArg Prod.fst hrun, congrArg Prod.snd hrun⟩

end MemorySortedSet

end Go

/-! ### Runs -/

variable {τ : Type} [DecidableEq τ]

/-- In every run of any number of callers of a new store of each library, the calls are a sequential
history of the store in an order that agrees with real time, and unless a call is writing the two
maps of every set of the Rust store index one relation. -/
theorem sortedSet_linearizable (rust : List (GuardedLabel τ (StoreCall ℕ)))
    (go : List (GuardedLabel τ (Go.Runtime × StoreCall ℤ))) :
    AlwaysAfter Rust.MemorySortedSetStore.guarded.step
      (fun ls s => Rust.MemorySortedSetStore.guarded.Linearized Rust.MemorySortedSetStore.inOneStep
          Rust.MemorySortedSetStore.Matches .new ls s ∧
        ((∀ t, s.lock.mode t ≠ some .write) →
          ∀ set inner, s.object set = some inner → inner.DualIndexed))
      (Guarded.start τ fun _ => none) rust ∧
    AlwaysAfter Go.MemorySortedSet.guarded.step
      (Go.MemorySortedSet.guarded.Linearized Go.MemorySortedSet.inOneStep
        (fun sets m => sets = lookup m.sets) .new)
      (Guarded.start τ fun _ => none) go := by
  refine ⟨fun pre s hpre hrun => ?_, Guarded.always_linearized
    Go.MemorySortedSet.guarded_refines (funext fun _ => Std.TreeMap.getElem?_emptyc.symm) go⟩
  have hnew : ∀ set, lookup Rust.MemorySortedSetStore.new.sets set = none :=
    fun _ => Std.TreeMap.getElem?_emptyc
  have hmatches : Rust.MemorySortedSetStore.Matches (fun _ => none) .new := by
    intro set
    rw [hnew set]
    exact .none
  have hlinearized := Guarded.always_linearized Rust.MemorySortedSetStore.guarded_refines hmatches
    rust pre s hpre hrun
  refine ⟨hlinearized, fun hfree set inner hset => ?_⟩
  obtain ⟨st, hlegal, hobject⟩ := hlinearized.sequential
  refine (hobject hfree).dualIndexed (hlegal.invariant (fun c st h => h.inOneStep c) ?_) hset
  intro set inner hset
  cases (hnew set).symm.trans hset

end GoyStore
