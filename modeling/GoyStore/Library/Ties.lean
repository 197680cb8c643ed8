import Mathlib.Data.List.Perm.Basic
import Mathlib.Order.Lattice

/-!
# Sorting by a key that ties

An arrangement of a list by a key has its entries in the order of their keys; entries with the same
key may come in any order.

`take_eq_iff` says which first parts all arrangements share: the first `n` entries are the same in
all of them exactly when every tie has at least `n` entries with a lower key.
-/

namespace Ties

variable {α κ : Type*} [LinearOrder κ] {key : α → κ} {es as bs : List α} {n : ℕ}

/-- An arrangement of a list by a key. -/
structure Arranges (key : α → κ) (es as : List α) : Prop where
  /-- It has the entries of the list. -/
  perm : as.Perm es
  /-- They come in the order of their keys. -/
  sorted : as.Pairwise fun a b => key a ≤ key b

/-- The number of entries with a lower key. -/
def below (key : α → κ) (es : List α) (a : α) : ℕ := es.countP fun b => key b < key a

/-- Entries with the same key have at least `n` entries below them. -/
def TiesFrom (key : α → κ) (es : List α) (n : ℕ) : Prop :=
  ∀ a ∈ es, ∀ b ∈ es, a ≠ b → key a = key b → n ≤ below key es a

/-- Every list can be arranged. -/
lemma exists_arranges (key : α → κ) (es : List α) : ∃ as, Arranges key es as := by
  refine ⟨es.mergeSort fun a b => key a ≤ key b, List.mergeSort_perm _ _, ?_⟩
  have htrans : ∀ a b c, decide (key a ≤ key b) = true → decide (key b ≤ key c) = true →
      decide (key a ≤ key c) = true := by
    intro a b c hab hbc
    rw [decide_eq_true_iff] at *
    exact hab.trans hbc
  have htotal : ∀ a b, (decide (key a ≤ key b) || decide (key b ≤ key a)) = true := by
    intro a b
    rw [Bool.or_eq_true, decide_eq_true_iff, decide_eq_true_iff]
    exact le_total _ _
  exact (List.pairwise_mergeSort htrans htotal es).imp fun h => decide_eq_true_iff.mp h

/-- The number of entries below does not depend on the order of a list. -/
lemma below_congr (h : as.Perm es) (a : α) : below key as a = below key es a := h.countP_eq _

/-- The first entry of an arrangement has nothing below it. -/
lemma below_head {a : α} (h : (a :: as).Pairwise fun a b => key a ≤ key b) :
    below key (a :: as) a = 0 := by
  refine List.countP_eq_zero.mpr fun b hb => ?_
  rw [decide_eq_true_iff, not_lt]
  rcases List.mem_cons.mp hb with rfl | hmem
  · exact le_rfl
  · exact List.rel_of_pairwise_cons h hmem

/-- One entry less is below when an entry is dropped. -/
lemma TiesFrom.tail {a : α} (h : TiesFrom key (a :: as) (n + 1)) : TiesFrom key as n := by
  intro c hc d hd hne heq
  have hbelow := h c (List.mem_cons_of_mem a hc) d (List.mem_cons_of_mem a hd) hne heq
  rw [below, List.countP_cons] at hbelow
  rw [below]
  split_ifs at hbelow <;> omega

/-- Arrangements share their first entries when the ties come after them. -/
theorem Arranges.take_eq (has : Arranges key es as) (hbs : Arranges key es bs)
    (h : TiesFrom key es n) : as.take n = bs.take n := by
  induction n generalizing es as bs with
  | zero => rfl
  | succ n ih =>
    have hperm : as.Perm bs := has.perm.trans hbs.perm.symm
    rcases as with - | ⟨a, as⟩
    · rw [hperm.nil_eq]
    rcases bs with - | ⟨b, bs⟩
    · cases hperm.eq_nil
    -- both first entries have the least key, so they are no tie
    have hab : key a ≤ key b := by
      rcases List.mem_cons.mp (hperm.mem_iff.mpr List.mem_cons_self) with rfl | hb
      · exact le_rfl
      · exact List.rel_of_pairwise_cons has.sorted hb
    have hba : key b ≤ key a := by
      rcases List.mem_cons.mp (hperm.mem_iff.mp List.mem_cons_self) with rfl | ha
      · exact le_rfl
      · exact List.rel_of_pairwise_cons hbs.sorted ha
    have heq : a = b := by
      by_contra hne
      have hbelow := h a (has.perm.mem_iff.mp List.mem_cons_self) b
        (hbs.perm.mem_iff.mp List.mem_cons_self) hne (le_antisymm hab hba)
      rw [← below_congr has.perm, below_head has.sorted] at hbelow
      omega
    subst heq
    have hties : TiesFrom key (a :: as) (n + 1) := by
      intro c hc d hd hne hkey
      rw [below_congr has.perm]
      exact h c (has.perm.mem_iff.mp hc) d (has.perm.mem_iff.mp hd) hne hkey
    have htail : Arranges key as as := ⟨.refl as, has.sorted.of_cons⟩
    have htail' : Arranges key as bs := ⟨hperm.cons_inv.symm, hbs.sorted.of_cons⟩
    rw [List.take_succ_cons, List.take_succ_cons, ih htail htail' hties.tail]

/-- An entry can come first among the entries with its key. -/
lemma exists_arranges_at {a : α} (ha : a ∈ es) :
    ∃ as, Arranges key es as ∧ as[below key es a]? = some a := by
  classical
  obtain ⟨low, hlow⟩ := exists_arranges key (es.filter fun b => key b < key a)
  obtain ⟨high, hhigh⟩ :=
    exists_arranges key ((es.filter fun b => !decide (key b < key a)).erase a)
  have hmem : a ∈ es.filter fun b => !decide (key b < key a) := by
    rw [List.mem_filter]
    exact ⟨ha, by simp⟩
  refine ⟨low ++ a :: high, ⟨?_, ?_⟩, ?_⟩
  · have hall : (low ++ a :: high).Perm ((es.filter fun b => key b < key a) ++
        a :: (es.filter fun b => !decide (key b < key a)).erase a) :=
      hlow.perm.append (hhigh.perm.cons a)
    exact (hall.trans ((List.perm_cons_erase hmem).symm.append_left _)).trans
      (List.filter_append_perm _ es)
  · have hlower : ∀ b ∈ low, key b < key a := by
      intro b hb
      simpa using (List.mem_filter.mp (hlow.perm.mem_iff.mp hb)).2
    have hupper : ∀ b ∈ a :: high, key a ≤ key b := by
      intro b hb
      rcases List.mem_cons.mp hb with rfl | hb
      · exact le_rfl
      · simpa using (List.mem_filter.mp (List.mem_of_mem_erase (hhigh.perm.mem_iff.mp hb))).2
    refine List.pairwise_append.mpr ⟨hlow.sorted, List.pairwise_cons.mpr ⟨?_, hhigh.sorted⟩, ?_⟩
    · exact fun b hb => hupper b (List.mem_cons_of_mem a hb)
    · exact fun b hb c hc => (hlower b hb).le.trans (hupper c hc)
  · have hlength : low.length = below key es a := by
      rw [below, List.countP_eq_length_filter, hlow.perm.length_eq]
    rw [← hlength, List.getElem?_append_right (Nat.le_refl _), Nat.sub_self]
    rfl

/-- All arrangements share their first `n` entries exactly when every tie has at least `n` entries
below it. -/
theorem take_eq_iff (key : α → κ) (es : List α) (n : ℕ) :
    (∀ as bs, Arranges key es as → Arranges key es bs → as.take n = bs.take n) ↔
      TiesFrom key es n := by
  constructor
  · intro h a ha b hb hne hkey
    by_contra hlt
    obtain ⟨as, has, hat⟩ : ∃ as, Arranges key es as ∧ as[below key es a]? = some a :=
      exists_arranges_at ha
    obtain ⟨bs, hbs, hbt⟩ : ∃ bs, Arranges key es bs ∧ bs[below key es b]? = some b :=
      exists_arranges_at hb
    have hsame : below key es b = below key es a := by rw [below, below, hkey]
    -- one arrangement has `a` where the other has `b`
    have htake := congrArg (fun l => l[below key es a]?) (h as bs has hbs)
    simp only [List.getElem?_take, if_pos (Nat.lt_of_not_le hlt)] at htake
    rw [hat, ← hsame, hbt] at htake
    exact hne (Option.some.inj htake)
  · exact fun h as bs has hbs => has.take_eq hbs h

end Ties
