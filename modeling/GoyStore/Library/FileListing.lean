import GoyStore.Library.FileTree
import Mathlib.Algebra.GroupWithZero.Nat
import Mathlib.Algebra.Order.BigOperators.Group.List
import Mathlib.Algebra.Order.Group.Nat
import Mathlib.Data.List.Dedup
import Mathlib.Data.List.Nodup
import Mathlib.Data.List.Perm.Subperm

/-!
# Reading directories

The names in a directory are those of its entries.  What is below a directory is its entries and
what is below them (`below_perm`), each once, which is what a walk over a tree goes through, in
whatever order it reads the directories.
-/

namespace FileTree

open UnixPath

namespace Fs

variable {fs : Fs} {l x : Place} {name : List Char}

/-! ### Entries of a directory -/

/-- The places of the entries. -/
def entries (fs : Fs) : List Place := (fs.nodes.map Prod.fst).dedup.filter (· ≠ [])

/-- The names in a directory. -/
def children (fs : Fs) (l : Place) : List (List Char) :=
  (fs.entries.filter fun x => x.dropLast = l).map fun x => x.getLastD []

/-- The places of the entries below a place. -/
def below (fs : Fs) (l : Place) : List Place := fs.entries.filter fun x => l <+: x ∧ x ≠ l

/-- Read the names in a directory. -/
def readDir (fs : Fs) (p : Path) : Except Errno (List (List Char)) :=
  match fs.stat p with
  | .error e => .error e
  | .ok (.file _) => .error .notDirectory
  | .ok .dir => .ok (fs.children (fs.placeOf p))

/-- A place has an entry if something other than the root stands there. -/
lemma mem_entries : x ∈ fs.entries ↔ x ≠ [] ∧ ∃ y, fs.node x = some y := by
  have hkeys : x ∈ fs.nodes.map Prod.fst ↔ ∃ y, fs.nodes.lookup x = some y := by
    rw [← Option.isSome_iff_exists, List.lookup_isSome_iff, List.mem_map]
    exact exists_congr fun e => and_congr_right fun _ => by rw [beq_iff_eq, eq_comm]
  rw [entries, List.mem_filter, List.mem_dedup, hkeys, node, nodeAt]
  by_cases hx : x = []
  · simp [hx]
  · simp [hx]

/-- Every entry is there once. -/
lemma nodup_entries (fs : Fs) : fs.entries.Nodup := (List.nodup_dedup _).filter _

/-- A name is in a directory if something stands there. -/
lemma mem_children : name ∈ fs.children l ↔ ∃ y, fs.node (l ++ [name]) = some y := by
  rw [children, List.mem_map]
  constructor
  · rintro ⟨x, hx, rfl⟩
    obtain ⟨hentry, hdir⟩ := List.mem_filter.mp hx
    obtain ⟨hne, hnode⟩ := mem_entries.mp hentry
    obtain rfl : x.dropLast = l := of_decide_eq_true hdir
    rwa [List.getLastD_eq_getLast?, List.getLast?_eq_some_getLast hne, Option.getD_some,
      List.dropLast_append_getLast hne]
  · intro hnode
    refine ⟨l ++ [name], List.mem_filter.mpr ⟨mem_entries.mpr ⟨by simp, hnode⟩, by simp⟩, by simp⟩

/-- Every name is in a directory once. -/
lemma nodup_children (fs : Fs) (l : Place) : (fs.children l).Nodup := by
  refine List.Nodup.map_on (fun x hx y hy heq => ?_) (fs.nodup_entries.filter _)
  obtain ⟨hxEntry, hxDir⟩ := List.mem_filter.mp hx
  obtain ⟨hyEntry, hyDir⟩ := List.mem_filter.mp hy
  have hxNil := (mem_entries.mp hxEntry).1
  have hyNil := (mem_entries.mp hyEntry).1
  rw [List.getLastD_eq_getLast?, List.getLastD_eq_getLast?, List.getLast?_eq_some_getLast hxNil,
    List.getLast?_eq_some_getLast hyNil, Option.getD_some, Option.getD_some] at heq
  rw [← List.dropLast_append_getLast hxNil, ← List.dropLast_append_getLast hyNil, heq,
    of_decide_eq_true hxDir, of_decide_eq_true hyDir]

/-! ### What is below a directory -/

/-- What is below a place. -/
lemma mem_below : x ∈ fs.below l ↔ ∃ ns, ns ≠ [] ∧ x = l ++ ns ∧ ∃ y, fs.node x = some y := by
  rw [below, List.mem_filter, mem_entries, decide_eq_true_iff]
  constructor
  · rintro ⟨⟨-, hnode⟩, ⟨ns, rfl⟩, hne⟩
    exact ⟨ns, fun hnil => hne (by rw [hnil, List.append_nil]), rfl, hnode⟩
  · rintro ⟨ns, hns, rfl, hnode⟩
    exact ⟨⟨by simp [hns], hnode⟩, List.prefix_append l ns, by simpa using hns⟩

/-- Every place is there once. -/
lemma nodup_below (fs : Fs) (l : Place) : (fs.below l).Nodup := fs.nodup_entries.filter _

/-- Nothing is below a file. -/
lemma below_of_file {data : List UInt8} (h : fs.node l = some (.file data)) :
    fs.below l = [] := by
  rw [List.eq_nil_iff_forall_not_mem]
  intro x hx
  obtain ⟨ns, hns, rfl, y, hy⟩ := mem_below.mp hx
  rw [fs.node_of_append hns hy] at h
  cases h

/-- What is below a place are its entries and what is below them. -/
theorem below_perm (fs : Fs) (l : Place) :
    (fs.below l).Perm
      ((fs.children l).flatMap fun name => (l ++ [name]) :: fs.below (l ++ [name])) := by
  have hstart : ∀ {name x}, x ∈ (l ++ [name]) :: fs.below (l ++ [name]) → l ++ [name] <+: x := by
    intro name x hx
    rcases List.mem_cons.mp hx with rfl | hbelow
    · exact List.prefix_rfl
    · obtain ⟨ns, -, rfl, -⟩ := mem_below.mp hbelow
      exact List.prefix_append _ ns
  refine (List.perm_ext_iff_of_nodup (fs.nodup_below l) ?_).mpr fun x => ?_
  · refine List.nodup_flatMap.mpr ⟨fun name _ => ?_, ?_⟩
    · refine List.nodup_cons.mpr ⟨fun hmem => ?_, fs.nodup_below _⟩
      obtain ⟨ns, hns, heq, -⟩ := mem_below.mp hmem
      exact hns (List.append_right_eq_self.mp heq.symm)
    · -- two names of the directory start different places
      refine (fs.nodup_children l).imp fun {a b} hab => ?_
      intro x hx hx'
      have hboth := List.prefix_of_prefix_length_le (hstart hx) (hstart hx') (by simp)
      exact hab (by simpa using hboth.eq_of_length (by simp))
  · rw [mem_below, List.mem_flatMap]
    constructor
    · rintro ⟨ns, hns, rfl, y, hy⟩
      obtain ⟨name, ns, rfl⟩ := List.exists_cons_of_ne_nil hns
      have hsplit : l ++ name :: ns = l ++ [name] ++ ns := by simp
      have hname : ∃ z, fs.node (l ++ [name]) = some z := by
        by_cases hnil : ns = []
        · exact ⟨y, by rw [← hy, hnil]⟩
        · exact ⟨.dir, fs.node_of_append hnil (hsplit ▸ hy)⟩
      refine ⟨name, mem_children.mpr hname, ?_⟩
      by_cases hnil : ns = []
      · rw [hnil]
        exact List.mem_cons_self
      · exact List.mem_cons_of_mem _ (mem_below.mpr ⟨ns, hnil, hsplit, y, hy⟩)
    · rintro ⟨name, hname, hx⟩
      rcases List.mem_cons.mp hx with rfl | hbelow
      · exact ⟨[name], by simp, rfl, mem_children.mp hname⟩
      · obtain ⟨ns, -, rfl, hnode⟩ := mem_below.mp hbelow
        exact ⟨name :: ns, by simp, by simp, hnode⟩

/-- What a function collects below a directory, entry by entry. -/
theorem filterMap_below_perm {β : Type} (f : Place → Option β) {names : List (List Char)}
    (hnames : names.Perm (fs.children l)) :
    ((fs.below l).filterMap f).Perm (names.flatMap fun name =>
      (f (l ++ [name])).toList ++ (fs.below (l ++ [name])).filterMap f) := by
  refine ((fs.below_perm l).filterMap f).trans ?_
  rw [List.filterMap_flatMap]
  refine (hnames.symm.flatMap_right _).trans (List.Perm.of_eq ?_)
  refine List.flatMap_congr fun name _ => ?_
  rw [List.filterMap_cons]
  cases f (l ++ [name]) <;> rfl

/-- What a function collects below a directory: of its entries, and then below its
subdirectories. -/
theorem filterMap_below_perm_dirs {β : Type} (f : Place → Option β) {names : List (List Char)}
    (hnames : names.Perm (fs.children l)) :
    ((fs.below l).filterMap f).Perm (names.filterMap (fun name => f (l ++ [name])) ++
      (names.filter fun name => fs.node (l ++ [name]) = some .dir).flatMap fun name =>
        (fs.below (l ++ [name])).filterMap f) := by
  refine (filterMap_below_perm f hnames).trans ?_
  refine (List.flatMap_append_perm names _ _).symm.trans (List.Perm.of_eq ?_)
  rw [← List.filterMap_eq_flatMap_toList]
  congr 1
  -- nothing is below an entry that is no directory
  have hfile : ∀ name ∈ names, fs.node (l ++ [name]) ≠ some .dir → fs.below (l ++ [name]) = [] := by
    intro name hname hdir
    obtain ⟨⟨⟩ | data, hnode⟩ := mem_children.mp (hnames.mem_iff.mp hname)
    · exact absurd hnode hdir
    · exact below_of_file hnode
  clear hnames
  induction names with
  | nil => rfl
  | cons name names ih =>
    have htail := ih fun q hq => hfile q (List.mem_cons_of_mem name hq)
    rw [List.flatMap_cons, htail]
    by_cases hdir : fs.node (l ++ [name]) = some .dir
    · rw [List.filter_cons_of_pos (by simpa using hdir), List.flatMap_cons]
    · rw [List.filter_cons_of_neg (by simpa using hdir), hfile name List.mem_cons_self hdir]
      rfl

/-- The subdirectories of a directory have less below them, together and with themselves, than it
has. -/
theorem sum_below_lt {names : List (List Char)} (hnames : names.Perm (fs.children l)) :
    ((names.filter fun name => fs.node (l ++ [name]) = some .dir).map fun name =>
      (fs.below (l ++ [name])).length + 1).sum < (fs.below l).length + 1 := by
  have hlength := (filterMap_below_perm some hnames).length_eq
  rw [List.filterMap_some, List.length_flatMap] at hlength
  simp only [List.filterMap_some, Option.toList_some, List.length_append, List.length_singleton]
    at hlength
  rw [hlength, Nat.lt_succ_iff]
  have hsublist := (List.filter_sublist (p := fun name => fs.node (l ++ [name]) = some .dir)
    (l := names)).map fun name => (fs.below (l ++ [name])).length + 1
  refine hsublist.sum_le_sum (fun _ _ => Nat.zero_le _) |>.trans (le_of_eq ?_)
  simp only [Nat.add_comm]

/-- An entry of a directory has less below it than the directory. -/
lemma length_below_lt (h : name ∈ fs.children l) :
    (fs.below (l ++ [name])).length < (fs.below l).length := by
  have hnodup : ((l ++ [name]) :: fs.below (l ++ [name])).Nodup := by
    refine List.nodup_cons.mpr ⟨fun hmem => ?_, fs.nodup_below _⟩
    obtain ⟨ns, hns, heq, -⟩ := mem_below.mp hmem
    exact hns (List.append_right_eq_self.mp heq.symm)
  have hsubset : (l ++ [name]) :: fs.below (l ++ [name]) ⊆ fs.below l := by
    intro x hx
    rcases List.mem_cons.mp hx with rfl | hbelow
    · exact mem_below.mpr ⟨[name], by simp, rfl, mem_children.mp h⟩
    · obtain ⟨ns, -, rfl, hnode⟩ := mem_below.mp hbelow
      exact mem_below.mpr ⟨name :: ns, by simp, by simp, hnode⟩
  exact (hnodup.subperm hsubset).length_le

/-! ### Names of entries -/

/-- The names below a place are names, without slashes. -/
def ProperBelow (fs : Fs) (b : Place) : Prop :=
  ∀ ns name x, fs.node (b ++ ns ++ [name]) = some x → IsName name ∧ '/' ∉ name

/-- The names on the way to an entry below `b`. -/
lemma ProperBelow.names {b : Place} (h : ProperBelow fs b) {ns : List (List Char)} {x : Node}
    (hx : fs.node (b ++ ns) = some x) : ∀ q ∈ ns, IsName q ∧ '/' ∉ q := by
  induction ns using List.reverseRecOn generalizing x with
  | nil => simp
  | append_singleton ns name ih =>
    rw [← List.append_assoc] at hx
    intro q hq
    rcases List.mem_append.mp hq with hold | hlast
    · exact ih (fs.parent_dir _ _ _ hx) q hold
    · obtain rfl := List.mem_singleton.mp hlast
      exact h ns q x hx


/-- A name that is joined to the path of a directory has its entry there. -/
lemma entry_join {base : Path} (h : fs.stat base = .ok .dir) (hname : IsName name)
    (hslash : '/' ∉ name) : fs.entry (join base name) = .ok (fs.placeOf base, name) := by
  have hpieces := pieces_of_no_slash hslash
  obtain ⟨qs, hsplit, hwalk, hnode⟩ := exists_walk_join h (not_isAbsolute_of_no_slash hslash)
  rw [hpieces] at hsplit
  have hne := ne_nil_of_pieces hname hsplit
  rw [entry, hsplit, List.dropLast_concat, hwalk]
  simp only [hnode, ne_eq, not_true_eq_false, if_false, hne, List.getLastD_concat, hname, if_true]

end Fs

end FileTree
