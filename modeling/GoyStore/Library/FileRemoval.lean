import GoyStore.Library.FileTree

/-!
# Removing files and directories

A file that is removed is gone from its place, and a directory only if nothing is in it and it is
not the working directory; the rest of the tree is as it was, and a removal that fails changes
nothing (`unlink_cases`, `rmdir_cases`).

What another path leads to stays (`stat_of_unlink`, `Anchored.stat_of_without`); a path with a
suffix spells another place (`placeOf_append_ne`).
-/

namespace FileTree

open UnixPath

namespace Fs

variable {fs fs' : Fs} {p q : Path} {l x : Place} {name : List Char} {qs rs : List (List Char)}

/-! ### Trees without a place -/

/-- The second tree is the first without what stood at a place. -/
structure Without (fs fs' : Fs) (gone : Place) : Prop where
  /-- The working directory is the same. -/
  cwd : fs'.cwd = fs.cwd
  /-- Nothing stands at the place, and the rest is as it was. -/
  node : ∀ x, fs'.node x = if x = gone then none else fs.node x

/-- What a path leads to in the tree without a place, it led to before. -/
lemma Without.of_stat (h : Without fs fs' x) {y : Node} (hp : fs'.stat p = .ok y) :
    fs.stat p = .ok y := by
  refine stat_of_nodes (fun z w hz => ?_) h.cwd.symm hp
  rw [h.node] at hz
  split_ifs at hz
  exact hz

/-- Nothing is found at a path of the place. -/
lemma Without.stat_ne (h : Without fs fs' (fs.placeOf p)) (y : Node) : fs'.stat p ≠ .ok y := by
  intro hp
  have hnode := node_of_stat hp
  rw [placeOf_congr h.cwd, h.node, if_pos rfl] at hnode
  cases hnode

/-- A place that is not above another one is not looked at on the way to it. -/
theorem Anchored.stat_of_without (h : Anchored fs p qs rs l) (h' : Anchored fs' p qs rs l)
    (hgone : Without fs fs' x) (habove : ¬ x <+: fs.placeOf p) : fs'.stat p = fs.stat p := by
  have hnode : ∀ y, y <+: fs.placeOf p → fs'.node y = fs.node y := by
    intro y hy
    rw [hgone.node, if_neg]
    rintro rfl
    exact habove hy
  exact h.stat_eq h' (hnode _ List.prefix_rfl) fun y hy => by rw [hnode y hy]

/-- An anchored path to a place that is gone leads to nothing. -/
lemma Anchored.stat_of_gone (h : Anchored fs p qs rs l) (h' : Anchored fs' p qs rs l)
    (hgone : Without fs fs' (fs.placeOf p)) {y : Node} (hp : fs.stat p = .ok y) :
    fs'.stat p = .error .noEntry := by
  have hnode : fs'.node (place l rs) = none := by
    rw [hgone.node, h.placeOf_eq, if_pos rfl]
  have hne := (of_stat_eq_ok hp).1
  rw [stat, if_neg hne, h.split, find_append h'.walk]
  refine find_of_none h.plain hnode fun z _ hz data hfile => ?_
  have hfile' : fs.node z = some (.file data) := by
    rw [hgone.node] at hfile
    split_ifs at hfile
    exact hfile
  -- the entry stood below directories only
  have hstood := node_of_stat hp
  rw [h.placeOf_eq] at hstood
  by_cases hlast : z = place l rs
  · rw [hlast, hnode] at hfile
    cases hfile
  · rw [node_above hstood hz hlast] at hfile'
    cases hfile'

/-! ### Files -/

/-- A file is removed, or nothing is changed and no file stands at the path. -/
theorem unlink_cases (fs : Fs) (p : Path) :
    (∃ data fs', fs.stat p = .ok (.file data) ∧ fs.unlink p = (.ok (), fs') ∧
      Without fs fs' (fs.placeOf p)) ∨
    ((∀ data, fs.stat p ≠ .ok (.file data)) ∧ ∃ e, fs.unlink p = (.error e, fs)) := by
  rcases hentry : fs.entry p with e | ⟨l, name⟩
  · refine Or.inr ⟨fun data hfile => ?_, e, by rw [unlink, hentry]⟩
    obtain ⟨l, name, hl⟩ := exists_entry_of_stat hfile
    rw [hentry] at hl
    cases hl
  · obtain ⟨-, -, -, -, -, hplace⟩ := of_entry_eq_ok hentry
    have hstat := stat_of_entry hentry
    rw [unlink, hentry]
    simp only
    split
    · rename_i hnode
      rw [hnode] at hstat
      exact Or.inr ⟨by simp [hstat], _, rfl⟩
    · rename_i hnode
      rw [hnode] at hstat
      exact Or.inr ⟨by simp [hstat], _, rfl⟩
    · rename_i data hnode
      rw [hnode] at hstat
      exact Or.inl ⟨data, _, hstat, rfl, rfl, fun x => by rw [node_erase, hplace]⟩

/-- A file that is removed leaves what other paths lead to. -/
theorem stat_of_unlink (hplace : fs.placeOf q ≠ fs.placeOf p) :
    ((fs.unlink p).2.stat q).toOption = (fs.stat q).toOption := by
  rcases fs.unlink_cases p with ⟨data, fs', -, hunlink, hgone⟩ | ⟨-, e, hunlink⟩
  · have hdirs : ∀ y, fs.node y = some .dir → fs'.node y = some .dir := by
      intro y hy
      have hkept := dir_of_unlink (p := p) hy
      rwa [hunlink] at hkept
    rw [hunlink]
    rcases hstat : fs.stat q with e | ⟨⟨⟩ | bytes⟩
    · rcases hstat' : fs'.stat q with e' | y
      · rfl
      · rw [hgone.of_stat hstat'] at hstat
        cases hstat
    · obtain ⟨hne, l, hwalk, hl⟩ := of_stat_eq_ok hstat
      have hwalk' := walk_of_dirs hdirs hwalk hl
      rw [stat, if_neg hne, find, start_congr hgone.cwd, hwalk']
      simp only [hdirs l hl]
      rfl
    · obtain ⟨l, name, hentry⟩ := exists_entry_of_stat hstat
      obtain ⟨-, -, -, -, -, hentryPlace⟩ := of_entry_eq_ok hentry
      rw [stat_of_entry (entry_of_dirs hdirs hgone.cwd hentry), hgone.node, hentryPlace,
        if_neg hplace, node_of_stat hstat]
      rfl
  · rw [hunlink]

/-- A path with a long suffix without slashes spells another place. -/
lemma placeOf_append_ne (fs : Fs) (p : Path) {suffix : Path} (hslash : '/' ∉ suffix)
    (hlong : 2 < suffix.length) : fs.placeOf (p ++ suffix) ≠ fs.placeOf p := by
  obtain ⟨init, last, hsplit, happend⟩ := exists_pieces_append p
  have hname : IsName (last ++ suffix) := isName_of_long (by rw [List.length_append]; omega)
  have hstart : fs.start (p ++ suffix) = fs.start p := by
    rw [start, isAbsolute_append hslash, ← start]
  rw [placeOf, placeOf, hstart, hsplit, happend suffix hslash, place_append, place_append]
  generalize place (fs.start p) init = l
  intro heq
  have hlong' : l ++ [last ++ suffix] = follow l last := (follow_name hname).symm.trans heq
  rcases piece_cases last with hskip | hlast | rfl
  · rw [follow_skip hskip] at hlong'
    simp at hlong'
  · rw [follow_name hlast] at hlong'
    have hlength := congrArg (fun y => (y.getLastD []).length) hlong'
    simp only [List.getLastD_concat, List.length_append] at hlength
    omega
  · have hlength := congrArg List.length hlong'
    rw [follow, if_neg (by decide), if_pos rfl, List.length_dropLast, List.length_append,
      List.length_singleton] at hlength
    omega

/-! ### Directories -/

/-- A directory without entries has nothing below it. -/
lemma isEmptyDir_iff : fs.IsEmptyDir l ↔ ∀ ns, ns ≠ [] → fs.node (l ++ ns) = none := by
  constructor
  · intro h ns hns
    rcases hnode : fs.node (l ++ ns) with - | x
    · rfl
    · obtain ⟨name, rest, rfl⟩ := List.exists_cons_of_ne_nil hns
      have hname : ∃ y, fs.node (l ++ [name]) = some y := by
        by_cases hrest : rest = []
        · exact ⟨x, by rw [← hnode, hrest]⟩
        · refine ⟨.dir, fs.node_of_append hrest (x := x) ?_⟩
          rw [← hnode]
          simp
      obtain ⟨y, hy⟩ := hname
      rw [h.node] at hy
      cases hy
  · rintro h ⟨y, z⟩ hmem ⟨⟨ns, rfl⟩, hne⟩
    have hns : ns ≠ [] := fun hnil => hne (by rw [hnil, List.append_nil])
    have hlookup : (fs.nodes.lookup (l ++ ns)).isSome = true :=
      List.lookup_isSome_iff.mpr ⟨(l ++ ns, z), hmem, by simp⟩
    have hnone := h ns hns
    rw [node, nodeAt, if_neg (by simp [hns])] at hnone
    rw [hnone] at hlookup
    cases hlookup

/-- A directory that can be removed: nothing is in it, and it is not the working directory. -/
def RemovableDir (fs : Fs) (l : Place) : Prop := fs.cwd ≠ l ∧ fs.IsEmptyDir l

instance (fs : Fs) (l : Place) : Decidable (fs.RemovableDir l) :=
  inferInstanceAs (Decidable (_ ∧ _))

/-- Whether a directory can be removed does not depend on what is gone elsewhere. -/
lemma Without.removableDir_iff (h : Without fs fs' x) (hl : ¬ l <+: x) :
    fs'.RemovableDir l ↔ fs.RemovableDir l := by
  rw [RemovableDir, RemovableDir, h.cwd, isEmptyDir_iff, isEmptyDir_iff]
  refine and_congr_right fun _ => forall₂_congr fun ns _ => ?_
  rw [h.node, if_neg]
  rintro rfl
  exact hl (List.prefix_append l ns)

/-- The directories of a path that has an entry are there. -/
lemma makeDirs_of_entry (h : fs.entry p = .ok (l, name)) :
    (fs.makeDirs (fs.start p) (pieces p).dropLast).2 = fs := by
  obtain ⟨hwalk, hl, -⟩ := of_entry_eq_ok h
  have hmade := makeDirs_append hwalk hl []
  rw [List.append_nil] at hmade
  rw [hmade]
  rfl

/-- A walk that fails is not taken up again. -/
lemma walk_append_of_error {e : Errno} (h : fs.walk l qs = .error e) (rs : List (List Char)) :
    fs.walk l (qs ++ rs) = .error e := by
  induction qs generalizing l with
  | nil => cases h
  | cons q qs ih =>
    rw [walk] at h
    rw [List.cons_append, walk]
    rcases hmove : fs.move l q with e' | l'
    · rw [hmove] at h
      exact h
    · rw [hmove] at h
      exact ih h

/-- A walk from a directory ends where something stands. -/
lemma exists_node_of_walk {l' : Place} (hl : fs.node l = some .dir) (h : fs.walk l qs = .ok l') :
    ∃ y, fs.node l' = some y := by
  induction qs using List.reverseRecOn generalizing l' with
  | nil =>
    obtain rfl := Except.ok.inj h
    exact ⟨_, hl⟩
  | append_singleton qs q ih =>
    obtain ⟨l₁, -, hlast⟩ := exists_walk_of_append h
    rw [walk] at hlast
    rcases hmove : fs.move l₁ q with e | l₂
    · rw [hmove] at hlast
      cases hlast
    · rw [hmove] at hlast
      obtain rfl := Except.ok.inj hlast
      exact (of_move_eq_ok hmove).2.2

/-- A path that ends in a name fails as its entry does. -/
lemma stat_of_entry_error {e : Errno} (hname : IsName name)
    (hp : pieces p = (pieces p).dropLast ++ [name]) (h : fs.entry p = .error e) :
    fs.stat p = .error e := by
  have hne := ne_nil_of_pieces hname hp
  rw [stat, if_neg hne, hp, find]
  rw [entry] at h
  rcases hwalk : fs.walk (fs.start p) (pieces p).dropLast with e' | l
  · simp only [hwalk] at h
    rw [walk_append_of_error hwalk]
    exact congrArg Except.error (Except.error.inj h)
  · have hlast : (pieces p).getLastD [] = name := by
      rw [hp, List.getLastD_concat]
    simp only [hwalk, hlast, hname, hne, if_true, if_false] at h
    split_ifs at h with hdir
    -- the way ends at a file
    obtain ⟨⟨⟩ | data, hnode⟩ := exists_node_of_walk (fs.node_start p) hwalk
    · exact absurd hnode hdir
    · rw [walk_append hwalk, walk, move, hnode]
      exact congrArg Except.error (Except.error.inj h)

/-- A path that ends in a name and leads to something has an entry. -/
lemma exists_entry_of_name {y : Node} (hname : IsName name)
    (hp : pieces p = (pieces p).dropLast ++ [name]) (h : fs.stat p = .ok y) :
    ∃ l name, fs.entry p = .ok (l, name) := by
  rcases hentry : fs.entry p with e | ⟨l, name⟩
  · rw [stat_of_entry_error hname hp hentry] at h
    cases h
  · exact ⟨l, name, rfl⟩

/-- Where a path that ends in a name leads to nothing, nothing is removed. -/
lemma remove_of_stat_error {e : Errno} (hname : IsName name)
    (hp : pieces p = (pieces p).dropLast ++ [name]) (h : fs.stat p = .error e) :
    fs.unlink p = (.error e, fs) ∧ fs.rmdir p = (.error e, fs) := by
  rcases hentry : fs.entry p with e' | ⟨l, name'⟩
  · rw [stat_of_entry_error hname hp hentry] at h
    obtain rfl := Except.error.inj h
    rw [unlink, rmdir, hentry]
    exact ⟨rfl, rfl⟩
  · rw [stat_of_entry hentry] at h
    have hnone : fs.node (l ++ [name']) = none := by
      rcases hnode : fs.node (l ++ [name']) with - | y
      · rfl
      · rw [hnode] at h
        cases h
    rw [hnone] at h
    obtain rfl := Except.error.inj h
    constructor
    · rw [unlink, hentry]
      simp only
      split
      · rfl
      · rename_i hdir
        rw [hnone] at hdir
        cases hdir
      · rename_i hfile
        rw [hnone] at hfile
        cases hfile
    · rw [rmdir, hentry]
      simp only [hnone]

/-- A directory is removed if it can be, and else nothing is changed. -/
theorem rmdir_cases (hname : IsName name) (hp : pieces p = (pieces p).dropLast ++ [name])
    (h : fs.stat p = .ok .dir) :
    (fs.RemovableDir (fs.placeOf p) ∧ ∃ fs', fs.rmdir p = (.ok (), fs') ∧
      Without fs fs' (fs.placeOf p)) ∨
    (¬ fs.RemovableDir (fs.placeOf p) ∧ ∃ e, fs.rmdir p = (.error e, fs) ∧
      (e = .busy ∨ e = .notEmpty)) := by
  obtain ⟨l, name', hentry⟩ := exists_entry_of_name hname hp h
  obtain ⟨-, -, -, -, -, hplace⟩ := of_entry_eq_ok hentry
  have hnode := node_of_stat h
  rw [← hplace] at hnode
  rw [rmdir, hentry, ← hplace]
  simp only [hnode]
  split_ifs with hcwd hempty
  · exact Or.inr ⟨fun hremovable => hremovable.1 hcwd, _, rfl, Or.inl rfl⟩
  · exact Or.inl ⟨⟨hcwd, hempty⟩, _, rfl, rfl, fun x => by rw [node_erase]⟩
  · exact Or.inr ⟨fun hremovable => hempty hremovable.2, _, rfl, Or.inr rfl⟩

end Fs

end FileTree
