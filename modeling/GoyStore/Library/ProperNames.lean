import GoyStore.Library.FaultyFiles
import GoyStore.Library.FileListing
import GoyStore.Library.FileRemoval

/-!
# Names that calls bring into a tree

Files are written and directories are made along the pieces of paths, so that every new entry has a
name without slashes, and no call changes the working directory.  `KeepsNames` is what all calls
have in common, with faults or without.
-/

namespace FileTree

open UnixPath

namespace Fs

variable {fs fs' fs'' : Fs} {l : Place} {qs : List (List Char)} {p : Path} {data : List UInt8}

/-- The working directory is the same, and names that were proper still are. -/
structure KeepsNames (fs fs' : Fs) : Prop where
  /-- The working directory is the same. -/
  cwd : fs'.cwd = fs.cwd
  /-- The names below a place are still proper. -/
  proper : ∀ b, fs.ProperBelow b → fs'.ProperBelow b

/-- In the empty tree nothing stands but the root. -/
lemma node_empty (h : l ≠ []) : empty.node l = none := by
  rw [node, nodeAt, if_neg h]
  rfl

/-- The empty tree has no names. -/
lemma properBelow_empty (b : Place) : empty.ProperBelow b := by
  intro ns name x hx
  rw [node_empty (by simp)] at hx
  cases hx

/-- A tree has the names that it has. -/
lemma KeepsNames.refl (fs : Fs) : KeepsNames fs fs := ⟨rfl, fun _ => id⟩

/-- Names are kept step by step. -/
lemma KeepsNames.trans (h : KeepsNames fs fs') (h' : KeepsNames fs' fs'') : KeepsNames fs fs'' :=
  ⟨h'.cwd.trans h.cwd, fun b hb => h'.proper b (h.proper b hb)⟩

/-- Names are kept if every new entry has a proper name. -/
lemma KeepsNames.of_new (hcwd : fs'.cwd = fs.cwd)
    (hnew : ∀ l name x, fs'.node (l ++ [name]) = some x →
      (∃ y, fs.node (l ++ [name]) = some y) ∨ IsName name ∧ '/' ∉ name) : KeepsNames fs fs' := by
  refine ⟨hcwd, fun b hb ns name x hx => ?_⟩
  rcases hnew (b ++ ns) name x hx with ⟨y, hy⟩ | hname
  · exact hb ns name y hy
  · exact hname

/-- Names are kept where something is gone. -/
lemma Without.keepsNames {x : Place} (h : Without fs fs' x) : KeepsNames fs fs' := by
  refine .of_new h.cwd fun l name y hy => Or.inl ⟨y, ?_⟩
  rw [h.node] at hy
  split_ifs at hy
  exact hy

/-- Removing a file keeps names. -/
lemma keepsNames_unlinkWith (fs : Fs) (fault : Option Fault) (p : Path) :
    KeepsNames fs (fs.unlinkWith fault p).2 := by
  rcases fault with - | f
  · rcases fs.unlink_cases p with ⟨data, fs', -, hunlink, hgone⟩ | ⟨-, e, hunlink⟩
    · rw [unlinkWith, hunlink]
      exact hgone.keepsNames
    · rw [unlinkWith, hunlink]
      exact .refl fs
  · exact .refl fs

/-- Removing a directory keeps names. -/
lemma keepsNames_rmdir (fs : Fs) (p : Path) : KeepsNames fs (fs.rmdir p).2 := by
  rw [rmdir]
  rcases fs.entry p with e | ⟨l, name⟩
  · exact .refl fs
  · simp only
    split
    · exact .refl fs
    · exact .refl fs
    · split_ifs
      · exact .refl fs
      · refine Without.keepsNames (x := l ++ [name]) ⟨rfl, fun y => ?_⟩
        rw [node_erase]
      · exact .refl fs

/-- Writing a file keeps names. -/
lemma keepsNames_write (fs : Fs) (p : Path) (data : List UInt8) :
    KeepsNames fs (fs.write p data).2 := by
  rcases hwrite : fs.write p data with ⟨e | ⟨⟩, fs'⟩
  · rw [of_write_eq_error hwrite]
    exact .refl fs
  · obtain ⟨l, name, hentry, -, hcwd, hnode⟩ := of_write_eq_ok hwrite
    obtain ⟨-, -, -, hname, hpieces, -⟩ := of_entry_eq_ok hentry
    refine .of_new hcwd fun l' name' x hx => ?_
    rw [hnode] at hx
    split_ifs at hx with hplace
    · -- the new entry has the last piece of the path as its name
      obtain ⟨-, hlast⟩ := List.append_inj' hplace rfl
      obtain rfl : name' = name := (List.cons.inj hlast).1
      refine Or.inr ⟨hname, slash_notMem_of_mem_pieces (p := p) ?_⟩
      rw [hpieces]
      simp
    · exact Or.inl ⟨x, hx⟩

/-- Writing a file with a fault keeps names. -/
lemma keepsNames_writeWith (fs : Fs) (fault : Option Fault) (p : Path) (data : List UInt8) :
    KeepsNames fs (fs.writeWith fault p data).2 := by
  rcases fs.writeWith_cases fault p data with
    ⟨-, -, fs', hwith, hwrite⟩ | ⟨-, e, hwith⟩ | ⟨-, bytes, e, fs', -, hwith, hwrite⟩
  · have hkept := fs.keepsNames_write p data
    rw [hwrite] at hkept
    rw [hwith]
    exact hkept
  · rw [hwith]
    exact .refl fs
  · have hkept := fs.keepsNames_write p bytes
    rw [hwrite] at hkept
    rw [hwith]
    exact hkept

/-- Making directories keeps names. -/
lemma keepsNames_makeDirs (hqs : ∀ q ∈ qs, '/' ∉ q) : KeepsNames fs (fs.makeDirs l qs).2 := by
  induction qs generalizing fs l with
  | nil => exact .refl fs
  | cons q qs ih =>
    have hrest : ∀ q' ∈ qs, '/' ∉ q' := fun q' hq' => hqs q' (List.mem_cons_of_mem q hq')
    rw [makeDirs]
    split_ifs with hdir hnew
    · refine KeepsNames.trans ?_ (ih hrest)
      refine .of_new rfl fun l' name x hx => ?_
      rw [node_insert] at hx
      split_ifs at hx with hplace
      · obtain ⟨-, hlast⟩ := List.append_inj' hplace rfl
        obtain rfl : name = q := (List.cons.inj hlast).1
        exact Or.inr ⟨hnew.1, hqs name List.mem_cons_self⟩
      · exact Or.inl ⟨x, hx⟩
    · exact ih hrest
    · exact .refl fs

/-- Making directories with a fault keeps names. -/
lemma keepsNames_makeDirsWith (fault : Option Fault) (hqs : ∀ q ∈ qs, '/' ∉ q) :
    KeepsNames fs (fs.makeDirsWith fault l qs).2 := by
  obtain ⟨n, hn⟩ := exists_makeDirsWith fs fault l qs
  rw [hn]
  exact keepsNames_makeDirs fun q hq => hqs q (List.mem_of_mem_take hq)

end Fs

end FileTree
