import GoyStore.Library.FaultyFiles
import GoyStore.Library.FileRemoval

/-!
# Writing a file and removing it again

A program that wants to know whether it can write into a directory writes a file there and removes
it.  The tree is as before if and only if the file is `Restored`: nothing stood at its path and it
is removed, or what is left of it are the bytes that stood there (`alike_probe_iff`).
-/

namespace FileTree

open UnixPath

namespace Fs

variable {fs fs' : Fs} {p q : Path} {l : Place} {qs : List (List Char)}

/-! ### Trees that are alike -/

/-- The trees have the same entries and the same working directory. -/
structure Alike (fs fs' : Fs) : Prop where
  /-- The working directory is the same. -/
  cwd : fs'.cwd = fs.cwd
  /-- The same stands everywhere. -/
  node : ∀ x, fs'.node x = fs.node x

/-- A tree is like itself. -/
lemma Alike.refl (fs : Fs) : Alike fs fs := ⟨rfl, fun _ => rfl⟩

/-- The same walks are possible. -/
lemma Alike.walk (h : Alike fs fs') : fs'.walk l qs = fs.walk l qs := by
  induction qs generalizing l with
  | nil => rfl
  | cons q qs ih =>
    have hmove : fs'.move l q = fs.move l q := by
      rw [move, move, h.node, h.node]
    rw [Fs.walk, Fs.walk, hmove]
    rcases fs.move l q with e | l'
    · rfl
    · exact ih

/-- The same stands at every path. -/
lemma Alike.stat (h : Alike fs fs') (p : Path) : fs'.stat p = fs.stat p := by
  rw [Fs.stat, Fs.stat, find, find, start_congr h.cwd, h.walk]
  split_ifs
  · rfl
  · rcases fs.walk (fs.start p) (pieces p) with e | l'
    · rfl
    · simp only [h.node]

/-! ### The probe -/

/-- Write a file and, if that succeeds, remove it. -/
def probe (fs : Fs) (p : Path) (data : List UInt8) (writeFault removeFault : Option Fault) : Fs :=
  match fs.writeWith writeFault p data with
  | (.error _, fs') => fs'
  | (.ok (), fs') => (fs'.unlinkWith removeFault p).2

/-- Nothing is written, or what is left of the file is what stood at its path: the same bytes if the
write is cut short or the removal refused, and else nothing. -/
def Restored (fs : Fs) (p : Path) (data : List UInt8) (writeFault removeFault : Option Fault) :
    Prop :=
  match fs.bytesLeft writeFault p data with
  | none => True
  | some bytes =>
    if writeFault.isSome ∨ removeFault.isSome then fs.stat p = .ok (.file bytes)
    else (fs.stat p).isOk = false

variable {data bytes : List UInt8}

/-- What stands at the path of a file that can be written. -/
lemma stat_of_write_eq_ok (h : fs.write p data = (.ok (), fs')) :
    fs.stat p = (fs.node (fs.placeOf p)).elim (.error .noEntry) .ok ∧ fs'.cwd = fs.cwd ∧
      ∀ x, fs'.node x = if x = fs.placeOf p then some (.file data) else fs.node x := by
  obtain ⟨l, name, hentry, -, hcwd, hnode⟩ := of_write_eq_ok h
  obtain ⟨-, -, -, -, -, hplace⟩ := of_entry_eq_ok hentry
  rw [stat_of_entry hentry, ← hplace]
  exact ⟨rfl, hcwd, hnode⟩

/-- A file that was written is found at its path. -/
lemma stat_of_written (h : fs.write p data = (.ok (), fs')) : fs'.stat p = .ok (.file data) := by
  obtain ⟨l, name, hentry, -⟩ := of_write_eq_ok h
  obtain ⟨-, -, -, -, -, hplace⟩ := of_entry_eq_ok hentry
  rw [(stat_write h hentry).2, if_pos hplace]

/-- A file that is written and stays leaves the tree as it was if it has the bytes that stood
there. -/
lemma alike_of_write_iff (h : fs.write p bytes = (.ok (), fs')) :
    Alike fs fs' ↔ fs.stat p = .ok (.file bytes) := by
  obtain ⟨hstat, hcwd, hnode⟩ := stat_of_write_eq_ok h
  rw [hstat]
  constructor
  · intro halike
    have hsame := halike.node (fs.placeOf p)
    rw [hnode, if_pos rfl] at hsame
    rw [← hsame]
    rfl
  · intro hfile
    refine ⟨hcwd, fun x => ?_⟩
    rw [hnode]
    split_ifs with hx
    · rw [hx]
      rcases hold : fs.node (fs.placeOf p) with - | y
      · rw [hold] at hfile
        cases hfile
      · rw [hold] at hfile
        exact congrArg some (Except.ok.inj hfile).symm
    · rfl

/-- A file that is written and removed leaves the tree as it was if nothing stood there. -/
lemma alike_of_unlink_iff (h : fs.write p data = (.ok (), fs')) :
    Alike fs (fs'.unlink p).2 ↔ (fs.stat p).isOk = false := by
  obtain ⟨hstat, hcwd, hnode⟩ := stat_of_write_eq_ok h
  have hgone : Without fs' (fs'.unlink p).2 (fs.placeOf p) := by
    rcases fs'.unlink_cases p with ⟨bytes, fs'', -, hunlink, hgone⟩ | ⟨hfile, -⟩
    · rwa [hunlink, ← placeOf_congr hcwd]
    · exact absurd (stat_of_written h) (hfile data)
  rw [hstat]
  constructor
  · intro halike
    have hsame := halike.node (fs.placeOf p)
    rw [hgone.node, if_pos rfl] at hsame
    rw [← hsame]
    rfl
  · intro hnone
    refine ⟨hgone.cwd.trans hcwd, fun x => ?_⟩
    rw [hgone.node]
    split_ifs with hx
    · rw [hx]
      rcases hold : fs.node (fs.placeOf p) with - | y
      · rfl
      · rw [hold] at hnone
        cases hnone
    · rw [hnode, if_neg hx]

/-- A probe leaves the tree as it was if and only if its file is restored. -/
theorem alike_probe_iff (fs : Fs) (p : Path) (data : List UInt8)
    (writeFault removeFault : Option Fault) :
    Alike fs (fs.probe p data writeFault removeFault) ↔
      fs.Restored p data writeFault removeFault := by
  rw [probe, Restored]
  rcases fs.writeWith_cases writeFault p data with
    ⟨hfault, hleft, fs', hwith, hwrite⟩ | ⟨hleft, e, hwith⟩ |
      ⟨hfault, bytes, e, fs', hleft, hwith, hwrite⟩
  · rw [hleft, hwith, hfault]
    rcases removeFault with - | f
    · simpa [unlinkWith] using alike_of_unlink_iff hwrite
    · simpa [unlinkWith] using alike_of_write_iff hwrite
  · rw [hleft, hwith]
    exact ⟨fun _ => trivial, fun _ => .refl fs⟩
  · rw [hleft, hwith]
    simpa [hfault] using alike_of_write_iff hwrite

end Fs

end FileTree
