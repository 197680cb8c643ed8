import GoyStore.Library.FaultyFiles
import GoyStore.Library.FileRemoval

/-!
# The contents of the files

A program that reads and writes whole files sees a tree as a map from places to bytes.  A write and
a removal that go through are assignments to one place of this map (`contents_write`,
`contents_without`), and making directories leaves it alone (`contents_makeDirsWith`).
-/

namespace FileTree

open UnixPath

namespace Fs

variable {fs fs' : Fs} {p : Path} {data : List UInt8} {x : Place}

/-- The bytes of the file at each place. -/
def contents (fs : Fs) (x : Place) : Option (List UInt8) :=
  match fs.node x with
  | some (.file data) => some data
  | _ => none

/-- The file at a place. -/
lemma contents_eq_some_iff : fs.contents x = some data ↔ fs.node x = some (.file data) := by
  rw [contents]
  rcases fs.node x with - | ⟨⟨⟩ | bytes⟩
  · simp
  · simp
  · simp

/-- Trees with the same files have the same contents. -/
lemma contents_congr
    (h : ∀ x data, fs'.node x = some (.file data) ↔ fs.node x = some (.file data)) :
    fs'.contents = fs.contents := by
  funext x
  refine Option.ext fun data => ?_
  rw [contents_eq_some_iff, contents_eq_some_iff, h]

/-- A write that goes through is an assignment. -/
theorem contents_write (h : fs.write p data = (.ok (), fs')) :
    fs'.contents = Function.update fs.contents (fs.placeOf p) (some data) := by
  funext x
  rw [Function.update_apply, contents, node_of_write h]
  split_ifs
  · rfl
  · rfl

/-- The removal of what stands at a place is an assignment. -/
theorem contents_without (h : Without fs fs' x) :
    fs'.contents = Function.update fs.contents x none := by
  funext y
  rw [Function.update_apply, contents, h.node]
  split_ifs
  · rfl
  · rfl

/-- Making directories leaves the contents alone. -/
theorem contents_makeDirsWith (fs : Fs) (fault : Option Fault) (l : Place)
    (qs : List (List Char)) : (fs.makeDirsWith fault l qs).2.contents = fs.contents :=
  contents_congr (fs.makeDirsWith_keeps fault l qs).2

end Fs

end FileTree
