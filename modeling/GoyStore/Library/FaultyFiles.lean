import GoyStore.Library.FileTree

/-!
# File trees whose calls can fail

A call can fail for a reason that is not in the tree: the disk is full, the device is broken, a
permission is missing.  A fault refuses the call, so that nothing is done, or it cuts the call
short: a write has then truncated the file and written a first part of the data, and of the
directories that are to be made the first ones are.  A file is removed or it is not.

Whatever the fault, the directories that are made are those along some of the first pieces
(`exists_makeDirsWith`), and a write leaves the file as it was or with `bytesLeft` in it
(`writeWith_cases`).
-/

namespace FileTree

open UnixPath

/-- How a call is made to fail. -/
inductive Fault where
  /-- Nothing is done. -/
  | refused (text : String)
  /-- Only the first part of the work is done. -/
  | cutShort (n : Nat) (text : String)
  deriving DecidableEq, Repr

/-- The text of the error. -/
def Fault.text : Fault → String
  | .refused text => text
  | .cutShort _ text => text

/-- Why a call fails: for a reason in the tree, or by a fault. -/
abbrev Failure := Errno ⊕ String

namespace Fs

/-- Do some work on a tree, all of it if there is no fault. -/
def workWith {α : Type} (act : List α → Except Errno Unit × Fs) (fs : Fs) (fault : Option Fault)
    (work : List α) : Except Failure Unit × Fs :=
  match fault with
  | none => ((act work).1.mapError .inl, (act work).2)
  | some (.refused text) => (.error (.inr text), fs)
  | some (.cutShort n text) =>
    match act (work.take n) with
    | (.ok (), fs') => (.error (.inr text), fs')
    | (.error e, fs') => (.error (.inl e), fs')

/-- Write a file, possibly with a fault. -/
def writeWith (fs : Fs) (fault : Option Fault) (p : Path) (data : List UInt8) :
    Except Failure Unit × Fs :=
  workWith (fs.write p) fs fault data

/-- Make the directories along the pieces of a path, possibly with a fault. -/
def makeDirsWith (fs : Fs) (fault : Option Fault) (l : Place) (qs : List (List Char)) :
    Except Failure Unit × Fs :=
  workWith (fs.makeDirs l) fs fault qs

/-- Remove a file, possibly with a fault. -/
def unlinkWith (fs : Fs) (fault : Option Fault) (p : Path) : Except Failure Unit × Fs :=
  match fault with
  | none => ((fs.unlink p).1.mapError .inl, (fs.unlink p).2)
  | some f => (.error (.inr f.text), fs)

/-- The bytes that a write leaves in the file, if it changes it. -/
def bytesLeft (fs : Fs) (fault : Option Fault) (p : Path) (data : List UInt8) :
    Option (List UInt8) :=
  match fault with
  | none => if (fs.write p data).1.isOk then some data else none
  | some (.refused _) => none
  | some (.cutShort n _) => if (fs.write p (data.take n)).1.isOk then some (data.take n) else none

variable {fs fs' : Fs} {fault : Option Fault} {l l' : Place} {qs : List (List Char)} {p : Path}
  {data bytes : List UInt8}

/-! ### Writes -/

/-- How a write ends: it succeeds without a fault, or it fails and leaves the tree as it is, or it
fails by a fault and leaves the file with some bytes in it. -/
theorem writeWith_cases (fs : Fs) (fault : Option Fault) (p : Path) (data : List UInt8) :
    (fault = none ∧ fs.bytesLeft fault p data = some data ∧ ∃ fs',
      fs.writeWith fault p data = (.ok (), fs') ∧ fs.write p data = (.ok (), fs')) ∨
    (fs.bytesLeft fault p data = none ∧ ∃ e, fs.writeWith fault p data = (.error e, fs)) ∨
    (fault.isSome = true ∧ ∃ bytes e fs', fs.bytesLeft fault p data = some bytes ∧
      fs.writeWith fault p data = (.error e, fs') ∧ fs.write p bytes = (.ok (), fs')) := by
  rcases fault with - | (text | ⟨n, text⟩)
  · rcases hwrite : fs.write p data with ⟨e | ⟨⟩, fs'⟩
    · obtain rfl := of_write_eq_error hwrite
      refine Or.inr (Or.inl ⟨?_, .inl e, ?_⟩)
      · rw [bytesLeft, hwrite]
        rfl
      · rw [writeWith, workWith, hwrite]
        rfl
    · refine Or.inl ⟨rfl, ?_, fs', ?_, rfl⟩
      · rw [bytesLeft, hwrite]
        rfl
      · rw [writeWith, workWith, hwrite]
        rfl
  · exact Or.inr (Or.inl ⟨rfl, .inr text, rfl⟩)
  · rcases hwrite : fs.write p (data.take n) with ⟨e | ⟨⟩, fs'⟩
    · obtain rfl := of_write_eq_error hwrite
      refine Or.inr (Or.inl ⟨?_, .inl e, ?_⟩)
      · rw [bytesLeft, hwrite]
        rfl
      · rw [writeWith, workWith, hwrite]
    · refine Or.inr (Or.inr ⟨rfl, data.take n, .inr text, fs', ?_, ?_, hwrite⟩)
      · rw [bytesLeft, hwrite]
        rfl
      · rw [writeWith, workWith, hwrite]

/-! ### Directories -/

/-- The directories along some of the first pieces are made. -/
theorem exists_makeDirsWith (fs : Fs) (fault : Option Fault) (l : Place)
    (qs : List (List Char)) :
    ∃ n, (fs.makeDirsWith fault l qs).2 = (fs.makeDirs l (qs.take n)).2 := by
  rcases fault with - | (text | ⟨n, text⟩)
  · exact ⟨qs.length, by rw [List.take_length]; rfl⟩
  · exact ⟨0, rfl⟩
  · refine ⟨n, ?_⟩
    rw [makeDirsWith, workWith]
    rcases fs.makeDirs l (qs.take n) with ⟨e | _, fs'⟩ <;> rfl

/-- The files are kept, faults or not. -/
lemma makeDirsWith_keeps (fs : Fs) (fault : Option Fault) (l : Place) (qs : List (List Char)) :
    (fs.makeDirsWith fault l qs).2.cwd = fs.cwd ∧
      ∀ x data, (fs.makeDirsWith fault l qs).2.node x = some (.file data) ↔
        fs.node x = some (.file data) := by
  obtain ⟨n, hn⟩ := exists_makeDirsWith fs fault l qs
  rw [hn]
  exact ⟨cwd_makeDirs, fun x data => ⟨file_of_makeDirs, node_makeDirs⟩⟩

/-- What stands along some of the first pieces stands there when all directories are made. -/
lemma node_makeDirs_append {x : Place} {y : Node} (qs rs : List (List Char))
    (h : (fs.makeDirs l qs).2.node x = some y) :
    (fs.makeDirs l (qs ++ rs)).2.node x = some y := by
  induction qs generalizing fs l with
  | nil => exact node_makeDirs h
  | cons q qs ih =>
    rw [makeDirs] at h
    rw [List.cons_append, makeDirs]
    split_ifs at h ⊢ with hdir hnew
    · exact ih h
    · exact ih h
    · exact h

/-- A tree between two others differs from the first at most as the last does. -/
lemma OnlyAt.of_between {fs'' : Fs} {top : Place} {ls : List Place} (h : OnlyAt fs fs'' top ls)
    (hcwd : fs'.cwd = fs.cwd) (hfirst : ∀ x y, fs.node x = some y → fs'.node x = some y)
    (hlast : ∀ x y, fs'.node x = some y → fs''.node x = some y) : OnlyAt fs fs' top ls where
  cwd := hcwd
  node x hx := by
    rcases hnode : fs'.node x with - | y
    · left
      rcases hold : fs.node x with - | z
      · rfl
      · rw [hfirst x z hold] at hnode
        cases hnode
    · rcases h.node x hx with heq | ⟨hnone, hdir, htop⟩
      · exact Or.inl ((hlast x y hnode).symm.trans heq)
      · right
        exact ⟨hnone, (hlast x y hnode).symm.trans hdir, htop⟩

/-- Faults or not, directories are made only where all of them would be. -/
lemma OnlyAt.makeDirsWith {top : Place} {ls : List Place}
    (h : OnlyAt fs (fs.makeDirs l qs).2 top ls) (fault : Option Fault) :
    OnlyAt fs (fs.makeDirsWith fault l qs).2 top ls := by
  obtain ⟨n, hn⟩ := exists_makeDirsWith fs fault l qs
  rw [hn]
  refine h.of_between cwd_makeDirs (fun x y => node_makeDirs) fun x y hx => ?_
  have hall := node_makeDirs_append (qs.take n) (qs.drop n) hx
  rwa [List.take_append_drop] at hall

/-- Along a way to a directory nothing is made, with a fault or without. -/
lemma makeDirsWith_of_walk (h : fs.walk l qs = .ok l') (hl' : fs.node l' = some .dir)
    (fault : Option Fault) : (fs.makeDirsWith fault l qs).2 = fs := by
  obtain ⟨n, hn⟩ := exists_makeDirsWith fs fault l qs
  have hsplit := h
  rw [← List.take_append_drop n qs] at hsplit
  obtain ⟨l₁, hfirst, hrest⟩ := exists_walk_of_append hsplit
  have hmade := makeDirs_append hfirst (node_of_walk hrest hl') []
  rw [List.append_nil] at hmade
  rw [hn, hmade]
  rfl

end Fs

end FileTree
