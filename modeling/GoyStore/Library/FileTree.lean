import GoyStore.Library.CleanPath

/-!
# A tree of files and directories

An `Fs` is a tree of files and directories without links, with the working directory of a process.
That every entry stands in a directory, and that the working directory exists, are fields of it.

A path is walked piece by piece: an empty piece and `.` stay, `..` goes up, a name goes into an
entry, and each of them needs a directory.  The calls are those by which a program looks at files,
writes and removes them and makes directories.  A walk that succeeds ends at the place that the
pieces spell (`walk_place`); what it finds along pieces without `..` depends only on the entry at
that place and on the files above it (`find_of_node`, `find_of_none`, `find_of_above`).
-/

namespace FileTree

open UnixPath

/-- The names on the way from the root to a place. -/
abbrev Place := List (List Char)

/-- What stands at a place. -/
inductive Node where
  /-- A directory. -/
  | dir
  /-- A file. -/
  | file (data : List UInt8)
  deriving DecidableEq, Repr

/-- Why a call fails. -/
inductive Errno where
  /-- Nothing stands there. -/
  | noEntry
  /-- A file stands where a directory is needed. -/
  | notDirectory
  /-- A directory stands where a file is needed. -/
  | isDirectory
  /-- A directory that is to be removed has entries. -/
  | notEmpty
  /-- The working directory is to be removed. -/
  | busy
  deriving DecidableEq, Repr

/-- What a list of entries has at a place; the root is a directory. -/
def nodeAt (nodes : List (Place × Node)) (l : Place) : Option Node :=
  if l = [] then some .dir else nodes.lookup l

/-- A tree and a working directory in it. -/
structure Fs where
  /-- The entries. -/
  nodes : List (Place × Node)
  /-- The working directory. -/
  cwd : Place
  /-- An entry stands in a directory. -/
  parent_dir : ∀ l name x, nodeAt nodes (l ++ [name]) = some x → nodeAt nodes l = some .dir
  /-- The working directory is a directory. -/
  cwd_dir : nodeAt nodes cwd = some .dir

namespace Fs

/-- The tree without entries. -/
def empty : Fs where
  nodes := []
  cwd := []
  parent_dir l name x h := by
    rw [nodeAt, if_neg (by simp)] at h
    cases h
  cwd_dir := rfl

/-- What stands at a place. -/
def node (fs : Fs) (l : Place) : Option Node := nodeAt fs.nodes l

/-! ### Entries -/

/-- An entry at another place is not looked at. -/
lemma lookup_cons_of_ne {k l : Place} {x : Node} {nodes : List (Place × Node)} (h : l ≠ k) :
    ((k, x) :: nodes).lookup l = nodes.lookup l := by
  have hbeq : (l == k) = false := beq_false_of_ne h
  rw [List.lookup_cons, hbeq]

/-- A new entry is found at its place, and the others at theirs. -/
lemma nodeAt_cons (nodes : List (Place × Node)) (l : Place) (name : List Char) (x : Node)
    (l' : Place) :
    nodeAt ((l ++ [name], x) :: nodes) l' =
      if l' = l ++ [name] then some x else nodeAt nodes l' := by
  unfold nodeAt
  by_cases hnil : l' = []
  · rw [if_pos hnil, if_pos hnil, if_neg]
    rw [hnil]
    simp
  · rw [if_neg hnil, if_neg hnil]
    by_cases hl : l' = l ++ [name]
    · rw [if_pos hl, hl, List.lookup_cons_self]
    · rw [if_neg hl, lookup_cons_of_ne hl]

/-- A dropped entry is not found any more, and the others are. -/
lemma nodeAt_filter (nodes : List (Place × Node)) {l : Place} (hl : l ≠ []) (l' : Place) :
    nodeAt (nodes.filter (·.1 ≠ l)) l' = if l' = l then none else nodeAt nodes l' := by
  unfold nodeAt
  by_cases hnil : l' = []
  · rw [if_pos hnil, if_pos hnil, if_neg fun h => hl (h.symm.trans hnil)]
  · rw [if_neg hnil, if_neg hnil]
    induction nodes with
    | nil => simp
    | cons e nodes ih =>
      obtain ⟨k, x⟩ := e
      by_cases hk : k = l
      · subst hk
        rw [List.filter_cons_of_neg (by simp), ih]
        split_ifs with hl'
        · rfl
        · rw [lookup_cons_of_ne hl']
      · rw [List.filter_cons_of_pos (by simpa using hk)]
        by_cases hl' : l' = k
        · rw [hl', List.lookup_cons_self, List.lookup_cons_self, if_neg hk]
        · rw [lookup_cons_of_ne hl', lookup_cons_of_ne hl', ih]

/-- Put an entry into a directory, unless a directory stands there. -/
def insert (fs : Fs) (l : Place) (name : List Char) (x : Node) (hdir : fs.node l = some .dir)
    (hfree : fs.node (l ++ [name]) ≠ some .dir) : Fs where
  nodes := (l ++ [name], x) :: fs.nodes
  cwd := fs.cwd
  parent_dir l' name' x' h := by
    rw [nodeAt_cons] at h ⊢
    by_cases hparent : l' = l ++ [name]
    · -- nothing stands below the new entry
      rw [if_neg (by rw [hparent]; simp)] at h
      exact absurd (fs.parent_dir _ _ _ h) (hparent ▸ hfree)
    · rw [if_neg hparent]
      split_ifs at h with hnew
      · obtain ⟨rfl, -⟩ := List.append_inj' hnew rfl
        exact hdir
      · exact fs.parent_dir _ _ _ h
  cwd_dir := by
    rw [nodeAt_cons, if_neg]
    · exact fs.cwd_dir
    · intro hcwd
      exact hfree (hcwd ▸ fs.cwd_dir)

/-- Take an entry out that has nothing below it and is not the working directory. -/
def erase (fs : Fs) (l : Place) (hroot : l ≠ []) (hcwd : fs.cwd ≠ l)
    (hempty : ∀ name, fs.node (l ++ [name]) = none) : Fs where
  nodes := fs.nodes.filter (·.1 ≠ l)
  cwd := fs.cwd
  parent_dir l' name' x' h := by
    rw [nodeAt_filter _ hroot] at h ⊢
    split_ifs at h with hl
    rw [if_neg]
    · exact fs.parent_dir _ _ _ h
    · rintro rfl
      exact absurd (hempty name') (by rw [node, h]; simp)
  cwd_dir := by
    rw [nodeAt_filter _ hroot, if_neg hcwd]
    exact fs.cwd_dir

/-- What stands where after an entry was put in. -/
@[simp] lemma node_insert {fs : Fs} {l : Place} {name : List Char} {x : Node}
    (hdir : fs.node l = some .dir) (hfree : fs.node (l ++ [name]) ≠ some .dir) (l' : Place) :
    (fs.insert l name x hdir hfree).node l' =
      if l' = l ++ [name] then some x else fs.node l' :=
  nodeAt_cons _ _ _ _ _

/-- What stands where after an entry was taken out. -/
@[simp] lemma node_erase {fs : Fs} {l : Place} (hroot : l ≠ []) (hcwd : fs.cwd ≠ l)
    (hempty : ∀ name, fs.node (l ++ [name]) = none) (l' : Place) :
    (fs.erase l hroot hcwd hempty).node l' = if l' = l then none else fs.node l' :=
  nodeAt_filter _ hroot _

/-- The root is a directory. -/
@[simp] lemma node_nil (fs : Fs) : fs.node [] = some .dir := rfl

/-- What has an entry below it is a directory. -/
lemma node_of_append (fs : Fs) {l ns : Place} {x : Node} (hne : ns ≠ [])
    (h : fs.node (l ++ ns) = some x) : fs.node l = some .dir := by
  induction ns using List.reverseRecOn generalizing x with
  | nil => exact absurd rfl hne
  | append_singleton ns name ih =>
    rw [← List.append_assoc] at h
    have hparent := fs.parent_dir _ _ _ h
    by_cases hns : ns = []
    · subst hns
      rwa [List.append_nil] at hparent
    · exact ih hns hparent

/-- The directory of a directory is a directory. -/
lemma node_dropLast (fs : Fs) {l : Place} (h : fs.node l = some .dir) :
    fs.node l.dropLast = some .dir := by
  rcases List.eq_nil_or_concat' l with rfl | ⟨l, name, rfl⟩
  · exact h
  · rw [List.dropLast_concat]
    exact fs.parent_dir _ _ _ h

/-- Nothing stands below a file. -/
lemma node_below_file (fs : Fs) {l : Place} {data : List UInt8} (h : fs.node l = some (.file data))
    (name : List Char) : fs.node (l ++ [name]) = none := by
  rcases hbelow : fs.node (l ++ [name]) with - | x
  · rfl
  · have hdir := fs.parent_dir _ _ _ hbelow
    rw [← node, h] at hdir
    cases hdir

/-- A directory without entries. -/
def IsEmptyDir (fs : Fs) (l : Place) : Prop := ∀ e ∈ fs.nodes, ¬ (l <+: e.1 ∧ e.1 ≠ l)

instance (fs : Fs) (l : Place) : Decidable (fs.IsEmptyDir l) :=
  inferInstanceAs (Decidable (∀ e ∈ fs.nodes, _))

/-- Nothing stands in a directory without entries. -/
lemma IsEmptyDir.node {fs : Fs} {l : Place} (h : fs.IsEmptyDir l) (name : List Char) :
    fs.node (l ++ [name]) = none := by
  rcases hnode : fs.node (l ++ [name]) with - | x
  · rfl
  · rw [Fs.node, nodeAt, if_neg (by simp), List.lookup_eq_some_iff] at hnode
    obtain ⟨before, after, hnodes, -⟩ := hnode
    refine absurd ⟨List.prefix_append l [name], ?_⟩ (h (l ++ [name], x) (by simp [hnodes]))
    exact fun hl => by simpa using congrArg List.length hl

/-! ### Walks -/

/-- What a piece of a path does at a place. -/
def follow (l : Place) (q : List Char) : Place :=
  if q = [] ∨ q = ['.'] then l else if q = dots then l.dropLast else l ++ [q]

/-- The place that the pieces of a path spell. -/
def place (l : Place) (qs : List (List Char)) : Place := qs.foldl follow l

/-- Follow one piece of a path. -/
def move (fs : Fs) (l : Place) (q : List Char) : Except Errno Place :=
  match fs.node l with
  | none => .error .noEntry
  | some (.file _) => .error .notDirectory
  | some .dir =>
    if IsName q ∧ fs.node (follow l q) = none then .error .noEntry else .ok (follow l q)

/-- Follow the pieces of a path. -/
def walk (fs : Fs) : Place → List (List Char) → Except Errno Place
  | l, [] => .ok l
  | l, q :: qs =>
    match fs.move l q with
    | .error e => .error e
    | .ok l' => fs.walk l' qs

/-- Where a path starts. -/
def start (fs : Fs) (p : Path) : Place := if isAbsolute p then [] else fs.cwd

/-- What stands at the end of the pieces of a path. -/
def find (fs : Fs) (l : Place) (qs : List (List Char)) : Except Errno Node :=
  match fs.walk l qs with
  | .error e => .error e
  | .ok l' => (fs.node l').elim (.error .noEntry) .ok

/-- What stands at a path. -/
def stat (fs : Fs) (p : Path) : Except Errno Node :=
  if p = [] then .error .noEntry else fs.find (fs.start p) (pieces p)

/-! ### Calls -/

/-- Read a file. -/
def read (fs : Fs) (p : Path) : Except Errno (List UInt8) :=
  match fs.stat p with
  | .error e => .error e
  | .ok .dir => .error .isDirectory
  | .ok (.file data) => .ok data

/-- The directory and the name of a path that ends in a name. -/
def entry (fs : Fs) (p : Path) : Except Errno (Place × List Char) :=
  match fs.walk (fs.start p) (pieces p).dropLast with
  | .error e => .error e
  | .ok l =>
    if fs.node l ≠ some .dir then .error .notDirectory
    else if p = [] then .error .noEntry
    else if IsName ((pieces p).getLastD []) then .ok (l, (pieces p).getLastD [])
    else .error .isDirectory

/-- Write a file. -/
def write (fs : Fs) (p : Path) (data : List UInt8) : Except Errno Unit × Fs :=
  match fs.entry p with
  | .error e => (.error e, fs)
  | .ok (l, name) =>
    if h : fs.node l = some .dir ∧ fs.node (l ++ [name]) ≠ some .dir then
      (.ok (), fs.insert l name (.file data) h.1 h.2)
    else (.error .isDirectory, fs)

/-- Remove a file. -/
def unlink (fs : Fs) (p : Path) : Except Errno Unit × Fs :=
  match fs.entry p with
  | .error e => (.error e, fs)
  | .ok (l, name) =>
    match h : fs.node (l ++ [name]) with
    | none => (.error .noEntry, fs)
    | some .dir => (.error .isDirectory, fs)
    | some (.file _) =>
      (.ok (), fs.erase (l ++ [name]) (by simp)
        (fun hcwd => by
          have hdir := fs.cwd_dir
          rw [hcwd, ← node, h] at hdir
          cases hdir)
        (fs.node_below_file h))

/-- Remove a directory that has no entries; the working directory stays. -/
def rmdir (fs : Fs) (p : Path) : Except Errno Unit × Fs :=
  match fs.entry p with
  | .error e => (.error e, fs)
  | .ok (l, name) =>
    match fs.node (l ++ [name]) with
    | none => (.error .noEntry, fs)
    | some (.file _) => (.error .notDirectory, fs)
    | some .dir =>
      if hcwd : fs.cwd = l ++ [name] then (.error .busy, fs)
      else if h : fs.IsEmptyDir (l ++ [name]) then
        (.ok (), fs.erase (l ++ [name]) (by simp) hcwd h.node)
      else (.error .notEmpty, fs)

/-- Make the directories along the pieces of a path that are missing. -/
def makeDirs : Fs → Place → List (List Char) → Except Errno Unit × Fs
  | fs, l, [] => (if fs.node l = some .dir then .ok () else .error .notDirectory, fs)
  | fs, l, q :: qs =>
    if hdir : fs.node l = some .dir then
      if h : IsName q ∧ fs.node (l ++ [q]) = none then
        makeDirs (fs.insert l q .dir hdir (by simp [h.2])) (l ++ [q]) qs
      else makeDirs fs (follow l q) qs
    else (.error .notDirectory, fs)

/-! ### What a walk reaches -/

/-- The first piece is followed first. -/
lemma place_cons (l : Place) (q : List Char) (qs : List (List Char)) :
    place l (q :: qs) = place (follow l q) qs := rfl

/-- The pieces of two lists are followed one list after the other. -/
lemma place_append (l : Place) (qs rs : List (List Char)) :
    place l (qs ++ rs) = place (place l qs) rs :=
  List.foldl_append

/-- A piece that is no name and not `..` stays. -/
lemma follow_skip {l : Place} {q : List Char} (h : q = [] ∨ q = ['.']) : follow l q = l := if_pos h

/-- A name goes into an entry. -/
lemma follow_name {l : Place} {q : List Char} (h : IsName q) : follow l q = l ++ [q] := by
  obtain ⟨hnil, hdot, hdots⟩ := h
  rw [follow, if_neg (by simp [hnil, hdot]), if_neg hdots]

/-- A piece is no name and not `..`, or it is a name, or it is `..`. -/
lemma piece_cases (q : List Char) : (q = [] ∨ q = ['.']) ∨ IsName q ∨ q = dots := by
  unfold IsName
  tauto

/-- What stays is no name. -/
lemma not_isName_of_skip {q : List Char} (h : q = [] ∨ q = ['.']) : ¬ IsName q := by
  rintro ⟨hnil, hdot, -⟩
  exact h.elim hnil hdot

variable {fs fs' : Fs} {l l' : Place} {q : List Char} {qs rs : List (List Char)}

/-- A piece that is no name is followed from every directory. -/
lemma move_of_not_isName (hl : fs.node l = some .dir) (hq : ¬ IsName q) :
    fs.move l q = .ok (follow l q) := by
  rw [move, hl]
  simp [hq]

/-- A name is followed from a directory in which it has an entry. -/
lemma move_of_isName (hl : fs.node l = some .dir) (hq : IsName q) :
    fs.move l q = if fs.node (l ++ [q]) = none then .error .noEntry else .ok (l ++ [q]) := by
  rw [move, hl]
  simp [hq, follow_name hq]

/-- Where a piece leads, and from where. -/
lemma of_move_eq_ok (h : fs.move l q = .ok l') :
    fs.node l = some .dir ∧ l' = follow l q ∧ ∃ x, fs.node l' = some x := by
  rw [move] at h
  split at h
  · cases h
  · cases h
  · rename_i hl
    split_ifs at h with hnone
    obtain rfl : follow l q = l' := Except.ok.inj h
    refine ⟨hl, rfl, ?_⟩
    rcases piece_cases q with hskip | hname | rfl
    · exact ⟨.dir, by rw [follow_skip hskip, hl]⟩
    · exact Option.ne_none_iff_exists'.mp fun h => hnone ⟨hname, h⟩
    · exact ⟨.dir, fs.node_dropLast hl⟩

/-- A walk along two lists of pieces. -/
lemma walk_append (h : fs.walk l qs = .ok l') (rs : List (List Char)) :
    fs.walk l (qs ++ rs) = fs.walk l' rs := by
  induction qs generalizing l with
  | nil =>
    obtain rfl : l = l' := Except.ok.inj h
    rfl
  | cons q qs ih =>
    rw [walk] at h
    rw [List.cons_append, walk]
    rcases hmove : fs.move l q with e | l₁
    · rw [hmove] at h
      cases h
    · rw [hmove] at h
      exact ih h

/-- A walk along two lists of pieces goes along the first one first. -/
lemma exists_walk_of_append (h : fs.walk l (qs ++ rs) = .ok l') :
    ∃ l₁, fs.walk l qs = .ok l₁ ∧ fs.walk l₁ rs = .ok l' := by
  induction qs generalizing l with
  | nil => exact ⟨l, rfl, h⟩
  | cons q qs ih =>
    rw [List.cons_append, walk] at h
    rw [walk]
    rcases hmove : fs.move l q with e | l₁
    · rw [hmove] at h
      cases h
    · rw [hmove] at h
      exact ih h

/-- What is found along two lists of pieces. -/
lemma find_append (h : fs.walk l qs = .ok l') (rs : List (List Char)) :
    fs.find l (qs ++ rs) = fs.find l' rs := by
  rw [find, find, walk_append h]

/-- A walk that succeeds ends at the place that the pieces spell. -/
theorem walk_place (h : fs.walk l qs = .ok l') : l' = place l qs := by
  induction qs generalizing l with
  | nil => exact (Except.ok.inj h).symm
  | cons q qs ih =>
    rw [walk] at h
    rcases hmove : fs.move l q with e | l₁
    · rw [hmove] at h
      cases h
    · rw [hmove] at h
      obtain ⟨-, rfl, -⟩ := of_move_eq_ok hmove
      exact ih h

/-- A walk to a directory is the same in every tree that has the directories of this one. -/
lemma walk_of_dirs (hdirs : ∀ x, fs.node x = some .dir → fs'.node x = some .dir)
    (h : fs.walk l qs = .ok l') (hl' : fs.node l' = some .dir) : fs'.walk l qs = .ok l' := by
  induction qs generalizing l with
  | nil => exact h
  | cons q qs ih =>
    rw [walk] at h ⊢
    rcases hmove : fs.move l q with e | l₁
    · rw [hmove] at h
      cases h
    · rw [hmove] at h
      obtain ⟨hl, rfl, x, hx⟩ := of_move_eq_ok hmove
      -- the walk goes on from there, or ends there in a directory
      have hdir : fs.node (follow l q) = some .dir := by
        rcases qs with - | ⟨q', qs⟩
        · obtain rfl := Except.ok.inj h
          exact hl'
        · have hwalk : fs.walk (follow l q) (q' :: qs) = .ok l' := h
          rw [walk] at hwalk
          rcases hnext : fs.move (follow l q) q' with e | l₂
          · rw [hnext] at hwalk
            cases hwalk
          · exact (of_move_eq_ok hnext).1
      have hmove' : fs'.move l q = .ok (follow l q) := by
        rw [move, hdirs l hl]
        simp [hdirs _ hdir]
      rw [hmove']
      exact ih h

/-- Pieces that are no names are walked from every directory, to a directory. -/
lemma walk_of_no_names (hqs : ∀ q ∈ qs, ¬ IsName q) (hl : fs.node l = some .dir) :
    fs.walk l qs = .ok (place l qs) ∧ fs.node (place l qs) = some .dir := by
  induction qs generalizing l with
  | nil => exact ⟨rfl, hl⟩
  | cons q qs ih =>
    have hq := hqs q List.mem_cons_self
    have hmove := move_of_not_isName hl hq
    have hnext : fs.node (follow l q) = some .dir := by
      rcases piece_cases q with hskip | hname | rfl
      · rwa [follow_skip hskip]
      · exact absurd hname hq
      · exact fs.node_dropLast hl
    rw [walk, hmove]
    exact ih (fun q' hq' => hqs q' (List.mem_cons_of_mem q hq')) hnext

/-- What a walk to a directory starts from is a directory. -/
lemma node_of_walk (h : fs.walk l qs = .ok l') (hl' : fs.node l' = some .dir) :
    fs.node l = some .dir := by
  cases qs with
  | nil =>
    obtain rfl := Except.ok.inj h
    exact hl'
  | cons q qs =>
    rw [walk] at h
    rcases hmove : fs.move l q with e | l₁
    · rw [hmove] at h
      cases h
    · exact (of_move_eq_ok hmove).1

/-- The walk along pieces is the walk along those that do not stay, if it ends in a directory. -/
lemma walk_of_filter (h : fs.walk l (qs.filter fun q => q ≠ [] ∧ q ≠ ['.']) = .ok l')
    (hl : fs.node l' = some .dir) : fs.walk l qs = .ok l' := by
  induction qs generalizing l with
  | nil => exact h
  | cons q qs ih =>
    by_cases hskip : q = [] ∨ q = ['.']
    · rw [List.filter_cons_of_neg (by simp; tauto)] at h
      rw [walk, move_of_not_isName (node_of_walk h hl) (not_isName_of_skip hskip),
        follow_skip hskip]
      exact ih h
    · rw [List.filter_cons_of_pos (by simp; tauto), walk] at h
      rw [walk]
      rcases hmove : fs.move l q with e | l₁
      · rw [hmove] at h
        cases h
      · rw [hmove] at h
        exact ih h

/-- Pieces that stay can be left out of a walk. -/
lemma walk_filter (h : fs.walk l qs = .ok l') :
    fs.walk l (qs.filter fun q => q ≠ [] ∧ q ≠ ['.']) = .ok l' := by
  induction qs generalizing l with
  | nil => exact h
  | cons q qs ih =>
    rw [walk] at h
    rcases hmove : fs.move l q with e | l₁
    · rw [hmove] at h
      cases h
    · rw [hmove] at h
      by_cases hskip : q = [] ∨ q = ['.']
      · obtain ⟨-, rfl, -⟩ := of_move_eq_ok hmove
        rw [follow_skip hskip] at h
        rw [List.filter_cons_of_neg (by simp; tauto)]
        exact ih h
      · rw [List.filter_cons_of_pos (by simp; tauto), walk, hmove]
        exact ih h

/-! ### Pieces without `..` -/

/-- Without `..` a piece stays or goes into an entry. -/
lemma follow_of_ne_dots (l : Place) (hq : q ≠ dots) :
    follow l q = l ∧ (q = [] ∨ q = ['.']) ∨ follow l q = l ++ [q] ∧ IsName q := by
  rcases piece_cases q with hskip | hname | hdots
  · exact Or.inl ⟨follow_skip hskip, hskip⟩
  · exact Or.inr ⟨follow_name hname, hname⟩
  · exact absurd hdots hq

/-- Without `..` the pieces spell a place below the start. -/
lemma prefix_place (l : Place) (hqs : dots ∉ qs) : l <+: place l qs := by
  induction qs generalizing l with
  | nil => exact List.prefix_rfl
  | cons q qs ih =>
    have hq : q ≠ dots := fun h => hqs (h ▸ List.mem_cons_self)
    have hrest := ih (follow l q) fun h => hqs (List.mem_cons_of_mem q h)
    rw [place_cons]
    rcases follow_of_ne_dots l hq with ⟨heq, -⟩ | ⟨heq, -⟩
    · rwa [heq] at hrest ⊢
    · rw [heq] at hrest ⊢
      exact (List.prefix_append l [q]).trans hrest

/-- What stands above an entry is a directory. -/
lemma node_above {x : Node} (h : fs.node l' = some x) (hl : l <+: l') (hne : l ≠ l') :
    fs.node l = some .dir := by
  obtain ⟨ns, rfl⟩ := hl
  exact fs.node_of_append (fun hns => hne (by rw [hns, List.append_nil])) h

/-- Without `..`, a directory is walked to. -/
lemma walk_of_dir (hqs : dots ∉ qs) (h : fs.node (place l qs) = some .dir) :
    fs.walk l qs = .ok (place l qs) := by
  induction qs generalizing l with
  | nil => rfl
  | cons q qs ih =>
    have hrest : dots ∉ qs := fun hmem => hqs (List.mem_cons_of_mem q hmem)
    -- what stands above a directory is a directory
    have habove : ∀ y, y <+: place (follow l q) qs → fs.node y = some .dir := by
      intro y hy
      by_cases hlast : y = place (follow l q) qs
      · rw [hlast]
        exact h
      · exact node_above h hy hlast
    have hmove : fs.move l q = .ok (follow l q) := by
      rw [move, habove l (prefix_place l hqs)]
      simp [habove _ (prefix_place _ hrest)]
    rw [walk, hmove]
    exact ih hrest h

/-- Without `..`, two trees with the same entry at the place find the same. -/
theorem find_of_node (hqs : dots ∉ qs) {x : Node} (h : fs.node (place l qs) = some x)
    (h' : fs'.node (place l qs) = some x) : fs'.find l qs = fs.find l qs := by
  induction qs generalizing l with
  | nil =>
    have hx : fs.node l = some x := h
    have hx' : fs'.node l = some x := h'
    rw [find, find, walk, walk]
    simp only [hx, hx']
  | cons q qs ih =>
    have hrest : dots ∉ qs := fun hmem => hqs (List.mem_cons_of_mem q hmem)
    have hbelow := prefix_place (follow l q) hrest
    -- both trees have the same entry where the piece starts and where it leads
    have hsame : ∀ y, y <+: place (follow l q) qs → fs'.node y = fs.node y := by
      intro y hy
      by_cases hlast : y = place (follow l q) qs
      · rw [hlast]
        exact h'.trans h.symm
      · rw [node_above h hy hlast, node_above h' hy hlast]
    have hstart : l <+: place (follow l q) qs := prefix_place l hqs
    have hmove : fs'.move l q = fs.move l q := by
      rw [move, move, hsame l hstart, hsame _ hbelow]
    rw [find, find, walk, walk, hmove]
    rcases hnext : fs.move l q with e | l₁
    · rfl
    · obtain ⟨-, rfl, -⟩ := of_move_eq_ok hnext
      exact ih hrest h h'

/-- Without `..`, nothing is found at a free place below directories. -/
theorem find_of_none (hqs : dots ∉ qs) (h : fs.node (place l qs) = none)
    (habove : ∀ y, l <+: y → y <+: place l qs → ∀ data, fs.node y ≠ some (.file data)) :
    fs.find l qs = .error .noEntry := by
  induction qs generalizing l with
  | nil =>
    have hl : fs.node l = none := h
    rw [find, walk]
    simp only [hl]
    rfl
  | cons q qs ih =>
    have hrest : dots ∉ qs := fun hmem => hqs (List.mem_cons_of_mem q hmem)
    have hq : q ≠ dots := fun h => hqs (h ▸ List.mem_cons_self)
    have hstart : l <+: place (follow l q) qs := prefix_place l hqs
    have hstep : l <+: follow l q := by
      rcases follow_of_ne_dots l hq with ⟨heq, -⟩ | ⟨heq, -⟩
      · rw [heq]
      · rw [heq]
        exact List.prefix_append l [q]
    rw [find, walk]
    rcases hl : fs.node l with - | ⟨⟨⟩ | data⟩
    · rw [move, hl]
    · rw [move, hl]
      split_ifs with hnone
      · rfl
      · exact ih hrest h fun y hy => habove y (hstep.trans hy)
    · exact absurd hl (habove l List.prefix_rfl hstart data)

/-- Without `..`, a file above a free place is in the way. -/
theorem find_of_above (hqs : dots ∉ qs) (h : fs.node (place l qs) = none) {y : Place}
    {data : List UInt8} (hly : l <+: y) (hy : y <+: place l qs)
    (hfile : fs.node y = some (.file data)) : fs.find l qs = .error .notDirectory := by
  induction qs generalizing l with
  | nil =>
    obtain rfl : y = l := hy.eq_of_length_le hly.length_le
    have hnone : fs.node y = none := h
    rw [hnone] at hfile
    cases hfile
  | cons q qs ih =>
    have hrest : dots ∉ qs := fun hmem => hqs (List.mem_cons_of_mem q hmem)
    have hq : q ≠ dots := fun h => hqs (h ▸ List.mem_cons_self)
    rw [find, walk]
    by_cases hstart : l = y
    · rw [move, hstart, hfile]
    · have hl := node_above hfile hly hstart
      rw [move, hl]
      -- the way to the file leads on
      have hnext : follow l q <+: y := by
        have hbelow := prefix_place (follow l q) hrest
        rcases follow_of_ne_dots l hq with ⟨heq, -⟩ | ⟨heq, -⟩
        · rwa [heq]
        · apply List.prefix_of_prefix_length_le hbelow hy
          rw [heq, List.length_append]
          exact Nat.lt_of_le_of_ne hly.length_le fun hlen => hstart (hly.eq_of_length hlen)
      have hsome : fs.node (follow l q) ≠ none := by
        by_cases hlast : follow l q = y
        · rw [hlast, hfile]
          simp
        · rw [node_above hfile hnext hlast]
          simp
      simp only [hsome, and_false, if_false]
      exact ih hrest h hnext hy

/-- Without `..`, nothing is found at a free place. -/
lemma toOption_find_of_none (hqs : dots ∉ qs) (h : fs.node (place l qs) = none) :
    (fs.find l qs).toOption = none := by
  by_cases habove : ∃ y data, l <+: y ∧ y <+: place l qs ∧ fs.node y = some (.file data)
  · obtain ⟨y, data, hly, hy, hfile⟩ := habove
    rw [find_of_above hqs h hly hy hfile]
    rfl
  · push Not at habove
    rw [find_of_none hqs h fun y hly hy data => habove y data hly hy]
    rfl

/-! ### The entry of a path -/

/-- The place that a path spells. -/
def placeOf (fs : Fs) (p : Path) : Place := place (fs.start p) (pieces p)

variable {p : Path} {name : List Char} {data : List UInt8}

/-- A path starts at a directory. -/
lemma node_start (fs : Fs) (p : Path) : fs.node (fs.start p) = some .dir := by
  rw [start]
  split_ifs
  · rfl
  · exact fs.cwd_dir

/-- A path starts at the same place in trees with the same working directory. -/
lemma start_congr (h : fs'.cwd = fs.cwd) (p : Path) : fs'.start p = fs.start p := by
  rw [start, start, h]

/-- A path spells the same place in trees with the same working directory. -/
lemma placeOf_congr (h : fs'.cwd = fs.cwd) (p : Path) : fs'.placeOf p = fs.placeOf p := by
  rw [placeOf, placeOf, start_congr h]

/-- What leads to an entry. -/
lemma of_stat_eq_ok {x : Node} (h : fs.stat p = .ok x) :
    p ≠ [] ∧ ∃ l, fs.walk (fs.start p) (pieces p) = .ok l ∧ fs.node l = some x := by
  rw [stat] at h
  split_ifs at h with hne
  rw [find] at h
  rcases hwalk : fs.walk (fs.start p) (pieces p) with e | l
  · rw [hwalk] at h
    cases h
  · simp only [hwalk] at h
    rcases hnode : fs.node l with - | y
    · rw [hnode] at h
      cases h
    · rw [hnode] at h
      exact ⟨hne, l, rfl, hnode.trans (congrArg some (Except.ok.inj h))⟩

/-- A relative path that is joined to the path of a directory is walked from that directory. -/
lemma exists_walk_join {base p : Path} (h : fs.stat base = .ok .dir) (hp : ¬ isAbsolute p) :
    ∃ qs, pieces (join base p) = qs ++ pieces p ∧
      fs.walk (fs.start (join base p)) qs = .ok (fs.placeOf base) ∧
        fs.node (fs.placeOf base) = some .dir := by
  obtain ⟨hne, l, hwalk, hnode⟩ := of_stat_eq_ok h
  obtain rfl : l = fs.placeOf base := walk_place hwalk
  obtain ⟨qs, hpieces, hfront⟩ := exists_pieces_join hne hp
  refine ⟨qs, hpieces, ?_, hnode⟩
  rw [start, isAbsolute_join hne hp, ← start]
  rcases hfront with hsame | hslash
  · rwa [hsame] at hwalk
  · -- the slash at the end of the base stays where it is
    rw [hslash] at hwalk
    obtain ⟨l₁, hfirst, hlast⟩ := exists_walk_of_append hwalk
    rw [walk] at hlast
    rcases hmove : fs.move l₁ [] with e | l₂
    · rw [hmove] at hlast
      cases hlast
    · rw [hmove] at hlast
      obtain ⟨-, rfl, -⟩ := of_move_eq_ok hmove
      exact hfirst.trans hlast

/-- The entry of a path: a name in a directory, at the place that the path spells. -/
lemma of_entry_eq_ok (h : fs.entry p = .ok (l, name)) :
    fs.walk (fs.start p) (pieces p).dropLast = .ok l ∧ fs.node l = some .dir ∧ p ≠ [] ∧
      IsName name ∧ pieces p = (pieces p).dropLast ++ [name] ∧ l ++ [name] = fs.placeOf p := by
  rw [entry] at h
  rcases hwalk : fs.walk (fs.start p) (pieces p).dropLast with e | l₁
  · rw [hwalk] at h
    cases h
  · simp only [hwalk] at h
    split_ifs at h with hdir hempty hname
    obtain ⟨rfl, rfl⟩ := Prod.mk.inj (Except.ok.inj h)
    have hlast : (pieces p).getLastD [] = (pieces p).getLast (pieces_ne_nil p) := by
      rw [List.getLastD_eq_getLast?, List.getLast?_eq_some_getLast (pieces_ne_nil p)]
      rfl
    have hpieces : pieces p = (pieces p).dropLast ++ [(pieces p).getLastD []] := by
      rw [hlast]
      exact (List.dropLast_append_getLast (pieces_ne_nil p)).symm
    refine ⟨rfl, not_not.mp hdir, hempty, hname, hpieces, ?_⟩
    calc l₁ ++ [(pieces p).getLastD []] = follow l₁ ((pieces p).getLastD []) :=
          (follow_name hname).symm
      _ = place (fs.start p) ((pieces p).dropLast ++ [(pieces p).getLastD []]) := by
          rw [place_append, ← walk_place hwalk]
          rfl
      _ = fs.placeOf p := by rw [← hpieces, placeOf]

/-- A path has its entry in every tree that has the directories of this one. -/
lemma entry_of_dirs (hdirs : ∀ x, fs.node x = some .dir → fs'.node x = some .dir)
    (hcwd : fs'.cwd = fs.cwd) (h : fs.entry p = .ok (l, name)) : fs'.entry p = .ok (l, name) := by
  obtain ⟨hwalk, hl, -⟩ := of_entry_eq_ok h
  have hwalk' := walk_of_dirs hdirs hwalk hl
  rw [entry, hwalk] at h
  rw [entry, start_congr hcwd, hwalk']
  simp only [hl, hdirs l hl] at h ⊢
  exact h

/-- A long suffix without slashes belongs to the name of the entry. -/
lemma entry_append {suffix : Path} (hslash : '/' ∉ suffix) (hlong : 2 < suffix.length)
    (h : fs.entry p = .ok (l, name)) : fs.entry (p ++ suffix) = .ok (l, name ++ suffix) := by
  obtain ⟨hwalk, hl, hne, -, hpieces, -⟩ := of_entry_eq_ok h
  obtain ⟨init, last, hsplit, happend⟩ := exists_pieces_append p
  rw [hsplit, List.dropLast_concat] at hwalk hpieces
  obtain ⟨-, hlast⟩ := List.append_inj' hpieces rfl
  obtain rfl : last = name := (List.cons.inj hlast).1
  have habs : isAbsolute (p ++ suffix) = isAbsolute p := isAbsolute_append hslash
  have hname : IsName (last ++ suffix) := isName_of_long (by rw [List.length_append]; omega)
  have hnil : p ++ suffix ≠ [] := fun heq => hne (List.append_eq_nil_iff.mp heq).1
  rw [entry, start, habs, ← start, happend suffix hslash, List.dropLast_concat, hwalk]
  simp only [hl, ne_eq, not_true_eq_false, if_false, hnil, List.getLastD_concat, hname, if_true]

/-- What stands at a path that has an entry. -/
lemma stat_of_entry (h : fs.entry p = .ok (l, name)) :
    fs.stat p = (fs.node (l ++ [name])).elim (.error .noEntry) .ok := by
  obtain ⟨hwalk, hl, hne, hname, hpieces, -⟩ := of_entry_eq_ok h
  rw [stat, if_neg hne, hpieces, find_append hwalk, find, walk, move_of_isName hl hname]
  rcases hnode : fs.node (l ++ [name]) with - | x
  · rfl
  · simp only [reduceCtorEq, if_false, walk, hnode]

/-- What is found stands at the place of its path. -/
lemma node_of_stat {x : Node} (h : fs.stat p = .ok x) : fs.node (fs.placeOf p) = some x := by
  obtain ⟨-, l, hwalk, hnode⟩ := of_stat_eq_ok h
  rwa [placeOf, ← walk_place hwalk]

/-- The path of a file that is found has an entry. -/
lemma exists_entry_of_stat (h : fs.stat p = .ok (.file data)) :
    ∃ l name, fs.entry p = .ok (l, name) := by
  have hplace := node_of_stat h
  rw [stat] at h
  split_ifs at h with hne
  have hpieces := (List.dropLast_append_getLast (pieces_ne_nil p)).symm
  rw [find] at h
  rcases hwalk : fs.walk (fs.start p) (pieces p) with e | l
  · rw [hwalk] at h
    cases h
  · rw [hpieces] at hwalk
    obtain ⟨l₁, hinit, hlast⟩ := exists_walk_of_append hwalk
    rw [walk] at hlast
    rcases hmove : fs.move l₁ ((pieces p).getLast (pieces_ne_nil p)) with e | l₂
    · rw [hmove] at hlast
      cases hlast
    · rw [hmove] at hlast
      obtain rfl : l₂ = l := Except.ok.inj hlast
      obtain ⟨hdir, hfollow, -⟩ := of_move_eq_ok hmove
      have hname : IsName ((pieces p).getLast (pieces_ne_nil p)) := by
        by_contra hname
        -- the piece would stay in a directory, or go up to one
        have honly : ∀ q ∈ [(pieces p).getLast (pieces_ne_nil p)], ¬ IsName q :=
          fun q hq => List.mem_singleton.mp hq ▸ hname
        have hup := (walk_of_no_names honly hdir).2
        have hwhole : fs.placeOf p = place l₁ [(pieces p).getLast (pieces_ne_nil p)] := by
          rw [placeOf]
          conv_lhs => rw [hpieces]
          rw [place_append, ← walk_place hinit]
        rw [hwhole, hup] at hplace
        cases hplace
      refine ⟨l₁, (pieces p).getLastD [], ?_⟩
      rw [entry, hinit]
      have hlastD : (pieces p).getLastD [] = (pieces p).getLast (pieces_ne_nil p) := by
        rw [List.getLastD_eq_getLast?, List.getLast?_eq_some_getLast (pieces_ne_nil p)]
        rfl
      simp only [hdir, ne_eq, not_true_eq_false, if_false, hne, hlastD, hname, if_true]

/-- A directory that is found is found in every tree that has the directories of this one. -/
lemma stat_of_dirs (hdirs : ∀ x, fs.node x = some .dir → fs'.node x = some .dir)
    (hcwd : fs'.cwd = fs.cwd) (h : fs.stat p = .ok .dir) : fs'.stat p = .ok .dir := by
  obtain ⟨hne, l, hwalk, hl⟩ := of_stat_eq_ok h
  rw [stat, if_neg hne, find, start_congr hcwd, walk_of_dirs hdirs hwalk hl]
  simp only [hdirs l hl]
  rfl

/-- What is found is found in every tree that has the entries of this one. -/
lemma stat_of_nodes (hnodes : ∀ x y, fs.node x = some y → fs'.node x = some y)
    (hcwd : fs'.cwd = fs.cwd) {x : Node} (h : fs.stat p = .ok x) : fs'.stat p = .ok x := by
  rcases x with - | data
  · exact stat_of_dirs (fun y => hnodes y .dir) hcwd h
  · obtain ⟨l, name, hentry⟩ := exists_entry_of_stat h
    have hentry' := entry_of_dirs (fun x => hnodes x .dir) hcwd hentry
    rw [stat_of_entry hentry] at h
    rw [stat_of_entry hentry']
    rcases hnode : fs.node (l ++ [name]) with - | y
    · rw [hnode] at h
      cases h
    · rw [hnode] at h
      rw [hnodes _ y hnode]
      exact h

/-! ### What the calls change -/

/-- A file that is written stands at its entry, and the rest is as it was. -/
lemma of_write_eq_ok (h : fs.write p data = (.ok (), fs')) :
    ∃ l name, fs.entry p = .ok (l, name) ∧ fs.node (l ++ [name]) ≠ some .dir ∧
      fs'.cwd = fs.cwd ∧
      ∀ x, fs'.node x = if x = l ++ [name] then some (.file data) else fs.node x := by
  rw [write] at h
  rcases hentry : fs.entry p with e | ⟨l, name⟩
  · rw [hentry] at h
    cases h
  · simp only [hentry] at h
    split_ifs at h with hfree
    · obtain rfl := (Prod.mk.inj h).2
      exact ⟨l, name, rfl, hfree.2, rfl, fun x => node_insert _ _ x⟩
    · cases h

/-- A file that is written stands at the place of its path, and the rest is as it was. -/
lemma node_of_write (h : fs.write p data = (.ok (), fs')) (x : Place) :
    fs'.node x = if x = fs.placeOf p then some (.file data) else fs.node x := by
  obtain ⟨l, name, hentry, -, -, hnode⟩ := of_write_eq_ok h
  obtain ⟨-, -, -, -, -, hplace⟩ := of_entry_eq_ok hentry
  rw [hnode, hplace]

/-- A write that fails changes nothing. -/
lemma of_write_eq_error {e : Errno} (h : fs.write p data = (.error e, fs')) : fs' = fs := by
  rw [write] at h
  rcases hentry : fs.entry p with e' | ⟨l, name⟩
  · simp only [hentry] at h
    exact (Prod.mk.inj h).2.symm
  · simp only [hentry] at h
    split_ifs at h
    · cases (Prod.mk.inj h).1
    · exact (Prod.mk.inj h).2.symm

/-- A file that is written leaves the directories as they are. -/
lemma dir_of_write (h : fs.write p data = (.ok (), fs')) {x : Place}
    (hx : fs.node x = some .dir) : fs'.node x = some .dir := by
  obtain ⟨l, name, -, hfree, -, hnode⟩ := of_write_eq_ok h
  rw [hnode, if_neg, hx]
  rintro rfl
  exact hfree hx

/-- After a write, the file stands at every path of its entry, and elsewhere stands what stood
there. -/
theorem stat_write (h : fs.write p data = (.ok (), fs')) {p' : Path}
    (h' : fs.entry p' = .ok (l, name)) :
    fs'.entry p' = .ok (l, name) ∧
      fs'.stat p' = if l ++ [name] = fs.placeOf p then .ok (.file data) else fs.stat p' := by
  obtain ⟨l₁, name₁, hentry, -, hcwd, hnode⟩ := of_write_eq_ok h
  obtain ⟨-, -, -, -, -, hplace⟩ := of_entry_eq_ok hentry
  have hkept := entry_of_dirs (fun x => dir_of_write h) hcwd h'
  refine ⟨hkept, ?_⟩
  rw [stat_of_entry hkept, stat_of_entry h', hnode, hplace]
  split_ifs
  · rfl
  · rfl

/-- A file that is removed leaves the directories as they are. -/
lemma dir_of_unlink {x : Place} (hx : fs.node x = some .dir) :
    (fs.unlink p).2.node x = some .dir := by
  rw [unlink]
  rcases fs.entry p with e | ⟨l, name⟩
  · exact hx
  · simp only
    split
    · exact hx
    · exact hx
    · rename_i hfile
      rw [node_erase, if_neg, hx]
      rintro rfl
      rw [hx] at hfile
      cases hfile

/-- The trees differ only at the places in `ls`, and by new directories above `top`. -/
structure OnlyAt (fs fs' : Fs) (top : Place) (ls : List Place) : Prop where
  /-- The working directory is the same. -/
  cwd : fs'.cwd = fs.cwd
  /-- At another place nothing is different, or a directory is new. -/
  node : ∀ x, x ∉ ls → fs'.node x = fs.node x ∨
    fs.node x = none ∧ fs'.node x = some .dir ∧ x <+: top

variable {fs'' : Fs} {top : Place} {ls : List Place}

/-- A tree does not differ from itself. -/
lemma OnlyAt.refl (fs : Fs) (top : Place) (ls : List Place) : OnlyAt fs fs top ls :=
  ⟨rfl, fun _ _ => Or.inl rfl⟩

/-- Differences add up. -/
lemma OnlyAt.trans (h : OnlyAt fs fs' top ls) (h' : OnlyAt fs' fs'' top ls) :
    OnlyAt fs fs'' top ls := by
  refine ⟨h'.cwd.trans h.cwd, fun x hx => ?_⟩
  rcases h.node x hx, h'.node x hx with ⟨heq | ⟨hnone, hdir, htop⟩, heq' | ⟨hnone', hdir', htop'⟩⟩
  · exact Or.inl (heq'.trans heq)
  · exact Or.inr ⟨heq ▸ hnone', hdir', htop'⟩
  · exact Or.inr ⟨hnone, heq'.trans hdir, htop⟩
  · rw [hdir] at hnone'
    cases hnone'

/-- Writing a file, successful or not, makes a difference at most at its place. -/
lemma onlyAt_write (data : List UInt8) (top : Place) (hls : fs.placeOf p ∈ ls) :
    OnlyAt fs (fs.write p data).2 top ls := by
  rw [write]
  rcases hentry : fs.entry p with e | ⟨l, name⟩
  · exact .refl fs top ls
  · obtain ⟨-, -, -, -, -, hplace⟩ := of_entry_eq_ok hentry
    simp only
    split_ifs with hfree
    · refine ⟨rfl, fun x hx => Or.inl ?_⟩
      rw [node_insert, if_neg]
      rintro rfl
      exact hx (hplace ▸ hls)
    · exact .refl fs top ls

/-- One more write. -/
lemma OnlyAt.write (h : OnlyAt fs fs' top ls) (hls : fs.placeOf p ∈ ls)
    (hwrite : fs'.write p data = (.ok (), fs'')) : OnlyAt fs fs'' top ls := by
  have hplace : fs'.placeOf p ∈ ls := by
    rw [placeOf_congr h.cwd]
    exact hls
  have hstep := onlyAt_write data top hplace
  rw [hwrite] at hstep
  exact h.trans hstep

/-- Removing a file makes a difference at most at its place. -/
lemma onlyAt_unlink (top : Place) (hls : fs.placeOf p ∈ ls) :
    OnlyAt fs (fs.unlink p).2 top ls := by
  rw [unlink]
  rcases hentry : fs.entry p with e | ⟨l, name⟩
  · exact .refl fs top ls
  · obtain ⟨-, -, -, -, -, hplace⟩ := of_entry_eq_ok hentry
    simp only
    split
    · exact .refl fs top ls
    · exact .refl fs top ls
    · refine ⟨rfl, fun x hx => Or.inl ?_⟩
      rw [node_erase, if_neg]
      rintro rfl
      exact hx (hplace ▸ hls)

/-- Removing a directory makes a difference at most at its place. -/
lemma onlyAt_rmdir (top : Place) (hls : fs.placeOf p ∈ ls) :
    OnlyAt fs (fs.rmdir p).2 top ls := by
  rw [rmdir]
  rcases hentry : fs.entry p with e | ⟨l, name⟩
  · exact .refl fs top ls
  · obtain ⟨-, -, -, -, -, hplace⟩ := of_entry_eq_ok hentry
    simp only
    split
    · exact .refl fs top ls
    · exact .refl fs top ls
    · split_ifs
      · exact .refl fs top ls
      · refine ⟨rfl, fun x hx => Or.inl ?_⟩
        rw [node_erase, if_neg]
        rintro rfl
        exact hx (hplace ▸ hls)
      · exact .refl fs top ls

/-- Directories are made along pieces without `..` above the place that they spell. -/
lemma onlyAt_makeDirs (hqs : dots ∉ qs) (htop : place l qs <+: top) :
    OnlyAt fs (fs.makeDirs l qs).2 top ls := by
  induction qs generalizing fs l with
  | nil => exact .refl fs top ls
  | cons q qs ih =>
    have hrest : dots ∉ qs := fun hmem => hqs (List.mem_cons_of_mem q hmem)
    rw [makeDirs]
    split_ifs with hdir hnew
    · rw [place_cons, follow_name hnew.1] at htop
      have hinsert : OnlyAt fs (fs.insert l q .dir hdir (by simp [hnew.2])) top ls := by
        refine ⟨rfl, fun x _ => ?_⟩
        rw [node_insert]
        split_ifs with hx
        · subst hx
          exact Or.inr ⟨hnew.2, rfl, (prefix_place _ hrest).trans htop⟩
        · exact Or.inl rfl
      exact hinsert.trans (ih hrest htop)
    · exact ih hrest htop
    · exact .refl fs top ls

/-- Making directories keeps every entry. -/
lemma node_makeDirs {x : Place} {y : Node} (h : fs.node x = some y) :
    (fs.makeDirs l qs).2.node x = some y := by
  induction qs generalizing fs l with
  | nil => exact h
  | cons q qs ih =>
    rw [makeDirs]
    split_ifs with hdir hnew
    · apply ih
      rw [node_insert, if_neg, h]
      rintro rfl
      rw [hnew.2] at h
      cases h
    · exact ih h
    · exact h

/-- Making directories keeps the working directory. -/
lemma cwd_makeDirs : (fs.makeDirs l qs).2.cwd = fs.cwd := by
  induction qs generalizing fs l with
  | nil => rfl
  | cons q qs ih =>
    rw [makeDirs]
    split_ifs with hdir hnew
    · exact ih
    · exact ih
    · rfl

/-- Making directories makes no files. -/
lemma file_of_makeDirs {x : Place} {data : List UInt8}
    (h : (fs.makeDirs l qs).2.node x = some (.file data)) : fs.node x = some (.file data) := by
  induction qs generalizing fs l with
  | nil => exact h
  | cons q qs ih =>
    rw [makeDirs] at h
    split_ifs at h with hdir hnew
    · have hinsert := ih h
      rw [node_insert] at hinsert
      split_ifs at hinsert
      · cases hinsert
      · exact hinsert
    · exact ih h
    · exact h

/-- Along an existing way to a directory nothing is made. -/
lemma makeDirs_append (h : fs.walk l qs = .ok l') (hl' : fs.node l' = some .dir)
    (rs : List (List Char)) : fs.makeDirs l (qs ++ rs) = fs.makeDirs l' rs := by
  induction qs generalizing l with
  | nil =>
    obtain rfl : l = l' := Except.ok.inj h
    rfl
  | cons q qs ih =>
    rw [walk] at h
    rw [List.cons_append, makeDirs]
    rcases hmove : fs.move l q with e | l₁
    · rw [hmove] at h
      cases h
    · rw [hmove] at h
      obtain ⟨hl, rfl, x, hx⟩ := of_move_eq_ok hmove
      rw [dif_pos hl, dif_neg]
      · exact ih h
      · rintro ⟨hname, hnone⟩
        rw [follow_name hname, hnone] at hx
        cases hx

/-- Pieces that stay do not matter for the directories that are made. -/
lemma makeDirs_filter (fs : Fs) (l : Place) (qs : List (List Char)) :
    fs.makeDirs l (qs.filter fun q => q ≠ [] ∧ q ≠ ['.']) = fs.makeDirs l qs := by
  induction qs generalizing fs l with
  | nil => rfl
  | cons q qs ih =>
    by_cases hskip : q = [] ∨ q = ['.']
    · rw [List.filter_cons_of_neg (by simp; tauto), ih, makeDirs]
      by_cases hdir : fs.node l = some .dir
      · rw [dif_pos hdir, dif_neg fun h => not_isName_of_skip hskip h.1, follow_skip hskip]
      · rw [dif_neg hdir]
        rcases qs with - | ⟨q', qs⟩
        · rw [makeDirs, if_neg hdir]
        · rw [makeDirs, dif_neg hdir]
    · rw [List.filter_cons_of_pos (by simp; tauto), makeDirs, makeDirs, ih]
      split_ifs
      · rw [ih]
      · rfl
      · rfl

/-! ### What a difference leaves as it is -/

/-- The entry at a place that is neither among those that differ nor above `top`. -/
lemma OnlyAt.node_eq (h : OnlyAt fs fs' top ls) {x : Place} (hls : x ∉ ls) (htop : ¬ x <+: top) :
    fs'.node x = fs.node x := by
  rcases h.node x hls with heq | ⟨-, -, hx⟩
  · exact heq
  · exact absurd hx htop

/-- The files are the same, except at the places that differ. -/
lemma OnlyAt.file_iff (h : OnlyAt fs fs' top ls) {x : Place} (hls : x ∉ ls) :
    (∃ data, fs'.node x = some (.file data)) ↔ ∃ data, fs.node x = some (.file data) := by
  rcases h.node x hls with heq | ⟨hnone, hdir, -⟩
  · rw [heq]
  · rw [hnone, hdir]
    simp

/-- Some pieces of a path lead to a directory, and the others have no `..`. -/
structure Anchored (fs : Fs) (p : Path) (qs rs : List (List Char)) (l : Place) : Prop where
  /-- The pieces of the path. -/
  split : pieces p = qs ++ rs
  /-- The others have no `..`. -/
  plain : dots ∉ rs
  /-- The first lead to a place. -/
  walk : fs.walk (fs.start p) qs = .ok l
  /-- A directory stands there. -/
  dir : fs.node l = some .dir

/-- The place of an anchored path. -/
lemma Anchored.placeOf_eq (h : Anchored fs p qs rs l) : fs.placeOf p = place l rs := by
  rw [placeOf, h.split, place_append, ← walk_place h.walk]

/-- A path is anchored in every tree that has the directories of this one. -/
lemma Anchored.of_dirs (h : Anchored fs p qs rs l)
    (hdirs : ∀ x, fs.node x = some .dir → fs'.node x = some .dir) (hcwd : fs'.cwd = fs.cwd) :
    Anchored fs' p qs rs l where
  split := h.split
  plain := h.plain
  walk := by
    rw [start_congr hcwd]
    exact walk_of_dirs hdirs h.walk h.dir
  dir := hdirs l h.dir

/-- A path that is anchored before its last piece is anchored with a long suffix as well. -/
lemma Anchored.append (h : Anchored fs p qs rs l) (hrs : rs ≠ []) {suffix : Path}
    (hslash : '/' ∉ suffix) (hlong : 2 < suffix.length) :
    Anchored fs (p ++ suffix) qs (rs.dropLast ++ [rs.getLast hrs ++ suffix]) l := by
  obtain ⟨init, last, hpieces, happend⟩ := exists_pieces_append p
  obtain ⟨rs, last', rfl⟩ := (List.eq_nil_or_concat' rs).resolve_left hrs
  have hsplit := hpieces.symm.trans h.split
  rw [← List.append_assoc] at hsplit
  obtain ⟨rfl, hlast⟩ := List.append_inj' hsplit rfl
  obtain rfl : last = last' := (List.cons.inj hlast).1
  rw [List.dropLast_concat, List.getLast_append_singleton]
  refine ⟨?_, ?_, ?_, h.dir⟩
  · rw [happend suffix hslash, List.append_assoc]
  · intro hmem
    rcases List.mem_append.mp hmem with hinit | hnew
    · exact h.plain (List.mem_append_left _ hinit)
    · have hlength := congrArg List.length (List.mem_singleton.mp hnew)
      rw [List.length_append] at hlength
      simp only [List.length_cons, List.length_nil] at hlength
      omega
  · rw [start, isAbsolute_append hslash, ← start]
    exact h.walk

/-- New directories above a place are above every place below it. -/
lemma OnlyAt.mono {top' : Place} (h : OnlyAt fs fs' top ls) (htop : top <+: top') :
    OnlyAt fs fs' top' ls :=
  ⟨h.cwd, fun x hx => (h.node x hx).imp_right fun ⟨hnone, hdir, hx⟩ =>
    ⟨hnone, hdir, hx.trans htop⟩⟩

/-- The directories of a path that is anchored before its last piece are made above its place. -/
lemma Anchored.onlyAt_parents (h : Anchored fs p qs rs l) (hrs : rs ≠ [])
    (hname : ∃ name, IsName name ∧ pieces p = (pieces p).dropLast ++ [name]) :
    OnlyAt fs (fs.makeDirs (fs.start p) (pieces p).dropLast).2 (fs.placeOf p).dropLast ls := by
  obtain ⟨name, hname, hpieces⟩ := hname
  obtain ⟨rs, last, rfl⟩ := (List.eq_nil_or_concat' rs).resolve_left hrs
  have hsplit := hpieces.symm.trans h.split
  rw [← List.append_assoc] at hsplit
  obtain ⟨hinit, hlast⟩ := List.append_inj' hsplit rfl
  obtain rfl : name = last := (List.cons.inj hlast).1
  have hplace : place l (rs ++ [name]) = place l rs ++ [name] := by
    rw [place_append]
    exact follow_name hname
  rw [hinit, makeDirs_append h.walk h.dir, h.placeOf_eq, hplace, List.dropLast_concat]
  exact onlyAt_makeDirs (fun hmem => h.plain (List.mem_append_left _ hmem)) List.prefix_rfl

/-- An anchored path that ends in a name has an entry where something stands at its place. -/
lemma Anchored.exists_entry (h : Anchored fs p qs rs l) (hrs : rs ≠ [])
    (hname : ∃ name, IsName name ∧ pieces p = (pieces p).dropLast ++ [name]) {x : Node}
    (hx : fs.node (fs.placeOf p) = some x) : ∃ l' name, fs.entry p = .ok (l', name) := by
  obtain ⟨name, hname, hpieces⟩ := hname
  obtain ⟨rs, last, rfl⟩ := (List.eq_nil_or_concat' rs).resolve_left hrs
  have hsplit := hpieces.symm.trans h.split
  rw [← List.append_assoc] at hsplit
  obtain ⟨hinit, hlast⟩ := List.append_inj' hsplit rfl
  obtain rfl : name = last := (List.cons.inj hlast).1
  have hplace : place l (rs ++ [name]) = place l rs ++ [name] := by
    rw [place_append]
    exact follow_name hname
  rw [h.placeOf_eq, hplace] at hx
  have hdir : fs.node (place l rs) = some .dir := fs.parent_dir _ _ _ hx
  have hwalk : fs.walk (fs.start p) (pieces p).dropLast = .ok (place l rs) := by
    rw [hinit, walk_append h.walk]
    exact walk_of_dir (fun hmem => h.plain (List.mem_append_left _ hmem)) hdir
  have hne := ne_nil_of_pieces hname hpieces
  refine ⟨place l rs, name, ?_⟩
  rw [entry, hwalk, hpieces, List.getLastD_concat]
  simp only [hdir, ne_eq, not_true_eq_false, if_false, hne, hname, if_true]

/-- An anchored path that ends in a name leads to what stands at its place. -/
lemma Anchored.stat_eq_ok_iff (h : Anchored fs p qs rs l) (hrs : rs ≠ [])
    (hname : ∃ name, IsName name ∧ pieces p = (pieces p).dropLast ++ [name]) {x : Node} :
    fs.stat p = .ok x ↔ fs.node (fs.placeOf p) = some x := by
  refine ⟨node_of_stat, fun hx => ?_⟩
  obtain ⟨l', name, hentry⟩ := h.exists_entry hrs hname hx
  obtain ⟨-, -, -, -, -, hplace⟩ := of_entry_eq_ok hentry
  rw [stat_of_entry hentry, hplace, hx]
  rfl

/-- Whether an anchored path leads to an entry, and to which, is the same in two trees that have the
same at its place. -/
theorem Anchored.stat_toOption (h : Anchored fs p qs rs l) (h' : Anchored fs' p qs rs l)
    (hnode : fs'.node (fs.placeOf p) = fs.node (fs.placeOf p)) :
    (fs'.stat p).toOption = (fs.stat p).toOption := by
  rw [h.placeOf_eq] at hnode
  rw [stat, stat, h.split, find_append h.walk, find_append h'.walk]
  split_ifs with hne
  · rfl
  rcases hx : fs.node (place l rs) with - | x
  · rw [toOption_find_of_none h.plain hx, toOption_find_of_none h.plain (hnode.trans hx)]
  · rw [find_of_node h.plain hx (hnode.trans hx)]

/-- What an anchored path leads to is the same in two trees that have the same at its place and the
same files above it. -/
theorem Anchored.stat_eq (h : Anchored fs p qs rs l) (h' : Anchored fs' p qs rs l)
    (hnode : fs'.node (fs.placeOf p) = fs.node (fs.placeOf p))
    (hfiles : ∀ x, x <+: fs.placeOf p →
      ((∃ data, fs'.node x = some (.file data)) ↔ ∃ data, fs.node x = some (.file data))) :
    fs'.stat p = fs.stat p := by
  rw [h.placeOf_eq] at hnode hfiles
  rw [stat, stat, h.split, find_append h.walk, find_append h'.walk]
  split_ifs with hne
  · rfl
  rcases hx : fs.node (place l rs) with - | x
  · by_cases habove : ∃ y data, l <+: y ∧ y <+: place l rs ∧ fs.node y = some (.file data)
    · obtain ⟨y, data, hly, hy, hfile⟩ := habove
      obtain ⟨data', hfile'⟩ := (hfiles y hy).mpr ⟨data, hfile⟩
      rw [find_of_above h.plain hx hly hy hfile,
        find_of_above h.plain (hnode.trans hx) hly hy hfile']
    · push Not at habove
      rw [find_of_none h.plain hx fun y hly hy data => habove y data hly hy,
        find_of_none h.plain (hnode.trans hx)]
      intro y hly hy data hfile
      obtain ⟨data', hfile'⟩ := (hfiles y hy).mp ⟨data, hfile⟩
      exact habove y data' hly hy hfile'
  · exact find_of_node h.plain hx (hnode.trans hx)

end Fs

end FileTree
