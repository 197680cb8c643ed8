import GoyStore.Blob.KeyIndependence
import GoyStore.Library.FaultyFiles

/-!
# The local blob stores on a file tree with faults

`serveWith` serves the calls of a store and lets some of those that change the tree fail.  The
faults are given for each call, so every choice of the steps of an operation that fail is one of
them; without faults it is `serve`.

Making the parent directories of a blob makes directories above it only, whether it fails or not
(`onlyAt_makeParents`), and nothing where something stands at the path of the blob already
(`makeParents_of_stat`).
-/

namespace GoyStore

open FileTree UnixPath Effects

/-! ### Places beside one another -/

/-- A path that ends in a name spells an entry, and so does the path with a suffix. -/
lemma placeOf_append (fs : Fs) {p suffix : Path} (hp : EndsWithName p) (hslash : '/' ∉ suffix)
    (hlong : 2 < suffix.length) :
    ∃ l name, fs.placeOf p = l ++ [name] ∧ fs.placeOf (p ++ suffix) = l ++ [name ++ suffix] := by
  obtain ⟨name, hname, hpieces⟩ := hp
  obtain ⟨init, last, hsplit, happend⟩ := exists_pieces_append p
  rw [hsplit, List.dropLast_concat] at hpieces
  obtain ⟨-, hlast⟩ := List.append_inj' hpieces rfl
  obtain rfl : last = name := (List.cons.inj hlast).1
  have hlonger : IsName (last ++ suffix) := isName_of_long (by rw [List.length_append]; omega)
  refine ⟨Fs.place (fs.start p) init, last, ?_, ?_⟩
  · rw [Fs.placeOf, hsplit, Fs.place_append]
    exact Fs.follow_name hname
  · rw [Fs.placeOf, Fs.start, isAbsolute_append hslash, ← Fs.start, happend suffix hslash,
      Fs.place_append]
    exact Fs.follow_name hlonger

/-- Directories above a place do not change what an anchored path to a place beside it leads to. -/
lemma stat_of_onlyAt {fs fs' : Fs} {p : Path} {qs rs : List (List Char)} {l top : Place}
    {name : List Char} (h : Fs.Anchored fs p qs rs l) (h' : Fs.Anchored fs' p qs rs l)
    (honly : Fs.OnlyAt fs fs' top []) (hplace : fs.placeOf p = top ++ [name]) :
    fs'.stat p = fs.stat p := by
  refine h.stat_eq h' (honly.node_eq (by simp) fun hpre => ?_) fun x _ => honly.file_iff (by simp)
  have hlength := hpre.length_le
  rw [hplace, List.length_append, List.length_singleton] at hlength
  omega

/-! ### The Rust store -/

namespace Rust

/-- The text of a failure. -/
def failureText : Failure → String := Sum.elim errorText id

/-- The calls of the Rust store on a file tree, with faults. -/
def serveWith (faults : FsCall → Option Fault) : (c : FsCall) → Fs → c.Answer × Fs
  | .createDirAll dir, fs =>
    let made := fs.makeDirsWith (faults (.createDirAll dir)) (origin fs dir)
      (dir.map componentPiece)
    (made.1.mapError failureText, made.2)
  | .write path data, fs =>
    let written := fs.writeWith (faults (.write path data)) path data
    (written.1.mapError failureText, written.2)
  | .removeFile path, fs =>
    let removed := fs.unlinkWith (faults (.removeFile path)) path
    (removed.1.mapError failureText, removed.2)
  | .pathExists path, fs => serve (.pathExists path) fs
  | .read path, fs => serve (.read path) fs
  | .canonicalize path, fs => serve (.canonicalize path) fs

namespace LocalBlobStore

/-- How making the parent directories of a blob ends. -/
def makeParents (faults : FsCall → Option Fault) (fs : Fs) (blobPath : Path) :
    Except String Unit × Fs :=
  match parent blobPath with
  | none => (.ok (), fs)
  | some dir => serveWith faults (.createDirAll dir) fs

variable {faults : FsCall → Option Fault} {fs : Fs} {path : Path}

/-- Where something stands at the path of a blob, no directory is made. -/
lemma makeParents_of_stat (faults : FsCall → Option Fault) {x : Node}
    (h : fs.stat path = .ok x) : (makeParents faults fs path).2 = fs := by
  rw [makeParents]
  rcases hparent : parent path with - | dir
  · rfl
  obtain ⟨rfl, -⟩ := eq_dropLast_of_parent hparent
  suffices hwalk : ∃ l, fs.walk (origin fs (components path).dropLast)
      ((components path).dropLast.map componentPiece) = .ok l ∧ fs.node l = some .dir by
    obtain ⟨l, hwalk, hl⟩ := hwalk
    exact Fs.makeDirsWith_of_walk hwalk hl _
  rcases List.eq_nil_or_concat' ((pieces path).filterMap pieceComponent) with hnil | ⟨init, c, hc⟩
  · -- there is only the start of the path, and its parent is empty
    have hempty : (components path).dropLast = [] := by
      rw [components, hnil, List.append_nil, leading]
      split_ifs <;> rfl
    rw [hempty]
    exact ⟨fs.cwd, rfl, fs.cwd_dir⟩
  · have hroot : Component.rootDir ∉ init := fun hmem =>
      rootDir_notMem_filterMap (pieces path) (hc ▸ List.mem_append_left _ hmem)
    have hdir : (components path).dropLast = leading path ++ init := by
      rw [components, hc, ← List.append_assoc, List.dropLast_concat]
    rw [hdir, origin_leading fs path hroot]
    have hpieces := map_componentPiece (pieces path)
    rw [hc, List.map_append, List.map_singleton] at hpieces
    obtain ⟨-, l, hwalk, -⟩ := Fs.of_stat_eq_ok h
    have hfilter := Fs.walk_filter hwalk
    rw [← hpieces] at hfilter
    obtain ⟨l₁, hfirst, hlast⟩ := Fs.exists_walk_of_append hfilter
    have hl₁ : fs.node l₁ = some .dir := by
      rw [Fs.walk] at hlast
      rcases hmove : fs.move l₁ (componentPiece c) with e | l₂
      · rw [hmove] at hlast
        cases hlast
      · exact (Fs.of_move_eq_ok hmove).1
    refine ⟨l₁, Fs.walk_of_filter ?_ hl₁, hl₁⟩
    have hkept : (init.map componentPiece).filter (fun q => q ≠ [] ∧ q ≠ ['.']) =
        init.map componentPiece := by
      refine List.filter_eq_self.mpr fun q hq => ?_
      have hmem := List.mem_append_left [componentPiece c] hq
      rw [hpieces] at hmem
      exact (List.mem_filter.mp hmem).2
    rw [List.map_append, List.filter_append, filter_leading, hkept]
    exact hfirst

/-- A call that can change the tree, with the faults that it meets. -/
inductive Call where
  /-- `LocalBlobStore::put`. -/
  | put (faults : FsCall → Option Fault) (key : String) (data : List UInt8)
      (metadata : Option Metadata)
  /-- `LocalBlobStore::delete`. -/
  | delete (faults : FsCall → Option Fault) (key : String)
  /-- `LocalBlobStore::is_healthy`. -/
  | isHealthy (faults : FsCall → Option Fault) (latency : Nat)

/-- The tree after a call. -/
def step (st : LocalBlobStore) (codec : MetadataCodec) (fs : Fs) : Call → Option Fs
  | .put faults key data metadata =>
    some ((st.put codec key data metadata).run (serveWith faults) fs).2
  | .delete faults key => some ((st.delete key).run (serveWith faults) fs).2
  | .isHealthy faults latency => some ((st.isHealthy latency).run (serveWith faults) fs).2

end LocalBlobStore

end Rust

/-! ### The Go store -/

namespace Go

/-- The error of a failure. -/
def failure (op : String) (path : Path) : Failure → FsError :=
  Sum.elim (pathError op path) fun text =>
    { text := op ++ " " ++ String.ofList path ++ ": " ++ text, notExist := false }

/-- The calls of the Go store on a file tree, with faults. -/
def serveWith (faults : FsCall → Option Fault) : (c : FsCall) → Fs → c.Answer × Fs
  | .mkdirAll path, fs =>
    let made := fs.makeDirsWith (faults (.mkdirAll path)) (fs.start path) (pieces path)
    (made.1.mapError (failure "mkdir" path), made.2)
  | .writeFile path data, fs =>
    let written := fs.writeWith (faults (.writeFile path data)) path data
    (written.1.mapError (failure "open" path), written.2)
  | .readFile path, fs => serve (.readFile path) fs
  | .remove path, fs =>
    match faults (.remove path) with
    | none => serve (.remove path) fs
    | some f => (.error (failure "remove" path (.inr f.text)), fs)

namespace LocalBlobStore

/-- How making the parent directories of a blob ends. -/
def makeParents (faults : FsCall → Option Fault) (fs : Fs) (targetPath : Path) :
    Except String Unit × Fs :=
  let made := serveWith faults (.mkdirAll (dir targetPath)) fs
  (made.1.mapError fun e => "failed to create directories for blob: " ++ e.text, made.2)

variable {s : LocalBlobStore} {key : String} {faults : FsCall → Option Fault} {fs : Fs}
  {path : Path}

/-- The path of an accepted key ends in a name. -/
lemma endsWithName_of_resolvePath (hpath : s.resolvePath key = .ok path) : EndsWithName path := by
  obtain ⟨rfl, hne, hnames⟩ := of_resolvePath_eq_ok hpath
  exact Fs.exists_name_render hne hnames

/-- The places of an accepted key and of its sidecar are below the base. -/
lemma placeOf_paths (fs : Fs) (hpath : s.resolvePath key = .ok path) :
    fs.placeOf path = fs.placeOf s.basePath ++ names key.toList ∧
      ∃ ms, ms ≠ [] ∧ fs.placeOf (metaPath path) = fs.placeOf s.basePath ++ ms := by
  obtain ⟨l, last, hblob, hsidecar⟩ := placeOf_append fs (endsWithName_of_resolvePath hpath)
    slash_notMem_metaSuffix two_lt_length_metaSuffix
  obtain ⟨hrender, hne, hnames⟩ := of_resolvePath_eq_ok hpath
  have hplace : fs.placeOf path = fs.placeOf s.basePath ++ names key.toList := by
    rw [hrender, fs.placeOf_render hnames]
  refine ⟨hplace, ?_⟩
  obtain ⟨ns, name, hsplit⟩ := (List.eq_nil_or_concat' _).resolve_left hne
  rw [hplace, hsplit, ← List.append_assoc] at hblob
  obtain ⟨rfl, -⟩ := List.append_inj' hblob rfl
  exact ⟨ns ++ [last ++ metaSuffix], by simp, by rw [metaPath, hsidecar, List.append_assoc]⟩

/-- The path of the sidecar of an accepted key is anchored as that of its blob is. -/
lemma anchored_metaPath (hpath : s.resolvePath key = .ok path) :
    ∃ qs rs, ∀ fs : Fs,
      Fs.Anchored fs (metaPath path) qs rs (Fs.place (fs.start (metaPath path)) qs) := by
  obtain ⟨qs, rs, hrs, hanchored⟩ := anchored_of_resolvePath hpath
  refine ⟨qs, rs.dropLast ++ [rs.getLast hrs ++ metaSuffix], fun fs => ?_⟩
  have hsidecar := (hanchored fs).append hrs slash_notMem_metaSuffix two_lt_length_metaSuffix
  rwa [metaPath, Fs.start, isAbsolute_append slash_notMem_metaSuffix, ← Fs.start]

/-- Making the parent directories of a blob changes neither what its path leads to nor what that of
its sidecar does. -/
lemma stat_makeParents (faults : FsCall → Option Fault) (fs : Fs)
    (hpath : s.resolvePath key = .ok path) :
    (makeParents faults fs path).2.stat path = fs.stat path ∧
      (makeParents faults fs path).2.stat (metaPath path) = fs.stat (metaPath path) := by
  have hname := endsWithName_of_resolvePath hpath
  obtain ⟨qs, rs, hrs, hanchored⟩ := anchored_of_resolvePath hpath
  obtain ⟨l, name, hblob, hsidecar⟩ :=
    placeOf_append fs hname slash_notMem_metaSuffix two_lt_length_metaSuffix
  have hmade : Fs.OnlyAt fs (madeDirs fs path) l [] := by
    have hparents : Fs.OnlyAt fs _ _ [] := (hanchored fs).onlyAt_parents hrs hname
    rwa [← madeDirs_eq hpath, hblob, List.dropLast_concat] at hparents
  have honly : Fs.OnlyAt fs (makeParents faults fs path).2 l [] := hmade.makeDirsWith _
  have hold := hanchored fs
  have hnew := hanchored (makeParents faults fs path).2
  rw [Fs.start_congr honly.cwd] at hnew
  have hold' := hold.append hrs slash_notMem_metaSuffix two_lt_length_metaSuffix
  have hnew' := hnew.append hrs slash_notMem_metaSuffix two_lt_length_metaSuffix
  exact ⟨stat_of_onlyAt hold hnew honly hblob, stat_of_onlyAt hold' hnew' honly hsidecar⟩

/-- A call that can change the tree, with the faults that it meets. -/
inductive Call where
  /-- `LocalBlobStore.Put`. -/
  | put (faults : FsCall → Option Fault) (key : String) (data : List UInt8)
      (metadata : Option Metadata)
  /-- `LocalBlobStore.Delete`. -/
  | delete (faults : FsCall → Option Fault) (key : String)
  /-- `LocalBlobStore.IsHealthy`. -/
  | isHealthy (faults : FsCall → Option Fault) (latency : Int)

/-- The tree after a call. -/
def step (s : LocalBlobStore) (codec : MetadataCodec) (fs : Fs) : Call → Option Fs
  | .put faults key data metadata =>
    some ((s.put codec none key data metadata).run (serveWith faults) fs).2
  | .delete faults key => some ((s.delete none key).run (serveWith faults) fs).2
  | .isHealthy faults latency => some ((s.isHealthy latency).run (serveWith faults) fs).2

end LocalBlobStore

end Go

end GoyStore
