import GoyStore.Blob.GoLocalBlobStore
import GoyStore.Blob.LocalBlobStore
import GoyStore.Library.FileTree

/-!
# The local blob stores on a file tree

The calls of the two local blob stores, served by a tree of files and directories.  What `get`
returns depends only on what stands at the path of the blob and at the path of its sidecar
(`run_get`), and a `put` that succeeds has written the blob, and then the sidecar if it was given
metadata (`of_put_eq_ok`).
-/

namespace GoyStore

open FileTree UnixPath Effects

/-- An error is mapped to an error. -/
lemma of_mapError_eq_ok {α ε ε' : Type} {r : Except ε α} {f : ε → ε'} {a : α}
    (h : r.mapError f = .ok a) : r = .ok a := by
  rcases r with e | a'
  · cases h
  · exact congrArg Except.ok (Except.ok.inj h)

/-! ### The Rust store -/

namespace Rust

/-- The text of an `io::Error`. -/
def errorText : Errno → String
  | .noEntry => "No such file or directory (os error 2)"
  | .notDirectory => "Not a directory (os error 20)"
  | .isDirectory => "Is a directory (os error 21)"
  | .notEmpty => "Directory not empty (os error 39)"
  | .busy => "Device or resource busy (os error 16)"

/-- The piece of a path that stands for a component. -/
def componentPiece : Component → List Char
  | .rootDir => []
  | .curDir => ['.']
  | .parentDir => dots
  | .normal name => name

/-- Where the components of a path start. -/
def origin (fs : Fs) (dir : List Component) : Place :=
  if dir.head? = some .rootDir then [] else fs.cwd

/-- The calls of the Rust store on a file tree. -/
def serve : (c : FsCall) → Fs → c.Answer × Fs
  | .createDirAll dir, fs =>
    let made := fs.makeDirs (origin fs dir) (dir.map componentPiece)
    (made.1.mapError errorText, made.2)
  | .write path data, fs =>
    let written := fs.write path data
    (written.1.mapError errorText, written.2)
  | .pathExists path, fs => ((fs.stat path).isOk, fs)
  | .read path, fs => ((fs.read path).mapError errorText, fs)
  | .removeFile path, fs =>
    let removed := fs.unlink path
    (removed.1.mapError errorText, removed.2)
  | .canonicalize path, fs =>
    (((fs.stat path).map fun _ => render true (fs.placeOf path)).mapError errorText, fs)

namespace LocalBlobStore

/-- What `get` returns, from what stands at the path of the blob and at that of its sidecar. -/
def found (codec : MetadataCodec) :
    Except Errno Node → Except Errno Node → Except String (Option (List UInt8 × Metadata))
  | .error _, _ => .ok none
  | .ok .dir, _ => .error (errorText .isDirectory)
  | .ok (.file data), .error _ => .ok (some (data, default))
  | .ok (.file _), .ok .dir => .error (errorText .isDirectory)
  | .ok (.file data), .ok (.file bytes) =>
    .ok (some (data, (codec.fromSlice bytes).toOption.getD default))

/-- The tree in which the directories of a blob are made. -/
def madeDirs (fs : Fs) (blobPath : Path) : Fs :=
  match parent blobPath with
  | none => fs
  | some dir => (serve (.createDirAll dir) fs).2

/-- The trees that a sequence of `put` and `delete` calls leads to. -/
inductive Reached (st : LocalBlobStore) (codec : MetadataCodec) (fs₀ : Fs) : Fs → Prop
  /-- No call. -/
  | start : Reached st codec fs₀ fs₀
  /-- A `put`, successful or not. -/
  | put {fs : Fs} (key : String) (data : List UInt8) (metadata : Option Metadata) :
      Reached st codec fs₀ fs →
        Reached st codec fs₀ ((st.put codec key data metadata).run serve fs).2
  /-- A `delete`, successful or not. -/
  | delete {fs : Fs} (key : String) :
      Reached st codec fs₀ fs → Reached st codec fs₀ ((st.delete key).run serve fs).2

variable {st : LocalBlobStore} {codec : MetadataCodec} {key : String} {path : Path} {fs fs' : Fs}
  {data : List UInt8} {metadata : Option Metadata}

/-- The question whether something stands at a path. -/
lemma serve_pathExists (path : Path) (fs : Fs) :
    serve (.pathExists path) fs = ((fs.stat path).isOk, fs) := rfl

/-- A read on the tree. -/
lemma run_read (path : Path) (fs : Fs) :
    (FsProg.read path).run serve fs = ((fs.read path).mapError errorText, fs) :=
  Prog.run_ofExcept _

/-- A write on the tree. -/
lemma run_write (path : Path) (data : List UInt8) (fs : Fs) :
    (FsProg.write path data).run serve fs =
      ((fs.write path data).1.mapError errorText, (fs.write path data).2) :=
  Prog.run_ofExcept _

/-- A write that succeeds. -/
lemma of_run_write_eq_ok (h : (FsProg.write path data).run serve fs = (.ok (), fs')) :
    fs.write path data = (.ok (), fs') := by
  rw [run_write] at h
  obtain ⟨hok, hfs⟩ := Prod.mk.inj h
  exact Prod.ext (of_mapError_eq_ok hok) hfs

/-- The metadata that `get` returns, from what stands at the path of the sidecar. -/
lemma run_getMetadata (codec : MetadataCodec) (path : Path) (fs : Fs) :
    (getMetadata codec path).run serve fs = (match fs.stat (metaPath path) with
      | .error _ => .ok default
      | .ok .dir => .error (errorText .isDirectory)
      | .ok (.file bytes) => .ok ((codec.fromSlice bytes).toOption.getD default), fs) := by
  rw [getMetadata, Prog.run_perform_bind (serve_pathExists _ fs)]
  rcases hsidecar : fs.stat (metaPath path) with e | ⟨⟨⟩ | bytes⟩
  · rfl
  · have hread : (FsProg.read (metaPath path)).run serve fs =
        (.error (errorText .isDirectory), fs) := by
      rw [run_read, Fs.read, hsidecar]
      rfl
    exact Prog.run_bind_of_error hread _
  · have hread : (FsProg.read (metaPath path)).run serve fs = (.ok bytes, fs) := by
      rw [run_read, Fs.read, hsidecar]
      rfl
    exact Prog.run_bind_of_ok hread _

/-- `get` looks at two paths and leaves the tree as it is. -/
theorem run_get (hpath : st.resolvePath key = .ok path) :
    (st.get codec key).run serve fs =
      (found codec (fs.stat path) (fs.stat (metaPath path)), fs) := by
  rw [get, hpath, Prog.run_bind_of_ok (Prog.run_ofExcept _),
    Prog.run_perform_bind (serve_pathExists path fs)]
  rcases hblob : fs.stat path with e | ⟨⟨⟩ | data⟩
  · rfl
  · have hread : (FsProg.read path).run serve fs = (.error (errorText .isDirectory), fs) := by
      rw [run_read, Fs.read, hblob]
      rfl
    exact Prog.run_bind_of_error hread _
  · have hread : (FsProg.read path).run serve fs = (.ok data, fs) := by
      rw [run_read, Fs.read, hblob]
      rfl
    refine (Prog.run_bind_of_ok hread _).trans ?_
    have hmetadata := run_getMetadata codec path fs
    rcases hsidecar : fs.stat (metaPath path) with e | ⟨⟨⟩ | bytes⟩
    · rw [hsidecar] at hmetadata
      exact Prog.run_bind_of_ok hmetadata _
    · rw [hsidecar] at hmetadata
      exact Prog.run_bind_of_error hmetadata _
    · rw [hsidecar] at hmetadata
      exact Prog.run_bind_of_ok hmetadata _

/-- A `put` that succeeds has made the directories, written the blob and then, if it was given
metadata, the sidecar. -/
theorem of_put_eq_ok (hpath : st.resolvePath key = .ok path)
    (h : (st.put codec key data metadata).run serve fs = (.ok (), fs')) :
    ∃ written, (madeDirs fs path).write path data = (.ok (), written) ∧
      match metadata with
      | none => fs' = written
      | some md => ∃ json, codec.toVec md = .ok json ∧
          written.write (metaPath path) json = (.ok (), fs') := by
  rw [put, hpath, Prog.run_bind_of_ok (Prog.run_ofExcept _)] at h
  obtain ⟨_, made, hmade, h⟩ := Prog.of_run_bind_eq_ok h
  obtain ⟨_, written, hwritten, h⟩ := Prog.of_run_bind_eq_ok h
  have hdirs : made = madeDirs fs path := by
    rw [madeDirs]
    rcases hparent : parent path with - | dir
    · rw [hparent] at hmade
      exact (Prod.mk.inj hmade).2.symm
    · rw [hparent] at hmade
      have hserve : (FsProg.createDirAll dir).run serve fs =
          ((serve (.createDirAll dir) fs).1, (serve (.createDirAll dir) fs).2) :=
        Prog.run_ofExcept _
      exact (Prod.mk.inj (hmade.symm.trans hserve)).2
  refine ⟨written, hdirs ▸ of_run_write_eq_ok hwritten, ?_⟩
  rcases metadata with - | md
  · exact (Prod.mk.inj h).2.symm
  · obtain ⟨json, s₁, hjson, hsidecar⟩ := Prog.of_run_bind_eq_ok h
    rw [Prog.run_ofExcept] at hjson
    obtain ⟨htoVec, rfl⟩ := Prod.mk.inj hjson
    exact ⟨json, htoVec, of_run_write_eq_ok hsidecar⟩

end LocalBlobStore

end Rust

/-! ### The Go store -/

namespace Go

/-- The suffix of a sidecar has no slash. -/
lemma slash_notMem_metaSuffix : '/' ∉ metaSuffix := by decide

/-- The suffix of a sidecar is longer than `..`. -/
lemma two_lt_length_metaSuffix : 2 < metaSuffix.length := by decide

/-- The text of a system error. -/
def errorText : Errno → String
  | .noEntry => "no such file or directory"
  | .notDirectory => "not a directory"
  | .isDirectory => "is a directory"
  | .notEmpty => "directory not empty"
  | .busy => "device or resource busy"

/-- A `PathError`. -/
def pathError (op : String) (path : Path) (e : Errno) : FsError where
  text := op ++ " " ++ String.ofList path ++ ": " ++ errorText e
  notExist := e = .noEntry

/-- `os.ReadFile`: a directory is opened, but not read. -/
def readFile (fs : Fs) (path : Path) : Except FsError (List UInt8) :=
  match fs.stat path with
  | .error e => .error (pathError "open" path e)
  | .ok .dir => .error (pathError "read" path .isDirectory)
  | .ok (.file data) => .ok data

/-- `os.Remove`: of a file, and else of a directory. -/
def remove (fs : Fs) (path : Path) : Except FsError Unit × Fs :=
  match fs.unlink path with
  | (.ok (), fs') => (.ok (), fs')
  | (.error e, _) =>
    match fs.rmdir path with
    | (.ok (), fs') => (.ok (), fs')
    | (.error e', _) =>
      (.error (pathError "remove" path (if e' = .notDirectory then e else e')), fs)

/-- The calls of the Go store on a file tree. -/
def serve : (c : FsCall) → Fs → c.Answer × Fs
  | .mkdirAll path, fs =>
    let made := fs.makeDirs (fs.start path) (pieces path)
    (made.1.mapError (pathError "mkdir" path), made.2)
  | .writeFile path data, fs =>
    let written := fs.write path data
    (written.1.mapError (pathError "open" path), written.2)
  | .readFile path, fs => (readFile fs path, fs)
  | .remove path, fs => remove fs path

namespace LocalBlobStore

/-- What `Get` returns, from what stands at the path of the blob and at that of its sidecar. -/
def found (codec : MetadataCodec) (path : Path) :
    Except Errno Node → Except Errno Node →
      Except String (Option (List UInt8 × Option Metadata))
  | .error e, _ =>
    if (pathError "open" path e).notExist then .ok none
    else .error ("failed to read blob: " ++ (pathError "open" path e).text)
  | .ok .dir, _ => .error ("failed to read blob: " ++ (pathError "read" path .isDirectory).text)
  | .ok (.file data), .ok (.file bytes) => .ok (some (data, (codec.unmarshal bytes).toOption))
  | .ok (.file data), _ => .ok (some (data, none))

/-- The tree in which the directories of a blob are made. -/
def madeDirs (fs : Fs) (targetPath : Path) : Fs := (serve (.mkdirAll (dir targetPath)) fs).2

/-- The trees that a sequence of `Put` and `Delete` calls leads to. -/
inductive Reached (s : LocalBlobStore) (codec : MetadataCodec) (fs₀ : Fs) : Fs → Prop
  /-- No call. -/
  | start : Reached s codec fs₀ fs₀
  /-- A `Put`, successful or not. -/
  | put {fs : Fs} (key : String) (data : List UInt8) (metadata : Option Metadata) :
      Reached s codec fs₀ fs →
        Reached s codec fs₀ ((s.put codec none key data metadata).run serve fs).2
  /-- A `Delete`, successful or not. -/
  | delete {fs : Fs} (key : String) :
      Reached s codec fs₀ fs → Reached s codec fs₀ ((s.delete none key).run serve fs).2

variable {s : LocalBlobStore} {codec : MetadataCodec} {key : String} {path : Path} {fs fs' : Fs}
  {data : List UInt8} {metadata : Option Metadata}

/-- The answer to a read on the tree. -/
lemma serve_readFile (path : Path) (fs : Fs) :
    serve (.readFile path) fs = (readFile fs path, fs) := rfl

/-- The metadata that `Get` returns, from what stands at the path of the sidecar. -/
lemma run_getMetadata (codec : MetadataCodec) (path : Path) (fs : Fs) :
    (getMetadata codec path).run serve fs = (match fs.stat (metaPath path) with
      | .ok (.file bytes) => .ok (codec.unmarshal bytes).toOption
      | _ => .ok none, fs) := by
  rw [getMetadata, Prog.run_call (serve_readFile _ fs), readFile]
  rcases fs.stat (metaPath path) with e | ⟨⟨⟩ | bytes⟩
  · rfl
  · rfl
  · rfl

/-- `Get` looks at two paths and leaves the tree as it is. -/
theorem run_get (hpath : s.resolvePath key = .ok path) :
    (s.get codec none key).run serve fs =
      (found codec path (fs.stat path) (fs.stat (metaPath path)), fs) := by
  rw [get, Prog.run_bind_of_ok (r := ()) rfl, hpath, Prog.run_bind_of_ok (Prog.run_ofExcept _),
    Prog.run_call (serve_readFile path fs), readFile]
  rcases hblob : fs.stat path with e | ⟨⟨⟩ | data⟩
  · rw [found]
    by_cases he : (pathError "open" path e).notExist = true
    · simp only [if_pos he]
      rfl
    · simp only [if_neg he]
      rfl
  · rfl
  · have hmetadata := run_getMetadata codec path fs
    rcases hsidecar : fs.stat (metaPath path) with e | ⟨⟨⟩ | bytes⟩
    all_goals
      rw [hsidecar] at hmetadata
      exact Prog.run_bind_of_ok hmetadata _

/-- A write that succeeds. -/
lemma of_run_writeFile_eq_ok {what : String}
    (h : (FsProg.writeFile what path data).run serve fs = (.ok (), fs')) :
    fs.write path data = (.ok (), fs') := by
  have hserve : serve (.writeFile path data) fs =
      ((fs.write path data).1.mapError (pathError "open" path), (fs.write path data).2) := rfl
  rw [FsProg.writeFile, Prog.run_call hserve] at h
  rcases hwritten : fs.write path data with ⟨e | _, fs₁⟩
  · rw [hwritten] at h
    cases h
  · rw [hwritten] at h
    exact Prod.ext rfl (Prod.mk.inj h).2

/-- A `Put` that succeeds has made the directories, written the blob and then, if it was given
metadata, the sidecar. -/
theorem of_put_eq_ok (hpath : s.resolvePath key = .ok path)
    (h : (s.put codec none key data metadata).run serve fs = (.ok (), fs')) :
    ∃ written, (madeDirs fs path).write path data = (.ok (), written) ∧
      match metadata with
      | none => fs' = written
      | some md => ∃ json, codec.marshal md = .ok json ∧
          written.write (metaPath path) json = (.ok (), fs') := by
  rw [put, Prog.run_bind_of_ok (r := ()) rfl, hpath,
    Prog.run_bind_of_ok (Prog.run_ofExcept _)] at h
  obtain ⟨_, made, hmade, h⟩ := Prog.of_run_bind_eq_ok h
  obtain ⟨_, written, hwritten, h⟩ := Prog.of_run_bind_eq_ok h
  have hdirs : made = madeDirs fs path := by
    have hserve : serve (.mkdirAll (dir path)) fs =
      ((serve (.mkdirAll (dir path)) fs).1, (serve (.mkdirAll (dir path)) fs).2) := rfl
    rw [FsProg.mkdirAll, Prog.run_call hserve] at hmade
    rcases hanswer : (serve (.mkdirAll (dir path)) fs).1 with e | _
    · rw [hanswer] at hmade
      cases hmade
    · rw [hanswer] at hmade
      exact (Prod.mk.inj hmade).2.symm
  refine ⟨written, hdirs ▸ of_run_writeFile_eq_ok hwritten, ?_⟩
  rcases metadata with - | md
  · exact (Prod.mk.inj h).2.symm
  · obtain ⟨json, s₁, hjson, hsidecar⟩ := Prog.of_run_bind_eq_ok h
    rw [Prog.run_ofExcept] at hjson
    obtain ⟨hmarshal, rfl⟩ := Prod.mk.inj hjson
    exact ⟨json, of_mapError_eq_ok hmarshal,
      of_run_writeFile_eq_ok hsidecar⟩

end LocalBlobStore

end Go

end GoyStore
