import GoyStore.Blob.FaultyCalls
import GoyStore.Library.Runs

/-!
# Failed puts

A `put` makes directories, writes the blob and then the sidecar, each in place, and returns at the
first failure.  Where it stops is a `Stop`: before it has touched the blob, after it, or within the
sidecar.

What `get` returns is as before only if the bytes that are left are those that stood there
(`failedPutsKeep_iff`).  When the sidecar of a second `put` cannot be written, the new data stand
beside the old metadata (`not_failedPutsKeep`), where the stores in memory and on S3 store both at
once.
-/

namespace GoyStore

open FileTree UnixPath Effects Runs

/-! ### Where a put stops -/

/-- Where a `put` stops. -/
inductive Stop where
  /-- Nowhere: it succeeds. -/
  | done
  /-- Before the file of the blob is changed. -/
  | early
  /-- With these bytes in the file of the blob, before the sidecar is changed. -/
  | afterBlob (bytes : List UInt8)
  /-- With these bytes in the sidecar, after the blob was written. -/
  | inSidecar (json : List UInt8)
  deriving DecidableEq, Repr

/-- The paths, the data and the faults of the writes of a `put`; `json` is the encoded sidecar, if
there is one, or the error of its encoding. -/
structure Writes where
  /-- The path of the blob. -/
  path : Path
  /-- The path of the sidecar. -/
  sidecar : Path
  /-- The data. -/
  data : List UInt8
  /-- The sidecar. -/
  json : Option (Except String (List UInt8))
  /-- The fault of the write of the blob. -/
  blobFault : Option Fault
  /-- The fault of the write of the sidecar. -/
  sidecarFault : List UInt8 → Option Fault

/-- Do the writes, once the directories are made; the two functions are the texts of the
failures. -/
def Writes.run (w : Writes) (blobText sidecarText : Failure → String)
    (made : Except String Unit × Fs) : Except String Unit × Fs :=
  match made with
  | (.error e, fs) => (.error e, fs)
  | (.ok (), fs) =>
    match fs.writeWith w.blobFault w.path w.data with
    | (.error e, fs') => (.error (blobText e), fs')
    | (.ok (), fs') =>
      match w.json with
      | none => (.ok (), fs')
      | some (.error e) => (.error e, fs')
      | some (.ok json) =>
        match fs'.writeWith (w.sidecarFault json) w.sidecar json with
        | (.error e, fs'') => (.error (sidecarText e), fs'')
        | (.ok (), fs'') => (.ok (), fs'')

/-- Where the writes stop, from how making the directories ends. -/
def Writes.stop (w : Writes) (made : Except String Unit × Fs) : Stop :=
  if ¬ made.1.isOk then .early
  else
    match made.2.bytesLeft w.blobFault w.path w.data with
    | none => .early
    | some bytes =>
      if w.blobFault.isSome then .afterBlob bytes
      else
        match w.json with
        | none => .done
        | some (.error _) => .afterBlob bytes
        | some (.ok json) =>
          match (made.2.write w.path w.data).2.bytesLeft (w.sidecarFault json) w.sidecar json with
          | none => .afterBlob bytes
          | some json' => if (w.sidecarFault json).isSome then .inSidecar json' else .done

/-- What the writes return and what they leave, by where they stop. -/
def Writes.Ends (w : Writes) (made : Fs) (r : Except String Unit × Fs) : Stop → Prop
  | .done => r.1 = .ok ()
  | .early => (∃ e, r.1 = .error e) ∧ r.2 = made
  | .afterBlob bytes => (∃ e, r.1 = .error e) ∧ made.write w.path bytes = (.ok (), r.2)
  | .inSidecar json => (∃ e, r.1 = .error e) ∧ ∃ written,
      made.write w.path w.data = (.ok (), written) ∧ written.write w.sidecar json = (.ok (), r.2)

/-- The writes end as they stop. -/
theorem Writes.ends_run (w : Writes) (blobText sidecarText : Failure → String)
    (made : Except String Unit × Fs) :
    w.Ends made.2 (w.run blobText sidecarText made) (w.stop made) := by
  obtain ⟨e | ⟨⟩, fs⟩ := made
  · exact ⟨⟨e, rfl⟩, rfl⟩
  rw [run, stop, if_neg (by simp [Except.isOk, Except.toBool])]
  simp only
  rcases fs.writeWith_cases w.blobFault w.path w.data with
    ⟨hfault, hleft, written, hblob, hwritten⟩ | ⟨hleft, e, hblob⟩ |
      ⟨hfault, bytes, e, fs', hleft, hblob, hwritten⟩
  · -- the blob is written, and the sidecar comes next
    simp only [hleft, hblob, hwritten]
    simp only [hfault, Option.isSome_none, Bool.false_eq_true, if_false]
    rcases w.json with - | (e | json)
    · rfl
    · exact ⟨⟨e, rfl⟩, hwritten⟩
    · simp only
      rcases written.writeWith_cases (w.sidecarFault json) w.sidecar json with
        ⟨hfault', hleft', fs'', hsidecar, -⟩ | ⟨hleft', e, hsidecar⟩ |
          ⟨hfault', bytes, e, fs'', hleft', hsidecar, hwritten'⟩
      · simp only [hleft', hsidecar]
        simp only [hfault', Option.isSome_none, Bool.false_eq_true, if_false]
        rfl
      · simp only [hleft', hsidecar]
        exact ⟨⟨_, rfl⟩, hwritten⟩
      · simp only [hleft', hfault', hsidecar, if_true]
        exact ⟨⟨_, rfl⟩, written, hwritten, hwritten'⟩
  · simp only [hleft, hblob]
    exact ⟨⟨_, rfl⟩, rfl⟩
  · simp only [hleft, hfault, hblob, if_true]
    exact ⟨⟨_, rfl⟩, hwritten⟩

/-- A file that is written does not stand at the path of a directory. -/
lemma stat_ne_dir_of_write {fs fs' : Fs} {p : Path} {data : List UInt8}
    (h : fs.write p data = (.ok (), fs')) : fs.stat p ≠ .ok .dir := by
  obtain ⟨l, name, hentry, hfree, -⟩ := Fs.of_write_eq_ok h
  rw [Fs.stat_of_entry hentry]
  rcases hnode : fs.node (l ++ [name]) with - | x
  · simp
  · intro hdir
    exact hfree (hnode.trans (congrArg some (Except.ok.inj hdir)))

/-! ### The Rust store -/

namespace Rust

namespace LocalBlobStore

/-- The writes of `LocalBlobStore::put`. -/
def writes (codec : MetadataCodec) (faults : FsCall → Option Fault) (blobPath : Path)
    (data : List UInt8) (metadata : Option Metadata) : Writes where
  path := blobPath
  sidecar := metaPath blobPath
  data := data
  json := metadata.map codec.toVec
  blobFault := faults (.write blobPath data)
  sidecarFault json := faults (.write (metaPath blobPath) json)

/-- The metadata that `get` reads from what stands at the path of the sidecar, if it can. -/
def sidecarMetadata (codec : MetadataCodec) : Except Errno Node → Option Metadata
  | .error _ => some default
  | .ok .dir => none
  | .ok (.file bytes) => some ((codec.fromSlice bytes).toOption.getD default)

/-- What a `put` leaves is not noticed: it has not made a way to what stood at the path, or it has
left the file of the blob and what is read from its sidecar as they were. -/
def Unnoticed (codec : MetadataCodec) (fs made : Fs) (w : Writes) : Stop → Prop
  | .done => True
  | .early => (made.stat w.path).isOk → (fs.stat w.path).isOk
  | .afterBlob bytes => ∃ old, fs.stat w.path = .ok (.file old) ∧
    (old = bytes ∨ fs.stat w.sidecar = .ok .dir)
  | .inSidecar json => fs.stat w.path = .ok (.file w.data) ∧
    sidecarMetadata codec (fs.stat w.sidecar) = some ((codec.fromSlice json).toOption.getD default)

/-- If the call is a `put` that returns an error, `get` returns what it returned before. -/
def KeepsOnError (st : LocalBlobStore) (codec : MetadataCodec) (fs : Fs) : Call → Prop
  | .put faults key data metadata =>
    let r := (st.put codec key data metadata).run (serveWith faults) fs
    (∃ e, r.1 = .error e) →
      ((st.get codec key).run serve r.2).1 = ((st.get codec key).run serve fs).1
  | _ => True

/-- If the call is a `put` of an accepted key, what it leaves where it stops is not noticed. -/
def StopsUnnoticed (st : LocalBlobStore) (codec : MetadataCodec) (fs : Fs) : Call → Prop
  | .put faults key data metadata => ∀ path, st.resolvePath key = .ok path →
    let made := makeParents faults fs path
    let w := writes codec faults path data metadata
    Unnoticed codec fs made.2 w (w.stop made)
  | _ => True

variable {st : LocalBlobStore} {codec : MetadataCodec} {key : String} {path : Path} {fs : Fs}
  {faults : FsCall → Option Fault} {data : List UInt8} {metadata : Option Metadata}

/-- A write with faults. -/
lemma run_writeWith (faults : FsCall → Option Fault) (path : Path) (data : List UInt8) (fs : Fs) :
    (FsProg.write path data).run (serveWith faults) fs =
      ((fs.writeWith (faults (.write path data)) path data).1.mapError failureText,
        (fs.writeWith (faults (.write path data)) path data).2) :=
  Prog.run_ofExcept _

/-- Making the parent directories with faults. -/
lemma run_makeParents (faults : FsCall → Option Fault) (path : Path) (fs : Fs) :
    ((parent path).forM FsProg.createDirAll).run (serveWith faults) fs =
      makeParents faults fs path := by
  rw [makeParents]
  rcases parent path with - | dir
  · rfl
  · exact Prog.run_ofExcept _

/-- A `put` of an accepted key makes the parent directories and does its writes. -/
lemma run_put (hpath : st.resolvePath key = .ok path) :
    (st.put codec key data metadata).run (serveWith faults) fs =
      (writes codec faults path data metadata).run failureText failureText
        (makeParents faults fs path) := by
  rw [put, hpath, Prog.run_bind_of_ok (Prog.run_ofExcept _)]
  have hparents := run_makeParents faults path fs
  rcases hmade : makeParents faults fs path with ⟨e | ⟨⟩, made⟩
  · rw [hmade] at hparents
    exact Prog.run_bind_of_error hparents _
  rw [hmade] at hparents
  refine (Prog.run_bind_of_ok hparents _).trans ?_
  have hblob := run_writeWith faults path data made
  simp only [Writes.run, writes]
  rcases hwritten : made.writeWith (faults (.write path data)) path data with ⟨e | ⟨⟩, written⟩
  · rw [hwritten] at hblob
    exact Prog.run_bind_of_error hblob _
  rw [hwritten] at hblob
  refine (Prog.run_bind_of_ok hblob _).trans ?_
  rcases metadata with - | md
  · rfl
  simp only [Option.forM, Option.map_some]
  rcases hjson : codec.toVec md with e | json
  · exact Prog.run_bind_of_error (Prog.run_ofExcept _) _
  refine (Prog.run_bind_of_ok (Prog.run_ofExcept _) _).trans ?_
  rw [run_writeWith]
  simp only
  rcases written.writeWith (faults (.write (metaPath path) json)) (metaPath path) json with
    ⟨e | ⟨⟩, written'⟩
  · rfl
  · rfl

/-- Nothing is found exactly where nothing stands. -/
lemma found_eq_none_iff (blob sidecar : Except Errno Node) :
    found codec blob sidecar = .ok none ↔ ¬ blob.isOk = true := by
  rcases blob with e | ⟨⟨⟩ | data⟩
  · simp [found, Except.isOk, Except.toBool]
  · simp [found, Except.isOk, Except.toBool]
  · rcases sidecar with e | ⟨⟨⟩ | bytes⟩
    all_goals simp [found, Except.isOk, Except.toBool]

/-- New data beside an old sidecar are not noticed if they are the old data, or if the sidecar
cannot be read. -/
lemma found_new_data_iff (new old : List UInt8) (sidecar : Except Errno Node) :
    found codec (.ok (.file new)) sidecar = found codec (.ok (.file old)) sidecar ↔
      old = new ∨ sidecar = .ok .dir := by
  rcases sidecar with e | ⟨⟨⟩ | bytes⟩
  · simp [found, eq_comm]
  · simp [found]
  · simp [found, eq_comm]

/-- New data beside a new sidecar are not noticed if they are the old data and the sidecar gives the
old metadata. -/
lemma found_new_sidecar_iff (new old json : List UInt8) (sidecar : Except Errno Node) :
    found codec (.ok (.file new)) (.ok (.file json)) = found codec (.ok (.file old)) sidecar ↔
      old = new ∧
        sidecarMetadata codec sidecar = some ((codec.fromSlice json).toOption.getD default) := by
  rcases sidecar with e | ⟨⟨⟩ | bytes⟩
  · simp [found, sidecarMetadata, eq_comm]
  · simp [found, sidecarMetadata]
  · simp [found, sidecarMetadata, eq_comm]

/-- A `put` that returns an error keeps what `get` returns if and only if what it leaves where it
stops is not noticed. -/
lemma keepsOnError_put_iff (hpath : st.resolvePath key = .ok path) :
    st.KeepsOnError codec fs (.put faults key data metadata) ↔
      Unnoticed codec fs (makeParents faults fs path).2 (writes codec faults path data metadata)
        ((writes codec faults path data metadata).stop (makeParents faults fs path)) := by
  have hends := (writes codec faults path data metadata).ends_run failureText failureText
    (makeParents faults fs path)
  rw [← run_put hpath] at hends
  have hmade : ∀ x, fs.stat path = .ok x → (makeParents faults fs path).2 = fs :=
    fun x hx => makeParents_of_stat faults hx
  simp only [KeepsOnError]
  generalize (st.put codec key data metadata).run (serveWith faults) fs = r at hends ⊢
  generalize (writes codec faults path data metadata).stop (makeParents faults fs path) = stop
    at hends ⊢
  generalize (makeParents faults fs path).2 = made at hends hmade ⊢
  rw [run_get hpath, run_get hpath]
  rcases stop with - | - | bytes | json
  · -- the `put` succeeds
    refine ⟨fun _ => trivial, fun _ he => ?_⟩
    obtain ⟨e, he⟩ := he
    rw [show r.1 = .ok () from hends] at he
    cases he
  · obtain ⟨herror, hr⟩ := hends
    rw [hr, forall_prop_of_true herror]
    rcases hblob : fs.stat path with e | x
    · have hnone : found codec (.error e) (fs.stat (metaPath path)) = .ok none := rfl
      rw [hnone, found_eq_none_iff]
      simp [Unnoticed, writes, hblob, Except.isOk, Except.toBool]
    · rw [hmade x hblob, hblob]
      simp [Unnoticed, writes, hblob, Except.isOk, Except.toBool]
  · obtain ⟨herror, hwritten⟩ := hends
    obtain ⟨hnew, hold⟩ :=
      stat_of_write slash_notMem_metaSuffix two_lt_length_metaSuffix hwritten
    have hdir := stat_ne_dir_of_write hwritten
    simp only [writes] at hnew hold hdir
    rw [forall_prop_of_true herror, hnew, metaPath, hold]
    rcases hblob : fs.stat path with e | ⟨⟨⟩ | old⟩
    · have hsome : found codec (.ok (.file bytes)) (made.stat (path ++ metaSuffix)) ≠ .ok none := by
        rw [Ne, found_eq_none_iff]
        simp [Except.isOk, Except.toBool]
      simp only [Unnoticed, writes, hblob, reduceCtorEq, false_and, exists_false, iff_false]
      exact hsome
    · rw [hmade _ hblob] at hdir
      exact absurd hblob hdir
    · rw [hmade _ hblob, found_new_data_iff]
      simp [Unnoticed, writes, hblob, metaPath]
  · obtain ⟨herror, written, hwritten, hsidecar⟩ := hends
    obtain ⟨hnew, hjson⟩ :=
      stat_of_write_both slash_notMem_metaSuffix two_lt_length_metaSuffix hwritten hsidecar
    have hdir := stat_ne_dir_of_write hwritten
    simp only [writes] at hnew hjson hdir
    rw [forall_prop_of_true herror, hnew, metaPath, hjson]
    rcases hblob : fs.stat path with e | ⟨⟨⟩ | old⟩
    · have hsome : found codec (.ok (.file data)) (.ok (.file json)) ≠ .ok none := by
        rw [Ne, found_eq_none_iff]
        simp [Except.isOk, Except.toBool]
      simp only [Unnoticed, writes, hblob, reduceCtorEq, false_and, iff_false]
      exact hsome
    · rw [hmade _ hblob] at hdir
      exact absurd hblob hdir
    · rw [found_new_sidecar_iff]
      simp [Unnoticed, writes, hblob, metaPath]

/-- A call keeps what `get` returns, if it is a `put` that returns an error, if and only if what it
leaves is not noticed. -/
lemma keepsOnError_iff (st : LocalBlobStore) (codec : MetadataCodec) (fs : Fs) (call : Call) :
    st.KeepsOnError codec fs call ↔ st.StopsUnnoticed codec fs call := by
  rcases call with ⟨faults, key, data, metadata⟩ | - | -
  · rcases hpath : st.resolvePath key with e | path
    · -- a rejected key changes nothing
      have hput : (st.put codec key data metadata).run (serveWith faults) fs = (.error e, fs) := by
        rw [put, hpath]
        rfl
      simp [KeepsOnError, StopsUnnoticed, hput, hpath]
    · rw [keepsOnError_put_iff hpath]
      simp only [StopsUnnoticed, hpath, Except.ok.injEq, forall_eq']
  · exact Iff.rfl
  · exact Iff.rfl

end LocalBlobStore

end Rust

/-! ### The Go store -/

namespace Go

namespace LocalBlobStore

/-- The writes of `LocalBlobStore.Put`. -/
def writes (codec : MetadataCodec) (faults : FsCall → Option Fault) (targetPath : Path)
    (data : List UInt8) (metadata : Option Metadata) : Writes where
  path := targetPath
  sidecar := metaPath targetPath
  data := data
  json := metadata.map fun md =>
    (codec.marshal md).mapError ("failed to marshal blob metadata: " ++ ·)
  blobFault := faults (.writeFile targetPath data)
  sidecarFault json := faults (.writeFile (metaPath targetPath) json)

/-- The metadata that `Get` reads from what stands at the path of the sidecar. -/
def sidecarMetadata (codec : MetadataCodec) : Except Errno Node → Option Metadata
  | .ok (.file bytes) => (codec.unmarshal bytes).toOption
  | _ => none

/-- What a `Put` leaves is not noticed: it has left the file of the blob and what is read from its
sidecar as they were. -/
def Unnoticed (codec : MetadataCodec) (fs : Fs) (w : Writes) : Stop → Prop
  | .done => True
  | .early => True
  | .afterBlob bytes => fs.stat w.path = .ok (.file bytes)
  | .inSidecar json => fs.stat w.path = .ok (.file w.data) ∧
    sidecarMetadata codec (fs.stat w.sidecar) = (codec.unmarshal json).toOption

/-- If the call is a `Put` that returns an error, `Get` returns what it returned before. -/
def KeepsOnError (s : LocalBlobStore) (codec : MetadataCodec) (fs : Fs) : Call → Prop
  | .put faults key data metadata =>
    let r := (s.put codec none key data metadata).run (serveWith faults) fs
    (∃ e, r.1 = .error e) →
      ((s.get codec none key).run serve r.2).1 = ((s.get codec none key).run serve fs).1
  | _ => True

/-- If the call is a `Put` of an accepted key, what it leaves where it stops is not noticed. -/
def StopsUnnoticed (s : LocalBlobStore) (codec : MetadataCodec) (fs : Fs) : Call → Prop
  | .put faults key data metadata => ∀ path, s.resolvePath key = .ok path →
    let w := writes codec faults path data metadata
    Unnoticed codec fs w (w.stop (makeParents faults fs path))
  | _ => True

variable {s : LocalBlobStore} {codec : MetadataCodec} {key : String} {path : Path} {fs : Fs}
  {faults : FsCall → Option Fault} {data : List UInt8} {metadata : Option Metadata}

/-- A write with faults. -/
lemma run_writeWith (faults : FsCall → Option Fault) (what : String) (path : Path)
    (data : List UInt8) (fs : Fs) :
    (FsProg.writeFile what path data).run (serveWith faults) fs =
      ((fs.writeWith (faults (.writeFile path data)) path data).1.mapError fun e =>
          what ++ ": " ++ (failure "open" path e).text,
        (fs.writeWith (faults (.writeFile path data)) path data).2) := by
  have hserve : serveWith faults (.writeFile path data) fs =
      ((fs.writeWith (faults (.writeFile path data)) path data).1.mapError (failure "open" path),
        (fs.writeWith (faults (.writeFile path data)) path data).2) := rfl
  rw [FsProg.writeFile, Prog.run_call hserve]
  rcases fs.writeWith (faults (.writeFile path data)) path data with ⟨e | ⟨⟩, fs'⟩
  · rfl
  · rfl

/-- Making the parent directories with faults. -/
lemma run_makeParents (faults : FsCall → Option Fault) (path : Path) (fs : Fs) :
    (FsProg.mkdirAll "failed to create directories for blob" (dir path)).run
      (serveWith faults) fs = makeParents faults fs path := by
  have hserve : serveWith faults (.mkdirAll (dir path)) fs =
      ((serveWith faults (.mkdirAll (dir path)) fs).1,
        (serveWith faults (.mkdirAll (dir path)) fs).2) := rfl
  rw [FsProg.mkdirAll, Prog.run_call hserve, makeParents]
  rcases (serveWith faults (.mkdirAll (dir path)) fs).1 with e | ⟨⟩
  · rfl
  · rfl

/-- A `Put` of an accepted key makes the parent directories and does its writes. -/
lemma run_put (hpath : s.resolvePath key = .ok path) :
    (s.put codec none key data metadata).run (serveWith faults) fs =
      (writes codec faults path data metadata).run
        (fun e => "failed to write blob file: " ++ (failure "open" path e).text)
        (fun e => "failed to write blob metadata: " ++ (failure "open" (metaPath path) e).text)
        (makeParents faults fs path) := by
  rw [put, Prog.run_bind_of_ok (r := ()) rfl, hpath, Prog.run_bind_of_ok (Prog.run_ofExcept _)]
  have hparents := run_makeParents faults path fs
  rcases hmade : makeParents faults fs path with ⟨e | ⟨⟩, made⟩
  · rw [hmade] at hparents
    exact Prog.run_bind_of_error hparents _
  rw [hmade] at hparents
  refine (Prog.run_bind_of_ok hparents _).trans ?_
  have hblob := run_writeWith faults "failed to write blob file" path data made
  simp only [Writes.run, writes]
  rcases hwritten : made.writeWith (faults (.writeFile path data)) path data with
    ⟨e | ⟨⟩, written⟩
  · rw [hwritten] at hblob
    exact Prog.run_bind_of_error hblob _
  rw [hwritten] at hblob
  refine (Prog.run_bind_of_ok hblob _).trans ?_
  rcases metadata with - | md
  · rfl
  simp only [Option.forM, Option.map_some]
  rcases hjson : codec.marshal md with e | json
  · exact Prog.run_bind_of_error (Prog.run_ofExcept _) _
  refine (Prog.run_bind_of_ok (Prog.run_ofExcept _) _).trans ?_
  rw [run_writeWith]
  simp only [Except.mapError]
  rcases written.writeWith (faults (.writeFile (metaPath path) json)) (metaPath path) json with
    ⟨e | ⟨⟩, written'⟩
  · rfl
  · rfl

/-- What `Get` returns for a file, from its data and its sidecar. -/
lemma found_file (data : List UInt8) (sidecar : Except Errno Node) :
    found codec path (.ok (.file data)) sidecar =
      .ok (some (data, sidecarMetadata codec sidecar)) := by
  rcases sidecar with e | ⟨⟨⟩ | bytes⟩
  all_goals rfl

/-- `Get` returns data and metadata exactly if a file with the data stands at the path, and its
sidecar gives the metadata. -/
lemma found_eq_file_iff (blob sidecar : Except Errno Node) (data : List UInt8)
    (metadata : Option Metadata) :
    found codec path blob sidecar = .ok (some (data, metadata)) ↔
      blob = .ok (.file data) ∧ sidecarMetadata codec sidecar = metadata := by
  rcases blob with e | ⟨⟨⟩ | old⟩
  · rw [found]
    split_ifs <;> simp
  · simp [found]
  · rw [found_file]
    simp

/-- A `Put` that returns an error keeps what `Get` returns if and only if what it leaves where it
stops is not noticed. -/
lemma keepsOnError_put_iff (hpath : s.resolvePath key = .ok path) :
    s.KeepsOnError codec fs (.put faults key data metadata) ↔
      Unnoticed codec fs (writes codec faults path data metadata)
        ((writes codec faults path data metadata).stop (makeParents faults fs path)) := by
  have hends := (writes codec faults path data metadata).ends_run
    (fun e => "failed to write blob file: " ++ (failure "open" path e).text)
    (fun e => "failed to write blob metadata: " ++ (failure "open" (metaPath path) e).text)
    (makeParents faults fs path)
  rw [← run_put hpath] at hends
  obtain ⟨hblobMade, hsidecarMade⟩ := stat_makeParents faults fs hpath
  simp only [KeepsOnError]
  generalize (s.put codec none key data metadata).run (serveWith faults) fs = r at hends ⊢
  generalize (writes codec faults path data metadata).stop (makeParents faults fs path) = stop
    at hends ⊢
  generalize (makeParents faults fs path).2 = made at hends hblobMade hsidecarMade
  rw [run_get hpath, run_get hpath]
  rcases stop with - | - | bytes | json
  · -- the `Put` succeeds
    refine ⟨fun _ => trivial, fun _ he => ?_⟩
    obtain ⟨e, he⟩ := he
    rw [show r.1 = .ok () from hends] at he
    cases he
  · obtain ⟨herror, hr⟩ := hends
    rw [hr, forall_prop_of_true herror, hblobMade, hsidecarMade]
    simp [Unnoticed]
  · obtain ⟨herror, hwritten⟩ := hends
    obtain ⟨hnew, hold⟩ :=
      stat_of_write slash_notMem_metaSuffix two_lt_length_metaSuffix hwritten
    simp only [writes] at hnew hold
    rw [forall_prop_of_true herror, hnew, metaPath, hold, ← metaPath, hsidecarMade, found_file,
      eq_comm, found_eq_file_iff]
    exact and_iff_left rfl
  · obtain ⟨herror, written, hwritten, hsidecar⟩ := hends
    obtain ⟨hnew, hjson⟩ :=
      stat_of_write_both slash_notMem_metaSuffix two_lt_length_metaSuffix hwritten hsidecar
    simp only [writes] at hnew hjson
    rw [forall_prop_of_true herror, hnew, metaPath, hjson, found_file, eq_comm, found_eq_file_iff]
    rfl

/-- A call keeps what `Get` returns, if it is a `Put` that returns an error, if and only if what it
leaves is not noticed. -/
lemma keepsOnError_iff (s : LocalBlobStore) (codec : MetadataCodec) (fs : Fs) (call : Call) :
    s.KeepsOnError codec fs call ↔ s.StopsUnnoticed codec fs call := by
  rcases call with ⟨faults, key, data, metadata⟩ | - | -
  · rcases hpath : s.resolvePath key with e | path
    · -- a rejected key changes nothing
      have hput : (s.put codec none key data metadata).run (serveWith faults) fs =
          (.error e, fs) := by
        rw [put, Prog.run_bind_of_ok (r := ()) rfl, hpath]
        rfl
      simp [KeepsOnError, StopsUnnoticed, hput, hpath]
    · rw [keepsOnError_put_iff hpath]
      simp only [StopsUnnoticed, hpath, Except.ok.injEq, forall_eq']
  · exact Iff.rfl
  · exact Iff.rfl

end LocalBlobStore

end Go

/-! ### Both stores -/

/-- In every run of both stores, with any faults, a `put` that returns an error keeps what `get`
returns, each time, if and only if each time what it leaves where it stops is not noticed. -/
theorem failedPutsKeep_iff (fs : Fs) :
    (∀ (st : Rust.LocalBlobStore) (codec : Rust.MetadataCodec)
      (calls : List Rust.LocalBlobStore.Call),
      StepsMeet (st.step codec) (st.KeepsOnError codec) fs calls ↔
        StepsMeet (st.step codec) (st.StopsUnnoticed codec) fs calls) ∧
    (∀ (s : Go.LocalBlobStore) (codec : Go.MetadataCodec) (calls : List Go.LocalBlobStore.Call),
      StepsMeet (s.step codec) (s.KeepsOnError codec) fs calls ↔
        StepsMeet (s.step codec) (s.StopsUnnoticed codec) fs calls) :=
  ⟨fun st codec => stepsMeet_congr (Rust.LocalBlobStore.keepsOnError_iff st codec) fs,
    fun s codec => stepsMeet_congr (Go.LocalBlobStore.keepsOnError_iff s codec) fs⟩

/-- The write of the sidecar of `a` under `data` fails. -/
def Rust.sidecarFails : Rust.FsCall → Option Fault
  | .write path _ =>
    if path = "data/a.meta.json".toList then
      some (.refused "No space left on device (os error 28)")
    else none
  | _ => none

/-- The write of the sidecar of `a` under `data` fails. -/
def Go.sidecarFails : Go.FsCall → Option Fault
  | .writeFile path _ =>
    if path = "data/a.meta.json".toList then some (.refused "no space left on device") else none
  | _ => none

/-- In both stores under `data`, the blob `a` is put, and a second `put` returns an error since its
sidecar cannot be written; `get` then returns the data of the second. -/
theorem not_failedPutsKeep :
    ¬ StepsMeet (Rust.LocalBlobStore.step ⟨"data".toList⟩ Rust.plainCodec)
      (Rust.LocalBlobStore.KeepsOnError ⟨"data".toList⟩ Rust.plainCodec) Fs.empty
      [.put (fun _ => none) "a" [1] (some Rust.plainText),
        .put Rust.sidecarFails "a" [2] (some Rust.plainText)] ∧
    ¬ StepsMeet (Go.LocalBlobStore.step (.new "data".toList) Go.plainCodec)
      (Go.LocalBlobStore.KeepsOnError (.new "data".toList) Go.plainCodec) Fs.empty
      [.put (fun _ => none) "a" [1] (some Go.plainText),
        .put Go.sidecarFails "a" [2] (some Go.plainText)] := by
  constructor
  · intro h
    have hkept := h [.put (fun _ => none) "a" [1] (some Rust.plainText)] _ _ _ List.prefix_rfl rfl
      rfl ⟨_, rfl⟩
    have hdata := congrArg (fun r => r.toOption.map (Option.map Prod.fst)) hkept
    revert hdata
    decide
  · intro h
    have hkept := h [.put (fun _ => none) "a" [1] (some Go.plainText)] _ _ _ List.prefix_rfl rfl
      rfl ⟨_, rfl⟩
    have hdata := congrArg (fun r => r.toOption.map (Option.map Prod.fst)) hkept
    revert hdata
    decide

end GoyStore
