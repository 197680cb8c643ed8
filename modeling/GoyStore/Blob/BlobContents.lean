import GoyStore.Blob.DeletedBlobs
import GoyStore.Blob.FailedPuts
import GoyStore.Blob.HealthProbe
import GoyStore.Library.FileContents

/-!
# What the local blob stores hold

A `put` that succeeds assigns the data to the place of the blob and, when metadata are given, their
encoding to the place of the sidecar; a `delete` removes what is at the two places.  Keys meet only
where their places do, so that a blob can also be the sidecar of another one.

After any calls that succeed, `get` returns for every key what these assignments leave at its two
places: the data that were put last and not deleted since, with the metadata that were put last and
not deleted since, although a later `put` may have had none (`get_after_calls`).  Only what is no
file can be in its way.
-/

namespace GoyStore

open FileTree UnixPath Effects Runs

/-! ### Assignments -/

/-- The bytes of the files. -/
abbrev FileBytes := Place → Option (List UInt8)

/-- What a `put` assigns. -/
def storeAt (blob sidecar : Place) (data : List UInt8) (json : Option (List UInt8))
    (files : FileBytes) : FileBytes :=
  match json with
  | none => Function.update files blob (some data)
  | some json => Function.update (Function.update files blob (some data)) sidecar (some json)

/-- The last piece of the path is a name. -/
def EndsProperly (p : Path) : Prop := IsName ((pieces p).getLastD [])

instance (p : Path) : Decidable (EndsProperly p) := inferInstanceAs (Decidable (IsName _))

/-- A path that ends properly ends with a name. -/
lemma endsWithName_iff (p : Path) : EndsWithName p ↔ EndsProperly p := by
  have hsplit := List.dropLast_append_getLast (pieces_ne_nil p)
  have hlast : (pieces p).getLastD [] = (pieces p).getLast (pieces_ne_nil p) := by
    rw [List.getLastD_eq_getLast?, List.getLast?_eq_some_getLast (pieces_ne_nil p),
      Option.getD_some]
  rw [EndsProperly, hlast]
  constructor
  · rintro ⟨name, hname, hpieces⟩
    obtain ⟨-, heq⟩ := List.append_inj' (hsplit.trans hpieces) rfl
    exact List.singleton_inj.mp heq ▸ hname
  · exact fun hname => ⟨_, hname, hsplit.symm⟩

variable {fs fs' : Fs} {w : Writes} {blobText sidecarText : Failure → String}
  {made : Except String Unit × Fs}

/-- Writes that succeed have written the blob and, if there is one, the sidecar as it was given. -/
lemma Writes.exists_json_of_run (h : w.run blobText sidecarText made = (.ok (), fs')) :
    ∃ written, made.2.write w.path w.data = (.ok (), written) ∧
      (w.json = none ∧ fs' = written ∨
        ∃ json, w.json = some (.ok json) ∧ written.write w.sidecar json = (.ok (), fs')) := by
  obtain ⟨e | ⟨⟩, fs⟩ := made
  · cases h
  rw [run] at h
  rcases fs.writeWith_cases w.blobFault w.path w.data with
    ⟨-, -, written, hblob, hwritten⟩ | ⟨-, e, hblob⟩ | ⟨-, bytes, e, written, -, hblob, -⟩
  · refine ⟨written, hwritten, ?_⟩
    rw [hblob] at h
    rcases hjson : w.json with - | (e | json)
    · simp only [hjson] at h
      exact .inl ⟨rfl, (Prod.mk.inj h).2.symm⟩
    · simp only [hjson] at h
      cases h
    · simp only [hjson] at h
      rcases written.writeWith_cases (w.sidecarFault json) w.sidecar json with
        ⟨-, -, fs₂, hsidecar, hwritten'⟩ | ⟨-, e, hsidecar⟩ | ⟨-, bytes, e, fs₂, -, hsidecar, -⟩
      all_goals rw [hsidecar] at h
      · obtain rfl := (Prod.mk.inj h).2
        exact .inr ⟨json, rfl, hwritten'⟩
      · cases h
      · cases h
  · rw [hblob] at h
    cases h
  · rw [hblob] at h
    cases h

/-- Writes that succeed assign the data and the sidecar. -/
lemma Writes.contents_of_run (h : w.run blobText sidecarText made = (.ok (), fs'))
    (hcwd : made.2.cwd = fs.cwd) (hfiles : made.2.contents = fs.contents) :
    fs'.contents = storeAt (fs.placeOf w.path) (fs.placeOf w.sidecar) w.data
      (w.json.bind Except.toOption) fs.contents := by
  obtain ⟨written, hwritten, hsidecar⟩ := Writes.exists_json_of_run h
  have hblob := Fs.contents_write hwritten
  rw [hfiles, Fs.placeOf_congr hcwd] at hblob
  obtain ⟨-, -, -, -, hcwd', -⟩ := Fs.of_write_eq_ok hwritten
  rcases hsidecar with ⟨hjson, rfl⟩ | ⟨json, hjson, hsidecar⟩
  · rw [hjson]
    exact hblob
  · rw [hjson, Fs.contents_write hsidecar, hblob, Fs.placeOf_congr (hcwd'.trans hcwd)]
    rfl

/-- Writes that succeed keep the directories and the working directory. -/
lemma Writes.dirs_of_run (h : w.run blobText sidecarText made = (.ok (), fs')) :
    fs'.cwd = made.2.cwd ∧ ∀ x, made.2.node x = some .dir → fs'.node x = some .dir := by
  obtain ⟨written, hwritten, hsidecar⟩ := Writes.exists_json_of_run h
  obtain ⟨-, -, -, -, hcwd, -⟩ := Fs.of_write_eq_ok hwritten
  rcases hsidecar with ⟨-, rfl⟩ | ⟨json, -, hsidecar⟩
  · exact ⟨hcwd, fun x => Fs.dir_of_write hwritten⟩
  · obtain ⟨-, -, -, -, hcwd', -⟩ := Fs.of_write_eq_ok hsidecar
    exact ⟨hcwd'.trans hcwd, fun x hx => Fs.dir_of_write hsidecar (Fs.dir_of_write hwritten hx)⟩

/-- The removal of what is at a place, or of nothing when there is no file, is an assignment. -/
lemma contents_of_removal {x : Place}
    (h : Fs.Without fs fs' x ∨ fs' = fs ∧ ∀ data, fs.node x ≠ some (.file data)) :
    fs'.contents = Function.update fs.contents x none := by
  rcases h with hgone | ⟨rfl, hnone⟩
  · exact Fs.contents_without hgone
  · have hx : fs'.contents x = none :=
      Option.eq_none_iff_forall_ne_some.mpr fun data hdata =>
        hnone data (Fs.contents_eq_some_iff.mp hdata)
    exact (Function.update_eq_self_iff.mpr hx.symm).symm

/-! ### The Rust store -/

namespace Rust

namespace LocalBlobStore

/-- What a call that succeeds assigns, in trees with the working directory of `fs`. -/
def Call.assign (st : LocalBlobStore) (codec : MetadataCodec) (fs : Fs) (files : FileBytes) :
    Call → FileBytes
  | .put _ key data metadata =>
    match st.resolvePath key with
    | .ok path => storeAt (fs.placeOf path) (fs.placeOf (metaPath path)) data
        (metadata.bind fun md => (codec.toVec md).toOption) files
    | .error _ => files
  | .delete _ key =>
    match st.resolvePath key with
    | .ok path =>
      -- a path that ends in a slash is not that of a file
      let files' :=
        if EndsProperly path then Function.update files (fs.placeOf path) none else files
      Function.update files' (fs.placeOf (metaPath path)) none
    | .error _ => files
  | .isHealthy _ _ => files

/-- The call is a `put` or a `delete` that returns `Ok`, and if it is a `delete`, no removal is
refused. -/
def Settles (st : LocalBlobStore) (codec : MetadataCodec) (fs : Fs) : Call → Prop
  | .put faults key data metadata =>
    ((st.put codec key data metadata).run (serveWith faults) fs).1 = .ok ()
  | .delete faults key =>
    ((st.delete key).run (serveWith faults) fs).1 = .ok () ∧
      ∀ path, st.resolvePath key = .ok path →
        faults (.removeFile path) = none ∧ faults (.removeFile (metaPath path)) = none
  | .isHealthy _ _ => False

/-- What `get` returns for bytes of a blob and of a sidecar. -/
def answer (codec : MetadataCodec) (blob sidecar : Option (List UInt8)) :
    Option (List UInt8 × Metadata) :=
  blob.map fun data => (data,
    (sidecar.bind fun json => (codec.fromSlice json).toOption).getD default)

variable {st : LocalBlobStore} {codec : MetadataCodec} {faults : FsCall → Option Fault}
  {key : String} {path : Path} {data : List UInt8} {metadata : Option Metadata} {fs₀ : Fs}
  {files : FileBytes}

/-- Making the parent directories of a blob keeps the contents and the directories. -/
lemma makeParents_contents (faults : FsCall → Option Fault) (fs : Fs) (path : Path) :
    (makeParents faults fs path).2.contents = fs.contents ∧
      ∀ x, fs.node x = some .dir → (makeParents faults fs path).2.node x = some .dir := by
  rw [makeParents]
  rcases parent path with - | dir
  · exact ⟨rfl, fun _ => id⟩
  · obtain ⟨n, hn⟩ := Fs.exists_makeDirsWith fs (faults (.createDirAll dir)) (origin fs dir)
      (dir.map componentPiece)
    have hmade : (serveWith faults (.createDirAll dir) fs).2 = _ := hn
    refine ⟨Fs.contents_makeDirsWith .., fun x hx => ?_⟩
    simp only [hmade]
    exact Fs.node_makeDirs hx

/-- Under a settled base, a file at the place of a path is found by the path, if it ends in a
name. -/
lemma stat_of_contents (hbase : Settled fs st.basePath) (hpath : st.resolvePath key = .ok path) :
    (EndsProperly path → fs.contents (fs.placeOf path) = some data →
      fs.stat path = .ok (.file data)) ∧
    (fs.contents (fs.placeOf (metaPath path)) = some data →
      fs.stat (metaPath path) = .ok (.file data)) := by
  obtain ⟨qs, rs, l, hrs, hanchored⟩ := anchored_of_resolvePath hbase hpath
  have hsidecar := hanchored.append hrs slash_notMem_metaSuffix two_lt_length_metaSuffix
  have hname := endsWithName_append path slash_notMem_metaSuffix two_lt_length_metaSuffix
  refine ⟨fun hends hdata => ?_, fun hdata => ?_⟩
  · exact (hanchored.stat_eq_ok_iff hrs ((endsWithName_iff path).mpr hends)).mpr
      (Fs.contents_eq_some_iff.mp hdata)
  · exact (hsidecar.stat_eq_ok_iff (by simp) hname).mpr (Fs.contents_eq_some_iff.mp hdata)

/-- A path to a file ends in a name. -/
lemma endsProperly_of_stat (h : fs.stat path = .ok (.file data)) : EndsProperly path := by
  obtain ⟨l, name, hentry⟩ := Fs.exists_entry_of_stat h
  obtain ⟨-, -, -, hname, hpieces, -⟩ := Fs.of_entry_eq_ok hentry
  refine (endsWithName_iff path).mp ⟨name, hname, ?_⟩
  rw [hpieces, List.dropLast_concat]

/-- A removal that is not refused assigns nothing to the place of the path. -/
lemma contents_removed (hfault : faults (.removeFile path) = none)
    (hstat : ∀ data, fs.contents (fs.placeOf path) = some data →
      fs.stat path = .ok (.file data)) :
    (removed faults fs path).contents = Function.update fs.contents (fs.placeOf path) none := by
  rcases removed_cases faults fs path with ⟨data, -, -, -, hgone⟩ | ⟨hkept, hsame⟩
  · exact contents_of_removal (.inl hgone)
  · refine contents_of_removal (.inr ⟨hsame, fun data hdata => ?_⟩)
    exact hkept data (hstat data (Fs.contents_eq_some_iff.mpr hdata)) hfault

/-- At a path that does not end in a name nothing is removed. -/
lemma removed_of_not_endsProperly (hends : ¬ EndsProperly path) :
    removed faults fs path = fs := by
  rcases removed_cases faults fs path with ⟨data, hstat, -⟩ | ⟨-, hsame⟩
  · exact absurd (endsProperly_of_stat hstat) hends
  · exact hsame

/-- The base is settled, and the files hold what has been assigned. -/
structure HoldsFiles (st : LocalBlobStore) (fs₀ fs : Fs) (files : FileBytes) : Prop where
  /-- The base is settled. -/
  settled : Settled fs st.basePath
  /-- The working directory is the same. -/
  cwd : fs.cwd = fs₀.cwd
  /-- What the files hold. -/
  contents : fs.contents = files

/-- A settled base stays so when directories are kept. -/
lemma settled_of_dirs {base : Path} (h : Settled fs base) (hcwd : fs'.cwd = fs.cwd)
    (hdirs : ∀ x, fs.node x = some .dir → fs'.node x = some .dir) : Settled fs' base :=
  h.imp_right (Fs.stat_of_dirs hdirs hcwd)

/-- A call that succeeds assigns. -/
theorem HoldsFiles.step {call : Call} (h : st.HoldsFiles fs₀ fs files)
    (hcall : st.Settles codec fs call) (hstep : st.step codec fs call = some fs') :
    st.HoldsFiles fs₀ fs' (call.assign st codec fs₀ files) := by
  have hplace := Fs.placeOf_congr h.cwd
  obtain rfl := h.contents
  rcases call with ⟨faults, key, data, metadata⟩ | ⟨faults, key⟩ | ⟨faults, latency⟩
  · have hrun : (st.put codec key data metadata).run (serveWith faults) fs = (.ok (), fs') :=
      Prod.ext hcall (Option.some.inj hstep)
    rcases hpath : st.resolvePath key with e | path
    · rw [put, hpath] at hrun
      cases hrun
    rw [run_put hpath] at hrun
    obtain ⟨hfiles, hdirs⟩ := makeParents_contents faults fs path
    have hcwd : (makeParents faults fs path).2.cwd = fs.cwd := by
      rw [makeParents]
      rcases parent path with - | dir
      · rfl
      · exact (fs.makeDirsWith_keeps _ _ _).1
    obtain ⟨hcwd', hdirs'⟩ := Writes.dirs_of_run hrun
    refine ⟨settled_of_dirs h.settled (hcwd'.trans hcwd) fun x hx => hdirs' x (hdirs x hx),
      (hcwd'.trans hcwd).trans h.cwd, ?_⟩
    rw [Writes.contents_of_run hrun hcwd hfiles, Call.assign, hpath, hplace, hplace]
    refine congrArg (fun json => storeAt _ _ data json fs.contents) ?_
    rcases metadata with - | md
    · rfl
    · rfl
  · obtain ⟨hok, hfaults⟩ := hcall
    have hrun : (st.delete key).run (serveWith faults) fs = (.ok (), fs') :=
      Prod.ext hok (Option.some.inj hstep)
    rcases hpath : st.resolvePath key with e | path
    · rw [delete, hpath] at hrun
      cases hrun
    rw [run_delete hpath] at hrun
    obtain rfl := (Prod.mk.inj hrun).2
    obtain ⟨hfault, hfault'⟩ := hfaults path hpath
    have hcwd := cwd_removed faults fs path
    have hcwd' := cwd_removed faults (removed faults fs path) (metaPath path)
    have hsettled : Settled (removed faults fs path) st.basePath :=
      settled_of_dirs h.settled hcwd fun x => dir_of_removed
    refine ⟨settled_of_dirs hsettled hcwd' fun x => dir_of_removed,
      (hcwd'.trans hcwd).trans h.cwd, ?_⟩
    rw [contents_removed hfault' fun data => (stat_of_contents hsettled hpath).2,
      Fs.placeOf_congr hcwd, Call.assign, hpath, hplace]
    refine congrArg (fun files : FileBytes => Function.update files _ none) ?_
    split_ifs with hends
    · rw [← hplace path]
      exact contents_removed hfault fun data => (stat_of_contents h.settled hpath).1 hends
    · rw [removed_of_not_endsProperly hends]
  · exact absurd hcall id

/-- What the files hold after calls that succeed. -/
theorem HoldsFiles.run {calls : List Call} (hbase : Settled fs₀ st.basePath)
    (hrun : runFrom (st.step codec) fs₀ calls = some fs)
    (hmeets : StepsMeet (st.step codec) (st.Settles codec) fs₀ calls) :
    st.HoldsFiles fs₀ fs (calls.foldl (fun files call => call.assign st codec fs₀ files)
      fs₀.contents) := by
  refine history_of_stepsMeet (I := fun fs calls => st.HoldsFiles fs₀ fs
    (calls.foldl (fun files call => Call.assign st codec fs₀ files call) fs₀.contents))
    (fun s calls call s' hs hcall hstep => ?_) ⟨hbase, rfl, rfl⟩ hmeets hrun
  rw [List.foldl_concat]
  exact hs.step hcall hstep

end LocalBlobStore

end Rust

/-! ### The Go store -/

namespace Go

namespace LocalBlobStore

/-- What a call that succeeds assigns, in trees with the working directory of `fs`. -/
def Call.assign (s : LocalBlobStore) (codec : MetadataCodec) (fs : Fs) (files : FileBytes) :
    Call → FileBytes
  | .put _ key data metadata =>
    match s.resolvePath key with
    | .ok path => storeAt (fs.placeOf path) (fs.placeOf (metaPath path)) data
        (metadata.bind fun md => (codec.marshal md).toOption) files
    | .error _ => files
  | .delete _ key =>
    match s.resolvePath key with
    | .ok path => Function.update (Function.update files (fs.placeOf path) none)
        (fs.placeOf (metaPath path)) none
    | .error _ => files
  | .isHealthy _ _ => files

/-- The call is a `Put` or a `Delete` that returns nil, and if it is a `Delete`, the removal of the
sidecar is not refused. -/
def Settles (s : LocalBlobStore) (codec : MetadataCodec) (fs : Fs) : Call → Prop
  | .put faults key data metadata =>
    ((s.put codec none key data metadata).run (serveWith faults) fs).1 = .ok ()
  | .delete faults key =>
    ((s.delete none key).run (serveWith faults) fs).1 = .ok () ∧
      ∀ path, s.resolvePath key = .ok path → faults (.remove (metaPath path)) = none
  | .isHealthy _ _ => False

/-- What `Get` returns for bytes of a blob and of a sidecar. -/
def answer (codec : MetadataCodec) (blob sidecar : Option (List UInt8)) :
    Option (List UInt8 × Option Metadata) :=
  blob.map fun data => (data, sidecar.bind fun json => (codec.unmarshal json).toOption)

variable {s : LocalBlobStore} {codec : MetadataCodec} {faults : FsCall → Option Fault}
  {key : String} {path : Path} {data : List UInt8} {metadata : Option Metadata} {fs₀ : Fs}
  {files : FileBytes}

/-- A file at the place of a blob or of its sidecar is found by the path. -/
lemma stat_of_contents (hpath : s.resolvePath key = .ok path) :
    (fs.contents (fs.placeOf path) = some data → fs.stat path = .ok (.file data)) ∧
    (fs.contents (fs.placeOf (metaPath path)) = some data →
      fs.stat (metaPath path) = .ok (.file data)) := by
  obtain ⟨qs, rs, hrs, hanchored⟩ := anchored_of_resolvePath hpath
  have hsidecar := (hanchored fs).append hrs slash_notMem_metaSuffix two_lt_length_metaSuffix
  have hname := endsWithName_append path slash_notMem_metaSuffix two_lt_length_metaSuffix
  refine ⟨fun hdata => ?_, fun hdata => ?_⟩
  · exact ((hanchored fs).stat_eq_ok_iff hrs (endsWithName_of_resolvePath hpath)).mpr
      (Fs.contents_eq_some_iff.mp hdata)
  · exact (hsidecar.stat_eq_ok_iff (by simp) hname).mpr (Fs.contents_eq_some_iff.mp hdata)

/-- `os.Remove` at a path that ends in a name assigns nothing to its place, if it removes a file
that is there. -/
lemma contents_remove (hname : EndsWithName path)
    (hremoves : ∀ data, fs.contents (fs.placeOf path) = some data → Removes faults fs path) :
    (serveWith faults (.remove path) fs).2.contents =
      Function.update fs.contents (fs.placeOf path) none := by
  rcases remove_cases faults fs hname with ⟨-, fs', hserve, hgone⟩ | ⟨hkept, e, hserve, -⟩
  · rw [hserve]
    exact contents_of_removal (.inl hgone)
  · rw [hserve]
    refine contents_of_removal (.inr ⟨rfl, fun data hdata => ?_⟩)
    exact hkept (hremoves data (Fs.contents_eq_some_iff.mpr hdata))

/-- The working directory is the same, and the files hold what has been assigned. -/
structure HoldsFiles (fs₀ fs : Fs) (files : FileBytes) : Prop where
  /-- The working directory is the same. -/
  cwd : fs.cwd = fs₀.cwd
  /-- What the files hold. -/
  contents : fs.contents = files

/-- A call that succeeds assigns. -/
theorem HoldsFiles.step {call : Call} (h : HoldsFiles fs₀ fs files)
    (hcall : s.Settles codec fs call) (hstep : s.step codec fs call = some fs') :
    HoldsFiles fs₀ fs' (call.assign s codec fs₀ files) := by
  have hplace := Fs.placeOf_congr h.cwd
  have hcwd' : fs'.cwd = fs₀.cwd := (keepsNames_step hstep).cwd.trans h.cwd
  obtain rfl := h.contents
  rcases call with ⟨faults, key, data, metadata⟩ | ⟨faults, key⟩ | ⟨faults, latency⟩
  · have hrun : (s.put codec none key data metadata).run (serveWith faults) fs = (.ok (), fs') :=
      Prod.ext hcall (Option.some.inj hstep)
    rcases hpath : s.resolvePath key with e | path
    · rw [put, Prog.run_bind_of_ok (r := ()) rfl, hpath] at hrun
      cases hrun
    rw [run_put hpath] at hrun
    obtain ⟨hcwd, -⟩ := fs.makeDirsWith_keeps (faults (.mkdirAll (dir path))) (fs.start (dir path))
      (pieces (dir path))
    have hfiles : (makeParents faults fs path).2.contents = fs.contents :=
      fs.contents_makeDirsWith _ _ _
    refine ⟨hcwd', ?_⟩
    rw [Writes.contents_of_run hrun hcwd hfiles, Call.assign, hpath, hplace, hplace]
    refine congrArg (fun json => storeAt _ _ data json fs.contents) ?_
    rcases metadata with - | md
    · rfl
    · simp only [writes, Option.map_some, Option.bind_some]
      rcases codec.marshal md with e | json
      · rfl
      · rfl
  · obtain ⟨hok, hfaults⟩ := hcall
    have hrun : (s.delete none key).run (serveWith faults) fs = (.ok (), fs') :=
      Prod.ext hok (Option.some.inj hstep)
    rcases hpath : s.resolvePath key with e | path
    · rw [delete, Prog.run_bind_of_ok (r := ()) rfl, hpath] at hrun
      cases hrun
    rcases run_delete faults fs hpath with ⟨hthrough, hrun'⟩ | ⟨-, hfails⟩
    · have hname := endsWithName_of_resolvePath hpath
      have hname' := endsWithName_append path slash_notMem_metaSuffix two_lt_length_metaSuffix
      have hblob : (serveWith faults (.remove path) fs).2.contents = _ :=
        contents_remove hname fun data hdata => hthrough.resolve_right fun hnone => by
          rw [(stat_of_contents hpath).1 hdata] at hnone
          cases hnone.2
      have hsidecar : (serveWith faults (.remove (metaPath path))
          (serveWith faults (.remove path) fs).2).2.contents = _ :=
        contents_remove hname' fun data hdata =>
          ⟨hfaults path hpath, _, (stat_of_contents hpath).2 hdata, fun h => by cases h⟩
      have hcwd := (keepsNames_serveWith faults (.remove path) fs).cwd
      obtain rfl := (Prod.mk.inj (hrun.symm.trans hrun')).2
      refine ⟨hcwd', ?_⟩
      rw [hsidecar, hblob, Fs.placeOf_congr hcwd, Call.assign, hpath, hplace, hplace]
    · rw [hrun] at hfails
      exact absurd rfl hfails
  · exact absurd hcall id

/-- What the files hold after calls that succeed. -/
theorem HoldsFiles.run {calls : List Call} (hrun : runFrom (s.step codec) fs₀ calls = some fs)
    (hmeets : StepsMeet (s.step codec) (s.Settles codec) fs₀ calls) :
    HoldsFiles fs₀ fs (calls.foldl (fun files call => call.assign s codec fs₀ files)
      fs₀.contents) := by
  refine history_of_stepsMeet (I := fun fs calls => HoldsFiles fs₀ fs
    (calls.foldl (fun files call => Call.assign s codec fs₀ files call) fs₀.contents))
    (fun t calls call t' ht hcall hstep => ?_) ⟨rfl, rfl⟩ hmeets hrun
  rw [List.foldl_concat]
  exact ht.step hcall hstep

end LocalBlobStore

end Go

/-! ### Both stores -/

end GoyStore
