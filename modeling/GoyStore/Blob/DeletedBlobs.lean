import GoyStore.Blob.FaultyCalls
import GoyStore.Library.FileRemoval

/-!
# Deleted blobs

`delete` removes the blob and then the sidecar.  The Rust store ignores every failure of both
removals; the Go store ignores those of the second one.

A `delete` that succeeds leaves nothing behind if and only if what stands at the two paths can be
removed (`goneOnOk_iff`).  When a removal is refused, or a directory stands there, the blob or its
sidecar is still there after a `delete` that reported success (`not_goneOnOk`).
-/

namespace GoyStore

open FileTree UnixPath Effects

/-- The places of a path and of the path with a suffix are beside one another. -/
lemma not_prefix_placeOf_append (fs : Fs) {p suffix : Path} (hp : EndsWithName p)
    (hslash : '/' ∉ suffix) (hlong : 2 < suffix.length) :
    ¬ fs.placeOf p <+: fs.placeOf (p ++ suffix) ∧ ¬ fs.placeOf (p ++ suffix) <+: fs.placeOf p := by
  have hne := fs.placeOf_append_ne p hslash hlong
  obtain ⟨l, name, hblob, hsidecar⟩ := placeOf_append fs hp hslash hlong
  have hlength : (fs.placeOf p).length = (fs.placeOf (p ++ suffix)).length := by
    rw [hblob, hsidecar]
    simp
  exact ⟨fun h => hne (h.eq_of_length hlength).symm, fun h => hne (h.eq_of_length hlength.symm)⟩

/-- A path with a long suffix without slashes ends in a name. -/
lemma endsWithName_append (p : Path) {suffix : Path} (hslash : '/' ∉ suffix)
    (hlong : 2 < suffix.length) : EndsWithName (p ++ suffix) := by
  obtain ⟨init, last, -, happend⟩ := exists_pieces_append p
  refine ⟨last ++ suffix, isName_of_long (by rw [List.length_append]; omega), ?_⟩
  rw [happend suffix hslash, List.dropLast_concat]

/-! ### The Rust store -/

namespace Rust

namespace LocalBlobStore

/-- What stands at a path, if anything, is a file, and its removal is not refused. -/
def Removable (faults : FsCall → Option Fault) (fs : Fs) (path : Path) : Prop :=
  ∀ x, fs.stat path = .ok x → (∃ data, x = .file data) ∧ faults (.removeFile path) = none

/-- Neither the blob nor its sidecar exists, `get` reports absence, and so it does metadata after a
`put` without metadata. -/
structure Gone (st : LocalBlobStore) (codec : MetadataCodec) (key : String) (path : Path)
    (fs : Fs) : Prop where
  /-- The blob does not exist. -/
  blob : (fs.stat path).isOk = false
  /-- The sidecar does not exist. -/
  sidecar : (fs.stat (metaPath path)).isOk = false
  /-- `get` reports absence. -/
  get : ((st.get codec key).run serve fs).1 = .ok none
  /-- After a `put` without metadata `get` reports no metadata. -/
  put : ∀ data, ((st.put codec key data none).run serve fs).1 = .ok () →
    ((st.get codec key).run serve ((st.put codec key data none).run serve fs).2).1 =
      .ok (some (data, default))

/-- If the key is accepted and `delete` returns `Ok`, the blob is gone. -/
def GoneOnOk (st : LocalBlobStore) (codec : MetadataCodec) (faults : FsCall → Option Fault)
    (fs : Fs) (key : String) : Prop :=
  ∀ path, st.resolvePath key = .ok path →
    let r := (st.delete key).run (serveWith faults) fs
    r.1 = .ok () → st.Gone codec key path r.2

/-- If the key is accepted, what stands at its paths can be removed; if nothing does, no `put`
without metadata makes a way to a sidecar with metadata. -/
def LeavesNothing (st : LocalBlobStore) (codec : MetadataCodec) (faults : FsCall → Option Fault)
    (fs : Fs) (key : String) : Prop :=
  ∀ path, st.resolvePath key = .ok path →
    Removable faults fs path ∧ Removable faults fs (metaPath path) ∧
      ((fs.stat path).isOk = false → (fs.stat (metaPath path)).isOk = false →
        ∀ data, ((st.put codec key data none).run serve fs).1 = .ok () →
          GivesDefault codec ((madeDirs fs path).stat (metaPath path)))

/-- The tree after the removal of a file that is there. -/
def removed (faults : FsCall → Option Fault) (fs : Fs) (path : Path) : Fs :=
  if (fs.stat path).isOk then (fs.unlinkWith (faults (.removeFile path)) path).2 else fs

variable {st : LocalBlobStore} {codec : MetadataCodec} {faults : FsCall → Option Fault}
  {key : String} {path path' : Path} {fs : Fs}

/-- A file that is there is removed; a failure is ignored. -/
lemma run_removeIfExists (faults : FsCall → Option Fault) (path : Path) (fs : Fs) :
    (FsProg.removeIfExists path).run (serveWith faults) fs = (.ok (), removed faults fs path) := by
  have hexists : serveWith faults (.pathExists path) fs = ((fs.stat path).isOk, fs) := rfl
  rw [FsProg.removeIfExists, Prog.run_perform_bind hexists, removed]
  rcases (fs.stat path).isOk with - | -
  · rfl
  · rfl

/-- `delete` of an accepted key removes two files, and always succeeds. -/
lemma run_delete (hpath : st.resolvePath key = .ok path) :
    (st.delete key).run (serveWith faults) fs =
      (.ok (), removed faults (removed faults fs path) (metaPath path)) := by
  rw [delete, hpath, Prog.run_bind_of_ok (Prog.run_ofExcept _),
    Prog.run_bind_of_ok (run_removeIfExists faults path fs), run_removeIfExists]

/-- A file whose removal is not refused is removed, and else nothing is changed. -/
lemma removed_cases (faults : FsCall → Option Fault) (fs : Fs) (path : Path) :
    (∃ data, fs.stat path = .ok (.file data) ∧ faults (.removeFile path) = none ∧
      removed faults fs path = (fs.unlink path).2 ∧
        Fs.Without fs (removed faults fs path) (fs.placeOf path)) ∨
    ((∀ data, fs.stat path = .ok (.file data) → faults (.removeFile path) ≠ none) ∧
      removed faults fs path = fs) := by
  rcases fs.unlink_cases path with ⟨data, fs', hfile, hunlink, hgone⟩ | ⟨hfile, e, hunlink⟩
  · rcases hfault : faults (.removeFile path) with - | f
    · have hremoved : removed faults fs path = fs' := by
        rw [removed, hfile, hfault, Fs.unlinkWith, hunlink]
        rfl
      rw [hremoved]
      exact Or.inl ⟨data, hfile, rfl, by rw [hunlink], hgone⟩
    · refine Or.inr ⟨fun _ _ => by simp, ?_⟩
      rw [removed, hfault, Fs.unlinkWith]
      split_ifs <;> rfl
  · refine Or.inr ⟨fun data hdata => absurd hdata (hfile data), ?_⟩
    rw [removed]
    split_ifs
    · rcases faults (.removeFile path) with - | f
      · rw [Fs.unlinkWith, hunlink]
      · rfl
    · rfl

/-- Afterwards nothing is at the path if and only if it could be removed. -/
lemma stat_removed_iff (faults : FsCall → Option Fault) (fs : Fs) (path : Path) :
    ((removed faults fs path).stat path).isOk = false ↔ Removable faults fs path := by
  rcases removed_cases faults fs path with ⟨data, hfile, hfault, -, hgone⟩ | ⟨hkept, hremoved⟩
  · constructor
    · intro _ x hx
      rw [hfile] at hx
      exact ⟨⟨data, (Except.ok.inj hx).symm⟩, hfault⟩
    · intro _
      rcases hstat : (removed faults fs path).stat path with e | x
      · rfl
      · exact absurd hstat (hgone.stat_ne x)
  · rw [hremoved]
    constructor
    · intro hnone x hx
      rw [hx] at hnone
      cases hnone
    · intro hremovable
      rcases hstat : fs.stat path with e | x
      · rfl
      · obtain ⟨⟨data, rfl⟩, hfault⟩ := hremovable x hstat
        exact absurd hfault (hkept data hstat)

/-- What a path to another place leads to stays. -/
lemma stat_removed_of_ne (faults : FsCall → Option Fault)
    (hplace : fs.placeOf path' ≠ fs.placeOf path) :
    ((removed faults fs path).stat path').toOption = (fs.stat path').toOption := by
  rcases removed_cases faults fs path with ⟨data, -, -, hremoved, -⟩ | ⟨-, hremoved⟩
  · rw [hremoved]
    exact Fs.stat_of_unlink hplace
  · rw [hremoved]

/-- The directories stay. -/
lemma dir_of_removed {x : Place} (hx : fs.node x = some .dir) :
    (removed faults fs path).node x = some .dir := by
  rcases removed_cases faults fs path with ⟨data, -, -, hremoved, -⟩ | ⟨-, hremoved⟩
  · rw [hremoved]
    exact Fs.dir_of_unlink hx
  · rwa [hremoved]

/-- So does the working directory. -/
lemma cwd_removed (faults : FsCall → Option Fault) (fs : Fs) (path : Path) :
    (removed faults fs path).cwd = fs.cwd := by
  rcases removed_cases faults fs path with ⟨data, -, -, -, hgone⟩ | ⟨-, hremoved⟩
  · exact hgone.cwd
  · rw [hremoved]

/-- Whether something stands at a path, and whether it can be removed, depends only on the entry
that the path leads to. -/
lemma removable_congr (faults : FsCall → Option Fault) {fs' : Fs}
    (h : (fs'.stat path).toOption = (fs.stat path).toOption) :
    ((fs'.stat path).isOk = false ↔ (fs.stat path).isOk = false) ∧
      (Removable faults fs' path ↔ Removable faults fs path) := by
  rw [Removable, Removable]
  rcases eq_or_error_of_toOption_eq h with heq | ⟨⟨e', he'⟩, e, he⟩
  · rw [heq]
    exact ⟨Iff.rfl, Iff.rfl⟩
  · rw [he, he']
    simp [Except.isOk, Except.toBool]

/-- After both removals nothing is at the two paths if and only if both could be removed. -/
lemma stat_removed_both (faults : FsCall → Option Fault) (fs : Fs) (path : Path) :
    let fs' := removed faults (removed faults fs path) (metaPath path)
    ((fs'.stat path).isOk = false ↔ Removable faults fs path) ∧
      ((fs'.stat (metaPath path)).isOk = false ↔ Removable faults fs (metaPath path)) := by
  have hne := fun fs : Fs => fs.placeOf_append_ne path slash_notMem_metaSuffix
    two_lt_length_metaSuffix
  have hblob := stat_removed_of_ne faults (hne (removed faults fs path)).symm
  have hsidecar := stat_removed_of_ne faults (hne fs)
  exact ⟨(removable_congr faults hblob).1.trans (stat_removed_iff faults fs path),
    (stat_removed_iff faults _ _).trans (removable_congr faults hsidecar).2⟩

/-- Where a file was at one of the two paths, a later `put` makes no directories. -/
lemma madeDirs_removed (hname : EndsWithName path) {p : Path} {data : List UInt8}
    (hp : p = path ∨ p = metaPath path) (hfile : fs.stat p = .ok (.file data)) :
    let fs' := removed faults (removed faults fs path) (metaPath path)
    madeDirs fs' path = fs' := by
  intro fs'
  obtain ⟨l, name, hentry⟩ := Fs.exists_entry_of_stat hfile
  have hentry' : fs'.entry p = .ok (l, name) := by
    refine Fs.entry_of_dirs (fun x hx => dir_of_removed (dir_of_removed hx)) ?_ hentry
    exact (cwd_removed _ _ _).trans (cwd_removed _ _ _)
  have hmade := Fs.makeDirs_of_entry hentry'
  rw [madeDirs_eq hname]
  rcases hp with rfl | rfl
  · exact hmade
  · -- the directories of the sidecar are those of the blob
    obtain ⟨init, last, hsplit, happend⟩ := exists_pieces_append path
    rw [metaPath, happend metaSuffix slash_notMem_metaSuffix, Fs.start,
      isAbsolute_append slash_notMem_metaSuffix, ← Fs.start, List.dropLast_concat] at hmade
    rw [hsplit, List.dropLast_concat]
    exact hmade

/-- If the key is accepted and `delete` returns `Ok`, the blob is gone if and only if what stands at
its paths can be removed, and nothing comes back otherwise. -/
lemma goneOnOk_iff_leavesNothing (st : LocalBlobStore) (codec : MetadataCodec)
    (faults : FsCall → Option Fault) (fs : Fs) (key : String) :
    st.GoneOnOk codec faults fs key ↔ st.LeavesNothing codec faults fs key := by
  refine forall₂_congr fun path hpath => ?_
  simp only [run_delete hpath, forall_true_left]
  obtain ⟨hblob, hsidecar⟩ := stat_removed_both faults fs path
  -- where nothing stood, nothing is removed
  have hsame : (fs.stat path).isOk = false → (fs.stat (metaPath path)).isOk = false →
      removed faults (removed faults fs path) (metaPath path) = fs := by
    intro hnone hnone'
    have hfirst : removed faults fs path = fs := if_neg (by simp [hnone])
    rw [hfirst]
    exact if_neg (by simp [hnone'])
  constructor
  · intro hgone
    refine ⟨hblob.mp hgone.blob, hsidecar.mp hgone.sidecar, fun hnone hnone' data hput => ?_⟩
    rw [hsame hnone hnone'] at hgone
    have hget := hgone.put data hput
    exact ((get_put_iff hpath hput (by simp)).mp hget).resolve_left (by simp)
  · rintro ⟨hblobRemovable, hsidecarRemovable, hdefault⟩
    have hblobGone := hblob.mpr hblobRemovable
    have hsidecarGone := hsidecar.mpr hsidecarRemovable
    refine ⟨hblobGone, hsidecarGone, ?_, fun data hput => ?_⟩
    · rw [run_get hpath]
      rcases hstat : (removed faults (removed faults fs path) (metaPath path)).stat path with e | x
      · rfl
      · rw [hstat] at hblobGone
        cases hblobGone
    · refine (get_put_iff hpath hput (by simp)).mpr (Or.inr ?_)
      have hname : EndsWithName path := by
        obtain ⟨written, hwritten, -⟩ := of_put_eq_ok hpath (Prod.ext hput rfl)
        exact endsWithName_of_write hwritten
      -- a sidecar could only come back where nothing stood before
      have hold : ∀ p, p = path ∨ p = metaPath path → ∀ x, fs.stat p = .ok x →
          GivesDefault codec ((madeDirs (removed faults (removed faults fs path) (metaPath path))
            path).stat (metaPath path)) := by
        intro p hp x hx y hy
        have hfile : ∃ data, x = .file data := by
          rcases hp with rfl | rfl
          · exact (hblobRemovable x hx).1
          · exact (hsidecarRemovable x hx).1
        obtain ⟨bytes, rfl⟩ := hfile
        rw [madeDirs_removed hname hp hx] at hy
        rw [hy] at hsidecarGone
        cases hsidecarGone
      rcases hblobStat : fs.stat path with e | x
      · rcases hsidecarStat : fs.stat (metaPath path) with e' | x
        · have hnone : (fs.stat path).isOk = false := by rw [hblobStat]; rfl
          have hnone' : (fs.stat (metaPath path)).isOk = false := by rw [hsidecarStat]; rfl
          rw [hsame hnone hnone'] at hput ⊢
          exact hdefault hnone hnone' data hput
        · exact hold _ (Or.inr rfl) x hsidecarStat
      · exact hold _ (Or.inl rfl) x hblobStat

end LocalBlobStore

end Rust

/-! ### The Go store -/

namespace Go

namespace LocalBlobStore

/-- `os.Remove` removes what stands at a path: it is not refused, and there is a file, or a
directory that can be removed. -/
def Removes (faults : FsCall → Option Fault) (fs : Fs) (path : Path) : Prop :=
  faults (.remove path) = none ∧
    ∃ x, fs.stat path = .ok x ∧ (x = .dir → fs.RemovableDir (fs.placeOf path))

/-- `os.Remove` removes what stands at a path or reports that nothing does. -/
def GoesThrough (faults : FsCall → Option Fault) (fs : Fs) (path : Path) : Prop :=
  Removes faults fs path ∨ faults (.remove path) = none ∧ fs.stat path = .error .noEntry

/-- Neither the blob nor its sidecar exists, `Get` reports absence, and so it does metadata after a
`Put` without metadata. -/
structure Gone (s : LocalBlobStore) (codec : MetadataCodec) (key : String) (path : Path)
    (fs : Fs) : Prop where
  /-- The blob does not exist. -/
  blob : (fs.stat path).isOk = false
  /-- The sidecar does not exist. -/
  sidecar : (fs.stat (metaPath path)).isOk = false
  /-- `Get` reports absence. -/
  get : ((s.get codec none key).run serve fs).1 = .ok none
  /-- After a `Put` without metadata `Get` reports no metadata. -/
  put : ∀ data, ((s.put codec none key data none).run serve fs).1 = .ok () →
    ((s.get codec none key).run serve ((s.put codec none key data none).run serve fs).2).1 =
      .ok (some (data, none))

/-- If the key is accepted and `Delete` returns nil, the blob is gone. -/
def GoneOnOk (s : LocalBlobStore) (codec : MetadataCodec) (faults : FsCall → Option Fault)
    (fs : Fs) (key : String) : Prop :=
  ∀ path, s.resolvePath key = .ok path →
    let r := (s.delete none key).run (serveWith faults) fs
    r.1 = .ok () → s.Gone codec key path r.2

/-- If the key is accepted and the removal of its blob goes through, what stands at the path of the
sidecar is removed as well. -/
def LeavesNothing (s : LocalBlobStore) (faults : FsCall → Option Fault) (fs : Fs) (key : String) :
    Prop :=
  ∀ path, s.resolvePath key = .ok path → GoesThrough faults fs path →
    (fs.stat (metaPath path)).isOk = true → Removes faults fs (metaPath path)

variable {s : LocalBlobStore} {codec : MetadataCodec} {faults : FsCall → Option Fault}
  {key : String} {path : Path} {fs : Fs}

/-- `os.Remove` removes what stands at a path that ends in a name, or changes nothing. -/
lemma remove_cases (faults : FsCall → Option Fault) (fs : Fs) (hname : EndsWithName path) :
    (Removes faults fs path ∧ ∃ fs', serveWith faults (.remove path) fs = (.ok (), fs') ∧
      Fs.Without fs fs' (fs.placeOf path)) ∨
    (¬ Removes faults fs path ∧ ∃ e, serveWith faults (.remove path) fs = (.error e, fs) ∧
      (e.notExist = true ↔ faults (.remove path) = none ∧ fs.stat path = .error .noEntry)) := by
  obtain ⟨name, hname, hpieces⟩ := hname
  rcases hfault : faults (.remove path) with - | f
  · have hserve : serveWith faults (.remove path) fs = remove fs path := by
      rw [serveWith, hfault]
      rfl
    rw [hserve, remove, Removes, hfault]
    rcases fs.unlink_cases path with ⟨data, fs', hfile, hunlink, hgone⟩ | ⟨hfile, e, hunlink⟩
    · rw [hunlink]
      exact Or.inl ⟨⟨rfl, _, hfile, by simp⟩, fs', rfl, hgone⟩
    · rw [hunlink]
      rcases hstat : fs.stat path with e' | ⟨⟨⟩ | data⟩
      · -- nothing is there
        obtain ⟨hunlink', hrmdir⟩ := Fs.remove_of_stat_error hname hpieces hstat
        obtain rfl : e' = e := Except.error.inj (Prod.mk.inj (hunlink'.symm.trans hunlink)).1
        rw [hrmdir]
        refine Or.inr ⟨by simp, _, rfl, ?_⟩
        simp [pathError]
      · rcases Fs.rmdir_cases hname hpieces hstat with
          ⟨hremovable, fs', hrmdir, hgone⟩ | ⟨hkept, e', hrmdir, herror⟩
        · rw [hrmdir]
          exact Or.inl ⟨⟨rfl, _, rfl, fun _ => hremovable⟩, fs', rfl, hgone⟩
        · rw [hrmdir]
          refine Or.inr ⟨?_, _, rfl, ?_⟩
          · rintro ⟨-, x, hx, hremovable⟩
            exact hkept (hremovable (Except.ok.inj hx).symm)
          · rcases herror with rfl | rfl
            · simp [pathError]
            · simp [pathError]
      · exact absurd hstat (hfile data)
  · refine Or.inr ⟨fun h => ?_, _, by rw [serveWith, hfault], ?_⟩
    · rw [Removes, hfault] at h
      cases h.1
    · simp [failure]

/-- `Delete` of an accepted key removes two files if the first removal goes through, and ignores how
the second one ends. -/
lemma run_delete (faults : FsCall → Option Fault) (fs : Fs)
    (hpath : s.resolvePath key = .ok path) :
    (GoesThrough faults fs path ∧ (s.delete none key).run (serveWith faults) fs =
      (.ok (), (serveWith faults (.remove (metaPath path))
        (serveWith faults (.remove path) fs).2).2)) ∨
    (¬ GoesThrough faults fs path ∧
      ((s.delete none key).run (serveWith faults) fs).1 ≠ .ok ()) := by
  have hname := endsWithName_of_resolvePath hpath
  rw [delete, Prog.run_bind_of_ok (r := ()) rfl, hpath, Prog.run_bind_of_ok (Prog.run_ofExcept _)]
  rcases remove_cases faults fs hname with
    ⟨hremoves, fs', hserve, -⟩ | ⟨hkept, e, hserve, hnotExist⟩
  · refine Or.inl ⟨Or.inl hremoves, ?_⟩
    rw [hserve, Prog.run_call_bind hserve]
    rfl
  · by_cases he : e.notExist = true
    · refine Or.inl ⟨Or.inr (hnotExist.mp he), ?_⟩
      rw [hserve, Prog.run_call_bind hserve]
      simp only [he, if_true]
      rfl
    · refine Or.inr ⟨fun h => h.elim hkept fun h => he (hnotExist.mpr h), ?_⟩
      rw [Prog.run_call_bind hserve]
      simp only [he, Bool.false_eq_true, if_false]
      intro hok
      cases hok

/-- Removing one of two paths leaves what the other leads to, and whether it can be removed. -/
lemma serveWith_remove_beside {p q : Path} {qs rs : List (List Char)}
    (hanchored : ∀ fs : Fs, Fs.Anchored fs q qs rs (Fs.place (fs.start q) qs))
    (hp : EndsWithName p) (hplaces : ¬ fs.placeOf p <+: fs.placeOf q)
    (hplaces' : ¬ fs.placeOf q <+: fs.placeOf p) :
    (serveWith faults (.remove p) fs).2.stat q = fs.stat q ∧
      (Removes faults (serveWith faults (.remove p) fs).2 q ↔ Removes faults fs q) := by
  rcases remove_cases faults fs hp with ⟨-, fs', hserve, hgone⟩ | ⟨-, e, hserve, -⟩
  · rw [hserve]
    have hold := hanchored fs
    have hnew := hanchored fs'
    rw [Fs.start_congr hgone.cwd] at hnew
    have hstat := hold.stat_of_without hnew hgone hplaces
    refine ⟨hstat, ?_⟩
    rw [Removes, Removes, hstat, Fs.placeOf_congr hgone.cwd, hgone.removableDir_iff hplaces']
  · rw [hserve]
    exact ⟨rfl, Iff.rfl⟩

/-- Once the removal of a blob has gone through, its path leads to nothing. -/
lemma stat_of_goesThrough (hpath : s.resolvePath key = .ok path)
    (h : GoesThrough faults fs path) :
    (serveWith faults (.remove path) fs).2.stat path = .error .noEntry := by
  have hname := endsWithName_of_resolvePath hpath
  obtain ⟨qs, rs, hrs, hanchored⟩ := anchored_of_resolvePath hpath
  rcases remove_cases faults fs hname with
    ⟨⟨-, x, hx, -⟩, fs', hserve, hgone⟩ | ⟨hkept, e, hserve, -⟩
  · have hold := hanchored fs
    have hnew := hanchored fs'
    rw [Fs.start_congr hgone.cwd] at hnew
    rw [hserve]
    exact hold.stat_of_gone hnew hgone hx
  · rw [hserve]
    exact (h.resolve_left hkept).2

/-- After both removals the blob is gone if and only if what stood at the path of the sidecar was
removed. -/
lemma gone_iff (hpath : s.resolvePath key = .ok path) (hthrough : GoesThrough faults fs path) :
    s.Gone codec key path (serveWith faults (.remove (metaPath path))
        (serveWith faults (.remove path) fs).2).2 ↔
      ((fs.stat (metaPath path)).isOk = true → Removes faults fs (metaPath path)) := by
  have hname := endsWithName_of_resolvePath hpath
  have hname' : EndsWithName (metaPath path) :=
    endsWithName_append path slash_notMem_metaSuffix two_lt_length_metaSuffix
  have hplaces := fun fs : Fs => not_prefix_placeOf_append fs hname slash_notMem_metaSuffix
    two_lt_length_metaSuffix
  obtain ⟨qs, rs, -, hanchored⟩ := anchored_of_resolvePath hpath
  obtain ⟨qs', rs', hanchored'⟩ := anchored_metaPath hpath
  have hfirst := stat_of_goesThrough hpath hthrough
  obtain ⟨hsidecar, hremoves⟩ : (serveWith faults (.remove path) fs).2.stat (metaPath path) =
        fs.stat (metaPath path) ∧
      (Removes faults (serveWith faults (.remove path) fs).2 (metaPath path) ↔
        Removes faults fs (metaPath path)) :=
    serveWith_remove_beside hanchored' hname (hplaces fs).1 (hplaces fs).2
  generalize (serveWith faults (.remove path) fs).2 = fs₁ at hfirst hsidecar hremoves ⊢
  have hblob : (serveWith faults (.remove (metaPath path)) fs₁).2.stat path = fs₁.stat path :=
    (serveWith_remove_beside hanchored hname' (hplaces fs₁).2 (hplaces fs₁).1).1
  rw [hfirst] at hblob
  rw [← hsidecar, ← hremoves]
  constructor
  · intro hgone hstands
    rcases remove_cases faults fs₁ hname' with ⟨hremoved, -⟩ | ⟨-, e, hserve, -⟩
    · exact hremoved
    · have hnone := hgone.sidecar
      rw [hserve, hstands] at hnone
      cases hnone
  · intro hremoved
    have hnone : ((serveWith faults (.remove (metaPath path)) fs₁).2.stat
        (metaPath path)).isOk = false := by
      rcases remove_cases faults fs₁ hname' with ⟨-, fs', hserve, hgone⟩ | ⟨hkept, e, hserve, -⟩
      · rw [hserve]
        rcases hstat : fs'.stat (metaPath path) with e | x
        · rfl
        · exact absurd hstat (hgone.stat_ne x)
      · rw [hserve]
        exact Bool.eq_false_iff.mpr fun h => hkept (hremoved h)
    refine ⟨by rw [hblob]; rfl, hnone, ?_, fun data hput => ?_⟩
    · rw [run_get hpath, hblob]
      rfl
    · refine (get_put_iff hpath hput (by simp)).mpr (Or.inr fun bytes hbytes => ?_)
      -- the directories that are made uncover nothing
      have hmade := (stat_makeParents (fun _ => none) _ hpath).2.symm.trans hbytes
      rw [hmade] at hnone
      cases hnone

/-- If the key is accepted and `Delete` returns nil, the blob is gone if and only if what stands at
the path of the sidecar is removed. -/
lemma goneOnOk_iff_leavesNothing (s : LocalBlobStore) (codec : MetadataCodec)
    (faults : FsCall → Option Fault) (fs : Fs) (key : String) :
    s.GoneOnOk codec faults fs key ↔ s.LeavesNothing faults fs key := by
  refine forall₂_congr fun path hpath => ?_
  rcases run_delete faults fs hpath with ⟨hthrough, hrun⟩ | ⟨hstuck, hrun⟩
  · simp only [hrun, hthrough, forall_true_left]
    exact gone_iff hpath hthrough
  · exact ⟨fun _ h => absurd h hstuck, fun _ h => absurd h hrun⟩

end LocalBlobStore

end Go

/-! ### Both stores -/

/-- In every tree, with any faults and for every key, after a `delete` of an accepted key that
succeeds the blob and its sidecar are gone if and only if what stands at their paths can be removed;
in the Rust store also, if nothing stands there, no later `put` makes a way to a sidecar. -/
theorem goneOnOk_iff (fs : Fs) (key : String) :
    (∀ (st : Rust.LocalBlobStore) (codec : Rust.MetadataCodec)
      (faults : Rust.FsCall → Option Fault),
      st.GoneOnOk codec faults fs key ↔ st.LeavesNothing codec faults fs key) ∧
    (∀ (s : Go.LocalBlobStore) (codec : Go.MetadataCodec) (faults : Go.FsCall → Option Fault),
      s.GoneOnOk codec faults fs key ↔ s.LeavesNothing faults fs key) :=
  ⟨fun st codec faults => st.goneOnOk_iff_leavesNothing codec faults fs key,
    fun s codec faults => s.goneOnOk_iff_leavesNothing codec faults fs key⟩

/-- No file can be removed. -/
def Rust.removalsRefused : Rust.FsCall → Option Fault
  | .removeFile _ => some (.refused "Permission denied (os error 13)")
  | _ => none

/-- The sidecar of `a` under `data` cannot be removed. -/
def Go.sidecarStays : Go.FsCall → Option Fault
  | .remove path =>
    if path = "data/a.meta.json".toList then some (.refused "permission denied") else none
  | _ => none

/-- In both stores under `data`, where the blob `a` stands with its sidecar: when its removal is
refused, `delete` of the Rust store returns `Ok` and `get` still finds it, and when that of the
sidecar is refused, `Delete` of the Go store returns nil and the sidecar is still there. -/
theorem not_goneOnOk :
    ¬ Rust.LocalBlobStore.GoneOnOk ⟨"data".toList⟩ Rust.plainCodec Rust.removalsRefused
      Rust.taggedTree "a" ∧
    ¬ Go.LocalBlobStore.GoneOnOk (.new "data".toList) Go.plainCodec Go.sidecarStays
      Go.taggedTree "a" := by
  constructor
  · intro h
    have hblob := (h "data/a".toList (by decide) rfl).blob
    revert hblob
    decide
  · intro h
    have hsidecar := (h "data/a".toList (by decide) rfl).sidecar
    revert hsidecar
    decide

end GoyStore
