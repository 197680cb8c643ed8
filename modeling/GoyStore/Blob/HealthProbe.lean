import GoyStore.Blob.FaultyCalls
import GoyStore.Blob.Listing
import GoyStore.Library.FileProbe
import GoyStore.Library.ProperNames
import GoyStore.Library.Runs

/-!
# The probe of the health check

`is_healthy` makes the base directory, writes a file `.health_check_probe` into it and removes the
file.  The name of the file is a key like any other, so that a blob that was put under it is
overwritten and removed (`not_healthKeeps`).

As long as each health check finds the base directory and restores the file of its probe, it changes
neither what `get` nor what `list` returns (`healthKeeps`).
-/

namespace GoyStore

open FileTree UnixPath Effects Runs

/-! ### Trees that are the same below a place -/

/-- The trees have the same entries below `b`, and the same files above it. -/
structure SameBelow (fs fs' : Fs) (b : Place) : Prop where
  /-- The working directory is the same. -/
  cwd : fs'.cwd = fs.cwd
  /-- The same stands below. -/
  below : ∀ ns, ns ≠ [] → fs'.node (b ++ ns) = fs.node (b ++ ns)
  /-- The same files stand above. -/
  above : ∀ x, x <+: b →
    ((∃ data, fs'.node x = some (.file data)) ↔ ∃ data, fs.node x = some (.file data))

variable {fs fs' fs'' : Fs} {b : Place}

/-- Trees that are alike are the same below every place. -/
lemma SameBelow.of_alike (h : SameBelow fs fs' b) (halike : Fs.Alike fs' fs'') :
    SameBelow fs fs'' b where
  cwd := halike.cwd.trans h.cwd
  below ns hns := (halike.node _).trans (h.below ns hns)
  above x hx := by
    rw [← h.above x hx, halike.node]

/-- The names below are still proper. -/
lemma SameBelow.properBelow (h : SameBelow fs fs' b) (hnames : fs.ProperBelow b) :
    fs'.ProperBelow b := by
  intro ns name x hx
  rw [List.append_assoc, h.below _ (by simp), ← List.append_assoc] at hx
  exact hnames ns name x hx

/-- An anchored path to a place below leads to the same. -/
lemma SameBelow.stat {p : Path} {qs rs : List (List Char)} {l : Place} (h : SameBelow fs fs' b)
    (hold : Fs.Anchored fs p qs rs l) (hnew : Fs.Anchored fs' p qs rs l) {ns : List (List Char)}
    (hns : ns ≠ []) (hplace : fs.placeOf p = b ++ ns) : fs'.stat p = fs.stat p := by
  refine hold.stat_eq hnew ?_ fun x hx => ?_
  · rw [hplace, h.below ns hns]
  · rw [hplace] at hx
    rcases List.prefix_or_prefix_of_prefix hx (List.prefix_append b ns) with habove | ⟨rest, rfl⟩
    · exact h.above x habove
    · by_cases hrest : rest = []
      · exact h.above _ (by rw [hrest, List.append_nil])
      · rw [h.below rest hrest]

/-! ### The Rust store -/

namespace Rust

/-- The directories that the call makes have names without slashes. -/
def FsCall.Plain : FsCall → Prop
  | .createDirAll dir => ∀ c ∈ dir, '/' ∉ componentPiece c
  | _ => True

/-- The components of a path have no slashes. -/
lemma slash_notMem_componentPiece {p : Path} {c : Component} (hc : c ∈ components p) :
    '/' ∉ componentPiece c := by
  rcases List.mem_append.mp hc with hleading | hpiece
  · rw [leading] at hleading
    split_ifs at hleading
    · obtain rfl := List.mem_singleton.mp hleading
      decide
    · obtain rfl := List.mem_singleton.mp hleading
      decide
    · cases hleading
  · obtain ⟨q, hq, hcomponent⟩ := List.mem_filterMap.mp hpiece
    have hslash := slash_notMem_of_mem_pieces hq
    rcases pieceComponent_cases q with ⟨-, hnone⟩ | ⟨-, hdots⟩ | hname
    · rw [hnone] at hcomponent
      cases hcomponent
    · rw [hdots] at hcomponent
      obtain rfl := Option.some.inj hcomponent
      decide
    · rw [hname] at hcomponent
      obtain rfl := Option.some.inj hcomponent
      exact hslash

/-- Such a call keeps names, with faults or without. -/
lemma keepsNames_serveWith (faults : FsCall → Option Fault) (c : FsCall) (fs : Fs)
    (hc : c.Plain) : Fs.KeepsNames fs (serveWith faults c fs).2 := by
  cases c with
  | createDirAll dir =>
    refine Fs.keepsNames_makeDirsWith _ fun q hq => ?_
    obtain ⟨c, hmem, rfl⟩ := List.mem_map.mp hq
    exact hc c hmem
  | write path data => exact fs.keepsNames_writeWith _ path data
  | pathExists path => exact .refl fs
  | read path => exact .refl fs
  | removeFile path => exact fs.keepsNames_unlinkWith _ path
  | canonicalize path => exact .refl fs

namespace LocalBlobStore

variable {st : LocalBlobStore} {codec : MetadataCodec} {order : ReadOrder} {start : Option String}

/-- `put` makes such calls only. -/
lemma makes_put (key : String) (data : List UInt8) (metadata : Option Metadata) :
    (st.put codec key data metadata).Makes FsCall.Plain := by
  have hwrite : ∀ path data, (FsProg.write path data).Makes FsCall.Plain := fun _ _ =>
    (Prog.makes_perform trivial).bind fun _ => Prog.makes_ofExcept _
  refine (Prog.makes_ofExcept _).bind fun path => Prog.Makes.bind ?_ fun _ =>
    (hwrite _ _).bind fun _ => ?_
  · rcases hparent : parent path with - | dir
    · trivial
    · refine (Prog.makes_perform fun c hc => ?_).bind fun _ => Prog.makes_ofExcept _
      obtain ⟨rfl, -⟩ := eq_dropLast_of_parent hparent
      exact slash_notMem_componentPiece (List.dropLast_subset _ hc)
  · rcases metadata with - | md
    · trivial
    · exact (Prog.makes_ofExcept _).bind fun _ => hwrite _ _

/-- So does `delete`. -/
lemma makes_delete (key : String) : (st.delete key).Makes FsCall.Plain := by
  have hremove : ∀ path, (FsProg.removeIfExists path).Makes FsCall.Plain := by
    refine fun path => (Prog.makes_perform trivial).bind fun found => ?_
    cases found with
    | false => trivial
    | true => exact (Prog.makes_perform trivial).bind fun _ => trivial
  exact (Prog.makes_ofExcept _).bind fun path => (hremove _).bind fun _ => hremove _

/-- So does `is_healthy`. -/
lemma makes_isHealthy (latency : Nat) : (st.isHealthy latency).Makes FsCall.Plain := by
  refine (Prog.makes_perform fun c hc => slash_notMem_componentPiece hc).bind fun created => ?_
  rcases created with e | ⟨⟩
  · trivial
  · refine (Prog.makes_perform trivial).bind fun written => ?_
    rcases written with e | ⟨⟩
    · trivial
    · exact (Prog.makes_perform trivial).bind fun _ => trivial

/-- A program of such calls keeps names. -/
lemma keepsNames_run {ρ : Type} {p : FsProg ρ} (faults : FsCall → Option Fault)
    (hp : p.Makes FsCall.Plain) : Fs.KeepsNames fs (p.run (serveWith faults) fs).2 :=
  hp.run_rel Fs.KeepsNames.refl (fun _ _ _ => .trans)
    (fun c s hc => keepsNames_serveWith faults c s hc) fs

/-- No operation brings in a name with slashes. -/
lemma keepsNames_step {call : Call} (h : st.step codec fs call = some fs') :
    Fs.KeepsNames fs fs' := by
  rcases call with ⟨faults, key, data, metadata⟩ | ⟨faults, key⟩ | ⟨faults, latency⟩
  all_goals obtain rfl := Option.some.inj h
  · exact keepsNames_run faults (makes_put key data metadata)
  · exact keepsNames_run faults (makes_delete key)
  · exact keepsNames_run faults (makes_isHealthy latency)

/-! #### What `list` returns -/

/-- `list` returns one result. -/
lemma ListReturns.unique {r r' : Except String (List String)}
    (h : st.ListReturns fs order start r) (h' : st.ListReturns fs order start r') : r = r' := by
  obtain ⟨n, hn⟩ := h
  obtain ⟨n', hn'⟩ := h'
  exact Option.some.inj
    ((hn (max n n') (le_max_left n n')).symm.trans (hn' (max n n') (le_max_right n n')))

/-- `list` returns the same in trees that are the same below the base path, if the base path leads
to the same. -/
lemma listReturns_congr (hstat : fs'.stat st.basePath = fs.stat st.basePath)
    (hsame : SameBelow fs fs' (fs.placeOf st.basePath))
    (hnames : fs.ProperBelow (fs.placeOf st.basePath)) (order : ReadOrder) (start : Option String)
    (r : Except String (List String)) :
    st.ListReturns fs' order start r ↔ st.ListReturns fs order start r := by
  rcases hbase : fs.stat st.basePath with e | ⟨⟨⟩ | data⟩
  · -- there is no base directory
    refine exists_congr fun fuel => forall₂_congr fun n _ => ?_
    rw [list, list, hstat, hbase]
    rfl
  · have hold := listReturns_listing order start hbase hnames
    have hplace : fs'.placeOf st.basePath = fs.placeOf st.basePath := Fs.placeOf_congr hsame.cwd _
    have hnew := listReturns_listing order start (hstat.trans hbase)
      (hplace ▸ hsame.properBelow hnames)
    rw [hplace, listing_congr hsame.below] at hnew
    exact ⟨fun h => h.unique hnew ▸ hold, fun h => h.unique hold ▸ hnew⟩
  · -- the base path leads to a file, which cannot be read as a directory
    have hread : ∀ fs : Fs, fs.stat st.basePath = .ok (.file data) → ∀ n,
        st.list fs order start (n + 1) = some (.error (errorText .notDirectory)) := by
      intro fs hfile n
      rw [list, hfile, Worklist.loop, visitDir, Fs.readDir, hfile]
      rfl
    refine exists_congr fun fuel => forall₂_congr fun n _ => ?_
    cases n with
    | zero =>
      rw [list, list, hstat, hbase]
      rfl
    | succ n => rw [hread fs hbase, hread fs' (hstat.trans hbase)]

/-! #### The health check -/

/-- If the call is an `is_healthy`, `get` returns afterwards for every accepted key what it returned
before, and so does `list`. -/
def HealthKeeps (st : LocalBlobStore) (codec : MetadataCodec) (fs : Fs) : Call → Prop
  | .isHealthy faults latency =>
    let fs' := ((st.isHealthy latency).run (serveWith faults) fs).2
    (∀ key path, st.resolvePath key = .ok path →
      ((st.get codec key).run serve fs').1 = ((st.get codec key).run serve fs).1) ∧
    ∀ order start r, st.ListReturns fs' order start r ↔ st.ListReturns fs order start r
  | _ => True

/-- If the call is an `is_healthy`, no directory is made, and if the base directory is there, the
file of the probe is restored. -/
def ProbeUnnoticed (st : LocalBlobStore) (fs : Fs) : Call → Prop
  | .isHealthy faults _ =>
    let made := serveWith faults (.createDirAll (components st.basePath)) fs
    made.2 = fs ∧ (made.1 = .ok () →
      fs.Restored st.healthFile probeData (faults (.write st.healthFile probeData))
        (faults (.removeFile st.healthFile)))
  | _ => True

/-- `is_healthy` makes the base directory and then probes it. -/
lemma run_isHealthy {faults : FsCall → Option Fault} {made : Except String Unit × Fs}
    (hmade : serveWith faults (.createDirAll (components st.basePath)) fs = made) (latency : Nat) :
    ((st.isHealthy latency).run (serveWith faults) fs).2 =
      if made.1 = .ok () then
        made.2.probe st.healthFile probeData (faults (.write st.healthFile probeData))
          (faults (.removeFile st.healthFile))
      else made.2 := by
  obtain ⟨e | ⟨⟩, fs₁⟩ := made
  · rw [isHealthy, Prog.run_perform_bind hmade, if_neg nofun]
    rfl
  · rw [isHealthy, Prog.run_perform_bind hmade, if_pos rfl, Fs.probe]
    rcases hwritten : fs₁.writeWith (faults (.write st.healthFile probeData)) st.healthFile
      probeData with ⟨e | ⟨⟩, fs₂⟩
    all_goals
      have hwrite : serveWith faults (.write st.healthFile probeData) fs₁ = (_, fs₂) :=
        congrArg (fun r => (r.1.mapError failureText, r.2)) hwritten
      exact congrArg Prod.snd (Prog.run_perform_bind hwrite _)

/-- A health check that is not noticed keeps what `get` and `list` return. -/
lemma healthKeeps_of_unnoticed (hnames : fs.ProperBelow (fs.placeOf st.basePath)) {call : Call}
    (h : st.ProbeUnnoticed fs call) : st.HealthKeeps codec fs call := by
  rcases call with - | - | ⟨faults, latency⟩
  · trivial
  · trivial
  obtain ⟨hmade, hrestored⟩ := h
  have halike : Fs.Alike fs ((st.isHealthy latency).run (serveWith faults) fs).2 := by
    rw [run_isHealthy rfl latency, hmade]
    split_ifs with hok
    · exact (fs.alike_probe_iff _ _ _ _).mpr (hrestored hok)
    · exact .refl fs
  refine ⟨fun key path hpath => ?_, fun order start r => ?_⟩
  · rw [run_get hpath, run_get hpath, halike.stat, halike.stat]
  · refine listReturns_congr (halike.stat _) (SameBelow.of_alike ?_ halike) hnames order start r
    exact ⟨rfl, fun _ _ => rfl, fun _ _ => Iff.rfl⟩

end LocalBlobStore

end Rust

/-! ### The Go store -/

namespace Go

/-- No call brings in a name with slashes, with faults or without. -/
lemma keepsNames_serveWith (faults : FsCall → Option Fault) (c : FsCall) (fs : Fs) :
    Fs.KeepsNames fs (serveWith faults c fs).2 := by
  cases c with
  | mkdirAll path => exact Fs.keepsNames_makeDirsWith _ fun q hq => slash_notMem_of_mem_pieces hq
  | writeFile path data => exact fs.keepsNames_writeWith _ path data
  | readFile path => exact .refl fs
  | remove path =>
    rw [serveWith]
    rcases faults (.remove path) with - | f
    · have hunlink := fs.keepsNames_unlinkWith none path
      have hrmdir := fs.keepsNames_rmdir path
      simp only [serve, remove]
      rw [Fs.unlinkWith] at hunlink
      rcases hfile : fs.unlink path with ⟨e | ⟨⟩, fs₁⟩
      · rcases hdir : fs.rmdir path with ⟨e' | ⟨⟩, fs₂⟩
        · exact .refl fs
        · rw [hdir] at hrmdir
          exact hrmdir
      · rw [hfile] at hunlink
        exact hunlink
    · exact .refl fs

namespace LocalBlobStore

variable {s : LocalBlobStore} {codec : MetadataCodec} {start : Option String}

/-- A program keeps names. -/
lemma keepsNames_run {ρ : Type} (faults : FsCall → Option Fault) (p : FsProg ρ) :
    Fs.KeepsNames fs (p.run (serveWith faults) fs).2 :=
  (Prog.makes_of_forall (fun _ => trivial) p : p.Makes fun _ => True).run_rel Fs.KeepsNames.refl
    (fun _ _ _ => .trans) (fun c s _ => keepsNames_serveWith faults c s) fs

/-- No operation brings in a name with slashes. -/
lemma keepsNames_step {call : Call} (h : s.step codec fs call = some fs') :
    Fs.KeepsNames fs fs' := by
  cases call
  all_goals
    obtain rfl := Option.some.inj h
    exact keepsNames_run _ _

/-! #### What `List` returns -/

/-- `List` returns one result. -/
lemma ListReturns.unique {r r' : Except String (List String)}
    (h : s.ListReturns fs start r) (h' : s.ListReturns fs start r') : r = r' := by
  obtain ⟨n, hn⟩ := h
  obtain ⟨n', hn'⟩ := h'
  exact Option.some.inj
    ((hn (max n n') (le_max_left n n')).symm.trans (hn' (max n n') (le_max_right n n')))

/-- `List` returns the same in trees that are the same below the base path, if the base path leads
to the same. -/
lemma listReturns_congr (hstat : fs'.stat s.basePath = fs.stat s.basePath)
    (hsame : SameBelow fs fs' (fs.placeOf s.basePath))
    (hnames : fs.ProperBelow (fs.placeOf s.basePath)) (start : Option String)
    (r : Except String (List String)) :
    s.ListReturns fs' start r ↔ s.ListReturns fs start r := by
  rcases hbase : fs.stat s.basePath with e | ⟨⟨⟩ | data⟩
  · -- the base path leads nowhere
    refine exists_congr fun fuel => forall₂_congr fun n _ => ?_
    rw [list, list, hstat, hbase]
    cases e
    all_goals rfl
  · have hold := listReturns_listing start hbase hnames
    have hplace : fs'.placeOf s.basePath = fs.placeOf s.basePath := Fs.placeOf_congr hsame.cwd _
    have hnew := listReturns_listing start (hstat.trans hbase)
      (hplace ▸ hsame.properBelow hnames)
    rw [hplace, listing_congr hsame.below] at hnew
    exact ⟨fun h => h.unique hnew ▸ hold, fun h => h.unique hold ▸ hnew⟩
  · -- the base path leads to a file, at which the walk ends
    refine exists_congr fun fuel => forall₂_congr fun n _ => ?_
    rw [list, list, hstat, hbase]
    cases n
    all_goals rfl

/-! #### The health check -/

/-- If the call is an `IsHealthy`, `Get` returns afterwards for every accepted key what it returned
before, and so does `List`. -/
def HealthKeeps (s : LocalBlobStore) (codec : MetadataCodec) (fs : Fs) : Call → Prop
  | .isHealthy faults latency =>
    let fs' := ((s.isHealthy latency).run (serveWith faults) fs).2
    (∀ key path, s.resolvePath key = .ok path →
      ((s.get codec none key).run serve fs').1 = ((s.get codec none key).run serve fs).1) ∧
    ∀ start r, s.ListReturns fs' start r ↔ s.ListReturns fs start r
  | _ => True

/-- If the call is an `IsHealthy`, no directory is made below the base directory; the base path
leads to what it led to, or to a directory that is new to `List` and has no blobs in it; and if the
base directory is there, the file of the probe is restored. -/
def ProbeUnnoticed (s : LocalBlobStore) (fs : Fs) : Call → Prop
  | .isHealthy faults _ =>
    let made := serveWith faults (.mkdirAll s.basePath) fs
    let b := fs.placeOf s.basePath
    (∀ ns, ns ≠ [] → made.2.node (b ++ ns) = fs.node (b ++ ns)) ∧
    (made.2.stat s.basePath = fs.stat s.basePath ∨
      fs.stat s.basePath = .error .noEntry ∧ made.2.stat s.basePath = .ok .dir ∧
        ∀ ns name data, fs.node (b ++ ns ++ [name]) = some (.file data) → metaSuffix <:+ name) ∧
    (made.1 = .ok () →
      made.2.Restored s.probeFile probeData (faults (.writeFile s.probeFile probeData))
        (faults (.remove s.probeFile)))
  | _ => True

/-- `os.Remove` of a file removes it. -/
lemma serveWith_remove_file (faults : FsCall → Option Fault) {path : Path} {data : List UInt8}
    (hfile : fs.stat path = .ok (.file data)) :
    (serveWith faults (.remove path) fs).2 = (fs.unlinkWith (faults (.remove path)) path).2 := by
  rw [serveWith]
  rcases faults (.remove path) with - | f
  · rcases fs.unlink_cases path with ⟨bytes, fs', -, hunlink, -⟩ | ⟨hnone, -⟩
    · simp only [serve, remove, Fs.unlinkWith, hunlink]
    · exact absurd hfile (hnone data)
  · rfl

/-- `IsHealthy` makes the base directory and then probes it. -/
lemma run_isHealthy {faults : FsCall → Option Fault} {made : Except FsError Unit × Fs}
    (hmade : serveWith faults (.mkdirAll s.basePath) fs = made) (latency : Int) :
    ((s.isHealthy latency).run (serveWith faults) fs).2 =
      if made.1 = .ok () then
        made.2.probe s.probeFile probeData (faults (.writeFile s.probeFile probeData))
          (faults (.remove s.probeFile))
      else made.2 := by
  obtain ⟨e | ⟨⟩, fs₁⟩ := made
  · rw [isHealthy, Prog.run_call hmade, if_neg nofun]
    rfl
  · rw [isHealthy, Prog.run_call hmade, if_pos rfl, Fs.probe]
    rcases hwritten : fs₁.writeWith (faults (.writeFile s.probeFile probeData)) s.probeFile
      probeData with ⟨e | ⟨⟩, fs₂⟩
    all_goals
      have hwrite : serveWith faults (.writeFile s.probeFile probeData) fs₁ = (_, fs₂) :=
        congrArg (fun r => (r.1.mapError (failure "open" s.probeFile), r.2)) hwritten
      refine (congrArg Prod.snd (Prog.run_call hwrite _)).trans ?_
    · rfl
    · have hfile : fs₂.stat s.probeFile = .ok (.file probeData) := by
        rcases fs₁.writeWith_cases (faults (.writeFile s.probeFile probeData)) s.probeFile probeData
          with ⟨-, -, fs', hwith, hfs'⟩ | ⟨-, e, hwith⟩ | ⟨-, bytes, e, fs', -, hwith, -⟩
        all_goals rw [hwritten] at hwith
        · obtain rfl := (Prod.mk.inj hwith).2
          exact Fs.stat_of_written hfs'
        · cases hwith
        · cases hwith
      exact serveWith_remove_file faults hfile

/-- The paths of an accepted key lead to the same in trees that are the same below the base path. -/
lemma stat_of_sameBelow {key : String} {path : Path} (hpath : s.resolvePath key = .ok path)
    (h : SameBelow fs fs' (fs.placeOf s.basePath)) :
    fs'.stat path = fs.stat path ∧ fs'.stat (metaPath path) = fs.stat (metaPath path) := by
  obtain ⟨hblob, ms, hms, hsidecar⟩ := placeOf_paths fs hpath
  obtain ⟨-, hne, -⟩ := of_resolvePath_eq_ok hpath
  obtain ⟨qs, rs, -, hanchored⟩ := anchored_of_resolvePath hpath
  obtain ⟨qs', rs', hanchored'⟩ := anchored_metaPath hpath
  have hnew := hanchored fs'
  have hnew' := hanchored' fs'
  rw [Fs.start_congr h.cwd] at hnew hnew'
  exact ⟨h.stat (hanchored fs) hnew hne hblob, h.stat (hanchored' fs) hnew' hms hsidecar⟩

/-- Where the base path led nowhere and leads to a directory without blobs, `List` returns the same:
nothing. -/
lemma listReturns_of_new (hstat : fs.stat s.basePath = .error .noEntry)
    (hstat' : fs'.stat s.basePath = .ok .dir) (hnames : fs'.ProperBelow (fs'.placeOf s.basePath))
    (hfiles : ∀ ns name data, fs'.node (fs'.placeOf s.basePath ++ ns ++ [name]) =
      some (.file data) → metaSuffix <:+ name) (start : Option String)
    (r : Except String (List String)) :
    s.ListReturns fs' start r ↔ s.ListReturns fs start r := by
  have hold : s.ListReturns fs start (.ok []) := by
    refine ⟨0, fun n _ => ?_⟩
    rw [list, hstat]
  have hnew := listReturns_listing start hstat' hnames
  have hempty : listing fs' metaSuffix id start (fs'.placeOf s.basePath) = [] := by
    refine List.eq_nil_iff_forall_not_mem.mpr fun key hkey => ?_
    obtain ⟨ns, name, data, hfile, hsuffix, -⟩ := (mem_listing (fun _ _ _ => rfl) key).mp hkey
    exact hsuffix (hfiles ns name data hfile)
  rw [hempty] at hnew
  exact ⟨fun h => h.unique hnew ▸ hold, fun h => h.unique hold ▸ hnew⟩

/-- A health check that is not noticed keeps what `Get` and `List` return. -/
lemma healthKeeps_of_unnoticed (hnames : fs.ProperBelow (fs.placeOf s.basePath)) {call : Call}
    (h : s.ProbeUnnoticed fs call) : s.HealthKeeps codec fs call := by
  rcases call with - | - | ⟨faults, latency⟩
  · trivial
  · trivial
  obtain ⟨hbelow, hbase, hrestored⟩ := h
  have hmade : SameBelow fs (serveWith faults (.mkdirAll s.basePath) fs).2
      (fs.placeOf s.basePath) := by
    obtain ⟨hcwd, hfiles⟩ := fs.makeDirsWith_keeps (faults (.mkdirAll s.basePath))
      (fs.start s.basePath) (pieces s.basePath)
    exact ⟨hcwd, hbelow, fun x _ => exists_congr fun data => hfiles x data⟩
  have halike : Fs.Alike (serveWith faults (.mkdirAll s.basePath) fs).2
      ((s.isHealthy latency).run (serveWith faults) fs).2 := by
    rw [run_isHealthy rfl latency]
    split_ifs with hok
    · exact (Fs.alike_probe_iff _ _ _ _ _).mpr (hrestored hok)
    · exact .refl _
  have hsame := hmade.of_alike halike
  have hplace := Fs.placeOf_congr hsame.cwd s.basePath
  refine ⟨fun key path hpath => ?_, fun start r => ?_⟩
  · obtain ⟨hblob, hsidecar⟩ := stat_of_sameBelow hpath hsame
    rw [run_get hpath, run_get hpath, hblob, hsidecar]
  · rcases hbase with hstat | ⟨hstat, hstat', hfiles⟩
    · exact listReturns_congr ((halike.stat _).trans hstat) hsame hnames start r
    · refine listReturns_of_new hstat ((halike.stat _).trans hstat') ?_ ?_ start r
      · rw [hplace]
        exact hsame.properBelow hnames
      · intro ns name data hfile
        rw [hplace, List.append_assoc, hsame.below _ (by simp), ← List.append_assoc] at hfile
        exact hfiles ns name data hfile

end LocalBlobStore

end Go

/-! ### Both stores -/

/-- In every run of both stores, with any faults, in which every health check finds the base
directory, or makes one in which nothing comes to light, and restores the file of its probe, each
health check keeps what `get` and `list` return. -/
theorem healthKeeps (fs : Fs) :
    (∀ (st : Rust.LocalBlobStore) (codec : Rust.MetadataCodec)
      (calls : List Rust.LocalBlobStore.Call), fs.ProperBelow (fs.placeOf st.basePath) →
      StepsMeet (st.step codec) st.ProbeUnnoticed fs calls →
        StepsMeet (st.step codec) (st.HealthKeeps codec) fs calls) ∧
    (∀ (s : Go.LocalBlobStore) (codec : Go.MetadataCodec) (calls : List Go.LocalBlobStore.Call),
      fs.ProperBelow (fs.placeOf s.basePath) →
      StepsMeet (s.step codec) s.ProbeUnnoticed fs calls →
        StepsMeet (s.step codec) (s.HealthKeeps codec) fs calls) := by
  constructor
  · intro st codec calls hnames hmeets pre call t t' hpre ht hcall
    have hkept : Fs.KeepsNames fs t :=
      invariant_of_runFrom
        (fun _ _ _ h hstep => h.trans (Rust.LocalBlobStore.keepsNames_step hstep))
        (Fs.KeepsNames.refl fs) ht
    refine Rust.LocalBlobStore.healthKeeps_of_unnoticed ?_ (hmeets pre call t t' hpre ht hcall)
    rw [Fs.placeOf_congr hkept.cwd]
    exact hkept.proper _ hnames
  · intro s codec calls hnames hmeets pre call t t' hpre ht hcall
    have hkept : Fs.KeepsNames fs t :=
      invariant_of_runFrom (fun _ _ _ h hstep => h.trans (Go.LocalBlobStore.keepsNames_step hstep))
        (Fs.KeepsNames.refl fs) ht
    refine Go.LocalBlobStore.healthKeeps_of_unnoticed ?_ (hmeets pre call t t' hpre ht hcall)
    rw [Fs.placeOf_congr hkept.cwd]
    exact hkept.proper _ hnames

/-- In both stores under `data`, a health check after the `put` of a blob `a` keeps what `get` and
`list` return. -/
theorem healthKeeps_after_put :
    StepsMeet (Rust.LocalBlobStore.step ⟨"data".toList⟩ Rust.plainCodec)
      (Rust.LocalBlobStore.HealthKeeps ⟨"data".toList⟩ Rust.plainCodec) Fs.empty
      [.put (fun _ => none) "a" [1] none, .isHealthy (fun _ => none) 0] ∧
    StepsMeet (Go.LocalBlobStore.step (.new "data".toList) Go.plainCodec)
      (Go.LocalBlobStore.HealthKeeps (.new "data".toList) Go.plainCodec) Fs.empty
      [.put (fun _ => none) "a" [1] none, .isHealthy (fun _ => none) 0] :=
  ⟨(healthKeeps Fs.empty).1 _ _ _ (Fs.properBelow_empty _)
      (.cons rfl trivial (.cons rfl ⟨rfl, fun _ => rfl⟩ (.nil _))),
    (healthKeeps Fs.empty).2 _ _ _ (Fs.properBelow_empty _)
      (.cons rfl trivial
        (.cons rfl ⟨fun _ _ => rfl, Or.inl rfl, fun _ => rfl⟩ (.nil _)))⟩

/-- In both stores under `data`, a blob that was put under `.health_check_probe` is gone after a
health check. -/
theorem not_healthKeeps :
    ¬ StepsMeet (Rust.LocalBlobStore.step ⟨"data".toList⟩ Rust.plainCodec)
      (Rust.LocalBlobStore.HealthKeeps ⟨"data".toList⟩ Rust.plainCodec) Fs.empty
      [.put (fun _ => none) ".health_check_probe" [1] none, .isHealthy (fun _ => none) 0] ∧
    ¬ StepsMeet (Go.LocalBlobStore.step (.new "data".toList) Go.plainCodec)
      (Go.LocalBlobStore.HealthKeeps (.new "data".toList) Go.plainCodec) Fs.empty
      [.put (fun _ => none) ".health_check_probe" [1] none, .isHealthy (fun _ => none) 0] := by
  constructor
  · intro h
    obtain ⟨hget, -⟩ := h [.put (fun _ => none) ".health_check_probe" [1] none] _ _ _
      List.prefix_rfl rfl rfl
    have hfound := congrArg (fun r => r.toOption.map Option.isSome)
      (hget ".health_check_probe" "data/.health_check_probe".toList (by decide))
    revert hfound
    decide
  · intro h
    obtain ⟨hget, -⟩ := h [.put (fun _ => none) ".health_check_probe" [1] none] _ _ _
      List.prefix_rfl rfl rfl
    have hfound := congrArg (fun r => r.toOption.map Option.isSome)
      (hget ".health_check_probe" "data/.health_check_probe".toList (by decide))
    revert hfound
    decide

end GoyStore
