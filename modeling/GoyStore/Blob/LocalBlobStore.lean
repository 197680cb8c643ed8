import GoyStore.Library.Effects
import GoyStore.Library.UnixPath

/-!
# Containment of the local blob store

`LocalBlobStore` of the Rust library turns a key into a path in three rewrites (leading slashes are
dropped, backslashes become slashes, `..` is rejected) and joins the result to its base directory.
The operations are programs over the calls to the file system.

Backslashes are rewritten after the leading slashes were dropped, so that a key which starts with a
backslash becomes an absolute path, and an absolute path replaces the base directory
(`backslash_key_escapes`).  `contained_iff` says exactly for which keys and bases the store stays
inside its base directory.
-/

namespace GoyStore

namespace Rust

open UnixPath Effects

/-! ### Calls to the file system -/

/-- A call to the file system. -/
inductive FsCall where
  /-- `tokio::fs::create_dir_all`, on a parent directory. -/
  | createDirAll (dir : List Component)
  /-- `tokio::fs::write`. -/
  | write (path : Path) (data : List UInt8)
  /-- `Path::exists`. -/
  | pathExists (path : Path)
  /-- `tokio::fs::read`. -/
  | read (path : Path)
  /-- `tokio::fs::remove_file`. -/
  | removeFile (path : Path)
  /-- `std::fs::canonicalize`. -/
  | canonicalize (path : Path)

/-- The answer to a call; an error is its text. -/
abbrev FsCall.Answer : FsCall → Type
  | .createDirAll _ => Except String Unit
  | .write _ _ => Except String Unit
  | .pathExists _ => Bool
  | .read _ => Except String (List UInt8)
  | .removeFile _ => Except String Unit
  | .canonicalize _ => Except String Path

/-- The components of the path that a call acts on. -/
def FsCall.target : FsCall → List Component
  | .createDirAll dir => dir
  | .write path _ => components path
  | .pathExists path => components path
  | .read path => components path
  | .removeFile path => components path
  | .canonicalize path => components path

/-- What is assumed of the file system: a file is written only under a path that ends in a name,
since a path that ends in a slash, in `.` or in `..` is the path of a directory. -/
def FsCall.Allowed : (c : FsCall) → c.Answer → Prop
  | .write path _, .ok _ => EndsInName path
  | _, _ => True

/-- A program over the file system. -/
abbrev FsProg := Prog String FsCall FsCall.Answer

namespace FsProg

/-- Create a directory and its parents, or fail. -/
def createDirAll (dir : List Component) : FsProg Unit := do
  Prog.ofExcept (← Prog.perform (.createDirAll dir))

/-- Write a file, or fail. -/
def write (path : Path) (data : List UInt8) : FsProg Unit := do
  Prog.ofExcept (← Prog.perform (.write path data))

/-- Read a file, or fail. -/
def read (path : Path) : FsProg (List UInt8) := do
  Prog.ofExcept (← Prog.perform (.read path))

/-- Remove a file that exists; a failure is ignored. -/
def removeIfExists (path : Path) : FsProg Unit := do
  let found ← Prog.perform (.pathExists path)
  if found then
    let _ ← Prog.perform (.removeFile path)
    pure ()
  else
    pure ()

end FsProg

/-! ### The store -/

/-- `Metadata`. -/
structure Metadata where
  /-- The field `content_type`. -/
  contentType : Option String
  /-- The field `custom`. -/
  custom : String → Option String

/-- `Metadata::default`. -/
instance : Inhabited Metadata := ⟨{ contentType := none, custom := fun _ => none }⟩

/-- The JSON coding of the metadata. -/
structure MetadataCodec where
  /-- `serde_json::to_vec`. -/
  toVec : Metadata → Except String (List UInt8)
  /-- `serde_json::from_slice`. -/
  fromSlice : List UInt8 → Except String Metadata

/-- `HealthState`. -/
inductive HealthState where
  /-- `HealthState::Healthy`. -/
  | healthy
  /-- `HealthState::Degraded`. -/
  | degraded
  /-- `HealthState::Unhealthy`. -/
  | unhealthy
  deriving DecidableEq, Repr

/-- `HealthStatus`. -/
structure HealthStatus where
  /-- The field `contract`. -/
  contract : String
  /-- The field `backend`. -/
  backend : String
  /-- The field `state`. -/
  state : HealthState
  /-- The field `message`. -/
  message : Option String
  /-- The field `latency_ms`. -/
  latencyMs : Nat
  deriving DecidableEq, Repr

/-- `HealthStatus::healthy`. -/
def HealthStatus.healthy (contract backend : String) (latencyMs : Nat) : HealthStatus :=
  ⟨contract, backend, .healthy, none, latencyMs⟩

/-- `HealthStatus::unhealthy`. -/
def HealthStatus.unhealthy (contract backend message : String) (latencyMs : Nat) : HealthStatus :=
  ⟨contract, backend, .unhealthy, some message, latencyMs⟩

/-- `LocalBlobStore`. -/
structure LocalBlobStore where
  /-- The field `base_path`. -/
  basePath : Path

/-- The characters of `.meta.json`. -/
def metaSuffix : List Char := ['.', 'm', 'e', 't', 'a', '.', 'j', 's', 'o', 'n']

/-- `replace('\\', "/")`. -/
def slashed (text : List Char) : Path := text.map fun ch => if ch = '\\' then '/' else ch

/-- `trim_start_matches('/')`. -/
def trimSlashes (text : List Char) : List Char := text.dropWhile (· == '/')

namespace LocalBlobStore

/-- The local `clean_key` of `resolve_path`. -/
def cleanKey (key : String) : Path := slashed (trimSlashes key.toList)

/-- `LocalBlobStore::resolve_path`. -/
def resolvePath (st : LocalBlobStore) (key : String) : Except String Path :=
  if ['.', '.'] <:+: cleanKey key then
    .error "Invalid blob key: directory traversal detected"
  else
    .ok (join st.basePath (cleanKey key))

/-- `LocalBlobStore::meta_path`. -/
def metaPath (blobPath : Path) : Path := blobPath ++ metaSuffix

/-- `LocalBlobStore::put`. -/
def put (st : LocalBlobStore) (codec : MetadataCodec) (key : String) (data : List UInt8)
    (metadata : Option Metadata) : FsProg Unit := do
  let blobPath ← Prog.ofExcept (st.resolvePath key)
  (parent blobPath).forM FsProg.createDirAll
  FsProg.write blobPath data
  metadata.forM fun md => do
    let metaJson ← Prog.ofExcept (codec.toVec md)
    FsProg.write (metaPath blobPath) metaJson

/-- The metadata that `LocalBlobStore::get` returns: of the sidecar if there is one. -/
def getMetadata (codec : MetadataCodec) (blobPath : Path) : FsProg Metadata := do
  let found ← Prog.perform (.pathExists (metaPath blobPath))
  if found then
    let metaBytes ← FsProg.read (metaPath blobPath)
    pure ((codec.fromSlice metaBytes).toOption.getD default)
  else
    pure default

/-- `LocalBlobStore::get`. -/
def get (st : LocalBlobStore) (codec : MetadataCodec) (key : String) :
    FsProg (Option (List UInt8 × Metadata)) := do
  let blobPath ← Prog.ofExcept (st.resolvePath key)
  let found ← Prog.perform (.pathExists blobPath)
  if found then
    let data ← FsProg.read blobPath
    let metadata ← getMetadata codec blobPath
    pure (some (data, metadata))
  else
    pure none

/-- `LocalBlobStore::delete`. -/
def delete (st : LocalBlobStore) (key : String) : FsProg Unit := do
  let blobPath ← Prog.ofExcept (st.resolvePath key)
  FsProg.removeIfExists blobPath
  FsProg.removeIfExists (metaPath blobPath)

/-- `LocalBlobStore::presign_url`; the expiry is ignored. -/
def presignUrl (st : LocalBlobStore) (key : String) : FsProg String := do
  let blobPath ← Prog.ofExcept (st.resolvePath key)
  let answer : Except String Path ← Prog.perform (FsCall.canonicalize blobPath)
  let absPath := answer.toOption.getD blobPath
  pure ("file://" ++ String.ofList absPath)

/-- The file that `LocalBlobStore::is_healthy` writes. -/
def healthFile (st : LocalBlobStore) : Path := join st.basePath ".health_check_probe".toList

/-- The bytes `b"ok"`. -/
def probeData : List UInt8 := [111, 107]

/-- `LocalBlobStore::is_healthy`; `latency` is the time that it took, in milliseconds. -/
def isHealthy (st : LocalBlobStore) (latency : Nat) : FsProg HealthStatus := do
  let created : Except String Unit ← Prog.perform (FsCall.createDirAll (components st.basePath))
  match created with
  | .ok _ =>
    let written : Except String Unit ← Prog.perform (FsCall.write st.healthFile probeData)
    match written with
    | .ok _ =>
      let _ ← Prog.perform (FsCall.removeFile st.healthFile)
      pure (.healthy "blob" "local" latency)
    | .error e =>
      pure (.unhealthy "blob" "local" ("cannot write to blob dir: " ++ e) latency)
  | .error e => pure (.unhealthy "blob" "local" ("cannot create blob dir: " ++ e) latency)

/-- A call acts on a path under the base directory. -/
def Stays (st : LocalBlobStore) (c : FsCall) : Prop := InsideDir st.basePath c.target

/-- The store stays inside its base directory with a key: an accepted key resolves to a path inside
it, and every operation fails or acts on such paths only. -/
structure Contained (st : LocalBlobStore) (codec : MetadataCodec) (key : String) : Prop where
  /-- The path that `resolve_path` returns is inside. -/
  resolved : ∀ path, st.resolvePath key = .ok path → Inside st.basePath path
  /-- `put` fails or stays inside. -/
  put : ∀ data metadata, (st.put codec key data metadata).Confined FsCall.Allowed st.Stays
  /-- `get` fails or stays inside. -/
  get : (st.get codec key).Confined FsCall.Allowed st.Stays
  /-- `delete` fails or stays inside. -/
  delete : (st.delete key).Confined FsCall.Allowed st.Stays
  /-- `presign_url` fails or stays inside. -/
  presignUrl : (st.presignUrl key).Confined FsCall.Allowed st.Stays

end LocalBlobStore

/-! ### The calls of the operations -/

namespace FsProg

variable {good : FsCall → Prop}

/-- A value or an error makes no call. -/
lemma confined_ofExcept {ρ : Type} (r : Except String ρ) :
    (Prog.ofExcept r : FsProg ρ).Confined FsCall.Allowed good := by
  rcases r with e | r
  · exact Prog.confined_fail e
  · exact Prog.confined_done r

/-- One good call. -/
lemma confined_perform {c : FsCall} (hc : good c) :
    (Prog.perform c : FsProg c.Answer).Confined FsCall.Allowed good :=
  Prog.confined_call hc fun a _ => Prog.confined_done a

/-- Creating a directory makes one call. -/
lemma confined_createDirAll {dir : List Component} (h : good (.createDirAll dir)) :
    (createDirAll dir).Confined FsCall.Allowed good :=
  (confined_perform h).bind confined_ofExcept

/-- Writing a file makes one call. -/
lemma confined_write {path : Path} {data : List UInt8} (h : good (.write path data)) :
    (write path data).Confined FsCall.Allowed good :=
  (confined_perform h).bind confined_ofExcept

/-- Reading a file makes one call. -/
lemma confined_read {path : Path} (h : good (.read path)) :
    (read path).Confined FsCall.Allowed good :=
  (confined_perform h).bind confined_ofExcept

/-- Removing a file makes two calls. -/
lemma confined_removeIfExists {path : Path} (hexists : good (.pathExists path))
    (hremove : good (.removeFile path)) :
    (removeIfExists path).Confined FsCall.Allowed good := by
  refine (confined_perform hexists).bind fun found => ?_
  cases found with
  | true => exact (confined_perform hremove).bind fun _ => Prog.confined_done ()
  | false => exact Prog.confined_done ()

/-- A program that runs only if a value is there. -/
lemma confined_forM {α : Type} {o : Option α} {f : α → FsProg Unit}
    (h : ∀ a, o = some a → (f a).Confined FsCall.Allowed good) :
    (o.forM f).Confined FsCall.Allowed good := by
  cases o with
  | none => exact Prog.confined_done ()
  | some a => exact h a rfl

/-- No file is written under the path of a directory. -/
lemma fails_write {path : Path} {data : List UInt8} (h : ¬ EndsInName path) :
    (write path data).Fails FsCall.Allowed := by
  rintro (e | ⟨⟩) hanswer
  · exact ⟨e, rfl⟩
  · exact absurd hanswer h

end FsProg

namespace LocalBlobStore

/-- The paths of an accepted key are inside the base directory; its parent counts only if the path
can be the path of a file. -/
structure PathsInside (base blobPath : Path) : Prop where
  /-- The path of the blob. -/
  blob : Inside base blobPath
  /-- The path of the sidecar. -/
  sidecar : Inside base (metaPath blobPath)
  /-- The parent directory. -/
  parentDir : EndsInName blobPath → ∀ dir, parent blobPath = some dir → InsideDir base dir

variable {st : LocalBlobStore} {codec : MetadataCodec} {key : String} {path : Path}

/-- A program that starts by resolving a key which is rejected. -/
lemma confined_of_error {ρ : Type} {f : Path → FsProg ρ} {e : String}
    (h : st.resolvePath key = .error e) :
    (Prog.ofExcept (st.resolvePath key) >>= f).Confined FsCall.Allowed st.Stays := by
  rw [h]
  exact Prog.confined_fail e

/-- A program that starts by resolving a key which is accepted. -/
lemma confined_of_ok {ρ : Type} {f : Path → FsProg ρ} (h : st.resolvePath key = .ok path)
    (hf : (f path).Confined FsCall.Allowed st.Stays) :
    (Prog.ofExcept (st.resolvePath key) >>= f).Confined FsCall.Allowed st.Stays := by
  rw [h]
  exact hf

/-- The store stays inside with a key that it rejects. -/
lemma contained_of_error {e : String} (h : st.resolvePath key = .error e) :
    st.Contained codec key where
  resolved path hpath := by
    rw [h] at hpath
    cases hpath
  put _ _ := confined_of_error h
  get := confined_of_error h
  delete := confined_of_error h
  presignUrl := confined_of_error h

/-- `put` fails or stays inside if its paths are inside. -/
lemma confined_put (h : st.resolvePath key = .ok path) (hp : PathsInside st.basePath path)
    (data : List UInt8) (metadata : Option Metadata) :
    (st.put codec key data metadata).Confined FsCall.Allowed st.Stays := by
  apply confined_of_ok h
  by_cases hname : EndsInName path
  · have hparent : ((parent path).forM FsProg.createDirAll).Confined FsCall.Allowed st.Stays :=
      FsProg.confined_forM fun dir hdir =>
        FsProg.confined_createDirAll (hp.parentDir hname dir hdir)
    refine hparent.bind fun _ => (FsProg.confined_write hp.blob).bind fun _ => ?_
    exact FsProg.confined_forM fun md _ =>
      (FsProg.confined_ofExcept _).bind fun _ => FsProg.confined_write hp.sidecar
  · -- the parent may be outside, but no file is written afterwards
    refine Prog.Fails.confined (Prog.Fails.of_bind fun _ => ?_)
    exact (FsProg.fails_write hname).bind _

/-- `get` stays inside if its paths are inside. -/
lemma confined_get (h : st.resolvePath key = .ok path) (hp : PathsInside st.basePath path) :
    (st.get codec key).Confined FsCall.Allowed st.Stays := by
  have hmetadata : (getMetadata codec path).Confined FsCall.Allowed st.Stays := by
    refine (FsProg.confined_perform hp.sidecar).bind fun found => ?_
    cases found with
    | true => exact (FsProg.confined_read hp.sidecar).bind fun _ => Prog.confined_done _
    | false => exact Prog.confined_done _
  refine confined_of_ok h ((FsProg.confined_perform hp.blob).bind fun found => ?_)
  cases found with
  | true =>
    exact (FsProg.confined_read hp.blob).bind fun _ => hmetadata.bind fun _ => Prog.confined_done _
  | false => exact Prog.confined_done _

/-- `delete` stays inside if its paths are inside. -/
lemma confined_delete (h : st.resolvePath key = .ok path) (hp : PathsInside st.basePath path) :
    (st.delete key).Confined FsCall.Allowed st.Stays := by
  have hblob : (FsProg.removeIfExists path).Confined FsCall.Allowed st.Stays :=
    FsProg.confined_removeIfExists hp.blob hp.blob
  have hsidecar : (FsProg.removeIfExists (metaPath path)).Confined FsCall.Allowed st.Stays :=
    FsProg.confined_removeIfExists hp.sidecar hp.sidecar
  exact confined_of_ok h (hblob.bind fun _ => hsidecar)

/-- `presign_url` stays inside if its path is inside. -/
lemma confined_presignUrl (h : st.resolvePath key = .ok path)
    (hp : PathsInside st.basePath path) :
    (st.presignUrl key).Confined FsCall.Allowed st.Stays :=
  confined_of_ok h ((FsProg.confined_perform hp.blob).bind fun _ => Prog.confined_done _)

/-- The store stays inside if the paths of the key are inside. -/
lemma contained_of_pathsInside (h : st.resolvePath key = .ok path)
    (hp : PathsInside st.basePath path) : st.Contained codec key where
  resolved path' hpath' := by
    obtain rfl : path = path' := Except.ok.inj (h.symm.trans hpath')
    exact hp.blob
  put := confined_put h hp
  get := confined_get h hp
  delete := confined_delete h hp
  presignUrl := confined_presignUrl h hp

/-- The sidecar of an accepted key is inside if `delete` stays inside: it is removed when it exists,
whether or not there is a blob. -/
lemma inside_metaPath_of_contained (h : st.resolvePath key = .ok path)
    (hc : st.Contained codec key) : Inside st.basePath (metaPath path) := by
  have hdelete := hc.delete
  unfold delete at hdelete
  rw [h] at hdelete
  rcases hdelete false trivial true trivial (.ok ()) trivial with ⟨e, he⟩ | hcalls
  · cases he
  · exact hcalls (.removeFile (metaPath path)) (by simp)

end LocalBlobStore

/-! ### The rewrites of the key -/

/-- The suffix of a sidecar has no slash. -/
lemma slash_notMem_metaSuffix : '/' ∉ metaSuffix := by decide

/-- The suffix of a sidecar makes a name of every piece. -/
lemma two_lt_length_metaSuffix : 2 < metaSuffix.length := by decide

/-- Only a dot is rewritten to a dot. -/
lemma dots_infix_slashed (text : List Char) :
    ['.', '.'] <:+: slashed text ↔ ['.', '.'] <:+: text := by
  have hdot : ∀ ch : Char, (if ch = '\\' then '/' else ch) = '.' ↔ ch = '.' := by
    intro ch
    split_ifs with hch
    · subst hch
      decide
    · exact Iff.rfl
  constructor
  · intro h
    obtain ⟨part, hpart, heq⟩ := List.infix_map_iff.mp h
    obtain ⟨a, rest, rfl, ha, hrest⟩ := List.map_eq_cons_iff.mp heq.symm
    obtain ⟨b, rest, rfl, hb, hnil⟩ := List.map_eq_cons_iff.mp hrest
    obtain rfl := List.map_eq_nil_iff.mp hnil
    rwa [(hdot a).mp ha, (hdot b).mp hb] at hpart
  · exact fun h => h.map fun ch => if ch = '\\' then '/' else ch

/-- No dot is trimmed. -/
lemma dots_infix_trimSlashes (text : List Char) :
    ['.', '.'] <:+: trimSlashes text ↔ ['.', '.'] <:+: text := by
  induction text with
  | nil => exact Iff.rfl
  | cons ch text ih =>
    by_cases hch : ch = '/'
    · subst hch
      have htrim : trimSlashes ('/' :: text) = trimSlashes text := rfl
      have hprefix : ¬ ['.', '.'] <+: '/' :: text := by
        rintro ⟨t, ht⟩
        cases ht
      rw [htrim, ih, List.infix_cons_iff]
      exact ⟨Or.inr, fun h => h.resolve_left hprefix⟩
    · rw [trimSlashes, List.dropWhile_cons_of_neg (by simpa using hch)]

/-- The path of a key is absolute if a backslash follows its leading slashes. -/
lemma isAbsolute_cleanKey_iff (key : String) :
    isAbsolute (LocalBlobStore.cleanKey key) ↔ (trimSlashes key.toList).head? = some '\\' := by
  have hhead := List.head?_dropWhile_not (· == '/') key.toList
  unfold LocalBlobStore.cleanKey trimSlashes
  cases htrim : key.toList.dropWhile (· == '/') with
  | nil => simp [isAbsolute, slashed]
  | cons ch rest =>
    rw [htrim] at hhead
    have hch : ch ≠ '/' := by simpa using hhead
    by_cases hback : ch = '\\'
    · subst hback
      simp [isAbsolute, slashed]
    · simp [isAbsolute, slashed, hback, hch]

/-- If a backslash follows the leading slashes, the slashed key is the cleaned key with more
slashes before it. -/
lemma components_slashed {text : List Char} (h : (trimSlashes text).head? = some '\\') :
    isAbsolute (slashed text) ∧
      components (slashed (trimSlashes text)) = components (slashed text) ∧
      lastComponent (slashed (trimSlashes text)) = lastComponent (slashed text) := by
  induction text with
  | nil => cases h
  | cons ch text ih =>
    by_cases hch : ch = '/'
    · subst hch
      obtain ⟨habs, hcomp, hlast⟩ := ih h
      obtain ⟨hcons, hconsLast⟩ := components_cons_slash habs
      exact ⟨rfl, hcomp.trans hcons.symm, hlast.trans hconsLast.symm⟩
    · rw [trimSlashes, List.dropWhile_cons_of_neg (by simpa using hch)] at h ⊢
      obtain rfl : ch = '\\' := Option.some.inj h
      exact ⟨rfl, rfl, rfl⟩

namespace LocalBlobStore

/-- Exactly the keys with two dots in a row are rejected. -/
lemma resolvePath_eq (st : LocalBlobStore) (key : String) :
    (['.', '.'] <:+: key.toList ∧
        st.resolvePath key = .error "Invalid blob key: directory traversal detected") ∨
      (['.', '.'] ∉ pieces (cleanKey key) ∧ ¬ ['.', '.'] <:+: key.toList ∧
        st.resolvePath key = .ok (join st.basePath (cleanKey key))) := by
  have hdots : ['.', '.'] <:+: cleanKey key ↔ ['.', '.'] <:+: key.toList :=
    (dots_infix_slashed _).trans (dots_infix_trimSlashes _)
  by_cases h : ['.', '.'] <:+: cleanKey key
  · exact Or.inl ⟨hdots.mp h, if_pos h⟩
  · refine Or.inr ⟨fun hmem => h (infix_of_mem_pieces hmem), fun hkey => h (hdots.mpr hkey), ?_⟩
    exact if_neg h

/-- A key that becomes a relative path stays inside every base directory. -/
lemma pathsInside_of_relative (base : Path) {key : String}
    (hdots : ['.', '.'] ∉ pieces (cleanKey key)) (hrel : ¬ isAbsolute (cleanKey key)) :
    PathsInside base (join base (cleanKey key)) := by
  obtain ⟨rest, hrest, hrestDots, hempty⟩ := inside_join base hrel hdots
  refine ⟨⟨rest, hrest, hrestDots⟩, ?_, fun hname dir hdir => ?_⟩
  · have hrel' : ¬ isAbsolute (cleanKey key ++ metaSuffix) := by
      cases hclean : cleanKey key with
      | nil => decide
      | cons ch p =>
        rw [hclean] at hrel
        exact hrel
    have hdots' :=
      dots_notMem_pieces_append hdots slash_notMem_metaSuffix two_lt_length_metaSuffix
    obtain ⟨rest', hrest', hrestDots', -⟩ := inside_join base hrel' hdots'
    rw [metaPath, join_append base hrel hrel']
    exact ⟨rest', hrest', hrestDots'⟩
  · -- a path that ends in a name has a component after the base
    refine insideDir_parent hrest hrestDots (fun hnil => ?_) hdir
    refine not_endsInName_of_filterMap_eq_nil (hempty hnil) ?_
    obtain ⟨name, hname⟩ := hname
    exact ⟨name, (lastComponent_join base hrel).symm.trans hname⟩

/-- The sidecar of an absolute path inside a base directory is inside as well, unless the path is
the base directory itself and ends in a name. -/
lemma inside_metaPath_iff {base path : Path} (hdots : ['.', '.'] ∉ pieces path)
    (habs : isAbsolute path) (hin : Inside base path) :
    Inside base (metaPath path) ↔ components path ≠ components base ∨ ¬ EndsInName path :=
  inside_append_suffix_iff habs hdots slash_notMem_metaSuffix two_lt_length_metaSuffix hin

/-- A key that becomes an absolute path stays inside a base directory that contains the path, unless
it is the base directory itself and ends in a name. -/
lemma pathsInside_of_absolute {base path : Path} (hdots : ['.', '.'] ∉ pieces path)
    (habs : isAbsolute path) (hin : Inside base path)
    (hbase : components path ≠ components base ∨ ¬ EndsInName path) : PathsInside base path := by
  have hsidecar : Inside base (metaPath path) := (inside_metaPath_iff hdots habs hin).mpr hbase
  refine ⟨hin, hsidecar, ?_⟩
  intro hname dir hdir
  have hne := hbase.resolve_right (not_not_intro hname)
  obtain ⟨rest, hrest, hrestDots⟩ := hin
  refine insideDir_parent hrest hrestDots (fun hnil => hne ?_) hdir
  rw [hrest, hnil, List.append_nil]

/-- The store stays inside its base directory with a key if and only if the key is rejected, or no
backslash follows its leading slashes, or the absolute path that it spells is inside the base
directory and, if it is the base directory itself, does not end in a name. -/
theorem contained_iff (st : LocalBlobStore) (codec : MetadataCodec) (key : String) :
    st.Contained codec key ↔
      ['.', '.'] <:+: key.toList ∨ (trimSlashes key.toList).head? ≠ some '\\' ∨
        (Inside st.basePath (slashed key.toList) ∧
          (components (slashed key.toList) ≠ components st.basePath ∨
            ¬ EndsInName (slashed key.toList))) := by
  rcases resolvePath_eq st key with ⟨hkey, herror⟩ | ⟨hdots, hkey, hok⟩
  · exact ⟨fun _ => Or.inl hkey, fun _ => contained_of_error herror⟩
  · by_cases hback : (trimSlashes key.toList).head? = some '\\'
    · have habs : isAbsolute (cleanKey key) := (isAbsolute_cleanKey_iff key).mpr hback
      have hjoin : join st.basePath (cleanKey key) = cleanKey key := if_pos habs
      obtain ⟨-, hcomp, hlast⟩ := components_slashed hback
      have hin : Inside st.basePath (slashed key.toList) ↔ Inside st.basePath (cleanKey key) := by
        rw [Inside, Inside, ← hcomp]
        rfl
      have hends : EndsInName (slashed key.toList) ↔ EndsInName (cleanKey key) := by
        rw [EndsInName, EndsInName, ← hlast]
        rfl
      rw [hjoin] at hok
      rw [hin, hends, ← hcomp]
      constructor
      · intro h
        have hpath := h.resolved _ hok
        have hmeta := inside_metaPath_of_contained hok h
        exact Or.inr (Or.inr ⟨hpath, (inside_metaPath_iff hdots habs hpath).mp hmeta⟩)
      · rintro (h | h | ⟨hpath, hbase⟩)
        · exact absurd h hkey
        · exact absurd hback h
        · exact contained_of_pathsInside hok (pathsInside_of_absolute hdots habs hpath hbase)
    · have hrel : ¬ isAbsolute (cleanKey key) :=
        fun h => hback ((isAbsolute_cleanKey_iff key).mp h)
      refine ⟨fun _ => Or.inr (Or.inl hback), fun _ => ?_⟩
      exact contained_of_pathsInside hok (pathsInside_of_relative st.basePath hdots hrel)

/-- A key that starts with a backslash escapes: under `/var/lib/blobs`, the key `\\etc\\passwd`
resolves to `/etc/passwd`. -/
theorem backslash_key_escapes :
    ¬ ∀ (st : LocalBlobStore) (codec : MetadataCodec) (key : String), st.Contained codec key := by
  intro h
  have hin := (h ⟨"/var/lib/blobs".toList⟩ ⟨fun _ => .ok [], fun _ => .ok default⟩
    "\\etc\\passwd").resolved "/etc/passwd".toList (by decide)
  obtain ⟨rest, hrest, -⟩ := hin
  have hcomp : components "/etc/passwd".toList =
      [.rootDir, .normal "etc".toList, .normal "passwd".toList] := by decide
  have hbase : components "/var/lib/blobs".toList =
      [.rootDir, .normal "var".toList, .normal "lib".toList, .normal "blobs".toList] := by decide
  rw [hcomp, hbase] at hrest
  simp at hrest

end LocalBlobStore

end Rust

end GoyStore
