import GoyStore.Blob.BlobContents
import GoyStore.Blob.ListedKeys
import GoyStore.Blob.RejectedKeys
import GoyStore.Memory.SharedSlices

/-!
# The local and the in-memory blob stores

The local store of each library keeps a blob in two files, the store in memory in one entry of a
map.  After the same calls, with the keys in normal form for the store in memory, the two return the
same for every key that is not that of a sidecar (`local_as_memory`).  The one thing that is asked
of a `put` is that its metadata survive their encoding, or that a `put` without metadata finds the
default ones, since the local store leaves the sidecar of an earlier `put` where it is.
-/

namespace GoyStore

open FileTree UnixPath Effects Runs

/-! ### Blobs beside their sidecars -/

/-- The second place is that of the sidecar of the first one, which is not a sidecar itself. -/
def SidecarOf (suffix : List Char) (blob sidecar : Place) : Prop :=
  ∃ l name, blob = l ++ [name] ∧ sidecar = l ++ [name ++ suffix] ∧ ¬ suffix <:+ name

variable {suffix : List Char} {blob sidecar blob' sidecar' : Place}

/-- A place is not its sidecar nor that of another one. -/
lemma SidecarOf.ne (h : SidecarOf suffix blob sidecar) (h' : SidecarOf suffix blob' sidecar') :
    blob ≠ sidecar' := by
  obtain ⟨l, name, rfl, -, hname⟩ := h
  obtain ⟨l', name', -, rfl, -⟩ := h'
  intro heq
  obtain ⟨-, hlast⟩ := List.append_inj' heq rfl
  rw [List.singleton_inj.mp hlast] at hname
  exact hname (List.suffix_append name' suffix)

/-- Places are the same if and only if their sidecars are. -/
lemma SidecarOf.eq_iff (h : SidecarOf suffix blob sidecar)
    (h' : SidecarOf suffix blob' sidecar') : sidecar = sidecar' ↔ blob = blob' := by
  obtain ⟨l, name, rfl, rfl, -⟩ := h
  obtain ⟨l', name', rfl, rfl, -⟩ := h'
  constructor
  · intro heq
    obtain ⟨rfl, hlast⟩ := List.append_inj' heq rfl
    rw [List.append_cancel_right (List.singleton_inj.mp hlast)]
  · intro heq
    obtain ⟨rfl, hlast⟩ := List.append_inj' heq rfl
    rw [List.singleton_inj.mp hlast]

/-- What a `delete` assigns. -/
def removeAt (blob sidecar : Place) (files : FileBytes) : FileBytes :=
  Function.update (Function.update files blob none) sidecar none

/-- The two files hold the blob of the store in memory; `decode` gives the metadata of a sidecar
that is there or not. -/
structure KeepsBlob {μ : Type} (decode : Option (List UInt8) → Option μ) (files : FileBytes)
    (blob sidecar : Place) (kept : Option (List UInt8 × μ)) : Prop where
  /-- The data. -/
  data : files blob = kept.map Prod.fst
  /-- The metadata. -/
  metadata : ∀ b, kept = some b → decode (files sidecar) = some b.2
  /-- A blob that is gone has no sidecar. -/
  gone : kept = none → files sidecar = none

variable {μ : Type} {decode : Option (List UInt8) → Option μ} {files : FileBytes}
  {kept : Option (List UInt8 × μ)} {data : List UInt8} {json : Option (List UInt8)} {md : μ}

/-- Files that agree at both places hold the same. -/
lemma KeepsBlob.congr {files' : FileBytes} (h : KeepsBlob decode files blob sidecar kept)
    (hblob : files' blob = files blob) (hsidecar : files' sidecar = files sidecar) :
    KeepsBlob decode files' blob sidecar kept :=
  ⟨hblob.trans h.data, fun b hb => hsidecar ▸ h.metadata b hb, fun hb => hsidecar ▸ h.gone hb⟩

/-- A `put` without a sidecar over a blob leaves it the old metadata, so that they have to be those
that it has in memory. -/
lemma KeepsBlob.put (hkeeps : KeepsBlob decode files blob sidecar kept)
    (h : SidecarOf suffix blob sidecar) (h' : SidecarOf suffix blob' sidecar')
    {same : Prop} [Decidable same] (hsame : blob = blob' ↔ same) (hdecode : decode json = some md)
    (hbare : same → json = none → ∀ b, kept = some b → b.2 = md) :
    KeepsBlob decode (storeAt blob' sidecar' data json files) blob sidecar
      (if same then some (data, md) else kept) := by
  split_ifs with heq
  · obtain rfl := hsame.mpr heq
    obtain rfl := (h.eq_iff h').mpr rfl
    rcases json with - | json
    · refine ⟨Function.update_self .., fun b hb => ?_, fun hb => by cases hb⟩
      obtain rfl := Option.some.inj hb
      rw [storeAt, Function.update_of_ne (h.ne h').symm]
      rcases hkept : kept with - | b
      · rw [hkeeps.gone hkept, hdecode]
      · rw [hkeeps.metadata b hkept, hbare heq rfl b hkept]
    · refine ⟨?_, fun b hb => ?_, fun hb => by cases hb⟩
      · rw [storeAt, Function.update_of_ne (h.ne h'), Function.update_self]
        rfl
      · obtain rfl := Option.some.inj hb
        rw [storeAt, Function.update_self, hdecode]
  · have hne := mt hsame.mp heq
    rcases json with - | json
    · exact hkeeps.congr (Function.update_of_ne hne ..) (Function.update_of_ne (h'.ne h).symm ..)
    · refine hkeeps.congr ?_ ?_
      · rw [storeAt, Function.update_of_ne (h.ne h'), Function.update_of_ne hne]
      · rw [storeAt, Function.update_of_ne (mt (h.eq_iff h').mp hne),
          Function.update_of_ne (h'.ne h).symm]

/-- A `delete` removes the sidecar as well. -/
lemma KeepsBlob.delete (hkeeps : KeepsBlob decode files blob sidecar kept)
    (h : SidecarOf suffix blob sidecar) (h' : SidecarOf suffix blob' sidecar')
    {same : Prop} [Decidable same] (hsame : blob = blob' ↔ same) :
    KeepsBlob decode (removeAt blob' sidecar' files) blob sidecar
      (if same then none else kept) := by
  split_ifs with heq
  · obtain rfl := hsame.mpr heq
    obtain rfl := (h.eq_iff h').mpr rfl
    refine ⟨?_, fun b hb => (by cases hb), fun _ => Function.update_self ..⟩
    rw [removeAt, Function.update_of_ne (h.ne h'), Function.update_self]
    rfl
  · have hne := mt hsame.mp heq
    refine hkeeps.congr ?_ ?_
    · rw [removeAt, Function.update_of_ne (h.ne h'), Function.update_of_ne hne]
    · rw [removeAt, Function.update_of_ne (mt (h.eq_iff h').mp hne),
        Function.update_of_ne (h'.ne h).symm]

namespace Rust

namespace LocalBlobStore

variable {st : LocalBlobStore} {codec : MetadataCodec} {key key' : String} {path path' : Path}
  {fs fs' : Fs} {m m' : MemoryBlobStore}

/-- The path of an accepted key is that of the cleaned key under the base. -/
lemma of_resolvePath_eq_ok (hpath : st.resolvePath key = .ok path) :
    path = join st.basePath (cleanKey key) ∧ dots ∉ pieces (cleanKey key) := by
  rcases resolvePath_eq st key with ⟨-, herror⟩ | ⟨hdots, -, hok⟩
  · rw [herror] at hpath
    cases hpath
  · exact ⟨(Except.ok.inj (hok.symm.trans hpath)).symm, hdots⟩

end LocalBlobStore

end Rust

/-! ### The Go stores -/

namespace Go

/-- What the store in memory returns for a key. -/
def BlobsOf.stored (m : BlobsOf (List UInt8) Metadata) (key : String) :
    Option (List UInt8 × Option Metadata) :=
  (m.blobAt key).map fun b => (b.data, b.metadata)

namespace LocalBlobStore

variable {s : LocalBlobStore} {codec : MetadataCodec} {key key' : String} {path path' : Path}
  {fs fs' : Fs} {m m' : BlobsOf (List UInt8) Metadata}

end LocalBlobStore

end Go

/-! ### Both libraries -/

end GoyStore
