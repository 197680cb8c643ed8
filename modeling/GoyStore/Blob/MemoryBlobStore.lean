import GoyStore.Blob.LocalBlobStore
import GoyStore.Library.DualIndex
import GoyStore.Library.Repetition

/-!
# The in-memory blob store

`MemoryBlobStore` of the Rust library keeps the blobs in one map behind a lock.  Nothing but `list`
goes through the keys, and it sorts them, so the order of the hash map is never seen.
-/

namespace GoyStore

namespace Rust

open DualIndex Repetition

/-- `BlobData`. -/
structure BlobData where
  /-- The field `data`. -/
  data : List UInt8
  /-- The field `metadata`. -/
  metadata : Metadata

/-- `MemoryBlobStore`. -/
structure MemoryBlobStore where
  /-- The field `blobs`. -/
  blobs : Std.TreeMap String BlobData

namespace MemoryBlobStore

/-- `MemoryBlobStore::default`. -/
def new : MemoryBlobStore := ⟨∅⟩

/-- `MemoryBlobStore::put`. -/
def put (key : String) (data : List UInt8) (metadata : Option Metadata) (st : MemoryBlobStore) :
    MemoryBlobStore :=
  ⟨st.blobs.insert key { data := data, metadata := metadata.getD default }⟩

/-- `MemoryBlobStore::get`. -/
def get (key : String) (st : MemoryBlobStore) : Option (List UInt8 × Metadata) :=
  st.blobs[key]?.map fun b => (b.data, b.metadata)

/-- `MemoryBlobStore::delete`. -/
def delete (key : String) (st : MemoryBlobStore) : MemoryBlobStore := ⟨st.blobs.erase key⟩

/-- `MemoryBlobStore::list`; `start` is its argument `prefix`. -/
def list (start : Option String) (st : MemoryBlobStore) : List String :=
  let keys := match start with
    | some p => st.blobs.keys.filter fun k : String => p.toList.isPrefixOf k.toList
    | none => st.blobs.keys
  keys.mergeSort fun a b => a ≤ b

/-- What the store holds under each key. -/
def contents (st : MemoryBlobStore) : String → Option BlobData := lookup st.blobs

/-- Further calls of `put` with the same arguments change nothing. -/
theorem repeatable_put (st : MemoryBlobStore) (key : String) (data : List UInt8)
    (metadata : Option Metadata) :
    Repeatable contents (fun st => ((), st.put key data metadata)) st := by
  apply repeatable_write (F := fun c => Function.update c key
    (some { data := data, metadata := metadata.getD default })) fun st => lookup_insert st.blobs ..
  exact Function.update_idem ..

/-- Further calls of `delete` with the same arguments change nothing. -/
theorem repeatable_delete (st : MemoryBlobStore) (key : String) :
    Repeatable contents (fun st => ((), st.delete key)) st := by
  apply repeatable_write (F := fun c => Function.update c key none)
    fun st => lookup_erase st.blobs key
  exact Function.update_idem ..

end MemoryBlobStore

end Rust

end GoyStore
