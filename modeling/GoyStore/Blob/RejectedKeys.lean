import GoyStore.Blob.GoLocalBlobStore
import GoyStore.Blob.LocalBlobStore
import GoyStore.Resilience.SequentialCalls

/-!
# Rejected keys and the breaker of the blob contract

The resilient blob stores run the operations of the local blob store through an executor.  A key
that `resolve_path` rejects fails before any call to the file system, but to the executor it is a
failure like any other: it is retried, and every attempt is counted by the breaker.

So rejected keys can open the circuit, and accepted calls are refused then
(`rejected_key_opens_circuit`).  Apart from these refusals nothing comes through: the other accepted
calls return what they return without the rejected and the refused ones, and a refusal comes only
when failed attempts of rejected calls have reached the threshold (`accepted_calls_spared`).
-/

namespace GoyStore

open Effects

/-- The accepted calls among the entries of a run. -/
def acceptedEntries {β α : Type} (accepted : β → Bool) (entries : List (Entry β α)) :
    List (Entry β α) :=
  entries.filter fun e => accepted e.request.op

namespace SequentialModel

/-- What reaches the accepted calls from the others.  A refused one gets the error of the open
circuit; when it is refused, failed attempts of rejected calls, all since the last success, have
reached the threshold, and the last of them is less than the reset timeout ago.  The accepted calls
that are not refused return the same in the run with only these calls. -/
structure Spared (X : SequentialModel) (ex : X.Executor) {β S α : Type}
    (ops : Operations β S α) (accepted : β → Bool) (calls : List (Request β)) (s : S) : Prop where
  /-- The run with only the accepted calls that are not refused. -/
  alone : X.run ex ops ((spared accepted (X.run ex ops calls (X.newBreaker ex) s)).map
      Entry.request) (X.newBreaker ex) s =
    spared accepted (X.run ex ops calls (X.newBreaker ex) s)
  /-- The accepted calls that are refused. -/
  refused : ∀ pre post e, X.run ex ops calls (X.newBreaker ex) s = pre ++ e :: post →
    accepted e.request.op = true → e.refused = true →
      e.result = some (.error X.openError) ∧
      X.threshold (X.newBreaker ex) ≤ (failedSince pre).length ∧
      ∃ t ∈ (failedSince pre).getLast?,
        ((e.request.start - t : ℕ) : ℤ) < X.resetTimeout (X.newBreaker ex)
  /-- The failed attempts are those of rejected calls. -/
  blameless : ∀ e ∈ X.run ex ops calls (X.newBreaker ex) s, accepted e.request.op = true →
    e.failedAt = []

/-- If accepted operations succeed and the others reject their arguments, the accepted calls are
spared. -/
lemma spared_of_succeeds {X : SequentialModel} {ex : X.Executor} {β S α : Type}
    {ops : Operations β S α} {accepted : β → Bool} {calls : List (Request β)} {s : S}
    (hgood : ∀ r ∈ calls, accepted r.op = true → ops.Succeeds r.op)
    (hbad : ∀ r ∈ calls, accepted r.op = false → ops.Rejects r.op) :
    X.Spared ex ops accepted calls s where
  alone := run_spared hgood hbad _ (X.newBreaker_counter ex).1 s
  refused pre _ _ hrun _ hrefused := by
    have hnew : Counted X ex (X.newBreaker ex) (failedSince ([] : List (Entry β α))) :=
      counted_newBreaker
    exact refused_after_failures hnew hrun hrefused
  blameless _ he haccepted := failedAt_of_accepted hgood he haccepted

end SequentialModel

/-! ### The Rust store -/

namespace Rust

/-- A call of the blob contract. -/
inductive BlobCall where
  /-- `put`. -/
  | put (key : String) (data : List UInt8) (metadata : Option Metadata)
  /-- `get`. -/
  | get (key : String)
  /-- `delete`. -/
  | delete (key : String)

/-- What a call returns when it succeeds. -/
inductive BlobValue where
  /-- `()`. -/
  | unit
  /-- The bytes and the metadata of a blob, if there is one. -/
  | blob (found : Option (List UInt8 × Metadata))

namespace BlobCall

/-- The key of a call. -/
def key : BlobCall → String
  | .put key _ _ => key
  | .get key => key
  | .delete key => key

/-- The argument `op_name` that `ResilientBlobStore` passes. -/
def opName : BlobCall → String
  | .put _ _ _ => "put"
  | .get _ => "get"
  | .delete _ => "delete"

/-- The operation of the local store that `ResilientBlobStore` runs. -/
def program (st : LocalBlobStore) (codec : MetadataCodec) : BlobCall → FsProg BlobValue
  | .put key data metadata => do
    st.put codec key data metadata
    pure .unit
  | .get key => return .blob (← st.get codec key)
  | .delete key => do
    st.delete key
    pure .unit

end BlobCall

/-- `resolve_path` accepts a key. -/
def LocalBlobStore.accepts (st : LocalBlobStore) (key : String) : Bool := (st.resolvePath key).isOk

/-- The operations behind `ResilientBlobStore` on a file system with states `S`. -/
def blobOperations (st : LocalBlobStore) (codec : MetadataCodec) {S : Type}
    (serve : (c : FsCall) → S → c.Answer × S) :
    SequentialModel.Operations BlobCall S BlobValue where
  opName := BlobCall.opName
  perform c s := (c.program st codec).run serve s

/-- The executor of `ResilientBlobStore::new`. -/
def blobExecutor (config : ResilienceConfig) (backend : String) : ResilientExecutor where
  config := config
  contract := "blob"
  backend := backend

/-- A call with a rejected key fails and makes no call to the file system. -/
lemma blobOperations_rejects (st : LocalBlobStore) (codec : MetadataCodec) {S : Type}
    (serve : (c : FsCall) → S → c.Answer × S) {c : BlobCall} (h : st.accepts c.key = false) :
    (blobOperations st codec serve).Rejects c := by
  intro s
  rcases hpath : st.resolvePath c.key with e | path
  · refine ⟨e, ?_⟩
    rcases c with ⟨key, data, metadata⟩ | key | key
    all_goals rw [BlobCall.key] at hpath
    · simp only [blobOperations, BlobCall.program, LocalBlobStore.put, hpath]
      rfl
    · simp only [blobOperations, BlobCall.program, LocalBlobStore.get, hpath]
      rfl
    · simp only [blobOperations, BlobCall.program, LocalBlobStore.delete, hpath]
      rfl
  · rw [LocalBlobStore.accepts, hpath] at h
    cases h

/-- A file system that only knows files, by their paths: every directory is there. -/
def flatFiles : (c : FsCall) → List (UnixPath.Path × List UInt8) →
    c.Answer × List (UnixPath.Path × List UInt8)
  | .createDirAll _, files => (.ok (), files)
  | .write path data, files => (.ok (), (path, data) :: files.filter (·.1 ≠ path))
  | .pathExists path, files => ((files.lookup path).isSome, files)
  | .read path, files =>
    ((files.lookup path).elim (.error "No such file or directory (os error 2)") .ok, files)
  | .removeFile path, files => (.ok (), files.filter (·.1 ≠ path))
  | .canonicalize path, files => (.ok path, files)

/-- On files by their paths every `put` succeeds, if the metadata can be encoded. -/
lemma flatFiles_put {st : LocalBlobStore} {codec : MetadataCodec} {key : String}
    {path : UnixPath.Path} (hpath : st.resolvePath key = .ok path) (data : List UInt8)
    {metadata : Option Metadata} (hcodec : ∀ md ∈ metadata, ∃ json, codec.toVec md = .ok json)
    (files : List (UnixPath.Path × List UInt8)) :
    ∃ files', (st.put codec key data metadata).run flatFiles files = (.ok (), files') := by
  have hparent : ((UnixPath.parent path).forM FsProg.createDirAll).run flatFiles files =
      (.ok (), files) := by
    rcases UnixPath.parent path with - | dir
    all_goals rfl
  rw [LocalBlobStore.put, hpath, Prog.run_bind_of_ok (r := path) rfl,
    Prog.run_bind_of_ok hparent, Prog.run_bind_of_ok (r := ()) rfl]
  rcases metadata with - | md
  · exact ⟨_, rfl⟩
  · obtain ⟨json, hjson⟩ := hcodec md rfl
    simp only [Option.forM, hjson]
    exact ⟨_, rfl⟩

/-- The question whether a file exists. -/
lemma flatFiles_pathExists (path : UnixPath.Path) (files : List (UnixPath.Path × List UInt8)) :
    flatFiles (.pathExists path) files = ((files.lookup path).isSome, files) := rfl

/-- On files by their paths every `get` succeeds. -/
lemma flatFiles_get {st : LocalBlobStore} {codec : MetadataCodec} {key : String}
    {path : UnixPath.Path} (hpath : st.resolvePath key = .ok path)
    (files : List (UnixPath.Path × List UInt8)) :
    ∃ found, (st.get codec key).run flatFiles files = (.ok found, files) := by
  have hread : ∀ {path data}, files.lookup path = some data →
      (FsProg.read path).run flatFiles files = (.ok data, files) := by
    intro path data hdata
    have hanswer : flatFiles (.read path) files = (.ok data, files) := by
      rw [flatFiles, hdata]
      rfl
    exact Prog.run_perform_bind hanswer _
  have hmetadata : ∃ md, (LocalBlobStore.getMetadata codec path).run flatFiles files =
      (.ok md, files) := by
    rw [LocalBlobStore.getMetadata, Prog.run_perform_bind (flatFiles_pathExists _ _)]
    rcases hjson : files.lookup (LocalBlobStore.metaPath path) with - | json
    · exact ⟨_, rfl⟩
    · exact ⟨_, Prog.run_bind_of_ok (hread hjson) _⟩
  rw [LocalBlobStore.get, hpath, Prog.run_bind_of_ok (r := path) rfl,
    Prog.run_perform_bind (flatFiles_pathExists path files)]
  rcases hdata : files.lookup path with - | data
  · exact ⟨_, rfl⟩
  · obtain ⟨md, hmd⟩ := hmetadata
    exact ⟨_, (Prog.run_bind_of_ok (hread hdata) _).trans (Prog.run_bind_of_ok hmd _)⟩

/-- On files by their paths every `delete` succeeds. -/
lemma flatFiles_delete {st : LocalBlobStore} {key : String} {path : UnixPath.Path}
    (hpath : st.resolvePath key = .ok path) (files : List (UnixPath.Path × List UInt8)) :
    ∃ files', (st.delete key).run flatFiles files = (.ok (), files') := by
  have hremove : ∀ path files, ∃ files',
      (FsProg.removeIfExists path).run flatFiles files = (.ok (), files') := by
    intro path files
    rw [FsProg.removeIfExists, Prog.run_perform_bind (flatFiles_pathExists path files)]
    rcases (files.lookup path).isSome with - | -
    all_goals exact ⟨_, rfl⟩
  obtain ⟨files₁, hblob⟩ := hremove path files
  obtain ⟨files₂, hmeta⟩ := hremove (LocalBlobStore.metaPath path) files₁
  rw [LocalBlobStore.delete, hpath, Prog.run_bind_of_ok (r := path) rfl,
    Prog.run_bind_of_ok hblob]
  exact ⟨files₂, hmeta⟩

/-- On files by their paths every accepted call succeeds, if metadata can be encoded. -/
lemma flatFiles_succeeds (st : LocalBlobStore) {codec : MetadataCodec}
    (hcodec : ∀ md, ∃ json, codec.toVec md = .ok json) {c : BlobCall}
    (h : st.accepts c.key = true) : (blobOperations st codec flatFiles).Succeeds c := by
  intro files
  rcases hpath : st.resolvePath c.key with e | path
  · rw [LocalBlobStore.accepts, hpath] at h
    cases h
  rcases c with ⟨key, data, metadata⟩ | key | key
  · obtain ⟨files', hput⟩ := flatFiles_put hpath data (fun md _ => hcodec md) files
    exact ⟨.unit, files', Prog.run_bind_of_ok hput _⟩
  · obtain ⟨found, hget⟩ := @flatFiles_get _ codec _ _ hpath files
    exact ⟨.blob found, files, Prog.run_bind_of_ok hget _⟩
  · obtain ⟨files', hdelete⟩ := flatFiles_delete hpath files
    exact ⟨.unit, files', Prog.run_bind_of_ok hdelete _⟩

end Rust

/-! ### The Go store -/

namespace Go

/-- A call of the blob contract. -/
inductive BlobCall where
  /-- `Put`. -/
  | put (key : String) (data : List UInt8) (metadata : Option Metadata)
  /-- `Get`. -/
  | get (key : String)
  /-- `Delete`. -/
  | delete (key : String)

/-- What a call returns when it succeeds. -/
inductive BlobValue where
  /-- Nothing. -/
  | unit
  /-- The bytes and the metadata of a blob, if there is one. -/
  | blob (found : Option (List UInt8 × Option Metadata))

namespace BlobCall

/-- The key of a call. -/
def key : BlobCall → String
  | .put key _ _ => key
  | .get key => key
  | .delete key => key

/-- The argument `opName` that `resilientBlobStore` passes. -/
def opName : BlobCall → String
  | .put _ _ _ => "put"
  | .get _ => "get"
  | .delete _ => "delete"

/-- The operation of the local store that `resilientBlobStore` runs; its context is not done. -/
def program (st : LocalBlobStore) (codec : MetadataCodec) : BlobCall → FsProg BlobValue
  | .put key data metadata => do
    st.put codec none key data metadata
    pure .unit
  | .get key => return .blob (← st.get codec none key)
  | .delete key => do
    st.delete none key
    pure .unit

end BlobCall

/-- `resolvePath` accepts a key. -/
def LocalBlobStore.accepts (st : LocalBlobStore) (key : String) : Bool := (st.resolvePath key).isOk

/-- The operations behind `resilientBlobStore` on a file system with states `S`. -/
def blobOperations (st : LocalBlobStore) (codec : MetadataCodec) {S : Type}
    (serve : (c : FsCall) → S → c.Answer × S) :
    SequentialModel.Operations BlobCall S BlobValue where
  opName := BlobCall.opName
  perform c s := (c.program st codec).run serve s

/-- The executor of `WrapBlobWithResilience`. -/
def blobExecutor (cfg : ResilienceConfig) (metrics : Bool) (backend : String) :
    ResilientExecutor :=
  .new cfg metrics "blob" backend

/-- A call with a rejected key fails and makes no call to the file system. -/
lemma blobOperations_rejects (st : LocalBlobStore) (codec : MetadataCodec) {S : Type}
    (serve : (c : FsCall) → S → c.Answer × S) {c : BlobCall} (h : st.accepts c.key = false) :
    (blobOperations st codec serve).Rejects c := by
  intro s
  rcases hpath : st.resolvePath c.key with e | path
  · refine ⟨e, ?_⟩
    rcases c with ⟨key, data, metadata⟩ | key | key
    all_goals rw [BlobCall.key] at hpath
    · simp only [blobOperations, BlobCall.program, LocalBlobStore.put, hpath]
      rfl
    · simp only [blobOperations, BlobCall.program, LocalBlobStore.get, hpath]
      rfl
    · simp only [blobOperations, BlobCall.program, LocalBlobStore.delete, hpath]
      rfl
  · rw [LocalBlobStore.accepts, hpath] at h
    cases h

/-- A file system that only knows files, by their paths: every directory is there. -/
def flatFiles : (c : FsCall) → List (UnixPath.Path × List UInt8) →
    c.Answer × List (UnixPath.Path × List UInt8)
  | .mkdirAll _, files => (.ok (), files)
  | .writeFile path data, files => (.ok (), (path, data) :: files.filter (·.1 ≠ path))
  | .readFile path, files =>
    ((files.lookup path).elim (.error ⟨"open: no such file or directory", true⟩) .ok, files)
  | .remove path, files =>
    ((files.lookup path).elim (.error ⟨"remove: no such file or directory", true⟩) fun _ => .ok (),
      files.filter (·.1 ≠ path))

/-- On files by their paths every `Put` succeeds, if the metadata can be encoded. -/
lemma flatFiles_put {s : LocalBlobStore} {codec : MetadataCodec} {key : String}
    {path : UnixPath.Path} (hpath : s.resolvePath key = .ok path) (data : List UInt8)
    {metadata : Option Metadata} (hcodec : ∀ md ∈ metadata, ∃ json, codec.marshal md = .ok json)
    (files : List (UnixPath.Path × List UInt8)) :
    ∃ files', (s.put codec none key data metadata).run flatFiles files = (.ok (), files') := by
  rw [LocalBlobStore.put, Prog.run_bind_of_ok (r := ()) rfl, hpath,
    Prog.run_bind_of_ok (r := path) rfl, Prog.run_bind_of_ok (r := ()) rfl,
    Prog.run_bind_of_ok (r := ()) rfl]
  rcases metadata with - | md
  · exact ⟨_, rfl⟩
  · obtain ⟨json, hjson⟩ := hcodec md rfl
    simp only [Option.forM, hjson]
    exact ⟨_, rfl⟩

/-- On files by their paths every `Get` succeeds. -/
lemma flatFiles_get {s : LocalBlobStore} {codec : MetadataCodec} {key : String}
    {path : UnixPath.Path} (hpath : s.resolvePath key = .ok path)
    (files : List (UnixPath.Path × List UInt8)) :
    ∃ found, (s.get codec none key).run flatFiles files = (.ok found, files) := by
  have hread : ∀ path, ∃ answer, flatFiles (.readFile path) files = (answer, files) ∧
      ∀ e, answer = .error e → e.notExist = true := by
    intro path
    rcases hdata : files.lookup path with - | data
    · refine ⟨_, by rw [flatFiles, hdata], ?_⟩
      rintro e ⟨⟩
      rfl
    · refine ⟨_, by rw [flatFiles, hdata], ?_⟩
      rintro e ⟨⟩
  obtain ⟨answer, hblob, hmissing⟩ := hread path
  rw [LocalBlobStore.get, Prog.run_bind_of_ok (r := ()) rfl, hpath,
    Prog.run_bind_of_ok (r := path) rfl, Prog.run_call hblob]
  rcases answer with e | data
  · simp only [hmissing e rfl]
    exact ⟨none, rfl⟩
  · obtain ⟨json, hsidecar, -⟩ := hread (LocalBlobStore.metaPath path)
    have hmetadata : ∃ md, (LocalBlobStore.getMetadata codec path).run flatFiles files =
        (.ok md, files) := by
      rw [LocalBlobStore.getMetadata, Prog.run_call hsidecar]
      rcases json with e | json
      all_goals exact ⟨_, rfl⟩
    obtain ⟨md, hmd⟩ := hmetadata
    exact ⟨_, Prog.run_bind_of_ok hmd _⟩

/-- On files by their paths every `Delete` succeeds. -/
lemma flatFiles_delete {s : LocalBlobStore} {key : String} {path : UnixPath.Path}
    (hpath : s.resolvePath key = .ok path) (files : List (UnixPath.Path × List UInt8)) :
    ∃ files', (s.delete none key).run flatFiles files = (.ok (), files') := by
  rw [LocalBlobStore.delete, Prog.run_bind_of_ok (r := ()) rfl, hpath,
    Prog.run_bind_of_ok (r := path) rfl]
  have hanswer : ∃ answer files', flatFiles (.remove path) files = (answer, files') ∧
      ∀ e, answer = .error e → e.notExist = true := by
    rcases hdata : files.lookup path with - | data
    · refine ⟨_, _, by rw [flatFiles, hdata], ?_⟩
      rintro e ⟨⟩
      rfl
    · refine ⟨_, _, by rw [flatFiles, hdata], ?_⟩
      rintro e ⟨⟩
  obtain ⟨answer, files', hremove, hmissing⟩ := hanswer
  rw [Prog.run_bind_of_ok (r := ())]
  · exact ⟨_, rfl⟩
  · rw [Prog.run_call hremove]
    rcases answer with e | -
    · simp only [hmissing e rfl]
      rfl
    · rfl

/-- On files by their paths every accepted call succeeds, if metadata can be encoded. -/
lemma flatFiles_succeeds (s : LocalBlobStore) {codec : MetadataCodec}
    (hcodec : ∀ md, ∃ json, codec.marshal md = .ok json) {c : BlobCall}
    (h : s.accepts c.key = true) : (blobOperations s codec flatFiles).Succeeds c := by
  intro files
  rcases hpath : s.resolvePath c.key with e | path
  · rw [LocalBlobStore.accepts, hpath] at h
    cases h
  rcases c with ⟨key, data, metadata⟩ | key | key
  · obtain ⟨files', hput⟩ := flatFiles_put hpath data (fun md _ => hcodec md) files
    exact ⟨.unit, files', Prog.run_bind_of_ok hput _⟩
  · obtain ⟨found, hget⟩ := @flatFiles_get _ codec _ _ hpath files
    exact ⟨.blob found, files, Prog.run_bind_of_ok hget _⟩
  · obtain ⟨files', hdelete⟩ := flatFiles_delete hpath files
    exact ⟨.unit, files', Prog.run_bind_of_ok hdelete _⟩

end Go

/-! ### Both stores -/

/-- In the Rust and in the Go blob store, calls with accepted keys are spared by calls with rejected
keys, up to refusals by a circuit that rejected calls have opened. -/
theorem accepted_calls_spared :
    (∀ (st : Rust.LocalBlobStore) (codec : Rust.MetadataCodec) {S : Type}
      (serve : (c : Rust.FsCall) → S → c.Answer × S) (config : Rust.ResilienceConfig)
      (backend : String) (calls : List (Request Rust.BlobCall)) (s : S),
      (∀ r ∈ calls, st.accepts r.op.key = true →
        (Rust.blobOperations st codec serve).Succeeds r.op) →
      Rust.sequentialModel.Spared (Rust.blobExecutor config backend)
        (Rust.blobOperations st codec serve) (fun c => st.accepts c.key) calls s) ∧
    (∀ (st : Go.LocalBlobStore) (codec : Go.MetadataCodec) {S : Type}
      (serve : (c : Go.FsCall) → S → c.Answer × S) (cfg : Go.ResilienceConfig) (metrics : Bool)
      (backend : String) (calls : List (Request Go.BlobCall)) (s : S),
      (∀ r ∈ calls, st.accepts r.op.key = true →
        (Go.blobOperations st codec serve).Succeeds r.op) →
      Go.sequentialModel.Spared (Go.blobExecutor cfg metrics backend)
        (Go.blobOperations st codec serve) (fun c => st.accepts c.key) calls s) := by
  constructor
  · intro st codec S serve config backend calls s hgood
    exact SequentialModel.spared_of_succeeds hgood
      fun r _ hr => Rust.blobOperations_rejects st codec serve hr
  · intro st codec S serve cfg metrics backend calls s hgood
    exact SequentialModel.spared_of_succeeds hgood
      fun r _ hr => Go.blobOperations_rejects st codec serve hr

/-- With a threshold of one failure, a rejected `get`, an accepted one a second later and another
one a minute later. -/
def rejectedThenAccepted {β : Type} (get : String → β) : List (Request β) :=
  [⟨get "..", 0, [1, 150000000]⟩, ⟨get "a", 1000000000, [1000000001]⟩,
    ⟨get "a", 60000000000, [60000000001]⟩]

/-- The Rust configuration without retries. -/
def Rust.oneFailure : Rust.ResilienceConfig := ⟨0, 100, 1, 30, 5⟩

/-- The Go configuration with one retry. -/
def Go.oneFailure : Go.ResilienceConfig := ⟨1, 100, 1, 30, 5⟩

/-- The Rust metadata codec that writes nothing. -/
def Rust.emptyCodec : Rust.MetadataCodec := ⟨fun _ => .ok [], fun _ => .ok default⟩

/-- The Go metadata codec that writes nothing. -/
def Go.emptyCodec : Go.MetadataCodec := ⟨fun _ => .ok [], fun _ => .ok ⟨"", none⟩⟩

/-- Both stores under `data` serve the three calls. -/
theorem accepted_calls_spared_under_data :
    Rust.sequentialModel.Spared (Rust.blobExecutor Rust.oneFailure "local")
      (Rust.blobOperations ⟨"data".toList⟩ Rust.emptyCodec Rust.flatFiles)
      (fun c => Rust.LocalBlobStore.accepts ⟨"data".toList⟩ c.key)
      (rejectedThenAccepted Rust.BlobCall.get) [] ∧
    Go.sequentialModel.Spared (Go.blobExecutor Go.oneFailure true "local")
      (Go.blobOperations (.new "data".toList) Go.emptyCodec Go.flatFiles)
      (fun c => Go.LocalBlobStore.accepts (.new "data".toList) c.key)
      (rejectedThenAccepted Go.BlobCall.get) [] :=
  ⟨accepted_calls_spared.1 _ _ _ _ _ _ _ fun _ _ hr =>
      Rust.flatFiles_succeeds _ (fun _ => ⟨[], rfl⟩) hr,
    accepted_calls_spared.2 _ _ _ _ _ _ _ _ fun _ _ hr =>
      Go.flatFiles_succeeds _ (fun _ => ⟨[], rfl⟩) hr⟩

/-- The accepted calls return what they return in the run without the rejected ones. -/
def SequentialModel.Unaffected (X : SequentialModel) (ex : X.Executor) {β S α : Type}
    (ops : SequentialModel.Operations β S α) (accepted : β → Bool) : Prop :=
  ∀ (calls : List (Request β)) (s : S),
    (acceptedEntries accepted (X.run ex ops calls (X.newBreaker ex) s)).map Entry.result =
      (X.run ex ops (calls.filter fun r => accepted r.op) (X.newBreaker ex) s).map Entry.result

/-- A rejected key opens the circuit for the accepted ones, in both stores: under `data`, with a
threshold of one failure, `get("..")` is followed by a refusal of `get("a")`. -/
theorem rejected_key_opens_circuit :
    ¬ (∀ (st : Rust.LocalBlobStore) (codec : Rust.MetadataCodec) (S : Type)
      (serve : (c : Rust.FsCall) → S → c.Answer × S) (config : Rust.ResilienceConfig)
      (backend : String),
      (∀ c : Rust.BlobCall, st.accepts c.key = true →
        (Rust.blobOperations st codec serve).Succeeds c) →
      Rust.sequentialModel.Unaffected (Rust.blobExecutor config backend)
        (Rust.blobOperations st codec serve) fun c => st.accepts c.key) ∧
    ¬ (∀ (st : Go.LocalBlobStore) (codec : Go.MetadataCodec) (S : Type)
      (serve : (c : Go.FsCall) → S → c.Answer × S) (cfg : Go.ResilienceConfig) (metrics : Bool)
      (backend : String),
      (∀ c : Go.BlobCall, st.accepts c.key = true →
        (Go.blobOperations st codec serve).Succeeds c) →
      Go.sequentialModel.Unaffected (Go.blobExecutor cfg metrics backend)
        (Go.blobOperations st codec serve) fun c => st.accepts c.key) := by
  constructor
  · intro h
    have hresults := h ⟨"data".toList⟩ Rust.emptyCodec _ Rust.flatFiles Rust.oneFailure "local"
      (fun _ hc => Rust.flatFiles_succeeds _ (fun _ => ⟨[], rfl⟩) hc)
      (rejectedThenAccepted Rust.BlobCall.get) []
    have hok := congrArg (List.map (Option.map Except.isOk)) hresults
    revert hok
    decide
  · intro h
    have hresults := h (.new "data".toList) Go.emptyCodec _ Go.flatFiles Go.oneFailure true "local"
      (fun _ hc => Go.flatFiles_succeeds _ (fun _ => ⟨[], rfl⟩) hc)
      (rejectedThenAccepted Go.BlobCall.get) []
    have hok := congrArg (List.map (Option.map Except.isOk)) hresults
    revert hok
    decide

end GoyStore
