import GoyStore.Blob.ReadYourWrite
import GoyStore.Blob.RejectedKeys
import GoyStore.Library.Interleaving

/-!
# Overwriting at the same time

A `put` with metadata writes two files, and a `get` reads them, without a lock.  When the steps of
several calls on one key fall between each other, a `get` can return the bytes of one `put` with the
metadata of another, and the mixed pair stays on disk (`mixed_pair_stays`).

A call is midway between its steps on the two files.  If the blob is touched only while no `put` is
midway, and the sidecar is written only while no `get` is, then every `get` that finds a blob
returns what one `put` was given (`separate_calls_atomic`).
-/

namespace GoyStore

open FileTree UnixPath Effects

/-- A call on the key: a `put` with metadata, or a `get`. -/
inductive KeyCall (M : Type) where
  /-- A `put`. -/
  | put (data : List UInt8) (metadata : M)
  /-- A `get`. -/
  | get

/-- How far a call has come with the two files of the blob; `V` is what a `get` returns as
metadata. -/
inductive BlobProgress (V : Type) where
  /-- It has not touched them. -/
  | before
  /-- A `put` that has written the blob, and not the sidecar. -/
  | wroteData
  /-- A `get` that has read the blob, and not yet the sidecar. -/
  | readData (data : List UInt8)
  /-- A `get` that has found the blob with its metadata. -/
  | found (data : List UInt8) (metadata : V)
  /-- Nothing more comes. -/
  | over

/-- The call stands between its steps on the two files. -/
def BlobProgress.Midway {V : Type} : BlobProgress V → Prop
  | .wroteData => True
  | .readData _ => True
  | _ => False

/-- What a call to the file system does to a file. -/
inductive FileStep where
  /-- It writes it. -/
  | write
  /-- It reads it. -/
  | read
  /-- Neither. -/
  | other

/-- What a `get` returns is what it has found; `blob data metadata` is the value that says so. -/
def Reports {V ρ : Type} (blob : List UInt8 → V → ρ) (κ : BlobProgress V) (r : Except String ρ) :
    Prop :=
  ∀ data md, r = .ok (blob data md) → κ = .found data md

/-- A step comes apart from the other calls: the blob is written or read only while no `put` is
midway, and the sidecar is written only while no `get` is. -/
def Apart {ι V : Type} (known : ι → BlobProgress V) : BlobProgress V → FileStep → Prop
  | .before, .write => ∀ u, known u ≠ .wroteData
  | .before, .read => ∀ u, known u ≠ .wroteData
  | .wroteData, .write => ∀ u data, known u ≠ .readData data
  | _, _ => True

/-- The next step of a call comes apart from the other calls. -/
def Separate {ι V ε C ρ : Type} {A : C → Type} (fileStep : C → FileStep)
    (s : Pool ι (BlobProgress V) ε C A ρ Fs) (t : ι) : Prop :=
  ∀ c k, s.threads t = .call c k → Apart s.known (s.known t) (fileStep c)

section Orderly

variable {ι M V : Type} (calls : ι → KeyCall M) (encode : M → Except String (List UInt8))
  (view : M → V) (path suffix : Path)

/-- Some `put` was given the bytes, and metadata that are seen as the given ones. -/
def PutTogether (data : List UInt8) (metadata : V) : Prop :=
  ∃ t md, calls t = .put data md ∧ view md = metadata

/-- What the calls have left in the two files. -/
inductive BlobPhase (fs : Fs) (known : ι → BlobProgress V) : Prop
  /-- No blob was written. -/
  | blank (hnone : ∀ data, fs.node (fs.placeOf path) ≠ some (.file data))
      (hwriters : ∀ u, known u ≠ .wroteData)
  /-- A `put` has written both files. -/
  | settled (t : ι) (data : List UInt8) (md : M) (json : List UInt8)
      (hput : calls t = .put data md) (hjson : encode md = .ok json)
      (hblob : fs.stat path = .ok (.file data))
      (hsidecar : fs.stat (path ++ suffix) = .ok (.file json))
      (hwriters : ∀ u, known u ≠ .wroteData)
  /-- A `put` has written the blob, and is the only one midway. -/
  | writing (t : ι) (data : List UInt8) (md : M)
      (hput : calls t = .put data md) (hknown : known t = .wroteData)
      (hblob : fs.stat path = .ok (.file data)) (hwriters : ∀ u, u ≠ t → known u ≠ .wroteData)

/-- The files and what the calls know of them are in order. -/
structure Orderly (fs : Fs) (known : ι → BlobProgress V) : Prop where
  /-- The files. -/
  phase : BlobPhase calls encode path suffix fs known
  /-- A `get` that is midway has read the blob of a `put` whose metadata are in the sidecar. -/
  readers : ∀ u data, known u = .readData data → ∃ t md json, calls t = .put data md ∧
    encode md = .ok json ∧ fs.stat (path ++ suffix) = .ok (.file json)
  /-- What was found was put together. -/
  found : ∀ u data md, known u = .found data md → PutTogether calls view data md

variable {calls encode view path suffix} {fs fs' : Fs} {known : ι → BlobProgress V} {t : ι}
  {data json : List UInt8} {md : M}

/-- A `put` that is midway is the one that has written the blob. -/
lemma Orderly.of_wroteData (h : Orderly calls encode view path suffix fs known)
    (ht : known t = .wroteData) : (∃ data md, calls t = .put data md ∧
      fs.stat path = .ok (.file data)) ∧ ∀ u, u ≠ t → known u ≠ .wroteData := by
  rcases h.phase with ⟨-, hwriters⟩ | ⟨-, -, -, -, -, -, -, -, hwriters⟩ |
    ⟨t', data, md, hput, hknown, hblob, hwriters⟩
  · exact absurd ht (hwriters t)
  · exact absurd ht (hwriters t)
  · obtain rfl : t = t' := by
      by_contra hne
      exact hwriters t hne ht
    exact ⟨⟨data, md, hput, hblob⟩, hwriters⟩

/-- When no `put` is midway, the blob and the sidecar are of one `put`. -/
lemma Orderly.of_stat (h : Orderly calls encode view path suffix fs known)
    (hwriters : ∀ u, known u ≠ .wroteData) (hstat : fs.stat path = .ok (.file data)) :
    ∃ t md json, calls t = .put data md ∧ encode md = .ok json ∧
      fs.stat (path ++ suffix) = .ok (.file json) := by
  rcases h.phase with ⟨hnone, -⟩ | ⟨t, data', md, json, hput, hjson, hblob, hsidecar, -⟩ |
    ⟨t, -, -, -, hknown, -, -⟩
  · exact absurd (Fs.node_of_stat hstat) (hnone data)
  · rw [hblob] at hstat
    obtain rfl := Node.file.inj (Except.ok.inj hstat)
    exact ⟨t, md, json, hput, hjson, hsidecar⟩
  · exact absurd hknown (hwriters t)

section Steps

variable [DecidableEq ι] {κ : BlobProgress V}

/-- A call is where it was, unless it is the one that has come further. -/
lemma of_update_eq {κ' : BlobProgress V} {u : ι} (h : Function.update known t κ u = κ')
    (hne : κ ≠ κ') : u ≠ t ∧ known u = κ' := by
  by_cases hut : u = t
  · rw [hut, Function.update_self] at h
    exact absurd h hne
  · rw [Function.update_of_ne hut] at h
    exact ⟨hut, h⟩

/-- What was found is kept when another call comes further. -/
lemma Orderly.found_update (h : Orderly calls encode view path suffix fs known)
    (hκ : ∀ data md, κ = .found data md → PutTogether calls view data md) (u : ι)
    (data : List UInt8) (md : V) (hu : Function.update known t κ u = .found data md) :
    PutTogether calls view data md := by
  by_cases heq : κ = .found data md
  · exact hκ data md heq
  · exact h.found u data md (of_update_eq hu heq).2

/-- A step that writes no file: entries are kept, and the call is then not midway. -/
lemma Orderly.quiet (h : Orderly calls encode view path suffix fs known)
    (ht : known t ≠ .wroteData) (hκ : ¬ κ.Midway)
    (hfound : ∀ data md, κ = .found data md → PutTogether calls view data md)
    (hcwd : fs'.cwd = fs.cwd) (hnodes : ∀ x y, fs.node x = some y → fs'.node x = some y)
    (hfiles : ∀ x data, fs'.node x = some (.file data) → fs.node x = some (.file data)) :
    Orderly calls encode view path suffix fs' (Function.update known t κ) := by
  have hwriters : ∀ u, known u ≠ .wroteData → Function.update known t κ u ≠ .wroteData := by
    intro u hu hupdate
    exact hu (of_update_eq hupdate fun heq => hκ (by rw [heq]; trivial)).2
  refine ⟨?_, fun u data hu => ?_, h.found_update hfound⟩
  · rcases h.phase with ⟨hnone, hnobody⟩ | ⟨t', data, md, json, hput, hjson, hblob, hsidecar,
      hnobody⟩ | ⟨t', data, md, hput, hknown, hblob, hothers⟩
    · refine .blank (fun data hdata => ?_) fun u => hwriters u (hnobody u)
      rw [Fs.placeOf_congr hcwd] at hdata
      exact hnone data (hfiles _ _ hdata)
    · exact .settled t' data md json hput hjson (Fs.stat_of_nodes hnodes hcwd hblob)
        (Fs.stat_of_nodes hnodes hcwd hsidecar) fun u => hwriters u (hnobody u)
    · refine .writing t' data md hput ?_ (Fs.stat_of_nodes hnodes hcwd hblob) fun u hu =>
        hwriters u (hothers u hu)
      rw [Function.update_of_ne, hknown]
      rintro rfl
      exact ht hknown
  · obtain ⟨t', md, json, hput, hjson, hsidecar⟩ :=
      h.readers u data (of_update_eq hu fun heq => hκ (by rw [heq]; trivial)).2
    exact ⟨t', md, json, hput, hjson, Fs.stat_of_nodes hnodes hcwd hsidecar⟩

/-- A step that leaves the files as they are. -/
lemma Orderly.still (h : Orderly calls encode view path suffix fs known)
    (ht : known t ≠ .wroteData) (hκ : ¬ κ.Midway)
    (hfound : ∀ data md, κ = .found data md → PutTogether calls view data md) :
    Orderly calls encode view path suffix fs (Function.update known t κ) :=
  h.quiet ht hκ hfound rfl (fun _ _ => id) fun _ _ => id

/-- A step that changes nothing. -/
lemma Orderly.unchanged (h : Orderly calls encode view path suffix fs known) (ht : known t = κ) :
    Orderly calls encode view path suffix fs (Function.update known t κ) := by
  rw [← ht, Function.update_eq_self]
  exact h

/-- A `put` writes the blob while none is midway. -/
lemma Orderly.writeData (h : Orderly calls encode view path suffix fs known)
    (hslash : '/' ∉ suffix) (hlong : 2 < suffix.length) (hput : calls t = .put data md)
    (hwriters : ∀ u, known u ≠ .wroteData) (hwrite : fs.write path data = (.ok (), fs')) :
    Orderly calls encode view path suffix fs' (Function.update known t .wroteData) := by
  obtain ⟨hblob, hsidecar⟩ := stat_of_write hslash hlong hwrite
  refine ⟨.writing t data md hput (Function.update_self _ _ _) hblob fun u hut => ?_,
    fun u data hu => ?_, h.found_update fun _ _ hfalse => by cases hfalse⟩
  · rw [Function.update_of_ne hut]
    exact hwriters u
  · rw [hsidecar]
    exact h.readers u data (of_update_eq hu (by simp)).2

/-- A `put` that is midway writes the sidecar while no `get` is midway. -/
lemma Orderly.writeSidecar (h : Orderly calls encode view path suffix fs known)
    (hslash : '/' ∉ suffix) (hlong : 2 < suffix.length) (ht : known t = .wroteData)
    (hput : calls t = .put data md) (hjson : encode md = .ok json)
    (hreaders : ∀ u data, known u ≠ .readData data)
    (hwrite : fs.write (path ++ suffix) json = (.ok (), fs')) :
    Orderly calls encode view path suffix fs' (Function.update known t .over) := by
  obtain ⟨⟨data', md', hput', hblob⟩, hothers⟩ := h.of_wroteData ht
  obtain ⟨rfl, rfl⟩ := KeyCall.put.inj (hput'.symm.trans hput)
  obtain ⟨hblob', hsidecar'⟩ := stat_of_write_suffix hslash hlong hblob hwrite
  refine ⟨.settled t data' md' json hput' hjson hblob' hsidecar' fun u hu => ?_,
    fun u data hu => ?_, h.found_update fun _ _ hfalse => by cases hfalse⟩
  · obtain ⟨hut, hknown⟩ := of_update_eq hu (by simp)
    exact hothers u hut hknown
  · exact absurd (of_update_eq hu (by simp)).2 (hreaders u data)

/-- A `get` reads the blob while no `put` is midway. -/
lemma Orderly.readData (h : Orderly calls encode view path suffix fs known)
    (hwriters : ∀ u, known u ≠ .wroteData) (hstat : fs.stat path = .ok (.file data)) :
    Orderly calls encode view path suffix fs (Function.update known t (.readData data)) := by
  have hwriters' : ∀ u, Function.update known t (.readData data) u ≠ .wroteData :=
    fun u hu => hwriters u (of_update_eq hu (by simp)).2
  refine ⟨?_, fun u data' hu => ?_, h.found_update fun _ _ hfalse => by cases hfalse⟩
  · rcases h.phase with ⟨hnone, -⟩ | ⟨t', data', md, json, hput, hjson, hblob, hsidecar, -⟩ |
      ⟨t', -, -, -, hknown, -, -⟩
    · exact .blank hnone hwriters'
    · exact .settled t' data' md json hput hjson hblob hsidecar hwriters'
    · exact absurd hknown (hwriters t')
  · by_cases heq : data' = data
    · rw [heq]
      exact h.of_stat hwriters hstat
    · refine h.readers u data' (of_update_eq hu fun hdata => heq ?_).2
      exact (BlobProgress.readData.inj hdata).symm

/-- If every step that comes apart from the other calls keeps the files in order, then in a run of
such steps every `get` that returns a blob returns what one `put` was given. -/
theorem always_putTogether_of_orderly {C ρ : Type} {A : C → Type} {serve : (c : C) → Fs → A c × Fs}
    {P : ι → Protocol (BlobProgress V) C A} {fileStep : C → FileStep} {blob : List UInt8 → V → ρ}
    (hserve : ∀ {known fs t c}, Orderly calls encode view path suffix fs known →
      (P t).pre (known t) c → Apart known (known t) (fileStep c) →
      Orderly calls encode view path suffix (serve c fs).2
        (Function.update known t ((P t).next (known t) c (serve c fs).1)))
    {s : Pool ι (BlobProgress V) String C A ρ Fs} (hfollow : s.Follow P fun _ => Reports blob)
    (hknown : ∀ t, s.known t = .before)
    (hblank : ∀ data, s.store.node (s.store.placeOf path) ≠ some (.file data)) {ts : List ι}
    (hseparate : Runs.StepsMeet (Pool.step serve P) (Separate fileStep) s ts) :
    Runs.Always (Pool.step serve P)
      (fun s => ∀ t data md, s.threads t = .done (blob data md) →
        PutTogether calls view data md) s ts := by
  have hstart : Orderly calls encode view path suffix s.store s.known :=
    ⟨.blank hblank (by simp [hknown]), by simp [hknown], by simp [hknown]⟩
  have halways := Pool.always_of_follow
    (I := fun known fs => Orderly calls encode view path suffix fs known)
    (fun s t c k horderly hthread hpre hapart => hserve horderly hpre (hapart c k hthread))
    hfollow hstart hseparate
  intro pre s' hpre hrun t data md hdone
  obtain ⟨hfollow', horderly⟩ := halways pre s' hpre hrun
  have hreports := hfollow' t
  rw [hdone] at hreports
  exact horderly.found t data md (hreports data md rfl)

end Steps

end Orderly

/-! ### The Rust store -/

namespace Rust

/-- What a call does to a file. -/
def FsCall.fileStep : FsCall → FileStep
  | .write _ _ => .write
  | .read _ => .read
  | _ => .other

/-- The call of the blob contract. -/
def keyCall (key : String) : KeyCall Metadata → BlobCall
  | .put data md => .put key data (some md)
  | .get => .get key

/-- The calls to the file system that a call on the key makes. -/
inductive KeyStep (codec : MetadataCodec) (path : Path) :
    KeyCall Metadata → BlobProgress Metadata → FsCall → Prop
  /-- A `put` makes the directories. -/
  | makeDirs (data : List UInt8) (md : Metadata) (dir : List Component) :
      KeyStep codec path (.put data md) .before (.createDirAll dir)
  /-- It writes the blob. -/
  | writeData (data : List UInt8) (md : Metadata) :
      KeyStep codec path (.put data md) .before (.write path data)
  /-- It writes the sidecar. -/
  | writeSidecar (data : List UInt8) (md : Metadata) (json : List UInt8)
      (hjson : codec.toVec md = .ok json) :
      KeyStep codec path (.put data md) .wroteData (.write (LocalBlobStore.metaPath path) json)
  /-- A `get` looks for the blob. -/
  | findData : KeyStep codec path .get .before (.pathExists path)
  /-- It reads the blob. -/
  | readData : KeyStep codec path .get .before (.read path)
  /-- It looks for the sidecar. -/
  | findSidecar (data : List UInt8) :
      KeyStep codec path .get (.readData data) (.pathExists (LocalBlobStore.metaPath path))
  /-- It reads the sidecar. -/
  | readSidecar (data : List UInt8) :
      KeyStep codec path .get (.readData data) (.read (LocalBlobStore.metaPath path))

/-- What a call on the key knows from its steps. -/
def keyProtocol (codec : MetadataCodec) (path : Path) (call : KeyCall Metadata) :
    Protocol (BlobProgress Metadata) FsCall FsCall.Answer where
  pre := KeyStep codec path call
  next
    | .before, .write _ _, .ok () => .wroteData
    | .before, .write _ _, .error _ => .over
    | .wroteData, .write _ _, .ok () => .over
    | .before, .read _, .ok data => .readData data
    | .before, .read _, .error _ => .over
    | .readData data, .pathExists _, false => .found data default
    | .readData data, .read _, .ok bytes =>
      .found data ((codec.fromSlice bytes).toOption.getD default)
    | .readData _, .read _, .error _ => .over
    | κ, _, _ => κ

/-- The calls on the key, before their first steps. -/
def keyPool {ι : Type} (st : LocalBlobStore) (codec : MetadataCodec) (key : String)
    (calls : ι → KeyCall Metadata) (fs : Fs) :
    Pool ι (BlobProgress Metadata) String FsCall FsCall.Answer BlobValue Fs where
  store := fs
  threads t := (keyCall key (calls t)).program st codec
  known _ := .before

/-- A call on the key makes its next step. -/
def advance {ι : Type} [DecidableEq ι] (codec : MetadataCodec) (path : Path)
    (calls : ι → KeyCall Metadata) :
    Pool ι (BlobProgress Metadata) String FsCall FsCall.Answer BlobValue Fs → ι →
      Option (Pool ι (BlobProgress Metadata) String FsCall FsCall.Answer BlobValue Fs) :=
  Pool.step serve fun t => keyProtocol codec path (calls t)

variable {st : LocalBlobStore} {codec : MetadataCodec} {key : String} {path : Path}

/-- A `put` with metadata keeps to the protocol. -/
lemma follows_put (hpath : st.resolvePath key = .ok path) (data : List UInt8) (md : Metadata) :
    (st.put codec key data (some md)).Follows (keyProtocol codec path (.put data md))
      (fun _ _ => True) .before := by
  rw [LocalBlobStore.put, hpath]
  -- the directories are made first, then the two files are written
  have hfiles : (FsProg.write path data >>= fun _ => (some md).forM fun md =>
      Prog.ofExcept (codec.toVec md) >>= FsProg.write (LocalBlobStore.metaPath path)).Follows
        (keyProtocol codec path (.put data md)) (fun _ _ => True) .before := by
    refine ⟨.writeData data md, ?_⟩
    rintro (e | ⟨⟩)
    · exact trivial
    · rcases hjson : codec.toVec md with e | json
      · simp only [Option.forM, hjson]
        exact trivial
      · simp only [Option.forM, hjson]
        refine ⟨.writeSidecar data md json hjson, ?_⟩
        rintro (e | ⟨⟩)
        · exact trivial
        · exact trivial
  refine Prog.Follows.bind (p := .done path) (Prog.Follows.bind ?_)
  rcases hparent : parent path with - | dir
  · exact hfiles
  · refine ⟨.makeDirs data md dir, ?_⟩
    rintro (e | ⟨⟩)
    · exact trivial
    · exact hfiles

/-- A `get` keeps to the protocol, and returns what it has found. -/
lemma follows_get (hpath : st.resolvePath key = .ok path) :
    (st.get codec key).Follows (keyProtocol codec path .get)
      (fun κ r => ∀ data md, r = .ok (some (data, md)) → κ = .found data md) .before := by
  rw [LocalBlobStore.get, hpath]
  refine ⟨.findData, ?_⟩
  rintro (⟨⟩ | ⟨⟩)
  · rintro data md ⟨⟩
  · refine ⟨.readData, ?_⟩
    rintro (e | data)
    · rintro data md ⟨⟩
    · refine ⟨.findSidecar data, ?_⟩
      rintro (⟨⟩ | ⟨⟩)
      · rintro data md ⟨⟩
        rfl
      · refine ⟨.readSidecar data, ?_⟩
        rintro (e | bytes)
        · rintro data md ⟨⟩
        · rintro data md ⟨⟩
          rfl

/-- The calls on the key keep to the protocol. -/
lemma follows_keyCall (hpath : st.resolvePath key = .ok path) (call : KeyCall Metadata) :
    ((keyCall key call).program st codec).Follows (keyProtocol codec path call)
      (Reports fun data md => .blob (some (data, md))) .before := by
  rcases call with ⟨data, md⟩ | -
  · refine Prog.Follows.bind ((follows_put hpath data md).mono ?_)
    rintro κ (e | ⟨⟩) -
    · rintro data md ⟨⟩
    · rintro data md ⟨⟩
  · refine Prog.Follows.bind ((follows_get hpath).mono ?_)
    rintro κ (e | found) hfound
    · rintro data md ⟨⟩
    · rintro data md ⟨⟩
      exact hfound data md rfl

/-- A pool uses the codec only for the metadata of its calls and to decode. -/
lemma keyPool_congr {ι : Type} [DecidableEq ι] {calls : ι → KeyCall Metadata}
    {codec' : MetadataCodec} (st : LocalBlobStore) (key : String) (path : Path) (fs : Fs)
    (hencode : ∀ t data md, calls t = .put data md → codec.toVec md = codec'.toVec md)
    (hdecode : codec.fromSlice = codec'.fromSlice) :
    keyPool st codec key calls fs = keyPool st codec' key calls fs ∧
      advance codec path calls = advance codec' path calls := by
  constructor
  · have hthreads : ∀ t, (keyCall key (calls t)).program st codec =
        (keyCall key (calls t)).program st codec' := by
      intro t
      rcases hcall : calls t with ⟨data, md⟩ | -
      · rw [keyCall, BlobCall.program, BlobCall.program, LocalBlobStore.put_congr fun md' hmd => ?_]
        obtain rfl := Option.some.inj hmd
        exact hencode t data md hcall
      · simp only [keyCall, BlobCall.program, LocalBlobStore.get, LocalBlobStore.getMetadata,
          hdecode]
    simp only [keyPool, hthreads]
  · apply Pool.step_congr
    intro t
    simp only [keyProtocol, hdecode]

section Steps

variable {ι : Type} [DecidableEq ι] {calls : ι → KeyCall Metadata}
  {known : ι → BlobProgress Metadata} {fs : Fs} {t : ι} {c : FsCall}

/-- The tree after a write. -/
lemma serve_write (p : Path) (data : List UInt8) (fs : Fs) : serve (.write p data) fs =
    ((fs.write p data).1.mapError errorText, (fs.write p data).2) := rfl

/-- The answer to a read. -/
lemma serve_read (p : Path) (fs : Fs) :
    serve (.read p) fs = ((fs.read p).mapError errorText, fs) := rfl

/-- A step that comes apart from the other calls keeps the files in order. -/
lemma orderly_serve
    (hcodec : ∀ t data md, calls t = .put data md → ∀ json, codec.toVec md = .ok json →
      codec.fromSlice json = .ok md)
    (h : Orderly calls codec.toVec id path metaSuffix fs known)
    (hstep : KeyStep codec path (calls t) (known t) c)
    (hapart : Apart known (known t) c.fileStep) :
    Orderly calls codec.toVec id path metaSuffix (serve c fs).2
      (Function.update known t
        ((keyProtocol codec path (calls t)).next (known t) c (serve c fs).1)) := by
  generalize hcall : calls t = call at hstep ⊢
  generalize ht : known t = κ at hstep hapart ⊢
  cases hstep with
  | makeDirs data md dir =>
    exact h.quiet (by simp [ht]) id (by rintro _ _ ⟨⟩) Fs.cwd_makeDirs
      (fun _ _ => Fs.node_makeDirs) fun _ _ => Fs.file_of_makeDirs
  | writeData data md =>
    rw [serve_write]
    rcases hwrite : fs.write path data with ⟨e | ⟨⟩, fs'⟩
    · rw [Fs.of_write_eq_error hwrite]
      exact h.still (by simp [ht]) id (by rintro _ _ ⟨⟩)
    · exact h.writeData slash_notMem_metaSuffix two_lt_length_metaSuffix hcall hapart hwrite
  | writeSidecar data md json hjson =>
    rw [serve_write]
    rcases hwrite : fs.write (LocalBlobStore.metaPath path) json with ⟨e | ⟨⟩, fs'⟩
    · -- the call fails midway, and stays there
      rw [Fs.of_write_eq_error hwrite]
      exact h.unchanged ht
    · exact h.writeSidecar slash_notMem_metaSuffix two_lt_length_metaSuffix ht hcall hjson hapart
        hwrite
  | findData => exact h.still (by simp [ht]) id (by rintro _ _ ⟨⟩)
  | readData =>
    rw [serve_read, Fs.read]
    rcases hstat : fs.stat path with e | ⟨⟨⟩ | data⟩
    · exact h.still (by simp [ht]) id (by rintro _ _ ⟨⟩)
    · exact h.still (by simp [ht]) id (by rintro _ _ ⟨⟩)
    · exact h.readData hapart hstat
  | findSidecar data =>
    obtain ⟨t', md, json, hput, hjson, hsidecar⟩ := h.readers t data ht
    have hserve : serve (.pathExists (LocalBlobStore.metaPath path)) fs = (true, fs) := by
      rw [LocalBlobStore.serve_pathExists, LocalBlobStore.metaPath, hsidecar]
      rfl
    rw [hserve]
    exact h.unchanged ht
  | readSidecar data =>
    obtain ⟨t', md, json, hput, hjson, hsidecar⟩ := h.readers t data ht
    have hserve : serve (.read (LocalBlobStore.metaPath path)) fs = (.ok json, fs) := by
      rw [serve_read, Fs.read, LocalBlobStore.metaPath, hsidecar]
      rfl
    rw [hserve]
    refine h.still (by simp [ht]) id ?_
    rintro _ _ ⟨⟩
    exact ⟨t', md, hput, by rw [hcodec t' data md hput json hjson]; rfl⟩

/-- If the steps come apart from each other, every `get` that returns a blob returns what one `put`
was given. -/
theorem always_putTogether (hpath : st.resolvePath key = .ok path)
    (hcodec : ∀ t data md, calls t = .put data md → ∀ json, codec.toVec md = .ok json →
      codec.fromSlice json = .ok md)
    (hblank : ∀ data, fs.node (fs.placeOf path) ≠ some (.file data)) {ts : List ι}
    (hseparate : Runs.StepsMeet (advance codec path calls) (Separate FsCall.fileStep)
      (keyPool st codec key calls fs) ts) :
    Runs.Always (advance codec path calls)
      (fun s => ∀ t data md, s.threads t = .done (.blob (some (data, md))) →
        PutTogether calls id data md) (keyPool st codec key calls fs) ts :=
  always_putTogether_of_orderly (orderly_serve hcodec)
    (fun t => follows_keyCall hpath (calls t)) (fun _ => rfl) hblank hseparate

end Steps

end Rust

/-! ### The Go store -/

namespace Go

/-- What a call does to a file. -/
def FsCall.fileStep : FsCall → FileStep
  | .writeFile _ _ => .write
  | .readFile _ => .read
  | _ => .other

/-- The call of the blob contract. -/
def keyCall (key : String) : KeyCall Metadata → BlobCall
  | .put data md => .put key data (some md)
  | .get => .get key

/-- The calls to the file system that a call on the key makes. -/
inductive KeyStep (codec : MetadataCodec) (path : Path) :
    KeyCall Metadata → BlobProgress (Option Metadata) → FsCall → Prop
  /-- A `Put` makes the directories. -/
  | makeDirs (data : List UInt8) (md : Metadata) (dir : Path) :
      KeyStep codec path (.put data md) .before (.mkdirAll dir)
  /-- It writes the blob. -/
  | writeData (data : List UInt8) (md : Metadata) :
      KeyStep codec path (.put data md) .before (.writeFile path data)
  /-- It writes the sidecar. -/
  | writeSidecar (data : List UInt8) (md : Metadata) (json : List UInt8)
      (hjson : codec.marshal md = .ok json) :
      KeyStep codec path (.put data md) .wroteData
        (.writeFile (LocalBlobStore.metaPath path) json)
  /-- A `Get` reads the blob. -/
  | readData : KeyStep codec path .get .before (.readFile path)
  /-- It reads the sidecar. -/
  | readSidecar (data : List UInt8) :
      KeyStep codec path .get (.readData data) (.readFile (LocalBlobStore.metaPath path))

/-- What a call on the key knows from its steps. -/
def keyProtocol (codec : MetadataCodec) (path : Path) (call : KeyCall Metadata) :
    Protocol (BlobProgress (Option Metadata)) FsCall FsCall.Answer where
  pre := KeyStep codec path call
  next
    | .before, .writeFile _ _, .ok () => .wroteData
    | .before, .writeFile _ _, .error _ => .over
    | .wroteData, .writeFile _ _, .ok () => .over
    | .before, .readFile _, .ok data => .readData data
    | .before, .readFile _, .error _ => .over
    | .readData data, .readFile _, .ok bytes => .found data (codec.unmarshal bytes).toOption
    | .readData data, .readFile _, .error _ => .found data none
    | κ, _, _ => κ

/-- The calls on the key, before their first steps. -/
def keyPool {ι : Type} (s : LocalBlobStore) (codec : MetadataCodec) (key : String)
    (calls : ι → KeyCall Metadata) (fs : Fs) :
    Pool ι (BlobProgress (Option Metadata)) String FsCall FsCall.Answer BlobValue Fs where
  store := fs
  threads t := (keyCall key (calls t)).program s codec
  known _ := .before

/-- A call on the key makes its next step. -/
def advance {ι : Type} [DecidableEq ι] (codec : MetadataCodec) (path : Path)
    (calls : ι → KeyCall Metadata) :
    Pool ι (BlobProgress (Option Metadata)) String FsCall FsCall.Answer BlobValue Fs → ι →
      Option (Pool ι (BlobProgress (Option Metadata)) String FsCall FsCall.Answer BlobValue Fs) :=
  Pool.step serve fun t => keyProtocol codec path (calls t)

variable {s : LocalBlobStore} {codec : MetadataCodec} {key : String} {path : Path}

/-- A `Put` with metadata keeps to the protocol. -/
lemma follows_put (hpath : s.resolvePath key = .ok path) (data : List UInt8) (md : Metadata) :
    (s.put codec none key data (some md)).Follows (keyProtocol codec path (.put data md))
      (fun _ _ => True) .before := by
  rw [LocalBlobStore.put, hpath]
  refine Prog.Follows.bind (p := .done ()) (Prog.Follows.bind (p := .done path) ?_)
  refine ⟨.makeDirs data md _, ?_⟩
  rintro (e | ⟨⟩)
  · exact trivial
  · refine ⟨.writeData data md, ?_⟩
    rintro (e | ⟨⟩)
    · exact trivial
    · rcases hjson : codec.marshal md with e | json
      · simp only [Option.forM, hjson]
        exact trivial
      · simp only [Option.forM, hjson]
        refine ⟨.writeSidecar data md json hjson, ?_⟩
        rintro (e | ⟨⟩)
        · exact trivial
        · exact trivial

/-- A `Get` keeps to the protocol, and returns what it has found. -/
lemma follows_get (hpath : s.resolvePath key = .ok path) :
    (s.get codec none key).Follows (keyProtocol codec path .get)
      (fun κ r => ∀ data md, r = .ok (some (data, md)) → κ = .found data md) .before := by
  rw [LocalBlobStore.get, hpath]
  refine Prog.Follows.bind (p := .done ()) (Prog.Follows.bind (p := .done path) ?_)
  refine ⟨.readData, ?_⟩
  rintro (e | data)
  · by_cases he : e.notExist = true
    · simp only [if_pos he]
      rintro data md ⟨⟩
    · simp only [if_neg he]
      rintro data md ⟨⟩
  · refine ⟨.readSidecar data, ?_⟩
    rintro (e | bytes)
    · rintro data md ⟨⟩
      rfl
    · rintro data md ⟨⟩
      rfl

/-- The calls on the key keep to the protocol. -/
lemma follows_keyCall (hpath : s.resolvePath key = .ok path) (call : KeyCall Metadata) :
    ((keyCall key call).program s codec).Follows (keyProtocol codec path call)
      (Reports fun data md => .blob (some (data, md))) .before := by
  rcases call with ⟨data, md⟩ | -
  · refine Prog.Follows.bind ((follows_put hpath data md).mono ?_)
    rintro κ (e | ⟨⟩) -
    · rintro data md ⟨⟩
    · rintro data md ⟨⟩
  · refine Prog.Follows.bind ((follows_get hpath).mono ?_)
    rintro κ (e | found) hfound
    · rintro data md ⟨⟩
    · rintro data md ⟨⟩
      exact hfound data md rfl

/-- A pool uses the codec only for the metadata of its calls and to decode. -/
lemma keyPool_congr {ι : Type} [DecidableEq ι] {calls : ι → KeyCall Metadata}
    {codec' : MetadataCodec} (s : LocalBlobStore) (key : String) (path : Path) (fs : Fs)
    (hencode : ∀ t data md, calls t = .put data md → codec.marshal md = codec'.marshal md)
    (hdecode : codec.unmarshal = codec'.unmarshal) :
    keyPool s codec key calls fs = keyPool s codec' key calls fs ∧
      advance codec path calls = advance codec' path calls := by
  constructor
  · have hthreads : ∀ t, (keyCall key (calls t)).program s codec =
        (keyCall key (calls t)).program s codec' := by
      intro t
      rcases hcall : calls t with ⟨data, md⟩ | -
      · rw [keyCall, BlobCall.program, BlobCall.program, LocalBlobStore.put_congr fun md' hmd => ?_]
        obtain rfl := Option.some.inj hmd
        exact hencode t data md hcall
      · simp only [keyCall, BlobCall.program, LocalBlobStore.get, LocalBlobStore.getMetadata,
          hdecode]
    simp only [keyPool, hthreads]
  · apply Pool.step_congr
    intro t
    simp only [keyProtocol, hdecode]

section Steps

variable {ι : Type} [DecidableEq ι] {calls : ι → KeyCall Metadata}
  {known : ι → BlobProgress (Option Metadata)} {fs : Fs} {t : ι} {c : FsCall}

/-- The tree after a write. -/
lemma serve_writeFile (p : Path) (data : List UInt8) (fs : Fs) : serve (.writeFile p data) fs =
    ((fs.write p data).1.mapError (pathError "open" p), (fs.write p data).2) := rfl

/-- A step that comes apart from the other calls keeps the files in order. -/
lemma orderly_serve
    (hcodec : ∀ t data md, calls t = .put data md → ∀ json, codec.marshal md = .ok json →
      codec.unmarshal json = .ok md)
    (h : Orderly calls codec.marshal some path metaSuffix fs known)
    (hstep : KeyStep codec path (calls t) (known t) c)
    (hapart : Apart known (known t) c.fileStep) :
    Orderly calls codec.marshal some path metaSuffix (serve c fs).2
      (Function.update known t
        ((keyProtocol codec path (calls t)).next (known t) c (serve c fs).1)) := by
  generalize hcall : calls t = call at hstep ⊢
  generalize ht : known t = κ at hstep hapart ⊢
  cases hstep with
  | makeDirs data md dir =>
    exact h.quiet (by simp [ht]) id (by rintro _ _ ⟨⟩) Fs.cwd_makeDirs
      (fun _ _ => Fs.node_makeDirs) fun _ _ => Fs.file_of_makeDirs
  | writeData data md =>
    rw [serve_writeFile]
    rcases hwrite : fs.write path data with ⟨e | ⟨⟩, fs'⟩
    · rw [Fs.of_write_eq_error hwrite]
      exact h.still (by simp [ht]) id (by rintro _ _ ⟨⟩)
    · exact h.writeData slash_notMem_metaSuffix two_lt_length_metaSuffix hcall hapart hwrite
  | writeSidecar data md json hjson =>
    rw [serve_writeFile]
    rcases hwrite : fs.write (LocalBlobStore.metaPath path) json with ⟨e | ⟨⟩, fs'⟩
    · -- the call fails midway, and stays there
      rw [Fs.of_write_eq_error hwrite]
      exact h.unchanged ht
    · exact h.writeSidecar slash_notMem_metaSuffix two_lt_length_metaSuffix ht hcall hjson hapart
        hwrite
  | readData =>
    rw [LocalBlobStore.serve_readFile, readFile]
    rcases hstat : fs.stat path with e | ⟨⟨⟩ | data⟩
    · exact h.still (by simp [ht]) id (by rintro _ _ ⟨⟩)
    · exact h.still (by simp [ht]) id (by rintro _ _ ⟨⟩)
    · exact h.readData hapart hstat
  | readSidecar data =>
    obtain ⟨t', md, json, hput, hjson, hsidecar⟩ := h.readers t data ht
    have hserve : serve (.readFile (LocalBlobStore.metaPath path)) fs = (.ok json, fs) := by
      rw [LocalBlobStore.serve_readFile, readFile, LocalBlobStore.metaPath, hsidecar]
    rw [hserve]
    refine h.still (by simp [ht]) id ?_
    rintro _ _ ⟨⟩
    exact ⟨t', md, hput, by rw [hcodec t' data md hput json hjson]; rfl⟩

/-- If the steps come apart from each other, every `Get` that returns a blob returns what one `Put`
was given. -/
theorem always_putTogether (hpath : s.resolvePath key = .ok path)
    (hcodec : ∀ t data md, calls t = .put data md → ∀ json, codec.marshal md = .ok json →
      codec.unmarshal json = .ok md)
    (hblank : ∀ data, fs.node (fs.placeOf path) ≠ some (.file data)) {ts : List ι}
    (hseparate : Runs.StepsMeet (advance codec path calls) (Separate FsCall.fileStep)
      (keyPool s codec key calls fs) ts) :
    Runs.Always (advance codec path calls)
      (fun s => ∀ t data md, s.threads t = .done (.blob (some (data, md))) →
        PutTogether calls some data md) (keyPool s codec key calls fs) ts :=
  always_putTogether_of_orderly (orderly_serve hcodec)
    (fun t => follows_keyCall hpath (calls t)) (fun _ => rfl) hblank hseparate

end Steps

end Go

/-! ### Both stores -/

/-- In both stores, from any tree without the blob and in every run of any number of `put` and `get`
calls on its key in which the blob is touched only while no `put` is midway and the sidecar is
written only while no `get` is, every `get` that returns a blob returns what one `put` was given. -/
theorem separate_calls_atomic {ι : Type} [DecidableEq ι] (key : String) (path : Path) (fs : Fs)
    (ts : List ι) :
    (∀ (st : Rust.LocalBlobStore) (codec : Rust.MetadataCodec) (calls : ι → KeyCall Rust.Metadata),
      st.resolvePath key = .ok path →
      (∀ t data md, calls t = .put data md → ∀ json, codec.toVec md = .ok json →
        codec.fromSlice json = .ok md) →
      (∀ data, fs.node (fs.placeOf path) ≠ some (.file data)) →
      Runs.StepsMeet (Rust.advance codec path calls) (Separate Rust.FsCall.fileStep)
        (Rust.keyPool st codec key calls fs) ts →
      Runs.Always (Rust.advance codec path calls)
        (fun s => ∀ t data md, s.threads t = .done (.blob (some (data, md))) →
          PutTogether calls id data md) (Rust.keyPool st codec key calls fs) ts) ∧
    (∀ (s : Go.LocalBlobStore) (codec : Go.MetadataCodec) (calls : ι → KeyCall Go.Metadata),
      s.resolvePath key = .ok path →
      (∀ t data md, calls t = .put data md → ∀ json, codec.marshal md = .ok json →
        codec.unmarshal json = .ok md) →
      (∀ data, fs.node (fs.placeOf path) ≠ some (.file data)) →
      Runs.StepsMeet (Go.advance codec path calls) (Separate Go.FsCall.fileStep)
        (Go.keyPool s codec key calls fs) ts →
      Runs.Always (Go.advance codec path calls)
        (fun s => ∀ t data md, s.threads t = .done (.blob (some (data, md))) →
          PutTogether calls some data md) (Go.keyPool s codec key calls fs) ts) :=
  ⟨fun _ _ _ hpath hcodec hblank hseparate =>
      Rust.always_putTogether hpath hcodec hblank hseparate,
    fun _ _ _ hpath hcodec hblank hseparate =>
      Go.always_putTogether hpath hcodec hblank hseparate⟩

/-- Two `put` calls and a `get`. -/
def twoPuts {M : Type} (md₁ md₂ : M) : Fin 3 → KeyCall M
  | 0 => .put [1] md₁
  | 1 => .put [2] md₂
  | 2 => .get

/-- A codec that knows the plain text metadata and the default. -/
def Rust.twoCodec : Rust.MetadataCodec :=
  ⟨fun md => .ok (if md.contentType = none then [0] else [1]),
    fun json => .ok (if json = [0] then default else plainText)⟩

/-- A codec that knows the plain text metadata and the empty ones. -/
def Go.twoCodec : Go.MetadataCodec :=
  ⟨fun md => .ok (if md.contentType = "" then [0] else [1]),
    fun json => .ok (if json = [0] then ⟨"", none⟩ else plainText)⟩

/-- The two `put` calls with metadata that the codec knows. -/
def Rust.twoPuts : Fin 3 → KeyCall Rust.Metadata := GoyStore.twoPuts Rust.plainText default

/-- The two `Put` calls with metadata that the codec knows. -/
def Go.twoPuts : Fin 3 → KeyCall Go.Metadata := GoyStore.twoPuts Go.plainText ⟨"", none⟩

/-- The codec decodes the metadata of the two calls. -/
lemma Rust.twoCodec_decodes (t : Fin 3) (data : List UInt8) (md : Rust.Metadata)
    (h : Rust.twoPuts t = .put data md) (json : List UInt8)
    (hjson : Rust.twoCodec.toVec md = .ok json) : Rust.twoCodec.fromSlice json = .ok md := by
  match t with
  | 0 =>
    cases h
    cases hjson
    rfl
  | 1 =>
    cases h
    cases hjson
    rfl
  | 2 => cases h

/-- The codec decodes the metadata of the two calls. -/
lemma Go.twoCodec_decodes (t : Fin 3) (data : List UInt8) (md : Go.Metadata)
    (h : Go.twoPuts t = .put data md) (json : List UInt8)
    (hjson : Go.twoCodec.marshal md = .ok json) : Go.twoCodec.unmarshal json = .ok md := by
  match t with
  | 0 =>
    cases h
    cases hjson
    rfl
  | 1 =>
    cases h
    cases hjson
    rfl
  | 2 => cases h

/-- The second `put` writes the blob between the two reads of the `get`, and the sidecar after
them. -/
lemma Rust.twoPuts_separate :
    Runs.StepsMeet (Rust.advance Rust.twoCodec "data/a".toList Rust.twoPuts)
      (Separate Rust.FsCall.fileStep)
      (Rust.keyPool ⟨"data".toList⟩ Rust.twoCodec "a" Rust.twoPuts Fs.empty)
      [0, 0, 0, 2, 2, 1, 1, 2, 2, 1] := by
  refine .cons rfl ?_ (.cons rfl ?_ (.cons rfl ?_ (.cons rfl ?_ (.cons rfl ?_ (.cons rfl ?_
    (.cons rfl ?_ (.cons rfl ?_ (.cons rfl ?_ (.cons rfl ?_ (.nil _))))))))))
  all_goals rintro c k ⟨⟩
  · exact trivial
  · exact fun | 0 => nofun | 1 => nofun | 2 => nofun
  · exact fun | 0 => nofun | 1 => nofun | 2 => nofun
  · exact trivial
  · exact fun | 0 => nofun | 1 => nofun | 2 => nofun
  · exact trivial
  · exact fun | 0 => nofun | 1 => nofun | 2 => nofun
  · exact trivial
  · exact trivial
  · exact fun | 0 => nofun | 1 => nofun | 2 => nofun

/-- The second `Put` writes the blob between the two reads of the `Get`, and the sidecar after
them. -/
lemma Go.twoPuts_separate :
    Runs.StepsMeet (Go.advance Go.twoCodec "data/a".toList Go.twoPuts)
      (Separate Go.FsCall.fileStep)
      (Go.keyPool (.new "data".toList) Go.twoCodec "a" Go.twoPuts Fs.empty)
      [0, 0, 0, 2, 1, 1, 2, 1] := by
  refine .cons rfl ?_ (.cons rfl ?_ (.cons rfl ?_ (.cons rfl ?_ (.cons rfl ?_ (.cons rfl ?_
    (.cons rfl ?_ (.cons rfl ?_ (.nil _))))))))
  all_goals rintro c k ⟨⟩
  · exact trivial
  · exact fun | 0 => nofun | 1 => nofun | 2 => nofun
  · exact fun | 0 => nofun | 1 => nofun | 2 => nofun
  · exact fun | 0 => nofun | 1 => nofun | 2 => nofun
  · exact trivial
  · exact fun | 0 => nofun | 1 => nofun | 2 => nofun
  · exact trivial
  · exact fun | 0 => nofun | 1 => nofun | 2 => nofun

/-- In both stores under `data`, two `put` calls and a `get` of `a`, with steps between each other,
keep the blob together. -/
theorem separate_calls_atomic_two_puts :
    Runs.Always (Rust.advance Rust.twoCodec "data/a".toList Rust.twoPuts)
      (fun s => ∀ t data md, s.threads t = .done (.blob (some (data, md))) →
        PutTogether Rust.twoPuts id data md)
      (Rust.keyPool ⟨"data".toList⟩ Rust.twoCodec "a" Rust.twoPuts Fs.empty)
      [0, 0, 0, 2, 2, 1, 1, 2, 2, 1] ∧
    Runs.Always (Go.advance Go.twoCodec "data/a".toList Go.twoPuts)
      (fun s => ∀ t data md, s.threads t = .done (.blob (some (data, md))) →
        PutTogether Go.twoPuts some data md)
      (Go.keyPool (.new "data".toList) Go.twoCodec "a" Go.twoPuts Fs.empty)
      [0, 0, 0, 2, 1, 1, 2, 1] :=
  ⟨(separate_calls_atomic _ _ _ _).1 _ _ _ (by decide) Rust.twoCodec_decodes nofun
      Rust.twoPuts_separate,
    (separate_calls_atomic _ _ _ _).2 _ _ _ (by decide) Go.twoCodec_decodes nofun
      Go.twoPuts_separate⟩

/-- The second `put` writes its two files between those of the first.  In both stores under `data`,
the `get` of `a` after both returns the bytes of the second with the metadata of the first. -/
theorem mixed_pair_stays :
    ¬ (∀ (ι : Type) [DecidableEq ι] (st : Rust.LocalBlobStore) (codec : Rust.MetadataCodec),
      (∀ md json, codec.toVec md = .ok json → codec.fromSlice json = .ok md) →
      ∀ (key : String) (path : Path) (calls : ι → KeyCall Rust.Metadata) (ts : List ι),
      st.resolvePath key = .ok path →
      Runs.Always (Rust.advance codec path calls)
        (fun s => ∀ t data md, s.threads t = .done (.blob (some (data, md))) →
          PutTogether calls id data md) (Rust.keyPool st codec key calls Fs.empty) ts) ∧
    ¬ (∀ (ι : Type) [DecidableEq ι] (s : Go.LocalBlobStore) (codec : Go.MetadataCodec),
      (∀ md json, codec.marshal md = .ok json → codec.unmarshal json = .ok md) →
      ∀ (key : String) (path : Path) (calls : ι → KeyCall Go.Metadata) (ts : List ι),
      s.resolvePath key = .ok path →
      Runs.Always (Go.advance codec path calls)
        (fun s => ∀ t data md, s.threads t = .done (.blob (some (data, md))) →
          PutTogether calls some data md) (Go.keyPool s codec key calls Fs.empty) ts) := by
  constructor
  · intro h
    obtain ⟨codec, hround, hencode, hdecode⟩ := Rust.exists_codec Rust.twoCodec
      (fun md => ∃ t data, Rust.twoPuts t = .put data md)
      fun md ⟨t, data, hput⟩ => Rust.twoCodec_decodes t data md hput
    have hput : ∀ t data md, Rust.twoPuts t = .put data md →
        codec.toVec md = Rust.twoCodec.toVec md :=
      fun t data md hput => hencode md ⟨t, data, hput⟩
    have hrun : ∃ s, Runs.runFrom (Rust.advance Rust.twoCodec "data/a".toList Rust.twoPuts)
        (Rust.keyPool ⟨"data".toList⟩ Rust.twoCodec "a" Rust.twoPuts Fs.empty)
        [0, 0, 1, 1, 1, 0, 2, 2, 2, 2] = some s ∧
          s.threads 2 = .done (.blob (some ([2], Rust.plainText))) := ⟨_, rfl, rfl⟩
    obtain ⟨hpool, hadvance⟩ := Rust.keyPool_congr ⟨"data".toList⟩ "a" "data/a".toList Fs.empty hput
      hdecode
    rw [← hpool, ← hadvance] at hrun
    obtain ⟨s, hrun, hdone⟩ := hrun
    obtain ⟨t, md, hcall, hview⟩ := h (Fin 3) _ codec hround "a" _ Rust.twoPuts _ (by decide) _ s
      List.prefix_rfl hrun 2 [2] Rust.plainText hdone
    match t with
    | 0 => cases hcall
    | 1 =>
      cases hcall
      cases congrArg Rust.Metadata.contentType hview
    | 2 => cases hcall
  · intro h
    obtain ⟨codec, hround, hencode, hdecode⟩ := Go.exists_codec Go.twoCodec
      (fun md => ∃ t data, Go.twoPuts t = .put data md)
      fun md ⟨t, data, hput⟩ => Go.twoCodec_decodes t data md hput
    have hput : ∀ t data md, Go.twoPuts t = .put data md →
        codec.marshal md = Go.twoCodec.marshal md :=
      fun t data md hput => hencode md ⟨t, data, hput⟩
    have hrun : ∃ s, Runs.runFrom (Go.advance Go.twoCodec "data/a".toList Go.twoPuts)
        (Go.keyPool (.new "data".toList) Go.twoCodec "a" Go.twoPuts Fs.empty)
        [0, 0, 1, 1, 1, 0, 2, 2] = some s ∧
          s.threads 2 = .done (.blob (some ([2], some Go.plainText))) := ⟨_, rfl, rfl⟩
    obtain ⟨hpool, hadvance⟩ := Go.keyPool_congr (.new "data".toList) "a" "data/a".toList Fs.empty
      hput hdecode
    rw [← hpool, ← hadvance] at hrun
    obtain ⟨s, hrun, hdone⟩ := hrun
    obtain ⟨t, md, hcall, hview⟩ := h (Fin 3) _ codec hround "a" _ Go.twoPuts _ (by decide) _ s
      List.prefix_rfl hrun 2 [2] (some Go.plainText) hdone
    match t with
    | 0 => cases hcall
    | 1 =>
      cases hcall
      exact absurd (congrArg Go.Metadata.contentType (Option.some.inj hview)) (by decide)
    | 2 => cases hcall

end GoyStore
