import GoyStore.Blob.BlobFiles

/-!
# Reading what was put

A `put` with metadata writes the blob and its sidecar, and the `get` after it returns both.  A `put`
without metadata writes the blob only: it leaves an older sidecar where it is, and the `get` after
it returns the metadata of an earlier blob (`stale_metadata`), where the stores in memory return
none.  `read_your_write_iff` says exactly when `get` returns what was put.
-/

namespace GoyStore

open FileTree UnixPath Effects

/-- After a file was written, it is found, and at the path with a suffix stands what stood there. -/
lemma stat_of_write {fs fs' : Fs} {p suffix : Path} {data : List UInt8} (hslash : '/' ∉ suffix)
    (hlong : 2 < suffix.length) (h : fs.write p data = (.ok (), fs')) :
    fs'.stat p = .ok (.file data) ∧ fs'.stat (p ++ suffix) = fs.stat (p ++ suffix) := by
  obtain ⟨l, name, hentry, -⟩ := Fs.of_write_eq_ok h
  obtain ⟨-, -, -, -, -, hplace⟩ := Fs.of_entry_eq_ok hentry
  have hne : l ++ [name ++ suffix] ≠ fs.placeOf p := by
    rw [← hplace]
    intro heq
    have hname : name ++ suffix = name := by simpa using heq
    have hnil : suffix = [] := List.append_right_eq_self.mp hname
    rw [hnil] at hlong
    simp at hlong
  refine ⟨?_, ?_⟩
  · rw [(Fs.stat_write h hentry).2, if_pos hplace]
  · rw [(Fs.stat_write h (Fs.entry_append hslash hlong hentry)).2, if_neg hne]

/-- When the path with a suffix is written, a file that stands at the path is kept. -/
lemma stat_of_write_suffix {fs fs' : Fs} {p suffix : Path} {data bytes : List UInt8}
    (hslash : '/' ∉ suffix) (hlong : 2 < suffix.length) (h : fs.stat p = .ok (.file data))
    (h' : fs.write (p ++ suffix) bytes = (.ok (), fs')) :
    fs'.stat p = .ok (.file data) ∧ fs'.stat (p ++ suffix) = .ok (.file bytes) := by
  obtain ⟨l, name, hentry⟩ := Fs.exists_entry_of_stat h
  have hsuffix := Fs.entry_append hslash hlong hentry
  obtain ⟨-, -, -, -, -, hplace⟩ := Fs.of_entry_eq_ok hsuffix
  have hne : l ++ [name] ≠ fs.placeOf (p ++ suffix) := by
    rw [← hplace]
    intro heq
    have hname : name = name ++ suffix := by simpa using heq
    have hnil : suffix = [] := List.append_right_eq_self.mp hname.symm
    rw [hnil] at hlong
    simp at hlong
  refine ⟨?_, ?_⟩
  · rw [(Fs.stat_write h' hentry).2, if_neg hne, h]
  · rw [(Fs.stat_write h' hsuffix).2, if_pos hplace]

/-- After a file and then the path with a suffix were written, both are found. -/
lemma stat_of_write_both {fs fs₁ fs' : Fs} {p suffix : Path} {data bytes : List UInt8}
    (hslash : '/' ∉ suffix) (hlong : 2 < suffix.length) (h : fs.write p data = (.ok (), fs₁))
    (h' : fs₁.write (p ++ suffix) bytes = (.ok (), fs')) :
    fs'.stat p = .ok (.file data) ∧ fs'.stat (p ++ suffix) = .ok (.file bytes) :=
  stat_of_write_suffix hslash hlong (stat_of_write hslash hlong h).1 h'

/-! ### The Rust store -/

namespace Rust

namespace LocalBlobStore

/-- What stands at the path of a sidecar, if anything, is a file that gives the default metadata. -/
def GivesDefault (codec : MetadataCodec) (sidecar : Except Errno Node) : Prop :=
  ∀ x, sidecar = .ok x →
    ∃ bytes, x = .file bytes ∧ (codec.fromSlice bytes).toOption.getD default = default

variable {st : LocalBlobStore} {codec : MetadataCodec} {key : String} {path : Path} {fs : Fs}
  {data : List UInt8} {metadata : Option Metadata}

/-- After a `put` that succeeds, `get` returns what was put if and only if metadata was given or
what stands at the path of the sidecar gives the default. -/
lemma get_put_iff (hpath : st.resolvePath key = .ok path)
    (hput : ((st.put codec key data metadata).run serve fs).1 = .ok ())
    (hcodec : ∀ md ∈ metadata, ∀ json, codec.toVec md = .ok json → codec.fromSlice json = .ok md) :
    ((st.get codec key).run serve ((st.put codec key data metadata).run serve fs).2).1 =
        .ok (some (data, metadata.getD default)) ↔
      metadata.isSome = true ∨ GivesDefault codec ((madeDirs fs path).stat (metaPath path)) := by
  obtain ⟨fs', hrun⟩ : ∃ fs', (st.put codec key data metadata).run serve fs = (.ok (), fs') :=
    ⟨_, Prod.ext hput rfl⟩
  obtain ⟨written, hwritten, hsidecar⟩ := of_put_eq_ok hpath hrun
  rw [hrun, run_get hpath]
  rcases metadata with - | md
  · -- without metadata the sidecar is what it was
    obtain rfl : fs' = written := hsidecar
    obtain ⟨hblob, hold⟩ :=
      stat_of_write slash_notMem_metaSuffix two_lt_length_metaSuffix hwritten
    rw [metaPath, hblob, hold, ← metaPath]
    rcases (madeDirs fs path).stat (metaPath path) with e | ⟨⟨⟩ | bytes⟩
    · simp [found, GivesDefault]
    · simp [found, GivesDefault]
    · simp [found, GivesDefault]
  · obtain ⟨json, hjson, hboth⟩ := hsidecar
    obtain ⟨hblob, hnew⟩ :=
      stat_of_write_both slash_notMem_metaSuffix two_lt_length_metaSuffix hwritten hboth
    rw [metaPath, hblob, hnew]
    simp [found, hcodec md rfl json hjson, Except.toOption]

/-- A `put` uses the codec only for the metadata that it is given. -/
lemma put_congr {codec' : MetadataCodec} (h : ∀ md ∈ metadata, codec.toVec md = codec'.toVec md) :
    st.put codec key data metadata = st.put codec' key data metadata := by
  rcases metadata with - | md
  · rfl
  · rw [put, put]
    simp only [Option.forM, h md rfl]

end LocalBlobStore

/-- Metadata with a content type and nothing else. -/
def plainText : Metadata where
  contentType := some "text/plain"
  custom _ := none

/-- A codec that knows these metadata only. -/
def plainCodec : MetadataCodec := ⟨fun _ => .ok [1], fun _ => .ok plainText⟩

end Rust

/-! ### The Go store -/

namespace Go

namespace LocalBlobStore

/-- What stands at the path of a sidecar is no file that decodes to metadata. -/
def GivesNil (codec : MetadataCodec) (sidecar : Except Errno Node) : Prop :=
  ∀ bytes, sidecar = .ok (.file bytes) → (codec.unmarshal bytes).toOption = none

variable {s : LocalBlobStore} {codec : MetadataCodec} {key : String} {path : Path} {fs : Fs}
  {data : List UInt8} {metadata : Option Metadata}

/-- After a `Put` that succeeds, `Get` returns what was put if and only if metadata was given or
what stands at the path of the sidecar gives none. -/
lemma get_put_iff (hpath : s.resolvePath key = .ok path)
    (hput : ((s.put codec none key data metadata).run serve fs).1 = .ok ())
    (hcodec : ∀ md ∈ metadata, ∀ json, codec.marshal md = .ok json →
      codec.unmarshal json = .ok md) :
    ((s.get codec none key).run serve ((s.put codec none key data metadata).run serve fs).2).1 =
        .ok (some (data, metadata)) ↔
      metadata.isSome = true ∨ GivesNil codec ((madeDirs fs path).stat (metaPath path)) := by
  obtain ⟨fs', hrun⟩ :
      ∃ fs', (s.put codec none key data metadata).run serve fs = (.ok (), fs') :=
    ⟨_, Prod.ext hput rfl⟩
  obtain ⟨written, hwritten, hsidecar⟩ := of_put_eq_ok hpath hrun
  rw [hrun, run_get hpath]
  rcases metadata with - | md
  · -- without metadata the sidecar is what it was
    obtain rfl : fs' = written := hsidecar
    obtain ⟨hblob, hold⟩ :=
      stat_of_write slash_notMem_metaSuffix two_lt_length_metaSuffix hwritten
    rw [metaPath, hblob, hold, ← metaPath]
    rcases (madeDirs fs path).stat (metaPath path) with e | ⟨⟨⟩ | bytes⟩
    · simp [found, GivesNil]
    · simp [found, GivesNil]
    · simp [found, GivesNil]
  · obtain ⟨json, hjson, hboth⟩ := hsidecar
    obtain ⟨hblob, hnew⟩ :=
      stat_of_write_both slash_notMem_metaSuffix two_lt_length_metaSuffix hwritten hboth
    rw [metaPath, hblob, hnew]
    simp [found, hcodec md rfl json hjson, Except.toOption]

/-- A `Put` uses the codec only for the metadata that it is given. -/
lemma put_congr {codec' : MetadataCodec}
    (h : ∀ md ∈ metadata, codec.marshal md = codec'.marshal md) :
    s.put codec none key data metadata = s.put codec' none key data metadata := by
  rcases metadata with - | md
  · rfl
  · rw [put, put]
    simp only [Option.forM, h md rfl]

end LocalBlobStore

/-- Metadata with a content type and nothing else. -/
def plainText : Metadata where
  contentType := "text/plain"
  custom := none

/-- A codec that knows these metadata only. -/
def plainCodec : MetadataCodec := ⟨fun _ => .ok [1], fun _ => .ok plainText⟩

end Go

/-! ### Both stores -/

/-- In every tree and in both stores, after a `put` that succeeds `get` returns what was put if and
only if metadata was given or, once the directories of the blob are made, what stands at the path of
its sidecar gives no metadata. -/
theorem read_your_write_iff (key : String) (path : Path) (fs : Fs) (data : List UInt8) :
    (∀ (st : Rust.LocalBlobStore) (codec : Rust.MetadataCodec) (metadata : Option Rust.Metadata),
      st.resolvePath key = .ok path →
      ((st.put codec key data metadata).run Rust.serve fs).1 = .ok () →
      (∀ md ∈ metadata, ∀ json, codec.toVec md = .ok json → codec.fromSlice json = .ok md) →
      (((st.get codec key).run Rust.serve
          ((st.put codec key data metadata).run Rust.serve fs).2).1 =
            .ok (some (data, metadata.getD default)) ↔
        metadata.isSome = true ∨ Rust.LocalBlobStore.GivesDefault codec
          ((Rust.LocalBlobStore.madeDirs fs path).stat (Rust.LocalBlobStore.metaPath path)))) ∧
    (∀ (s : Go.LocalBlobStore) (codec : Go.MetadataCodec) (metadata : Option Go.Metadata),
      s.resolvePath key = .ok path →
      ((s.put codec none key data metadata).run Go.serve fs).1 = .ok () →
      (∀ md ∈ metadata, ∀ json, codec.marshal md = .ok json → codec.unmarshal json = .ok md) →
      (((s.get codec none key).run Go.serve
          ((s.put codec none key data metadata).run Go.serve fs).2).1 =
            .ok (some (data, metadata)) ↔
        metadata.isSome = true ∨ Go.LocalBlobStore.GivesNil codec
          ((Go.LocalBlobStore.madeDirs fs path).stat (Go.LocalBlobStore.metaPath path)))) :=
  ⟨fun _ _ _ hpath hput hcodec => Rust.LocalBlobStore.get_put_iff hpath hput hcodec,
    fun _ _ _ hpath hput hcodec => Go.LocalBlobStore.get_put_iff hpath hput hcodec⟩

/-- In both stores under `data`, a blob `a` that is put without metadata into the empty tree is read
without metadata. -/
theorem read_first_write :
    ((((⟨"data".toList⟩ : Rust.LocalBlobStore).get Rust.plainCodec "a").run Rust.serve
        (((⟨"data".toList⟩ : Rust.LocalBlobStore).put Rust.plainCodec "a" [2] none).run
          Rust.serve Fs.empty).2).1 = .ok (some ([2], default)) ↔
      (none : Option Rust.Metadata).isSome = true ∨ Rust.LocalBlobStore.GivesDefault Rust.plainCodec
        ((Rust.LocalBlobStore.madeDirs Fs.empty "data/a".toList).stat
          (Rust.LocalBlobStore.metaPath "data/a".toList))) ∧
    ((((Go.LocalBlobStore.new "data".toList).get Go.plainCodec none "a").run Go.serve
        (((Go.LocalBlobStore.new "data".toList).put Go.plainCodec none "a" [2] none).run
          Go.serve Fs.empty).2).1 = .ok (some ([2], none)) ↔
      (none : Option Go.Metadata).isSome = true ∨ Go.LocalBlobStore.GivesNil Go.plainCodec
        ((Go.LocalBlobStore.madeDirs Fs.empty "data/a".toList).stat
          (Go.LocalBlobStore.metaPath "data/a".toList))) :=
  ⟨(read_your_write_iff _ _ _ _).1 _ _ _ (by decide) rfl (by simp),
    (read_your_write_iff _ _ _ _).2 _ _ _ (by decide) rfl (by simp)⟩

/-- The tree after the first `put` of `a` as plain text under `data`. -/
def Rust.taggedTree : Fs :=
  ((Rust.LocalBlobStore.put ⟨"data".toList⟩ Rust.plainCodec "a" [1] (some Rust.plainText)).run
    Rust.serve Fs.empty).2

/-- The tree after the first `Put` of `a` as plain text under `data`. -/
def Go.taggedTree : Fs :=
  ((Go.LocalBlobStore.put (.new "data".toList) Go.plainCodec none "a" [1] (some Go.plainText)).run
    Go.serve Fs.empty).2

/-- A codec that decodes what it encodes of some metadata becomes one that decodes whatever it
encodes. -/
lemma Rust.exists_codec (codec : Rust.MetadataCodec) (known : Rust.Metadata → Prop)
    (hcodec : ∀ md, known md → ∀ json, codec.toVec md = .ok json → codec.fromSlice json = .ok md) :
    ∃ codec' : Rust.MetadataCodec,
      (∀ md json, codec'.toVec md = .ok json → codec'.fromSlice json = .ok md) ∧
        (∀ md, known md → codec'.toVec md = codec.toVec md) ∧
          codec'.fromSlice = codec.fromSlice := by
  classical
  refine ⟨⟨fun md => if known md then codec.toVec md else .error "", codec.fromSlice⟩,
    fun md json h => ?_, fun md hmd => if_pos hmd, rfl⟩
  simp only at h
  split_ifs at h with hmd
  exact hcodec md hmd json h

/-- A codec that decodes what it encodes of some metadata becomes one that decodes whatever it
encodes. -/
lemma Go.exists_codec (codec : Go.MetadataCodec) (known : Go.Metadata → Prop)
    (hcodec : ∀ md, known md → ∀ json, codec.marshal md = .ok json →
      codec.unmarshal json = .ok md) :
    ∃ codec' : Go.MetadataCodec,
      (∀ md json, codec'.marshal md = .ok json → codec'.unmarshal json = .ok md) ∧
        (∀ md, known md → codec'.marshal md = codec.marshal md) ∧
          codec'.unmarshal = codec.unmarshal := by
  classical
  refine ⟨⟨fun md => if known md then codec.marshal md else .error "", codec.unmarshal⟩,
    fun md json h => ?_, fun md hmd => if_pos hmd, rfl⟩
  simp only at h
  split_ifs at h with hmd
  exact hcodec md hmd json h

/-- A `put` without metadata leaves the metadata of an earlier one: in both stores under `data`, the
blob `a` is put as plain text, then put without metadata, and then read as plain text. -/
theorem stale_metadata :
    ¬ (∀ (st : Rust.LocalBlobStore) (codec : Rust.MetadataCodec),
      (∀ md json, codec.toVec md = .ok json → codec.fromSlice json = .ok md) →
      ∀ (fs : Fs), Rust.LocalBlobStore.Reached st codec Fs.empty fs →
      ∀ (key : String) (path : Path) (data : List UInt8) (metadata : Option Rust.Metadata),
      st.resolvePath key = .ok path →
      ((st.put codec key data metadata).run Rust.serve fs).1 = .ok () →
      ((st.get codec key).run Rust.serve
          ((st.put codec key data metadata).run Rust.serve fs).2).1 =
        .ok (some (data, metadata.getD default))) ∧
    ¬ (∀ (s : Go.LocalBlobStore) (codec : Go.MetadataCodec),
      (∀ md json, codec.marshal md = .ok json → codec.unmarshal json = .ok md) →
      ∀ (fs : Fs), Go.LocalBlobStore.Reached s codec Fs.empty fs →
      ∀ (key : String) (path : Path) (data : List UInt8) (metadata : Option Go.Metadata),
      s.resolvePath key = .ok path →
      ((s.put codec none key data metadata).run Go.serve fs).1 = .ok () →
      ((s.get codec none key).run Go.serve
          ((s.put codec none key data metadata).run Go.serve fs).2).1 =
        .ok (some (data, metadata))) := by
  constructor
  · intro h
    obtain ⟨codec, hround, hencode, hdecode⟩ :=
      Rust.exists_codec Rust.plainCodec (· = Rust.plainText) fun _ hmd _ _ => hmd ▸ rfl
    have hfirst : Rust.LocalBlobStore.Reached ⟨"data".toList⟩ codec Fs.empty Rust.taggedTree := by
      have hput := Rust.LocalBlobStore.Reached.put "a" [1] (some Rust.plainText)
        (Rust.LocalBlobStore.Reached.start : Rust.LocalBlobStore.Reached ⟨"data".toList⟩ codec
          Fs.empty Fs.empty)
      rw [Rust.LocalBlobStore.put_congr fun md hmd => ?_] at hput
      · exact hput
      · exact hencode md (Option.some.inj hmd).symm
    have hpath : Rust.LocalBlobStore.resolvePath ⟨"data".toList⟩ "a" = .ok "data/a".toList := by
      decide
    have hput : ((Rust.LocalBlobStore.put ⟨"data".toList⟩ codec "a" [2] none).run Rust.serve
        Rust.taggedTree).1 = .ok () := rfl
    have hget := h _ codec hround _ hfirst "a" _ [2] none hpath hput
    rcases (Rust.LocalBlobStore.get_put_iff hpath hput (by simp)).mp hget with hnone | hdefault
    · cases hnone
    · obtain ⟨bytes, hbytes, hdecoded⟩ := hdefault (.file [1]) rfl
      obtain rfl := Node.file.inj hbytes
      rw [hdecode] at hdecoded
      cases congrArg Rust.Metadata.contentType hdecoded
  · intro h
    obtain ⟨codec, hround, hencode, hdecode⟩ :=
      Go.exists_codec Go.plainCodec (· = Go.plainText) fun _ hmd _ _ => hmd ▸ rfl
    have hfirst : Go.LocalBlobStore.Reached (.new "data".toList) codec Fs.empty Go.taggedTree := by
      have hput := Go.LocalBlobStore.Reached.put "a" [1] (some Go.plainText)
        (Go.LocalBlobStore.Reached.start : Go.LocalBlobStore.Reached (.new "data".toList) codec
          Fs.empty Fs.empty)
      rw [Go.LocalBlobStore.put_congr fun md hmd => ?_] at hput
      · exact hput
      · exact hencode md (Option.some.inj hmd).symm
    have hpath : Go.LocalBlobStore.resolvePath (.new "data".toList) "a" = .ok "data/a".toList := by
      decide
    have hput : ((Go.LocalBlobStore.put (.new "data".toList) codec none "a" [2] none).run Go.serve
        Go.taggedTree).1 = .ok () := rfl
    have hget := h _ codec hround _ hfirst "a" _ [2] none hpath hput
    rcases (Go.LocalBlobStore.get_put_iff hpath hput (by simp)).mp hget with hnone | hnil
    · cases hnone
    · have hdecoded := hnil [1] rfl
      rw [hdecode] at hdecoded
      cases hdecoded

end GoyStore
