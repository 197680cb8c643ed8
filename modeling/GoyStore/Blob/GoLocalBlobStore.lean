import GoyStore.Library.CleanPath
import GoyStore.Library.Effects

/-!
# The local blob store of the Go library

`LocalBlobStore` cleans a key as a path under the root, joins it to its base directory and checks
that the result is still below the base.  A blob is a file, and its metadata, if there are any, are
in a second file beside it.

A key is accepted if it has no `..` and a name is left of it; it then resolves to the cleaned base
followed by the names (`resolvePath_eq`).
-/

namespace GoyStore

namespace Go

open UnixPath Effects

/-! ### Calls to the file system -/

/-- A call to the file system. -/
inductive FsCall where
  /-- `os.MkdirAll`. -/
  | mkdirAll (path : Path)
  /-- `os.WriteFile`. -/
  | writeFile (path : Path) (data : List UInt8)
  /-- `os.ReadFile`. -/
  | readFile (path : Path)
  /-- `os.Remove`. -/
  | remove (path : Path)

/-- An error of the file system. -/
structure FsError where
  /-- Its text. -/
  text : String
  /-- `errors.Is(err, os.ErrNotExist)`. -/
  notExist : Bool
  deriving DecidableEq, Repr

/-- The answer to a call. -/
abbrev FsCall.Answer : FsCall → Type
  | .readFile _ => Except FsError (List UInt8)
  | _ => Except FsError Unit

/-- A program over the file system. -/
abbrev FsProg := Prog String FsCall FsCall.Answer

namespace FsProg

/-- Create a directory and its parents, or fail with a wrapped error. -/
def mkdirAll (what : String) (path : Path) : FsProg Unit := .call (.mkdirAll path) fun
  | .ok () => .done ()
  | .error e => .fail (what ++ ": " ++ e.text)

/-- Write a file, or fail with a wrapped error. -/
def writeFile (what : String) (path : Path) (data : List UInt8) : FsProg Unit :=
  .call (.writeFile path data) fun
    | .ok () => .done ()
    | .error e => .fail (what ++ ": " ++ e.text)

end FsProg

/-! ### The store -/

/-- `Metadata`; `none` is the nil map. -/
structure Metadata where
  /-- The field `ContentType`. -/
  contentType : String
  /-- The field `Custom`. -/
  custom : Option (String → Option String)

/-- The JSON coding of the metadata. -/
structure MetadataCodec where
  /-- `json.Marshal`. -/
  marshal : Metadata → Except String (List UInt8)
  /-- `json.Unmarshal` into a new variable. -/
  unmarshal : List UInt8 → Except String Metadata

/-- `HealthState`. -/
inductive HealthState where
  /-- `HealthHealthy`. -/
  | healthy
  /-- `HealthDegraded`. -/
  | degraded
  /-- `HealthUnhealthy`. -/
  | unhealthy
  deriving DecidableEq, Repr

/-- `HealthStatus`. -/
structure HealthStatus where
  /-- The field `Contract`. -/
  contract : String
  /-- The field `Backend`. -/
  backend : String
  /-- The field `State`. -/
  state : HealthState
  /-- The field `Message`. -/
  message : String
  /-- The field `LatencyMS`. -/
  latencyMs : Int
  deriving DecidableEq, Repr

/-- `LocalBlobStore`; `NewLocalBlobStore` replaces an empty base path. -/
structure LocalBlobStore where
  /-- The field `basePath`. -/
  basePath : Path
  /-- It is not empty. -/
  nonempty : basePath ≠ []

/-- The characters of `.meta.json`. -/
def metaSuffix : List Char := ['.', 'm', 'e', 't', 'a', '.', 'j', 's', 'o', 'n']

/-- `strings.TrimPrefix(p, "/")`. -/
def trimSlash : Path → Path
  | '/' :: p => p
  | p => p

namespace LocalBlobStore

/-- `NewLocalBlobStore`. -/
def new (basePath : Path) : LocalBlobStore :=
  if h : basePath = [] then
    ⟨['.', '/', 'd', 'a', 't', 'a', '/', 'b', 'l', 'o', 'b', 's'], by decide⟩
  else ⟨basePath, h⟩

/-- The error of `resolvePath`. -/
def traversal : String := "invalid blob key: directory traversal detected"

/-- The local `cleanKey` of `resolvePath`; on Unix `ToSlash` and `FromSlash` change nothing. -/
def cleanKey (key : String) : Path := trimSlash (clean ('/' :: key.toList))

/-- `LocalBlobStore.resolvePath`. -/
def resolvePath (s : LocalBlobStore) (key : String) : Except String Path :=
  if dots <:+: key.toList then .error traversal
  else if cleanKey key = [] ∨ dots <+: cleanKey key then .error traversal
  else
    let target := joinClean s.basePath (cleanKey key)
    match relative s.basePath target with
    | none => .error traversal
    | some rel => if dots <+: rel then .error traversal else .ok target

/-- `LocalBlobStore.metaPath`. -/
def metaPath (blobPath : Path) : Path := blobPath ++ metaSuffix

/-- The check of the context at the start of an operation; `ctx` is its error once it is done. -/
def checkContext (ctx : Option String) : FsProg Unit :=
  match ctx with
  | some err => .fail err
  | none => .done ()

/-- `LocalBlobStore.Put`. -/
def put (s : LocalBlobStore) (codec : MetadataCodec) (ctx : Option String) (key : String)
    (data : List UInt8) (metadata : Option Metadata) : FsProg Unit := do
  checkContext ctx
  let targetPath ← Prog.ofExcept (s.resolvePath key)
  FsProg.mkdirAll "failed to create directories for blob" (dir targetPath)
  FsProg.writeFile "failed to write blob file" targetPath data
  metadata.forM fun md => do
    let metaJSON ← Prog.ofExcept
      ((codec.marshal md).mapError ("failed to marshal blob metadata: " ++ ·))
    FsProg.writeFile "failed to write blob metadata" (metaPath targetPath) metaJSON

/-- The metadata that `LocalBlobStore.Get` returns: those of the sidecar, if it can be read and
decoded. -/
def getMetadata (codec : MetadataCodec) (targetPath : Path) : FsProg (Option Metadata) :=
  .call (.readFile (metaPath targetPath)) fun
    | .ok metaData => .done (codec.unmarshal metaData).toOption
    | .error _ => .done none

/-- `LocalBlobStore.Get`. -/
def get (s : LocalBlobStore) (codec : MetadataCodec) (ctx : Option String) (key : String) :
    FsProg (Option (List UInt8 × Option Metadata)) := do
  checkContext ctx
  let targetPath ← Prog.ofExcept (s.resolvePath key)
  .call (.readFile targetPath) fun
    | .ok data => getMetadata codec targetPath >>= fun metadata => .done (some (data, metadata))
    | .error e => if e.notExist then .done none else .fail ("failed to read blob: " ++ e.text)

/-- `LocalBlobStore.Delete`. -/
def delete (s : LocalBlobStore) (ctx : Option String) (key : String) : FsProg Unit := do
  checkContext ctx
  let targetPath ← Prog.ofExcept (s.resolvePath key)
  (.call (.remove targetPath) fun
    | .ok () => .done ()
    | .error e =>
      if e.notExist then .done () else .fail ("failed to delete blob: " ++ e.text) : FsProg Unit)
  .call (.remove (metaPath targetPath)) fun _ => .done ()

/-- The file that `LocalBlobStore.IsHealthy` writes. -/
def probeFile (s : LocalBlobStore) : Path := joinClean s.basePath ".health_check_probe".toList

/-- The bytes of `"ok"`. -/
def probeData : List UInt8 := [111, 107]

/-- `LocalBlobStore.IsHealthy`; `latency` is the time that it took, in milliseconds. -/
def isHealthy (s : LocalBlobStore) (latency : Int) : FsProg HealthStatus :=
  .call (.mkdirAll s.basePath) fun
    | .error e =>
      .done ⟨"blob", "local", .unhealthy, "cannot create base dir: " ++ e.text, latency⟩
    | .ok () => .call (.writeFile s.probeFile probeData) fun
      | .error e =>
        .done ⟨"blob", "local", .unhealthy, "cannot write to base dir: " ++ e.text, latency⟩
      | .ok () => .call (.remove s.probeFile) fun _ =>
        .done ⟨"blob", "local", .healthy, "", latency⟩

/-! ### The paths of keys -/

/-- The cleaned key is made of the names of the key. -/
lemma cleanKey_eq {key : String} (h : dots ∉ pieces key.toList) :
    cleanKey key = ['/'].intercalate (names key.toList) := by
  have habs : isAbsolute ('/' :: key.toList) = true := rfl
  rw [cleanKey, clean, cleanParts_slash h, habs]
  rfl

/-- A prefix of names that are parts of a text is a part of the text. -/
lemma dots_infix_of_start {key : String} (hne : names key.toList ≠ [])
    (h : dots <+: ['/'].intercalate (names key.toList)) : dots <:+: key.toList := by
  cases hnames : names key.toList with
  | nil => exact absurd hnames hne
  | cons q qs =>
    rw [hnames] at h
    have hq : q ∈ names key.toList := by
      rw [hnames]
      exact List.mem_cons_self
    have hprefix := prefix_of_prefix_intercalate (by decide) h
    exact hprefix.isInfix.trans (infix_of_mem_pieces (List.mem_of_mem_filter hq))

/-- A key is accepted if it has no `..` and a name is left of it, and resolves to the cleaned base
followed by its names. -/
theorem resolvePath_eq (s : LocalBlobStore) (key : String) :
    s.resolvePath key =
      if dots <:+: key.toList ∨ names key.toList = [] then .error traversal
      else .ok (render (isAbsolute s.basePath) (cleanParts s.basePath ++ names key.toList)) := by
  by_cases hdots : dots <:+: key.toList
  · rw [resolvePath, if_pos hdots, if_pos (Or.inl hdots)]
  have hpieces : dots ∉ pieces key.toList := fun h => hdots (infix_of_mem_pieces h)
  by_cases hnil : names key.toList = []
  · have hempty : cleanKey key = [] := by
      rw [cleanKey_eq hpieces, hnil]
      rfl
    rw [resolvePath, if_neg hdots, if_pos (Or.inl hempty), if_pos (Or.inr hnil)]
  · have hnames := fun q (hq : q ∈ names key.toList) => isName_of_mem_names hpieces hq
    have hclean : ¬ (cleanKey key = [] ∨ dots <+: cleanKey key) := by
      rw [cleanKey_eq hpieces]
      rintro (hempty | hprefix)
      · have hone := pieces_intercalate hnil fun q hq => (hnames q hq).2
        rw [hempty] at hone
        have hmem : ([] : List Char) ∈ names key.toList := by
          rw [← hone]
          exact List.mem_singleton_self _
        exact (hnames [] hmem).1.1 rfl
      · exact hdots (dots_infix_of_start hnil hprefix)
    have hrel : ¬ dots <+: ['/'].intercalate (names key.toList) :=
      fun hprefix => hdots (dots_infix_of_start hnil hprefix)
    rw [resolvePath, if_neg hdots, if_neg hclean, cleanKey_eq hpieces,
      joinClean_names s.nonempty hnil hnames]
    simp only [relative_render hnil hnames, if_neg hrel]
    rw [if_neg (not_or.mpr ⟨hdots, hnil⟩)]

/-- The path of an accepted key, and what makes it accepted. -/
lemma resolvePath_eq_ok_iff {s : LocalBlobStore} {key : String} {path : Path} :
    s.resolvePath key = .ok path ↔ ¬ dots <:+: key.toList ∧ names key.toList ≠ [] ∧
      path = render (isAbsolute s.basePath) (cleanParts s.basePath ++ names key.toList) := by
  rw [resolvePath_eq]
  split_ifs with hrejected
  · refine iff_of_false (fun h => ?_) fun h => hrejected.elim h.1 h.2.1
    cases h
  · obtain ⟨hdots, hne⟩ := not_or.mp hrejected
    exact ⟨fun h => ⟨hdots, hne, (Except.ok.inj h).symm⟩, fun h => h.2.2 ▸ rfl⟩

/-- A key is accepted if and only if it has no `..` and some piece of it is neither empty nor `.`.
It resolves to the cleaned base followed by exactly these pieces, strictly below the base, and two
accepted keys resolve to one path if and only if these pieces are the same. -/
theorem resolvePath_exact (s : LocalBlobStore) (key : String) :
    ((∃ path, s.resolvePath key = .ok path) ↔
      ¬ dots <:+: key.toList ∧ ∃ q ∈ pieces key.toList, q ≠ [] ∧ q ≠ ['.']) ∧
    (∀ path, s.resolvePath key = .ok path →
      path = render (isAbsolute s.basePath) (cleanParts s.basePath ++ names key.toList) ∧
        StrictlyBelow s.basePath path) ∧
    ∀ key' path path', s.resolvePath key = .ok path → s.resolvePath key' = .ok path' →
      (path = path' ↔ names key.toList = names key'.toList) := by
  -- without `..` in the key, its names are no `..` either
  have hnames : ∀ {key : String}, ¬ dots <:+: key.toList →
      ∀ q ∈ names key.toList, IsName q ∧ '/' ∉ q :=
    fun hdots q hq => isName_of_mem_names (fun h => hdots (infix_of_mem_pieces h)) hq
  refine ⟨?_, fun path hpath => ?_, fun key' path path' hpath hpath' => ?_⟩
  · have hsome : names key.toList ≠ [] ↔ ∃ q ∈ pieces key.toList, q ≠ [] ∧ q ≠ ['.'] := by
      rw [names, ne_eq, List.filter_eq_nil_iff]
      push Not
      simp only [decide_eq_true_eq]
    simp only [resolvePath_eq_ok_iff, exists_and_left, exists_eq, and_true, hsome]
  · obtain ⟨hdots, hne, heq⟩ := resolvePath_eq_ok_iff.mp hpath
    exact ⟨heq, heq ▸ strictlyBelow_render hne (hnames hdots)⟩
  · obtain ⟨hdots, -, rfl⟩ := resolvePath_eq_ok_iff.mp hpath
    obtain ⟨hdots', -, rfl⟩ := resolvePath_eq_ok_iff.mp hpath'
    exact render_append_inj (hnames hdots) (hnames hdots')

/-- Under `data`, the keys `a//b` and `./a/b/` resolve to `data/a/b`. -/
theorem resolvePath_exact_data :
    StrictlyBelow "data".toList "data/a/b".toList ∧
      names "a//b".toList = names "./a/b/".toList := by
  have hfirst : (new "data".toList).resolvePath "a//b" = .ok "data/a/b".toList := by decide
  have hsecond : (new "data".toList).resolvePath "./a/b/" = .ok "data/a/b".toList := by decide
  obtain ⟨-, hpath, hsame⟩ := resolvePath_exact (new "data".toList) "a//b"
  exact ⟨(hpath _ hfirst).2, (hsame "./a/b/" _ _ hfirst hsecond).mp rfl⟩

end LocalBlobStore

end Go

end GoyStore
