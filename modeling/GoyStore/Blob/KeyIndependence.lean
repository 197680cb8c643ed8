import GoyStore.Blob.ReadYourWrite
import GoyStore.Library.CleanedPlaces

/-!
# Independence of keys

A key is mapped to two paths, that of the blob and that of its sidecar, and different keys can share
a place: `a` and `/a` are one blob, and the blob `a.meta.json` is the sidecar of `a`.  A blob can
also stand where another one needs a directory.

Two keys are independent when neither the blob nor the sidecar of one stands at or above a file of
the other (`independent_keys`).
-/

namespace GoyStore

open FileTree UnixPath Effects

/-- The path ends in a name. -/
def EndsWithName (p : Path) : Prop := ∃ name, IsName name ∧ pieces p = (pieces p).dropLast ++ [name]

/-- A path that was written ends in a name. -/
lemma endsWithName_of_write {fs fs' : Fs} {p : Path} {data : List UInt8}
    (h : fs.write p data = (.ok (), fs')) : EndsWithName p := by
  obtain ⟨l, name, hentry, -⟩ := Fs.of_write_eq_ok h
  obtain ⟨-, -, -, hname, hpieces, -⟩ := Fs.of_entry_eq_ok hentry
  exact ⟨name, hname, hpieces⟩

/-- Two results that give the same value, if any, are equal or both errors. -/
lemma eq_or_error_of_toOption_eq {ε α : Type} {a b : Except ε α} (h : a.toOption = b.toOption) :
    a = b ∨ (∃ e, a = .error e) ∧ ∃ e, b = .error e := by
  rcases a with e | x
  · rcases b with e' | y
    · exact Or.inr ⟨⟨e, rfl⟩, e', rfl⟩
    · cases h
  · rcases b with e' | y
    · cases h
    · exact Or.inl (congrArg Except.ok (Option.some.inj h))

/-! ### The Rust store -/

namespace Rust

/-- The pieces that stand for the components of some pieces are those that do not stay. -/
lemma map_componentPiece (qs : List (List Char)) :
    (qs.filterMap pieceComponent).map componentPiece = qs.filter fun q => q ≠ [] ∧ q ≠ ['.'] := by
  induction qs with
  | nil => rfl
  | cons q qs ih =>
    rcases pieceComponent_cases q with ⟨hskip, hnone⟩ | ⟨rfl, hdots⟩ | hname
    · rw [List.filterMap_cons_none hnone, ih, List.filter_cons_of_neg (by simp; tauto)]
    · rw [List.filterMap_cons_some hdots, List.map_cons, ih, List.filter_cons_of_pos (by decide)]
      rfl
    · have hkept : q ≠ [] ∧ q ≠ ['.'] := by
        constructor
        all_goals
          rintro rfl
          cases hname
      rw [List.filterMap_cons_some hname, List.map_cons, ih,
        List.filter_cons_of_pos (by simpa using hkept)]
      rfl

/-- No piece stands for the root. -/
lemma rootDir_notMem_filterMap (qs : List (List Char)) :
    Component.rootDir ∉ qs.filterMap pieceComponent := by
  intro hmem
  obtain ⟨q, -, hq⟩ := List.mem_filterMap.mp hmem
  rcases pieceComponent_cases q with ⟨-, hnone⟩ | ⟨-, hdots⟩ | hname
  · rw [hnone] at hq
    cases hq
  · rw [hdots] at hq
    cases hq
  · rw [hname] at hq
    cases hq

/-- Components without a root start where the path does. -/
lemma origin_leading (fs : Fs) (path : Path) {rest : List Component}
    (hrest : Component.rootDir ∉ rest) : origin fs (leading path ++ rest) = fs.start path := by
  rw [origin, Fs.start, leading]
  by_cases habs : isAbsolute path = true
  · simp [habs]
  · rw [if_neg habs, if_neg habs, if_neg]
    intro hhead
    have hmem := List.mem_of_head? hhead
    rcases List.mem_append.mp hmem with hleading | hrestMem
    · split_ifs at hleading
      · cases List.mem_singleton.mp hleading
      · cases hleading
    · exact hrest hrestMem

/-- What a path starts with before its pieces stays. -/
lemma filter_leading (path : Path) :
    ((leading path).map componentPiece).filter (fun q => q ≠ [] ∧ q ≠ ['.']) = [] := by
  rw [leading]
  split_ifs
  · decide
  · decide
  · rfl

namespace LocalBlobStore

variable {st : LocalBlobStore} {codec : MetadataCodec} {key : String} {path : Path} {fs fs' : Fs}
  {data : List UInt8} {metadata : Option Metadata}

/-- The directories of a blob are made along the pieces of its path before the last. -/
lemma madeDirs_eq (hname : EndsWithName path) :
    madeDirs fs path = (fs.makeDirs (fs.start path) (pieces path).dropLast).2 := by
  obtain ⟨name, hname, hpieces⟩ := hname
  have hlast := pieceComponent_of_isName hname
  have hcomponents : components path =
      leading path ++ (pieces path).dropLast.filterMap pieceComponent ++ [.normal name] := by
    rw [components]
    conv_lhs => rw [hpieces]
    rw [List.filterMap_append, List.append_assoc]
    simp [hlast]
  have hparent : parent path =
      some (leading path ++ (pieces path).dropLast.filterMap pieceComponent) := by
    rw [parent, hcomponents, List.getLast?_concat]
    simp
  have horigin := origin_leading fs path (rootDir_notMem_filterMap (pieces path).dropLast)
  rw [madeDirs, hparent]
  simp only [serve, horigin]
  rw [← Fs.makeDirs_filter, List.map_append, List.filter_append, filter_leading, map_componentPiece,
    List.nil_append, List.filter_filter, ← Fs.makeDirs_filter fs _ (pieces path).dropLast]
  simp only [Bool.and_self]

/-- A base directory that paths can be joined to: no `..` of it comes after a name, or it leads to a
directory. -/
def Settled (fs : Fs) (base : Path) : Prop :=
  dots ∉ (pieces base).dropWhile (fun q => ¬ IsName q) ∨ fs.stat base = .ok .dir

/-- A path without `..` is anchored when it is joined to a settled base. -/
lemma anchored_join {base p : Path} (hbase : Settled fs base) (hp : dots ∉ pieces p) :
    ∃ qs rs l, rs ≠ [] ∧ Fs.Anchored fs (join base p) qs rs l := by
  by_cases habs : isAbsolute p = true
  · rw [join, if_pos habs]
    exact ⟨[], pieces p, fs.start p, pieces_ne_nil p, rfl, hp, rfl, fs.node_start p⟩
  by_cases hnil : base = []
  · rw [hnil, join, if_neg habs]
    exact ⟨[], pieces p, fs.start p, pieces_ne_nil p, rfl, hp, rfl, fs.node_start p⟩
  rcases hbase with hplain | hdir
  · -- the way goes up first, and then only down
    obtain ⟨front, hpieces, hfront⟩ := exists_pieces_join hnil habs
    have hdown : dots ∉ front.dropWhile fun q => ¬ IsName q := by
      rcases hfront with hsame | hslash
      · rwa [← hsame]
      · rw [hslash, List.dropWhile_append] at hplain
        split_ifs at hplain with hempty
        · rw [List.isEmpty_iff.mp hempty]
          simp
        · exact fun h => hplain (List.mem_append_left _ h)
    have hup : ∀ q ∈ front.takeWhile (fun q => ¬ IsName q), ¬ IsName q := by
      intro q hq
      simpa using List.all_eq_true.mp List.all_takeWhile q hq
    obtain ⟨hwalk, hnode⟩ := Fs.walk_of_no_names hup (fs.node_start (join base p))
    refine ⟨_, front.dropWhile (fun q => ¬ IsName q) ++ pieces p, _, ?_, ?_, ?_,
      hwalk, hnode⟩
    · exact fun h => pieces_ne_nil p (List.append_eq_nil_iff.mp h).2
    · rw [hpieces, ← List.append_assoc, List.takeWhile_append_dropWhile]
    · exact fun h => (List.mem_append.mp h).elim hdown hp
  · obtain ⟨qs, hsplit, hwalk, hnode⟩ := Fs.exists_walk_join hdir habs
    exact ⟨qs, pieces p, _, pieces_ne_nil p, hsplit, hp, hwalk, hnode⟩

/-- The path of an accepted key is anchored under a settled base. -/
lemma anchored_of_resolvePath (hbase : Settled fs st.basePath)
    (hpath : st.resolvePath key = .ok path) :
    ∃ qs rs l, rs ≠ [] ∧ Fs.Anchored fs path qs rs l := by
  rcases resolvePath_eq st key with ⟨-, herror⟩ | ⟨hdots, -, hok⟩
  · rw [herror] at hpath
    cases hpath
  · rw [hok] at hpath
    obtain rfl := Except.ok.inj hpath
    exact anchored_join hbase hdots

/-- The places of a blob and of its sidecar. -/
def places (fs : Fs) (path : Path) : List Place := [fs.placeOf path, fs.placeOf (metaPath path)]

/-- A `put` that succeeds makes a difference only at the places of the blob and of its sidecar, and
by directories above them, and leaves the directories as they are. -/
lemma onlyAt_put (hbase : Settled fs st.basePath) (hpath : st.resolvePath key = .ok path)
    (h : (st.put codec key data metadata).run serve fs = (.ok (), fs')) :
    Fs.OnlyAt fs fs' (fs.placeOf path) (places fs path) ∧
      ∀ x, fs.node x = some .dir → fs'.node x = some .dir := by
  obtain ⟨written, hwritten, hsidecar⟩ := of_put_eq_ok hpath h
  obtain ⟨qs, rs, l, hrs, hanchored⟩ := anchored_of_resolvePath hbase hpath
  have hname := endsWithName_of_write hwritten
  have hmade : Fs.OnlyAt fs (madeDirs fs path) (fs.placeOf path) (places fs path) := by
    rw [madeDirs_eq hname]
    exact (hanchored.onlyAt_parents hrs hname).mono (List.dropLast_prefix _)
  have hmadeDirs : ∀ x, fs.node x = some .dir → (madeDirs fs path).node x = some .dir := by
    intro x hx
    rw [madeDirs_eq hname]
    exact Fs.node_makeDirs hx
  have hblob := hmade.write List.mem_cons_self hwritten
  have hblobDirs : ∀ x, fs.node x = some .dir → written.node x = some .dir :=
    fun x hx => Fs.dir_of_write hwritten (hmadeDirs x hx)
  rcases metadata with - | md
  · obtain rfl : fs' = written := hsidecar
    exact ⟨hblob, hblobDirs⟩
  · obtain ⟨json, -, hmeta⟩ := hsidecar
    exact ⟨hblob.write (List.mem_cons_of_mem _ List.mem_cons_self) hmeta,
      fun x hx => Fs.dir_of_write hmeta (hblobDirs x hx)⟩

/-- The removal of a file that is there makes a difference only at its place. -/
lemma onlyAt_removeIfExists (top : Place) {ls : List Place} (hplace : fs.placeOf path ∈ ls) :
    ∃ fs₁, (FsProg.removeIfExists path).run serve fs = (.ok (), fs₁) ∧ Fs.OnlyAt fs fs₁ top ls ∧
      ∀ x, fs.node x = some .dir → fs₁.node x = some .dir := by
  rw [FsProg.removeIfExists, Prog.run_perform_bind (serve_pathExists path fs)]
  rcases (fs.stat path).isOk with - | -
  · exact ⟨fs, rfl, .refl fs top ls, fun _ hx => hx⟩
  · exact ⟨(fs.unlink path).2, rfl, Fs.onlyAt_unlink top hplace, fun _ hx => Fs.dir_of_unlink hx⟩

/-- A `delete` makes a difference only at the places of the blob and of its sidecar, and leaves the
directories as they are. -/
lemma onlyAt_delete (hpath : st.resolvePath key = .ok path)
    (h : (st.delete key).run serve fs = (.ok (), fs')) :
    Fs.OnlyAt fs fs' (fs.placeOf path) (places fs path) ∧
      ∀ x, fs.node x = some .dir → fs'.node x = some .dir := by
  rw [delete, hpath, Prog.run_bind_of_ok (Prog.run_ofExcept _)] at h
  obtain ⟨fs₁, hblob, hfirst, hdirs⟩ := onlyAt_removeIfExists (fs.placeOf path)
    (List.mem_cons_self : fs.placeOf path ∈ places fs path)
  rw [Prog.run_bind_of_ok hblob] at h
  have hplace : fs₁.placeOf (metaPath path) ∈ places fs path := by
    rw [Fs.placeOf_congr hfirst.cwd]
    exact List.mem_cons_of_mem _ List.mem_cons_self
  obtain ⟨fs₂, hsidecar, hsecond, hdirs'⟩ := onlyAt_removeIfExists (fs.placeOf path) hplace
  obtain rfl : fs₂ = fs' := (Prod.mk.inj (hsidecar.symm.trans h)).2
  exact ⟨hfirst.trans hsecond, fun x hx => hdirs' x (hdirs x hx)⟩

/-- What `get` returns depends only on the entries that the two paths lead to. -/
lemma found_congr {blob blob' sidecar sidecar' : Except Errno Node}
    (hblob : blob'.toOption = blob.toOption) (hsidecar : sidecar'.toOption = sidecar.toOption) :
    found codec blob' sidecar' = found codec blob sidecar := by
  rcases eq_or_error_of_toOption_eq hblob with rfl | ⟨⟨e', rfl⟩, e, rfl⟩
  · rcases eq_or_error_of_toOption_eq hsidecar with rfl | ⟨⟨e', rfl⟩, e, rfl⟩
    · rfl
    · rcases blob' with e | ⟨⟨⟩ | data⟩
      · rfl
      · rfl
      · rfl
  · rfl

/-- Two paths are apart: neither the blob nor the sidecar of the second stands at or above a file of
the first. -/
def Apart (fs : Fs) (path₁ path₂ : Path) : Prop :=
  ∀ a ∈ places fs path₁, ∀ b ∈ places fs path₂, ¬ b <+: a

/-- A difference at the places of a blob and by directories above it leaves what `get` returns for a
path that is apart from it. -/
lemma get_of_onlyAt {key₂ : String} {path₁ path₂ : Path} (hbase : Settled fs st.basePath)
    (hpath₂ : st.resolvePath key₂ = .ok path₂)
    (hapart : Apart fs path₁ path₂)
    (honly : Fs.OnlyAt fs fs' (fs.placeOf path₁) (places fs path₁))
    (hdirs : ∀ x, fs.node x = some .dir → fs'.node x = some .dir) :
    ((st.get codec key₂).run serve fs').1 = ((st.get codec key₂).run serve fs).1 := by
  obtain ⟨qs, rs, l, hrs, hblob⟩ := anchored_of_resolvePath hbase hpath₂
  have hsidecar := hblob.append hrs slash_notMem_metaSuffix two_lt_length_metaSuffix
  have hnode : ∀ b ∈ places fs path₂, fs'.node b = fs.node b := by
    intro b hb
    refine honly.node_eq (fun hmem => ?_) fun htop => ?_
    · exact hapart b hmem b hb List.prefix_rfl
    · exact hapart _ List.mem_cons_self b hb htop
  rw [run_get hpath₂, run_get hpath₂]
  refine found_congr ?_ ?_
  · exact hblob.stat_toOption (hblob.of_dirs hdirs honly.cwd) (hnode _ List.mem_cons_self)
  · exact hsidecar.stat_toOption (hsidecar.of_dirs hdirs honly.cwd)
      (hnode _ (List.mem_cons_of_mem _ List.mem_cons_self))

end LocalBlobStore

end Rust

/-! ### The Go store -/

namespace Go

namespace LocalBlobStore

variable {s : LocalBlobStore} {codec : MetadataCodec} {key : String} {path : Path} {fs fs' : Fs}
  {data : List UInt8} {metadata : Option Metadata}

/-- The path of an accepted key: the cleaned base, and after it the names of the key. -/
lemma of_resolvePath_eq_ok (hpath : s.resolvePath key = .ok path) :
    path = render (isAbsolute s.basePath) (cleanParts s.basePath ++ names key.toList) ∧
      names key.toList ≠ [] ∧ ∀ q ∈ names key.toList, IsName q ∧ '/' ∉ q := by
  rw [resolvePath_eq] at hpath
  split_ifs at hpath with hrejected
  push Not at hrejected
  have hpieces : dots ∉ pieces key.toList := fun h => hrejected.1 (infix_of_mem_pieces h)
  exact ⟨(Except.ok.inj hpath).symm, hrejected.2, fun q hq => isName_of_mem_names hpieces hq⟩

/-- The path of an accepted key ends in a name. -/
lemma exists_render (hpath : s.resolvePath key = .ok path) :
    ∃ ns name, path = render (isAbsolute s.basePath) (cleanParts s.basePath ++ ns ++ [name]) ∧
      (∀ q ∈ ns, IsName q ∧ '/' ∉ q) ∧ IsName name ∧ '/' ∉ name := by
  obtain ⟨rfl, hne, hnames⟩ := of_resolvePath_eq_ok hpath
  obtain ⟨ns, name, hsplit⟩ := (List.eq_nil_or_concat' _).resolve_left hne
  rw [hsplit] at hnames
  obtain ⟨hname, hslash⟩ := hnames name (by simp)
  refine ⟨ns, name, ?_, fun q hq => hnames q (List.mem_append_left _ hq), hname, hslash⟩
  rw [List.append_assoc, ← hsplit]

/-- The path of an accepted key goes up first, and then down along names only. -/
lemma anchored_of_resolvePath (hpath : s.resolvePath key = .ok path) :
    ∃ qs rs, rs ≠ [] ∧ ∀ fs : Fs,
      Fs.Anchored fs path qs rs (Fs.place (fs.start path) qs) := by
  obtain ⟨rfl, hne, hnames⟩ := of_resolvePath_eq_ok hpath
  exact Fs.anchored_render _ hne hnames

/-- The directories of a blob are made along the pieces of its path before the last. -/
lemma madeDirs_eq (hpath : s.resolvePath key = .ok path) :
    madeDirs fs path = (fs.makeDirs (fs.start path) (pieces path).dropLast).2 := by
  obtain ⟨ns, name, rfl, hns, hname, hslash⟩ := exists_render hpath
  have hfront := (normal_cleanParts s.basePath).append hns
  have hnormal : Normal (isAbsolute s.basePath) (cleanParts s.basePath ++ ns ++ [name]) := by
    apply hfront.append
    intro q hq
    obtain rfl := List.mem_singleton.mp hq
    exact ⟨hname, hslash⟩
  have hstart : fs.start (render (isAbsolute s.basePath) (cleanParts s.basePath ++ ns)) =
      fs.start (render (isAbsolute s.basePath) (cleanParts s.basePath ++ ns ++ [name])) := by
    rw [Fs.start, Fs.start, isAbsolute_render hfront, isAbsolute_render hnormal]
  have hinit : ((pieces (render (isAbsolute s.basePath)
      (cleanParts s.basePath ++ ns ++ [name]))).dropLast).filter (fun q => q ≠ [] ∧ q ≠ ['.']) =
      cleanParts s.basePath ++ ns := by
    rw [pieces_render hnormal (by simp), ← List.append_assoc, List.dropLast_concat,
      List.filter_append, hfront.filter_eq]
    split_ifs
    · rfl
    · rfl
  rw [madeDirs, dir_render hfront hslash]
  simp only [serve]
  rw [hstart, ← Fs.makeDirs_filter, filter_pieces_render hfront,
    ← Fs.makeDirs_filter fs _ (pieces _).dropLast, hinit]

/-- The places of a blob and of its sidecar. -/
def places (fs : Fs) (path : Path) : List Place := [fs.placeOf path, fs.placeOf (metaPath path)]

/-- A `Put` that succeeds makes a difference only at the places of the blob and of its sidecar, and
by directories above them. -/
lemma onlyAt_put (hpath : s.resolvePath key = .ok path)
    (h : (s.put codec none key data metadata).run serve fs = (.ok (), fs')) :
    Fs.OnlyAt fs fs' (fs.placeOf path) (places fs path) := by
  obtain ⟨written, hwritten, hsidecar⟩ := of_put_eq_ok hpath h
  obtain ⟨qs, rs, hrs, hanchored⟩ := anchored_of_resolvePath hpath
  have hmade : Fs.OnlyAt fs (madeDirs fs path) (fs.placeOf path) (places fs path) := by
    rw [madeDirs_eq hpath]
    exact ((hanchored fs).onlyAt_parents hrs (endsWithName_of_write hwritten)).mono
      (List.dropLast_prefix _)
  have hblob := hmade.write List.mem_cons_self hwritten
  rcases metadata with - | md
  · obtain rfl : fs' = written := hsidecar
    exact hblob
  · obtain ⟨json, -, hmeta⟩ := hsidecar
    exact hblob.write (List.mem_cons_of_mem _ List.mem_cons_self) hmeta

/-- `os.Remove` makes a difference only at its place. -/
lemma onlyAt_remove (top : Place) {ls : List Place} (hplace : fs.placeOf path ∈ ls) :
    Fs.OnlyAt fs (remove fs path).2 top ls := by
  have hunlink := Fs.onlyAt_unlink top hplace
  have hrmdir := Fs.onlyAt_rmdir top hplace
  rw [remove]
  rcases hfile : fs.unlink path with ⟨e | _, fs₁⟩
  · rcases hdir : fs.rmdir path with ⟨e' | _, fs₂⟩
    · exact .refl fs top ls
    · rwa [hdir] at hrmdir
  · rwa [hfile] at hunlink

/-- A `Delete` that succeeds makes a difference only at the places of the blob and of its
sidecar. -/
lemma onlyAt_delete (hpath : s.resolvePath key = .ok path)
    (h : (s.delete none key).run serve fs = (.ok (), fs')) :
    Fs.OnlyAt fs fs' (fs.placeOf path) (places fs path) := by
  have hserve : ∀ path fs, serve (.remove path) fs = ((remove fs path).1, (remove fs path).2) :=
    fun _ _ => rfl
  have hfirst := onlyAt_remove (fs.placeOf path)
    (List.mem_cons_self : fs.placeOf path ∈ places fs path)
  have hplace : (remove fs path).2.placeOf (metaPath path) ∈ places fs path := by
    rw [Fs.placeOf_congr hfirst.cwd]
    exact List.mem_cons_of_mem _ List.mem_cons_self
  have hsecond := onlyAt_remove (fs.placeOf path) hplace
  rw [delete, Prog.run_bind_of_ok (r := ()) rfl, hpath,
    Prog.run_bind_of_ok (Prog.run_ofExcept _)] at h
  obtain ⟨_, fs₁, hblob, hsidecar⟩ := Prog.of_run_bind_eq_ok h
  obtain rfl : fs₁ = (remove fs path).2 := by
    rw [Prog.run_call (hserve path fs)] at hblob
    rcases hanswer : (remove fs path).1 with e | _
    · simp only [hanswer] at hblob
      split_ifs at hblob
      · exact (Prod.mk.inj hblob).2.symm
      · cases hblob
    · simp only [hanswer] at hblob
      exact (Prod.mk.inj hblob).2.symm
  rw [Prog.run_call (hserve (metaPath path) _)] at hsidecar
  obtain rfl : (remove (remove fs path).2 (metaPath path)).2 = fs' := (Prod.mk.inj hsidecar).2
  exact hfirst.trans hsecond

/-- Two paths are apart: neither the blob nor the sidecar of one stands at or above a file of the
other. -/
def Apart (fs : Fs) (path₁ path₂ : Path) : Prop :=
  ∀ a ∈ places fs path₁, ∀ b ∈ places fs path₂, ¬ b <+: a ∧ ¬ a <+: b

/-- A difference at the places of a blob and by directories above it leaves what `Get` returns for a
path that is apart from it. -/
lemma get_of_onlyAt {key₂ : String} {path₁ path₂ : Path} (hpath₂ : s.resolvePath key₂ = .ok path₂)
    (hapart : Apart fs path₁ path₂)
    (honly : Fs.OnlyAt fs fs' (fs.placeOf path₁) (places fs path₁)) :
    ((s.get codec none key₂).run serve fs').1 = ((s.get codec none key₂).run serve fs).1 := by
  obtain ⟨qs, rs, hrs, hanchored⟩ := anchored_of_resolvePath hpath₂
  have hblob := hanchored fs
  have hblob' := hanchored fs'
  rw [Fs.start_congr honly.cwd] at hblob'
  have hsidecar := hblob.append hrs slash_notMem_metaSuffix two_lt_length_metaSuffix
  have hsidecar' := hblob'.append hrs slash_notMem_metaSuffix two_lt_length_metaSuffix
  have hnode : ∀ b ∈ places fs path₂, fs'.node b = fs.node b := by
    intro b hb
    refine honly.node_eq (fun hmem => ?_) fun htop => ?_
    · exact (hapart b hmem b hb).1 List.prefix_rfl
    · exact (hapart _ List.mem_cons_self b hb).1 htop
  have hfiles : ∀ b ∈ places fs path₂, ∀ x, x <+: b →
      ((∃ data, fs'.node x = some (.file data)) ↔ ∃ data, fs.node x = some (.file data)) :=
    fun b hb x hx => honly.file_iff fun hmem => (hapart x hmem b hb).2 hx
  have hmem : fs.placeOf (metaPath path₂) ∈ places fs path₂ :=
    List.mem_cons_of_mem _ List.mem_cons_self
  rw [run_get hpath₂, run_get hpath₂,
    hblob.stat_eq hblob' (hnode _ List.mem_cons_self) (hfiles _ List.mem_cons_self),
    metaPath, hsidecar.stat_eq hsidecar' (hnode _ hmem) (hfiles _ hmem)]

end LocalBlobStore

end Go

/-! ### Both stores -/

/-- In both stores, and in every tree, a `put` or `delete` that succeeds does not change what `get`
returns for a key whose path is apart from that of the first; in the Rust store, if the base path is
settled. -/
theorem independent_keys :
    (∀ (st : Rust.LocalBlobStore) (codec : Rust.MetadataCodec) (fs fs' : Fs) (key₁ key₂ : String)
      (path₁ path₂ : Path), Rust.LocalBlobStore.Settled fs st.basePath →
      st.resolvePath key₁ = .ok path₁ → st.resolvePath key₂ = .ok path₂ →
      Rust.LocalBlobStore.Apart fs path₁ path₂ →
      (∃ data metadata, (st.put codec key₁ data metadata).run Rust.serve fs = (.ok (), fs')) ∨
        (st.delete key₁).run Rust.serve fs = (.ok (), fs') →
      ((st.get codec key₂).run Rust.serve fs').1 = ((st.get codec key₂).run Rust.serve fs).1) ∧
    (∀ (s : Go.LocalBlobStore) (codec : Go.MetadataCodec) (fs fs' : Fs) (key₁ key₂ : String)
      (path₁ path₂ : Path),
      s.resolvePath key₁ = .ok path₁ → s.resolvePath key₂ = .ok path₂ →
      Go.LocalBlobStore.Apart fs path₁ path₂ →
      (∃ data metadata, (s.put codec none key₁ data metadata).run Go.serve fs = (.ok (), fs')) ∨
        (s.delete none key₁).run Go.serve fs = (.ok (), fs') →
      ((s.get codec none key₂).run Go.serve fs').1 =
        ((s.get codec none key₂).run Go.serve fs).1) := by
  constructor
  · rintro st codec fs fs' key₁ key₂ path₁ path₂ hbase hpath₁ hpath₂ hapart
      (⟨data, metadata, hput⟩ | hdelete)
    · obtain ⟨honly, hdirs⟩ := Rust.LocalBlobStore.onlyAt_put hbase hpath₁ hput
      exact Rust.LocalBlobStore.get_of_onlyAt hbase hpath₂ hapart honly hdirs
    · obtain ⟨honly, hdirs⟩ := Rust.LocalBlobStore.onlyAt_delete hpath₁ hdelete
      exact Rust.LocalBlobStore.get_of_onlyAt hbase hpath₂ hapart honly hdirs
  · rintro s codec fs fs' key₁ key₂ path₁ path₂ hpath₁ hpath₂ hapart
      (⟨data, metadata, hput⟩ | hdelete)
    · have honly := Go.LocalBlobStore.onlyAt_put hpath₁ hput
      exact Go.LocalBlobStore.get_of_onlyAt hpath₂ hapart honly
    · have honly := Go.LocalBlobStore.onlyAt_delete hpath₁ hdelete
      exact Go.LocalBlobStore.get_of_onlyAt hpath₂ hapart honly

/-- In both stores under `data`, a `put` of `a` leaves what `get` returns for `b/c`. -/
theorem independent_a_b :
    (((Rust.LocalBlobStore.get ⟨"data".toList⟩ Rust.plainCodec "b/c").run Rust.serve
        ((Rust.LocalBlobStore.put ⟨"data".toList⟩ Rust.plainCodec "a" [1] none).run Rust.serve
          Fs.empty).2).1 =
      ((Rust.LocalBlobStore.get ⟨"data".toList⟩ Rust.plainCodec "b/c").run Rust.serve
        Fs.empty).1) ∧
    (((Go.LocalBlobStore.get (.new "data".toList) Go.plainCodec none "b/c").run Go.serve
        ((Go.LocalBlobStore.put (.new "data".toList) Go.plainCodec none "a" [1] none).run Go.serve
          Fs.empty).2).1 =
      ((Go.LocalBlobStore.get (.new "data".toList) Go.plainCodec none "b/c").run Go.serve
        Fs.empty).1) := by
  refine ⟨independent_keys.1 _ _ _ _ "a" "b/c" "data/a".toList "data/b/c".toList ?_ ?_ ?_ ?_
      (Or.inl ⟨[1], none, rfl⟩),
    independent_keys.2 _ _ _ _ "a" "b/c" "data/a".toList "data/b/c".toList ?_ ?_ ?_
      (Or.inl ⟨[1], none, rfl⟩)⟩
  · exact Or.inl (by decide)
  · decide
  · decide
  · unfold Rust.LocalBlobStore.Apart
    decide
  · decide
  · decide
  · unfold Go.LocalBlobStore.Apart
    decide

/-- Different keys can be one blob: in both stores under `data`, after a `put` of `/a` into the
empty tree, `get` finds `a`. -/
theorem slash_key_is_shared :
    ¬ (∀ (st : Rust.LocalBlobStore) (codec : Rust.MetadataCodec) (fs fs' : Fs),
      Rust.LocalBlobStore.Reached st codec Fs.empty fs →
      ∀ (key₁ key₂ : String) (path₁ path₂ : Path), key₁ ≠ key₂ →
      st.resolvePath key₁ = .ok path₁ → st.resolvePath key₂ = .ok path₂ →
      (∃ data metadata, (st.put codec key₁ data metadata).run Rust.serve fs = (.ok (), fs')) ∨
        (st.delete key₁).run Rust.serve fs = (.ok (), fs') →
      ((st.get codec key₂).run Rust.serve fs').1 = ((st.get codec key₂).run Rust.serve fs).1) ∧
    ¬ (∀ (s : Go.LocalBlobStore) (codec : Go.MetadataCodec) (fs fs' : Fs),
      Go.LocalBlobStore.Reached s codec Fs.empty fs →
      ∀ (key₁ key₂ : String) (path₁ path₂ : Path), key₁ ≠ key₂ →
      s.resolvePath key₁ = .ok path₁ → s.resolvePath key₂ = .ok path₂ →
      (∃ data metadata, (s.put codec none key₁ data metadata).run Go.serve fs = (.ok (), fs')) ∨
        (s.delete none key₁).run Go.serve fs = (.ok (), fs') →
      ((s.get codec none key₂).run Go.serve fs').1 =
        ((s.get codec none key₂).run Go.serve fs).1) := by
  constructor
  · intro h
    have hget := h ⟨"data".toList⟩ Rust.plainCodec Fs.empty _ .start "/a" "a" "data/a".toList
      "data/a".toList (by decide) (by decide) (by decide) (Or.inl ⟨[1], none, rfl⟩)
    have hfound := congrArg (fun r => r.toOption.map Option.isSome) hget
    revert hfound
    decide
  · intro h
    have hget := h (.new "data".toList) Go.plainCodec Fs.empty _ .start "/a" "a" "data/a".toList
      "data/a".toList (by decide) (by decide) (by decide) (Or.inl ⟨[1], none, rfl⟩)
    have hfound := congrArg (fun r => r.toOption.map Option.isSome) hget
    revert hfound
    decide

end GoyStore
