import GoyStore.Blob.ReadYourWrite
import GoyStore.Library.CleanedPlaces
import GoyStore.Library.FileListing
import GoyStore.Library.Worklist
import Mathlib.Data.String.Basic

/-!
# Listing the blobs of a file tree

`list` of the local blob stores walks through the directories under the base path and returns the
relative paths of the files, except those of the sidecars.  The Rust store keeps a stack of the
directories that are still to be read, and the Go store goes down recursively.

In whatever order the directories are read, what is found is what is listed of the places below the
base, each once (`list_exact`).
-/

namespace GoyStore

open FileTree UnixPath

/-! ### What is listed -/

/-- The text of names with slashes between them. -/
def slashText (ns : List (List Char)) : String := String.ofList (['/'].intercalate ns)

/-- What is listed for a place below `b`: the names that lead to a file, rewritten, unless its name
has the suffix or the text does not start as asked for. -/
def listedAt (fs : Fs) (suffix : List Char) (rewrite : Path → Path) (start : Option String)
    (b x : Place) : Option String :=
  match fs.node x with
  | some (.file _) =>
    if suffix <:+ x.getLastD [] then none
    else
      let text := rewrite (['/'].intercalate (x.drop b.length))
      if start.all fun s => s.toList.isPrefixOf text then some (String.ofList text) else none
  | _ => none

/-- What is listed of the places below `b`, in order. -/
def listing (fs : Fs) (suffix : List Char) (rewrite : Path → Path) (start : Option String)
    (b : Place) : List String :=
  ((fs.below b).filterMap (listedAt fs suffix rewrite start b)).mergeSort fun x y => x ≤ y

/-- The text of the names that lead to a file below `b` is not rewritten. -/
def PlainBelow (fs : Fs) (rewrite : Path → Path) (b : Place) : Prop :=
  ∀ ns data, fs.node (b ++ ns) = some (.file data) →
    rewrite (['/'].intercalate ns) = ['/'].intercalate ns

variable {fs fs' : Fs} {suffix : List Char} {rewrite : Path → Path} {start : Option String}
  {b : Place}

/-- The start of a text that is asked for, if any. -/
lemma all_isPrefixOf_iff (start : Option String) (text : List Char) :
    (start.all fun s => s.toList.isPrefixOf text) = true ↔ ∀ s ∈ start, s.toList <+: text := by
  rcases start with - | s
  · simp
  · simp [List.isPrefixOf_iff_prefix]

/-- What is listed for an entry below `b`. -/
lemma listedAt_append (ns : List (List Char)) (name : List Char) :
    listedAt fs suffix rewrite start b (b ++ ns ++ [name]) =
      match fs.node (b ++ ns ++ [name]) with
      | some (.file _) =>
        if ¬ suffix <:+ name ∧ ∀ s ∈ start, s.toList <+: rewrite (['/'].intercalate (ns ++ [name]))
        then some (String.ofList (rewrite (['/'].intercalate (ns ++ [name]))))
        else none
      | _ => none := by
  rw [listedAt, List.getLastD_concat]
  rcases fs.node (b ++ ns ++ [name]) with - | ⟨⟨⟩ | data⟩
  · rfl
  · rfl
  · simp only [List.append_assoc, List.drop_left, all_isPrefixOf_iff]
    by_cases hsuffix : suffix <:+ name
    · rw [if_pos hsuffix, if_neg fun h => h.1 hsuffix]
    · rw [if_neg hsuffix]
      by_cases hstart : ∀ s ∈ start, s.toList <+: rewrite (['/'].intercalate (ns ++ [name]))
      · rw [if_pos hstart, if_pos ⟨hsuffix, hstart⟩]
      · rw [if_neg hstart, if_neg fun h => hstart h.2]

/-- What is listed at a place below `b`, if nothing is rewritten. -/
lemma listedAt_eq_some (hplain : PlainBelow fs rewrite b) {x : Place} (hx : x ∈ fs.below b)
    {key : String} :
    listedAt fs suffix rewrite start b x = some key ↔ ∃ ns name data, x = b ++ ns ++ [name] ∧
      fs.node x = some (.file data) ∧ ¬ suffix <:+ name ∧ key = slashText (ns ++ [name]) ∧
        ∀ s ∈ start, s.toList <+: key.toList := by
  obtain ⟨ns, hns, rfl, y, hy⟩ := Fs.mem_below.mp hx
  obtain ⟨ns, name, rfl⟩ := (List.eq_nil_or_concat' ns).resolve_left hns
  have htext : ∀ data, y = .file data →
      rewrite (['/'].intercalate (ns ++ [name])) = ['/'].intercalate (ns ++ [name]) :=
    fun data hdata => hplain _ data (hdata ▸ hy)
  rw [← List.append_assoc] at hy ⊢
  rw [listedAt_append, hy]
  constructor
  · intro h
    rcases y with - | data
    · cases h
    · simp only [htext data rfl] at h
      split_ifs at h with hlisted
      obtain rfl := Option.some.inj h
      exact ⟨ns, name, data, rfl, rfl, hlisted.1, rfl, by simpa using hlisted.2⟩
  · rintro ⟨ns', name', data, hplace, hfile, hsuffix, rfl, hstart⟩
    rw [List.append_assoc, List.append_assoc, List.append_cancel_left_eq] at hplace
    obtain ⟨rfl, hname⟩ := List.append_inj' hplace rfl
    obtain rfl : name = name' := (List.cons.inj hname).1
    obtain rfl := Option.some.inj hfile
    simp only [htext data rfl]
    rw [if_pos ⟨hsuffix, by simpa [slashText] using hstart⟩, slashText]

/-- The names can be read off the text. -/
lemma slashText_injective {ns ns' : List (List Char)} (hns : ns ≠ []) (hns' : ns' ≠ [])
    (h : ∀ q ∈ ns, '/' ∉ q) (h' : ∀ q ∈ ns', '/' ∉ q) (heq : slashText ns = slashText ns') :
    ns = ns' := by
  have htext : ['/'].intercalate ns = ['/'].intercalate ns' := String.ofList_injective heq
  rw [← pieces_intercalate hns h, ← pieces_intercalate hns' h', htext]

/-- The order of texts is transitive. -/
lemma decide_le_trans (x y z : String) (hxy : decide (x ≤ y) = true) (hyz : decide (y ≤ z) = true) :
    decide (x ≤ z) = true :=
  decide_eq_true (le_trans (of_decide_eq_true hxy) (of_decide_eq_true hyz))

/-- The order of texts is total. -/
lemma decide_le_total (x y : String) : (decide (x ≤ y) || decide (y ≤ x)) = true := by
  simpa using le_total x y

/-- Texts that come once each are in strict order when they are sorted. -/
lemma pairwise_lt_mergeSort {found : List String} (h : found.Nodup) :
    (found.mergeSort fun x y => x ≤ y).Pairwise (· < ·) := by
  have hsorted := List.pairwise_mergeSort decide_le_trans decide_le_total found
  have hne := (List.mergeSort_perm found fun x y : String => x ≤ y).nodup_iff.mpr h
  exact (hsorted.and hne).imp fun h => lt_of_le_of_ne (of_decide_eq_true h.1) h.2

/-- Sorted texts do not depend on the order in which they come. -/
lemma mergeSort_eq_of_perm {found found' : List String} (h : found.Perm found') :
    (found.mergeSort fun x y => x ≤ y) = found'.mergeSort fun x y => x ≤ y := by
  have hperm := (List.mergeSort_perm found fun x y => x ≤ y).trans
    (h.trans (List.mergeSort_perm found' fun x y => x ≤ y).symm)
  refine hperm.eq_of_pairwise ?_ (List.pairwise_mergeSort decide_le_trans decide_le_total found)
    (List.pairwise_mergeSort decide_le_trans decide_le_total found')
  exact fun x y _ _ hxy hyx => le_antisymm (of_decide_eq_true hxy) (of_decide_eq_true hyx)

/-- What is listed depends only on what stands below `b`. -/
lemma listing_congr (h : ∀ ns, ns ≠ [] → fs'.node (b ++ ns) = fs.node (b ++ ns)) :
    listing fs' suffix rewrite start b = listing fs suffix rewrite start b := by
  have hbelow : (fs'.below b).Perm (fs.below b) := by
    refine (List.perm_ext_iff_of_nodup (fs'.nodup_below b) (fs.nodup_below b)).mpr fun x => ?_
    rw [Fs.mem_below, Fs.mem_below]
    refine exists_congr fun ns => and_congr_right fun hns => and_congr_right fun hx => ?_
    rw [hx, h ns hns]
  refine mergeSort_eq_of_perm ((hbelow.filterMap _).trans (List.Perm.of_eq ?_))
  refine List.filterMap_congr fun x hx => ?_
  obtain ⟨ns, hns, rfl, -⟩ := Fs.mem_below.mp hx
  rw [listedAt, listedAt, h ns hns]

/-- What is listed is in order, and nothing is listed twice. -/
theorem sorted_listing (hnames : fs.ProperBelow b) (hplain : PlainBelow fs rewrite b) :
    (listing fs suffix rewrite start b).Pairwise (· < ·) := by
  have hnodup : ((fs.below b).filterMap (listedAt fs suffix rewrite start b)).Nodup := by
    refine List.pairwise_filterMap.mpr ((fs.nodup_below b).imp_of_mem ?_)
    intro x x' hx hx' hne key hkey key' hkey' heq
    obtain ⟨ns, name, data, rfl, hfile, -, rfl, -⟩ := (listedAt_eq_some hplain hx).mp hkey
    obtain ⟨ns', name', data', rfl, hfile', -, rfl, -⟩ := (listedAt_eq_some hplain hx').mp hkey'
    rw [List.append_assoc] at hne hfile hfile'
    refine hne ?_
    rw [slashText_injective (by simp) (by simp) (fun q hq => (hnames.names hfile q hq).2)
      (fun q hq => (hnames.names hfile' q hq).2) heq, List.append_assoc]
  exact pairwise_lt_mergeSort hnodup

/-- The keys of the files below `b` are listed, except those of the sidecars. -/
theorem mem_listing (hplain : PlainBelow fs rewrite b) (key : String) :
    key ∈ listing fs suffix rewrite start b ↔
      ∃ ns name data, fs.node (b ++ ns ++ [name]) = some (.file data) ∧ ¬ suffix <:+ name ∧
        key = slashText (ns ++ [name]) ∧ ∀ s ∈ start, s.toList <+: key.toList := by
  rw [listing, List.mem_mergeSort, List.mem_filterMap]
  constructor
  · rintro ⟨x, hx, hkey⟩
    obtain ⟨ns, name, data, rfl, hrest⟩ := (listedAt_eq_some hplain hx).mp hkey
    exact ⟨ns, name, data, hrest⟩
  · rintro ⟨ns, name, data, hfile, hrest⟩
    have hx : b ++ ns ++ [name] ∈ fs.below b :=
      Fs.mem_below.mpr ⟨ns ++ [name], by simp, List.append_assoc _ _ _, _, hfile⟩
    exact ⟨_, hx, (listedAt_eq_some hplain hx).mpr ⟨ns, name, data, rfl, hfile, hrest⟩⟩

/-! ### The Rust store -/

namespace Rust

/-- An order in which `read_dir` yields the entries of the directories. -/
structure ReadOrder where
  /-- The names in a directory in the order in which they come. -/
  arrange : Path → List (List Char) → List (List Char)
  /-- They are the same names. -/
  perm : ∀ dir names, (arrange dir names).Perm names

/-- `Path::file_name`. -/
def fileName (p : Path) : Option (List Char) :=
  match (components p).getLast? with
  | some (.normal name) => some name
  | _ => none

/-- `Path::strip_prefix`; the components that are left have one slash between them. -/
def stripPrefix (p base : Path) : Option Path :=
  if components base <+: components p then
    some (['/'].intercalate (((components p).drop (components base).length).map componentPiece))
  else none

namespace LocalBlobStore

/-- The body of the inner loop of `LocalBlobStore::list`, for an entry of `dir`: a directory is
pushed, and a file that is no sidecar is a result if its path starts as asked for. -/
def visit (st : LocalBlobStore) (fs : Fs) (start : Option String) (dir : Path)
    (found : List Path × List String) (name : List Char) : List Path × List String :=
  let path := join dir name
  if fs.stat path = .ok .dir then (path :: found.1, found.2)
  else if metaSuffix <:+ (fileName path).getD [] then found
  else
    match stripPrefix path st.basePath with
    | none => found
    | some relPath =>
      let relStr := slashed relPath
      if start.all fun pref => pref.toList.isPrefixOf relStr then
        (found.1, found.2 ++ [String.ofList relStr])
      else found

/-- The body of the outer loop of `LocalBlobStore::list`: a directory is read and its entries are
visited. -/
def visitDir (st : LocalBlobStore) (fs : Fs) (order : ReadOrder) (start : Option String)
    (dir : Path) (found : List Path × List String) : Except String (List Path × List String) :=
  match fs.readDir dir with
  | .error e => .error (errorText e)
  | .ok names => .ok ((order.arrange dir names).foldl (st.visit fs start dir) found)

/-- `LocalBlobStore::list`, on a tree; `start` is its argument `prefix`.  Strings are in the order
of their characters, which is that of their bytes. -/
def list (st : LocalBlobStore) (fs : Fs) (order : ReadOrder) (start : Option String)
    (fuel : Nat) : Option (Except String (List String)) :=
  if (fs.stat st.basePath).isOk then
    (Worklist.loop (st.visitDir fs order start) fuel ([st.basePath], [])).map
      (Except.map fun results => results.mergeSort fun a b => a ≤ b)
  else some (.ok [])

/-- `dir` is the path of the directory to which the names `ns` lead from the base path, which stands
at `b`. -/
structure Leads (st : LocalBlobStore) (fs : Fs) (b : Place) (dir : Path) (ns : List (List Char)) :
    Prop where
  /-- A directory stands there. -/
  stat : fs.stat dir = .ok .dir
  /-- It stands at the names. -/
  place : fs.placeOf dir = b ++ ns
  /-- The names are the components after those of the base path. -/
  components : components dir = components st.basePath ++ ns.map .normal

variable {st : LocalBlobStore} {order : ReadOrder} {dir : Path} {ns : List (List Char)}
  {name : List Char}

/-- What stands at a name that is joined to the path of a directory. -/
lemma Leads.stat_join (h : Leads st fs b dir ns) (hname : IsName name) (hslash : '/' ∉ name) :
    fs.stat (join dir name) = (fs.node (b ++ ns ++ [name])).elim (.error .noEntry) .ok := by
  rw [Fs.stat_of_entry (Fs.entry_join h.stat hname hslash), h.place]

/-- The components of a name that is joined to the path of a directory. -/
lemma Leads.components_join (h : Leads st fs b dir ns) (hname : IsName name)
    (hslash : '/' ∉ name) :
    UnixPath.components (join dir name) =
      UnixPath.components st.basePath ++ (ns ++ [name]).map .normal := by
  obtain ⟨hne, -⟩ := Fs.of_stat_eq_ok h.stat
  rw [components_join_name hne hname hslash, h.components]
  simp

/-- A name leads on to a subdirectory. -/
lemma Leads.join (h : Leads st fs b dir ns) (hname : IsName name) (hslash : '/' ∉ name)
    (hdir : fs.node (b ++ ns ++ [name]) = some .dir) :
    Leads st fs b (UnixPath.join dir name) (ns ++ [name]) where
  stat := by
    rw [h.stat_join hname hslash, hdir]
    rfl
  place := by
    obtain ⟨-, -, -, -, -, hplace⟩ := Fs.of_entry_eq_ok (Fs.entry_join h.stat hname hslash)
    rw [← hplace, h.place, List.append_assoc]
  components := h.components_join hname hslash

/-- Names without backslashes are not rewritten. -/
lemma slashed_intercalate {qs : List (List Char)} (h : ∀ q ∈ qs, '\\' ∉ q) :
    slashed (['/'].intercalate qs) = ['/'].intercalate qs := by
  have hself : ∀ q : List Char, '\\' ∉ q → slashed q = q := by
    intro q hq
    rw [slashed]
    conv_rhs => rw [← List.map_id q]
    refine List.map_congr_left fun ch hch => if_neg ?_
    rintro rfl
    exact hq hch
  refine hself _ fun hmem => ?_
  induction qs with
  | nil => cases hmem
  | cons q qs ih =>
    cases qs with
    | nil => exact h q List.mem_cons_self (by simpa [List.intercalate] using hmem)
    | cons q' qs =>
      rw [List.intercalate_cons_cons, List.append_assoc] at hmem
      rcases List.mem_append.mp hmem with hfirst | hrest
      · exact h q List.mem_cons_self hfirst
      · exact ih (fun r hr => h r (List.mem_cons_of_mem q hr)) (by simpa using hrest)

/-- Names without backslashes below a place are not rewritten. -/
lemma plainBelow_slashed
    (h : ∀ ns name x, fs.node (b ++ ns ++ [name]) = some x → '\\' ∉ name) :
    PlainBelow fs slashed b := by
  intro ns data hx
  refine slashed_intercalate ?_
  generalize Node.file data = x at hx
  induction ns using List.reverseRecOn generalizing x with
  | nil => simp
  | append_singleton ns name ih =>
    rw [← List.append_assoc] at hx
    intro q hq
    rcases List.mem_append.mp hq with hold | hlast
    · exact ih _ (fs.parent_dir _ _ _ hx) q hold
    · obtain rfl := List.mem_singleton.mp hlast
      exact h ns q x hx

/-- What an entry does to the stack and to the results. -/
lemma Leads.visit (h : Leads st fs b dir ns) (hnames : fs.ProperBelow b) {x : Node}
    (hx : fs.node (b ++ ns ++ [name]) = some x) (stack : List Path) (results : List String) :
    st.visit fs start dir (stack, results) name =
      if x = .dir then (UnixPath.join dir name :: stack, results)
      else (stack, results ++
        (listedAt fs metaSuffix slashed start b (b ++ ns ++ [name])).toList) := by
  obtain ⟨hname, hslash⟩ := hnames ns name x hx
  have hstat := h.stat_join hname hslash
  have hcomponents := h.components_join hname hslash
  have hfile : fileName (UnixPath.join dir name) = some name := by
    rw [fileName, hcomponents, List.map_append, ← List.append_assoc]
    simp
  have hrel : stripPrefix (UnixPath.join dir name) st.basePath =
      some (['/'].intercalate (ns ++ [name])) := by
    have hpieces : ((ns ++ [name]).map Component.normal).map componentPiece = ns ++ [name] := by
      rw [List.map_map]
      exact List.map_id _
    rw [stripPrefix, hcomponents, if_pos (List.prefix_append _ _), List.drop_left, hpieces]
  rw [hx] at hstat
  rw [LocalBlobStore.visit, listedAt_append, hx]
  rcases x with - | data
  · simp only [hstat, Option.elim_some, if_true]
  · simp only [hstat, Option.elim_some, hfile, Option.getD_some, hrel, all_isPrefixOf_iff,
      reduceCtorEq, Except.ok.injEq, if_false]
    by_cases hsuffix : metaSuffix <:+ name
    · rw [if_pos hsuffix, if_neg fun h => h.1 hsuffix]
      simp
    · rw [if_neg hsuffix]
      by_cases hstart : ∀ s ∈ start,
          s.toList <+: slashed (['/'].intercalate (ns ++ [name]))
      · rw [if_pos hstart, if_pos ⟨hsuffix, hstart⟩]
        rfl
      · rw [if_neg hstart, if_neg fun h => hstart h.2]
        simp

/-- What the entries of a directory do to the stack and to the results. -/
lemma Leads.foldl_visit (h : Leads st fs b dir ns) (hnames : fs.ProperBelow b)
    (names : List (List Char)) (hmem : ∀ name ∈ names, name ∈ fs.children (b ++ ns))
    (stack : List Path) (results : List String) :
    names.foldl (st.visit fs start dir) (stack, results) =
      (((names.filter fun name => fs.node (b ++ ns ++ [name]) = some .dir).map
          (UnixPath.join dir)).reverse ++ stack,
        results ++ names.filterMap fun name =>
          listedAt fs metaSuffix slashed start b (b ++ ns ++ [name])) := by
  induction names generalizing stack results with
  | nil => simp
  | cons name names ih =>
    obtain ⟨x, hx⟩ := Fs.mem_children.mp (hmem name List.mem_cons_self)
    have htail := ih fun q hq => hmem q (List.mem_cons_of_mem name hq)
    rw [List.foldl_cons, h.visit hnames hx]
    by_cases hdir : x = .dir
    · have hnone : listedAt fs metaSuffix slashed start b (b ++ ns ++ [name]) = none := by
        rw [listedAt, hx, hdir]
      rw [if_pos hdir, htail, List.filter_cons_of_pos (by rw [hx, hdir]; rfl), List.filterMap_cons,
        hnone]
      simp
    · have hnode : fs.node (b ++ ns ++ [name]) ≠ some .dir := fun heq =>
        hdir (Option.some.inj (hx.symm.trans heq))
      rw [if_neg hdir, htail, List.filter_cons_of_neg (by simpa only [decide_eq_true_iff]),
        List.filterMap_cons, List.append_assoc]
      cases listedAt fs metaSuffix slashed start b (b ++ ns ++ [name]) <;> rfl

/-- A round of the outer loop pushes the subdirectories and adds the files of a directory. -/
lemma expands_visitDir (st : LocalBlobStore) (order : ReadOrder) (start : Option String)
    (hnames : fs.ProperBelow b) (dir : Path) (hdir : ∃ ns, Leads st fs b dir ns) :
    ∃ pushed added, Worklist.Expands (st.visitDir fs order start)
      (fun dir => ∃ ns, Leads st fs b dir ns) (fun dir => (fs.below (fs.placeOf dir)).length + 1)
      (fun dir => (fs.below (fs.placeOf dir)).filterMap (listedAt fs metaSuffix slashed start b))
      dir pushed added := by
  obtain ⟨ns, h⟩ := hdir
  have hread : fs.readDir dir = .ok (fs.children (b ++ ns)) := by
    rw [Fs.readDir, h.stat, h.place]
  have hperm := order.perm dir (fs.children (b ++ ns))
  generalize hread' : order.arrange dir (fs.children (b ++ ns)) = names at hperm
  have hsub : ∀ name ∈ names.filter (fun name => fs.node (b ++ ns ++ [name]) = some .dir),
      Leads st fs b (UnixPath.join dir name) (ns ++ [name]) := by
    intro name hname
    have hdir := of_decide_eq_true (List.mem_filter.mp hname).2
    obtain ⟨hproper, hslash⟩ := hnames ns name _ hdir
    exact h.join hproper hslash hdir
  refine ⟨((names.filter fun name => fs.node (b ++ ns ++ [name]) = some .dir).map
      (UnixPath.join dir)).reverse, names.filterMap fun name =>
        listedAt fs metaSuffix slashed start b (b ++ ns ++ [name]), ?_, ?_, ?_, ?_⟩
  · intro stack results
    rw [visitDir, hread]
    simp only [hread']
    rw [h.foldl_visit hnames names (fun name hname => hperm.mem_iff.mp hname)]
  · intro path hpath
    obtain ⟨name, hname, rfl⟩ := List.mem_map.mp (List.mem_reverse.mp hpath)
    exact ⟨_, hsub name hname⟩
  · rw [List.map_reverse, List.sum_reverse, List.map_map, h.place]
    refine lt_of_eq_of_lt (congrArg List.sum (List.map_congr_left fun name hname => ?_))
      (Fs.sum_below_lt hperm)
    rw [Function.comp_apply, (hsub name hname).place, List.append_assoc]
  · rw [h.place]
    refine (Fs.filterMap_below_perm_dirs _ hperm).trans (List.Perm.append_left _ ?_)
    refine List.Perm.trans ?_ ((List.reverse_perm _).flatMap_right _).symm
    rw [List.flatMap_map]
    refine List.Perm.of_eq (List.flatMap_congr fun name hname => ?_)
    rw [(hsub name hname).place, List.append_assoc]

/-- `list` returns a result, if it has enough fuel. -/
def ListReturns (st : LocalBlobStore) (fs : Fs) (order : ReadOrder) (start : Option String)
    (r : Except String (List String)) : Prop :=
  ∃ fuel, ∀ n ≥ fuel, st.list fs order start n = some r

/-- Under a base path that leads to a directory, `list` returns what is listed of the places below
it, whatever the order in which the directories are read. -/
theorem listReturns_listing (order : ReadOrder) (start : Option String)
    (hstat : fs.stat st.basePath = .ok .dir) (hnames : fs.ProperBelow (fs.placeOf st.basePath)) :
    st.ListReturns fs order start
      (.ok (listing fs metaSuffix slashed start (fs.placeOf st.basePath))) := by
  have hleads : Leads st fs (fs.placeOf st.basePath) st.basePath [] :=
    ⟨hstat, (List.append_nil _).symm, (List.append_nil _).symm⟩
  obtain ⟨found, hloop, hperm⟩ := Worklist.loop_eq (expands_visitDir st order start hnames) []
    fun dir hdir => ⟨[], List.mem_singleton.mp hdir ▸ hleads⟩
  rw [List.nil_append, List.flatMap_singleton] at hperm
  refine ⟨(fs.below (fs.placeOf st.basePath)).length + 2, fun n hn => ?_⟩
  rw [list, hstat, hloop n (by simpa using Nat.lt_of_succ_le hn), listing,
    ← mergeSort_eq_of_perm hperm]
  rfl

/-- `list` ends, whatever the order in which the directories are read, and returns the keys of the
files below the base path, sorted and each once; if there is no base path it returns nothing. -/
theorem list_exact (st : LocalBlobStore) (fs : Fs) (order : ReadOrder) (start : Option String)
    (hbase : ∀ data, fs.stat st.basePath ≠ .ok (.file data))
    (hnames : ∀ ns name x, fs.node (fs.placeOf st.basePath ++ ns ++ [name]) = some x →
      IsName name ∧ '/' ∉ name ∧ '\\' ∉ name) :
    ∃ keys : List String, st.ListReturns fs order start (.ok keys) ∧ keys.Pairwise (· < ·) ∧
      ∀ key, key ∈ keys ↔ fs.stat st.basePath = .ok .dir ∧
        ∃ ns name data, fs.node (fs.placeOf st.basePath ++ ns ++ [name]) = some (.file data) ∧
          ¬ metaSuffix <:+ name ∧ key = slashText (ns ++ [name]) ∧
            ∀ s ∈ start, s.toList <+: key.toList := by
  rcases hstat : fs.stat st.basePath with e | ⟨⟨⟩ | data⟩
  · refine ⟨[], ⟨0, fun n _ => ?_⟩, List.Pairwise.nil, by simp⟩
    rw [list, hstat]
    rfl
  · have hproper : fs.ProperBelow (fs.placeOf st.basePath) :=
      fun ns name x hx => ⟨(hnames ns name x hx).1, (hnames ns name x hx).2.1⟩
    have hplain := plainBelow_slashed fun ns name x hx => (hnames ns name x hx).2.2
    refine ⟨_, listReturns_listing order start hstat hproper, sorted_listing hproper hplain,
      fun key => (mem_listing hplain key).trans ?_⟩
    simp
  · exact absurd hstat (hbase data)

/-- If every entry of the tree has plain names, those below a place are plain. -/
lemma names_of_entries (h : ∀ x ∈ fs.entries, ∀ q ∈ x, IsName q ∧ '/' ∉ q ∧ '\\' ∉ q)
    (b : Place) (ns : List (List Char)) (name : List Char) (x : Node)
    (hx : fs.node (b ++ ns ++ [name]) = some x) : IsName name ∧ '/' ∉ name ∧ '\\' ∉ name :=
  h _ (Fs.mem_entries.mpr ⟨by simp, x, hx⟩) name (by simp)

/-- Under `data`, with the blob `a` and its sidecar, `list` ends and is exact in the reverse of the
order of the entries. -/
theorem list_exact_tagged :
    ∃ keys : List String,
      (⟨"data".toList⟩ : LocalBlobStore).ListReturns taggedTree
        ⟨fun _ names => names.reverse, fun _ names => names.reverse_perm⟩ none (.ok keys) ∧
      keys.Pairwise (· < ·) ∧
      ∀ key, key ∈ keys ↔ taggedTree.stat "data".toList = .ok .dir ∧
        ∃ ns name data, taggedTree.node (taggedTree.placeOf "data".toList ++ ns ++ [name]) =
            some (.file data) ∧
          ¬ metaSuffix <:+ name ∧ key = slashText (ns ++ [name]) ∧
            ∀ s ∈ (none : Option String), s.toList <+: key.toList :=
  list_exact _ _ _ _ (fun _ => ne_of_beq_false rfl) (names_of_entries (by decide) _)

end LocalBlobStore

end Rust

/-! ### The Go store -/

namespace Go

/-- `filepath.Base`. -/
def baseName (p : Path) : List Char :=
  match ((pieces p).filter (· ≠ [])).getLast? with
  | some q => q
  | none => if p = [] then ['.'] else ['/']

/-- `readDirNames` of `filepath.Walk`: the names in a directory, in order. -/
def readDirNames (fs : Fs) (path : Path) : Except FsError (List (List Char)) :=
  match fs.readDir path with
  | .error e => .error (pathError "open" path e)
  | .ok names => .ok (names.mergeSort fun a b => String.ofList a ≤ String.ofList b)

/-- Go through some names until one fails. -/
def eachName (f : List Char → List String → Option (Except String (List String))) :
    List (List Char) → List String → Option (Except String (List String))
  | [], results => some (.ok results)
  | name :: names, results =>
    match f name results with
    | some (.ok results') => eachName f names results'
    | r => r

namespace LocalBlobStore

/-- What the function that `LocalBlobStore.List` hands to `filepath.Walk` does for a file: a file
that is no sidecar is a result if its relative path starts as asked for. -/
def visit (s : LocalBlobStore) (start : Option String) (path : Path) (results : List String) :
    Except String (List String) :=
  if metaSuffix <:+ baseName path then .ok results
  else
    match relative s.basePath path with
    | none =>
      .error ("Rel: can't make " ++ String.ofList path ++ " relative to " ++
        String.ofList s.basePath)
    | some rel =>
      if start.all fun pref => pref.toList.isPrefixOf rel then
        .ok (results ++ [String.ofList rel])
      else .ok results

/-- `walk` of `filepath.Walk` with that function; a directory is no result, and the first error ends
the walk. -/
def walk (s : LocalBlobStore) (fs : Fs) (start : Option String) :
    Nat → Path → Node → List String → Option (Except String (List String))
  | 0, _, _, _ => none
  | _ + 1, path, .file _, results => some (s.visit start path results)
  | n + 1, path, .dir, results =>
    match readDirNames fs path with
    | .error e => some (.error e.text)
    | .ok names => eachName (fun name results =>
        match fs.stat (joinClean path name) with
        | .error e => some (.error (pathError "lstat" (joinClean path name) e).text)
        | .ok info => walk s fs start n (joinClean path name) info results) names results

/-- `LocalBlobStore.List`, on a tree; `start` is its argument `prefix`.  Strings are in the order of
their characters, which is that of their bytes. -/
def list (s : LocalBlobStore) (fs : Fs) (ctx start : Option String) (fuel : Nat) :
    Option (Except String (List String)) :=
  match ctx with
  | some err => some (.error err)
  | none =>
    match fs.stat s.basePath with
    | .error .noEntry => some (.ok [])
    | .error e =>
      some (.error ("failed to list blobs: " ++ (pathError "lstat" s.basePath e).text))
    | .ok info => (s.walk fs start fuel s.basePath info []).map fun r =>
        (r.map fun results => results.mergeSort fun a b => a ≤ b).mapError
          ("failed to list blobs: " ++ ·)

/-- The path by which the walk comes to some names below the base path. -/
def pathAt (s : LocalBlobStore) (ns : List (List Char)) : Path :=
  if ns = [] then s.basePath else render (isAbsolute s.basePath) (cleanParts s.basePath ++ ns)

variable {s : LocalBlobStore} {ns : List (List Char)} {name : List Char}

/-- What the walk finds for some names is what stands there. -/
lemma stat_pathAt (hstat : fs.stat s.basePath = .ok .dir)
    (hnames : fs.ProperBelow (fs.placeOf s.basePath)) {x : Node}
    (hx : fs.node (fs.placeOf s.basePath ++ ns) = some x) : fs.stat (s.pathAt ns) = .ok x := by
  rw [pathAt]
  split_ifs with hnil
  · rw [hnil, List.append_nil, Fs.node_of_stat hstat] at hx
    rw [hstat, Option.some.inj hx]
  · exact (fs.stat_render_eq_ok_iff hnil (hnames.names hx)).mpr hx

/-- The walk comes to some names at their place. -/
lemma placeOf_pathAt (hns : ∀ q ∈ ns, IsName q ∧ '/' ∉ q) :
    fs.placeOf (s.pathAt ns) = fs.placeOf s.basePath ++ ns := by
  rw [pathAt]
  split_ifs with hnil
  · rw [hnil, List.append_nil]
  · exact fs.placeOf_render hns

/-- From some names the walk goes on to one more. -/
lemma joinClean_pathAt (hns : ∀ q ∈ ns ++ [name], IsName q ∧ '/' ∉ q) :
    joinClean (s.pathAt ns) name = s.pathAt (ns ++ [name]) := by
  have hname : ∀ q ∈ [name], IsName q ∧ '/' ∉ q := fun q hq => hns q (List.mem_append_right ns hq)
  have htext : ['/'].intercalate [name] = name := by simp [List.intercalate]
  rw [pathAt, pathAt, if_neg (by simp : ns ++ [name] ≠ [])]
  split_ifs with hnil
  · have hjoin := joinClean_names s.nonempty (List.cons_ne_nil name []) hname
    rw [htext] at hjoin
    rw [hjoin, hnil, List.nil_append]
  · have hnormal := (normal_cleanParts s.basePath).append
      fun q hq => hns q (List.mem_append_left [name] hq)
    have hjoin := joinClean_names (render_ne_nil hnormal) (List.cons_ne_nil name []) hname
    rw [htext, isAbsolute_render hnormal, cleanParts_render hnormal, List.append_assoc] at hjoin
    exact hjoin

/-- What the walk does at a file. -/
lemma visit_pathAt (hns : ∀ q ∈ ns ++ [name], IsName q ∧ '/' ∉ q) {data : List UInt8}
    (hx : fs.node (b ++ ns ++ [name]) = some (.file data)) (results : List String) :
    s.visit start (s.pathAt (ns ++ [name])) results =
      .ok (results ++ (listedAt fs metaSuffix id start b (b ++ ns ++ [name])).toList) := by
  have hne : ns ++ [name] ≠ [] := by simp
  have hpath : s.pathAt (ns ++ [name]) =
      render (isAbsolute s.basePath) (cleanParts s.basePath ++ (ns ++ [name])) := if_neg hne
  have hbase : baseName (s.pathAt (ns ++ [name])) = name := by
    have hnil : name ≠ [] := (hns name (by simp)).1.1
    rw [baseName, hpath, pieces_render ((normal_cleanParts _).append hns) (by simp),
      ← List.append_assoc, ← List.append_assoc, List.filter_append,
      List.filter_cons_of_pos (by simpa using hnil), List.filter_nil, List.getLast?_concat]
  rw [visit, hbase, listedAt_append, hx, hpath, relative_render hne hns]
  simp only [all_isPrefixOf_iff, id_eq]
  by_cases hsuffix : metaSuffix <:+ name
  · rw [if_pos hsuffix, if_neg fun h => h.1 hsuffix]
    simp
  · rw [if_neg hsuffix]
    by_cases hstart : ∀ p ∈ start, p.toList <+: ['/'].intercalate (ns ++ [name])
    · rw [if_pos hstart, if_pos ⟨hsuffix, hstart⟩]
      rfl
    · rw [if_neg hstart, if_neg fun h => hstart h.2]
      simp

/-- If nothing fails, what is found for each of some names is added. -/
lemma eachName_eq_ok {f : List Char → List String → Option (Except String (List String))}
    (yield : List Char → List String) (names : List (List Char))
    (h : ∀ name ∈ names, ∀ results, ∃ found, f name results = some (.ok (results ++ found)) ∧
      found.Perm (yield name)) (results : List String) :
    ∃ found, eachName f names results = some (.ok (results ++ found)) ∧
      found.Perm (names.flatMap yield) := by
  induction names generalizing results with
  | nil => exact ⟨[], by rw [eachName, List.append_nil], List.Perm.refl _⟩
  | cons name names ih =>
    obtain ⟨first, hfirst, hperm⟩ := h name List.mem_cons_self results
    obtain ⟨rest, hrest, hperm'⟩ := ih (fun q hq => h q (List.mem_cons_of_mem name hq))
      (results ++ first)
    refine ⟨first ++ rest, ?_, ?_⟩
    · rw [eachName, hfirst, ← List.append_assoc]
      exact hrest
    · rw [List.flatMap_cons]
      exact hperm.append hperm'

/-- With enough fuel, the walk from some names adds what is listed there and below. -/
lemma walk_pathAt (start : Option String) (hstat : fs.stat s.basePath = .ok .dir)
    (hnames : fs.ProperBelow (fs.placeOf s.basePath)) (n : Nat) {x : Node}
    (hx : fs.node (fs.placeOf s.basePath ++ ns) = some x)
    (hn : (fs.below (fs.placeOf s.basePath ++ ns)).length < n) (results : List String) :
    ∃ found, s.walk fs start n (s.pathAt ns) x results = some (.ok (results ++ found)) ∧
      found.Perm ((listedAt fs metaSuffix id start (fs.placeOf s.basePath)
          (fs.placeOf s.basePath ++ ns)).toList ++
        (fs.below (fs.placeOf s.basePath ++ ns)).filterMap
          (listedAt fs metaSuffix id start (fs.placeOf s.basePath))) := by
  induction n generalizing ns x results with
  | zero => exact absurd hn (Nat.not_lt_zero _)
  | succ n ih =>
    have hns := hnames.names hx
    rcases x with - | data
    · have hread : fs.readDir (s.pathAt ns) = .ok (fs.children (fs.placeOf s.basePath ++ ns)) := by
        rw [Fs.readDir, stat_pathAt hstat hnames hx, placeOf_pathAt hns]
      have hperm := List.mergeSort_perm (fs.children (fs.placeOf s.basePath ++ ns))
        fun a b => String.ofList a ≤ String.ofList b
      have hnone : listedAt fs metaSuffix id start (fs.placeOf s.basePath)
          (fs.placeOf s.basePath ++ ns) = none := by
        rw [listedAt, hx]
      rw [walk, readDirNames, hread, hnone]
      have hyield := Fs.filterMap_below_perm
        (listedAt fs metaSuffix id start (fs.placeOf s.basePath)) hperm
      refine (eachName_eq_ok _ _ (fun name hname results => ?_) results).imp fun found h =>
        ⟨h.1, h.2.trans hyield.symm⟩
      -- one entry of the directory
      have hchild := hperm.mem_iff.mp hname
      obtain ⟨y, hy⟩ := Fs.mem_children.mp hchild
      have hlonger := Fs.length_below_lt hchild
      rw [List.append_assoc] at hy hlonger
      rw [joinClean_pathAt (hnames.names hy), stat_pathAt hstat hnames hy, List.append_assoc]
      exact ih hy (by omega) results
    · rcases List.eq_nil_or_concat' ns with rfl | ⟨ns, name, rfl⟩
      · rw [List.append_nil, Fs.node_of_stat hstat] at hx
        cases hx
      · rw [← List.append_assoc] at hx ⊢
        refine ⟨_, congrArg some (visit_pathAt hns hx results), ?_⟩
        rw [Fs.below_of_file hx, List.filterMap_nil, List.append_nil]

/-- `List` returns a result, if it has enough fuel. -/
def ListReturns (s : LocalBlobStore) (fs : Fs) (start : Option String)
    (r : Except String (List String)) : Prop :=
  ∃ fuel, ∀ n ≥ fuel, s.list fs none start n = some r

/-- Under a base path that leads to a directory, `List` returns what is listed of the places below
it. -/
theorem listReturns_listing (start : Option String) (hstat : fs.stat s.basePath = .ok .dir)
    (hnames : fs.ProperBelow (fs.placeOf s.basePath)) :
    s.ListReturns fs start (.ok (listing fs metaSuffix id start (fs.placeOf s.basePath))) := by
  have hroot : fs.node (fs.placeOf s.basePath ++ []) = some .dir := by
    rw [List.append_nil, Fs.node_of_stat hstat]
  refine ⟨(fs.below (fs.placeOf s.basePath)).length + 1, fun n hn => ?_⟩
  obtain ⟨found, hwalk, hperm⟩ := walk_pathAt start hstat hnames n hroot
    (by rw [List.append_nil]; omega) []
  have hnone : listedAt fs metaSuffix id start (fs.placeOf s.basePath)
      (fs.placeOf s.basePath) = none := by
    rw [listedAt, Fs.node_of_stat hstat]
  rw [List.append_nil, hnone, Option.toList_none, List.nil_append] at hperm
  rw [list, hstat]
  simp only
  rw [show s.pathAt [] = s.basePath from rfl] at hwalk
  rw [hwalk, listing, ← mergeSort_eq_of_perm hperm]
  rfl

end LocalBlobStore

end Go

end GoyStore
