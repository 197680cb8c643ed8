import GoyStore.Library.UnixPath

/-!
# Lexical normalization of Unix paths

`clean` rewrites a path to the shortest one with the same lexical meaning: empty pieces and `.` are
dropped, a `..` cancels the name before it, and one at the root is dropped.  `joinClean` joins two
paths and cleans the result, `dir` is the directory of a path, and `relative` is the path from one
place to another.

The parts of a cleaned path are some `..`, none if it is absolute, followed by names
(`normal_cleanParts`), and cleaning it again finds the same parts (`cleanParts_render`).
-/

namespace UnixPath

/-- The piece `..`. -/
abbrev dots : List Char := ['.', '.']

/-- The piece stands for a name. -/
def IsName (q : List Char) : Prop := q ≠ [] ∧ q ≠ ['.'] ∧ q ≠ dots

instance (q : List Char) : Decidable (IsName q) := inferInstanceAs (Decidable (_ ∧ _ ∧ _))

/-- What a piece does to the parts before it. -/
def cleanStep (rooted : Bool) (parts : List (List Char)) (q : List Char) : List (List Char) :=
  if q = [] ∨ q = ['.'] then parts
  else if q = dots then
    match parts.getLast? with
    | none => if rooted then [] else [dots]
    | some last => if last = dots then parts ++ [dots] else parts.dropLast
  else parts ++ [q]

/-- The parts of the cleaned path. -/
def cleanParts (p : Path) : List (List Char) := (pieces p).foldl (cleanStep (isAbsolute p)) []

/-- The path with the given parts. -/
def render (rooted : Bool) (parts : List (List Char)) : Path :=
  if rooted then '/' :: ['/'].intercalate parts
  else if parts = [] then ['.']
  else ['/'].intercalate parts

/-- The shortest path with the same lexical meaning. -/
def clean (p : Path) : Path := render (isAbsolute p) (cleanParts p)

/-- Join two paths, the first of which may be empty, and clean the result. -/
def joinClean (base p : Path) : Path :=
  if base = [] then (if p = [] then [] else clean p)
  else if p = [] then clean base
  else clean (base ++ '/' :: p)

/-- The text of a path up to its last slash. -/
def upToSlash (p : Path) : Path := (p.reverse.dropWhile (· ≠ '/')).reverse

/-- The directory of a path. -/
def dir (p : Path) : Path := clean (upToSlash p)

/-- The pieces of a path that are neither empty nor `.`. -/
def names (p : Path) : List (List Char) := (pieces p).filter fun q => q ≠ [] ∧ q ≠ ['.']

/-- What is left of two lists after their longest common prefix. -/
def afterCommon : List (List Char) → List (List Char) → List (List Char) × List (List Char)
  | a :: as, b :: bs => if a = b then afterCommon as bs else (a :: as, b :: bs)
  | as, bs => (as, bs)

/-- The path from `base` to `target`; `none` if there is none that depends on the texts only. -/
def relative (base target : Path) : Option Path :=
  if clean target = clean base then some ['.']
  else if isAbsolute base ≠ isAbsolute target then none
  else
    let rest := afterCommon (cleanParts base) (cleanParts target)
    if rest.1.head? = some dots then none
    else some (['/'].intercalate (rest.1.map (fun _ => dots) ++ rest.2))

/-- The parts of a cleaned path: some `..`, none if it is absolute, and then names. -/
def Normal (rooted : Bool) (parts : List (List Char)) : Prop :=
  ∃ n names, parts = List.replicate n dots ++ names ∧ (rooted = true → n = 0) ∧
    ∀ q ∈ names, IsName q ∧ '/' ∉ q

/-- The path starts where the base does, and goes on from it with one name or more. -/
def StrictlyBelow (base path : Path) : Prop :=
  isAbsolute path = isAbsolute base ∧ ∃ names, names ≠ [] ∧ (∀ q ∈ names, IsName q ∧ '/' ∉ q) ∧
    cleanParts path = cleanParts base ++ names

/-! ### Names -/

/-- A piece that stands for a name has the name as its component. -/
lemma pieceComponent_of_isName {q : List Char} (h : IsName q) :
    pieceComponent q = some (.normal q) := by
  obtain ⟨hnil, hdot, hdots⟩ := h
  rcases pieceComponent_cases q with ⟨hskip, -⟩ | ⟨hup, -⟩ | hname
  · exact (hskip.elim hnil hdot).elim
  · exact absurd hup hdots
  · exact hname

/-- A piece with more than two characters is a name. -/
lemma isName_of_long {q : List Char} (h : 2 < q.length) : IsName q := by
  refine ⟨?_, ?_, ?_⟩
  all_goals
    rintro rfl
    simp at h

/-- A path whose last piece is a name is not empty. -/
lemma ne_nil_of_pieces {p : Path} {qs : List (List Char)} {q : List Char} (hq : IsName q)
    (h : pieces p = qs ++ [q]) : p ≠ [] := by
  rintro rfl
  have hempty : [] ++ [[]] = qs ++ [q] := h
  exact hq.1 (List.cons.inj (List.append_inj' hempty rfl).2).1.symm

/-- A name without slashes is a relative path. -/
lemma not_isAbsolute_of_no_slash {q : List Char} (h : '/' ∉ q) : ¬ isAbsolute q :=
  fun habs => h (List.mem_of_mem_head? (beq_iff_eq.mp habs))

/-- A name that is joined to a base is one more component. -/
lemma components_join_name {base : Path} (hbase : base ≠ []) {q : List Char} (h : IsName q)
    (hslash : '/' ∉ q) : components (join base q) = components base ++ [.normal q] := by
  obtain ⟨front, hjoin, hfront, -⟩ := exists_join_eq hbase (not_isAbsolute_of_no_slash hslash)
  rw [hjoin, components_append_slash, hfront, pieces_of_no_slash hslash, List.filterMap_cons,
    pieceComponent_of_isName h]
  rfl

/-! ### Cleaning -/

/-- A name is appended. -/
lemma cleanStep_name (rooted : Bool) (parts : List (List Char)) {q : List Char} (h : IsName q) :
    cleanStep rooted parts q = parts ++ [q] := by
  obtain ⟨hnil, hdot, hdots⟩ := h
  rw [cleanStep, if_neg (by simp [hnil, hdot]), if_neg hdots]

/-- Names are appended. -/
lemma foldl_cleanStep_names (rooted : Bool) (parts : List (List Char)) {names : List (List Char)}
    (h : ∀ q ∈ names, IsName q) : names.foldl (cleanStep rooted) parts = parts ++ names := by
  induction names generalizing parts with
  | nil => simp
  | cons q names ih =>
    rw [List.foldl_cons, cleanStep_name rooted parts (h q List.mem_cons_self),
      ih _ fun q' hq' => h q' (List.mem_cons_of_mem q hq')]
    simp

/-- The pieces of a path have no slash. -/
lemma slash_notMem_of_mem_pieces {p : Path} {q : List Char} (h : q ∈ pieces p) : '/' ∉ q := by
  induction p generalizing q with
  | nil =>
    obtain rfl : q = [] := by simpa [pieces] using h
    simp
  | cons ch p ih =>
    by_cases hch : ch = '/'
    · subst hch
      rw [show pieces ('/' :: p) = [] :: pieces p from pieces_append_slash [] p] at h
      rcases List.mem_cons.mp h with rfl | htail
      · simp
      · exact ih htail
    · have hcons : pieces (ch :: p) = (pieces p).modifyHead (List.cons ch) := by
        simp [pieces, List.splitOn_cons_eq_if_modifyHead, hch]
      rw [hcons] at h
      cases hp : pieces p with
      | nil => exact absurd hp (pieces_ne_nil p)
      | cons first rest =>
        rw [hp] at h ih
        rcases List.mem_cons.mp h with rfl | htail
        · have hfirst := ih List.mem_cons_self
          simp [Ne.symm hch, hfirst]
        · exact ih (List.mem_cons_of_mem first htail)

/-- An empty piece and a `.` are dropped. -/
lemma cleanStep_skip (rooted : Bool) (parts : List (List Char)) {q : List Char}
    (h : q = [] ∨ q = ['.']) : cleanStep rooted parts q = parts := if_pos h

/-- Without `..`, what is neither empty nor `.` is appended. -/
lemma foldl_cleanStep_no_dots (rooted : Bool) (parts : List (List Char)) {qs : List (List Char)}
    (h : dots ∉ qs) :
    qs.foldl (cleanStep rooted) parts = parts ++ qs.filter fun q => q ≠ [] ∧ q ≠ ['.'] := by
  induction qs generalizing parts with
  | nil => simp
  | cons q qs ih =>
    have hq : q ≠ dots := fun heq => h (heq ▸ List.mem_cons_self)
    have hqs : dots ∉ qs := fun hmem => h (List.mem_cons_of_mem q hmem)
    rw [List.foldl_cons, ih _ hqs]
    by_cases hskip : q = [] ∨ q = ['.']
    · rw [cleanStep_skip rooted _ hskip, List.filter_cons_of_neg (by simp; tauto)]
    · push Not at hskip
      rw [cleanStep_name rooted _ ⟨hskip.1, hskip.2, hq⟩, List.filter_cons_of_pos (by simp [hskip])]
      simp

/-- The names of a path without `..`. -/
lemma isName_of_mem_names {p : Path} (h : dots ∉ pieces p) {q : List Char} (hq : q ∈ names p) :
    IsName q ∧ '/' ∉ q := by
  obtain ⟨hmem, hkeep⟩ := List.mem_filter.mp hq
  have hkeep' : q ≠ [] ∧ q ≠ ['.'] := by simpa using hkeep
  refine ⟨⟨hkeep'.1, hkeep'.2, fun heq => h (heq ▸ hmem)⟩, slash_notMem_of_mem_pieces hmem⟩

/-- A `..` at the start. -/
lemma cleanStep_dots_nil (rooted : Bool) :
    cleanStep rooted [] dots = if rooted then [] else [dots] := rfl

/-- A `..` after another. -/
lemma cleanStep_dots_dots (rooted : Bool) (parts : List (List Char)) :
    cleanStep rooted (parts ++ [dots]) dots = parts ++ [dots] ++ [dots] := by
  simp [cleanStep]

/-- A `..` after a name. -/
lemma cleanStep_dots_name (rooted : Bool) (parts : List (List Char)) {q : List Char}
    (h : IsName q) : cleanStep rooted (parts ++ [q]) dots = parts := by
  have hne : q ≠ ['.', '.'] := h.2.2
  simp [cleanStep, hne]

/-- The parts of a path without `..` that is put under the root are its names. -/
lemma cleanParts_slash {p : Path} (h : dots ∉ pieces p) : cleanParts ('/' :: p) = names p := by
  have hpieces : pieces ('/' :: p) = [] :: pieces p := pieces_append_slash [] p
  rw [cleanParts, hpieces, List.foldl_cons, cleanStep_skip _ _ (Or.inl rfl),
    foldl_cleanStep_no_dots _ _ h, List.nil_append]
  rfl

/-- What a piece without slashes does keeps the parts normal. -/
lemma normal_cleanStep {rooted : Bool} {parts : List (List Char)} (h : Normal rooted parts)
    {q : List Char} (hq : '/' ∉ q) : Normal rooted (cleanStep rooted parts q) := by
  obtain ⟨n, names, rfl, hroot, hnames⟩ := h
  by_cases hskip : q = [] ∨ q = ['.']
  · rw [cleanStep_skip rooted _ hskip]
    exact ⟨n, names, rfl, hroot, hnames⟩
  push Not at hskip
  by_cases hdots : q = dots
  · subst hdots
    rcases List.eq_nil_or_concat' names with rfl | ⟨init, last, rfl⟩
    · rw [List.append_nil]
      cases n with
      | zero =>
        rw [List.replicate_zero, cleanStep_dots_nil]
        cases rooted with
        | true => exact ⟨0, [], rfl, fun _ => rfl, by simp⟩
        | false => exact ⟨1, [], rfl, nofun, by simp⟩
      | succ n =>
        rw [List.replicate_succ', cleanStep_dots_dots]
        refine ⟨n + 2, [], ?_, fun hrooted => absurd (hroot hrooted) (Nat.succ_ne_zero n), by simp⟩
        rw [List.append_nil, List.replicate_succ', List.replicate_succ']
    · rw [← List.append_assoc, cleanStep_dots_name rooted _ (hnames last (by simp)).1]
      exact ⟨n, init, rfl, hroot, fun q hq => hnames q (by simp [hq])⟩
  · have hname : IsName q := ⟨hskip.1, hskip.2, hdots⟩
    rw [cleanStep_name rooted _ hname]
    refine ⟨n, names ++ [q], by simp, hroot, fun q' hq' => ?_⟩
    rcases List.mem_append.mp hq' with hold | hnew
    · exact hnames q' hold
    · obtain rfl := List.mem_singleton.mp hnew
      exact ⟨hname, hq⟩

/-- The parts of a cleaned path are normal. -/
theorem normal_cleanParts (p : Path) : Normal (isAbsolute p) (cleanParts p) := by
  have hfold : ∀ (qs parts : List (List Char)), (∀ q ∈ qs, '/' ∉ q) → Normal (isAbsolute p) parts →
      Normal (isAbsolute p) (qs.foldl (cleanStep (isAbsolute p)) parts) := by
    intro qs
    induction qs with
    | nil => exact fun _ _ h => h
    | cons q qs ih =>
      intro parts hqs hparts
      exact ih _ (fun q' hq' => hqs q' (List.mem_cons_of_mem q hq'))
        (normal_cleanStep hparts (hqs q List.mem_cons_self))
  exact hfold _ _ (fun q hq => slash_notMem_of_mem_pieces hq) ⟨0, [], rfl, fun _ => rfl, by simp⟩

/-! ### Rendering -/

/-- The pieces of parts with slashes between them. -/
lemma pieces_intercalate {parts : List (List Char)} (hne : parts ≠ [])
    (h : ∀ q ∈ parts, '/' ∉ q) : pieces (['/'].intercalate parts) = parts :=
  List.splitOn_intercalate '/' h hne

/-- The parts of a normal form have no slash, and none is empty or `.`. -/
lemma Normal.mem {rooted : Bool} {parts : List (List Char)} (h : Normal rooted parts)
    {q : List Char} (hq : q ∈ parts) : '/' ∉ q ∧ q ≠ [] ∧ q ≠ ['.'] := by
  obtain ⟨n, names, rfl, -, hnames⟩ := h
  rcases List.mem_append.mp hq with hdots | hname
  · obtain rfl := List.eq_of_mem_replicate hdots
    decide
  · obtain ⟨⟨hnil, hdot, -⟩, hslash⟩ := hnames q hname
    exact ⟨hslash, hnil, hdot⟩

/-- Cleaning starts over from a normal form. -/
lemma foldl_cleanStep_normal {rooted : Bool} {parts : List (List Char)}
    (h : Normal rooted parts) : parts.foldl (cleanStep rooted) [] = parts := by
  obtain ⟨n, names, rfl, hroot, hnames⟩ := h
  have hdots : (List.replicate n dots).foldl (cleanStep rooted) [] = List.replicate n dots := by
    induction n with
    | zero => rfl
    | succ n ih =>
      cases rooted with
      | true => exact absurd (hroot rfl) (Nat.succ_ne_zero n)
      | false =>
        rw [List.replicate_succ', List.foldl_append, ih nofun]
        cases n with
        | zero => rfl
        | succ n =>
          rw [List.replicate_succ']
          exact cleanStep_dots_dots false _
  rw [List.foldl_append, hdots, foldl_cleanStep_names rooted _ fun q hq => (hnames q hq).1]

/-- The first character of parts with slashes between them. -/
lemma head?_intercalate {q : List Char} {qs : List (List Char)} (hq : q ≠ []) :
    (['/'].intercalate (q :: qs)).head? = q.head? := by
  cases q with
  | nil => exact absurd rfl hq
  | cons ch q =>
    cases qs with
    | nil => simp [List.intercalate]
    | cons q' qs => simp [List.intercalate_cons_cons]

/-- A text without slashes that starts a list of parts starts its first part. -/
lemma prefix_of_prefix_intercalate {x q : List Char} {qs : List (List Char)} (hx : '/' ∉ x)
    (h : x <+: ['/'].intercalate (q :: qs)) : x <+: q := by
  cases qs with
  | nil => simpa [List.intercalate] using h
  | cons q' qs =>
    rw [List.intercalate_cons_cons] at h
    rcases Nat.lt_or_ge q.length x.length with hlt | hge
    · -- the slash after the first part would be in the text
      have hlong : q ++ ['/'] <+: x := by
        refine List.prefix_of_prefix_length_le (List.prefix_append _ _) h ?_
        rw [List.length_append, List.length_singleton]
        exact hlt
      exact absurd (hlong.subset (by simp)) hx
    · refine List.prefix_of_prefix_length_le h ?_ hge
      rw [List.append_assoc]
      exact List.prefix_append q _

/-- The rendered path is absolute as it should be. -/
lemma isAbsolute_render {rooted : Bool} {parts : List (List Char)} (h : Normal rooted parts) :
    isAbsolute (render rooted parts) = rooted := by
  unfold render
  cases rooted with
  | true => rfl
  | false =>
    rw [if_neg Bool.false_ne_true]
    cases hparts : parts with
    | nil => rfl
    | cons q qs =>
      rw [hparts] at h
      obtain ⟨hslash, hnil, -⟩ := h.mem List.mem_cons_self
      rw [if_neg (List.cons_ne_nil q qs), isAbsolute, head?_intercalate hnil]
      cases q with
      | nil => exact absurd rfl hnil
      | cons ch q =>
        have hch : ch ≠ '/' := fun heq => hslash (by simp [heq])
        simp [hch]

/-- Cleaning a rendered path finds its parts. -/
theorem cleanParts_render {rooted : Bool} {parts : List (List Char)} (h : Normal rooted parts) :
    cleanParts (render rooted parts) = parts := by
  rw [cleanParts, isAbsolute_render h]
  unfold render
  by_cases hnil : parts = []
  · subst hnil
    cases rooted <;> rfl
  · have hpieces := pieces_intercalate hnil fun q hq => (h.mem hq).1
    cases rooted with
    | true =>
      have hslash : pieces ('/' :: ['/'].intercalate parts) = [] :: parts := by
        rw [show pieces ('/' :: ['/'].intercalate parts) = [] :: pieces (['/'].intercalate parts)
          from pieces_append_slash [] _, hpieces]
      rw [if_pos rfl, hslash, List.foldl_cons, cleanStep_skip true [] (Or.inl rfl),
        foldl_cleanStep_normal h]
    | false => rw [if_neg Bool.false_ne_true, if_neg hnil, hpieces, foldl_cleanStep_normal h]

/-- Names are joined to the parts of the base. -/
theorem joinClean_names {base : Path} (hbase : base ≠ []) {names : List (List Char)}
    (hne : names ≠ []) (hnames : ∀ q ∈ names, IsName q ∧ '/' ∉ q) :
    joinClean base (['/'].intercalate names) =
      render (isAbsolute base) (cleanParts base ++ names) := by
  have hpieces := pieces_intercalate hne fun q hq => (hnames q hq).2
  have htext : ['/'].intercalate names ≠ [] := by
    intro hempty
    rw [hempty] at hpieces
    have hnil : ([] : List Char) ∈ names := by
      rw [← hpieces]
      exact List.mem_singleton_self _
    exact (hnames [] hnil).1.1 rfl
  have habs : isAbsolute (base ++ '/' :: ['/'].intercalate names) = isAbsolute base := by
    cases base with
    | nil => exact absurd rfl hbase
    | cons ch base => rfl
  rw [joinClean, if_neg hbase, if_neg htext, clean, cleanParts, habs, pieces_append_slash,
    List.foldl_append, hpieces, foldl_cleanStep_names _ _ fun q hq => (hnames q hq).1]
  rfl

/-- After a list, nothing is left of it. -/
lemma afterCommon_append (as bs : List (List Char)) : afterCommon as (as ++ bs) = ([], bs) := by
  induction as with
  | nil => cases bs <;> rfl
  | cons a as ih => rw [List.cons_append, afterCommon, if_pos rfl, ih]

/-- Names after a normal form make a normal form. -/
lemma Normal.append {rooted : Bool} {parts names : List (List Char)} (h : Normal rooted parts)
    (hnames : ∀ q ∈ names, IsName q ∧ '/' ∉ q) : Normal rooted (parts ++ names) := by
  obtain ⟨n, names₀, rfl, hroot, hnames₀⟩ := h
  refine ⟨n, names₀ ++ names, List.append_assoc _ _ _, hroot, fun q hq => ?_⟩
  rcases List.mem_append.mp hq with hold | hnew
  · exact hnames₀ q hold
  · exact hnames q hnew

/-- A base that is followed by names is above the path. -/
lemma strictlyBelow_render {base : Path} {names : List (List Char)} (hne : names ≠ [])
    (hnames : ∀ q ∈ names, IsName q ∧ '/' ∉ q) :
    StrictlyBelow base (render (isAbsolute base) (cleanParts base ++ names)) := by
  have hnormal := (normal_cleanParts base).append hnames
  exact ⟨isAbsolute_render hnormal, names, hne, hnames, cleanParts_render hnormal⟩

/-- Different names after a base make different paths. -/
lemma render_append_inj {base : Path} {names names' : List (List Char)}
    (hnames : ∀ q ∈ names, IsName q ∧ '/' ∉ q) (hnames' : ∀ q ∈ names', IsName q ∧ '/' ∉ q) :
    render (isAbsolute base) (cleanParts base ++ names) =
      render (isAbsolute base) (cleanParts base ++ names') ↔ names = names' := by
  refine ⟨fun heq => ?_, fun heq => by rw [heq]⟩
  have hparts := congrArg cleanParts heq
  rw [cleanParts_render ((normal_cleanParts base).append hnames),
    cleanParts_render ((normal_cleanParts base).append hnames')] at hparts
  exact List.append_cancel_left hparts

/-- The names after a base are a relative path from it. -/
theorem relative_render {base : Path} {names : List (List Char)} (hne : names ≠ [])
    (hnames : ∀ q ∈ names, IsName q ∧ '/' ∉ q) :
    relative base (render (isAbsolute base) (cleanParts base ++ names)) =
      some (['/'].intercalate names) := by
  have hbase := normal_cleanParts base
  have htarget := hbase.append hnames
  have hparts := cleanParts_render htarget
  have habs := isAbsolute_render htarget
  have hclean : clean (render (isAbsolute base) (cleanParts base ++ names)) ≠ clean base := by
    intro heq
    rw [clean, clean, hparts, habs] at heq
    have hsame := congrArg cleanParts heq
    rw [cleanParts_render htarget, cleanParts_render hbase] at hsame
    exact hne (List.append_right_eq_self.mp hsame)
  rw [relative, if_neg hclean, if_neg (not_not_intro habs.symm), hparts, afterCommon_append]
  simp

/-- The text up to the slash before a last part. -/
lemma upToSlash_append {p q : Path} (hq : '/' ∉ q) : upToSlash (p ++ '/' :: q) = p ++ ['/'] := by
  have hall : ∀ ch ∈ q.reverse, (decide (ch ≠ '/')) = true := by
    intro ch hch
    rw [decide_eq_true_iff]
    rintro rfl
    exact hq (List.mem_reverse.mp hch)
  have hreverse : (p ++ '/' :: q).reverse = q.reverse ++ '/' :: p.reverse := by simp
  rw [upToSlash, hreverse, List.dropWhile_append_of_pos hall, List.dropWhile_cons_of_neg (by simp)]
  simp

/-- A text without slashes has nothing before it. -/
lemma upToSlash_of_no_slash {q : Path} (hq : '/' ∉ q) : upToSlash q = [] := by
  have hall : ∀ ch ∈ q.reverse, (decide (ch ≠ '/')) = true := by
    intro ch hch
    rw [decide_eq_true_iff]
    rintro rfl
    exact hq (List.mem_reverse.mp hch)
  rw [upToSlash, ← List.append_nil q.reverse, List.dropWhile_append_of_pos hall]
  rfl

/-- One more part. -/
lemma intercalate_concat {parts : List (List Char)} (hne : parts ≠ []) (q : List Char) :
    ['/'].intercalate (parts ++ [q]) = ['/'].intercalate parts ++ '/' :: q := by
  induction parts with
  | nil => exact absurd rfl hne
  | cons a parts ih =>
    cases parts with
    | nil => simp [List.intercalate]
    | cons b parts =>
      have htail := ih (List.cons_ne_nil b parts)
      rw [List.cons_append, List.cons_append, List.intercalate_cons_cons, ← List.cons_append, htail,
        List.intercalate_cons_cons]
      simp

/-- A slash at the end is dropped. -/
lemma clean_append_slash {p : Path} (hp : p ≠ []) : clean (p ++ ['/']) = clean p := by
  have habs : isAbsolute (p ++ ['/']) = isAbsolute p := by
    cases p with
    | nil => exact absurd rfl hp
    | cons ch p => rfl
  have hparts : cleanParts (p ++ ['/']) = cleanParts p := by
    rw [cleanParts, cleanParts, habs, pieces_append_slash, List.foldl_append]
    rfl
  rw [clean, clean, habs, hparts]

/-- A rendered path is clean. -/
lemma clean_render {rooted : Bool} {parts : List (List Char)} (h : Normal rooted parts) :
    clean (render rooted parts) = render rooted parts := by
  rw [clean, isAbsolute_render h, cleanParts_render h]

/-- No part of a normal form is dropped. -/
lemma Normal.filter_eq {rooted : Bool} {parts : List (List Char)} (h : Normal rooted parts) :
    parts.filter (fun q => q ≠ [] ∧ q ≠ ['.']) = parts := by
  apply List.filter_eq_self.mpr
  intro q hq
  have hkept := (h.mem hq).2
  simpa using hkept

/-- The pieces of a rendered path. -/
lemma pieces_render {rooted : Bool} {parts : List (List Char)} (h : Normal rooted parts)
    (hne : parts ≠ []) :
    pieces (render rooted parts) = (if rooted then [[]] else []) ++ parts := by
  have hparts := pieces_intercalate hne fun q hq => (h.mem hq).1
  cases rooted with
  | false =>
    rw [render, if_neg Bool.false_ne_true, if_neg hne, hparts]
    rfl
  | true =>
    have hslash := pieces_append_slash [] (['/'].intercalate parts)
    rw [hparts] at hslash
    exact hslash

/-- The pieces of a rendered path that are neither empty nor `.`. -/
lemma filter_pieces_render {rooted : Bool} {parts : List (List Char)} (h : Normal rooted parts) :
    (pieces (render rooted parts)).filter (fun q => q ≠ [] ∧ q ≠ ['.']) = parts := by
  by_cases hne : parts = []
  · subst hne
    cases rooted <;> decide
  · rw [pieces_render h hne, List.filter_append, h.filter_eq]
    split_ifs <;> rfl

/-- A rendered path is not empty. -/
lemma render_ne_nil {rooted : Bool} {parts : List (List Char)} (h : Normal rooted parts) :
    render rooted parts ≠ [] := by
  intro hempty
  have hparts := cleanParts_render h
  have habs := isAbsolute_render h
  rw [hempty] at hparts habs
  have hnil : parts = [] := hparts.symm
  have hrooted : rooted = false := habs.symm
  rw [hnil, hrooted] at hempty
  exact absurd hempty (by decide)

/-- The directory of a rendered path. -/
theorem dir_render {rooted : Bool} {parts : List (List Char)} {q : List Char}
    (h : Normal rooted parts) (hq : '/' ∉ q) :
    dir (render rooted (parts ++ [q])) = render rooted parts := by
  by_cases hnil : parts = []
  · subst hnil
    cases rooted with
    | true =>
      have hrender : render true ([] ++ [q]) = [] ++ '/' :: q := by simp [render, List.intercalate]
      rw [hrender, dir, upToSlash_append hq]
      rfl
    | false =>
      have hrender : render false ([] ++ [q]) = q := by simp [render, List.intercalate]
      rw [hrender, dir, upToSlash_of_no_slash hq]
      rfl
  · have hrender : render rooted (parts ++ [q]) = render rooted parts ++ '/' :: q := by
      unfold render
      rw [intercalate_concat hnil]
      cases rooted <;> simp [hnil]
    rw [hrender, dir, upToSlash_append hq, clean_append_slash (render_ne_nil h),
      clean_render h]

end UnixPath
