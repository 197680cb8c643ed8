import GoyStore.Library.FileTree

/-!
# Cleaned paths on a tree

Without links a path and its cleaned form spell the same place (`place_cleanParts`).  They need not
lead to the same: `a/../b` leads nowhere if there is no `a`, and `b` may still be there.

A cleaned base followed by names goes up first, and then only down, so that what it leads to is what
stands at the place of the base followed by the names (`stat_render_eq_ok_iff`).  The same place is
spelled by a path that is joined to the base as it is (`placeOf_join`).
-/

namespace FileTree

open UnixPath

namespace Fs

variable {fs : Fs}

/-- What a piece does to the parts before it, it does to the place that they spell. -/
lemma place_cleanStep {l : Place} {rooted : Bool} {parts : List (List Char)}
    (hroot : rooted = true → l = []) (h : Normal rooted parts) (q : List Char) :
    place l (cleanStep rooted parts q) = follow (place l parts) q := by
  rcases piece_cases q with hskip | hname | rfl
  · rw [cleanStep_skip _ _ hskip, follow_skip hskip]
  · rw [cleanStep_name _ _ hname, place_append]
    rfl
  · obtain ⟨n, names, rfl, hrooted, hnames⟩ := h
    rcases List.eq_nil_or_concat' names with rfl | ⟨names, name, rfl⟩
    · rw [List.append_nil]
      cases n with
      | zero =>
        rw [List.replicate_zero, cleanStep_dots_nil]
        cases rooted with
        | true =>
          rw [hroot rfl]
          rfl
        | false => rfl
      | succ n =>
        rw [List.replicate_succ', cleanStep_dots_dots, place_append]
        rfl
    · obtain ⟨hname, -⟩ := hnames name (by simp)
      have hlast : place l (List.replicate n dots ++ names ++ [name]) =
          place l (List.replicate n dots ++ names) ++ [name] := by
        rw [place_append]
        exact follow_name hname
      rw [← List.append_assoc, cleanStep_dots_name _ _ hname, hlast, follow, if_neg (by decide),
        if_pos rfl, List.dropLast_concat]

/-- A path and its cleaned form spell the same place. -/
theorem place_cleanParts (fs : Fs) (p : Path) :
    place (fs.start p) (cleanParts p) = fs.placeOf p := by
  have hroot : isAbsolute p = true → fs.start p = [] := fun habs => if_pos habs
  suffices hfold : ∀ (qs parts : List (List Char)), (∀ q ∈ qs, '/' ∉ q) →
      Normal (isAbsolute p) parts →
      place (fs.start p) (qs.foldl (cleanStep (isAbsolute p)) parts) =
        place (place (fs.start p) parts) qs from
    hfold _ _ (fun q hq => slash_notMem_of_mem_pieces hq) ⟨0, [], rfl, fun _ => rfl, by simp⟩
  intro qs
  induction qs with
  | nil => exact fun _ _ _ => rfl
  | cons q qs ih =>
    intro parts hqs hparts
    rw [List.foldl_cons, ih _ (fun q' hq' => hqs q' (List.mem_cons_of_mem q hq'))
      (normal_cleanStep hparts (hqs q List.mem_cons_self)), place_cleanStep hroot hparts,
      place_cons]

/-- Names go down. -/
lemma place_names (l : Place) {ns : List (List Char)} (hns : ∀ q ∈ ns, IsName q) :
    place l ns = l ++ ns := by
  induction ns generalizing l with
  | nil => exact (List.append_nil l).symm
  | cons q ns ih =>
    rw [place_cons, follow_name (hns q List.mem_cons_self),
      ih _ fun q' hq' => hns q' (List.mem_cons_of_mem q hq'), List.append_assoc,
      List.singleton_append]

/-- Without `..`, a piece stays or goes down. -/
lemma place_of_plain (l : Place) {qs : List (List Char)} (hqs : dots ∉ qs) :
    place l qs = l ++ qs.filter fun q => q ≠ [] ∧ q ≠ ['.'] := by
  induction qs generalizing l with
  | nil => exact (List.append_nil l).symm
  | cons q qs ih =>
    have hq : q ≠ dots := fun h => hqs (h ▸ List.mem_cons_self)
    rw [place_cons, ih _ fun hmem => hqs (List.mem_cons_of_mem q hmem)]
    rcases piece_cases q with hskip | hname | hup
    · rw [follow_skip hskip, List.filter_cons_of_neg (by simp; tauto)]
    · rw [follow_name hname, List.filter_cons_of_pos (by simpa using ⟨hname.1, hname.2.1⟩),
        List.append_assoc, List.singleton_append]
    · exact absurd hup hq

variable {base : Path} {ns : List (List Char)}

/-! ### Joined paths -/

/-- The place of a path without `..` that is joined to a base. -/
theorem placeOf_join (fs : Fs) {p : Path} (hbase : base ≠ []) (hp : ¬ isAbsolute p)
    (hdots : dots ∉ pieces p) : fs.placeOf (join base p) = fs.placeOf base ++ names p := by
  obtain ⟨qs, hpieces, hfront⟩ := exists_pieces_join hbase hp
  have hplace : place (fs.start base) qs = fs.placeOf base := by
    rcases hfront with hsame | hslash
    · rw [placeOf, hsame]
    · rw [placeOf, hslash, place_append]
      exact (follow_skip (Or.inl rfl)).symm
  rw [placeOf, hpieces, start, isAbsolute_join hbase hp, ← start, place_append, hplace,
    place_of_plain _ hdots]
  rfl

/-- The place of a cleaned base followed by names. -/
theorem placeOf_render (fs : Fs) (hns : ∀ q ∈ ns, IsName q ∧ '/' ∉ q) :
    fs.placeOf (render (isAbsolute base) (cleanParts base ++ ns)) = fs.placeOf base ++ ns := by
  have hnormal := (normal_cleanParts base).append hns
  have hstart : fs.start (render (isAbsolute base) (cleanParts base ++ ns)) = fs.start base := by
    rw [start, start, isAbsolute_render hnormal]
  rw [← place_cleanParts, cleanParts_render hnormal, hstart, place_append, place_cleanParts,
    place_names _ fun q hq => (hns q hq).1]

/-- A cleaned base followed by names ends in a name. -/
lemma exists_name_render (hne : ns ≠ []) (hns : ∀ q ∈ ns, IsName q ∧ '/' ∉ q) :
    ∃ name, IsName name ∧ pieces (render (isAbsolute base) (cleanParts base ++ ns)) =
      (pieces (render (isAbsolute base) (cleanParts base ++ ns))).dropLast ++ [name] := by
  obtain ⟨ns, name, rfl⟩ := (List.eq_nil_or_concat' ns).resolve_left hne
  refine ⟨name, (hns name (by simp)).1, ?_⟩
  rw [pieces_render ((normal_cleanParts base).append hns) (by simp), ← List.append_assoc,
    ← List.append_assoc, List.dropLast_concat]

/-- A cleaned base followed by names goes up first, and then down along names only. -/
theorem anchored_render (base : Path) (hne : ns ≠ []) (hns : ∀ q ∈ ns, IsName q ∧ '/' ∉ q) :
    ∃ qs rs, rs ≠ [] ∧ ∀ fs : Fs,
      Anchored fs (render (isAbsolute base) (cleanParts base ++ ns)) qs rs
        (place (fs.start (render (isAbsolute base) (cleanParts base ++ ns))) qs) := by
  have hnormal := (normal_cleanParts base).append hns
  obtain ⟨n, names, hparts, -, hnames⟩ := normal_cleanParts base
  have hups : ∀ q ∈ (if isAbsolute base then [[]] else []) ++ List.replicate n dots,
      ¬ IsName q := by
    intro q hq
    rcases List.mem_append.mp hq with hroot | hdots
    · split_ifs at hroot
      · obtain rfl := List.mem_singleton.mp hroot
        decide
      · cases hroot
    · obtain rfl := List.eq_of_mem_replicate hdots
      decide
  refine ⟨(if isAbsolute base then [[]] else []) ++ List.replicate n dots, names ++ ns,
    fun hnil => hne (List.append_eq_nil_iff.mp hnil).2, fun fs => ?_⟩
  obtain ⟨hwalk, hdir⟩ := walk_of_no_names hups
    (fs.node_start (render (isAbsolute base) (cleanParts base ++ ns)))
  refine ⟨?_, ?_, hwalk, hdir⟩
  · rw [pieces_render hnormal fun hnil => hne (List.append_eq_nil_iff.mp hnil).2, hparts]
    simp
  · intro hmem
    rcases List.mem_append.mp hmem with hold | hnew
    · exact (hnames dots hold).1.2.2 rfl
    · exact (hns dots hnew).1.2.2 rfl

/-- A cleaned base followed by names leads to what stands at the names. -/
theorem stat_render_eq_ok_iff (fs : Fs) (hne : ns ≠ []) (hns : ∀ q ∈ ns, IsName q ∧ '/' ∉ q)
    {x : Node} :
    fs.stat (render (isAbsolute base) (cleanParts base ++ ns)) = .ok x ↔
      fs.node (fs.placeOf base ++ ns) = some x := by
  obtain ⟨qs, rs, hrs, hanchored⟩ := anchored_render base hne hns
  rw [(hanchored fs).stat_eq_ok_iff hrs (exists_name_render hne hns), placeOf_render fs hns]

end Fs

end FileTree
