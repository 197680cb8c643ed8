import Mathlib.Data.List.Infix
import Mathlib.Tactic.SplitIfs

/-!
# Paths on a Unix file system, by their text

A path is the list of its characters; only `/` and `.` have a meaning, so a byte that is no
character of any encoding behaves as every other character does.  `components` normalizes as usual:
empty pieces and `.` are dropped, except for a `.` at the start of a relative path, and `..` is
kept.  `join` appends a relative path and lets an absolute path replace the base.

`Inside base p` says that the components of `p` are those of `base` followed by components none of
which is `..`.  A relative path without a piece `..` stays inside when it is joined
(`inside_join`); what a suffix does to the last piece is `components_append_suffix`.
-/

namespace UnixPath

/-- A path, as the list of its characters. -/
abbrev Path := List Char

/-- A component of a path. -/
inductive Component where
  /-- The root of an absolute path. -/
  | rootDir
  /-- A `.` at the start of a relative path. -/
  | curDir
  /-- A `..`. -/
  | parentDir
  /-- A name. -/
  | normal (name : List Char)
  deriving DecidableEq, Repr

/-- The path starts with `/`. -/
def isAbsolute (p : Path) : Bool := p.head? == some '/'

/-- The pieces between the slashes. -/
def pieces (p : Path) : List (List Char) := p.splitOn '/'

/-- The component that a piece stands for, if any. -/
def pieceComponent : List Char → Option Component
  | [] => none
  | ['.'] => none
  | ['.', '.'] => some .parentDir
  | name => some (.normal name)

/-- What a path starts with before its pieces. -/
def leading (p : Path) : List Component :=
  if isAbsolute p then [.rootDir]
  else if (pieces p).head? = some ['.'] then [.curDir]
  else []

/-- The components of a path. -/
def components (p : Path) : List Component :=
  leading p ++ (pieces p).filterMap pieceComponent

/-- Join a path to a base: a relative path is appended, an absolute path replaces the base. -/
def join (base p : Path) : Path :=
  if isAbsolute p then p
  else
    match base.getLast? with
    | none => p
    | some '/' => base ++ p
    | some _ => base ++ '/' :: p

/-- The components of the parent directory; `none` for the root and for the empty path. -/
def parent (p : Path) : Option (List Component) :=
  match (components p).getLast? with
  | none => none
  | some .rootDir => none
  | some _ => some (components p).dropLast

/-- The component that the last piece stands for, if any. -/
def lastComponent (p : Path) : Option Component := (pieces p).getLast?.bind pieceComponent

/-- The last piece of the path is a name, so that the path can be the path of a file. -/
def EndsInName (p : Path) : Prop := ∃ name, lastComponent p = some (.normal name)

/-- The components are those of `base` followed by components none of which is `..`. -/
def InsideDir (base : Path) (cs : List Component) : Prop :=
  ∃ rest, cs = components base ++ rest ∧ Component.parentDir ∉ rest

/-- The path is lexically inside `base`. -/
def Inside (base p : Path) : Prop := InsideDir base (components p)

/-! ### Pieces -/

/-- A path has at least one piece. -/
lemma pieces_ne_nil (p : Path) : pieces p ≠ [] := List.splitOn_ne_nil '/' p

/-- The pieces of two paths with a slash between them. -/
lemma pieces_append_slash (p q : Path) : pieces (p ++ '/' :: q) = pieces p ++ pieces q :=
  List.splitOn_append_cons_self p q

/-- A text without slashes is one piece. -/
lemma pieces_of_no_slash {p : Path} (h : '/' ∉ p) : pieces p = [p] := List.splitOn_eq_singleton h

/-- A path has a last piece, and a suffix without slashes is appended to it. -/
lemma exists_pieces_append (p : Path) : ∃ init last, pieces p = init ++ [last] ∧
    (∀ suffix : Path, '/' ∉ suffix → pieces (p ++ suffix) = init ++ [last ++ suffix]) := by
  induction p with
  | nil =>
    refine ⟨[], [], rfl, fun suffix hs => ?_⟩
    simpa using pieces_of_no_slash hs
  | cons ch p ih =>
    obtain ⟨init, last, hp, happend⟩ := ih
    by_cases hch : ch = '/'
    · subst hch
      refine ⟨[] :: init, last, ?_, fun suffix hs => ?_⟩
      · have h := pieces_append_slash [] p
        rw [hp] at h
        exact h
      · have h := pieces_append_slash [] (p ++ suffix)
        rw [happend suffix hs] at h
        exact h
    · -- the first piece gets one more character
      have hcons : ∀ q : Path, pieces (ch :: q) = (pieces q).modifyHead (List.cons ch) := by
        intro q
        simp [pieces, List.splitOn_cons_eq_if_modifyHead, hch]
      cases init with
      | nil =>
        refine ⟨[], ch :: last, ?_, fun suffix hs => ?_⟩
        · rw [hcons, hp]
          rfl
        · rw [List.cons_append, hcons, happend suffix hs]
          rfl
      | cons first init =>
        refine ⟨(ch :: first) :: init, last, ?_, fun suffix hs => ?_⟩
        · rw [hcons, hp]
          rfl
        · rw [List.cons_append, hcons, happend suffix hs]
          rfl

/-- A piece that stands for a name is that name, and no other piece has a component but `..`. -/
lemma pieceComponent_cases (q : List Char) :
    (q = [] ∨ q = ['.']) ∧ pieceComponent q = none ∨
      q = ['.', '.'] ∧ pieceComponent q = some .parentDir ∨
      pieceComponent q = some (.normal q) := by
  unfold pieceComponent
  split
  · exact Or.inl ⟨Or.inl rfl, rfl⟩
  · exact Or.inl ⟨Or.inr rfl, rfl⟩
  · exact Or.inr (Or.inl ⟨rfl, rfl⟩)
  · exact Or.inr (Or.inr rfl)

/-- A piece with more than two characters stands for a name. -/
lemma pieceComponent_of_long {q : List Char} (h : 2 < q.length) :
    pieceComponent q = some (.normal q) := by
  rcases pieceComponent_cases q with ⟨rfl | rfl, -⟩ | ⟨rfl, -⟩ | hname
  · simp at h
  · simp at h
  · simp at h
  · exact hname

/-- Without a piece `..` no component is `..`. -/
lemma parentDir_notMem_filterMap {qs : List (List Char)} (h : ['.', '.'] ∉ qs) :
    Component.parentDir ∉ qs.filterMap pieceComponent := by
  intro hmem
  obtain ⟨q, hq, hcomp⟩ := List.mem_filterMap.mp hmem
  rcases pieceComponent_cases q with ⟨-, hnone⟩ | ⟨rfl, -⟩ | hname
  · rw [hnone] at hcomp
    cases hcomp
  · exact h hq
  · rw [hname] at hcomp
    cases hcomp

/-- Each of the texts that are joined by a separator is a part of the result. -/
lemma infix_intercalate {q sep : List Char} {qs : List (List Char)} (h : q ∈ qs) :
    q <:+: sep.intercalate qs := by
  induction qs with
  | nil => cases h
  | cons x qs ih =>
    cases qs with
    | nil =>
      obtain rfl := List.mem_singleton.mp h
      simp [List.intercalate]
    | cons y qs =>
      rw [List.intercalate_cons_cons, List.append_assoc]
      rcases List.mem_cons.mp h with rfl | htail
      · exact (List.prefix_append _ _).isInfix
      · have hsuffix := (List.suffix_append sep (sep.intercalate (y :: qs))).isInfix
        exact (ih htail).trans (hsuffix.trans (List.suffix_append x _).isInfix)

/-- A piece is a part of the text of the path. -/
lemma infix_of_mem_pieces {p : Path} {q : List Char} (h : q ∈ pieces p) : q <:+: p := by
  have hinfix : q <:+: ['/'].intercalate (pieces p) := infix_intercalate h
  rwa [pieces, List.intercalate_splitOn] at hinfix

/-- A long suffix without slashes brings no piece `..`. -/
lemma dots_notMem_pieces_append {p suffix : Path} (hdots : ['.', '.'] ∉ pieces p)
    (hslash : '/' ∉ suffix) (hlong : 2 < suffix.length) : ['.', '.'] ∉ pieces (p ++ suffix) := by
  obtain ⟨init, last, hpieces, happend⟩ := exists_pieces_append p
  rw [happend suffix hslash]
  intro hmem
  rcases List.mem_append.mp hmem with hinit | hlast
  · exact hdots (by rw [hpieces]; exact List.mem_append_left _ hinit)
  · have hlength := congrArg List.length (List.mem_singleton.mp hlast)
    rw [List.length_append] at hlength
    simp only [List.length_cons, List.length_nil] at hlength
    omega

/-- A suffix without slashes does not make a path absolute. -/
lemma isAbsolute_append {p suffix : Path} (hslash : '/' ∉ suffix) :
    isAbsolute (p ++ suffix) = isAbsolute p := by
  rcases p with - | ⟨ch, p⟩
  · rcases suffix with - | ⟨ch, suffix⟩
    · rfl
    · have hch : ch ≠ '/' := fun heq => hslash (heq ▸ List.mem_cons_self)
      simp [isAbsolute, hch]
  · rfl

/-! ### Components of a join -/

/-- The start of a path depends on its first character and its first piece. -/
lemma leading_congr {p q : Path} (hhead : p.head? = q.head?)
    (hpieces : (pieces p).head? = (pieces q).head?) : leading p = leading q := by
  have habs : isAbsolute p = isAbsolute q := by
    rw [isAbsolute, isAbsolute, hhead]
  unfold leading
  rw [habs, hpieces]

/-- What comes after the first slash does not matter for the start of a path. -/
lemma leading_append_slash (p q : Path) : leading (p ++ '/' :: q) = leading (p ++ ['/']) := by
  have hhead : (p ++ '/' :: q).head? = (p ++ ['/']).head? := by
    cases p <;> rfl
  have hpieces : (pieces (p ++ '/' :: q)).head? = (pieces (p ++ ['/'])).head? := by
    rw [pieces_append_slash, pieces_append_slash, List.head?_append, List.head?_append]
    simp [List.head?_eq_some_head (pieces_ne_nil p)]
  exact leading_congr hhead hpieces

/-- The components of a path with a slash in it. -/
lemma components_append_slash (p q : Path) :
    components (p ++ '/' :: q) =
      components (p ++ ['/']) ++ (pieces q).filterMap pieceComponent := by
  have hempty : (pieces []).filterMap pieceComponent = [] := rfl
  unfold components
  rw [leading_append_slash, pieces_append_slash, pieces_append_slash, List.filterMap_append,
    List.filterMap_append, hempty, List.append_nil, List.append_assoc]

/-- A slash at the end of a nonempty path does not change its components. -/
lemma components_append_singleton {p : Path} (hp : p ≠ []) :
    components (p ++ ['/']) = components p := by
  have hempty : (pieces []).filterMap pieceComponent = [] := rfl
  have hhead : (p ++ ['/']).head? = p.head? := by
    cases p with
    | nil => exact absurd rfl hp
    | cons ch p => rfl
  have hpieces : (pieces (p ++ ['/'])).head? = (pieces p).head? := by
    rw [pieces_append_slash, List.head?_append]
    simp [List.head?_eq_some_head (pieces_ne_nil p)]
  unfold components
  rw [leading_congr hhead hpieces, pieces_append_slash, List.filterMap_append, hempty,
    List.append_nil]

/-- A relative path is joined to a nonempty base behind a slash. -/
lemma exists_join_eq {base p : Path} (hbase : base ≠ []) (hp : ¬ isAbsolute p) :
    ∃ front, join base p = front ++ '/' :: p ∧ components (front ++ ['/']) = components base ∧
      ∀ suffix, ¬ isAbsolute (p ++ suffix) →
        join base (p ++ suffix) = front ++ '/' :: (p ++ suffix) := by
  obtain ⟨init, ch, rfl⟩ := (List.eq_nil_or_concat' base).resolve_left hbase
  by_cases hch : ch = '/'
  · subst hch
    refine ⟨init, ?_, rfl, fun suffix hs => ?_⟩
    · simp [join, hp]
    · simp [join, hs]
  · refine ⟨init ++ [ch], ?_, components_append_singleton hbase, fun suffix hs => ?_⟩
    · simp [join, hp]
    · simp [join, hs]

/-- A relative path is joined to a nonempty base behind a slash, unless the base ends in one. -/
lemma exists_front {base p : Path} (hbase : base ≠ []) (hp : ¬ isAbsolute p) :
    ∃ front, join base p = front ++ '/' :: p ∧ (base = front ∨ base = front ++ ['/']) := by
  obtain ⟨init, ch, rfl⟩ := (List.eq_nil_or_concat' base).resolve_left hbase
  by_cases hch : ch = '/'
  · subst hch
    exact ⟨init, by simp [join, hp], Or.inr rfl⟩
  · exact ⟨init ++ [ch], by simp [join, hp], Or.inl rfl⟩

/-- A relative path that is joined to a nonempty base has the pieces of the base before it, but for
an empty last one. -/
lemma exists_pieces_join {base p : Path} (hbase : base ≠ []) (hp : ¬ isAbsolute p) :
    ∃ qs, pieces (join base p) = qs ++ pieces p ∧
      (pieces base = qs ∨ pieces base = qs ++ [[]]) := by
  obtain ⟨front, hjoin, hfront⟩ := exists_front hbase hp
  refine ⟨pieces front, by rw [hjoin, pieces_append_slash], ?_⟩
  rcases hfront with rfl | rfl
  · exact Or.inl rfl
  · exact Or.inr (pieces_append_slash front [])

/-- A relative path that is joined to a nonempty base starts as the base does. -/
lemma isAbsolute_join {base p : Path} (hbase : base ≠ []) (hp : ¬ isAbsolute p) :
    isAbsolute (join base p) = isAbsolute base := by
  obtain ⟨front, hjoin, hfront⟩ := exists_front hbase hp
  rw [hjoin]
  rcases front with - | ⟨ch, front⟩
  · rcases hfront with rfl | rfl
    · exact absurd rfl hbase
    · rfl
  · rcases hfront with rfl | rfl
    · rfl
    · rfl

/-- A relative path without a piece `..` stays inside the base that it is joined to. -/
theorem inside_join (base : Path) {p : Path} (hp : ¬ isAbsolute p) (hdots : ['.', '.'] ∉ pieces p) :
    ∃ rest, components (join base p) = components base ++ rest ∧ Component.parentDir ∉ rest ∧
      (rest = [] → (pieces p).filterMap pieceComponent = []) := by
  have hnames := parentDir_notMem_filterMap hdots
  by_cases hbase : base = []
  · subst hbase
    refine ⟨components p, by simp [join, hp]; rfl, ?_, fun h => (List.append_eq_nil_iff.mp h).2⟩
    have hleading : Component.parentDir ∉ leading p := by
      unfold leading
      split_ifs <;> simp
    exact fun h => (List.mem_append.mp h).elim hleading hnames
  · obtain ⟨front, hjoin, hfront, -⟩ := exists_join_eq hbase hp
    refine ⟨(pieces p).filterMap pieceComponent, ?_, hnames, id⟩
    rw [hjoin, components_append_slash, hfront]

/-- A suffix of a joined path is a suffix of what was joined. -/
lemma join_append (base : Path) {p suffix : Path} (hp : ¬ isAbsolute p)
    (hs : ¬ isAbsolute (p ++ suffix)) : join base p ++ suffix = join base (p ++ suffix) := by
  by_cases hbase : base = []
  · subst hbase
    simp [join, hp, hs]
  · obtain ⟨front, hjoin, -, hsuffix⟩ := exists_join_eq hbase hp
    rw [hjoin, hsuffix suffix hs]
    simp

/-- The last piece of a join is the last piece of what was joined. -/
lemma lastComponent_join (base : Path) {p : Path} (hp : ¬ isAbsolute p) :
    lastComponent (join base p) = lastComponent p := by
  by_cases hbase : base = []
  · subst hbase
    simp [join, hp]
  · obtain ⟨front, hjoin, -⟩ := exists_join_eq hbase hp
    unfold lastComponent
    rw [hjoin, pieces_append_slash, List.getLast?_append,
      List.getLast?_eq_some_getLast (pieces_ne_nil p)]
    rfl

/-- A path whose pieces have no component does not end in a name. -/
lemma not_endsInName_of_filterMap_eq_nil {p : Path}
    (h : (pieces p).filterMap pieceComponent = []) : ¬ EndsInName p := by
  rintro ⟨name, hname⟩
  obtain ⟨q, hq, hcomp⟩ := Option.bind_eq_some_iff.mp hname
  have hmem : Component.normal name ∈ (pieces p).filterMap pieceComponent :=
    List.mem_filterMap.mpr ⟨q, List.mem_of_getLast? hq, hcomp⟩
  rw [h] at hmem
  cases hmem

/-- A further slash before an absolute path changes nothing. -/
lemma components_cons_slash {p : Path} (hp : isAbsolute p) :
    components ('/' :: p) = components p ∧ lastComponent ('/' :: p) = lastComponent p := by
  have hpieces : pieces ('/' :: p) = [] :: pieces p := pieces_append_slash [] p
  have hslash : isAbsolute ('/' :: p) := rfl
  constructor
  · rw [components, components, leading, leading, if_pos hp, if_pos hslash, hpieces]
    rfl
  · rw [lastComponent, lastComponent, hpieces, List.getLast?_cons_of_ne_nil (pieces_ne_nil p)]

/-! ### Parents and suffixes -/

/-- The parent drops the last component. -/
lemma eq_dropLast_of_parent {p : Path} {dir : List Component} (h : parent p = some dir) :
    dir = (components p).dropLast ∧ components p ≠ [] := by
  unfold parent at h
  split at h
  · cases h
  · cases h
  · rename_i c hc hlast
    refine ⟨(Option.some.inj h).symm, fun hnil => ?_⟩
    rw [hnil] at hlast
    cases hlast

/-- The parent of a path strictly inside a base is inside it. -/
lemma insideDir_parent {base p : Path} {rest dir : List Component}
    (hp : components p = components base ++ rest) (hdots : Component.parentDir ∉ rest)
    (hrest : rest ≠ []) (hdir : parent p = some dir) : InsideDir base dir := by
  obtain ⟨rfl, -⟩ := eq_dropLast_of_parent hdir
  refine ⟨rest.dropLast, ?_, fun h => hdots (List.dropLast_subset _ h)⟩
  rw [hp, List.dropLast_append_of_ne_nil hrest]

/-- A suffix of more than two characters without slashes turns the last piece of an absolute path
into a name and leaves the other components. -/
lemma components_append_suffix {p suffix : Path} (hp : isAbsolute p) (hslash : '/' ∉ suffix)
    (hlong : 2 < suffix.length) :
    ∃ front last, last ∈ pieces p ∧ lastComponent p = pieceComponent last ∧
      components p = front ++ (pieceComponent last).toList ∧
      components (p ++ suffix) = front ++ [.normal (last ++ suffix)] := by
  obtain ⟨init, last, hpieces, happend⟩ := exists_pieces_append p
  have habs : isAbsolute (p ++ suffix) := by
    cases p with
    | nil => cases hp
    | cons ch p => exact hp
  have hname : pieceComponent (last ++ suffix) = some (.normal (last ++ suffix)) :=
    pieceComponent_of_long (by rw [List.length_append]; omega)
  refine ⟨.rootDir :: init.filterMap pieceComponent, last, ?_, ?_, ?_, ?_⟩
  · rw [hpieces]
    simp
  · rw [lastComponent, hpieces]
    simp
  · rw [components, leading, if_pos hp, hpieces, List.filterMap_append]
    cases hlast : pieceComponent last <;> simp [hlast]
  · rw [components, leading, if_pos habs, happend suffix hslash, List.filterMap_append]
    simp [hname]

/-- An absolute path inside a base stays inside with a suffix, unless it is the base itself and
ends in a name. -/
theorem inside_append_suffix_iff {base p suffix : Path} (hp : isAbsolute p)
    (hdots : ['.', '.'] ∉ pieces p) (hslash : '/' ∉ suffix) (hlong : 2 < suffix.length)
    (hin : Inside base p) :
    Inside base (p ++ suffix) ↔ components p ≠ components base ∨ ¬ EndsInName p := by
  obtain ⟨front, last, hmem, hlast, hcomp, hcomp'⟩ := components_append_suffix hp hslash hlong
  obtain ⟨rest, hrest, hrestDots⟩ := hin
  rcases pieceComponent_cases last with ⟨-, hnone⟩ | ⟨rfl, -⟩ | hname
  · -- the suffix makes a name of its own
    have hnot : ¬ EndsInName p := by
      rintro ⟨name, hname⟩
      rw [hlast, hnone] at hname
      cases hname
    refine ⟨fun _ => Or.inr hnot, fun _ => ⟨rest ++ [.normal (last ++ suffix)], ?_, ?_⟩⟩
    · rw [hcomp', ← List.append_assoc, ← hrest, hcomp, hnone]
      simp
    · simpa using hrestDots
  · exact absurd hmem hdots
  · have hends : EndsInName p := ⟨last, hlast.trans hname⟩
    rw [hname] at hcomp
    have hfront : components p = front ++ [.normal last] := hcomp
    constructor
    · rintro ⟨rest', hrest', -⟩
      refine Or.inl fun hsame => ?_
      -- the base would end in the longer name as well
      rw [hcomp', ← hsame, hfront, List.append_assoc] at hrest'
      have htail : Component.normal (last ++ suffix) = .normal last :=
        (List.cons.inj (List.append_cancel_left hrest')).1
      have hlength : suffix = [] := List.append_right_eq_self.mp (Component.normal.inj htail)
      rw [hlength] at hlong
      exact absurd hlong (by simp)
    · rintro (hne | hnot)
      · -- the name that gets the suffix comes after the base
        have hrest_ne : rest ≠ [] := by
          rintro rfl
          exact hne (by rw [hrest, List.append_nil])
        obtain ⟨rest₀, c, rfl⟩ := (List.eq_nil_or_concat' rest).resolve_left hrest_ne
        rw [hfront, ← List.append_assoc] at hrest
        have hfront' : front = components base ++ rest₀ := (List.append_inj' hrest rfl).1
        refine ⟨rest₀ ++ [.normal (last ++ suffix)], ?_, fun h => ?_⟩
        · rw [hcomp', hfront', List.append_assoc]
        · rcases List.mem_append.mp h with hold | hnew
          · exact hrestDots (List.mem_append_left _ hold)
          · cases List.mem_singleton.mp hnew
      · exact absurd hends hnot

end UnixPath
