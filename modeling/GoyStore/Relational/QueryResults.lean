import GoyStore.Library.Binary64
import GoyStore.Library.DecimalText

/-!
# The results of queries

`query` of the Rust `PostgresRelationalStore` returns every cell as bytes.  It tries to get the cell
as a string, as bytes, and as an integer of 32 and of 64 bits, and returns no bytes when all of
these fail.

`losesNothing_iff` says for which results different cells of one column come back as different
bytes.
-/

namespace GoyStore

/-! ### Results on the server -/

/-- A value of the type `numeric`. -/
inductive Numeric where
  /-- Not a number. -/
  | nan
  /-- One of the infinities. -/
  | infinity (negative : Bool)
  /-- A number of units of the last of some decimals. -/
  | finite (units : ℤ) (scale : ℕ)
  deriving DecidableEq, Repr

/-- The types of columns. -/
inductive PgType where
  | text
  | bytea
  | int2
  | int4
  | int8
  | float8
  | bool
  | numeric
  | timestamptz
  deriving DecidableEq, Repr

/-- The values of a type; a time is counted in microseconds. -/
abbrev PgType.Value : PgType → Type
  | .text => String
  | .bytea => List UInt8
  | .int2 => Int16
  | .int4 => Int32
  | .int8 => Int64
  | .float8 => Binary64
  | .bool => Bool
  | .numeric => Numeric
  | .timestamptz => Int64

/-- A cell: `NULL` or a value. -/
abbrev PgType.Cell (t : PgType) : Type := Option t.Value

/-- The rows that the server returns, each with a cell for every column. -/
structure ResultSet where
  /-- The names and the types of the columns. -/
  columns : List (String × PgType)
  /-- The rows. -/
  rows : List ((i : Fin columns.length) → (columns.get i).2.Cell)

/-- A result with one column. -/
def ResultSet.single (name : String) (t : PgType) (cells : List t.Cell) : ResultSet where
  columns := [(name, t)]
  rows := cells.map fun cell => fun
    | ⟨0, _⟩ => cell

/-- The cells of a column. -/
def ResultSet.column (result : ResultSet) (i : Fin result.columns.length) :
    List (result.columns.get i).2.Cell :=
  result.rows.map fun row => row i

namespace Rust

/-- What `query` uses of the driver. -/
structure Sqlx where
  /-- `try_get::<T>`; the type asked for is named by the type of column that it is for: `String` is
  for `text`, `Vec<u8>` for `bytea`, `i32` for `int4` and `i64` for `int8`. -/
  tryGet : (target t : PgType) → t.Cell → Option target.Value

/-- The driver gets the values of its type, and nothing else. -/
structure Sqlx.Lawful (sqlx : Sqlx) : Prop where
  /-- A value of the type asked for. -/
  tryGet_self : ∀ t cell, sqlx.tryGet t t cell = cell
  /-- A cell of another type. -/
  tryGet_of_ne : ∀ target t cell, t ≠ target → sqlx.tryGet target t cell = none

/-- A driver that gets the values of its type. -/
def Sqlx.plain : Sqlx where
  tryGet target t cell := if h : t = target then h ▸ cell else none

/-- This driver is lawful. -/
lemma Sqlx.plain_lawful : Sqlx.plain.Lawful where
  tryGet_self _ _ := dif_pos rfl
  tryGet_of_ne _ _ _ hne := dif_neg hne

/-- `Rows`. -/
structure Rows where
  /-- The field `columns`. -/
  columns : List String
  /-- The field `rows`. -/
  rows : List (List (List UInt8))

/-- A returned cell. -/
def Rows.cell (rows : Rows) (j i : ℕ) : Option (List UInt8) := rows.rows[j]?.bind fun row => row[i]?

/-- `String::into_bytes`. -/
def intoBytes (s : String) : List UInt8 := s.toByteArray.data.toList

/-- `to_string` of an integer. -/
def numToString (num : ℤ) : String := String.ofList (DecimalText.integer num)

namespace PostgresRelationalStore

/-- The body of the inner loop of `query`: the bytes of a cell. -/
def rowData (sqlx : Sqlx) (t : PgType) (cell : t.Cell) : List UInt8 :=
  match sqlx.tryGet .text t cell with
  | some s => intoBytes s
  | none =>
    match sqlx.tryGet .bytea t cell with
    | some bytes => bytes
    | none =>
      match sqlx.tryGet .int4 t cell with
      | some num => intoBytes (numToString num.toInt)
      | none =>
        match sqlx.tryGet .int8 t cell with
        | some num => intoBytes (numToString num.toInt)
        | none => []

/-- `query`, from the rows that the server returns. -/
def query (sqlx : Sqlx) (result : ResultSet) : Rows where
  columns :=
    match result.rows with
    | [] => []
    | _ :: _ => result.columns.map Prod.fst
  rows := result.rows.map fun row =>
    (List.finRange result.columns.length).map fun i => rowData sqlx (result.columns.get i).2 (row i)

/-- Every row comes back with all of its cells, and different cells of a column as different
bytes. -/
structure LosesNothing (sqlx : Sqlx) (result : ResultSet) : Prop where
  /-- The columns are named. -/
  columns : (query sqlx result).columns = result.columns.map Prod.fst
  /-- There is a row for every row. -/
  rows_length : (query sqlx result).rows.length = result.rows.length
  /-- There is a cell for every column. -/
  row_length : ∀ row ∈ (query sqlx result).rows, row.length = (query sqlx result).columns.length
  /-- Different cells are different. -/
  cell_ne : ∀ (i : Fin result.columns.length) (j k : Fin result.rows.length),
    result.rows.get j i ≠ result.rows.get k i →
      (query sqlx result).cell j i ≠ (query sqlx result).cell k i

/-- The cells of a column can be told apart: no text or byte string is empty beside a `NULL`, and
in a column that is neither text nor bytes nor an integer of 32 or 64 bits all cells are equal. -/
def Separable : (t : PgType) → List t.Cell → Prop
  | .text, cells => ¬ (none ∈ cells ∧ some "" ∈ cells)
  | .bytea, cells => ¬ (none ∈ cells ∧ some [] ∈ cells)
  | .int4, _ => True
  | .int8, _ => True
  | _, cells => ∀ c ∈ cells, ∀ d ∈ cells, c = d

variable {sqlx : Sqlx} {t : PgType}

/-- Different strings have different bytes. -/
lemma intoBytes_injective : Function.Injective intoBytes := by
  intro s s' h
  have harray : s.toByteArray.data = s'.toByteArray.data := Array.toList_inj.mp h
  exact String.toByteArray_inj.mp (ByteArray.ext harray)

/-- The text of an integer has bytes, and different integers have different ones. -/
lemma intoBytes_numToString_ne_nil (num : ℤ) : intoBytes (numToString num) ≠ [] := by
  intro h
  have hempty : numToString num = "" := intoBytes_injective h
  rw [numToString, String.ofList_eq_empty_iff] at hempty
  exact DecimalText.integer_ne_nil num hempty

/-- Different integers have different bytes. -/
lemma intoBytes_numToString_injective : Function.Injective fun num => intoBytes (numToString num) :=
  fun _ _ h => DecimalText.integer_injective (String.ofList_injective (intoBytes_injective h))

/-- The bytes of a cell of a text column. -/
lemma rowData_text (h : sqlx.Lawful) (cell : PgType.text.Cell) :
    rowData sqlx .text cell = (cell.map intoBytes).getD [] := by
  rw [rowData, h.tryGet_self, h.tryGet_of_ne .bytea _ _ (by decide),
    h.tryGet_of_ne .int4 _ _ (by decide), h.tryGet_of_ne .int8 _ _ (by decide)]
  cases cell <;> rfl

/-- The bytes of a cell of a column of bytes. -/
lemma rowData_bytea (h : sqlx.Lawful) (cell : PgType.bytea.Cell) :
    rowData sqlx .bytea cell = cell.getD [] := by
  rw [rowData, h.tryGet_of_ne .text _ _ (by decide), h.tryGet_self,
    h.tryGet_of_ne .int4 _ _ (by decide), h.tryGet_of_ne .int8 _ _ (by decide)]
  cases cell <;> rfl

/-- The bytes of a cell of a column of integers of 32 bits. -/
lemma rowData_int4 (h : sqlx.Lawful) (cell : PgType.int4.Cell) :
    rowData sqlx .int4 cell = (cell.map fun num => intoBytes (numToString num.toInt)).getD [] := by
  rw [rowData, h.tryGet_of_ne .text _ _ (by decide), h.tryGet_of_ne .bytea _ _ (by decide),
    h.tryGet_self, h.tryGet_of_ne .int8 _ _ (by decide)]
  cases cell <;> rfl

/-- The bytes of a cell of a column of integers of 64 bits. -/
lemma rowData_int8 (h : sqlx.Lawful) (cell : PgType.int8.Cell) :
    rowData sqlx .int8 cell = (cell.map fun num => intoBytes (numToString num.toInt)).getD [] := by
  rw [rowData, h.tryGet_of_ne .text _ _ (by decide), h.tryGet_of_ne .bytea _ _ (by decide),
    h.tryGet_of_ne .int4 _ _ (by decide), h.tryGet_self]
  cases cell <;> rfl

/-- A cell of another column has no bytes. -/
lemma rowData_other (h : sqlx.Lawful) (cell : t.Cell) (htext : t ≠ .text) (hbytea : t ≠ .bytea)
    (hint4 : t ≠ .int4) (hint8 : t ≠ .int8) : rowData sqlx t cell = [] := by
  rw [rowData, h.tryGet_of_ne .text _ _ htext, h.tryGet_of_ne .bytea _ _ hbytea,
    h.tryGet_of_ne .int4 _ _ hint4, h.tryGet_of_ne .int8 _ _ hint8]

/-- The bytes tell the cells of a column apart. -/
def TellsApart (sqlx : Sqlx) (t : PgType) (cells : List t.Cell) : Prop :=
  ∀ c ∈ cells, ∀ d ∈ cells, c ≠ d → rowData sqlx t c ≠ rowData sqlx t d

/-- Values that are written injectively are told apart unless one of them is written like `NULL`. -/
lemma forall_ne_iff {α β : Type} {write : α → List β} {bytes : Option α → List β}
    (hbytes : ∀ c, bytes c = (c.map write).getD []) (hwrite : Function.Injective write)
    (cells : List (Option α)) :
    (∀ c ∈ cells, ∀ d ∈ cells, c ≠ d → bytes c ≠ bytes d) ↔
      ∀ a, write a = [] → ¬ (none ∈ cells ∧ some a ∈ cells) := by
  constructor
  · rintro h a hempty ⟨hnull, hvalue⟩
    refine h none hnull (some a) hvalue (Option.some_ne_none a).symm ?_
    rw [hbytes, hbytes]
    exact hempty.symm
  · intro h c hc d hd hne heq
    rw [hbytes, hbytes] at heq
    cases c with
    | none =>
      cases d with
      | none => exact hne rfl
      | some b => exact h b heq.symm ⟨hc, hd⟩
    | some a =>
      cases d with
      | none => exact h a heq ⟨hd, hc⟩
      | some b => exact hne (congrArg some (hwrite heq))

/-- The bytes tell the cells of a column apart if and only if they can be told apart. -/
lemma tellsApart_iff (h : sqlx.Lawful) (t : PgType) (cells : List t.Cell) :
    TellsApart sqlx t cells ↔ Separable t cells := by
  have hother : (∀ cell : t.Cell, rowData sqlx t cell = []) →
      (TellsApart sqlx t cells ↔ ∀ c ∈ cells, ∀ d ∈ cells, c = d) := by
    intro hbytes
    refine forall₄_congr fun c hc d hd => ?_
    rw [hbytes c, hbytes d]
    exact ⟨fun hall => not_not.mp fun hne => hall hne rfl, fun heq hne => absurd heq hne⟩
  cases t with
  | text =>
    refine (forall_ne_iff (rowData_text h) intoBytes_injective cells).trans ?_
    refine ⟨fun hall => hall "" rfl, fun hempty a ha => ?_⟩
    have hnone : a = "" := intoBytes_injective ha
    rwa [hnone]
  | bytea =>
    have hbytes : ∀ cell, rowData sqlx .bytea cell = (cell.map id).getD [] := by
      intro cell
      rw [rowData_bytea h, Option.map_id]
      rfl
    refine (forall_ne_iff hbytes Function.injective_id cells).trans ?_
    refine ⟨fun hall => hall [] rfl, fun hempty a ha => ?_⟩
    have hnone : a = [] := ha
    rwa [hnone]
  | int4 =>
    have hwrite : Function.Injective fun num : Int32 => intoBytes (numToString num.toInt) :=
      fun num num' heq => Int32.toInt_inj.mp (intoBytes_numToString_injective heq)
    refine (forall_ne_iff (rowData_int4 h) hwrite cells).trans (iff_of_true ?_ trivial)
    exact fun num hempty => absurd hempty (intoBytes_numToString_ne_nil _)
  | int8 =>
    have hwrite : Function.Injective fun num : Int64 => intoBytes (numToString num.toInt) :=
      fun num num' heq => Int64.toInt_inj.mp (intoBytes_numToString_injective heq)
    refine (forall_ne_iff (rowData_int8 h) hwrite cells).trans (iff_of_true ?_ trivial)
    exact fun num hempty => absurd hempty (intoBytes_numToString_ne_nil _)
  | int2 | float8 | bool | numeric | timestamptz =>
    exact hother fun cell =>
      rowData_other h cell (by decide) (by decide) (by decide) (by decide)

/-- The cell of a row and a column. -/
lemma cell_query (sqlx : Sqlx) (result : ResultSet) (i : Fin result.columns.length)
    (j : Fin result.rows.length) : (query sqlx result).cell j i =
      some (rowData sqlx (result.columns.get i).2 (result.rows.get j i)) := by
  rw [Rows.cell, query, List.getElem?_map, List.getElem?_eq_getElem j.isLt, Option.map_some,
    Option.bind_some, List.getElem?_map,
    List.getElem?_eq_getElem (i.isLt.trans_eq List.length_finRange.symm), Option.map_some,
    List.getElem_finRange]
  rfl

/-- A query result with rows comes back without a loss if and only if the cells of every column can
be told apart. -/
theorem losesNothing_iff (h : sqlx.Lawful) (result : ResultSet) (hrows : result.rows ≠ []) :
    LosesNothing sqlx result ↔
      ∀ i, Separable (result.columns.get i).2 (result.column i) := by
  have htells : ∀ i, (∀ j k : Fin result.rows.length,
      result.rows.get j i ≠ result.rows.get k i →
        (query sqlx result).cell j i ≠ (query sqlx result).cell k i) ↔
      Separable (result.columns.get i).2 (result.column i) := by
    intro i
    rw [← tellsApart_iff h, TellsApart, ResultSet.column]
    simp only [cell_query, ne_eq, Option.some_inj, List.forall_mem_map, List.forall_mem_iff_get]
  have hcolumns : (query sqlx result).columns = result.columns.map Prod.fst := by
    obtain ⟨row, rows, heq⟩ := List.exists_cons_of_ne_nil hrows
    rw [query, heq]
  constructor
  · exact fun hloses i => (htells i).mp (hloses.cell_ne i)
  · refine fun hsep => ⟨hcolumns, List.length_map _, ?_, fun i => (htells i).mpr (hsep i)⟩
    intro row hrow
    obtain ⟨source, -, rfl⟩ := List.mem_map.mp hrow
    rw [hcolumns, List.length_map, List.length_map, List.length_finRange]

/-- A `NULL` and an integer in one column. -/
theorem losesNothing_single :
    let result := ResultSet.single "age" .int4 [none, some 25]
    Sqlx.plain.Lawful ∧ result.rows ≠ [] ∧ (LosesNothing .plain result ↔
      ∀ i, Separable (result.columns.get i).2 (result.column i)) := by
  intro result
  have hrows : result.rows ≠ [] := List.cons_ne_nil _ _
  exact ⟨Sqlx.plain_lawful, hrows, losesNothing_iff Sqlx.plain_lawful result hrows⟩

/-- The two values of the type `bool` come back as the same bytes. -/
theorem not_losesNothing_bool :
    Sqlx.plain.Lawful ∧
      ¬ LosesNothing .plain (ResultSet.single "active" .bool [some true, some false]) := by
  refine ⟨Sqlx.plain_lawful, fun h => ?_⟩
  have hdiffers := h.cell_ne ⟨0, by decide⟩ ⟨0, by decide⟩ ⟨1, by decide⟩
  exact hdiffers (fun heq => Bool.false_ne_true (Option.some.inj heq).symm) rfl

end PostgresRelationalStore

end Rust

end GoyStore
