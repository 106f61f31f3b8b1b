/-
# NovaRuntime.Sql.RecordBatch — from the rows of an executor to columns and back

A column gets the type of the first value in it that is not NULL, and every value after that is stored
as this type: an integer among texts becomes the text of its debug form, a text among integers 0. A
column without any such value only counts, and counts from the number of rows on.

What is pushed into one column is followed alone (`Column.pushAll`), and a batch is all its columns
(`rowsToRecordBatch_eq`). So a batch reads back exactly where each column has a value and all its
values are of one type (`lossless_iff`).
-/
import NovaRuntime.Sql.Evaluate
import NovaRuntime.Sql.TableStore

namespace NovaRuntime.Sql

open NovaRuntime.Library

set_option autoImplicit false

/-! ## Columns -/

inductive Column where
  | integer (v : List (Option Int64))
  | float (v : List (Option F64))
  | boolean (v : List (Option Bool))
  | string (v : List (Option Text))
  | null (n : Nat)
  deriving DecidableEq

namespace Column

def len : Column → Nat
  | integer v => v.length
  | float v => v.length
  | boolean v => v.length
  | string v => v.length
  | null n => n

def get (index : Nat) : Column → Option LiteralValue
  | integer v => v[index]?.bind fun x => x.map .integer
  | float v => v[index]?.bind fun x => x.map .float
  | boolean v => v[index]?.bind fun x => x.map .boolean
  | string v => v[index]?.bind fun x => x.map .string
  | null _ => some .null

/-- The column a type begins with; without a type it is as long as the batch will be. -/
def create (numRows : Nat) : Option SQLType → Column
  | some .integer => integer []
  | some .float => float []
  | some .boolean => boolean []
  | some .text => string []
  | _ => null numRows

end Column

structure RecordBatch where
  columns : List Column
  numRows : Nat
  columnNames : List Text
  deriving DecidableEq

def RecordBatch.getRow (batch : RecordBatch) (index : Nat) : Option (List (Option LiteralValue)) :=
  if batch.numRows ≤ index then none else some (batch.columns.map (Column.get index))

section

variable (X : Extern)

def asInteger : LiteralValue → Int64
  | .integer i => i
  | .float f => X.toInt f
  | _ => 0

def asFloat : LiteralValue → F64
  | .float f => f
  | .integer i => X.ofInt i
  | _ => .zero

def asBoolean : LiteralValue → Bool
  | .boolean b => b
  | _ => false

def asString : LiteralValue → Text
  | .string s => s
  | x => x.debug X

def pushValueToColumn (val : Option LiteralValue) : Column → Column
  | .integer v => .integer (v ++ [val.map (asInteger X)])
  | .float v => .float (v ++ [val.map (asFloat X)])
  | .boolean v => .boolean (v ++ [val.map asBoolean])
  | .string v => .string (v ++ [val.map (asString X)])
  | .null n => .null (n + 1)

/-! ## The two passes -/

/-- The type of a column after one more value. -/
def noteType (type : Option SQLType) (val : Option LiteralValue) : Option SQLType :=
  match type, val with
  | some t, _ => some t
  | none, some .null => none
  | none, some v => some (literalType v)
  | none, none => none

/-- A row that is wider than the first is out of the bounds of the types. -/
def noteTypes : List (Option SQLType) → List (Option LiteralValue) → Result (List (Option SQLType))
  | types, [] => .ok types
  | [], _ :: _ => .panic
  | type :: types, val :: values => do
      let rest ← noteTypes types values
      pure (noteType type val :: rest)

def columnTypes (types : List (Option SQLType)) : List Row → Result (List (Option SQLType))
  | [] => .ok types
  | row :: rows => do
      let types' ← noteTypes types row.values
      columnTypes types' rows

/-- `opt_val`: NULL is stored as absent. -/
def optVal (val : Option LiteralValue) : Option LiteralValue :=
  val.bind fun v => if v = .null then none else some v

def pushRow : List Column → List (Option LiteralValue) → List Column
  | columns, [] => columns
  | [], _ :: _ => []
  | column :: columns, val :: values => pushValueToColumn X (optVal val) column :: pushRow columns values

def columnName (i : Nat) : Text := "col_".toList ++ decimal i

def batchNames (columnNames : Option (List Text)) (numCols : Nat) : List Text :=
  match columnNames with
  | some names => if names.length = numCols then names else (List.range numCols).map columnName
  | none => (List.range numCols).map columnName

def rowsToRecordBatchWithNames (rows : List Row) (columnNames : Option (List Text)) : Result RecordBatch :=
  match rows with
  | [] => .ok ⟨[], 0, columnNames.getD []⟩
  | first :: _ => do
      let types ← columnTypes (List.replicate first.values.length none) rows
      let columns := types.map (Column.create rows.length)
      pure ⟨rows.foldl (fun columns row => pushRow X columns row.values) columns, rows.length,
        batchNames columnNames first.values.length⟩

end

/-! ## What a batch should be -/

/-- Rows of one width. -/
structure EqualWidth where
  rows : List Row
  width : Nat
  equal : ∀ row ∈ rows, row.values.length = width

/-- NULL and absent are one value. -/
def orNull (val : Option LiteralValue) : LiteralValue := val.getD .null

def cell (row : Row) (j : Nat) : Option LiteralValue := row.values.getD j none

/-- The columns are as long as the batch, and the rows are the given ones. -/
def RecordBatch.Lossless (batch : RecordBatch) (rows : List Row) : Prop :=
  (batch.numRows = rows.length ∧ ∀ column ∈ batch.columns, column.len = batch.numRows) ∧
    ∀ i row, rows[i]? = some row →
      ∃ read, batch.getRow i = some read ∧ read.map orNull = row.values.map orNull

/-- The batch of the rows is built and lossless. -/
def BatchLossless (X : Extern) (e : EqualWidth) (columnNames : Option (List Text)) : Prop :=
  ∃ batch, rowsToRecordBatchWithNames X e.rows columnNames = .ok batch ∧ batch.Lossless e.rows

/-- A column has a value, and all its values are of one type. -/
def OneType (e : EqualWidth) (j : Nat) : Prop :=
  ∃ t, (∃ row ∈ e.rows, orNull (cell row j) ≠ .null) ∧
    ∀ row ∈ e.rows, orNull (cell row j) = .null ∨ literalType (orNull (cell row j)) = t

/-! ## One column -/

variable {X : Extern}

/-- All values of a column, pushed one after another. -/
def Column.pushAll (X : Extern) (column : Column) (values : List (Option LiteralValue)) : Column :=
  values.foldl (fun column val => pushValueToColumn X (optVal val) column) column

def Column.type : Column → SQLType
  | integer _ => .integer
  | float _ => .float
  | boolean _ => .boolean
  | string _ => .text
  | null _ => .null

def storedAs (X : Extern) (type : SQLType) (val : LiteralValue) : LiteralValue :=
  match type with
  | .integer => .integer (asInteger X val)
  | .float => .float (asFloat X val)
  | .boolean => .boolean (asBoolean val)
  | .text => .string (asString X val)
  | .null => .null

theorem storedAs_eq_iff (type : SQLType) (val : LiteralValue) :
    storedAs X type val = val ↔ literalType val = type := by
  cases type <;> cases val <;> simp [storedAs, literalType, asInteger, asFloat, asBoolean, asString]

namespace Column

/-- The cells of a column. -/
def contents : Column → List (Option LiteralValue)
  | integer v => v.map fun x => x.map .integer
  | float v => v.map fun x => x.map .float
  | boolean v => v.map fun x => x.map .boolean
  | string v => v.map fun x => x.map .string
  | null n => List.replicate n (some .null)

theorem length_contents (column : Column) : column.contents.length = column.len := by
  cases column <;> simp [contents, len]

theorem get_contents {column : Column} (index : Nat) (typed : column.type ≠ .null) :
    column.get index = column.contents[index]?.bind id := by
  cases column with
  | null n => exact absurd rfl typed
  | _ v => cases h : v[index]? <;> simp [get, contents, h]

theorem push_type (val : Option LiteralValue) (column : Column) :
    (pushValueToColumn X val column).type = column.type := by
  cases column <;> rfl

theorem push_contents (val : Option LiteralValue) {column : Column} (typed : column.type ≠ .null) :
    (pushValueToColumn X val column).contents = column.contents ++ [val.map (storedAs X column.type)] := by
  cases column with
  | null n => exact absurd rfl typed
  | _ v => cases val <;> simp [pushValueToColumn, contents, type, storedAs]

theorem pushAll_contents (values : List (Option LiteralValue)) {column : Column} (typed : column.type ≠ .null) :
    (column.pushAll X values).type = column.type ∧
      (column.pushAll X values).contents =
        column.contents ++ values.map fun val => (optVal val).map (storedAs X column.type) := by
  induction values generalizing column with
  | nil => simp [pushAll]
  | cons val values ih =>
    have same := push_type (X := X) (optVal val) column
    have stays : (pushValueToColumn X (optVal val) column).type ≠ .null := same ▸ typed
    have rest := ih stays
    rw [same, push_contents _ typed] at rest
    refine ⟨rest.1, ?_⟩
    rw [List.map_cons, List.append_cons]
    exact rest.2

theorem pushAll_null (values : List (Option LiteralValue)) (n : Nat) :
    (null n).pushAll X values = null (n + values.length) := by
  induction values generalizing n with
  | nil => rfl
  | cons val values ih =>
    show (null (n + 1)).pushAll X values = _
    rw [ih, List.length_cons, Nat.add_assoc, Nat.add_comm 1]

theorem create_some {n : Nat} {type : SQLType} (typed : type ≠ .null) :
    (create n (some type)).type = type ∧ (create n (some type)).contents = [] := by
  cases type with
  | null => exact absurd rfl typed
  | _ => exact ⟨rfl, rfl⟩

/-- A column with a type holds its values as this type. -/
theorem get_pushAll {n : Nat} {type : SQLType} (typed : type ≠ .null) (values : List (Option LiteralValue)) :
    ((create n (some type)).pushAll X values).len = values.length ∧
      ∀ i, ((create n (some type)).pushAll X values).get i =
        values[i]?.bind fun val => (optVal val).map (storedAs X type) := by
  obtain ⟨same, empty⟩ := create_some (n := n) typed
  have typed' : (create n (some type)).type ≠ .null := by rw [same]; exact typed
  obtain ⟨kept, filled⟩ := pushAll_contents (X := X) values typed'
  rw [empty, List.nil_append, same] at filled
  constructor
  · rw [← length_contents, filled, List.length_map]
  · intro i
    rw [get_contents i (by rw [kept, same]; exact typed), filled, List.getElem?_map]
    cases values[i]? <;> rfl

end Column

/-! ## Its type -/

theorem optVal_eq (val : Option LiteralValue) : optVal val = if orNull val = .null then none else some (orNull val) := by
  cases val with
  | none => rfl
  | some v => rfl

theorem noteType_none (val : Option LiteralValue) :
    noteType none val = if orNull val = .null then none else some (literalType (orNull val)) := by
  cases val with
  | none => rfl
  | some v => cases v <;> rfl

theorem literalType_ne_null {val : LiteralValue} (some : val ≠ .null) : literalType val ≠ .null := by
  cases val with
  | null => exact absurd rfl some
  | _ => simp [literalType]

theorem foldl_noteType_some (type : SQLType) (values : List (Option LiteralValue)) :
    values.foldl noteType (some type) = some type := by
  induction values with
  | nil => rfl
  | cons val values ih => exact ih

/-- The type of a column is that of its first value. -/
theorem foldl_noteType (values : List (Option LiteralValue)) :
    (values.foldl noteType none = none ∧ ∀ val ∈ values, orNull val = .null) ∨
      ∃ t, values.foldl noteType none = some t ∧ t ≠ .null ∧
        ∃ val ∈ values, orNull val ≠ .null ∧ literalType (orNull val) = t := by
  induction values with
  | nil => exact .inl ⟨rfl, by simp⟩
  | cons val values ih =>
    rw [List.foldl_cons, noteType_none]
    by_cases empty : orNull val = .null
    · rw [if_pos empty]
      rcases ih with ⟨noType, allNull⟩ | ⟨t, typed, proper, first, among, such⟩
      · exact .inl ⟨noType, List.forall_mem_cons.mpr ⟨empty, allNull⟩⟩
      · exact .inr ⟨t, typed, proper, first, .tail _ among, such⟩
    · rw [if_neg empty, foldl_noteType_some]
      exact .inr ⟨_, rfl, literalType_ne_null empty, val, (.head _), empty, rfl⟩

/-- A stored value reads back where it has the type of the column. -/
theorem orNull_stored {type : SQLType} (val : Option LiteralValue) :
    orNull ((optVal val).map (storedAs X type)) = orNull val ↔
      orNull val = .null ∨ literalType (orNull val) = type := by
  rw [optVal_eq]
  by_cases empty : orNull val = .null
  · rw [if_pos empty, empty]
    exact ⟨fun _ => .inl rfl, fun _ => rfl⟩
  · rw [if_neg empty, Option.map_some, or_iff_right empty]
    exact storedAs_eq_iff type (orNull val)

/-- **When a column reads back**: it is empty, or has a value and all its values are of one type. -/
theorem column_lossless (values : List (Option LiteralValue)) :
    (((Column.create values.length (values.foldl noteType none)).pushAll X values).len = values.length ∧
        ∀ i val, values[i]? = some val →
          orNull (((Column.create values.length (values.foldl noteType none)).pushAll X values).get i) = orNull val) ↔
      values = [] ∨ ∃ t, (∃ val ∈ values, orNull val ≠ .null) ∧
        ∀ val ∈ values, orNull val = .null ∨ literalType (orNull val) = t := by
  rcases foldl_noteType values with ⟨noType, allNull⟩ | ⟨t, typed, proper, first, among, some, type⟩
  · have untyped : Column.create values.length none = .null values.length := rfl
    rw [noType, untyped, Column.pushAll_null]
    constructor
    · rintro ⟨length, -⟩
      rw [Column.len] at length
      exact .inl (List.length_eq_zero_iff.mp (by omega))
    · rintro (rfl | ⟨t, ⟨val, among, some⟩, -⟩)
      · exact ⟨rfl, by simp⟩
      · exact absurd (allNull val among) some
  · obtain ⟨length, get⟩ := Column.get_pushAll (X := X) (n := values.length) proper values
    rw [typed, length]
    have nonempty : values ≠ [] := List.ne_nil_of_mem among
    rw [or_iff_right nonempty]
    constructor
    · rintro ⟨-, reads⟩
      refine ⟨t, ⟨first, among, some⟩, fun val inside => ?_⟩
      obtain ⟨i, at'⟩ := List.mem_iff_getElem?.mp inside
      have same := reads i val at'
      rw [get, at', Option.bind_some] at same
      exact (orNull_stored val).mp same
    · rintro ⟨u, -, one⟩
      have unique : u = t := by
        rcases one first among with empty | same
        · exact absurd empty some
        · exact same.symm.trans type
      refine ⟨rfl, fun i val at' => ?_⟩
      rw [get, at', Option.bind_some]
      exact (orNull_stored val).mpr (unique ▸ one val (List.mem_of_getElem? at'))

/-! ## All columns -/

theorem map_cell {row : Row} {width : Nat} (equal : row.values.length = width) :
    row.values = (List.range width).map (cell row) := by
  apply List.ext_getElem?
  intro j
  rw [List.getElem?_map]
  by_cases inside : j < width
  · rw [List.getElem?_range inside, Option.map_some, cell, List.getD_eq_getElem?_getD,
      List.getElem?_eq_getElem (equal ▸ inside), Option.getD_some]
  · rw [List.getElem?_eq_none (by omega), List.getElem?_eq_none (by simp; omega)]
    rfl

theorem noteTypes_map {ι : Type} (l : List ι) (types : ι → Option SQLType) (values : ι → Option LiteralValue) :
    noteTypes (l.map types) (l.map values) = .ok (l.map fun j => noteType (types j) (values j)) := by
  induction l with
  | nil => rfl
  | cons j l ih =>
    rw [List.map_cons, List.map_cons, noteTypes, ih]
    rfl

theorem pushRow_map {ι : Type} (l : List ι) (columns : ι → Column) (values : ι → Option LiteralValue) :
    pushRow X (l.map columns) (l.map values) =
      l.map fun j => pushValueToColumn X (optVal (values j)) (columns j) := by
  induction l with
  | nil => rfl
  | cons j l ih => rw [List.map_cons, List.map_cons, pushRow, ih, List.map_cons]

theorem columnTypes_map {width : Nat} (rows : List Row) (equal : ∀ row ∈ rows, row.values.length = width)
    (types : Nat → Option SQLType) :
    columnTypes ((List.range width).map types) rows =
      .ok ((List.range width).map fun j => (rows.map fun row => cell row j).foldl noteType (types j)) := by
  induction rows generalizing types with
  | nil => rfl
  | cons row rows ih =>
    obtain ⟨first, rest⟩ := List.forall_mem_cons.mp equal
    rw [columnTypes, map_cell first, noteTypes_map]
    exact ih rest _

theorem pushRows_map {width : Nat} (rows : List Row) (equal : ∀ row ∈ rows, row.values.length = width)
    (columns : Nat → Column) :
    rows.foldl (fun columns row => pushRow X columns row.values) ((List.range width).map columns) =
      (List.range width).map fun j => (columns j).pushAll X (rows.map fun row => cell row j) := by
  induction rows generalizing columns with
  | nil => rfl
  | cons row rows ih =>
    obtain ⟨first, rest⟩ := List.forall_mem_cons.mp equal
    rw [List.foldl_cons, map_cell first, pushRow_map]
    exact ih rest _

/-- The cells of one column. -/
def EqualWidth.column (e : EqualWidth) (j : Nat) : List (Option LiteralValue) := e.rows.map fun row => cell row j

/-- A batch is its columns, each pushed alone. -/
theorem rowsToRecordBatch_eq (e : EqualWidth) (columnNames : Option (List Text)) (some : e.rows ≠ []) :
    ∃ names, rowsToRecordBatchWithNames X e.rows columnNames = .ok
      ⟨(List.range e.width).map fun j =>
          (Column.create (e.column j).length ((e.column j).foldl noteType none)).pushAll X (e.column j),
        e.rows.length, names⟩ := by
  obtain ⟨rows, width, equal⟩ := e
  cases rows with
  | nil => exact absurd rfl some
  | cons first rest =>
    have wide := (List.forall_mem_cons.mp equal).1
    refine ⟨batchNames columnNames width, ?_⟩
    have start : List.replicate first.values.length (none : Option SQLType) =
        (List.range width).map fun _ => none := by
      simp [wide]
    have columns := pushRows_map (X := X) (first :: rest) equal fun j =>
      Column.create (first :: rest).length
        (((first :: rest).map fun row => cell row j).foldl noteType none)
    rw [rowsToRecordBatchWithNames, start, columnTypes_map _ equal, wide]
    show Outcome.ok _ = _
    rw [List.map_map]
    simp only [EqualWidth.column, List.length_map]
    rw [← columns]
    rfl

theorem getRow_eq {columns : List Column} {numRows i : Nat} {names : List Text} (inside : i < numRows) :
    RecordBatch.getRow ⟨columns, numRows, names⟩ i = some (columns.map (Column.get i)) :=
  if_neg (Nat.not_le.mpr inside)

theorem oneType_iff (e : EqualWidth) (j : Nat) :
    OneType e j ↔ ∃ t, (∃ val ∈ e.column j, orNull val ≠ .null) ∧
      ∀ val ∈ e.column j, orNull val = .null ∨ literalType (orNull val) = t := by
  have some : (∃ val ∈ e.column j, orNull val ≠ .null) ↔ ∃ row ∈ e.rows, orNull (cell row j) ≠ .null := by
    simp [EqualWidth.column]
  rw [OneType, some]
  apply exists_congr
  intro t
  rw [EqualWidth.column, List.forall_mem_map]

/-- The row that is read, cell by cell. -/
theorem reads_iff (e : EqualWidth) {columns : Nat → Column} {names : List Text} {i : Nat} {row : Row}
    (present : e.rows[i]? = some row) :
    (∃ read, RecordBatch.getRow ⟨(List.range e.width).map columns, e.rows.length, names⟩ i = some read ∧
        read.map orNull = row.values.map orNull) ↔
      ∀ j < e.width, orNull ((columns j).get i) = orNull (cell row j) := by
  obtain ⟨inside, -⟩ := List.getElem?_eq_some_iff.mp present
  have wide := map_cell (e.equal row (List.mem_of_getElem? present))
  rw [getRow_eq inside, wide, List.map_map, List.map_map]
  constructor
  · rintro ⟨read, given, same⟩ j small
    rw [← Option.some.inj given, List.map_map] at same
    exact List.map_inj_left.mp same j (List.mem_range.mpr small)
  · intro same
    refine ⟨_, rfl, ?_⟩
    rw [List.map_map]
    exact List.map_inj_left.mpr fun j among => same j (List.mem_range.mp among)

/-- A batch with rows. -/
theorem lossless_of_rows {e : EqualWidth} (empty : e.rows ≠ []) (columnNames : Option (List Text)) :
    BatchLossless X e columnNames ↔ ∀ j < e.width, OneType e j := by
  obtain ⟨names, built⟩ := rowsToRecordBatch_eq (X := X) e columnNames empty
  have length (j : Nat) : (e.column j).length = e.rows.length := List.length_map ..
  have filled (j : Nat) : e.column j ≠ [] := by
    intro nothing
    have same := length j
    rw [nothing] at same
    exact empty (List.length_eq_zero_iff.mp same.symm)
  have single (j : Nat) := (column_lossless (X := X) (e.column j)).trans (or_iff_right (filled j))
  simp only [length] at single built
  constructor
  · rintro ⟨batch, given, ⟨-, long⟩, reads⟩ j small
    rw [built, Outcome.ok.injEq] at given
    subst given
    apply (oneType_iff e j).mpr
    apply (single j).mp
    refine ⟨long _ (List.mem_map_of_mem (List.mem_range.mpr small)), fun i val at' => ?_⟩
    rw [EqualWidth.column, List.getElem?_map, Option.map_eq_some_iff] at at'
    obtain ⟨row, present, rfl⟩ := at'
    exact (reads_iff e present).mp (reads i row present) j small
  · intro one
    have good := fun j small => (single j).mpr ((oneType_iff e j).mp (one j small))
    refine ⟨_, built, ⟨rfl, ?_⟩, ?_⟩
    · intro column among
      obtain ⟨j, small, rfl⟩ := List.mem_map.mp among
      exact (good j (List.mem_range.mp small)).1
    · intro i row present
      apply (reads_iff e present).mpr
      intro j small
      apply (good j small).2 i (cell row j)
      rw [EqualWidth.column, List.getElem?_map, present]
      rfl

/-- **When a batch is lossless**: without rows, or where each column has a value and its values are of one
type. -/
theorem lossless_iff (X : Extern) (e : EqualWidth) (columnNames : Option (List Text)) :
    BatchLossless X e columnNames ↔ e.rows = [] ∨ ∀ j < e.width, OneType e j := by
  by_cases empty : e.rows = []
  · rw [BatchLossless, empty]
    constructor
    · intro _
      exact .inl rfl
    · intro _
      exact ⟨⟨[], 0, columnNames.getD []⟩, rfl, ⟨rfl, by simp⟩, by simp⟩
  · rw [or_iff_right empty]
    exact lossless_of_rows empty columnNames

/-- An integer and a text in one column: the integer reads back as a text. -/
theorem mixed_column_lost :
    ¬ BatchLossless Extern.ascii
      ⟨[⟨[some (.string ['a'])]⟩, ⟨[some (.integer 5)]⟩], 1, by simp⟩ none := by
  intro lossless
  obtain ⟨t, -, same⟩ := (lossless_of_rows (by simp) none).mp lossless 0 (by decide)
  rcases same _ (.head _) with null | text
  · exact absurd null (by decide)
  · rcases same _ (.tail _ (.head _)) with null | integer
    · exact absurd null (by decide)
    · exact absurd (text.trans integer.symm) (by decide)

/-- A column of two NULLs says it is four long. -/
example : rowsToRecordBatchWithNames Extern.ascii [⟨[none]⟩, ⟨[some .null]⟩] (some [['a']]) =
    .ok ⟨[.null 4], 2, [['a']]⟩ := by
  decide +kernel

end NovaRuntime.Sql
