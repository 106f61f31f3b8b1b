/-
# NovaRuntime.Sql.Reopen — an engine opened on a store has the tables the store was written from

`Saved` says that the documents of a store give a table, in either layout. A load builds
such a table with its schema and its rows in their order (`loadTable_of_saved`), and so
all the tables a store lists (`loadNamed_of_saved`). The counter of row identifiers is
not in the store; a load counts the rows anew.
-/
import NovaRuntime.Sql.Documents
import NovaRuntime.Sql.EngineSpec

namespace NovaRuntime.Sql

open NovaRuntime.Library

set_option autoImplicit false

variable {X : Extern} {kv : KeyValue Json} {name : Text} {tables : TableStore} {d : TableData}

/-! ## Saved tables -/

/-- The documents of the store give the table: one document, or one and its chunks. -/
inductive Saved (kv : KeyValue Json) (name : Text) (schema : Schema) (rows : List Row) : Prop
  | single (document : kv[tableKey name]? = some (PersistedTable.toJson ⟨schema, rows⟩))
  | chunked (chunks : List (List Row))
      (document : kv[tableKey name]? = some (PersistedTableMeta.toJson ⟨schema, chunks.length⟩))
      (whole : chunks.flatten = rows)
      (each : ∀ (i : Nat) chunk, chunks[i]? = some chunk →
        kv[tableChunkKey name i]? = some (rowsJson chunk))

/-- What a load needs of a table. -/
structure Loadable (X : Extern) (schema : Schema) (rows : List Row) : Prop where
  defaults : schema.Exact X
  exact : ∀ row ∈ rows, row.Exact X
  width : ∀ row ∈ rows, row.values.length = schema.len
  room : rows.length ≤ vecMax

/-- The schema and the rows under a name. -/
def contents (tables : TableStore) (name : Text) : Option (Schema × List Row) :=
  (tables.lookup name).map fun d => (d.schema, d.rows)

/-! ## Rows put in one after the other -/

theorem asSyntax_of_ok {σ α : Type} {x : Exec SQLError σ α} {s s' : σ} {a : α}
    (ran : x s = (.ok a, s')) : SQLEngine.asSyntax x s = (.ok a, s') := Exec.mapErr_of_ok ran

/-- The table `d'` is `d` with more rows, and its counter counts them. -/
structure Grown (d : TableData) (rows : List Row) (d' : TableData) : Prop where
  schema : d'.schema = d.schema
  rows : d'.rows = d.rows ++ rows
  counted : d'.nextRowId.toNat = d'.rows.length

theorem insertRow_of_counted (found : tables.lookup name = some d)
    (counted : d.nextRowId.toNat = d.rows.length) {row : Row}
    (width : row.values.length = d.schema.len) (room : d.rows.length < vecMax) :
    ∃ tables' d', SQLEngine.asSyntax (TableStore.insertRow X name row) tables = (.ok (), tables') ∧
      Puts tables name d' tables' ∧ Grown d [row] d' := by
  have small : d.rows.length + 1 < 2 ^ 64 := by
    have : vecMax < 2 ^ 63 := by decide
    omega
  have next : increment X d.nextRowId = .ok (d.nextRowId + 1) := by
    rw [increment, if_neg]
    rintro ⟨-, full⟩
    omega
  refine ⟨(tables.insert name { d with rows := d.rows ++ [row] }).insert name _,
    { d with rows := d.rows ++ [row], nextRowId := d.nextRowId + 1 },
    asSyntax_of_ok ?_, (Puts.insert tables name _).trans (.insert _ name _), rfl, rfl, ?_⟩
  · rw [TableStore.insertRow, Exec.bind_of_ok (TableStore.data_of_lookup found),
      if_neg (not_not.mpr width), if_neg (not_le.mpr room), TableStore.store, Exec.modify_bind,
      Exec.bind_apply, Exec.lift_apply, next]
    rfl
  · show (d.nextRowId + 1).toNat = (d.rows ++ [row]).length
    rw [UInt64.toNat_add, counted, List.length_append, List.length_singleton]
    exact Nat.mod_eq_of_lt small

theorem Grown.trans {d' d'' : TableData} {rows rows' : List Row} (first : Grown d rows d')
    (next : Grown d' rows' d'') : Grown d (rows ++ rows') d'' where
  schema := next.schema.trans first.schema
  rows := by rw [next.rows, first.rows, List.append_assoc]
  counted := next.counted

section

variable (found : tables.lookup name = some d)

include found

theorem insertRows_of_counted (counted : d.nextRowId.toNat = d.rows.length) {rows : List Row}
    (width : ∀ row ∈ rows, row.values.length = d.schema.len)
    (room : d.rows.length + rows.length ≤ vecMax) :
    ∃ tables' d', SQLEngine.insertRows X name rows tables = (.ok (), tables') ∧
      Puts tables name d' tables' ∧ Grown d rows d' := by
  induction rows generalizing tables d with
  | nil => exact ⟨tables, d, rfl, .refl found, rfl, (List.append_nil _).symm, counted⟩
  | cons row rows ih =>
    rw [List.length_cons] at room
    obtain ⟨tables₁, d₁, ran₁, puts₁, grown₁⟩ := insertRow_of_counted (X := X) found counted
      (width row (.head _)) (by omega)
    obtain ⟨tables₂, d₂, ran₂, puts₂, grown₂⟩ := ih puts₁.lookup grown₁.counted
      (fun later member => by
        rw [grown₁.schema]
        exact width later (List.mem_cons_of_mem row member))
      (by
        rw [grown₁.rows, List.length_append, List.length_singleton]
        omega)
    refine ⟨tables₂, d₂, ?_, puts₁.trans puts₂, grown₁.trans grown₂⟩
    rw [SQLEngine.insertRows, Exec.bind_of_ok ran₁]
    exact ran₂

/-! ## Chunks -/

theorem loadChunks_of_saved (counted : d.nextRowId.toNat = d.rows.length) {chunks : List (List Row)} {start : Nat}
    (each : ∀ (i : Nat) chunk, chunks[i]? = some chunk →
      kv[tableChunkKey name (start + i)]? = some (rowsJson chunk))
    (loadable : Loadable X d.schema (d.rows ++ chunks.flatten)) :
    ∃ tables' d', SQLEngine.loadChunks X name kv (List.range' start chunks.length) tables =
        (.ok (), tables') ∧ Puts tables name d' tables' ∧ Grown d chunks.flatten d' := by
  induction chunks generalizing tables d start with
  | nil => exact ⟨tables, d, rfl, .refl found, rfl, (List.append_nil _).symm, counted⟩
  | cons chunk chunks ih =>
    have members : ∀ row ∈ chunk, row ∈ d.rows ++ (chunk :: chunks).flatten := fun row member =>
      List.mem_append_right _ (List.mem_append_left _ member)
    have document := each 0 chunk rfl
    have read := rowsOfJson_rowsJson (X := X) fun row member =>
      loadable.exact row (members row member)
    have room := loadable.room
    rw [List.flatten_cons, List.length_append, List.length_append] at room
    obtain ⟨tables₁, d₁, ran₁, puts₁, grown₁⟩ := insertRows_of_counted (X := X) found counted
      (fun row member => loadable.width row (members row member)) (by omega)
    have loadable₁ : Loadable X d₁.schema (d₁.rows ++ chunks.flatten) := by
      rw [grown₁.schema, grown₁.rows, List.append_assoc]
      exact loadable
    have eachLater : ∀ (i : Nat) later, chunks[i]? = some later →
        kv[tableChunkKey name (start + 1 + i)]? = some (rowsJson later) := by
      intro i later here
      rw [Nat.add_assoc, Nat.add_comm 1]
      exact each (i + 1) later here
    obtain ⟨tables₂, d₂, ran₂, puts₂, grown₂⟩ := ih puts₁.lookup grown₁.counted eachLater loadable₁
    refine ⟨tables₂, d₂, ?_, puts₁.trans puts₂, grown₁.trans grown₂⟩
    have loaded : SQLEngine.loadChunk X name kv start tables = (.ok (), tables₁) := by
      rw [Nat.add_zero] at document
      simp only [SQLEngine.loadChunk, document, read, ran₁]
    rw [List.length_cons, List.range'_succ, SQLEngine.loadChunks, Exec.bind_of_ok loaded]
    exact ran₂

/-- What a column asks of the counter of a table that is loaded. -/
def restoredId (rows : List Row) (col : ColumnInfo × Nat) : List UInt64 :=
  if col.1.autoIncrement then [SQLEngine.maxId rows col.2] else []

theorem restoreColumn_of_lookup (col : ColumnInfo × Nat) :
    ∃ tables' rid, SQLEngine.restoreColumn name col tables = (.ok (), tables') ∧
      Raised d.nextRowId (restoredId d.rows col) rid ∧
      Puts tables name { d with nextRowId := rid } tables' := by
  obtain ⟨col, idx⟩ := col
  rw [SQLEngine.restoreColumn, restoredId]
  by_cases auto : col.autoIncrement = true
  · rw [if_pos auto, if_pos auto, Exec.bind_of_ok (asSyntax_of_ok (scanRows_of_lookup found))]
    split
    · obtain ⟨tables', rid, ran, raised, puts⟩ :=
        ensureNextRowId_of_lookup found (SQLEngine.maxId d.rows idx)
      exact ⟨tables', rid, asSyntax_of_ok ran, raised, puts⟩
    · rename_i none
      have zero : (SQLEngine.maxId d.rows idx).toNat = 0 :=
        Nat.eq_zero_of_not_pos (UInt64.lt_iff_toNat_lt.not.mp none)
      exact ⟨tables, d.nextRowId, rfl, ⟨le_rfl, by simp [zero], .inl rfl⟩, .refl found⟩
  · rw [if_neg auto, if_neg auto]
    exact ⟨tables, d.nextRowId, rfl, .refl _, .refl found⟩

theorem restoreColumns_of_lookup (cols : List (ColumnInfo × Nat)) :
    ∃ tables' rid, SQLEngine.restoreColumns name cols tables = (.ok (), tables') ∧
      Raised d.nextRowId (cols.flatMap (restoredId d.rows)) rid ∧
      Puts tables name { d with nextRowId := rid } tables' := by
  induction cols generalizing tables d with
  | nil => exact ⟨tables, d.nextRowId, rfl, .refl _, .refl found⟩
  | cons col cols ih =>
    obtain ⟨tables₁, rid₁, ran₁, raised₁, puts₁⟩ := restoreColumn_of_lookup found col
    obtain ⟨tables₂, rid₂, ran₂, raised₂, puts₂⟩ := ih puts₁.lookup
    refine ⟨tables₂, rid₂, ?_, ?_, puts₁.trans puts₂⟩
    · rw [SQLEngine.restoreColumns, Exec.bind_of_ok ran₁]
      exact ran₂
    · rw [List.flatMap_cons]
      exact raised₁.trans raised₂

end

/-- The counter of a table that is loaded: its rows are counted, and it is raised to the
greatest identifier of each AUTO_INCREMENT column. -/
def Restored (schema : Schema) (rows : List Row) (rid : UInt64) : Prop :=
  ∃ start : UInt64, start.toNat = rows.length ∧
    Raised start (schema.columns.zipIdx.flatMap (restoredId rows)) rid

/-! ## Tables -/

theorem createTable_of_absent (absent : tables.lookup name = none) (schema : Schema) :
    SQLEngine.asSyntax (TableStore.createTable name schema) tables =
      (.ok (), tables.insert name ⟨schema, [], 0⟩) := by
  refine asSyntax_of_ok ?_
  rw [TableStore.createTable, Exec.get_bind, absent]
  rfl

/-- **A saved table is loaded** with its schema and its rows. -/
theorem loadTable_of_saved {schema : Schema} {rows : List Row} (absent : tables.lookup name = none)
    (saved : Saved kv name schema rows) (loadable : Loadable X schema rows) :
    ∃ tables' rid, SQLEngine.loadTable X kv name tables = (.ok (), tables') ∧
      Restored schema rows rid ∧ Puts tables name ⟨schema, rows, rid⟩ tables' := by
  have created := createTable_of_absent absent schema
  have puts₀ := Puts.insert tables name ⟨schema, [], 0⟩
  -- what is left once the rows are in
  have finish : ∀ {x : TableStore.Method Unit} {tables₁ d₁},
      x (tables.insert name ⟨schema, [], 0⟩) = (.ok (), tables₁) →
      Puts (tables.insert name ⟨schema, [], 0⟩) name d₁ tables₁ → Grown ⟨schema, [], 0⟩ rows d₁ →
      ∃ tables' rid, (do
        SQLEngine.asSyntax (TableStore.createTable name schema)
        x
        SQLEngine.restoreAutoIncrement name schema : TableStore.Method Unit) tables =
          (.ok (), tables') ∧ Restored schema rows rid ∧
          Puts tables name ⟨schema, rows, rid⟩ tables' := by
    intro x tables₁ d₁ ran puts₁ grown
    have same : d₁.rows = rows := grown.rows
    obtain ⟨tables₂, rid, restored, raised, puts₂⟩ :=
      restoreColumns_of_lookup puts₁.lookup schema.columns.zipIdx
    refine ⟨tables₂, rid, ?_, ⟨d₁.nextRowId, ?_, ?_⟩, ?_⟩
    · rw [Exec.bind_of_ok created, Exec.bind_of_ok ran]
      exact restored
    · rw [grown.counted, same]
    · rw [← same]
      exact raised
    · have whole := (puts₀.trans puts₁).trans puts₂
      rw [grown.schema, grown.rows, List.nil_append] at whole
      exact whole
  unfold SQLEngine.loadTable
  cases saved with
  | single document =>
    simp only [document, PersistedTable.ofJson_toJson (X := X) (t := ⟨schema, rows⟩)
      loadable.defaults loadable.exact]
    obtain ⟨tables₁, d₁, ran, puts₁, grown⟩ := insertRows_of_counted (X := X) puts₀.lookup rfl
      loadable.width (by simpa using loadable.room)
    exact finish ran puts₁ grown
  | chunked chunks document whole each =>
    simp only [document, PersistedTable.ofJson_meta, PersistedTableMeta.ofJson_toJson (X := X)
      (m := ⟨schema, chunks.length⟩) loadable.defaults]
    subst whole
    have eachFrom : ∀ (i : Nat) chunk, chunks[i]? = some chunk →
        kv[tableChunkKey name (0 + i)]? = some (rowsJson chunk) := by
      intro i chunk here
      rw [Nat.zero_add]
      exact each i chunk here
    obtain ⟨tables₁, d₁, ran, puts₁, grown⟩ := loadChunks_of_saved (X := X)
      puts₀.lookup rfl eachFrom loadable
    rw [← List.range_eq_range'] at ran
    exact finish ran puts₁ grown

/-- **All the tables a store lists are loaded**, and no others. -/
theorem loadNamed_of_saved {names : List Text} {saved : Text → Option (Schema × List Row)}
    (once : names.Nodup) (absent : ∀ name ∈ names, tables.lookup name = none)
    (each : ∀ name ∈ names, ∃ schema rows, saved name = some (schema, rows) ∧
      Saved kv name schema rows ∧ Loadable X schema rows) :
    ∃ tables', SQLEngine.loadNamed X kv names tables = (.ok (), tables') ∧
      (∀ other ∈ names, ∃ schema rows rid, saved other = some (schema, rows) ∧
        Restored schema rows rid ∧ tables'.lookup other = some ⟨schema, rows, rid⟩) ∧
      ∀ other, other ∉ names → tables'.lookup other = tables.lookup other := by
  induction names generalizing tables with
  | nil => exact ⟨tables, rfl, by simp, fun _ _ => rfl⟩
  | cons name names ih =>
    obtain ⟨fresh, later⟩ := List.nodup_cons.mp once
    obtain ⟨schema, rows, known, stored, loadable⟩ := each name (.head _)
    obtain ⟨tables₁, rid, ran₁, restored, puts₁⟩ :=
      loadTable_of_saved (X := X) (absent name (.head _)) stored loadable
    obtain ⟨tables₂, ran₂, loaded, rest⟩ := ih later
      (fun other member => by
        have differ : other ≠ name := fun here => fresh (here ▸ member)
        rw [puts₁ other, if_neg differ]
        exact absent other (List.mem_cons_of_mem name member))
      fun other member => each other (List.mem_cons_of_mem name member)
    refine ⟨tables₂, ?_, fun other member => ?_, fun other unlisted => ?_⟩
    · rw [SQLEngine.loadNamed, Exec.bind_of_ok ran₁]
      exact ran₂
    · rcases List.mem_cons.mp member with rfl | member
      · refine ⟨schema, rows, rid, known, restored, ?_⟩
        rw [rest other fresh]
        exact puts₁.lookup
      · exact loaded other member
    · obtain ⟨differ, unlisted⟩ := not_or.mp (List.mem_cons.not.mp unlisted)
      rw [rest other unlisted, puts₁ other, if_neg differ]

end NovaRuntime.Sql
