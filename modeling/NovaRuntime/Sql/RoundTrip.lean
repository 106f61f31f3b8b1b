/-
# NovaRuntime.Sql.RoundTrip — the store and the tables in memory over runs of statements

A statement changes the tables in memory first and writes them afterwards. Where the
writing fails, or an INSERT fails behind its first row, the tables are ahead of the store
and stay so (`not_round_trips_run`); and a float that does not survive its document is
lost. `round_trips_run` covers the runs without these: after every statement an engine
opened on the store has the tables, their schemas and their rows.
-/
import NovaRuntime.Sql.Reopen

namespace NovaRuntime.Sql

open NovaRuntime.Library

set_option autoImplicit false

variable {X : Extern} {kv : KeyValue Json} {name : Text} {d : TableData}
variable {rows : List Row} {e : SQLEngine} {schema : Schema} {tables : TableStore}

/-! ## One table written -/

/-- The table fits into its documents. -/
def Persistable (X : Extern) (schema : Schema) (rows : List Row) : Prop :=
  X.jsonLen (PersistedTable.toJson ⟨schema, rows⟩) ≤ maxPersistValueSize ∨
  ∃ chunks, SQLEngine.chunkRows X [] [] rows = .ok chunks ∧
    (chunks = [] ∨ X.jsonLen (PersistedTableMeta.toJson ⟨schema, chunks.length⟩) ≤ maxPersistValueSize)

/-- The other keys are as they were. -/
def Frame (name : Text) (kv kv' : KeyValue Json) : Prop :=
  ∀ key, key ≠ tableKey name → (∀ idx, key ≠ tableChunkKey name idx) → kv'[key]? = kv[key]?

/-- Chunking loses no row and keeps their order. -/
theorem chunkRows_flatten {chunks : List (List Row)} {cur : List Row}
    {result : List (List Row)} (ran : SQLEngine.chunkRows X chunks cur rows = .ok result) :
    result.flatten = chunks.flatten ++ cur ++ rows := by
  induction rows generalizing chunks cur with
  | nil =>
    rw [SQLEngine.chunkRows] at ran
    cases ran
    split
    · rename_i none
      rw [List.isEmpty_iff.mp none, List.append_nil, List.append_nil]
    · simp
  | cons row rows ih =>
    rw [SQLEngine.chunkRows] at ran
    split at ran
    · split at ran
      · cases ran
      · split at ran
        · cases ran
        · rw [ih ran]
          simp
    · rw [ih ran]
      simp

theorem map_fst_deleteChunks (name : Text) (idxs : List Nat) :
    (SQLEngine.deleteChunks name idxs).map Prod.fst = idxs.map (tableChunkKey name) := by
  rw [SQLEngine.deleteChunks, List.map_map]
  rfl

theorem map_fst_setChunks (name : Text) (chunks : List (List Row)) :
    (SQLEngine.setChunks name chunks).map Prod.fst =
      (List.range chunks.length).map (tableChunkKey name) := by
  have positions : (List.range chunks.length) = chunks.zipIdx.map Prod.snd := by
    rw [List.zipIdx_map_snd, List.range_eq_range']
  rw [SQLEngine.setChunks, List.map_map, positions, List.map_map]
  rfl

/-- A write of a table names each of its keys once. -/
theorem nodup_tableKeys (plain : Plain name) {idxs : List Nat} (once : idxs.Nodup) :
    (tableKey name :: idxs.map (tableChunkKey name)).Nodup := by
  refine List.nodup_cons.mpr ⟨fun member => ?_, ?_⟩
  · obtain ⟨idx, -, same⟩ := List.mem_map.mp member
    exact tableKey_ne_chunkKey plain name idx same.symm
  · exact once.map fun i j same => ((tableChunkKey_inj plain plain).mp same).2

theorem frame_runBatch {ops : List (Bytes × Option Json)} {idxs : List Nat}
    (keys : ops.map Prod.fst = tableKey name :: idxs.map (tableChunkKey name))
    (kv : KeyValue Json) : Frame name kv (KeyValue.runBatch ops kv) := by
  intro key notTable notChunk
  refine KeyValue.getElem?_runBatch_of_not_mem ?_ kv
  rw [keys, List.mem_cons, List.mem_map]
  rintro (here | ⟨idx, -, here⟩)
  · exact notTable here
  · exact notChunk idx here.symm

theorem saved_singleDocument (plain : Plain name) (json : Json) (oldCount : Nat)
    (kv : KeyValue Json) :
    (KeyValue.runBatch (SQLEngine.singleDocument name json oldCount) kv)[tableKey name]? = some json ∧
    Frame name kv (KeyValue.runBatch (SQLEngine.singleDocument name json oldCount) kv) := by
  have keys : (SQLEngine.singleDocument name json oldCount).map Prod.fst =
      tableKey name :: (List.range oldCount).map (tableChunkKey name) := by
    rw [SQLEngine.singleDocument, List.map_cons, map_fst_deleteChunks]
  have once := nodup_tableKeys plain (List.nodup_range (n := oldCount))
  exact ⟨KeyValue.getElem?_runBatch_of_mem (keys ▸ once) (.head _) kv,
    frame_runBatch keys kv⟩

/-- The documents of a chunked table. -/
theorem saved_chunkDocuments (plain : Plain name) (schema : Schema) (chunks : List (List Row))
    (oldCount : Nat) (kv : KeyValue Json) :
    let kv' := KeyValue.runBatch (SQLEngine.chunkDocuments name
      (PersistedTableMeta.toJson ⟨schema, chunks.length⟩) chunks oldCount) kv
    Saved kv' name schema chunks.flatten ∧ Frame name kv kv' := by
  intro kv'
  have keys : (SQLEngine.chunkDocuments name (PersistedTableMeta.toJson ⟨schema, chunks.length⟩)
      chunks oldCount).map Prod.fst = tableKey name ::
        (List.range' 0 (chunks.length + (oldCount - chunks.length))).map (tableChunkKey name) := by
    rw [SQLEngine.chunkDocuments, List.map_cons, List.map_append, map_fst_setChunks,
      map_fst_deleteChunks, ← List.map_append, List.range_eq_range', ← List.range'_append_1]
    simp
  have once := nodup_tableKeys plain (List.nodup_range' (s := 0)
    (n := chunks.length + (oldCount - chunks.length)))
  refine ⟨.chunked chunks ?_ rfl fun i chunk here => ?_, frame_runBatch keys kv⟩
  · exact KeyValue.getElem?_runBatch_of_mem (keys ▸ once) (.head _) kv
  · refine KeyValue.getElem?_runBatch_of_mem (keys ▸ once) (.tail _
      (List.mem_append_left _ (List.mem_map.mpr ⟨(chunk, i), ?_, rfl⟩))) kv
    exact List.mem_zipIdx_iff_getElem?.mpr here

/-- **A table that fits is written**, and nothing else of the store is touched. -/
theorem writeTable_of_persistable (plain : Plain name)
    (fits : Persistable X schema rows) (kv : KeyValue Json) :
    ∃ kv', SQLEngine.writeTable X name schema rows kv = (.ok (), kv') ∧
      Saved kv' name schema rows ∧ Frame name kv kv' := by
  rw [SQLEngine.writeTable, Exec.get_bind]
  by_cases small : X.jsonLen (PersistedTable.toJson ⟨schema, rows⟩) ≤ maxPersistValueSize
  · rw [if_pos small]
    split
    · refine ⟨_, rfl, .single (by simp), fun key notTable _ => ?_⟩
      simp only [Std.TreeMap.getElem?_insert, byteCmp_eq, if_neg notTable.symm]
    · obtain ⟨document, frame⟩ := saved_singleDocument plain
        (PersistedTable.toJson ⟨schema, rows⟩) (SQLEngine.existingChunkCount X name kv) kv
      exact ⟨_, rfl, .single document, frame⟩
  · obtain ⟨chunks, split, room⟩ := fits.resolve_left small
    have whole := chunkRows_flatten split
    rw [List.flatten_nil, List.append_nil, List.nil_append] at whole
    rw [if_neg small, split, Exec.bind_apply, Exec.lift_apply]
    dsimp only
    have noChunk : ∀ (kv' : KeyValue Json) (i : Nat) chunk, ([] : List (List Row))[i]? = some chunk →
        kv'[tableChunkKey name i]? = some (rowsJson chunk) := by simp
    rcases room with rfl | room
    · obtain ⟨document, frame⟩ := saved_singleDocument plain
        (PersistedTableMeta.toJson ⟨schema, 0⟩) (SQLEngine.existingChunkCount X name kv) kv
      exact ⟨_, rfl, .chunked [] document whole (noChunk _), frame⟩
    · split
      · rename_i none
        obtain rfl := List.isEmpty_iff.mp none
        obtain ⟨document, frame⟩ := saved_singleDocument plain
          (PersistedTableMeta.toJson ⟨schema, 0⟩) (SQLEngine.existingChunkCount X name kv) kv
        exact ⟨_, rfl, .chunked [] document whole (noChunk _), frame⟩
      · rw [if_neg (not_lt.mpr room)]
        obtain ⟨saved, frame⟩ := saved_chunkDocuments plain schema chunks
          (SQLEngine.existingChunkCount X name kv) kv
        rw [whole] at saved
        exact ⟨_, rfl, saved, frame⟩

theorem persistTable_of_persistable (opened : e.storage = some kv)
    (found : e.tables.lookup name = some d) (plain : Plain name) (fits : Persistable X d.schema d.rows) :
    ∃ kv', SQLEngine.persistTable X name e = (.ok (), { e with storage := some kv' }) ∧
      Saved kv' name d.schema d.rows ∧ Frame name kv kv' := by
  obtain ⟨kv', ran, saved, frame⟩ := writeTable_of_persistable plain fits kv
  refine ⟨kv', ?_, saved, frame⟩
  rw [SQLEngine.persistTable, Exec.get_bind, opened]
  dsimp only
  rw [Exec.bind_of_ok (asSyntax_of_ok (onTables_apply e (getSchema_of_lookup found))),
    Exec.bind_of_ok (asSyntax_of_ok (onTables_apply e (scanRows_of_lookup found))),
    SQLEngine.onStorage, ran]

/-! ## The whole store -/

/-- The store gives the tables in memory: it lists their names, and each is saved. -/
structure Mirrors (X : Extern) (kv : KeyValue Json) (tables : TableStore) : Prop where
  listed : ∃ names : List Text, names.Nodup ∧
    (∀ name, name ∈ names ↔ (tables.lookup name).isSome = true) ∧
    (kv[tableNamesKey]? = some (namesJson names) ∨ names = [] ∧ kv[tableNamesKey]? = none)
  each : ∀ name d, tables.lookup name = some d →
    Plain name ∧ Saved kv name d.schema d.rows ∧ Loadable X d.schema d.rows

/-- A saved table stays so where its keys are as they were. -/
theorem Saved.of_same {kv' : KeyValue Json}
    (saved : Saved kv name schema rows) (atTable : kv'[tableKey name]? = kv[tableKey name]?)
    (atChunk : ∀ idx, kv'[tableChunkKey name idx]? = kv[tableChunkKey name idx]?) :
    Saved kv' name schema rows := by
  cases saved with
  | single document => exact .single (atTable.trans document)
  | chunked chunks document whole each =>
    exact .chunked chunks (atTable.trans document) whole fun i chunk here =>
      (atChunk i).trans (each i chunk here)

/-- The write of one table leaves the documents of another. -/
theorem Saved.of_frame {kv' : KeyValue Json} {other : Text}
    (saved : Saved kv other schema rows) (frame : Frame name kv kv') (plain : Plain name)
    (plain' : Plain other) (differ : other ≠ name) : Saved kv' other schema rows := by
  refine saved.of_same (frame _ ?_ ?_) fun idx => frame _ ?_ ?_
  · exact fun same => differ (tableKey_inj.mp same)
  · exact fun idx => tableKey_ne_chunkKey plain' name idx
  · exact fun same => tableKey_ne_chunkKey plain other idx same.symm
  · exact fun idx' same => differ ((tableChunkKey_inj plain' plain).mp same).1

theorem Frame.names {kv' : KeyValue Json} (frame : Frame name kv kv') :
    kv'[tableNamesKey]? = kv[tableNamesKey]? :=
  frame _ (tableKey_ne_names name).symm fun idx => (tableChunkKey_ne_names name idx).symm

namespace Mirrors

variable {tables tables' : TableStore}

theorem empty (fresh : kv[tableNamesKey]? = none) : Mirrors X kv ∅ where
  listed := ⟨[], .nil, by simp, .inr ⟨rfl, fresh⟩⟩
  each := by rintro name d ⟨⟩

/-- Another table is written over one there was. -/
theorem puts {kv' : KeyValue Json} {d' : TableData} (mirrors : Mirrors X kv tables)
    (found : tables.lookup name = some d) (puts : Puts tables name d' tables')
    (saved : Saved kv' name d'.schema d'.rows) (frame : Frame name kv kv')
    (loadable : Loadable X d'.schema d'.rows) : Mirrors X kv' tables' := by
  have plain := (mirrors.each name d found).1
  obtain ⟨names, once, same, document⟩ := mirrors.listed
  refine ⟨⟨names, once, fun other => ?_, by rwa [frame.names]⟩, fun other d₁ here => ?_⟩
  · rw [same other, puts other]
    split
    · rename_i here
      rw [here, found]
      rfl
    · rfl
  · rw [puts other] at here
    split at here
    · rename_i same
      cases here
      exact same ▸ ⟨plain, saved, loadable⟩
    · rename_i differ
      obtain ⟨plain', saved', loadable'⟩ := mirrors.each other d₁ here
      exact ⟨plain', saved'.of_frame frame plain plain' differ, loadable'⟩

theorem of_names (laws : X.Laws) {kv' : KeyValue Json}
    (each : ∀ name d, tables.lookup name = some d →
      Plain name ∧ Saved kv name d.schema d.rows ∧ Loadable X d.schema d.rows)
    (document : kv'[tableNamesKey]? = some (namesJson (X.hashOrder tables.keys)))
    (others : ∀ name d, tables.lookup name = some d → kv'[tableKey name]? = kv[tableKey name]? ∧
      ∀ idx, kv'[tableChunkKey name idx]? = kv[tableChunkKey name idx]?) : Mirrors X kv' tables := by
  have order := laws.hashOrder_perm tables.keys
  refine ⟨⟨_, order.nodup_iff.mpr tables.keys_nodup, fun name => ?_, .inl document⟩, ?_⟩
  · rw [order.mem_iff, AList.lookup_isSome]
    rfl
  · intro name d found
    obtain ⟨plain, saved, loadable⟩ := each name d found
    exact ⟨plain, saved.of_same (others name d found).1 (others name d found).2, loadable⟩

end Mirrors

theorem Loadable.empty (exact : schema.Exact X) : Loadable X schema [] where
  defaults := exact
  exact := nofun
  width := nofun
  room := Nat.zero_le _

/-- A table without rows always fits: its document is one without rows. -/
theorem Persistable.empty (X : Extern) (schema : Schema) : Persistable X schema [] :=
  .inr ⟨[], rfl, .inl rfl⟩

theorem keys_insert_of_absent (absent : tables.lookup name = none)
    (d : TableData) : (tables.insert name d).keys = name :: tables.keys := by
  rw [AList.keys, AList.entries_insert_of_notMem (AList.lookup_eq_none.mp absent)]
  rfl

theorem persistTableNames_apply (X : Extern) (tables : TableStore) (kv : KeyValue Json) :
    SQLEngine.persistTableNames X ⟨tables, some kv⟩ =
      if maxPersistValueSize < X.jsonLen (namesJson (X.hashOrder tables.keys)) then
        (.err (.ofMessage "too many tables to persist in one value".toList), ⟨tables, some kv⟩)
      else (.ok (), ⟨tables,
        some (kv.insert tableNamesKey (namesJson (X.hashOrder tables.keys)))⟩) := by
  have listed : TableStore.tableNames X tables = (.ok (X.hashOrder tables.keys), tables) := rfl
  rw [SQLEngine.persistTableNames, Exec.get_bind]
  dsimp only
  rw [Exec.bind_of_ok (onTables_apply _ listed)]
  split <;> rfl

/-- A new table is written, whatever the names. -/
theorem persistTable_of_created (tables : TableStore) (plain : Plain name) (schema : Schema)
    (kv : KeyValue Json) : ∃ kv', Saved kv' name schema [] ∧ Frame name kv kv' ∧
      SQLEngine.persistCreateTable X name ⟨tables.insert name ⟨schema, [], 0⟩, some kv⟩ =
        SQLEngine.persistTableNames X ⟨tables.insert name ⟨schema, [], 0⟩, some kv'⟩ := by
  have put := Puts.insert tables name ⟨schema, [], 0⟩
  obtain ⟨kv', ran, saved, frame⟩ := persistTable_of_persistable
    (e := ⟨tables.insert name ⟨schema, [], 0⟩, some kv⟩) rfl put.lookup plain
    (Persistable.empty X schema)
  refine ⟨kv', saved, frame, ?_⟩
  rw [SQLEngine.persistCreateTable, Exec.get_bind]
  dsimp only
  rw [Exec.bind_of_ok ran]

/-- **CREATE TABLE** writes the table and the list of names. -/
theorem persistCreateTable_of_mirrors (laws : X.Laws)
    (mirrors : Mirrors X kv tables) (absent : tables.lookup name = none) (plain : Plain name)
    (exact : schema.Exact X)
    (fits : X.jsonLen (namesJson (X.hashOrder (name :: tables.keys))) ≤ maxPersistValueSize) :
    ∃ kv', SQLEngine.persistCreateTable X name ⟨tables.insert name ⟨schema, [], 0⟩, some kv⟩ =
        (.ok (), ⟨tables.insert name ⟨schema, [], 0⟩, some kv'⟩) ∧
      Mirrors X kv' (tables.insert name ⟨schema, [], 0⟩) := by
  have put := Puts.insert tables name ⟨schema, [], 0⟩
  have keys := keys_insert_of_absent absent ⟨schema, [], 0⟩
  obtain ⟨kv₁, saved, frame, ran⟩ := persistTable_of_created (X := X) tables plain schema kv
  refine ⟨kv₁.insert tableNamesKey (namesJson (X.hashOrder (name :: tables.keys))), ?_, ?_⟩
  · rw [ran, persistTableNames_apply, keys, if_neg (not_lt.mpr fits)]
  have each : ∀ other d, (tables.insert name ⟨schema, [], 0⟩).lookup other = some d →
      Plain other ∧ Saved kv₁ other d.schema d.rows ∧ Loadable X d.schema d.rows := by
    intro other d here
    rw [put other] at here
    split at here
    · rename_i same
      cases here
      exact same ▸ ⟨plain, saved, .empty exact⟩
    · rename_i differ
      obtain ⟨plain', saved', loadable'⟩ := mirrors.each other d here
      exact ⟨plain', saved'.of_frame frame plain plain' differ, loadable'⟩
  refine Mirrors.of_names laws each ?_ fun other _ _ => ⟨?_, fun idx => ?_⟩
  · rw [keys]
    simp
  · simp only [Std.TreeMap.getElem?_insert, byteCmp_eq, if_neg (tableKey_ne_names other).symm]
  · simp only [Std.TreeMap.getElem?_insert, byteCmp_eq, if_neg (tableChunkKey_ne_names other idx).symm]

/-- **DROP TABLE** deletes the documents of the table and writes the list of names. -/
theorem persistDropTable_of_mirrors (laws : X.Laws)
    (mirrors : Mirrors X kv tables) (found : tables.lookup name = some d) :
    ∃ kv', SQLEngine.persistDropTable X name ⟨tables.erase name, some kv⟩ =
        (.ok (), ⟨tables.erase name, some kv'⟩) ∧ Mirrors X kv' (tables.erase name) := by
  have plain := (mirrors.each name d found).1
  have remaining : ∀ other d', (tables.erase name).lookup other = some d' →
      other ≠ name ∧ tables.lookup other = some d' := by
    intro other d' here
    rw [TableStore.lookup_erase_ite] at here
    split at here
    · cases here
    · rename_i differ
      exact ⟨differ, here⟩
  let names := X.hashOrder (tables.erase name).keys
  let idxs := List.range (SQLEngine.existingChunkCount X name kv)
  let ops : List (Bytes × Option Json) := (tableKey name, none) ::
    (SQLEngine.deleteChunks name idxs ++ [(tableNamesKey, some (namesJson names))])
  have keys : ops.map Prod.fst =
      (tableKey name :: idxs.map (tableChunkKey name)) ++ [tableNamesKey] := by
    rw [List.map_cons, List.map_append, map_fst_deleteChunks]
    rfl
  have once : (ops.map Prod.fst).Nodup := by
    rw [keys]
    refine List.Nodup.append (nodup_tableKeys plain List.nodup_range) (List.nodup_singleton _) ?_
    rw [List.disjoint_singleton, List.mem_cons, List.mem_map]
    rintro (same | ⟨idx, -, same⟩)
    · exact tableKey_ne_names name same.symm
    · exact tableChunkKey_ne_names name idx same
  have others : ∀ key, key ≠ tableKey name → (∀ idx, key ≠ tableChunkKey name idx) →
      key ≠ tableNamesKey → (KeyValue.runBatch ops kv)[key]? = kv[key]? := by
    intro key notTable notChunk notNames
    refine KeyValue.getElem?_runBatch_of_not_mem ?_ kv
    rw [keys, List.mem_append, List.mem_cons, List.mem_map, List.mem_singleton]
    rintro ((same | ⟨idx, -, same⟩) | same)
    · exact notTable same
    · exact notChunk idx same.symm
    · exact notNames same
  refine ⟨KeyValue.runBatch ops kv, rfl, Mirrors.of_names laws
    (fun other d' here => mirrors.each other d' (remaining other d' here).2) ?_
    fun other d' here => ?_⟩
  · exact KeyValue.getElem?_runBatch_of_mem once (by simp [ops, names]) kv
  · obtain ⟨differ, was⟩ := remaining other d' here
    have plain' := (mirrors.each other d' was).1
    exact ⟨others _ (fun same => differ (tableKey_inj.mp same))
        (fun idx => tableKey_ne_chunkKey plain' name idx) (tableKey_ne_names other),
      fun idx => others _ (fun same => tableKey_ne_chunkKey plain other idx same.symm)
        (fun idx' same => differ ((tableChunkKey_inj plain' plain).mp same).1)
        (tableChunkKey_ne_names other idx)⟩

/-! ## Statements -/

/-- An engine opened on the store of this one. -/
def reopen (X : Extern) (e : SQLEngine) : Result SQLEngine :=
  match e.storage with
  | none => .ok ⟨∅, none⟩
  | some kv => SQLEngine.newWithStorage X kv

/-- It has the same tables, schemas and rows, the rows in the same order. -/
def RoundTrips (X : Extern) (e : SQLEngine) : Prop :=
  ∃ e', reopen X e = .ok e' ∧ ∀ name, contents e'.tables name = contents e.tables name

/-- The store of the engine gives its tables. -/
def Stored (X : Extern) (e : SQLEngine) : Prop :=
  ∃ kv, e.storage = some kv ∧ Mirrors X kv e.tables

/-- What the run needs of a statement: that the table it leaves can be written and read
back, and that an INSERT does not fail behind its first row. -/
def Durable (X : Extern) (e : SQLEngine) : Statement → Prop
  | .createTable ct => e.tables.lookup ct.table.text = none →
      (SQLEngine.createdSchema ct).Exact X ∧
      X.jsonLen (namesJson (X.hashOrder (ct.table.text :: e.tables.keys))) ≤ maxPersistValueSize
  | .dropTable _ => True
  | .insert ins => ∀ d colIndices exprs rest, e.tables.lookup ins.table.text = some d →
      columnIndices d.schema ins.columns = .ok colIndices → ins.values = exprs :: rest →
      Exec.Refuses (insertValueRow X ins.table.text d.schema colIndices exprs) e.tables ∨
      ∃ tables' d', insertValueRows X ins.table.text d.schema colIndices ins.values e.tables =
          (.ok (), tables') ∧ tables'.lookup ins.table.text = some d' ∧
        Persistable X d'.schema d'.rows ∧ ∀ row ∈ d'.rows, row.Exact X
  | .update upd => ∀ d updated, e.tables.lookup upd.table.text = some d →
      d.rows.mapM (updateRow X d.schema upd) = .ok updated →
      Persistable X d.schema (updated.map Prod.fst) ∧ ∀ row ∈ updated.map Prod.fst, row.Exact X
  | .delete del => ∀ d marks, e.tables.lookup del.table.text = some d →
      deleteMarks X d.schema del d.rows = .ok marks →
      Persistable X d.schema ((marks.filter Prod.snd).map Prod.fst)

/-- **The store gives back the tables**, each with a counter made anew. -/
theorem Stored.reopens (stored : Stored X e) :
    ∃ tables', reopen X e = .ok ⟨tables', e.storage⟩ ∧
      (∀ name d, e.tables.lookup name = some d → ∃ rid, Restored d.schema d.rows rid ∧
        tables'.lookup name = some ⟨d.schema, d.rows, rid⟩) ∧
      ∀ name, e.tables.lookup name = none → tables'.lookup name = none := by
  obtain ⟨kv, opened, mirrors⟩ := stored
  obtain ⟨names, once, listed, document⟩ := mirrors.listed
  have known : ∀ name d, e.tables.lookup name = some d →
      contents e.tables name = some (d.schema, d.rows) := by
    intro name d found
    rw [contents, found]
    rfl
  have each : ∀ name ∈ names, ∃ schema rows, contents e.tables name = some (schema, rows) ∧
      Saved kv name schema rows ∧ Loadable X schema rows := by
    intro name member
    obtain ⟨d, found⟩ := Option.isSome_iff_exists.mp ((listed name).mp member)
    exact ⟨d.schema, d.rows, known name d found, (mirrors.each name d found).2⟩
  have absent : ∀ name ∈ names, (∅ : TableStore).lookup name = none := fun name _ => rfl
  obtain ⟨tables', loaded, inNames, others⟩ := loadNamed_of_saved once absent each
  have restored : SQLEngine.loadTables X ⟨∅, some kv⟩ = (.ok (), ⟨tables', some kv⟩) := by
    rw [SQLEngine.loadTables, Exec.get_bind]
    rcases document with document | ⟨rfl, document⟩
    · simp only [document, namesOfJson_namesJson]
      exact onTables_apply _ loaded
    · simp only [document]
      cases loaded
      rfl
  refine ⟨tables', ?_, fun name d found => ?_, fun name unknown => ?_⟩
  · rw [reopen, opened]
    dsimp only
    rw [SQLEngine.newWithStorage, restored]
  · have member : name ∈ names := (listed name).mpr (by rw [found]; rfl)
    obtain ⟨schema, rows, rid, same, counter, here⟩ := inNames name member
    rw [known name d found] at same
    cases same
    exact ⟨rid, counter, here⟩
  · have unlisted : name ∉ names := fun member => by
      rw [listed name, unknown] at member
      cases member
    exact others name unlisted

theorem Stored.roundTrips (stored : Stored X e) : RoundTrips X e := by
  obtain ⟨tables', opened, loaded, others⟩ := stored.reopens
  refine ⟨⟨tables', e.storage⟩, opened, fun name => ?_⟩
  unfold contents
  cases found : e.tables.lookup name with
  | some d =>
    obtain ⟨rid, -, here⟩ := loaded name d found
    rw [here]
    rfl
  | none => rw [others name found]

/-- The value rows of an INSERT that all go in. -/
theorem insertValueRows_ok {tables' : TableStore} (found : tables.lookup name = some d)
    {colIndices : List Nat} {values : List (List Expr)}
    (ran : insertValueRows X name d.schema colIndices values tables = (.ok (), tables'))
    (width : ∀ row ∈ d.rows, row.values.length = d.schema.len) (room : d.rows.length ≤ vecMax) :
    ∃ d', Puts tables name d' tables' ∧ d'.schema = d.schema ∧
      (∀ row ∈ d'.rows, row.values.length = d.schema.len) ∧ d'.rows.length ≤ vecMax := by
  induction values generalizing tables d with
  | nil =>
    cases ran
    exact ⟨d, .refl found, rfl, width, room⟩
  | cons exprs rest ih =>
    rw [insertValueRows] at ran
    obtain ⟨u, tables₁, first, ran⟩ := Exec.bind_eq_ok.mp ran
    rcases insertValueRow_cases (X := X) found colIndices exprs with
      ⟨-, notOk⟩ | ⟨rowValues, o, tables₂, rid, accepted, inserted, -, puts⟩
    · exact absurd (congrArg Prod.fst first) (notOk u)
    · obtain rfl : tables₂ = tables₁ := congrArg Prod.snd (inserted.symm.trans first)
      have widths : ∀ row ∈ d.rows ++ [Row.mk rowValues], row.values.length = d.schema.len := by
        intro row member
        rcases List.mem_append.mp member with old | new
        · exact width row old
        · rw [List.mem_singleton.mp new]
          exact accepted.width
      have larger : (d.rows ++ [Row.mk rowValues]).length ≤ vecMax := by
        rw [List.length_append, List.length_singleton]
        exact accepted.room
      obtain ⟨d', puts', schema, width', room'⟩ := ih puts.lookup ran widths larger
      exact ⟨d', puts.trans puts', schema, width', room'⟩

/-! ## Runs -/

section

variable (stored : Stored X e)

include stored

/-- The table under a name is written over in memory and then in the store. -/
theorem Stored.persistTable (found : e.tables.lookup name = some d) {tables' : TableStore} {d' : TableData}
    (puts : Puts e.tables name d' tables') (fits : Persistable X d'.schema d'.rows)
    (loadable : Loadable X d'.schema d'.rows) :
    ∃ e', SQLEngine.persistTable X name { e with tables := tables' } = (.ok (), e') ∧ Stored X e' := by
  obtain ⟨kv, opened, mirrors⟩ := stored
  obtain ⟨kv', ran, saved, frame⟩ := persistTable_of_persistable
    (e := { e with tables := tables' }) opened puts.lookup (mirrors.each name d found).1 fits
  exact ⟨_, ran, kv', rfl, mirrors.puts found puts saved frame loadable⟩

theorem Stored.loadable (found : e.tables.lookup name = some d) : Loadable X d.schema d.rows := by
  obtain ⟨kv, -, mirrors⟩ := stored
  exact (mirrors.each name d found).2.2

theorem Stored.insert {ins : InsertStatement}
    (durable : Durable X e (.insert ins)) : Stored X (SQLEngine.executeInsert X ins e).2 := by
  rcases executeInsert_cases X e ins with refused | ⟨d, colIndices, found, known, ran⟩
  · rw [refused.1]
    exact stored
  rw [ran]
  cases values : ins.values with
  | nil => exact stored
  | cons exprs rest =>
    have loadable := stored.loadable found
    rcases durable d colIndices exprs rest found known values with
      refused | ⟨tables', d', inserted, here, fits, exact⟩
    · -- the first row is refused, so nothing has changed
      have loop : Exec.Refuses (insertValueRows X ins.table.text d.schema colIndices
          (exprs :: rest)) e.tables := refused.bind _
      rw [((refuses_onTables loop).bind _).1]
      exact stored
    · rw [values] at inserted
      obtain ⟨d₁, puts, schema, width, room⟩ :=
        insertValueRows_ok found inserted loadable.width loadable.room
      obtain rfl : d₁ = d' := Option.some.inj (puts.lookup.symm.trans here)
      rw [← schema] at width
      obtain ⟨e', written, stored'⟩ := stored.persistTable found puts fits
        ⟨schema ▸ loadable.defaults, exact, width, room⟩
      rw [Exec.bind_of_ok (onTables_apply e inserted), if_neg (by simp), Exec.bind_of_ok written]
      exact stored'

theorem Stored.update {upd : UpdateStatement}
    (durable : Durable X e (.update upd)) : Stored X (SQLEngine.executeUpdate X upd e).2 := by
  rcases executeUpdate_cases X e upd with refused | ⟨d, updated, found, known, ran⟩
  · rw [refused.1]
    exact stored
  obtain ⟨fits, exact⟩ := durable d updated found known
  have loadable := stored.loadable found
  have width : ∀ row ∈ updated.map Prod.fst, row.values.length = d.schema.len := by
    intro row member
    obtain ⟨⟨row', selected⟩, new, rfl⟩ := List.mem_map.mp member
    obtain ⟨old, was, same⟩ := Outcome.exists_of_mem_mapM known new
    rw [(updateRow_ok same).1]
    exact loadable.width old was
  have room : (updated.map Prod.fst).length ≤ vecMax := by
    rw [List.length_map, ← (Outcome.mapM_eq_ok known).length_eq]
    exact loadable.room
  obtain ⟨e', written, stored'⟩ := stored.persistTable found
    (.insert _ _ { d with rows := updated.map Prod.fst }) fits ⟨loadable.defaults, exact, width, room⟩
  rw [ran, Exec.bind_of_ok written]
  exact stored'

theorem Stored.delete {del : DeleteStatement}
    (durable : Durable X e (.delete del)) : Stored X (SQLEngine.executeDelete X del e).2 := by
  rcases executeDelete_cases X e del with refused | ⟨d, marks, found, known, ran⟩
  · rw [refused.1]
    exact stored
  have fits := durable d marks found known
  have loadable := stored.loadable found
  have fewer := deleteMarks_sublist known
  obtain ⟨e', written, stored'⟩ := stored.persistTable found
    (.insert _ _ { d with rows := (marks.filter Prod.snd).map Prod.fst }) fits
    ⟨loadable.defaults, fun row member => loadable.exact row (fewer.subset member),
      fun row member => loadable.width row (fewer.subset member),
      fewer.length_le.trans loadable.room⟩
  rw [ran, Exec.bind_of_ok written]
  exact stored'

end

section

variable (laws : X.Laws) (stored : Stored X e)

include laws stored

/-- **Step: CREATE TABLE.** -/
theorem Stored.createTable {ct : CreateTableStatement} (durable : Durable X e (.createTable ct)) :
    Stored X (SQLEngine.executeCreateTable X ct e).2 := by
  rcases executeCreateTable_cases X e ct with refused | ⟨absent, ran⟩
  · rw [refused.1]
    exact stored
  obtain ⟨exact, fits⟩ := durable absent
  obtain ⟨kv, opened, mirrors⟩ := stored
  obtain ⟨kv', written, mirrors'⟩ :=
    persistCreateTable_of_mirrors laws mirrors absent ct.table.colon_not_mem exact fits
  rw [ran, opened, Exec.bind_of_ok (asSyntax_of_ok written)]
  exact ⟨kv', rfl, mirrors'⟩

/-- **Step: DROP TABLE.** -/
theorem Stored.dropTable (dt : DropTableStatement) : Stored X (SQLEngine.executeDropTable X dt e).2 := by
  rcases executeDropTable_cases X e dt with refused | ⟨⟨d, found⟩, ran⟩
  · rw [refused.1]
    exact stored
  obtain ⟨kv, opened, mirrors⟩ := stored
  obtain ⟨kv', written, mirrors'⟩ := persistDropTable_of_mirrors laws mirrors found
  rw [ran, opened, Exec.bind_of_ok (asSyntax_of_ok written)]
  exact ⟨kv', rfl, mirrors'⟩

/-- **Step.** After a statement the store gives the tables again. -/
theorem Stored.step {stmt : Statement} (durable : Durable X e stmt) : Stored X (e.step X stmt) := by
  cases stmt with
  | createTable ct => exact stored.createTable laws durable
  | dropTable dt => exact stored.dropTable laws dt
  | insert ins => exact stored.insert durable
  | update upd => exact stored.update durable
  | delete del => exact stored.delete durable

end

/-- **The tables round-trip in every state of a run** from a new store. -/
theorem round_trips_run (X : Extern) (laws : X.Laws) (storage : KeyValue Json)
    (fresh : storage[tableNamesKey]? = none) (stmts : List Statement)
    (durable : Run.Each (SQLEngine.step X) (Durable X) ⟨∅, some storage⟩ stmts) :
    ∀ e ∈ Run.states (SQLEngine.step X) ⟨∅, some storage⟩ stmts, RoundTrips X e := by
  intro e member
  have stored := Run.Each.invariant (I := Stored X) (fun e stmt held meets => held.step laws meets)
    ⟨storage, rfl, .empty fresh⟩ durable e member
  exact stored.roundTrips

/-- `CREATE TABLE name (k INTEGER PRIMARY KEY)`. -/
def createKeyed (name : Identifier) : Statement :=
  .createTable ⟨name, [⟨['k'], .integer, false, none, false, true, false⟩]⟩

/-- `INSERT INTO name VALUES (first), (second)`. -/
def insertKeys (name : Identifier) (first second : Int64) : Statement :=
  .insert ⟨name, [], [[.literal (.integer first)], [.literal (.integer second)]]⟩

def keyedTable : Identifier := ⟨['a'], by decide⟩

def otherTable : Identifier := ⟨['b'], by decide⟩

def keyedSchema : Schema := ⟨[⟨['k'], .integer, false, none, 0, true, true, false⟩]⟩

def keyedRow (k : Int64) : Row := ⟨[some (.integer k)]⟩

theorem round_trips_run_sample : Run.Always (SQLEngine.step .ascii) (RoundTrips .ascii)
    ⟨∅, some ∅⟩ [createKeyed keyedTable, insertKeys keyedTable 1 2, .dropTable ⟨keyedTable⟩] := by
  refine round_trips_run .ascii Extern.ascii_laws ∅ (by decide +kernel) _ ⟨?_, ?_, trivial, trivial⟩
  · refine fun _ => ⟨fun col member v default => ?_, by decide +kernel⟩
    rw [List.mem_singleton.mp member] at default
    cases default
  · intro d colIndices exprs rest found known values
    have table : d = ⟨keyedSchema, [], 0⟩ :=
      Option.some.inj (found.symm.trans (by decide +kernel))
    subst table
    have first : colIndices = [0] := Outcome.ok.inj (known.symm.trans (by decide +kernel))
    subst first
    have inserted : (insertValueRows .ascii ['a'] keyedSchema [0]
        [[.literal (.integer 1)], [.literal (.integer 2)]]
        (SQLEngine.step .ascii ⟨∅, some ∅⟩ (createKeyed keyedTable)).tables).1 = .ok () := by
      decide +kernel
    refine .inr ⟨_, ⟨keyedSchema, [keyedRow 1, keyedRow 2], 2⟩, Exec.eq_ok_of_fst inserted,
      by decide +kernel, .inl (by decide +kernel), fun row member v value => ?_⟩
    rcases List.mem_cons.mp member with rfl | member
    · rw [Option.some.inj (List.mem_singleton.mp value)]
      trivial
    · rw [List.mem_singleton.mp member] at value
      rw [Option.some.inj (List.mem_singleton.mp value)]
      trivial

/-- **A row that was never written**: an INSERT that fails at its second row leaves the
first in memory, and after a later statement that succeeds it is still not in the store. -/
theorem not_round_trips_run : ¬ ∀ (X : Extern) (storage : KeyValue Json), X.Laws →
    storage[tableNamesKey]? = none → ∀ stmts : List Statement,
      Run.Each (SQLEngine.step X)
        (fun e stmt => (∃ n, (SQLEngine.executeStatement X stmt e).1 = .ok n) → RoundTrips X (e.step X stmt))
        ⟨∅, some storage⟩ stmts := by
  intro all
  obtain ⟨-, -, third, -⟩ := all .ascii ∅ Extern.ascii_laws (by decide +kernel)
    [createKeyed keyedTable, insertKeys keyedTable 1 1, createKeyed otherTable]
  obtain ⟨e', opened, same⟩ := third ⟨0, by decide +kernel⟩
  have loaded := congrArg (fun o => Outcome.elim o (fun e => contents e.tables ['a']) none) opened
  refine absurd (loaded.trans (same ['a'])) ?_
  decide +kernel

end NovaRuntime.Sql
