/-
# NovaRuntime.Sql.Persist — `SQLEngine`'s tables in the key-value store

The persistence half of `engine.rs`: `persist_table`, `persist_table_names`,
`persist_create_table`, `persist_drop_table` and `load_tables`. A table is one document
with its rows, or a document without them and one for each chunk of rows. The store
holds documents as trees: `toJson` and `ofJson` are the derived `Serialize` and
`Deserialize`, for the documents the crate itself writes. A float that is not finite
is written as `null`, and `null` is no float.

The store is taken as correct: a call of it never fails. The texts of `serde_json`'s own
errors are not kept, a load only logs them.
-/
import NovaRuntime.Library.KeyValue
import NovaRuntime.Sql.Evaluate
import NovaRuntime.Sql.TableStore

namespace NovaRuntime.Sql

open NovaRuntime.Library

set_option autoImplicit false

/-! ## Documents -/

/-- `Serialize` of an `Option`. -/
def optionJson {α : Type} (write : α → Json) : Option α → Json
  | none => .null
  | some a => write a

/-- `Deserialize` of an `Option`. -/
def optionOfJson {α : Type} (read : Json → Option α) : Json → Option (Option α)
  | .null => some none
  | j => (read j).map some

namespace LiteralValue

def toJson : LiteralValue → Json
  | .null => .str "Null".toList
  | .boolean b => .obj [("Boolean", .bool b)]
  | .integer i => .obj [("Integer", .int i.toInt)]
  | .float f => .obj [("Float", if f.isFinite then .float f else .null)]
  | .string s => .obj [("String", .str s)]

def ofJson (X : Extern) : Json → Option LiteralValue
  | .str t => if t = "Null".toList then some .null else none
  | .obj [("Boolean", .bool b)] => some (.boolean b)
  | .obj [("Integer", .int n)] =>
    if -2 ^ 63 ≤ n ∧ n < 2 ^ 63 then some (.integer (.ofInt n)) else none
  | .obj [("Float", .float f)] => some (.float (X.jsonFloat f))
  | .obj [("String", .str s)] => some (.string s)
  | _ => none

end LiteralValue

namespace SQLType

def toJson (t : SQLType) : Json := .str t.debug

def ofJson : Json → Option SQLType
  | .str t => [SQLType.null, .boolean, .integer, .float, .text].find? fun s => s.debug == t
  | _ => none

end SQLType

namespace ColumnInfo

def toJson (c : ColumnInfo) : Json :=
  .obj [("name", .str c.name), ("sql_type", c.sqlType.toJson), ("nullable", .bool c.nullable),
    ("default", optionJson LiteralValue.toJson c.default), ("ordinal", .int c.ordinal),
    ("unique", .bool c.unique), ("is_primary_key", .bool c.isPrimaryKey),
    ("auto_increment", .bool c.autoIncrement)]

/-- A missing `default` reads as none, a missing `auto_increment` as false. -/
def ofJson (X : Extern) (j : Json) : Option ColumnInfo := do
  return {
    name := ← (← j.member "name").asText
    sqlType := ← SQLType.ofJson (← j.member "sql_type")
    nullable := ← (← j.member "nullable").asBool
    default := ← optionOfJson (LiteralValue.ofJson X) ((j.member "default").getD .null)
    ordinal := ← (← j.member "ordinal").asNat
    unique := ← (← j.member "unique").asBool
    isPrimaryKey := ← (← j.member "is_primary_key").asBool
    autoIncrement := ← ((j.member "auto_increment").getD (.bool false)).asBool }

end ColumnInfo

namespace Schema

def toJson (schema : Schema) : Json := .obj [("columns", .arr (schema.columns.map ColumnInfo.toJson))]

def ofJson (X : Extern) (j : Json) : Option Schema := do
  return ⟨← (← j.member "columns").items (ColumnInfo.ofJson X)⟩

end Schema

namespace Row

def toJson (row : Row) : Json :=
  .obj [("values", .arr (row.values.map (optionJson LiteralValue.toJson)))]

def ofJson (X : Extern) (j : Json) : Option Row := do
  return ⟨← (← j.member "values").items (optionOfJson (LiteralValue.ofJson X))⟩

end Row

/-- `Vec<Row>`, a chunk. -/
def rowsJson (rows : List Row) : Json := .arr (rows.map Row.toJson)

def rowsOfJson (X : Extern) (j : Json) : Option (List Row) := j.items (Row.ofJson X)

structure PersistedTable where
  schema : Schema
  rows : List Row
  deriving DecidableEq

namespace PersistedTable

def toJson (t : PersistedTable) : Json := .obj [("schema", t.schema.toJson), ("rows", rowsJson t.rows)]

def ofJson (X : Extern) (j : Json) : Option PersistedTable := do
  return ⟨← Schema.ofJson X (← j.member "schema"), ← rowsOfJson X (← j.member "rows")⟩

end PersistedTable

structure PersistedTableMeta where
  schema : Schema
  chunkCount : Nat
  deriving DecidableEq

namespace PersistedTableMeta

def toJson (m : PersistedTableMeta) : Json :=
  .obj [("schema", m.schema.toJson), ("chunk_count", .int m.chunkCount)]

def ofJson (X : Extern) (j : Json) : Option PersistedTableMeta := do
  return ⟨← Schema.ofJson X (← j.member "schema"), ← (← j.member "chunk_count").asNat⟩

end PersistedTableMeta

def namesJson (names : List Text) : Json := .arr (names.map Json.str)

def namesOfJson (j : Json) : Option (List Text) := j.items Json.asText

/-! ## Keys -/

def tableKey (name : Text) : Bytes := utf8 ("sql:table:".toList ++ name)

def tableChunkKey (name : Text) (idx : Nat) : Bytes :=
  utf8 ("sql:table:".toList ++ (name ++ ":chunk:".toList ++ decimal idx))

def tableNamesKey : Bytes := utf8 "sql:table_names".toList

def maxPersistValueSize : Nat := 60000

/-! ## The engine -/

structure SQLEngine where
  tables : TableStore
  storage : Option (KeyValue Json)

namespace SQLEngine

abbrev Method (α : Type) := Exec SQLError SQLEngine α

def onTables {α : Type} (x : TableStore.Method α) : Method α :=
  Exec.zoom tables (fun tables engine => { engine with tables }) x

/-- A call on the store of an engine that has one. -/
def onStorage {α : Type} (storage : KeyValue Json) (x : Exec SQLError (KeyValue Json) α) :
    Method α := fun engine => ((x storage).1, { engine with storage := some (x storage).2 })

/-- `map_err(|e| SQLError::syntax(e.to_string()))` on a call. -/
def asSyntax {σ α : Type} (x : Exec SQLError σ α) : Exec SQLError σ α :=
  Exec.mapErr SQLError.asSyntax x

def existingChunkCount (X : Extern) (name : Text) (storage : KeyValue Json) : Nat :=
  match storage[tableKey name]? with
  | none => 0
  | some val =>
    match PersistedTableMeta.ofJson X val with
    | some m => m.chunkCount
    | none => 0

def deleteChunks (name : Text) (idxs : List Nat) : List (Bytes × Option Json) :=
  idxs.map fun idx => (tableChunkKey name idx, none)

def setChunks (name : Text) (chunks : List (List Row)) : List (Bytes × Option Json) :=
  chunks.zipIdx.map fun c => (tableChunkKey name c.2, some (rowsJson c.1))

def rowTooLarge : SQLError := .ofMessage "single row too large to persist".toList

/-- The rows in chunks that fit: `chunks` are done, `cur` is the one being filled. -/
def chunkRows (X : Extern) (chunks : List (List Row)) (cur : List Row) :
    List Row → Result (List (List Row))
  | [] => .ok (if cur.isEmpty then chunks else chunks ++ [cur])
  | row :: rows =>
    if maxPersistValueSize < X.jsonLen (rowsJson (cur ++ [row])) then
      if cur.isEmpty then .err rowTooLarge
      else if maxPersistValueSize < X.jsonLen (rowsJson [row]) then .err rowTooLarge
      else chunkRows X (chunks ++ [cur]) [row] rows
    else chunkRows X chunks (cur ++ [row]) rows

/-- The documents of a small table: one, and none of the chunks it had. -/
def singleDocument (name : Text) (json : Json) (oldCount : Nat) : List (Bytes × Option Json) :=
  (tableKey name, some json) :: deleteChunks name (List.range oldCount)

/-- The documents of a chunked table, and none of the chunks behind its last. -/
def chunkDocuments (name : Text) (json : Json) (chunks : List (List Row)) (oldCount : Nat) :
    List (Bytes × Option Json) :=
  (tableKey name, some json) :: (setChunks name chunks ++
    deleteChunks name (List.range' chunks.length (oldCount - chunks.length)))

/-- `persist_table`, from the serialization on. -/
def writeTable (X : Extern) (name : Text) (schema : Schema) (rows : List Row) :
    Exec SQLError (KeyValue Json) Unit := do
  let oldCount := existingChunkCount X name (← Exec.get)
  let json := PersistedTable.toJson ⟨schema, rows⟩
  if X.jsonLen json ≤ maxPersistValueSize then
    if oldCount = 0 then KeyValue.set (tableKey name) json
    else KeyValue.batch (singleDocument name json oldCount)
  else do
    let chunks ← Exec.lift (chunkRows X [] [] rows)
    let metaJson := PersistedTableMeta.toJson ⟨schema, chunks.length⟩
    if chunks.isEmpty then KeyValue.batch (singleDocument name metaJson oldCount)
    else if maxPersistValueSize < X.jsonLen metaJson then
      Exec.lift (.err (.ofMessage "schema too large to persist".toList))
    else KeyValue.batch (chunkDocuments name metaJson chunks oldCount)

def persistTable (X : Extern) (name : Text) : Method Unit := do
  match (← Exec.get).storage with
  | none => pure ()
  | some storage =>
    let schema ← asSyntax (onTables (TableStore.getSchema name))
    let rows ← asSyntax (onTables (TableStore.scanRows name))
    onStorage storage (writeTable X name schema rows)

def persistTableNames (X : Extern) : Method Unit := do
  match (← Exec.get).storage with
  | none => pure ()
  | some storage =>
    let names ← onTables (TableStore.tableNames X)
    if maxPersistValueSize < X.jsonLen (namesJson names) then
      Exec.lift (.err (.ofMessage "too many tables to persist in one value".toList))
    else onStorage storage (KeyValue.set tableNamesKey (namesJson names))

def persistCreateTable (X : Extern) (name : Text) : Method Unit := do
  match (← Exec.get).storage with
  | none => pure ()
  | some _ => do
      persistTable X name
      persistTableNames X

def persistDropTable (X : Extern) (name : Text) : Method Unit := do
  match (← Exec.get).storage with
  | none => pure ()
  | some storage =>
    let names ← onTables (TableStore.tableNames X)
    let oldCount := existingChunkCount X name storage
    onStorage storage (KeyValue.batch
      ((tableKey name, none) :: (deleteChunks name (List.range oldCount) ++
        [(tableNamesKey, some (namesJson names))])))

/-! ## Loading -/

/-- The greatest identifier of a column, as a `u64`. -/
def maxId (rows : List Row) (idx : Nat) : UInt64 :=
  rows.foldl (fun (max : UInt64) (row : Row) =>
    match row.values[idx]? with
    | some (some (.integer v)) => if max < v.toUInt64 then v.toUInt64 else max
    | _ => max) 0

def restoreColumn (name : Text) : ColumnInfo × Nat → TableStore.Method Unit
  | (col, idx) =>
    if col.autoIncrement then do
      let rows ← asSyntax (TableStore.scanRows name)
      if 0 < maxId rows idx then
        asSyntax (TableStore.ensureNextRowId name (maxId rows idx))
      else pure ()
    else pure ()

/-- The columns from some position on. -/
def restoreColumns (name : Text) : List (ColumnInfo × Nat) → TableStore.Method Unit
  | [] => pure ()
  | col :: cols => do
      restoreColumn name col
      restoreColumns name cols

def restoreAutoIncrement (name : Text) (schema : Schema) : TableStore.Method Unit :=
  restoreColumns name schema.columns.zipIdx

def insertRows (X : Extern) (name : Text) : List Row → TableStore.Method Unit
  | [] => pure ()
  | row :: rows => do
      asSyntax (TableStore.insertRow X name row)
      insertRows X name rows

/-- One chunk. One that is not there is passed over. -/
def loadChunk (X : Extern) (name : Text) (storage : KeyValue Json) (idx : Nat) :
    TableStore.Method Unit :=
  match storage[tableChunkKey name idx]? with
  | none => pure ()
  | some cval =>
    match rowsOfJson X cval with
    | none => Exec.lift (.err (.ofMessage "invalid document".toList))
    | some chunk => insertRows X name chunk

def loadChunks (X : Extern) (name : Text) (storage : KeyValue Json) :
    List Nat → TableStore.Method Unit
  | [] => pure ()
  | idx :: idxs => do
      loadChunk X name storage idx
      loadChunks X name storage idxs

/-- One table of the list of names: the single document, else the chunked one. -/
def loadTable (X : Extern) (storage : KeyValue Json) (name : Text) : TableStore.Method Unit :=
  match storage[tableKey name]? with
  | none => pure ()
  | some val =>
    match PersistedTable.ofJson X val with
    | some pt => do
        asSyntax (TableStore.createTable name pt.schema)
        insertRows X name pt.rows
        restoreAutoIncrement name pt.schema
    | none =>
      match PersistedTableMeta.ofJson X val with
      | some m => do
          asSyntax (TableStore.createTable name m.schema)
          loadChunks X name storage (List.range m.chunkCount)
          restoreAutoIncrement name m.schema
      | none => Exec.lift (.err (.ofMessage ("corrupt persisted table ".toList ++ name)))

def loadNamed (X : Extern) (storage : KeyValue Json) : List Text → TableStore.Method Unit
  | [] => pure ()
  | name :: names => do
      loadTable X storage name
      loadNamed X storage names

def loadTables (X : Extern) : Method Unit := do
  match (← Exec.get).storage with
  | none => pure ()
  | some storage =>
    match storage[tableNamesKey]? with
    | none => pure ()
    | some val =>
      match namesOfJson val with
      | none => Exec.lift (.err (.ofMessage "invalid document".toList))
      | some names => onTables (loadNamed X storage names)

/-- An engine opened on a store. A load that fails is logged and what is loaded stays. -/
def newWithStorage (X : Extern) (storage : KeyValue Json) : Result SQLEngine :=
  let (loaded, engine) := loadTables X ⟨∅, some storage⟩
  match loaded with
  | .panic => .panic
  | .hang => .hang
  | _ => .ok engine

end SQLEngine

end NovaRuntime.Sql
