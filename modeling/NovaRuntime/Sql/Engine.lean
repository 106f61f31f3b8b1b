/-
# NovaRuntime.Sql.Engine — the statements of `SQLEngine` that write

`execute_create_table`, `execute_drop_table`, `execute_insert`, `execute_update` and
`execute_delete` of `engine.rs`: each changes the tables in memory and then writes the
table to the store, where there is one. A call gives the number of rows affected.
Observers are told after the call and change nothing of it; they are left out, and so
are the execution times.

The engine's lock is held from the first line to the last, so a statement is one step.
-/
import NovaRuntime.Sql.Evaluate
import NovaRuntime.Sql.Persist
import NovaRuntime.Library.Runs

namespace NovaRuntime.Sql

open NovaRuntime.Library

set_option autoImplicit false

/-! ## One row of an INSERT -/

/-- `is_null` of `execute_insert`. -/
def isNull (v : Option LiteralValue) : Bool :=
  match v with
  | none | some .null => true
  | _ => false

/-- The columns a value row is for, by their positions. -/
def columnIndices (schema : Schema) (columns : List Text) : Result (List Nat) :=
  if columns.isEmpty then .ok (List.range schema.len)
  else columns.mapM fun c =>
    match schema.findIndex c with
    | some idx => .ok idx
    | none => .err (.columnNotFound c)

/-- One value: evaluated without a row, and coerced to the type of its column. -/
def insertValue (X : Extern) (schema : Schema) (colIdx : Nat) (expr : Expr) :
    Result LiteralValue :=
  match schema.columns[colIdx]? with
  | none => .panic
  | some colInfo => do
      let val ← (match expr with
        | .column name =>
          match schema.findColumn name with
          | none => .err (.columnNotFound name)
          | some _ => evaluateExpr X (List.replicate schema.len none) schema expr
        | _ => evaluateExpr X (List.replicate schema.len none) schema expr)
      coerceValue X val colInfo.sqlType

/-- The values of a row put into their columns. -/
def assignValues (X : Extern) (schema : Schema) (rowValues : List (Option LiteralValue)) :
    List (Nat × Expr) → Result (List (Option LiteralValue))
  | [] => .ok rowValues
  | (colIdx, expr) :: rest => do
      let val ← insertValue X schema colIdx expr
      assignValues X schema (rowValues.set colIdx (some val)) rest

/-- `DEFAULT` for the columns without a value. -/
def applyDefaults (schema : Schema) (rowValues : List (Option LiteralValue)) :
    List (Option LiteralValue) :=
  List.zipWith (fun (col : ColumnInfo) v => v <|> col.default) schema.columns rowValues

/-- A row of values and defaults, before the identifiers. -/
def valueRow (X : Extern) (schema : Schema) (colIndices : List Nat) (exprs : List Expr) :
    Result (List (Option LiteralValue)) :=
  if exprs.length ≠ colIndices.length then
    .err (.ofMessage ("expected ".toList ++ decimal colIndices.length ++
      " values, got ".toList ++ decimal exprs.length))
  else do
    let rowValues ← assignValues X schema (List.replicate schema.len none) (colIndices.zip exprs)
    pure (applyDefaults schema rowValues)

/-- An AUTO_INCREMENT column without a value gets the next identifier. -/
def autoIncrement (schema : Schema) (id : UInt64) (rowValues : List (Option LiteralValue)) :
    List (Option LiteralValue) :=
  List.zipWith (fun (col : ColumnInfo) v =>
    if col.autoIncrement && isNull v then some (.integer id.toInt64) else v) schema.columns rowValues

/-- Some AUTO_INCREMENT column is without a value. -/
def needsId (schema : Schema) (rowValues : List (Option LiteralValue)) : Bool :=
  (schema.columns.zip rowValues).any fun (col, v) => col.autoIncrement && isNull v

def nullError (col : ColumnInfo) : SQLError :=
  .constraintViolation ("column '".toList ++ col.name ++ "' cannot be null".toList)

def duplicateError (col : ColumnInfo) : SQLError :=
  .constraintViolation ("duplicate value for unique column '".toList ++ col.name ++ "'".toList)

/-- The NOT NULL columns, in order. -/
def checkNotNull (schema : Schema) (rowValues : List (Option LiteralValue)) : Result Unit :=
  match (schema.columns.zip rowValues).find? fun (col, v) => ! col.nullable && isNull v with
  | some (col, _) => .err (nullError col)
  | none => .ok ()

/-- A row holds a value in a column that `==` takes for this one. -/
def holdsValue (val : LiteralValue) (idx : Nat) (row : Row) : Bool :=
  match row.values[idx]? with
  | some (some existing) => existing.eq val
  | _ => false

/-- A column that is UNIQUE or a PRIMARY KEY already holds the value. -/
def isDuplicate (rows : List Row) (col : ColumnInfo) (v : Option LiteralValue) (idx : Nat) : Bool :=
  (col.unique || col.isPrimaryKey) &&
    match v with
    | none => false
    | some val => rows.any (holdsValue val idx)

/-- The UNIQUE and PRIMARY KEY columns, in order, against the rows of the table. -/
def checkUnique (schema : Schema) (rows : List Row) (rowValues : List (Option LiteralValue)) :
    Result Unit :=
  match (schema.columns.zip rowValues).zipIdx.find? fun ((col, v), idx) =>
      isDuplicate rows col v idx with
  | some ((col, _), _) => .err (duplicateError col)
  | none => .ok ()

/-- An explicit AUTO_INCREMENT value moves the counter. -/
def trackCell (name : Text) : ColumnInfo × Option LiteralValue → TableStore.Method Unit
  | (col, some (.integer explicit)) =>
    if col.autoIncrement then do
      let cur ← TableStore.currentRowId name
      if cur < explicit.toUInt64 then TableStore.ensureNextRowId name explicit.toUInt64
      else pure ()
    else pure ()
  | _ => pure ()

def trackExplicit (name : Text) : List (ColumnInfo × Option LiteralValue) → TableStore.Method Unit
  | [] => pure ()
  | cell :: rest => do
      trackCell name cell
      trackExplicit name rest

/-- The identifiers of a row, from the counter of its table. -/
def identifyRow (X : Extern) (name : Text) (schema : Schema)
    (defaulted : List (Option LiteralValue)) : TableStore.Method (List (Option LiteralValue)) :=
  if needsId schema defaulted then do
    let id ← Exec.lift (increment X (← TableStore.currentRowId name))
    pure (autoIncrement schema id defaulted)
  else pure defaulted

/-- One turn of the loop of `execute_insert`. -/
def insertValueRow (X : Extern) (name : Text) (schema : Schema) (colIndices : List Nat)
    (exprs : List Expr) : TableStore.Method Unit := do
  let defaulted ← Exec.lift (valueRow X schema colIndices exprs)
  let rowValues ← identifyRow X name schema defaulted
  Exec.lift (checkNotNull schema rowValues)
  let existing ← TableStore.scanRows name
  Exec.lift (checkUnique schema existing rowValues)
  TableStore.insertRow X name ⟨rowValues⟩
  trackExplicit name (schema.columns.zip rowValues)

/-- The loop: the rows before one that fails stay in. -/
def insertValueRows (X : Extern) (name : Text) (schema : Schema) (colIndices : List Nat) :
    List (List Expr) → TableStore.Method Unit
  | [] => pure ()
  | exprs :: rest => do
      insertValueRow X name schema colIndices exprs
      insertValueRows X name schema colIndices rest

/-! ## UPDATE and DELETE on rows -/

/-- The row is one the statement is for. -/
def selects (X : Extern) (schema : Schema) (whereClause : Option Expr) (row : Row) : Result Bool :=
  match whereClause with
  | none => .ok true
  | some predicate => do
      let result ← evaluateExpr X row.values schema predicate
      pure (decide (result = .boolean true))

/-- The assignments, one after the other on the same row. -/
def assignRow (X : Extern) (schema : Schema) (row : Row) : List Assignment → Result Row
  | [] => .ok row
  | assignment :: rest =>
    match schema.findIndex assignment.column with
    | none => .err (.columnNotFound assignment.column)
    | some idx =>
      match schema.columns[idx]? with
      | none => .panic
      | some col => do
          let val ← evaluateExpr X row.values schema assignment.value
          let val ← coerceValue X val col.sqlType
          assignRow X schema ⟨row.values.set idx (some val)⟩ rest

/-- The row after the statement, and whether it was one of those updated. -/
def updateRow (X : Extern) (schema : Schema) (upd : UpdateStatement) (row : Row) :
    Result (Row × Bool) := do
  if ← selects X schema upd.whereClause row then
    let row' ← assignRow X schema row upd.assignments
    pure (row', true)
  else pure (row, false)

/-- The row stays: a predicate that fails on it does not select it. -/
def deleteKeeps (X : Extern) (schema : Schema) (whereClause : Option Expr) (row : Row) :
    Result Bool :=
  match selects X schema whereClause row with
  | .ok selected => .ok (! selected)
  | .err _ => .ok true
  | .panic => .panic
  | .hang => .hang

/-- The rows that stay, each with whether it does. -/
def deleteMarks (X : Extern) (schema : Schema) (del : DeleteStatement) (rows : List Row) :
    Result (List (Row × Bool)) :=
  rows.mapM fun row => do
    let keep ← deleteKeeps X schema del.whereClause row
    pure (row, keep)

/-! ## Statements -/

namespace SQLEngine

/-- The columns of a CREATE TABLE: a PRIMARY KEY is UNIQUE. -/
def createdSchema (ct : CreateTableStatement) : Schema :=
  ⟨ct.columns.zipIdx.map fun (c, i) =>
    { name := c.name, sqlType := c.sqlType, nullable := c.nullable, default := c.default,
      ordinal := i, unique := c.unique || c.isPrimaryKey, isPrimaryKey := c.isPrimaryKey,
      autoIncrement := c.autoIncrement }⟩

def executeCreateTable (X : Extern) (ct : CreateTableStatement) : Method Nat := do
  onTables (TableStore.createTable ct.table.text (createdSchema ct))
  asSyntax (persistCreateTable X ct.table.text)
  pure 0

def executeDropTable (X : Extern) (dt : DropTableStatement) : Method Nat := do
  onTables (TableStore.dropTable dt.table.text)
  asSyntax (persistDropTable X dt.table.text)
  pure 0

def executeInsert (X : Extern) (ins : InsertStatement) : Method Nat := do
  let schema ← onTables (TableStore.getSchema ins.table.text)
  let colIndices ← Exec.lift (columnIndices schema ins.columns)
  onTables (insertValueRows X ins.table.text schema colIndices ins.values)
  if ins.values.isEmpty then pure 0
  else do
    persistTable X ins.table.text
    pure ins.values.length

def executeUpdate (X : Extern) (upd : UpdateStatement) : Method Nat := do
  let schema ← onTables (TableStore.getSchema upd.table.text)
  let rows ← onTables (TableStore.scanRows upd.table.text)
  let updated ← Exec.lift (rows.mapM (updateRow X schema upd))
  onTables (TableStore.replaceRows upd.table.text (updated.map Prod.fst))
  persistTable X upd.table.text
  pure (updated.countP Prod.snd)

def executeDelete (X : Extern) (del : DeleteStatement) : Method Nat := do
  let schema ← onTables (TableStore.getSchema del.table.text)
  let rows ← onTables (TableStore.scanRows del.table.text)
  let marks ← Exec.lift (deleteMarks X schema del rows)
  let keptRows := (marks.filter Prod.snd).map Prod.fst
  onTables (TableStore.replaceRows del.table.text keptRows)
  persistTable X del.table.text
  pure (rows.length - keptRows.length)

def executeStatement (X : Extern) : Statement → Method Nat
  | .insert ins => executeInsert X ins
  | .update upd => executeUpdate X upd
  | .delete del => executeDelete X del
  | .createTable ct => executeCreateTable X ct
  | .dropTable dt => executeDropTable X dt

/-- The engine after a statement, however it ended. -/
def step (X : Extern) (engine : SQLEngine) (stmt : Statement) : SQLEngine :=
  (executeStatement X stmt engine).2

end SQLEngine

end NovaRuntime.Sql
