/-
# NovaRuntime.Sql.TableStore — `TableStore` of `execute/table_store.rs`

The tables in memory: a map from names to a schema, rows and the counter of row
identifiers. A call reads or changes the map; one that fails leaves it as it was, but
for `insertRow`, whose counter can overflow after the row is in.

A `Vec` holds at most `isize::MAX` items and panics where one more is pushed.
-/
import NovaRuntime.Sql.Ast
import Mathlib.Data.List.AList

namespace NovaRuntime.Sql

open NovaRuntime.Library

set_option autoImplicit false

structure Row where
  values : List (Option LiteralValue)
  deriving DecidableEq

structure TableData where
  schema : Schema
  rows : List Row
  nextRowId : UInt64
  deriving DecidableEq

abbrev TableStore := AList fun _ : Text => TableData

/-- `isize::MAX`. -/
def vecMax : Nat := 2 ^ 63 - 1

/-- `+ 1` on a `u64`. -/
def increment (X : Extern) (n : UInt64) : Result UInt64 :=
  if X.overflowChecks ∧ n.toNat = 2 ^ 64 - 1 then .panic else .ok (n + 1)

namespace TableStore

abbrev Method (α : Type) := Exec SQLError TableStore α

/-- The data of a table, or the error of all the calls below. -/
def data (name : Text) : Method TableData := fun tables =>
  (match tables.lookup name with
    | some d => .ok d
    | none => .err (.tableNotFound name), tables)

/-- Write the data of a table. -/
def store (name : Text) (d : TableData) : Method Unit := Exec.modify (·.insert name d)

def createTable (name : Text) (schema : Schema) : Method Unit := do
  match (← Exec.get).lookup name with
  | some _ => Exec.lift (.err (.ofMessage ("table already exists: ".toList ++ name)))
  | none => store name ⟨schema, [], 0⟩

def dropTable (name : Text) : Method Unit := do
  let _ ← data name
  Exec.modify (·.erase name)

def getSchema (name : Text) : Method Schema := do
  return (← data name).schema

def scanRows (name : Text) : Method (List Row) := do
  return (← data name).rows

def insertRow (X : Extern) (name : Text) (row : Row) : Method Unit := do
  let d ← data name
  if row.values.length ≠ d.schema.len then
    Exec.lift (.err (.ofMessage ("expected ".toList ++ decimal d.schema.len ++
      " columns, got ".toList ++ decimal row.values.length)))
  else if vecMax ≤ d.rows.length then Exec.lift .panic
  else do
    store name { d with rows := d.rows ++ [row] }
    let rid ← Exec.lift (increment X d.nextRowId)
    store name { d with rows := d.rows ++ [row], nextRowId := rid }

def replaceRows (name : Text) (newRows : List Row) : Method Unit := do
  let d ← data name
  store name { d with rows := newRows }

def currentRowId (name : Text) : Method UInt64 := do
  return (← data name).nextRowId

def ensureNextRowId (name : Text) (min : UInt64) : Method Unit := do
  let d ← data name
  if d.nextRowId < min then store name { d with nextRowId := min } else pure ()

def tableNames (X : Extern) : Method (List Text) := do
  return X.hashOrder (← Exec.get).keys

/-! ## The calls, applied -/

variable {name : Text} {tables : TableStore} {d : TableData}

theorem data_of_lookup (found : tables.lookup name = some d) :
    data name tables = (.ok d, tables) := by
  rw [data, found]

theorem data_of_absent (absent : tables.lookup name = none) :
    data name tables = (.err (.tableNotFound name), tables) := by
  rw [data, absent]

theorem lookup_insert_ite (tables : TableStore) (name other : Text) (d : TableData) :
    (tables.insert name d).lookup other = if other = name then some d else tables.lookup other := by
  by_cases here : other = name
  · subst here
    rw [if_pos rfl, AList.lookup_insert]
  · rw [if_neg here, AList.lookup_insert_ne here]

theorem lookup_erase_ite (tables : TableStore) (name other : Text) :
    (tables.erase name).lookup other = if other = name then none else tables.lookup other := by
  by_cases here : other = name
  · subst here
    rw [if_pos rfl, AList.lookup_erase]
  · rw [if_neg here, AList.lookup_erase_ne here]

end TableStore

end NovaRuntime.Sql
