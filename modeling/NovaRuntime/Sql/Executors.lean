/-
# NovaRuntime.Sql.Executors — the pull executors and `build_executor`

An `Executor` is the trait object: a state that only its own calls see, with `open`,
`next` and `close`. The loops of the source are the combinators of `Library.Pull`; each is
given `turns` turns. The tables are read when a scan is opened, and no call here changes
them.

The executors of GROUP BY, ORDER BY and DISTINCT are a parameter of `buildExecutor`. The
output schema of a projection is left out where the executor only stores it.
-/
import NovaRuntime.Library.Pull
import NovaRuntime.Sql.Evaluate
import NovaRuntime.Sql.Plan
import NovaRuntime.Sql.TableStore

namespace NovaRuntime.Sql

open NovaRuntime.Library

set_option autoImplicit false

/-! ## Schemas of nodes -/

def combineSchemas (left right : Schema) : Schema :=
  ⟨left.columns ++ right.columns.mapIdx fun i col =>
    { col with ordinal := left.columns.length + i }⟩

/-- `get_schema`, whose only failure is a table that does not exist. -/
def schemaOf (tables : TableStore) (name : Text) : Except SQLError Schema :=
  (TableStore.getSchema name tables).1.elim .ok (.error (.tableNotFound name))

def resolveSchema (tables : TableStore) : LogicalNode → Except SQLError Schema
  | .scan name => schemaOf tables name
  | .join left right _ => do
      let leftSchema ← resolveSchema tables left
      let rightSchema ← resolveSchema tables right
      return combineSchemas leftSchema rightSchema
  | .projection input _ => resolveSchema tables input
  | .selection input _ => resolveSchema tables input
  | .sort input _ => resolveSchema tables input
  | .limit input _ _ => resolveSchema tables input
  | .aggregate input _ _ _ => resolveSchema tables input
  | .dedup input => resolveSchema tables input

def exprName (X : Extern) : Expr → Option Text
  | .column c => some c
  | .function name _ => some name
  | .literal lit => some (lit.debug X)
  | _ => none

def projectionSchema (X : Extern) (exprs : List (Expr × Option Text)) : Schema :=
  ⟨exprs.mapIdx fun ordinal item =>
    { name := item.2.getD ((exprName X item.1).getD ("col_".toList ++ decimal ordinal))
      sqlType := .text, nullable := true, default := none, ordinal := ordinal,
      unique := false, isPrimaryKey := false, autoIncrement := false }⟩

def resolveOutputSchema (X : Extern) (tables : TableStore) : LogicalNode → Except SQLError Schema
  | .projection input exprs => do
      let _ ← resolveSchema tables input
      return projectionSchema X exprs
  | .aggregate input exprs _ _ => do
      let _ ← resolveSchema tables input
      return projectionSchema X exprs
  | .selection input _ => resolveOutputSchema X tables input
  | .sort input _ => resolveOutputSchema X tables input
  | .limit input _ _ => resolveOutputSchema X tables input
  | .dedup input => resolveOutputSchema X tables input
  | .join left right _ => do
      let leftSchema ← resolveSchema tables left
      let rightSchema ← resolveSchema tables right
      return combineSchemas leftSchema rightSchema
  | .scan name => schemaOf tables name

/-! ## The trait -/

/-- `Box<dyn Executor>`, as its `new` leaves it. -/
structure Executor where
  State : Type
  initial : State
  openRows : Exec SQLError State Unit
  next : Exec SQLError State (Option Row)
  close : Exec SQLError State Unit

/-! ## The executors -/

def scanExecutor (tables : TableStore) (tableName : Text) : Executor where
  State := Pull.Cursor Row
  initial := ⟨[], 0⟩
  openRows := do
    let rows ← Exec.lift (TableStore.scanRows tableName tables).1
    Exec.modify fun _ => ⟨rows, 0⟩
  next := Pull.cursorNext
  close := Exec.modify fun _ => ⟨[], 0⟩

/-- Whether an expression gives `Boolean(true)` on a row. -/
def holdsOn (X : Extern) (schema : Schema) (predicate : Expr) (row : Row) : Result Bool := do
  let val ← evaluateExpr X row.values schema predicate
  pure (decide (val = .boolean true))

def filterExecutor (X : Extern) (turns : Nat) (input : Executor) (predicate : Expr)
    (schema : Schema) : Executor where
  State := input.State
  initial := input.initial
  openRows := input.openRows
  next := Pull.filterNext input.next (holdsOn X schema predicate) turns
  close := input.close

def projectRow (X : Extern) (exprs : List (Expr × Option Text)) (schema : Schema) (row : Row) :
    Result Row := do
  let values ← exprs.mapM fun item => do
    let val ← evaluateExpr X row.values schema item.1
    pure (some val)
  pure ⟨values⟩

def projectionExecutor (X : Extern) (input : Executor) (exprs : List (Expr × Option Text))
    (schema : Schema) : Executor where
  State := input.State
  initial := input.initial
  openRows := input.openRows
  next := Pull.mapNext input.next (projectRow X exprs schema)
  close := input.close

def limitExecutor (turns : Nat) (input : Executor) (limit offset : Nat) : Executor where
  State := Pull.Window input.State
  initial := ⟨input.initial, 0, 0⟩
  openRows := do
    Pull.Window.onInput input.openRows
    Exec.modify fun w => { w with skipped := 0, emitted := 0 }
    Exec.loop (Pull.skipTurn input.next offset) turns
  next := Pull.limitNext input.next limit
  close := Pull.Window.onInput input.close

structure JoinState (σ τ : Type) where
  left : σ
  right : τ
  pairs : Pull.Pairs Row Row

/-- The row of a pair, where the ON holds of it. -/
def joinRows (X : Extern) (on : Option Expr) (schema : Schema) (leftRow rightRow : Row) :
    Result (Option Row) :=
  let combined : Row := ⟨leftRow.values ++ rightRow.values⟩
  match on with
  | none => .ok (some combined)
  | some predicate => do
      let ok ← holdsOn X schema predicate combined
      pure (if ok then some combined else none)

/-- Drain an input into a list, from its `open` to its `close`. -/
def buffered (turns : Nat) (input : Executor) : Exec SQLError input.State (List Row) := do
  input.openRows
  let rows ← Pull.collect input.next turns
  input.close
  pure rows

def joinExecutor (X : Extern) (turns : Nat) (left right : Executor) (on : Option Expr)
    (schema : Schema) : Executor where
  State := JoinState left.State right.State
  initial := ⟨left.initial, right.initial, ⟨[], 0, [], 0⟩⟩
  openRows := do
    let leftRows ← Exec.zoom JoinState.left (fun l s => { s with left := l }) (buffered turns left)
    Exec.modify fun s => { s with pairs.lefts := leftRows }
    let rightRows ←
      Exec.zoom JoinState.right (fun r s => { s with right := r }) (buffered turns right)
    Exec.modify fun s => { s with pairs := ⟨s.pairs.lefts, 0, rightRows, 0⟩ }
  next := Exec.zoom JoinState.pairs (fun p s => { s with pairs := p })
    (Pull.pairsNext (joinRows X on schema) turns)
  close := Exec.modify fun s => { s with pairs := ⟨[], 0, [], 0⟩ }

/-! ## Building the tree -/

/-- The executors of aggregations, sorts and the removal of duplicates. -/
structure OtherExecutors where
  aggregate : Executor → List (Expr × Option Text) → List Expr → Option Expr → Schema → Executor
  sort : Executor → List OrderByExpr → Schema → Executor
  dedup : Executor → Executor

def buildExecutor (X : Extern) (turns : Nat) (others : OtherExecutors) (tables : TableStore) :
    LogicalNode → Except SQLError Executor
  | .scan tableName =>
    (schemaOf tables tableName).bind fun _ => .ok (scanExecutor tables tableName)
  | .selection input predicate =>
    (buildExecutor X turns others tables input).bind fun inputExec =>
      (resolveSchema tables input).bind fun schema =>
        .ok (filterExecutor X turns inputExec predicate schema)
  | .projection input exprs =>
    (buildExecutor X turns others tables input).bind fun inputExec =>
      (resolveSchema tables input).bind fun inSchema =>
        .ok (projectionExecutor X inputExec exprs inSchema)
  | .aggregate input exprs groupBy having =>
    (buildExecutor X turns others tables input).bind fun inputExec =>
      (resolveSchema tables input).bind fun schema =>
        .ok (others.aggregate inputExec exprs groupBy having schema)
  | .sort input orderBy =>
    (buildExecutor X turns others tables input).bind fun inputExec =>
      (resolveOutputSchema X tables input).bind fun schema =>
        .ok (others.sort inputExec orderBy schema)
  | .limit input limit offset =>
    (buildExecutor X turns others tables input).bind fun inputExec =>
      .ok (limitExecutor turns inputExec limit offset)
  | .dedup input =>
    (buildExecutor X turns others tables input).bind fun inputExec =>
      .ok (others.dedup inputExec)
  | .join left right on =>
    (buildExecutor X turns others tables left).bind fun leftExec =>
      (buildExecutor X turns others tables right).bind fun rightExec =>
        (resolveSchema tables left).bind fun leftSchema =>
          (resolveSchema tables right).bind fun rightSchema =>
            .ok (joinExecutor X turns leftExec rightExec on
              (combineSchemas leftSchema rightSchema))

end NovaRuntime.Sql
