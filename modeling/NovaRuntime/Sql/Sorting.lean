/-
# NovaRuntime.Sql.Sorting — `SortExecutor`

The executor buffers its input up to a limit and sorts it. A key is looked for in the row that the input
gives, against the schema it was made with; a key that cannot be evaluated is NULL. `sort_by` is stable, so
it is a merge sort where `compareRows` is a preorder; for other comparisons its order is not promised, and
the one given here stands for it.
-/
import NovaRuntime.Sql.Relational

namespace NovaRuntime.Sql

open NovaRuntime.Library NovaRuntime.Library.Pull

set_option autoImplicit false

/-! ## Comparing -/

def totalCmp (x y : F64) : Ordering := compare x.totalKey y.totalKey

/-- Two values that are not NULL. Strings compare by their characters. -/
def compareSome (X : Extern) : LiteralValue → LiteralValue → Ordering
  | .integer x, .integer y => compare x.toInt y.toInt
  | .integer x, .float y => totalCmp (X.ofInt x) y
  | .float x, .integer y => totalCmp x (X.ofInt y)
  | .float x, .float y => totalCmp x y
  | .boolean x, .boolean y => compare x y
  | .string x, .string y => compare x y
  | _, _ => .eq

def compareValues (X : Extern) (a b : LiteralValue) (nullsFirst : Option Bool) : Ordering :=
  match a, b with
  | .null, .null => .eq
  | .null, _ => if nullsFirst.getD false then .lt else .gt
  | _, .null => if nullsFirst.getD false then .gt else .lt
  | a, b => compareSome X a b

/-- An `ORDER BY` ordinal of a row so wide. -/
def ordinalOf (width : Nat) : Expr → Option Nat
  | .literal (.integer ordinal) =>
    if 1 ≤ ordinal.toInt ∧ ordinal.toInt ≤ width then some (ordinal.toInt.toNat - 1) else none
  | _ => none

def sortKeyValue (X : Extern) (expr : Expr) (row : Row) (schema : Schema) : LiteralValue :=
  match ordinalOf row.values.length expr with
  | some position => (row.values[position]?.getD none).getD .null
  | none => (evaluateExpr X row.values schema expr).elim id .null

/-- The closure of `sort_by`. -/
def compareRows (X : Extern) (schema : Schema) : List OrderByExpr → Row → Row → Ordering
  | [], _, _ => .eq
  | order :: rest, a, b =>
    match compareValues X (sortKeyValue X order.expr a schema) (sortKeyValue X order.expr b schema)
        order.nullsFirst with
    | .eq => compareRows X schema rest a b
    | cmp => if order.asc then cmp else cmp.swap

/-- Whether a key of the row panics. -/
def keyPanics (X : Extern) (schema : Schema) (orderBy : List OrderByExpr) (row : Row) : Bool :=
  orderBy.any fun order =>
    (ordinalOf row.values.length order.expr).isNone &&
      decide (evaluateExpr X row.values schema order.expr = .panic)

/-- `rows.sort_by`. With two rows or more every row is compared; a key that panics is taken to panic the sort,
also where the keys before it would have decided. -/
def sortRows (X : Extern) (schema : Schema) (orderBy : List OrderByExpr) (rows : List Row) : Result (List Row) :=
  if 2 ≤ rows.length ∧ rows.any (keyPanics X schema orderBy) then .panic
  else .ok (rows.mergeSort fun a b => compareRows X schema orderBy a b != .gt)

/-! ## The executor -/

def sortBufferExceeded (maxRows : Nat) : SQLError :=
  .queryTooComplex ("sort buffer exceeded limit ".toList ++ decimal maxRows ++ " (max_batch_size)".toList)

/-- The loop of `open`, with so many rows in the buffer. -/
def fillBuffer {σ : Type} (next : Exec SQLError σ (Option Row)) (maxRows : Nat) :
    Nat → Nat → Exec SQLError σ (List Row)
  | 0, _ => Exec.lift .hang
  | turns + 1, held => do
      match ← next with
      | none => pure []
      | some row =>
        if maxRows < held + 1 then Exec.lift (.err (sortBufferExceeded maxRows))
        else do
          let rest ← fillBuffer next maxRows turns (held + 1)
          pure (row :: rest)

structure SortState (σ : Type) where
  input : σ
  rows : Cursor Row

def SortState.onInput {σ α : Type} (x : Exec SQLError σ α) : Exec SQLError (SortState σ) α :=
  Exec.zoom SortState.input (fun i s => { s with input := i }) x

def openSort (X : Extern) (turns maxRows : Nat) (input : Executor) (orderBy : List OrderByExpr) (schema : Schema) :
    Exec SQLError (SortState input.State) Unit := do
  SortState.onInput input.openRows
  let rows ← SortState.onInput (fillBuffer input.next maxRows turns 0)
  SortState.onInput input.close
  let sorted ← Exec.lift (sortRows X schema orderBy rows)
  Exec.modify fun s => { s with rows := ⟨sorted, 0⟩ }

def sortExecutor (X : Extern) (turns maxRows : Nat) (input : Executor) (orderBy : List OrderByExpr)
    (schema : Schema) : Executor where
  State := SortState input.State
  initial := ⟨input.initial, ⟨[], 0⟩⟩
  openRows := openSort X turns maxRows input orderBy schema
  next := Exec.zoom SortState.rows (fun r s => { s with rows := r }) cursorNext
  close := Exec.modify fun s => { s with rows := ⟨[], 0⟩ }

/-! ## What it serves -/

section Serves

variable {X : Extern} {schema : Schema} {orderBy : List OrderByExpr}

theorem fill_of_yields {σ : Type} {next : Exec SQLError σ (Option Row)} {s : σ} {rows : List Row}
    (yields : Yields next s rows) {maxRows turns held : Nat} (fits : held + rows.length ≤ maxRows)
    (enough : rows.length < turns) : ∃ s', fillBuffer next maxRows turns held s = (.ok rows, s') := by
  induction rows generalizing s turns held with
  | nil =>
    obtain ⟨s', last, -⟩ := yields
    obtain ⟨turns, rfl⟩ := exists_succ enough
    refine ⟨s', ?_⟩
    rw [fillBuffer, Exec.bind_of_ok last]
    rfl
  | cons row rest ih =>
    obtain ⟨s', first, later⟩ := yields
    obtain ⟨turns, rfl⟩ := exists_succ enough
    rw [List.length_cons] at fits enough
    obtain ⟨s'', filled⟩ := ih later (by omega : held + 1 + rest.length ≤ maxRows) (Nat.lt_of_succ_lt_succ enough)
    refine ⟨s'', ?_⟩
    rw [fillBuffer, Exec.bind_of_ok first]
    show (if maxRows < held + 1 then _ else _ : Exec SQLError σ (List Row)) s' = _
    rw [if_neg (by omega), Exec.bind_of_ok filled]
    rfl

theorem SortState.onInput_of_ok {σ α : Type} {x : Exec SQLError σ α} {s : SortState σ} {a : α} {s' : σ}
    (step : x s.input = (.ok a, s')) : SortState.onInput x s = (.ok a, { s with input := s' }) := by
  rw [SortState.onInput, Exec.zoom_apply, step]

/-- **A sort** serves the rows of its input in order. -/
theorem sort_serves {turns maxRows : Nat} {input : Executor} {rows sorted : List Row} (serves : Serves input rows)
    (closes : Closes input) (fits : rows.length ≤ maxRows) (enough : rows.length < turns)
    (sorts : sortRows X schema orderBy rows = .ok sorted) :
    Serves (sortExecutor X turns maxRows input orderBy schema) sorted := by
  obtain ⟨opened, opens, yields⟩ := serves
  obtain ⟨filled, fills⟩ := fill_of_yields yields (by omega : 0 + rows.length ≤ maxRows) enough
  obtain ⟨closed, done⟩ := closes filled
  refine ⟨⟨closed, ⟨sorted, 0⟩⟩, ?_, ?_⟩
  · show openSort X turns maxRows input orderBy schema ⟨input.initial, ⟨[], 0⟩⟩ = _
    rw [openSort, Exec.bind_of_ok (SortState.onInput_of_ok (s := ⟨input.initial, ⟨[], 0⟩⟩) opens),
      Exec.bind_of_ok (SortState.onInput_of_ok (s := ⟨opened, ⟨[], 0⟩⟩) fills),
      Exec.bind_of_ok (SortState.onInput_of_ok (s := ⟨filled, ⟨[], 0⟩⟩) done), sorts]
    rfl
  · have given : Yields (ε := SQLError) (Exec.zoom SortState.rows (fun r s => { s with rows := r }) cursorNext)
        (⟨closed, ⟨sorted, 0⟩⟩ : SortState input.State) sorted := by
      apply Yields.zoom
      · exact fun _ _ => rfl
      · exact fun _ _ _ => rfl
      · exact cursor_yields sorted 0
    exact given

theorem sort_closes {turns maxRows : Nat} (input : Executor) :
    Closes (sortExecutor X turns maxRows input orderBy schema) := fun _ => ⟨_, rfl⟩

end Serves

end NovaRuntime.Sql
