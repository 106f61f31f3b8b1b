/-
# NovaRuntime.Sql.Deletes — DELETE FROM t WHERE p beside SELECT * FROM t WHERE p

The two have a filter each. The one of the SELECT ends with the first row on which the predicate fails,
the one of the DELETE takes a failure for "not selected". So they agree where the predicate has a value
on every row, and where it panics on the first row without one (`delete_follows_iff`): a SELECT that
fails with an error is followed by a DELETE that removes rows.
-/
import NovaRuntime.Sql.Atomic
import NovaRuntime.Sql.Select

namespace NovaRuntime.Sql

open NovaRuntime.Library NovaRuntime.Library.Pull SQLEngine

set_option autoImplicit false

variable {X : Extern} {others : OtherExecutors} {e : SQLEngine} {table : Identifier} {p : Expr} {d : TableData}

/-! ## What should hold -/

/-- The SELECT gives rows, and the DELETE removes these, keeps the others and reports how many there were;
or the SELECT fails, and so does the DELETE, and the table stays. -/
def DeleteFollows (X : Extern) (others : OtherExecutors) (e : SQLEngine) (table : Identifier) (p : Expr)
    (d : TableData) : Prop :=
  (∀ rows, SelectEnds X others e.tables (selectStar table.text p) (.ok rows) →
      ∃ chosen : Row → Bool, rows = (d.rows.filter chosen).map (listed X d.schema) ∧
        (executeDelete X ⟨table, some p⟩ e).1 = .ok rows.length ∧
        (executeDelete X ⟨table, some p⟩ e).2.tables.lookup table.text =
          some { d with rows := d.rows.filter fun row => ! chosen row }) ∧
    ∀ err, SelectEnds X others e.tables (selectStar table.text p) (.err err) →
      (∃ err', (executeDelete X ⟨table, some p⟩ e).1 = .err err') ∧
        (executeDelete X ⟨table, some p⟩ e).2.tables.lookup table.text = some d

/-- The rows a DELETE keeps. -/
def keptRows (X : Extern) (d : TableData) (p : Expr) : List Row :=
  d.rows.filter fun row => ! Holds X d.schema p row

/-- The predicate panics on no row. -/
def Calm (X : Extern) (d : TableData) (p : Expr) : Prop :=
  ∀ row ∈ d.rows, evaluateExpr X row.values d.schema p ≠ .panic ∧ evaluateExpr X row.values d.schema p ≠ .hang

/-- A first row on which the predicate has no value, and what it ends in there. -/
def FirstStop (X : Extern) (d : TableData) (p : Expr) (stop : Stop SQLError) : Prop :=
  ∃ before row after, d.rows = before ++ row :: after ∧ EvaluatesOn X d.schema before p ∧
    evaluateExpr X row.values d.schema p = stop.ends

/-- The predicate has a value on every row and what is left can be written; or it panics on the first row
without a value. The third is a DELETE that removes nothing and fails to write the table. -/
def Agreeing (X : Extern) (e : SQLEngine) (d : TableData) (p : Expr) : Prop :=
  (EvaluatesOn X d.schema d.rows p ∧ Writable X e d.schema (keptRows X d p)) ∨
    (FirstStop X d p .panic ∨ FirstStop X d p .hang) ∨
    ((∃ err, FirstStop X d p (.err err)) ∧ Calm X d p ∧ (∀ row ∈ d.rows, Holds X d.schema p row = false) ∧
      ¬ Writable X e d.schema d.rows)

/-! ## The DELETE -/

theorem deleteKeeps_of_calm {schema : Schema} {row : Row}
    (calm : evaluateExpr X row.values schema p ≠ .panic ∧ evaluateExpr X row.values schema p ≠ .hang) :
    deleteKeeps X schema (some p) row = .ok (! Holds X schema p row) := by
  rw [deleteKeeps, selects, Holds]
  cases given : evaluateExpr X row.values schema p with
  | ok val => simp
  | err err => rfl
  | panic => exact absurd given calm.1
  | hang => exact absurd given calm.2

theorem mapM_ne_err {α β : Type} {f : α → Result β} {xs : List α} (each : ∀ x ∈ xs, ∀ err, f x ≠ .err err) :
    ∀ err, xs.mapM f ≠ .err err := by
  induction xs with
  | nil =>
    intro err failed
    cases failed
  | cons x xs ih =>
    obtain ⟨first, rest⟩ := List.forall_mem_cons.mp each
    intro err failed
    rw [List.mapM_cons] at failed
    cases given : f x with
    | ok y =>
      rw [given, Outcome.ok_bind] at failed
      cases others : xs.mapM f with
      | err err' => exact ih rest err' others
      | ok ys | panic | hang =>
        rw [others] at failed
        cases failed
    | err err' => exact first err' given
    | panic | hang =>
      rw [given] at failed
      cases failed

theorem deleteMarks_of_calm (calm : Calm X d p) :
    deleteMarks X d.schema ⟨table, some p⟩ d.rows =
      .ok (d.rows.map fun row => (row, ! Holds X d.schema p row)) := by
  rw [deleteMarks]
  apply Outcome.mapM_eq_map
  intro row among
  rw [deleteKeeps_of_calm (calm row among)]
  rfl

theorem kept_of_marks (rows : List Row) (keep : Row → Bool) :
    ((rows.map fun row => (row, keep row)).filter Prod.snd).map Prod.fst = rows.filter keep := by
  rw [List.filter_map, List.map_map]
  simp [Function.comp_def]

/-- A DELETE that panics on no row. -/
theorem executeDelete_of_calm (found : e.tables.lookup table.text = some d) (calm : Calm X d p) :
    executeDelete X ⟨table, some p⟩ e =
      (persistTable X table.text >>= fun _ => pure (d.rows.length - (keptRows X d p).length) : Method Nat)
        ⟨e.tables.insert table.text { d with rows := keptRows X d p }, e.storage⟩ := by
  rw [executeDelete_of_known X e found (deleteMarks_of_calm calm), kept_of_marks]
  rfl

theorem deleteKeeps_ne_err (schema : Schema) (row : Row) (err : SQLError) :
    deleteKeeps X schema (some p) row ≠ .err err := by
  intro failed
  rw [deleteKeeps] at failed
  cases given : selects X schema (some p) row <;>
    · rw [given] at failed
      cases failed

theorem deleteKeeps_of_panics {schema : Schema} {row : Row}
    (panics : ¬ (evaluateExpr X row.values schema p ≠ .panic ∧ evaluateExpr X row.values schema p ≠ .hang))
    (keep : Bool) : deleteKeeps X schema (some p) row ≠ .ok keep := by
  intro kept
  rw [deleteKeeps, selects] at kept
  cases given : evaluateExpr X row.values schema p with
  | ok val | err err => exact panics (by rw [given]; exact ⟨nofun, nofun⟩)
  | panic | hang =>
    rw [given] at kept
    cases kept

/-- A DELETE whose predicate panics somewhere ends neither in a value nor in an error. -/
theorem executeDelete_of_not_calm (found : e.tables.lookup table.text = some d) (panics : ¬ Calm X d p) :
    (∀ n, (executeDelete X ⟨table, some p⟩ e).1 ≠ .ok n) ∧ ∀ err, (executeDelete X ⟨table, some p⟩ e).1 ≠ .err err := by
  have notErr : ∀ err, deleteMarks X d.schema ⟨table, some p⟩ d.rows ≠ .err err := by
    apply mapM_ne_err
    intro row among err failed
    have kept := deleteKeeps_ne_err (X := X) (p := p) d.schema row
    cases given : deleteKeeps X d.schema (some p) row with
    | err err' => exact kept err' given
    | ok keep | panic | hang =>
      rw [given] at failed
      cases failed
  have notOk : ∀ marks, deleteMarks X d.schema ⟨table, some p⟩ d.rows ≠ .ok marks := by
    intro marks ran
    apply panics
    intro row among
    by_contra stop
    have each := Outcome.mapM_eq_ok ran
    obtain ⟨i, inside, rfl⟩ := List.getElem_of_mem among
    have related := each.get inside (each.length_eq ▸ inside)
    obtain ⟨keep, kept, -⟩ := Outcome.bind_eq_ok.mp related
    exact deleteKeeps_of_panics stop keep kept
  have ends : (executeDelete X ⟨table, some p⟩ e).1 = .panic ∨ (executeDelete X ⟨table, some p⟩ e).1 = .hang := by
    rw [executeDelete, Exec.bind_of_ok (onTables_apply e (getSchema_of_lookup found)),
      Exec.bind_of_ok (onTables_apply e (scanRows_of_lookup found)), Exec.bind_apply, Exec.lift_apply]
    cases marked : deleteMarks X d.schema ⟨table, some p⟩ d.rows with
    | ok marks => exact absurd marked (notOk marks)
    | err err => exact absurd marked (notErr err)
    | panic => exact .inl rfl
    | hang => exact .inr rfl
  constructor
  · intro n same
    rcases ends with panic | hang
    · rw [same] at panic
      cases panic
    · rw [same] at hang
      cases hang
  · intro err same
    rcases ends with panic | hang
    · rw [same] at panic
      cases panic
    · rw [same] at hang
      cases hang

/-- What a calm DELETE reports, and the table behind it. -/
theorem delete_reports (found : e.tables.lookup table.text = some d) (calm : Calm X d p) :
    (executeDelete X ⟨table, some p⟩ e).2.tables.lookup table.text = some { d with rows := keptRows X d p } ∧
      (Writable X e d.schema (keptRows X d p) →
        (executeDelete X ⟨table, some p⟩ e).1 = .ok (d.rows.filter (Holds X d.schema p)).length) ∧
      (¬ Writable X e d.schema (keptRows X d p) → ∃ err, (executeDelete X ⟨table, some p⟩ e).1 = .err err) := by
  have put : (e.tables.insert table.text { d with rows := keptRows X d p }).lookup table.text =
      some { d with rows := keptRows X d p } := AList.lookup_insert _
  have count : d.rows.length - (keptRows X d p).length = (d.rows.filter (Holds X d.schema p)).length := by
    have split := List.length_eq_length_filter_add (l := d.rows) (Holds X d.schema p)
    rw [keptRows]
    omega
  rw [executeDelete_of_calm found calm]
  refine ⟨?_, fun writable => ?_, fun stuck => ?_⟩
  · rw [tables_of_keeps ((keeps_persistTable X table.text).bind fun _ => Exec.keeps_pure _ _)]
    exact put
  · obtain ⟨e', ran⟩ := persistTable_of_writable
      (e := ⟨e.tables.insert table.text { d with rows := keptRows X d p }, e.storage⟩) put
      table.colon_not_mem writable
    rw [Exec.bind_of_ok ran, count]
    rfl
  · obtain ⟨err, ran⟩ := persistTable_of_not_writable
      (e := ⟨e.tables.insert table.text { d with rows := keptRows X d p }, e.storage⟩) put stuck
    refine ⟨err, ?_⟩
    rw [Exec.bind_apply, ran]

/-! ## The two together -/

/-- Either the predicate has a value on every row, or there is a first without. -/
theorem evaluates_or_stops (X : Extern) (schema : Schema) (rows : List Row) (p : Expr) :
    EvaluatesOn X schema rows p ∨ ∃ before row after stop, rows = before ++ row :: after ∧
      EvaluatesOn X schema before p ∧ evaluateExpr X row.values schema p = Stop.ends stop := by
  induction rows with
  | nil => exact .inl (by simp [EvaluatesOn])
  | cons row rows ih =>
    by_cases given : ∃ val, evaluateExpr X row.values schema p = .ok val
    · rcases ih with all | ⟨before, row', after, stop, split, evaluates, fails⟩
      · exact .inl (List.forall_mem_cons.mpr ⟨given, all⟩)
      · exact .inr ⟨row :: before, row', after, stop, by rw [split]; rfl,
          List.forall_mem_cons.mpr ⟨given, evaluates⟩, fails⟩
    · obtain ⟨stop, ended⟩ := stop_of_not_ok fun val same => given ⟨val, same⟩
      exact .inr ⟨[], row, rows, stop, rfl, by simp [EvaluatesOn], ended⟩

theorem calm_of_evaluates (evaluates : EvaluatesOn X d.schema d.rows p) : Calm X d p := by
  intro row among
  obtain ⟨val, given⟩ := evaluates row among
  rw [given]
  exact ⟨by simp, by simp⟩

theorem kept_eq_rows : keptRows X d p = d.rows ↔ ∀ row ∈ d.rows, Holds X d.schema p row = false := by
  rw [keptRows, List.filter_eq_self]
  simp

theorem follows_iff_agreeing (found : e.tables.lookup table.text = some d)
    (wide : ∀ row ∈ d.rows, row.values.length = d.schema.len) (room : d.rows.length ≤ vecMax) :
    DeleteFollows X others e table p d ↔ Agreeing X e d p := by
  have ends {stop : Stop SQLError} (first : FirstStop X d p stop) :
      SelectEnds X others e.tables (selectStar table.text p) stop.ends := by
    obtain ⟨before, row, after, split, evaluates, fails⟩ := first
    exact selectStar_stops found wide room split evaluates fails
  have rowsOf (all : EvaluatesOn X d.schema d.rows p) : SelectEnds X others e.tables (selectStar table.text p)
      (.ok ((d.rows.filter (Holds X d.schema p)).map (listed X d.schema))) :=
    selectStar_rows found wide room all
  rcases evaluates_or_stops X d.schema d.rows p with all | ⟨before, row, after, stop, first⟩
  · have rows := rowsOf all
    obtain ⟨left, reports, fails⟩ := delete_reports found (calm_of_evaluates all)
    have noStop {stop : Stop SQLError} : ¬ FirstStop X d p stop := by
      intro first
      have same := rows.unique (ends first)
      cases stop <;> cases same
    constructor
    · intro follows
      refine .inl ⟨all, ?_⟩
      by_contra stuck
      obtain ⟨chosen, -, reported, -⟩ := follows.1 _ rows
      obtain ⟨err, failed⟩ := fails stuck
      rw [failed] at reported
      cases reported
    · rintro (⟨-, writable⟩ | (panics | hangs) | ⟨⟨err, first⟩, -⟩)
      · constructor
        · intro given selected
          have same := Outcome.ok.inj (rows.unique selected)
          refine ⟨Holds X d.schema p, same.symm, ?_, left⟩
          rw [reports writable, ← same, List.length_map]
        · intro err selected
          have same := rows.unique selected
          cases same
      · exact absurd panics noStop
      · exact absurd hangs noStop
      · exact absurd first noStop
  · have stopped : FirstStop X d p stop := ⟨before, row, after, first⟩
    have selected := ends stopped
    have same {stop' : Stop SQLError} (first' : FirstStop X d p stop') :
        (stop.ends : Result (List Row)) = stop'.ends := selected.unique (ends first')
    have notAll : ¬ EvaluatesOn X d.schema d.rows p := by
      intro all
      have differ := (rowsOf all).unique selected
      cases stop <;> cases differ
    have noRows (rows : List Row) : ¬ SelectEnds X others e.tables (selectStar table.text p) (.ok rows) := by
      intro given
      have differ := given.unique selected
      cases stop <;> cases differ
    cases stop with
    | panic =>
      refine iff_of_true ⟨fun rows given => absurd given (noRows rows), fun err given => ?_⟩
        (.inr (.inl (.inl stopped)))
      have differ := given.unique selected
      cases differ
    | hang =>
      refine iff_of_true ⟨fun rows given => absurd given (noRows rows), fun err given => ?_⟩
        (.inr (.inl (.inr stopped)))
      have differ := given.unique selected
      cases differ
    | err err =>
      constructor
      · intro follows
        obtain ⟨⟨err', failed⟩, stays⟩ := follows.2 err selected
        have calm : Calm X d p := by
          by_contra panics
          exact (executeDelete_of_not_calm found panics).2 err' failed
        obtain ⟨left, reports, -⟩ := delete_reports found calm
        have kept : keptRows X d p = d.rows :=
          congrArg TableData.rows (Option.some.inj (left.symm.trans stays))
        refine .inr (.inr ⟨⟨err, stopped⟩, calm, kept_eq_rows.mp kept, fun writable => ?_⟩)
        rw [← kept] at writable
        rw [reports writable] at failed
        cases failed
      · rintro (⟨all, -⟩ | (panics | hangs) | ⟨-, calm, none, stuck⟩)
        · exact absurd all notAll
        · cases same panics
        · cases same hangs
        · obtain ⟨left, -, fails⟩ := delete_reports found calm
          have kept := kept_eq_rows.mpr none
          rw [kept] at left fails
          exact ⟨fun rows given => absurd given (noRows rows), fun err' _ => ⟨fails stuck, left⟩⟩

/-- **When a DELETE follows its SELECT.** -/
theorem delete_follows_iff (X : Extern) (others : OtherExecutors) (e : SQLEngine) (table : Identifier) (p : Expr)
    (d : TableData) (found : e.tables.lookup table.text = some d)
    (wide : ∀ row ∈ d.rows, row.values.length = d.schema.len) (room : d.rows.length ≤ vecMax) :
    DeleteFollows X others e table p d ↔ Agreeing X e d p :=
  follows_iff_agreeing found wide room

/-! ## A quotient -/

/-- A table `t` of one column `n` with the rows 0 and 1. -/
def zeroAndOne : TableData := ⟨numbers, [⟨[some (.integer 0)]⟩, ⟨[some (.integer 1)]⟩], 2⟩

def zeroAndOneEngine : SQLEngine := ⟨AList.singleton ['t'] zeroAndOne, none⟩

def tableT : Identifier := ⟨['t'], Eq.refl true⟩

/-- `n > 0`. -/
def positive : Expr := .binaryOp (.column ['n']) .gt (.literal (.integer 0))

/-- `1 / n > 0`. -/
def quotientPositive : Expr :=
  .binaryOp (.binaryOp (.literal (.integer 1)) .divide (.column ['n'])) .gt (.literal (.integer 0))

theorem delete_follows_positive : DeleteFollows .ascii noOthers zeroAndOneEngine tableT positive zeroAndOne :=
  (delete_follows_iff .ascii noOthers zeroAndOneEngine tableT positive zeroAndOne (by decide +kernel)
    (by decide) (by decide +kernel)).mpr (.inl ⟨by decide +kernel, .inl rfl⟩)

/-- `SELECT * FROM t WHERE 1 / n > 0` fails, the DELETE removes the row 1. -/
theorem delete_not_following :
    ¬ DeleteFollows .ascii noOthers zeroAndOneEngine tableT quotientPositive zeroAndOne := by
  intro follows
  have rows : ∀ row ∈ zeroAndOne.rows, evaluateExpr .ascii row.values zeroAndOne.schema quotientPositive ≠ .panic ∧
      evaluateExpr .ascii row.values zeroAndOne.schema quotientPositive ≠ .hang := by decide +kernel
  rcases (follows_iff_agreeing (d := zeroAndOne) (by decide +kernel) (by decide) (by decide +kernel)).mp follows with
    ⟨all, -⟩ | (⟨before, row, after, split, -, panics⟩ | ⟨before, row, after, split, -, hangs⟩) | ⟨-, -, none, -⟩
  · exact absurd all (by decide +kernel)
  · exact (rows row (split ▸ List.mem_append_right before (.head _))).1 panics
  · exact (rows row (split ▸ List.mem_append_right before (.head _))).2 hangs
  · exact absurd (none ⟨[some (.integer 1)]⟩ (by decide)) (by decide +kernel)

end NovaRuntime.Sql
