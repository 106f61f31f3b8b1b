/-
# NovaRuntime.Sql.Relational — what a SELECT means, and that the executors give it

`relational` says what the rows of a SELECT are, as lists: the cross product of its
tables in left-major order, filtered by each ON and then by the WHERE, projected, with the
first `offset` rows dropped and at most `limit` kept. `denote` says the same of any tree of
these five nodes, and `serves_denote` proves by induction over the tree that the executor
`build_executor` makes of it, opened, gives these rows and then nothing.

Two hypotheses are about the database: the tables exist, and no expression fails on a row
that reaches it.
-/
import NovaRuntime.Sql.Executors

namespace NovaRuntime.Sql

open NovaRuntime.Library NovaRuntime.Library.Pull

set_option autoImplicit false

variable {X : Extern} {tables : TableStore}
variable {input : Executor} {rows : List Row} {turns : Nat} {schema : Schema}

/-! ## The meaning of a tree -/

def rowsOf (tables : TableStore) (name : Text) : List Row :=
  ((tables.lookup name).map TableData.rows).getD []

def columnsOf (tables : TableStore) (name : Text) : Schema :=
  ((tables.lookup name).map TableData.schema).getD ⟨[]⟩

/-- Every row of the left with every row of the right, the left one changing last. -/
def crossProduct (lefts rights : List Row) : List Row :=
  lefts.flatMap fun l => rights.map fun r => ⟨l.values ++ r.values⟩

/-- The predicate gives `Boolean(true)` on the row. -/
def Holds (X : Extern) (schema : Schema) (predicate : Expr) (row : Row) : Bool :=
  decide (evaluateExpr X row.values schema predicate = .ok (.boolean true))

/-- What the expression gives on a row where it does not fail. -/
def valueOn (X : Extern) (schema : Schema) (row : Row) (e : Expr) : LiteralValue :=
  (evaluateExpr X row.values schema e).elim id .null

def projected (X : Extern) (schema : Schema) (exprs : List (Expr × Option Text)) (row : Row) : Row :=
  ⟨exprs.map fun item => some (valueOn X schema row item.1)⟩

/-- The schema a node's expressions are resolved against. -/
def schemaAt (tables : TableStore) : LogicalNode → Schema
  | .scan name => columnsOf tables name
  | .join left right _ => combineSchemas (schemaAt tables left) (schemaAt tables right)
  | .projection input _ => schemaAt tables input
  | .selection input _ => schemaAt tables input
  | .sort input _ => schemaAt tables input
  | .limit input _ _ => schemaAt tables input
  | .aggregate input _ _ _ => schemaAt tables input
  | .dedup input => schemaAt tables input

/-- The rows of a tree; nothing is said of the nodes that are not plain. -/
def denote (X : Extern) (tables : TableStore) : LogicalNode → List Row
  | .scan name => rowsOf tables name
  | .join left right on =>
    (crossProduct (denote X tables left) (denote X tables right)).filter fun row =>
      on.all fun p => Holds X (combineSchemas (schemaAt tables left) (schemaAt tables right)) p row
  | .selection input predicate =>
    (denote X tables input).filter (Holds X (schemaAt tables input) predicate)
  | .projection input exprs =>
    (denote X tables input).map (projected X (schemaAt tables input) exprs)
  | .limit input limit offset => ((denote X tables input).drop offset).take limit
  | .sort _ _ => []
  | .aggregate _ _ _ _ => []
  | .dedup _ => []

/-! ## The hypotheses on the database -/

/-- The tables of a tree exist. -/
def Known (tables : TableStore) : LogicalNode → Prop
  | .scan name => (tables.lookup name).isSome
  | .join left right _ => Known tables left ∧ Known tables right
  | .projection input _ => Known tables input
  | .selection input _ => Known tables input
  | .sort input _ => Known tables input
  | .limit input _ _ => Known tables input
  | .aggregate input _ _ _ => Known tables input
  | .dedup input => Known tables input

/-- The expression has a value on each of the rows. -/
def EvaluatesOn (X : Extern) (schema : Schema) (rows : List Row) (e : Expr) : Prop :=
  ∀ row ∈ rows, ∃ val, evaluateExpr X row.values schema e = .ok val

/-- No expression of a tree fails on a row that reaches it. -/
def Evaluates (X : Extern) (tables : TableStore) : LogicalNode → Prop
  | .scan _ => True
  | .join left right on => Evaluates X tables left ∧ Evaluates X tables right ∧
      ∀ p ∈ on, EvaluatesOn X (combineSchemas (schemaAt tables left) (schemaAt tables right))
        (crossProduct (denote X tables left) (denote X tables right)) p
  | .selection input predicate => Evaluates X tables input ∧
      EvaluatesOn X (schemaAt tables input) (denote X tables input) predicate
  | .projection input exprs => Evaluates X tables input ∧
      ∀ item ∈ exprs, EvaluatesOn X (schemaAt tables input) (denote X tables input) item.1
  | .limit input _ _ => Evaluates X tables input
  | .sort input _ => Evaluates X tables input
  | .aggregate input _ _ _ => Evaluates X tables input
  | .dedup input => Evaluates X tables input

instance (schema : Schema) (row : Row) (e : Expr) :
    Decidable (∃ val, evaluateExpr X row.values schema e = .ok val) :=
  match evaluateExpr X row.values schema e with
  | .ok val => isTrue ⟨val, rfl⟩
  | .err _ => isFalse (by rintro ⟨_, given⟩; cases given)
  | .panic => isFalse (by rintro ⟨_, given⟩; cases given)
  | .hang => isFalse (by rintro ⟨_, given⟩; cases given)

instance (schema : Schema) (rows : List Row) (e : Expr) :
    Decidable (EvaluatesOn X schema rows e) :=
  inferInstanceAs (Decidable (∀ row ∈ rows, ∃ val, evaluateExpr X row.values schema e = .ok val))

/-! ## Expressions on rows -/

theorem holdsOn_eq {predicate : Expr} {row : Row}
    (evaluates : ∃ val, evaluateExpr X row.values schema predicate = .ok val) :
    holdsOn X schema predicate row = .ok (Holds X schema predicate row) := by
  obtain ⟨val, given⟩ := evaluates
  rw [holdsOn, Holds, given, Outcome.ok_bind, Outcome.pure_eq]
  congr 1
  simp

theorem projectRow_eq {exprs : List (Expr × Option Text)} {row : Row}
    (evaluates : ∀ item ∈ exprs, ∃ val, evaluateExpr X row.values schema item.1 = .ok val) :
    projectRow X exprs schema row = .ok (projected X schema exprs row) := by
  have each : exprs.mapM (fun item => do
      let val ← evaluateExpr X row.values schema item.1
      pure (some val)) = (.ok (exprs.map fun item => some (valueOn X schema row item.1)) :
        Result (List (Option LiteralValue))) := by
    induction exprs with
    | nil => rfl
    | cons item rest ih =>
      obtain ⟨⟨val, given⟩, later⟩ := List.forall_mem_cons.mp evaluates
      have value : valueOn X schema row item.1 = val := by rw [valueOn, given]; rfl
      rw [List.mapM_cons, given, ih later]
      simp only [Outcome.ok_bind, Outcome.pure_eq, List.map_cons, value]
  rw [projectRow, each]
  rfl

/-- The row of a pair that the ON keeps. -/
def joined (X : Extern) (on : Option Expr) (schema : Schema) (l r : Row) : Option Row :=
  if on.all fun p => Holds X schema p ⟨l.values ++ r.values⟩ then some ⟨l.values ++ r.values⟩
  else none

theorem joinRows_eq {on : Option Expr} {l r : Row}
    (evaluates : ∀ p ∈ on, ∃ val, evaluateExpr X (l.values ++ r.values) schema p = .ok val) :
    joinRows X on schema l r = .ok (joined X on schema l r) := by
  cases on with
  | none => rfl
  | some p =>
    rw [joinRows]
    have held : holdsOn X schema p ⟨l.values ++ r.values⟩ =
        .ok (Holds X schema p ⟨l.values ++ r.values⟩) := holdsOn_eq (evaluates p rfl)
    simp only [held, Outcome.ok_bind, Outcome.pure_eq, joined, Option.all_some]

/-! ## Building the tree -/

theorem schemaOf_of_known {name : Text} (known : (tables.lookup name).isSome) :
    schemaOf tables name = .ok (columnsOf tables name) := by
  obtain ⟨d, found⟩ := Option.isSome_iff_exists.mp known
  have given : (TableStore.getSchema name tables).1 = .ok d.schema := by
    rw [TableStore.getSchema, Exec.bind_of_ok (TableStore.data_of_lookup found)]
    rfl
  rw [schemaOf, columnsOf, given, found]
  rfl

theorem resolveSchema_of_known {plan : LogicalNode} (known : Known tables plan) :
    resolveSchema tables plan = .ok (schemaAt tables plan) := by
  induction plan with
  | scan name => exact schemaOf_of_known known
  | join left right on leftIh rightIh =>
    rw [resolveSchema, leftIh known.1, rightIh known.2]
    rfl
  | projection input exprs ih | selection input predicate ih | sort input orderBy ih
  | limit input limit offset ih | aggregate input exprs groupBy having ih | dedup input ih =>
    exact ih known

/-! ## What each executor serves -/

/-- Opened from `new`, the executor gives these rows and then nothing. -/
def Serves (exec : Executor) (rows : List Row) : Prop :=
  ∃ opened, exec.openRows exec.initial = (.ok (), opened) ∧ Yields exec.next opened rows

theorem scan_serves {name : Text} (known : (tables.lookup name).isSome) :
    Serves (scanExecutor tables name) (rowsOf tables name) := by
  obtain ⟨d, found⟩ := Option.isSome_iff_exists.mp known
  have scanned : (TableStore.scanRows name tables).1 = .ok d.rows := by
    rw [TableStore.scanRows, Exec.bind_of_ok (TableStore.data_of_lookup found)]
    rfl
  refine ⟨⟨rowsOf tables name, 0⟩, ?_, cursor_yields _ 0⟩
  have listed : rowsOf tables name = d.rows := by rw [rowsOf, found]; rfl
  simp only [scanExecutor, scanned, listed]
  rfl

theorem filter_serves {predicate : Expr}
    (serves : Serves input rows) (evaluates : EvaluatesOn X schema rows predicate)
    (enough : rows.length < turns) :
    Serves (filterExecutor X turns input predicate schema) (rows.filter (Holds X schema predicate)) := by
  obtain ⟨opened, opens, yields⟩ := serves
  exact ⟨opened, opens,
    filter_yields yields (fun row member => holdsOn_eq (evaluates row member)) enough⟩

theorem projection_serves {exprs : List (Expr × Option Text)}
    (serves : Serves input rows) (evaluates : ∀ item ∈ exprs, EvaluatesOn X schema rows item.1) :
    Serves (projectionExecutor X input exprs schema) (rows.map (projected X schema exprs)) := by
  obtain ⟨opened, opens, yields⟩ := serves
  exact ⟨opened, opens, map_yields yields fun row member =>
    projectRow_eq fun item inList => evaluates item inList row member⟩

theorem limit_serves (limit offset : Nat) (serves : Serves input rows) (enough : rows.length < turns) :
    Serves (limitExecutor turns input limit offset) ((rows.drop offset).take limit) := by
  obtain ⟨opened, opens, yields⟩ := serves
  obtain ⟨w, skipped, emitted, left⟩ :=
    skip_yields (w := ⟨opened, 0, 0⟩) yields enough
  refine ⟨w, ?_, ?_⟩
  · have inner : Window.onInput input.openRows ⟨input.initial, 0, 0⟩ =
        (.ok (), (⟨opened, 0, 0⟩ : Window input.State)) :=
      Window.onInput_of_ok (w := ⟨input.initial, 0, 0⟩) opens
    simp only [limitExecutor]
    rw [Exec.bind_of_ok inner, Exec.modify_bind]
    exact skipped
  · have window : Yields (limitNext input.next limit) w _ := limit_yields left
    rwa [emitted] at window

theorem buffered_serves (serves : Serves input rows) (closes : ∀ s, ∃ s', input.close s = (.ok (), s'))
    (enough : rows.length < turns) :
    ∃ s, buffered turns input input.initial = (.ok rows, s) := by
  obtain ⟨opened, opens, yields⟩ := serves
  obtain ⟨drained, collected, _⟩ := yields.collect enough
  obtain ⟨closed, done⟩ := closes drained
  refine ⟨closed, ?_⟩
  rw [buffered, Exec.bind_of_ok opens, Exec.bind_of_ok collected, Exec.bind_of_ok done]
  rfl

theorem filterMap_joined (on : Option Expr) (schema : Schema) (lefts rights : List Row) :
    ((product lefts rights).filterMap fun p => joined X on schema p.1 p.2) =
      (crossProduct lefts rights).filter fun row => on.all fun p => Holds X schema p row := by
  rw [product, crossProduct, List.filterMap_flatMap, List.filter_flatMap]
  congr 1
  funext l
  rw [List.filterMap_map, ← List.filterMap_eq_filter, List.filterMap_map]
  rfl

theorem join_serves {left right : Executor} {lefts rights : List Row}
    {on : Option Expr} (leftServes : Serves left lefts)
    (rightServes : Serves right rights) (leftCloses : ∀ s, ∃ s', left.close s = (.ok (), s'))
    (rightCloses : ∀ s, ∃ s', right.close s = (.ok (), s'))
    (evaluates : ∀ p ∈ on, EvaluatesOn X schema (crossProduct lefts rights) p)
    (leftEnough : lefts.length < turns) (rightEnough : rights.length < turns)
    (enough : lefts.length * (rights.length + 1) < turns) :
    Serves (joinExecutor X turns left right on schema)
      ((crossProduct lefts rights).filter fun row => on.all fun p => Holds X schema p row) := by
  obtain ⟨leftDone, leftRead⟩ := buffered_serves leftServes leftCloses leftEnough
  obtain ⟨rightDone, rightRead⟩ := buffered_serves rightServes rightCloses rightEnough
  refine ⟨⟨leftDone, rightDone, ⟨lefts, 0, rights, 0⟩⟩, ?_, ?_⟩
  · simp only [joinExecutor]
    rw [Exec.bind_apply, Exec.zoom_apply, leftRead]
    simp only [Exec.modify_bind]
    rw [Exec.bind_apply, Exec.zoom_apply, rightRead]
    rfl
  · rw [← filterMap_joined]
    have tested : ∀ p ∈ product lefts rights,
        joinRows X on schema p.1 p.2 = .ok (joined X on schema p.1 p.2) := by
      rintro ⟨l, r⟩ member
      refine joinRows_eq fun p isOn => evaluates p isOn ⟨l.values ++ r.values⟩ ?_
      obtain ⟨l', inLefts, paired⟩ := List.mem_flatMap.mp member
      obtain ⟨r', inRights, same⟩ := List.mem_map.mp paired
      cases same
      exact List.mem_flatMap.mpr ⟨l, inLefts, List.mem_map_of_mem inRights⟩
    have pairs := pairs_yields tested enough
    show Yields (Exec.zoom JoinState.pairs (fun p s => { s with pairs := p })
      (pairsNext (joinRows X on schema) turns)) _ _
    apply Yields.zoom
    · exact fun _ _ => rfl
    · exact fun _ _ _ => rfl
    · exact pairs

/-! ## The whole tree -/

/-- The executors of plain nodes close without failing. -/
def Closes (exec : Executor) : Prop := ∀ s, ∃ s', exec.close s = (.ok (), s')

theorem limit_closes {limit offset : Nat} (closes : Closes input) :
    Closes (limitExecutor turns input limit offset) := by
  intro w
  obtain ⟨s', done⟩ := closes w.input
  exact ⟨_, Window.onInput_of_ok done⟩

/-- **Trees of any depth**: with enough turns for its loops, the executor of a plain tree
serves the rows the tree denotes. -/
theorem serves_denote (others : OtherExecutors) {plan : LogicalNode} (plain : plan.Plain)
    (known : Known tables plan) (evaluates : Evaluates X tables plan) :
    ∃ enough, ∀ turns, enough ≤ turns →
      ∃ exec, buildExecutor X turns others tables plan = .ok exec ∧ Closes exec ∧
        Serves exec (denote X tables plan) := by
  induction plan with
  | scan name =>
    refine ⟨0, fun turns _ => ⟨scanExecutor tables name, ?_, fun _ => ⟨_, rfl⟩, scan_serves known⟩⟩
    rw [buildExecutor, schemaOf_of_known known]
    rfl
  | projection input exprs ih =>
    obtain ⟨enough, serve⟩ := ih plain known evaluates.1
    refine ⟨enough, fun turns atLeast => ?_⟩
    obtain ⟨exec, built, closes, serves⟩ := serve turns atLeast
    refine ⟨projectionExecutor X exec exprs (schemaAt tables input), ?_, closes,
      projection_serves serves evaluates.2⟩
    have schema : resolveSchema tables input = .ok (schemaAt tables input) :=
      resolveSchema_of_known known
    rw [buildExecutor, built, schema]
    rfl
  | selection input predicate ih =>
    obtain ⟨enough, serve⟩ := ih plain known evaluates.1
    refine ⟨max enough ((denote X tables input).length + 1), fun turns atLeast => ?_⟩
    obtain ⟨exec, built, closes, serves⟩ := serve turns (by omega)
    refine ⟨filterExecutor X turns exec predicate (schemaAt tables input), ?_, closes,
      filter_serves serves evaluates.2 (by omega)⟩
    have schema : resolveSchema tables input = .ok (schemaAt tables input) :=
      resolveSchema_of_known known
    rw [buildExecutor, built, schema]
    rfl
  | limit input limit offset ih =>
    obtain ⟨enough, serve⟩ := ih plain known evaluates
    refine ⟨max enough ((denote X tables input).length + 1), fun turns atLeast => ?_⟩
    obtain ⟨exec, built, closes, serves⟩ := serve turns (by omega)
    refine ⟨limitExecutor turns exec limit offset, ?_, limit_closes closes,
      limit_serves _ _ serves (by omega)⟩
    rw [buildExecutor, built]
    rfl
  | join left right on leftIh rightIh =>
    obtain ⟨leftEnough, leftServe⟩ := leftIh plain.1 known.1 evaluates.1
    obtain ⟨rightEnough, rightServe⟩ := rightIh plain.2 known.2 evaluates.2.1
    refine ⟨leftEnough + rightEnough + (denote X tables left).length +
      (denote X tables right).length +
      (denote X tables left).length * ((denote X tables right).length + 1) + 1,
      fun turns atLeast => ?_⟩
    obtain ⟨leftExec, leftBuilt, leftCloses, leftServes⟩ := leftServe turns (by omega)
    obtain ⟨rightExec, rightBuilt, rightCloses, rightServes⟩ := rightServe turns (by omega)
    refine ⟨joinExecutor X turns leftExec rightExec on
        (combineSchemas (schemaAt tables left) (schemaAt tables right)), ?_, fun _ => ⟨_, rfl⟩,
      join_serves leftServes rightServes leftCloses rightCloses evaluates.2.2 (by omega) (by omega)
        (by omega)⟩
    rw [buildExecutor, leftBuilt, rightBuilt, resolveSchema_of_known known.1,
      resolveSchema_of_known known.2]
    rfl
  | sort input orderBy ih | aggregate input exprs groupBy having ih | dedup input ih => exact plain.elim

/-! ## The meaning of a SELECT -/

/-- The joined rows of some tables, each ON filtering as its table is added. -/
def joinedRows (X : Extern) (tables : TableStore) (start : List Row × Schema) (joins : List Join) :
    List Row × Schema :=
  joins.foldl (fun sofar join =>
    let schema := combineSchemas sofar.2 (columnsOf tables join.right)
    ((crossProduct sofar.1 (rowsOf tables join.right)).filter fun row =>
      join.on.all fun p => Holds X schema p row, schema)) start

/-- **The rows of a SELECT.** -/
def relational (X : Extern) (tables : TableStore) (stmt : SelectStatement) : List Row :=
  let base := joinedRows X tables
    (rowsOf tables stmt.fromTable, columnsOf tables stmt.fromTable) stmt.joins
  let selected := base.1.filter fun row => stmt.whereClause.all fun p => Holds X base.2 p row
  let listed := selected.map (projected X base.2 (stmt.selectList.map SelectItem.planned))
  (listed.drop (stmt.offset.getD 0)).take (stmt.limit.getD usizeMax)

theorem denote_planJoins (X : Extern) (tables : TableStore) (node : LogicalNode) (joins : List Join) :
    let plan := joins.foldl (fun node join => .join node (.scan join.right) join.on) node
    (denote X tables plan, schemaAt tables plan) =
      joinedRows X tables (denote X tables node, schemaAt tables node) joins := by
  induction joins generalizing node with
  | nil => rfl
  | cons join rest ih => exact ih (.join node (.scan join.right) join.on)

theorem denote_planSelect {stmt : SelectStatement} (plain : (planSelect X stmt).Plain) :
    denote X tables (planSelect X stmt) = relational X tables stmt := by
  have base := denote_planJoins X tables (.scan stmt.fromTable) stmt.joins
  have rows := congrArg Prod.fst base
  have schema := congrArg Prod.snd base
  rw [planSelect_of_plain plain, relational, planJoins]
  cases stmt.whereClause with
  | none =>
    simp only [Option.elim_none, denote, schemaAt, Option.all_none, List.filter_true] at rows schema ⊢
    rw [rows, schema]
  | some p =>
    simp only [Option.elim_some, denote, schemaAt, Option.all_some] at rows schema ⊢
    rw [rows, schema]

/-- **A SELECT of scans, joins, a WHERE, a projection and a limit**: the executors that
`build_executor` makes of its plan, opened and drained, give the rows of the SELECT, and
every later `next` gives none. -/
theorem select_drains (others : OtherExecutors) {stmt : SelectStatement}
    (plain : (planSelect X stmt).Plain) (known : Known tables (planSelect X stmt))
    (evaluates : Evaluates X tables (planSelect X stmt)) :
    ∃ enough, ∀ turns, enough ≤ turns →
      ∃ exec, buildExecutor X turns others tables (planSelect X stmt) = .ok exec ∧
        ∃ opened drained, exec.openRows exec.initial = (.ok (), opened) ∧
          collect exec.next turns opened = (.ok (relational X tables stmt), drained) ∧
          ∀ n, exec.next (Nat.repeat (fun s => (exec.next s).2) n drained) = (.ok none, drained) := by
  obtain ⟨enough, serve⟩ := serves_denote others plain known evaluates
  refine ⟨max enough ((relational X tables stmt).length + 1), fun turns atLeast => ?_⟩
  obtain ⟨exec, built, _, opened, opens, yields⟩ := serve turns (by omega)
  rw [denote_planSelect plain] at yields
  have room : (relational X tables stmt).length < turns := by omega
  obtain ⟨drained, collected, ended⟩ := yields.collect room
  refine ⟨exec, built, opened, drained, opens, collected, fun n => ?_⟩
  rw [ended.stays n]
  exact ended

/-! ## A SELECT -/

def numbers : Schema :=
  ⟨[{ name := "n".toList, sqlType := .integer, nullable := true, default := none, ordinal := 0,
      unique := false, isPrimaryKey := false, autoIncrement := false }]⟩

/-- Two tables of one column, with the rows 1, 2 and 2, 3. -/
def twoTables : TableStore :=
  ((∅ : TableStore).insert "l".toList ⟨numbers, [⟨[some (.integer 1)]⟩, ⟨[some (.integer 2)]⟩], 2⟩).insert
    "r".toList ⟨numbers, [⟨[some (.integer 2)]⟩, ⟨[some (.integer 3)]⟩], 2⟩

/-- `SELECT n FROM l JOIN r WHERE n > 1 LIMIT 5 OFFSET 1`. -/
def twoTablesSelect : SelectStatement where
  distinct := false
  selectList := [.expr (.column "n".toList) none]
  fromTable := "l".toList
  joins := [⟨"r".toList, none⟩]
  whereClause := some (.binaryOp (.column "n".toList) .gt (.literal (.integer 1)))
  groupBy := []
  having := none
  orderBy := []
  limit := some 5
  offset := some 1

example : relational .ascii twoTables twoTablesSelect = [⟨[some (.integer 2)]⟩] := by
  decide +kernel

/-- The trait objects of the three other executors, which this plan has none of. -/
def noOthers : OtherExecutors := ⟨fun input _ _ _ _ => input, fun input _ _ => input, id⟩

theorem select_drains_twoTables :
    ∃ enough, ∀ turns, enough ≤ turns →
      ∃ exec, buildExecutor .ascii turns noOthers twoTables (planSelect .ascii twoTablesSelect) =
          .ok exec ∧
        ∃ opened drained, exec.openRows exec.initial = (.ok (), opened) ∧
          collect exec.next turns opened =
            (.ok (relational .ascii twoTables twoTablesSelect), drained) ∧
          ∀ n, exec.next (Nat.repeat (fun s => (exec.next s).2) n drained) = (.ok none, drained) :=
  select_drains noOthers ⟨trivial, trivial⟩ ⟨rfl, rfl⟩
    ⟨⟨⟨trivial, trivial, by decide +kernel⟩, by decide +kernel⟩, by decide +kernel⟩

end NovaRuntime.Sql
