/-
# NovaRuntime.Sql.Select — `execute_select` over one table

`executeSelect` is the statement up to the rows it puts into a batch: the tables exist, the wildcards
are expanded, the binder finds every column of the select list, and the executor of the plan is
drained. The columns of the WHERE are not bound.

Without aggregates a SELECT over one table pushes its rows through one test, the WHERE and then the select
list, and ends as the first that fails (`select_ends`). `SELECT * FROM t WHERE p` gives the rows on which
`p` is `Boolean(true)` if `p` has a value on every row (`selectStar_rows`), and else ends as `p` does on the
first row without one (`selectStar_stops`).
-/
import NovaRuntime.Sql.Parts
import NovaRuntime.Sql.Relational

namespace NovaRuntime.Sql

open NovaRuntime.Library NovaRuntime.Library.Pull

set_option autoImplicit false

/-! ## The statement -/

def tableExists (tables : TableStore) (name : Text) : Result Unit :=
  if (tables.lookup name).isSome then .ok () else .err (.tableNotFound name)

def combinedFromSchema (tables : TableStore) (first : Text) (joins : List Join) : Result Schema := do
  let schema ← (TableStore.getSchema first tables).1
  joins.foldlM (fun schema join => do
    let right ← (TableStore.getSchema join.right tables).1
    pure (combineSchemas schema right)) schema

def expandWildcards (items : List SelectItem) (schema : Schema) : List SelectItem :=
  items.flatMap fun item =>
    match item with
    | .wildcard => schema.columns.map fun col => .expr (.column col.name) none
    | other => [other]

namespace Binder

/-- Every column that is named exists. -/
def resolveExpr (schema : Schema) (e : Expr) : Result Unit :=
  (parts e).forM fun part =>
    match part with
    | .column name => if (schema.findColumn name).isSome then .ok () else .err (.columnNotFound name)
    | _ => .ok ()

/-- Whether the select list can be bound; the rest of the statement is not looked at. -/
def bind (selectList : List SelectItem) (schema : Schema) : Result Unit :=
  selectList.forM fun item =>
    match item with
    | .wildcard => .ok ()
    | .expr e _ => resolveExpr schema e

end Binder

/-- The rows of an executor, from its `open` to its `close`. -/
def drain (turns : Nat) (given : Except SQLError Executor) : Result (List Row) :=
  match given with
  | .ok exec => (buffered turns exec exec.initial).1
  | .error e => .err e

def executeSelect (X : Extern) (turns : Nat) (others : OtherExecutors) (tables : TableStore)
    (stmt : SelectStatement) : Result (List Row) := do
  tableExists tables stmt.fromTable
  stmt.joins.forM fun join => tableExists tables join.right
  let schema ← combinedFromSchema tables stmt.fromTable stmt.joins
  let expanded := { stmt with selectList := expandWildcards stmt.selectList schema }
  Binder.bind expanded.selectList schema
  drain turns (buildExecutor X turns others tables (planSelect X expanded))

/-- What a SELECT ends in, given turns enough. -/
def SelectEnds (X : Extern) (others : OtherExecutors) (tables : TableStore) (stmt : SelectStatement)
    (o : Result (List Row)) : Prop :=
  ∃ enough, ∀ turns, enough ≤ turns → executeSelect X turns others tables stmt = o

theorem SelectEnds.unique {X : Extern} {others : OtherExecutors} {tables : TableStore} {stmt : SelectStatement}
    {o o' : Result (List Row)} (one : SelectEnds X others tables stmt o)
    (other : SelectEnds X others tables stmt o') : o = o' := by
  obtain ⟨n, ends⟩ := one
  obtain ⟨m, ends'⟩ := other
  rw [← ends (max n m) (le_max_left n m), ends' (max n m) (le_max_right n m)]

/-! ## One table -/

variable {X : Extern} {others : OtherExecutors} {tables : TableStore} {name : Text} {p : Expr} {d : TableData}
variable {exec : Executor} {turns : Nat}

/-- A SELECT over one table, with no clause behind the HAVING. -/
def singleTable (name : Text) (items : List SelectItem) (filter : Option Expr) (groupBy : List Expr)
    (having : Option Expr) : SelectStatement where
  distinct := false
  selectList := items
  fromTable := name
  joins := []
  whereClause := filter
  groupBy := groupBy
  having := having
  orderBy := []
  limit := none
  offset := none

/-- The select list behind the binder. -/
def boundExprs (items : List SelectItem) (schema : Schema) : List (Expr × Option Text) :=
  (expandWildcards items schema).map SelectItem.planned

theorem executeSelect_single (turns : Nat) (items : List SelectItem) (filter : Option Expr) (groupBy : List Expr)
    (having : Option Expr) (found : tables.lookup name = some d) :
    executeSelect X turns others tables (singleTable name items filter groupBy having) =
      (Binder.bind (expandWildcards items d.schema) d.schema >>= fun _ =>
        drain turns (buildExecutor X turns others tables
          (planSelect X (singleTable name (expandWildcards items d.schema) filter groupBy having)))) := by
  have known : (tables.lookup name).isSome := by rw [found]; rfl
  have given : (TableStore.getSchema name tables).1 = .ok d.schema := by
    rw [TableStore.getSchema, Exec.bind_of_ok (TableStore.data_of_lookup found)]
    rfl
  have exists' : tableExists tables name = .ok () := if_pos known
  have combined : combinedFromSchema tables name [] = .ok d.schema := by
    rw [combinedFromSchema, given]
    rfl
  rw [executeSelect]
  show (tableExists tables name >>= fun _ => _) = _
  rw [exists', Outcome.ok_bind]
  show (combinedFromSchema tables name [] >>= fun schema => _) = _
  rw [combined, Outcome.ok_bind]
  rfl

/-! ## The rows that pass the WHERE -/

/-- The WHERE, where there is one. -/
def whereTest (X : Extern) (schema : Schema) (filter : Option Expr) : Row → Result (Option Row) :=
  filter.elim (fun row => .ok (some row)) fun p => tested (holdsOn X schema p)

def whereExecutor (X : Extern) (turns : Nat) (tables : TableStore) (name : Text) (filter : Option Expr)
    (schema : Schema) : Executor :=
  filter.elim (scanExecutor tables name) fun p => filterExecutor X turns (scanExecutor tables name) p schema

/-- The node of a SELECT over one table below its select list. -/
def whereNode (name : Text) (filter : Option Expr) : LogicalNode :=
  filter.elim (.scan name) (.selection (.scan name))

theorem columnsOf_found (found : tables.lookup name = some d) : columnsOf tables name = d.schema := by
  rw [columnsOf, found]
  rfl

theorem resolve_where (found : tables.lookup name = some d) (filter : Option Expr) :
    resolveSchema tables (whereNode name filter) = .ok d.schema := by
  have resolved := schemaOf_of_known (by rw [found]; rfl)
  rw [columnsOf_found found] at resolved
  cases filter <;> exact resolved

theorem build_where (turns : Nat) (found : tables.lookup name = some d) (filter : Option Expr) :
    buildExecutor X turns others tables (whereNode name filter) =
      .ok (whereExecutor X turns tables name filter d.schema) := by
  have resolved := schemaOf_of_known (by rw [found]; rfl)
  rw [columnsOf_found found] at resolved
  cases filter with
  | none =>
    rw [whereNode, Option.elim_none, buildExecutor, resolved]
    rfl
  | some p =>
    rw [whereNode, Option.elim_some, buildExecutor, buildExecutor, resolveSchema, resolved]
    rfl

theorem where_closes (turns : Nat) (filter : Option Expr) (schema : Schema) :
    Closes (whereExecutor X turns tables name filter schema) := by
  cases filter <;> exact fun _ => ⟨_, rfl⟩

/-- Opened from `new`, the executor pushes these rows through the test. -/
def Passes (exec : Executor) (f : Row → Result (Option Row)) (rows : List Row) : Prop :=
  ∃ opened, exec.openRows exec.initial = (.ok (), opened) ∧ Pushes exec.next f (exec.next opened) rows

theorem where_passes (found : tables.lookup name = some d) (filter : Option Expr)
    (enough : d.rows.length < turns) :
    Passes (whereExecutor X turns tables name filter d.schema) (whereTest X d.schema filter) d.rows := by
  have known : (tables.lookup name).isSome := by rw [found]; rfl
  have rows : rowsOf tables name = d.rows := by rw [rowsOf, found]; rfl
  obtain ⟨opened, opens, yields⟩ := scan_serves known
  rw [rows] at yields
  cases filter with
  | none => exact ⟨opened, opens, yields.pushes⟩
  | some p => exact ⟨opened, opens, yields.pushes.filter enough⟩

theorem Passes.projection {f : Row → Result (Option Row)} {rows : List Row}
    (passes : Passes exec f rows) (exprs : List (Expr × Option Text)) (schema : Schema) :
    Passes (projectionExecutor X exec exprs schema) (both f (changed (projectRow X exprs schema))) rows := by
  obtain ⟨opened, opens, pushes⟩ := passes
  exact ⟨opened, opens, pushes.map⟩

/-- A limit without an offset skips nothing. -/
theorem limit_opens {limit : Nat} {input : Executor} {opened : input.State} (some : 0 < turns)
    (opens : input.openRows input.initial = (.ok (), opened)) :
    (limitExecutor turns input limit 0).openRows (limitExecutor turns input limit 0).initial =
      (.ok (), ⟨opened, 0, 0⟩) := by
  obtain ⟨turns, rfl⟩ := Nat.exists_eq_succ_of_ne_zero (Nat.ne_of_gt some)
  have inner : Window.onInput input.openRows ⟨input.initial, 0, 0⟩ =
      (.ok (), (⟨opened, 0, 0⟩ : Window input.State)) :=
    Window.onInput_of_ok (w := ⟨input.initial, 0, 0⟩) opens
  simp only [limitExecutor]
  rw [Exec.bind_of_ok inner, Exec.modify_bind]
  exact Exec.loop_of_done turns rfl

theorem Passes.limit {f : Row → Result (Option Row)} {rows : List Row}
    (passes : Passes exec f rows) (some : 0 < turns) (room : rows.length < usizeMax) :
    Passes (limitExecutor turns exec usizeMax 0) f rows := by
  obtain ⟨opened, opens, pushes⟩ := passes
  refine ⟨⟨opened, 0, 0⟩, limit_opens some opens, ?_⟩
  exact Pushes.limit (w := ⟨opened, 0, 0⟩) pushes (by rw [Nat.zero_add]; exact room)

/-- Draining ends as pushing the rows does. -/
theorem Passes.buffered {f : Row → Result (Option Row)} {rows : List Row}
    (passes : Passes exec f rows) (closes : Closes exec) (enough : rows.length < turns) :
    (buffered turns exec exec.initial).1 = pushed f rows := by
  obtain ⟨opened, opens, pushes⟩ := passes
  obtain ⟨drained, collected⟩ := pushes.collect enough
  rw [NovaRuntime.Sql.buffered, Exec.bind_of_ok opens, Exec.bind_apply, collected]
  cases pushed f rows with
  | ok given =>
    obtain ⟨closed, done⟩ := closes drained
    show ((exec.close >>= fun _ => pure given) drained).1 = _
    rw [Exec.bind_of_ok done]
    rfl
  | err e | panic | hang => rfl

/-! ## Executors that buffer -/

/-- Opened from `new`, the executor gives these rows, or its `open` fails so. -/
def Gives (exec : Executor) (o : Result (List Row)) : Prop :=
  (∃ rows, o = .ok rows ∧ Serves exec rows) ∨
    ∃ (stop : Stop SQLError) (s : exec.State), o = stop.ends ∧ exec.openRows exec.initial = (stop.ends, s)

/-- Drained through a limit that it does not reach. -/
theorem Gives.limited {o : Result (List Row)} (gives : Gives exec o)
    (closes : Closes exec) (few : ∀ rows, o = .ok rows → rows.length < turns)
    (room : ∀ rows, o = .ok rows → rows.length ≤ usizeMax) :
    (NovaRuntime.Sql.buffered turns (limitExecutor turns exec usizeMax 0)
      (limitExecutor turns exec usizeMax 0).initial).1 = o := by
  rcases gives with ⟨rows, rfl, serves⟩ | ⟨stop, s, rfl, fails⟩
  · have all : (rows.drop 0).take usizeMax = rows := List.take_of_length_le (room rows rfl)
    have limited := limit_serves usizeMax 0 serves (few rows rfl)
    rw [all] at limited
    obtain ⟨s, ran⟩ := buffered_serves limited (limit_closes closes) (few rows rfl)
    rw [ran]
  · have inner : Window.onInput exec.openRows ⟨exec.initial, 0, 0⟩ =
        (stop.ends, (⟨s, 0, 0⟩ : Window exec.State)) := by
      rw [Window.onInput, Exec.zoom_apply, fails]
    have opens : (limitExecutor turns exec usizeMax 0).openRows (limitExecutor turns exec usizeMax 0).initial =
        (stop.ends, ⟨s, 0, 0⟩) := bind_of_stop inner _
    exact congrArg Prod.fst (bind_of_stop opens _)

/-! ## A select list without aggregates -/

/-- Whether the planner makes an aggregation. -/
def aggregated (X : Extern) (exprs : List (Expr × Option Text)) (groupBy : List Expr) : Bool :=
  ! groupBy.isEmpty || exprs.any fun item => containsAggregate X item.1

theorem planSelect_single (name : Text) (items : List SelectItem) (filter : Option Expr) (groupBy : List Expr)
    (having : Option Expr) :
    planSelect X (singleTable name items filter groupBy having) =
      .limit (if aggregated X (items.map SelectItem.planned) groupBy then
          .aggregate (whereNode name filter) (items.map SelectItem.planned) groupBy having
        else .projection (whereNode name filter) (items.map SelectItem.planned)) usizeMax 0 := by
  cases filter <;> rfl

/-- A row that passes the WHERE, with the values of the select list. -/
def selectRow (X : Extern) (schema : Schema) (filter : Option Expr) (exprs : List (Expr × Option Text)) :
    Row → Result (Option Row) :=
  both (whereTest X schema filter) (changed (projectRow X exprs schema))

/-- **A SELECT without aggregates**: the row that each row gives, or the first failure. The HAVING is not
looked at. -/
theorem executeSelect_plain (items : List SelectItem) (filter having : Option Expr)
    (found : tables.lookup name = some d) (room : d.rows.length ≤ vecMax) (enough : d.rows.length < turns)
    (plain : aggregated X (boundExprs items d.schema) [] = false) :
    executeSelect X turns others tables (singleTable name items filter [] having) =
      (Binder.bind (expandWildcards items d.schema) d.schema >>= fun _ =>
        pushed (selectRow X d.schema filter (boundExprs items d.schema)) d.rows) := by
  have inside : d.rows.length < usizeMax := room.trans_lt (by decide)
  have plan := planSelect_single (X := X) name (expandWildcards items d.schema) filter [] having
  rw [show (expandWildcards items d.schema).map SelectItem.planned = boundExprs items d.schema from rfl,
    if_neg (by rw [plain]; exact Bool.false_ne_true)] at plan
  have build : buildExecutor X turns others tables
      (.limit (.projection (whereNode name filter) (boundExprs items d.schema)) usizeMax 0) =
        .ok (limitExecutor turns (projectionExecutor X (whereExecutor X turns tables name filter d.schema)
          (boundExprs items d.schema) d.schema) usizeMax 0) := by
    rw [buildExecutor, buildExecutor, build_where turns found, resolve_where found]
    rfl
  have passes := ((where_passes (X := X) found filter enough).projection (X := X) (boundExprs items d.schema)
    d.schema).limit (Nat.zero_lt_of_lt enough) inside
  rw [executeSelect_single turns items filter [] having found, plan, build]
  exact congrArg (fun o => Binder.bind (expandWildcards items d.schema) d.schema >>= fun _ => o)
    (passes.buffered (limit_closes (where_closes turns filter d.schema)) enough)

theorem select_ends (items : List SelectItem) (filter having : Option Expr) (found : tables.lookup name = some d)
    (room : d.rows.length ≤ vecMax) (plain : aggregated X (boundExprs items d.schema) [] = false) :
    SelectEnds X others tables (singleTable name items filter [] having)
      (Binder.bind (expandWildcards items d.schema) d.schema >>= fun _ =>
        pushed (selectRow X d.schema filter (boundExprs items d.schema)) d.rows) :=
  ⟨d.rows.length + 1, fun _ enough => executeSelect_plain items filter having found room enough plain⟩

/-! ## SELECT * -/

/-- `SELECT * FROM t WHERE p`. -/
def selectStar (name : Text) (p : Expr) : SelectStatement := singleTable name [.wildcard] (some p) [] none

/-- The columns of a schema, as the wildcard is expanded. -/
def allColumns (schema : Schema) : List (Expr × Option Text) :=
  schema.columns.map fun col => (.column col.name, none)

theorem expandWildcards_star (schema : Schema) :
    expandWildcards [.wildcard] schema = schema.columns.map fun col => .expr (.column col.name) none := by
  simp [expandWildcards]

theorem findIndex_of_mem {schema : Schema} {col : ColumnInfo} (among : col ∈ schema.columns) :
    ∃ idx, schema.findIndex col.name = some idx ∧ idx < schema.len := by
  cases found : schema.findIndex col.name with
  | none =>
    rw [Schema.findIndex, List.findIdx?_eq_none_iff] at found
    exact absurd (found col among) (by simp)
  | some idx => exact ⟨idx, rfl, Schema.findIndex_lt found⟩

theorem bind_star (schema : Schema) :
    Binder.bind (schema.columns.map fun col => .expr (.column col.name) none) schema = .ok () := by
  apply Outcome.forM_ok
  intro item listed
  obtain ⟨col, among, rfl⟩ := List.mem_map.mp listed
  have found : (schema.findColumn col.name).isSome = true := by
    rw [Schema.findColumn, List.find?_isSome]
    exact ⟨col, among, by simp⟩
  apply Outcome.forM_ok
  intro part inside
  rw [parts, List.mem_singleton] at inside
  subst inside
  exact if_pos found

/-- The row that SELECT * gives for a row. -/
def listed (X : Extern) (schema : Schema) (row : Row) : Row := projected X schema (allColumns schema) row

theorem columns_evaluate {schema : Schema} {row : Row} (wide : row.values.length = schema.len) :
    ∀ item ∈ allColumns schema, ∃ val, evaluateExpr X row.values schema item.1 = .ok val := by
  intro item among
  obtain ⟨col, inside, rfl⟩ := List.mem_map.mp among
  obtain ⟨idx, found, small⟩ := findIndex_of_mem inside
  have inside : idx < row.values.length := wide ▸ small
  refine ⟨row.values[idx].getD .null, ?_⟩
  have present : row.values[idx]? = some row.values[idx] := List.getElem?_eq_getElem inside
  simp only [evaluateExpr, found, present]

section Ends

variable (found : tables.lookup name = some d) (wide : ∀ row ∈ d.rows, row.values.length = d.schema.len)
  (room : d.rows.length ≤ vecMax)

include found room in
theorem selectStar_ends :
    SelectEnds X others tables (selectStar name p) (pushed (selectRow X d.schema (some p) (allColumns d.schema))
      d.rows) := by
  have listed : boundExprs [.wildcard] d.schema = allColumns d.schema := by
    rw [boundExprs, expandWildcards_star, List.map_map]
    rfl
  have plain : aggregated X (boundExprs [.wildcard] d.schema) [] = false := by
    rw [listed, aggregated, List.isEmpty_nil, Bool.not_true, Bool.false_or, List.any_eq_false]
    intro item among
    obtain ⟨col, -, rfl⟩ := List.mem_map.mp among
    simp [containsAggregate]
  have ends : SelectEnds X others tables (selectStar name p) _ :=
    select_ends [.wildcard] (some p) none found room plain
  rw [listed, expandWildcards_star, bind_star, Outcome.ok_bind] at ends
  exact ends

include wide in
theorem selectRow_of_value {row : Row} (among : row ∈ d.rows)
    (given : ∃ val, evaluateExpr X row.values d.schema p = .ok val) :
    selectRow X d.schema (some p) (allColumns d.schema) row =
      .ok (if Holds X d.schema p row then some (listed X d.schema row) else none) := by
  have held : whereTest X d.schema (some p) row = .ok (if Holds X d.schema p row then some row else none) := by
    rw [whereTest, Option.elim_some, tested, holdsOn_eq given]
    rfl
  cases holds : Holds X d.schema p row with
  | true =>
    rw [holds] at held
    rw [selectRow, both_of_kept held, changed, projectRow_eq (columns_evaluate (wide row among))]
    rfl
  | false =>
    rw [holds] at held
    exact both_of_dropped held _

include found wide room

/-- **All rows have a value**: the rows on which the predicate is true, in order. -/
theorem selectStar_rows (evaluates : EvaluatesOn X d.schema d.rows p) :
    SelectEnds X others tables (selectStar name p)
      (.ok ((d.rows.filter (Holds X d.schema p)).map (listed X d.schema))) := by
  have rows : pushed (selectRow X d.schema (some p) (allColumns d.schema)) d.rows =
      .ok ((d.rows.filter (Holds X d.schema p)).map (listed X d.schema)) := by
    rw [pushed_of_ok fun row among => selectRow_of_value wide among (evaluates row among),
      ← List.filterMap_eq_map, List.filterMap_filter]
    rfl
  rw [← rows]
  exact selectStar_ends found room

/-- **Some row has none**: what the predicate ends in on the first of them. -/
theorem selectStar_stops {before after : List Row} {row : Row} {stop : Stop SQLError}
    (split : d.rows = before ++ row :: after) (evaluates : EvaluatesOn X d.schema before p)
    (fails : evaluateExpr X row.values d.schema p = stop.ends) :
    SelectEnds X others tables (selectStar name p) stop.ends := by
  have broken : selectRow X d.schema (some p) (allColumns d.schema) row = stop.ends := by
    apply both_of_stopped
    rw [whereTest, Option.elim_some, tested, holdsOn, fails]
    cases stop <;> rfl
  have ends : pushed (selectRow X d.schema (some p) (allColumns d.schema)) d.rows = stop.ends := by
    rw [split]
    refine pushed_of_stop (fun r among => selectRow_of_value wide ?_ (evaluates r among)) broken
    rw [split]
    exact List.mem_append_left _ among
  rw [← ends]
  exact selectStar_ends found room

end Ends

end NovaRuntime.Sql
