/-
# NovaRuntime.Sql.Aggregation — GROUP BY and HAVING

`aggregateExecutor` buffers its input, groups it by the first key that is the same, and makes a row of each
group that HAVING lets through. The groups are the classes of the rows (`groupsOf_ok`); without GROUP BY
they are one group of all rows, or none of no row.

The planner asks for it where there is a GROUP BY or the select list has an aggregate; a HAVING alone is
dropped. `aggregates_iff` says when the rows of a statement are nevertheless those that the groups should
give.
-/
import NovaRuntime.Library.Grouping
import NovaRuntime.Sql.Grouped
import NovaRuntime.Sql.Select

namespace NovaRuntime.Sql

open NovaRuntime.Library NovaRuntime.Library.Pull

set_option autoImplicit false

/-! ## The executor -/

def evaluateGroupKey (X : Extern) (groupBy : List Expr) (schema : Schema) (row : Row) :
    Result (List LiteralValue) :=
  groupBy.mapM fun e => evaluateExpr X row.values schema e

/-- The derived `==` of keys. -/
def sameKeys : List LiteralValue → List LiteralValue → Bool
  | [], [] => true
  | a :: as, b :: bs => a.eq b && sameKeys as bs
  | _, _ => false

/-- The groups of `open`, with their keys. -/
def groupRows (X : Extern) (schema : Schema) (groupBy : List Expr) (rows : List Row) :
    Result (List (List LiteralValue × List Row)) :=
  if groupBy.isEmpty then .ok (if rows.isEmpty then [] else [([], rows)])
  else rows.foldlM (fun groups row => do
    let key ← evaluateGroupKey X groupBy schema row
    pure (place sameKeys key row groups)) []

/-- The row of a group, where HAVING lets it through. -/
def groupRow (X : Extern) (schema : Schema) (exprs : List (Expr × Option Text)) (having : Option Expr)
    (rows : List Row) : Result (Option Row) := do
  let values ← exprs.mapM fun item => do
    let val ← evaluateGroupedExpr X schema rows item.1
    pure (some val)
  match having with
  | none => pure (some ⟨values⟩)
  | some h => do
      let hv ← evaluateGroupedExpr X schema rows h
      pure (if hv = .boolean true then some ⟨values⟩ else none)

def aggregateRows (X : Extern) (schema : Schema) (exprs : List (Expr × Option Text)) (groupBy : List Expr)
    (having : Option Expr) (rows : List Row) : Result (List Row) := do
  let groups ← groupRows X schema groupBy rows
  pushed (fun group => groupRow X schema exprs having group.2) groups

structure AggregateState (σ : Type) where
  input : σ
  results : Cursor Row

def openAggregate (X : Extern) (turns : Nat) (input : Executor) (exprs : List (Expr × Option Text))
    (groupBy : List Expr) (having : Option Expr) (schema : Schema) :
    Exec SQLError (AggregateState input.State) Unit := do
  let inputRows ← Exec.zoom AggregateState.input (fun i s => { s with input := i }) (buffered turns input)
  let results ← Exec.lift (aggregateRows X schema exprs groupBy having inputRows)
  Exec.modify fun s => { s with results := ⟨results, 0⟩ }

def aggregateExecutor (X : Extern) (turns : Nat) (input : Executor) (exprs : List (Expr × Option Text))
    (groupBy : List Expr) (having : Option Expr) (schema : Schema) : Executor where
  State := AggregateState input.State
  initial := ⟨input.initial, ⟨[], 0⟩⟩
  openRows := openAggregate X turns input exprs groupBy having schema
  next := Exec.zoom AggregateState.results (fun r s => { s with results := r }) cursorNext
  close := Exec.modify fun s => { s with results := ⟨[], 0⟩ }

def withAggregates (X : Extern) (others : OtherExecutors) (turns : Nat) : OtherExecutors :=
  { others with aggregate := aggregateExecutor X turns }

/-- What a SELECT with aggregations ends in, given turns enough. -/
def QueryEnds (X : Extern) (others : OtherExecutors) (tables : TableStore) (stmt : SelectStatement)
    (o : Result (List Row)) : Prop :=
  ∃ enough, ∀ turns, enough ≤ turns → executeSelect X turns (withAggregates X others turns) tables stmt = o

theorem QueryEnds.unique {X : Extern} {others : OtherExecutors} {tables : TableStore} {stmt : SelectStatement}
    {o o' : Result (List Row)} (one : QueryEnds X others tables stmt o)
    (other : QueryEnds X others tables stmt o') : o = o' := by
  obtain ⟨n, ends⟩ := one
  obtain ⟨m, ends'⟩ := other
  rw [← ends (max n m) (le_max_left n m), ends' (max n m) (le_max_right n m)]

/-! ## What an aggregation should give -/

/-- The rows that pass the WHERE. -/
def selectedRows (X : Extern) (schema : Schema) (filter : Option Expr) (rows : List Row) : List Row :=
  rows.filter fun row => filter.all fun p => Holds X schema p row

/-- The value of an expression over a group: the one the code gives it, and over no row the one it means. -/
def groupValue (X : Extern) (schema : Schema) (rows : List Row) (e : Expr) : Result LiteralValue :=
  if rows.isEmpty then overGroup X schema rows e else evaluateGroupedExpr X schema rows e

def outputRow (X : Extern) (schema : Schema) (exprs : List (Expr × Option Text)) (rows : List Row) :
    Result Row := do
  let values ← exprs.mapM fun item => do
    let val ← groupValue X schema rows item.1
    pure (some val)
  pure ⟨values⟩

/-- The group satisfies HAVING. -/
def accepts (X : Extern) (schema : Schema) (having : Option Expr) (rows : List Row) : Bool :=
  having.all fun h => decide (groupValue X schema rows h = .ok (.boolean true))

def keyOf (X : Extern) (schema : Schema) (groupBy : List Expr) (row : Row) : List LiteralValue :=
  (evaluateGroupKey X groupBy schema row).elim id []

/-- The groups of some rows: one of them all, or with GROUP BY the classes by key. -/
def GroupsOf (X : Extern) (schema : Schema) (groupBy : List Expr) (rows : List Row) (groups : List (List Row)) :
    Prop :=
  (groupBy = [] ∧ groups = [rows]) ∨
    (groupBy ≠ [] ∧ (∀ row ∈ rows, ∃ key, evaluateGroupKey X groupBy schema row = .ok key) ∧
      Classes sameKeys (keyOf X schema groupBy) rows groups)

/-- `COUNT(*)`, however it is written. -/
def CountsAll (X : Extern) (e : Expr) : Prop :=
  ∃ name, X.toLowercase name = "count".toList ∧ e = .function name [.literal (.string ['*'])]

/-- One row for each group that satisfies HAVING; a `COUNT(*)` is the number of rows of the group, and these
sum to the number of all. -/
def Aggregates (X : Extern) (schema : Schema) (exprs : List (Expr × Option Text)) (groupBy : List Expr)
    (having : Option Expr) (filtered rows : List Row) : Prop :=
  ∃ groups, GroupsOf X schema groupBy filtered groups ∧
    (∀ e, CountsAll X e → ∀ group ∈ groups, groupValue X schema group e = .ok (.integer (.ofNat group.length))) ∧
    (groups.map List.length).sum = filtered.length ∧
    List.Forall₂ (fun group row => outputRow X schema exprs group = .ok row)
      (groups.filter (accepts X schema having)) rows

def hasAggregate (X : Extern) (exprs : List (Expr × Option Text)) : Bool :=
  exprs.any fun item => containsAggregate X item.1

/-- There is a GROUP BY; or the select list has an aggregate, and there is a row, or a HAVING that the group of
no row does not satisfy; or there is a HAVING alone, and one row, which satisfies it, or none, which does not. -/
def AggregatesWell (X : Extern) (schema : Schema) (exprs : List (Expr × Option Text)) (groupBy : List Expr)
    (having : Option Expr) (filtered : List Row) : Prop :=
  groupBy ≠ [] ∨
    (hasAggregate X exprs = true ∧ (filtered ≠ [] ∨ accepts X schema having [] = false)) ∨
    (hasAggregate X exprs = false ∧ ((∃ row, filtered = [row] ∧ accepts X schema having [row] = true) ∨
      (filtered = [] ∧ accepts X schema having [] = false)))

variable {X : Extern} {schema : Schema} {exprs : List (Expr × Option Text)} {groupBy : List Expr}
  {having : Option Expr}

/-! ## Keys -/

theorem LiteralValue.eq_trans {a b c : LiteralValue} (first : a.eq b = true) (second : b.eq c = true) :
    a.eq c = true := by
  cases a <;> cases b <;> cases c <;> simp_all [LiteralValue.eq]
  exact F64.eq_trans first second

theorem sameKeys_symm (a b : List LiteralValue) (same : sameKeys a b = true) : sameKeys b a = true := by
  induction a generalizing b with
  | nil => cases b <;> simp_all [sameKeys]
  | cons x xs ih =>
    cases b with
    | nil => exact same
    | cons y ys =>
      rw [sameKeys, Bool.and_eq_true] at same ⊢
      exact ⟨LiteralValue.eq_comm x y ▸ same.1, ih ys same.2⟩

theorem sameKeys_trans (a b c : List LiteralValue) (first : sameKeys a b = true) (second : sameKeys b c = true) :
    sameKeys a c = true := by
  induction a generalizing b c with
  | nil => cases b <;> cases c <;> simp_all [sameKeys]
  | cons x xs ih =>
    cases b with
    | nil => cases first
    | cons y ys =>
      cases c with
      | nil => cases second
      | cons z zs =>
        rw [sameKeys, Bool.and_eq_true] at *
        exact ⟨LiteralValue.eq_trans first.1 second.1, ih ys zs first.2 second.2⟩

/-! ## The groups -/

theorem groupRows_fold {rows : List Row} {groups result : List (List LiteralValue × List Row)}
    (ran : rows.foldlM (fun groups row => do
      let key ← evaluateGroupKey X groupBy schema row
      pure (place sameKeys key row groups)) groups = .ok result) :
    (∀ row ∈ rows, ∃ key, evaluateGroupKey X groupBy schema row = .ok key) ∧
      result = rows.foldl (fun groups row => place sameKeys (keyOf X schema groupBy row) row groups) groups := by
  induction rows generalizing groups with
  | nil =>
    cases ran
    exact ⟨by simp, rfl⟩
  | cons row rows ih =>
    rw [List.foldlM_cons] at ran
    obtain ⟨placed, step, ran⟩ := Outcome.bind_eq_ok.mp ran
    obtain ⟨key, given, step⟩ := Outcome.bind_eq_ok.mp step
    cases step
    have own : keyOf X schema groupBy row = key := by rw [keyOf, given]; rfl
    obtain ⟨evaluates, same⟩ := ih ran
    exact ⟨List.forall_mem_cons.mpr ⟨⟨key, given⟩, evaluates⟩, by rw [same, List.foldl_cons, own]⟩

/-- **The groups are those there should be**, but for the one group of no row. -/
theorem groupsOf_ok {rows : List Row} {groups : List (List LiteralValue × List Row)}
    (ran : groupRows X schema groupBy rows = .ok groups) :
    (∀ group ∈ groups, group.2 ≠ []) ∧
      ((groupBy = [] ∧ rows = [] ∧ groups = []) ∨ GroupsOf X schema groupBy rows (groups.map Prod.snd)) := by
  rw [groupRows] at ran
  cases groupBy with
  | nil =>
    rw [List.isEmpty_nil, if_pos rfl, Outcome.ok.injEq] at ran
    subst ran
    cases rows with
    | nil => exact ⟨by simp, .inl ⟨rfl, rfl, rfl⟩⟩
    | cons row rest => exact ⟨by simp, .inr (.inl ⟨rfl, rfl⟩)⟩
  | cons e es =>
    rw [List.isEmpty_cons, if_neg Bool.false_ne_true] at ran
    obtain ⟨evaluates, same⟩ := groupRows_fold ran
    have made : groups = grouped sameKeys (keyOf X schema (e :: es)) rows := same
    have classes : Classes sameKeys (keyOf X schema (e :: es)) rows
        ((grouped sameKeys (keyOf X schema (e :: es)) rows).map Prod.snd) :=
      classes_grouped sameKeys_symm sameKeys_trans rows
    rw [← made] at classes
    refine ⟨fun group among => classes.inhabited group.2 (List.mem_map_of_mem among), .inr (.inr ?_)⟩
    exact ⟨by simp, evaluates, classes⟩

theorem length_groupRows {rows : List Row} {groups : List (List LiteralValue × List Row)}
    (ran : groupRows X schema groupBy rows = .ok groups) : groups.length ≤ rows.length := by
  rw [groupRows] at ran
  split at ran
  · cases ran
    cases rows <;> simp
  · rw [(groupRows_fold ran).2]
    exact length_grouped_le rows

/-! ## The row of a group -/

theorem groupValue_of_rows {rows : List Row} (some : rows ≠ []) (e : Expr) :
    groupValue X schema rows e = evaluateGroupedExpr X schema rows e := by
  rw [groupValue, if_neg (by simpa using some)]

theorem groupRow_ok {rows : List Row} {given : Option Row} (some' : rows ≠ [])
    (ran : groupRow X schema exprs having rows = .ok given) :
    ∃ row, outputRow X schema exprs rows = .ok row ∧
      given = if accepts X schema having rows then some row else none := by
  rw [groupRow] at ran
  obtain ⟨values, listed, ran⟩ := Outcome.bind_eq_ok.mp ran
  refine ⟨⟨values⟩, ?_, ?_⟩
  · rw [outputRow]
    simp only [groupValue_of_rows some']
    rw [listed]
    rfl
  · cases having with
    | none =>
      cases ran
      rfl
    | some h =>
      obtain ⟨hv, held, ran⟩ := Outcome.bind_eq_ok.mp ran
      cases ran
      have asked : accepts X schema (some h) rows = decide (hv = .boolean true) := by
        rw [accepts, Option.all_some, groupValue_of_rows some', held]
        simp
      rw [asked]
      simp

theorem outputs_of_pushed {groups : List (List LiteralValue × List Row)} {rows : List Row}
    (inhabited : ∀ group ∈ groups, group.2 ≠ [])
    (ran : pushed (fun group => groupRow X schema exprs having group.2) groups = .ok rows) :
    List.Forall₂ (fun group row => outputRow X schema exprs group = .ok row)
      ((groups.map Prod.snd).filter (accepts X schema having)) rows := by
  induction groups generalizing rows with
  | nil =>
    cases ran
    exact .nil
  | cons group groups ih =>
    obtain ⟨some', others⟩ := List.forall_mem_cons.mp inhabited
    rw [pushed] at ran
    obtain ⟨given, first, ran⟩ := Outcome.bind_eq_ok.mp ran
    obtain ⟨row, output, rfl⟩ := groupRow_ok some' first
    cases passes : accepts X schema having group.2 with
    | true =>
      rw [passes] at ran
      obtain ⟨rows', rest, same⟩ := Outcome.bind_eq_ok.mp ran
      cases same
      rw [List.map_cons, List.filter_cons_of_pos passes]
      exact .cons output (ih others rest)
    | false =>
      rw [passes] at ran
      rw [List.map_cons, List.filter_cons_of_neg (by simp [passes])]
      exact ih others ran

/-! ## Counting -/

theorem groupValue_count {e : Expr} (counts : CountsAll X e) (rows : List Row) :
    groupValue X schema rows e = .ok (.integer (.ofNat rows.length)) := by
  obtain ⟨name, lower, rfl⟩ := counts
  have called : containsAggregate X (.function name [.literal (.string ['*'])]) = true := by
    rw [containsAggregate, lower]
    decide
  have value : evaluateAggregateExpr X schema rows (.function name [.literal (.string ['*'])]) =
      .ok (.integer (.ofNat rows.length)) := by
    simp only [evaluateAggregateExpr, lower]
    rfl
  rw [groupValue]
  split
  · rw [overGroup, valueOf]
    show (if containsAggregate X _ = true then some (evaluateAggregateExpr X schema rows _) else none).getD _ = _
    rw [if_pos called, Option.getD_some, value]
  · rw [evaluateGroupedExpr, if_pos called, value]

theorem sum_of_groups {rows : List Row} {groups : List (List Row)} (made : GroupsOf X schema groupBy rows groups) :
    (groups.map List.length).sum = rows.length := by
  rcases made with ⟨-, rfl⟩ | ⟨-, -, classes⟩
  · simp
  · rw [← List.length_flatten]
    exact classes.all.length_eq

/-- What is left to show of an aggregation. -/
theorem aggregates_of {filtered rows : List Row} {groups : List (List Row)}
    (made : GroupsOf X schema groupBy filtered groups)
    (outputs : List.Forall₂ (fun group row => outputRow X schema exprs group = .ok row)
      (groups.filter (accepts X schema having)) rows) :
    Aggregates X schema exprs groupBy having filtered rows :=
  ⟨groups, made, fun _ counts group _ => groupValue_count counts group, sum_of_groups made, outputs⟩

/-! ## What the statement ends in -/

variable {others : OtherExecutors} {tables : TableStore} {name : Text} {d : TableData}

theorem aggregate_gives {turns : Nat} {input : Executor} {f : Row → Result (Option Row)} {rows : List Row}
    (passes : Passes input f rows) (closes : Closes input) (enough : rows.length < turns) :
    Gives (aggregateExecutor X turns input exprs groupBy having schema)
      (pushed f rows >>= aggregateRows X schema exprs groupBy having) := by
  have ran := passes.buffered closes enough
  have zoomed : Exec.zoom AggregateState.input (fun i s => { s with input := i }) (buffered turns input)
      ⟨input.initial, ⟨[], 0⟩⟩ = (pushed f rows, ⟨(buffered turns input input.initial).2, ⟨[], 0⟩⟩) := by
    rw [Exec.zoom_apply, ran]
  by_cases given : ∃ results, (pushed f rows >>= aggregateRows X schema exprs groupBy having) = .ok results
  · obtain ⟨results, given⟩ := given
    obtain ⟨inputRows, pushes, results'⟩ := Outcome.bind_eq_ok.mp given
    rw [pushes] at zoomed
    refine .inl ⟨results, given, ⟨(buffered turns input input.initial).2, ⟨results, 0⟩⟩, ?_, ?_⟩
    · show openAggregate X turns input exprs groupBy having schema ⟨input.initial, ⟨[], 0⟩⟩ = _
      rw [openAggregate, Exec.bind_of_ok zoomed, Exec.bind_apply, Exec.lift_apply, results']
      rfl
    · have yields : Yields (ε := SQLError)
          (Exec.zoom AggregateState.results (fun r s => { s with results := r }) cursorNext)
          (⟨(buffered turns input input.initial).2, ⟨results, 0⟩⟩ : AggregateState input.State) results := by
        apply Yields.zoom
        · exact fun _ _ => rfl
        · exact fun _ _ _ => rfl
        · exact cursor_yields results 0
      exact yields
  · obtain ⟨stop, ended⟩ := stop_of_not_ok fun results same => given ⟨results, same⟩
    refine .inr ⟨stop, ?_⟩
    have failed : ∃ s, openAggregate X turns input exprs groupBy having schema ⟨input.initial, ⟨[], 0⟩⟩ =
        (stop.ends, s) := by
      rw [openAggregate]
      cases pushes : pushed f rows with
      | ok inputRows =>
        rw [pushes] at zoomed ended
        rw [Exec.bind_of_ok zoomed]
        rw [Outcome.ok_bind] at ended
        exact ⟨_, bind_of_stop (by rw [Exec.lift_apply, ended]) _⟩
      | err e | panic | hang =>
        rw [pushes] at zoomed ended
        cases stop <;> cases ended
        exact ⟨_, bind_of_stop zoomed _⟩
    obtain ⟨s, failed⟩ := failed
    exact ⟨s, ended, failed⟩

theorem length_pushed_le {α β : Type} {f : α → Result (Option β)} {xs : List α} {ys : List β}
    (ran : pushed f xs = .ok ys) : ys.length ≤ xs.length := by
  induction xs generalizing ys with
  | nil =>
    cases ran
    exact le_rfl
  | cons x xs ih =>
    rw [pushed] at ran
    obtain ⟨given, -, ran⟩ := Outcome.bind_eq_ok.mp ran
    cases given with
    | none => exact Nat.le_succ_of_le (ih ran)
    | some y =>
      obtain ⟨ys', rest, same⟩ := Outcome.bind_eq_ok.mp ran
      cases same
      exact Nat.succ_le_succ (ih rest)

theorem length_results_le {f : Row → Result (Option Row)} {rows results : List Row}
    (ran : (pushed f rows >>= aggregateRows X schema exprs groupBy having) = .ok results) :
    results.length ≤ rows.length := by
  obtain ⟨inputRows, pushes, ran⟩ := Outcome.bind_eq_ok.mp ran
  obtain ⟨groups, grouped, ran⟩ := Outcome.bind_eq_ok.mp ran
  exact ((length_pushed_le ran).trans (length_groupRows grouped)).trans (length_pushed_le pushes)

/-- **A SELECT with aggregates**: the groups of the rows that pass the WHERE. -/
theorem query_ends_aggregated (items : List SelectItem) (filter having : Option Expr) (groupBy : List Expr)
    (found : tables.lookup name = some d) (room : d.rows.length ≤ vecMax)
    (asks : aggregated X (boundExprs items d.schema) groupBy = true) :
    QueryEnds X others tables (singleTable name items filter groupBy having)
      (Binder.bind (expandWildcards items d.schema) d.schema >>= fun _ =>
        pushed (whereTest X d.schema filter) d.rows >>=
          aggregateRows X d.schema (boundExprs items d.schema) groupBy having) := by
  refine ⟨d.rows.length + 1, fun turns enough => ?_⟩
  have inside : d.rows.length ≤ usizeMax := room.trans (by decide)
  have plan := planSelect_single (X := X) name (expandWildcards items d.schema) filter groupBy having
  rw [show (expandWildcards items d.schema).map SelectItem.planned = boundExprs items d.schema from rfl,
    if_pos asks] at plan
  have build : buildExecutor X turns (withAggregates X others turns) tables
      (.limit (.aggregate (whereNode name filter) (boundExprs items d.schema) groupBy having) usizeMax 0) =
        .ok (limitExecutor turns (aggregateExecutor X turns (whereExecutor X turns tables name filter d.schema)
          (boundExprs items d.schema) groupBy having d.schema) usizeMax 0) := by
    rw [buildExecutor, buildExecutor, build_where turns found, resolve_where found]
    rfl
  have gives : Gives (aggregateExecutor X turns (whereExecutor X turns tables name filter d.schema)
      (boundExprs items d.schema) groupBy having d.schema) _ := aggregate_gives
    (where_passes (X := X) found filter enough) (where_closes turns filter d.schema) enough
  rw [executeSelect_single turns items filter groupBy having found, plan, build]
  refine congrArg (fun o => Binder.bind (expandWildcards items d.schema) d.schema >>= fun _ => o)
    (gives.limited (fun _ => ⟨_, rfl⟩) (fun results ran => ?_) fun results ran => ?_)
  · exact Nat.lt_of_le_of_lt (length_results_le ran) enough
  · exact (length_results_le ran).trans inside

theorem query_ends_plain (items : List SelectItem) (filter having : Option Expr)
    (found : tables.lookup name = some d) (room : d.rows.length ≤ vecMax)
    (plain : aggregated X (boundExprs items d.schema) [] = false) :
    QueryEnds X others tables (singleTable name items filter [] having)
      (Binder.bind (expandWildcards items d.schema) d.schema >>= fun _ =>
        pushed (selectRow X d.schema filter (boundExprs items d.schema)) d.rows) :=
  ⟨d.rows.length + 1, fun _ enough => executeSelect_plain items filter having found room enough plain⟩

/-! ## It ends -/

theorem Returns.ne_hang {α : Type} {o : Result α} (returns : o.Returns) : o ≠ .hang := by
  rintro rfl
  exact returns

theorem bind_returns (items : List SelectItem) (schema : Schema) : (Binder.bind items schema).Returns := by
  refine Outcome.forM_returns (fun item => ?_) items
  cases item with
  | wildcard => trivial
  | expr e _ =>
    refine Outcome.forM_returns (fun part => ?_) (parts e)
    split
    · split <;> trivial
    · trivial

theorem whereTest_returns (filter : Option Expr) (row : Row) : (whereTest X schema filter row).Returns := by
  cases filter with
  | none => trivial
  | some p =>
    refine Outcome.Returns.bind ?_ fun _ => trivial
    exact (evaluateExpr_returns row.values p).bind fun _ => trivial

theorem projectRow_returns (row : Row) : (projectRow X exprs schema row).Returns := by
  refine Outcome.Returns.bind (Outcome.mapM_returns fun item _ => ?_) fun _ => trivial
  exact (evaluateExpr_returns row.values item.1).bind fun _ => trivial

theorem selectRow_returns (filter : Option Expr) (row : Row) : (selectRow X schema filter exprs row).Returns := by
  refine (whereTest_returns filter row).bind fun given => ?_
  cases given with
  | none => trivial
  | some row' => exact (projectRow_returns row').bind fun _ => trivial

theorem foldArguments_returns {α : Type} {rows : List Row} {args : List Expr}
    {step : α → LiteralValue → Result α} (each : ∀ acc val, (step acc val).Returns) (start : α) :
    (foldArguments X schema rows args step start).Returns := by
  rw [foldArguments]
  refine Outcome.foldlM_returns (fun acc row => ?_) rows start
  refine Outcome.foldlM_returns (fun acc' arg => ?_) args acc
  exact (evaluateExpr_returns row.values arg).bind fun val => each acc' val

theorem keepBest_returns (op : BinaryOperator) (best : Option LiteralValue) (val : LiteralValue) :
    (keepBest X op best val).Returns := by
  unfold keepBest
  split
  · trivial
  · cases best with
    | none => trivial
    | some b => exact (evalBinaryOp_returns op val b).bind fun _ => trivial

theorem evaluateAggregateExpr_returns (rows : List Row) (e : Expr) :
    (evaluateAggregateExpr X schema rows e).Returns := by
  have last (e : Expr) : (lastValue X schema rows e).Returns := by
    rw [lastValue]
    exact Outcome.foldlM_returns (fun _ row => evaluateExpr_returns row.values e) rows .null
  unfold evaluateAggregateExpr
  split
  · dsimp only
    repeat' split
    · trivial
    · refine Outcome.Returns.bind (foldArguments_returns (fun _ _ => ?_) _) fun _ => trivial
      trivial
    · refine Outcome.Returns.bind (foldArguments_returns (fun _ _ => ?_) _) fun _ => trivial
      trivial
    · refine Outcome.Returns.bind (foldArguments_returns (fun _ _ => ?_) _) fun _ => trivial
      trivial
    · exact Outcome.Returns.bind (foldArguments_returns (keepBest_returns .lt) _) fun _ => trivial
    · exact Outcome.Returns.bind (foldArguments_returns (keepBest_returns .gt) _) fun _ => trivial
    · exact last _
  · exact last _

theorem onFirst_returns (rows : List Row) (e : Expr) : (onFirst X schema rows e).Returns := by
  cases rows with
  | nil => trivial
  | cons first rest => exact evaluateExpr_returns first.values e

theorem evaluateGroupedExpr_returns (rows : List Row) : ∀ e : Expr, (evaluateGroupedExpr X schema rows e).Returns
  | .column name => by
      rw [evaluateGroupedExpr]
      cases rows with
      | nil => trivial
      | cons first rest => exact evaluateExpr_returns first.values _
  | .function name args => by
      rw [evaluateGroupedExpr]
      split
      · exact evaluateAggregateExpr_returns rows _
      · exact onFirst_returns rows _
  | .binaryOp left op right => by
      rw [evaluateGroupedExpr]
      exact (evaluateGroupedExpr_returns rows left).bind fun _ =>
        (evaluateGroupedExpr_returns rows right).bind fun _ => evalBinaryOp_returns _ _ _
  | .unaryOp op expr => by
      rw [evaluateGroupedExpr]
      exact (evaluateGroupedExpr_returns rows expr).bind fun _ => evalUnaryOp_returns _ _
  | .cast expr targetType => by
      rw [evaluateGroupedExpr]
      exact (evaluateGroupedExpr_returns rows expr).bind fun _ => coerceValue_returns _ _
  | .isNull expr | .isNotNull expr => by
      rw [evaluateGroupedExpr]
      exact (evaluateGroupedExpr_returns rows expr).bind fun _ => trivial
  | .literal _ | .inList _ _ | .between _ _ _ | .like _ _ | .iLike _ _ | .caseWhen _ _ => by
      rw [evaluateGroupedExpr]
      exact onFirst_returns rows _

theorem groupRow_returns (rows : List Row) : (groupRow X schema exprs having rows).Returns := by
  refine Outcome.Returns.bind (Outcome.mapM_returns fun item _ =>
    (evaluateGroupedExpr_returns rows item.1).bind fun _ => trivial) fun values => ?_
  cases having with
  | none => trivial
  | some h => exact (evaluateGroupedExpr_returns rows h).bind fun _ => trivial

theorem groupRows_returns (rows : List Row) : (groupRows X schema groupBy rows).Returns := by
  rw [groupRows]
  split
  · trivial
  · refine Outcome.foldlM_returns (fun groups row => ?_) rows []
    refine Outcome.Returns.bind ?_ fun _ => trivial
    exact Outcome.mapM_returns fun e _ => evaluateExpr_returns row.values e

theorem aggregateRows_returns (rows : List Row) : (aggregateRows X schema exprs groupBy having rows).Returns :=
  (groupRows_returns rows).bind fun groups => pushed_returns (fun group => groupRow_returns group.2) groups

/-! ## When the rows are those of the groups -/

section Alone

variable {filter : Option Expr} {rows given : List Row}

theorem whereTest_ok {row : Row} {kept : Option Row} (ran : whereTest X schema filter row = .ok kept) :
    kept = if filter.all fun p => Holds X schema p row then some row else none := by
  cases filter with
  | none =>
    cases ran
    rfl
  | some p =>
    obtain ⟨keep, held, ran⟩ := Outcome.bind_eq_ok.mp ran
    cases ran
    obtain ⟨val, value, ran⟩ := Outcome.bind_eq_ok.mp held
    cases ran
    simp [Holds, value]

/-- What passes the WHERE, where it has a value on every row. -/
theorem selectedRows_of_pushed (ran : pushed (whereTest X schema filter) rows = .ok given) :
    given = selectedRows X schema filter rows := by
  have each : ∀ row ∈ rows, whereTest X schema filter row =
      .ok (if filter.all fun p => Holds X schema p row then some row else none) := by
    intro row among
    obtain ⟨kept, value⟩ := exists_of_pushed_ok ran row among
    rw [value, whereTest_ok value]
  rw [pushed_of_ok each, Outcome.ok.injEq] at ran
  rw [← ran, selectedRows, ← List.filterMap_eq_filter]
  rfl

/-- **Without an aggregate below it**, an expression over a group is one on the first row. -/
theorem grouped_of_no_aggregate {first : Row} {rest : List Row} :
    ∀ e : Expr, containsAggregate X e = false →
      evaluateGroupedExpr X schema (first :: rest) e = evaluateExpr X first.values schema e
  | .column _, _ => by
      rw [evaluateGroupedExpr]
      rfl
  | .function _ _, plain => by
      rw [evaluateGroupedExpr, if_neg (by rw [plain]; exact Bool.false_ne_true), onFirst]
  | .binaryOp left _ right, plain => by
      rw [containsAggregate, Bool.or_eq_false_iff] at plain
      rw [evaluateGroupedExpr, evaluateExpr, grouped_of_no_aggregate left plain.1,
        grouped_of_no_aggregate right plain.2]
  | .unaryOp _ expr, plain | .cast expr _, plain | .isNull expr, plain | .isNotNull expr, plain => by
      rw [containsAggregate] at plain
      rw [evaluateGroupedExpr, evaluateExpr, grouped_of_no_aggregate expr plain]
  | .literal _, _ | .inList _ _, _ | .between _ _ _, _ | .like _ _, _ | .iLike _ _, _ | .caseWhen _ _, _ => by
      rw [evaluateGroupedExpr, onFirst]

/-- The row of a group of one. -/
theorem outputRow_single {row : Row} (none : hasAggregate X exprs = false) :
    outputRow X schema exprs [row] = projectRow X exprs schema row := by
  have same : ∀ item ∈ exprs, groupValue X schema [row] item.1 = evaluateExpr X row.values schema item.1 := by
    intro item among
    rw [groupValue_of_rows (List.cons_ne_nil row [])]
    exact grouped_of_no_aggregate item.1 (by simpa using List.any_eq_false.mp none item among)
  have listed : (exprs.mapM fun item => groupValue X schema [row] item.1 >>= fun val => pure (some val)) =
      (exprs.mapM fun item => evaluateExpr X row.values schema item.1 >>= fun val => pure (some val) :
        Result (List (Option LiteralValue))) := by
    clear none
    induction exprs with
    | nil => rfl
    | cons item rest ih =>
      obtain ⟨first, others⟩ := List.forall_mem_cons.mp same
      rw [List.mapM_cons, List.mapM_cons, first, ih others]
  exact congrArg (fun values => values >>= fun values => (pure ⟨values⟩ : Result Row)) listed

theorem selectRow_rows (ran : pushed (selectRow X schema filter exprs) rows = .ok given) :
    List.Forall₂ (fun row out => projectRow X exprs schema row = .ok out) (selectedRows X schema filter rows)
      given := by
  obtain ⟨kept, passes, listed⟩ := pushed_both_eq_ok.mp ran
  rw [← selectedRows_of_pushed passes]
  exact pushed_changed_eq_ok listed

/-- **A HAVING alone**, which the executors never see. -/
theorem aggregates_alone_iff (none : hasAggregate X exprs = false)
    (ran : pushed (selectRow X schema filter exprs) rows = .ok given) :
    Aggregates X schema exprs [] having (selectedRows X schema filter rows) given ↔
      (∃ row, selectedRows X schema filter rows = [row] ∧ accepts X schema having [row] = true) ∨
        (selectedRows X schema filter rows = [] ∧ accepts X schema having [] = false) := by
  have listed := selectRow_rows ran
  generalize selectedRows X schema filter rows = filtered at listed
  constructor
  · rintro ⟨groups, ⟨-, rfl⟩ | ⟨absent, -⟩, -, -, outputs⟩
    · cases passes : accepts X schema having filtered with
      | true =>
        rw [List.filter_cons_of_pos passes] at outputs
        have one : given.length = 1 := outputs.length_eq.symm
        obtain ⟨row, rfl⟩ := List.length_eq_one_iff.mp (listed.length_eq.trans one)
        exact .inl ⟨row, rfl, passes⟩
      | false =>
        rw [List.filter_cons_of_neg (by simp [passes])] at outputs
        cases outputs
        cases listed
        exact .inr ⟨rfl, passes⟩
    · exact absurd rfl absent
  · rintro (⟨row, rfl, passes⟩ | ⟨rfl, fails⟩)
    · refine aggregates_of (.inl ⟨rfl, rfl⟩) ?_
      rw [List.filter_cons_of_pos passes, List.filter_nil]
      cases listed with
      | cons output rest =>
        cases rest
        exact .cons ((outputRow_single none).trans output) .nil
    · refine aggregates_of (.inl ⟨rfl, rfl⟩) ?_
      cases listed
      rw [List.filter_cons_of_neg (by simp [fails])]
      exact .nil

/-- **The executors' groups**: the rows are right but for an aggregate over no row. -/
theorem aggregates_grouped_iff (asks : groupBy ≠ [] ∨ hasAggregate X exprs = true)
    (ran : (pushed (whereTest X schema filter) rows >>= aggregateRows X schema exprs groupBy having) = .ok given) :
    Aggregates X schema exprs groupBy having (selectedRows X schema filter rows) given ↔
      groupBy ≠ [] ∨ selectedRows X schema filter rows ≠ [] ∨ accepts X schema having [] = false := by
  obtain ⟨filtered, passes, ran⟩ := Outcome.bind_eq_ok.mp ran
  rw [← selectedRows_of_pushed passes]
  obtain ⟨groups, made, ran⟩ := Outcome.bind_eq_ok.mp ran
  obtain ⟨inhabited, ⟨rfl, rfl, rfl⟩ | right⟩ := groupsOf_ok made
  · cases ran
    constructor
    · rintro ⟨groups, ⟨-, rfl⟩ | ⟨absent, -⟩, -, -, outputs⟩
      · cases passes : accepts X schema having [] with
        | true =>
          rw [List.filter_cons_of_pos passes] at outputs
          cases outputs
        | false => exact .inr (.inr rfl)
      · exact absurd rfl absent
    · rintro (absent | absent | fails)
      · exact absurd rfl absent
      · exact absurd rfl absent
      · refine aggregates_of (.inl ⟨rfl, rfl⟩) ?_
        rw [List.filter_cons_of_neg (by simp [fails])]
        exact .nil
  · refine iff_of_true (aggregates_of right (outputs_of_pushed inhabited ran)) ?_
    rcases right with ⟨rfl, single⟩ | ⟨present, -⟩
    · refine .inr (.inl ?_)
      rintro rfl
      have among : [] ∈ groups.map Prod.snd := by
        rw [single]
        exact List.mem_singleton_self _
      obtain ⟨group, inside, empty⟩ := List.mem_map.mp among
      exact inhabited group inside empty
    · exact .inl present

end Alone

/-- **When an aggregation partitions its input**: the statement ends, and if it ends in rows these are the rows of
the groups exactly if `AggregatesWell`. -/
theorem aggregates_iff (X : Extern) (others : OtherExecutors) (tables : TableStore) (name : Text)
    (items : List SelectItem) (filter : Option Expr) (groupBy : List Expr) (having : Option Expr) (d : TableData)
    (found : tables.lookup name = some d) (room : d.rows.length ≤ vecMax)
    (asks : groupBy ≠ [] ∨ having ≠ none ∨ hasAggregate X (boundExprs items d.schema) = true) :
    (∃ o, QueryEnds X others tables (singleTable name items filter groupBy having) o ∧ o ≠ .hang) ∧
      ∀ rows, QueryEnds X others tables (singleTable name items filter groupBy having) (.ok rows) →
        (Aggregates X d.schema (boundExprs items d.schema) groupBy having
            (selectedRows X d.schema filter d.rows) rows ↔
          AggregatesWell X d.schema (boundExprs items d.schema) groupBy having
            (selectedRows X d.schema filter d.rows)) := by
  by_cases planned : aggregated X (boundExprs items d.schema) groupBy = true
  · have ends : QueryEnds X others tables (singleTable name items filter groupBy having) _ :=
      query_ends_aggregated items filter having groupBy found room planned
    have asked : groupBy ≠ [] ∨ hasAggregate X (boundExprs items d.schema) = true := by
      simpa [aggregated, hasAggregate] using planned
    refine ⟨⟨_, ends, Returns.ne_hang ?_⟩, fun rows given => ?_⟩
    · exact (bind_returns _ _).bind fun _ => (pushed_returns (whereTest_returns filter) d.rows).bind
        aggregateRows_returns
    · obtain ⟨-, -, ran⟩ := Outcome.bind_eq_ok.mp (ends.unique given)
      rw [aggregates_grouped_iff asked ran, AggregatesWell]
      rcases asked with grouping | called
      · simp [grouping]
      · simp [called]
  · have none : groupBy = [] ∧ hasAggregate X (boundExprs items d.schema) = false := by
      simpa [aggregated, hasAggregate] using planned
    obtain ⟨rfl, plain⟩ := none
    have ends : QueryEnds X others tables (singleTable name items filter [] having) _ :=
      query_ends_plain items filter having found room (Bool.eq_false_iff.mpr planned)
    refine ⟨⟨_, ends, Returns.ne_hang ?_⟩, fun rows given => ?_⟩
    · exact (bind_returns _ _).bind fun _ => pushed_returns (selectRow_returns filter) d.rows
    · obtain ⟨-, -, ran⟩ := Outcome.bind_eq_ok.mp (ends.unique given)
      rw [aggregates_alone_iff plain ran, AggregatesWell]
      simp [plain]

/-! ## Three statements -/

def noRows : TableData := ⟨numbers, [], 0⟩

def someRows : TableData := ⟨numbers, [⟨[some (.integer 1)]⟩, ⟨[some .null]⟩, ⟨[some .null]⟩], 3⟩

def countAll : Expr := .function "count".toList [.literal (.string ['*'])]

/-- `SELECT n, COUNT(*) FROM t GROUP BY n`. -/
theorem aggregates_by_number :
    (∃ o, QueryEnds .ascii noOthers (AList.singleton ['t'] someRows) (singleTable ['t']
        [.expr (.column ['n']) none, .expr countAll none] none [.column ['n']] none) o ∧ o ≠ .hang) ∧
      ∀ rows, QueryEnds .ascii noOthers (AList.singleton ['t'] someRows) (singleTable ['t']
          [.expr (.column ['n']) none, .expr countAll none] none [.column ['n']] none) (.ok rows) →
        (Aggregates .ascii someRows.schema
            (boundExprs [.expr (.column ['n']) none, .expr countAll none] someRows.schema) [.column ['n']] none
            (selectedRows .ascii someRows.schema none someRows.rows) rows ↔
          AggregatesWell .ascii someRows.schema
            (boundExprs [.expr (.column ['n']) none, .expr countAll none] someRows.schema) [.column ['n']] none
            (selectedRows .ascii someRows.schema none someRows.rows)) :=
  aggregates_iff .ascii noOthers (AList.singleton ['t'] someRows) ['t']
    [.expr (.column ['n']) none, .expr countAll none] none [.column ['n']] none someRows (by decide +kernel)
    (by decide +kernel) (.inl (by simp))

/-- The two NULLs are one group. -/
example : aggregateRows .ascii numbers [(.column ['n'], none), (countAll, none)] [.column ['n']] none someRows.rows =
    .ok [⟨[some (.integer 1), some (.integer 1)]⟩, ⟨[some .null, some (.integer 2)]⟩] := by
  decide +kernel

/-- `SELECT COUNT(*) FROM t` over no row gives no row. -/
theorem count_of_nothing :
    QueryEnds .ascii noOthers (AList.singleton ['t'] noRows) (singleTable ['t'] [.expr countAll none] none [] none)
        (.ok []) ∧
      ¬ Aggregates .ascii noRows.schema (boundExprs [.expr countAll none] noRows.schema) [] none
        (selectedRows .ascii noRows.schema none noRows.rows) [] := by
  have called : hasAggregate .ascii (boundExprs [.expr countAll none] noRows.schema) = true := by decide +kernel
  constructor
  · have there : AList.lookup ['t'] (AList.singleton ['t'] noRows : TableStore) = some noRows := by decide +kernel
    exact query_ends_aggregated [.expr countAll none] none none [] there (by decide) called
  · intro aggregates
    rcases (aggregates_grouped_iff (.inr called) rfl).mp aggregates with absent | absent | fails
    · exact absent rfl
    · exact absent rfl
    · cases fails

end NovaRuntime.Sql
