/-
# NovaRuntime.Sql.OrderBy — what ORDER BY asks for, and when the sort gives it

A key of the clause is an output column by name or ordinal, or else a column of the tables. `clauseOrder` is
the order it asks for: key by key, descending ones reversed, NULLs where the clause puts them, and where it
says nothing behind the values for ASC and before them for DESC.

The executor sorts projected rows. A column that is not in the select list is NULL in all of them, and the
place of the NULLs is reversed with a descending key. Where neither happens, and each key has values of one
kind, the rows are sorted as the clause asks (`order_by_sorts`).
-/
import NovaRuntime.Sql.Aggregation
import NovaRuntime.Sql.Dedup
import NovaRuntime.Sql.Sorting

namespace NovaRuntime.Sql

open NovaRuntime.Library NovaRuntime.Library.Pull

set_option autoImplicit false

/-! ## The order of a clause -/

def clauseCompare (X : Extern) (order : OrderByExpr) (a b : LiteralValue) : Ordering :=
  let nullsFirst := order.nullsFirst.getD (! order.asc)
  if a = .null then (if b = .null then .eq else if nullsFirst then .lt else .gt)
  else if b = .null then (if nullsFirst then .gt else .lt)
  else if order.asc then compareSome X a b else (compareSome X a b).swap

/-- Lexicographic, by some keys. -/
def clauseOrder {α : Type} (X : Extern) (key : OrderByExpr → α → LiteralValue) : List OrderByExpr → α → α → Ordering
  | [], _, _ => .eq
  | order :: rest, a, b => (clauseCompare X order (key order a) (key order b)).then (clauseOrder X key rest a b)

/-- Two keys that can be compared: NULL, or of one kind. -/
def Comparable (a b : LiteralValue) : Prop := a = .null ∨ b = .null ∨ literalType a = literalType b

/-- Reversing does not misplace a NULL. -/
def NullsKept (order : OrderByExpr) (a b : LiteralValue) : Prop :=
  order.asc = true ∨ order.nullsFirst = none ∨ (a = .null ↔ b = .null)

/-! ## A total order of keys -/

/-- Where a value stands among those of its kind. -/
def rank : LiteralValue → Int × Text
  | .null => (0, [])
  | .integer i => (i.toInt, [])
  | .float f => (f.totalKey, [])
  | .boolean b => (if b then 1 else 0, [])
  | .string s => (0, s)

def rankCompare (order : OrderByExpr) : LiteralValue → LiteralValue → Ordering :=
  compareLex
    (compareOn fun v => if v = .null then (if order.nullsFirst.getD (! order.asc) then -1 else 1 : Int) else 0)
    (compareLex
      (compareOn fun v => if order.asc then (rank v).1 else -(rank v).1)
      (if order.asc then compareOn fun v => (rank v).2 else fun a b => compare (rank b).2 (rank a).2))

instance rankCompare_trans (order : OrderByExpr) : Std.TransCmp (rankCompare order) := by
  rw [rankCompare]
  cases order.asc with
  | true => exact inferInstanceAs (Std.TransCmp (compareLex _ (compareLex _ (compareOn fun v => (rank v).2))))
  | false =>
    have forward : Std.TransCmp fun a b => compare (rank a).2 (rank b).2 :=
      inferInstanceAs (Std.TransCmp (compareOn fun v => (rank v).2))
    have backward : Std.TransCmp fun a b => compare (rank b).2 (rank a).2 := Std.TransCmp.opposite
    exact inferInstanceAs (Std.TransCmp (compareLex _ (compareLex _ fun a b => compare (rank b).2 (rank a).2)))

def rankOrder {α : Type} (key : OrderByExpr → α → LiteralValue) : List OrderByExpr → α → α → Ordering
  | [], _, _ => .eq
  | order :: rest, a, b => (rankCompare order (key order a) (key order b)).then (rankOrder key rest a b)

instance rankOrder_trans {α : Type} (key : OrderByExpr → α → LiteralValue) (orderBy : List OrderByExpr) :
    Std.TransCmp (rankOrder key orderBy) := by
  induction orderBy with
  | nil => exact { eq_swap := rfl, isLE_trans := fun _ _ => rfl }
  | cons order rest ih =>
    have first : Std.TransCmp fun a b => rankCompare order (key order a) (key order b) :=
      { eq_swap := Std.OrientedCmp.eq_swap
        isLE_trans := Std.TransCmp.isLE_trans }
    exact inferInstanceAs (Std.TransCmp (compareLex _ (rankOrder key rest)))

/-- Two values of one kind compare as their ranks. -/
theorem compareSome_eq {X : Extern} {a b : LiteralValue} (kind : literalType a = literalType b) :
    compareSome X a b = (compare (rank a).1 (rank b).1).then (compare (rank a).2 (rank b).2) := by
  have same (s : Text) : compare s s = .eq := Std.ReflOrd.compare_self
  cases a <;> cases b <;> cases kind
  · rfl
  case boolean.boolean x y => cases x <;> cases y <;> rfl
  case integer.integer x y => exact (Ordering.then_eq (o := compare x.toInt y.toInt)).symm
  case float.float x y => exact (Ordering.then_eq (o := compare x.totalKey y.totalKey)).symm
  case string.string x y => rfl

theorem compare_neg (x y : Int) : compare (-x) (-y) = (compare x y).swap := by
  rw [← Std.OrientedCmp.eq_swap]
  simp only [compare, compareOfLessAndEq, Int.neg_lt_neg_iff, neg_inj]
  simp only [eq_comm]

/-- **On comparable keys** the order of the clause is total. -/
theorem clauseCompare_eq_rank {X : Extern} (order : OrderByExpr) {a b : LiteralValue} (comparable : Comparable a b) :
    clauseCompare X order a b = rankCompare order a b := by
  have same (s : Text) : compare s s = .eq := Std.ReflOrd.compare_self
  have none : rank .null = (0, []) := rfl
  simp only [clauseCompare, rankCompare, compareLex, compareOn]
  by_cases first : a = .null
  · subst first
    by_cases second : b = .null
    · subst second
      cases order.asc <;> simp [none, compareOn]
    · simp only [if_pos, second, if_false]
      cases order.nullsFirst.getD (! order.asc) <;> rfl
  · by_cases second : b = .null
    · subst second
      simp only [first, if_false, if_pos]
      cases order.nullsFirst.getD (! order.asc) <;> rfl
    · have kind : literalType a = literalType b := by
        rcases comparable with null | null | kind
        · exact absurd null first
        · exact absurd null second
        · exact kind
      simp only [first, second, if_false]
      rw [compareSome_eq kind]
      cases order.asc with
      | true => rfl
      | false =>
        have swapped : compare (rank b).2 (rank a).2 = (compare (rank a).2 (rank b).2).swap :=
          Std.OrientedCmp.eq_swap
        simp only [Bool.false_eq_true, if_false, compare_neg, swapped, Ordering.swap_then]
        rfl

theorem clauseOrder_eq_rank {α : Type} {X : Extern} {key : OrderByExpr → α → LiteralValue}
    {orderBy : List OrderByExpr} {a b : α}
    (comparable : ∀ order ∈ orderBy, Comparable (key order a) (key order b)) :
    clauseOrder X key orderBy a b = rankOrder key orderBy a b := by
  induction orderBy with
  | nil => rfl
  | cons order rest ih =>
    obtain ⟨first, others⟩ := List.forall_mem_cons.mp comparable
    rw [clauseOrder, rankOrder, clauseCompare_eq_rank order first, ih others]

theorem clauseOrder_congr {α β : Type} {X : Extern} {key : OrderByExpr → α → LiteralValue}
    {key' : OrderByExpr → β → LiteralValue} {orderBy : List OrderByExpr} {a b : α} {a' b' : β}
    (same : ∀ order ∈ orderBy, key order a = key' order a' ∧ key order b = key' order b') :
    clauseOrder X key orderBy a b = clauseOrder X key' orderBy a' b' := by
  induction orderBy with
  | nil => rfl
  | cons order rest ih =>
    obtain ⟨first, others⟩ := List.forall_mem_cons.mp same
    rw [clauseOrder, clauseOrder, first.1, first.2, ih others]

theorem isLE_total {α : Type} (cmp : α → α → Ordering) [Std.OrientedCmp cmp] (a b : α) :
    (cmp a b).isLE ∨ (cmp b a).isLE := by
  have swapped : cmp b a = (cmp a b).swap := Std.OrientedCmp.eq_swap
  rw [swapped]
  cases cmp a b
  · exact .inl rfl
  · exact .inl rfl
  · exact .inr rfl

/-! ## What the executor compares -/

/-- Where no NULL is misplaced, a key compares as the clause asks. -/
theorem compareValues_eq {X : Extern} {order : OrderByExpr} {a b : LiteralValue} (kept : NullsKept order a b) :
    (if order.asc then compareValues X a b order.nullsFirst else (compareValues X a b order.nullsFirst).swap) =
      clauseCompare X order a b := by
  rw [clauseCompare]
  by_cases first : a = .null
  · subst first
    by_cases second : b = .null
    · subst second
      cases order.asc <;> rfl
    · have values : compareValues X .null b order.nullsFirst =
          if order.nullsFirst.getD false then .lt else .gt := by
        cases b <;> first | rfl | exact absurd rfl second
      rw [if_pos rfl, if_neg second, values]
      cases asc : order.asc with
      | true =>
        rw [if_pos rfl]
        rfl
      | false =>
        rcases kept with kept | kept | kept
        · rw [asc] at kept
          cases kept
        · rw [kept]
          rfl
        · exact absurd (kept.mp rfl) second
  · by_cases second : b = .null
    · subst second
      have values : compareValues X a .null order.nullsFirst =
          if order.nullsFirst.getD false then .gt else .lt := by
        cases a <;> first | rfl | exact absurd rfl first
      rw [if_neg first, if_pos rfl, values]
      cases asc : order.asc with
      | true =>
        rw [if_pos rfl]
        rfl
      | false =>
        rcases kept with kept | kept | kept
        · rw [asc] at kept
          cases kept
        · rw [kept]
          rfl
        · exact absurd (kept.mpr rfl) first
    · have values : compareValues X a b order.nullsFirst = compareSome X a b := by
        cases a <;> cases b <;> first | rfl | exact absurd rfl first | exact absurd rfl second
      rw [if_neg first, if_neg second, values]

/-- **The closure of the sort** is the order of the clause on the rows' keys. -/
theorem compareRows_eq {X : Extern} {schema : Schema} {orderBy : List OrderByExpr} {a b : Row}
    (kept : ∀ order ∈ orderBy,
      NullsKept order (sortKeyValue X order.expr a schema) (sortKeyValue X order.expr b schema)) :
    compareRows X schema orderBy a b =
      clauseOrder X (fun order row => sortKeyValue X order.expr row schema) orderBy a b := by
  induction orderBy with
  | nil => rfl
  | cons order rest ih =>
    obtain ⟨first, others⟩ := List.forall_mem_cons.mp kept
    rw [compareRows, clauseOrder, ← compareValues_eq first, ih others]
    cases compareValues X (sortKeyValue X order.expr a schema) (sortKeyValue X order.expr b schema)
      order.nullsFirst <;> cases order.asc <;> rfl

/-! ## Statements -/

def queryExecutors (X : Extern) (hasher : Bytes → UInt64) (maxRows turns : Nat) : OtherExecutors :=
  ⟨aggregateExecutor X turns, sortExecutor X turns maxRows, dedupExecutor hasher turns⟩

/-- What a SELECT ends in, given turns enough. -/
def StatementEnds (X : Extern) (hasher : Bytes → UInt64) (maxRows : Nat) (tables : TableStore)
    (stmt : SelectStatement) (o : Result (List Row)) : Prop :=
  ∃ enough, ∀ turns, enough ≤ turns → executeSelect X turns (queryExecutors X hasher maxRows turns) tables stmt = o

section Statement

variable (X : Extern) (tables : TableStore) (stmt : SelectStatement)

def baseNode : LogicalNode := planJoins stmt.fromTable stmt.joins

/-- The rows of the tables that pass the WHERE. -/
def sourceNode : LogicalNode := stmt.whereClause.elim (baseNode stmt) (.selection (baseNode stmt))

def sourceSchema : Schema := schemaAt tables (baseNode stmt)

def listExprs : List (Expr × Option Text) := boundExprs stmt.selectList (sourceSchema tables stmt)

def listNode : LogicalNode := .projection (sourceNode stmt) (listExprs tables stmt)

def sources : List Row := denote X tables (sourceNode stmt)

/-- The output row of a source row. -/
def output : Row → Row := projected X (sourceSchema tables stmt) (listExprs tables stmt)

def outputSchema : Schema := projectionSchema X (listExprs tables stmt)

/-- A key: an output column by name or ordinal, else a column of the tables. -/
def clauseKey (order : OrderByExpr) (source : Row) : LiteralValue :=
  match order.expr with
  | .column name =>
    match (outputSchema X tables stmt).findIndex name with
    | some position => ((output X tables stmt source).values[position]?.getD none).getD .null
    | none => valueOn X (sourceSchema tables stmt) source (.column name)
  | e =>
    match ordinalOf (listExprs tables stmt).length e with
    | some position => ((output X tables stmt source).values[position]?.getD none).getD .null
    | none => .null

/-- An output column, a column of the tables or a valid ordinal. -/
def Orderable : Expr → Prop
  | .column name => ((outputSchema X tables stmt).findIndex name).isSome ∨
      ((sourceSchema tables stmt).findIndex name).isSome
  | e => (ordinalOf (listExprs tables stmt).length e).isSome

/-- The rows of the statement before LIMIT and OFFSET, and those behind them. -/
def cut (rows : List Row) : List Row := (rows.drop (stmt.offset.getD 0)).take (stmt.limit.getD usizeMax)

/-- The statement without the clauses that order and cut. -/
def unordered : SelectStatement := { stmt with orderBy := [], limit := none, offset := none }

/-- **ORDER BY sorts**: what LIMIT and OFFSET cut from is a permutation of the unordered result; and its rows come
from rows of the tables that are in the order of the clause. -/
def OrderBySorts (hasher : Bytes → UInt64) (maxRows : Nat) : Prop :=
  ∃ rows sorted, StatementEnds X hasher maxRows tables (unordered stmt) (.ok rows) ∧
    StatementEnds X hasher maxRows tables stmt (.ok (cut stmt sorted)) ∧ sorted.Perm rows ∧
    ∃ from' : List Row, from'.Subperm (sources X tables stmt) ∧ sorted = from'.map (output X tables stmt) ∧
      from'.Pairwise fun a b => (clauseOrder X (clauseKey X tables stmt) stmt.orderBy a b).isLE

/-- There is nothing to compare; or every column of the clause is in the output, the values of a key are of one
kind, and no descending key with a NULLS has both a NULL and a value. -/
def WellOrdered : Prop :=
  (sources X tables stmt).length ≤ 1 ∨ ∀ order ∈ stmt.orderBy,
    (∀ name, order.expr = .column name → ((outputSchema X tables stmt).findIndex name).isSome) ∧
      ∀ a ∈ sources X tables stmt, ∀ b ∈ sources X tables stmt,
        Comparable (clauseKey X tables stmt order a) (clauseKey X tables stmt order b) ∧
          NullsKept order (clauseKey X tables stmt order a) (clauseKey X tables stmt order b)

/-- A DISTINCT takes no two rows for one. -/
def DistinctTells (hasher : Bytes → UInt64) : Prop :=
  stmt.distinct = true → ∀ r ∈ (sources X tables stmt).map (output X tables stmt),
    ∀ s ∈ (sources X tables stmt).map (output X tables stmt), rowHash hasher r = rowHash hasher s → r = s

end Statement

variable {X : Extern} {hasher : Bytes → UInt64} {maxRows : Nat} {tables : TableStore} {stmt : SelectStatement}

/-! ## The keys of the output -/

theorem length_output (source : Row) :
    (output X tables stmt source).values.length = (listExprs tables stmt).length := by
  rw [output, projected, List.length_map]

theorem length_outputSchema : (outputSchema X tables stmt).len = (listExprs tables stmt).length := by
  rw [outputSchema, projectionSchema, Schema.len, List.length_mapIdx]

/-- A key that the output has. -/
theorem sortKeyValue_eq {order : OrderByExpr} (orderable : Orderable X tables stmt order.expr)
    (shown : ∀ name, order.expr = .column name → ((outputSchema X tables stmt).findIndex name).isSome)
    (source : Row) :
    sortKeyValue X order.expr (output X tables stmt source) (outputSchema X tables stmt) =
        clauseKey X tables stmt order source ∧
      keyPanics X (outputSchema X tables stmt) [order] (output X tables stmt source) = false := by
  have width : (output X tables stmt source).values.length = (listExprs tables stmt).length := length_output source
  rw [sortKeyValue, clauseKey, keyPanics, List.any_cons, List.any_nil, Bool.or_false, width]
  revert orderable shown
  cases order.expr with
  | column name =>
    intro _ shown
    obtain ⟨position, found⟩ := Option.isSome_iff_exists.mp (shown name rfl)
    have small : position < (output X tables stmt source).values.length := by
      rw [width, ← length_outputSchema]
      exact Schema.findIndex_lt found
    have present : (output X tables stmt source).values[position]? =
        some ((output X tables stmt source).values[position]) := List.getElem?_eq_getElem small
    have value : evaluateExpr X (output X tables stmt source).values (outputSchema X tables stmt) (.column name) =
        .ok (((output X tables stmt source).values[position]).getD .null) := by
      simp only [evaluateExpr, found, present]
    simp only [ordinalOf, found, present, value]
    exact ⟨rfl, rfl⟩
  | literal val =>
    intro orderable _
    obtain ⟨position, ordinal⟩ := Option.isSome_iff_exists.mp orderable
    simp only [ordinal]
    exact ⟨trivial, rfl⟩
  | _ =>
    intro orderable
    cases orderable

theorem keyPanics_of_each {schema : Schema} {orderBy : List OrderByExpr} {row : Row}
    (each : ∀ order ∈ orderBy, keyPanics X schema [order] row = false) : keyPanics X schema orderBy row = false := by
  rw [keyPanics, List.any_eq_false]
  intro order among
  have calm := each order among
  rw [keyPanics, List.any_cons, List.any_nil, Bool.or_false] at calm
  rw [calm]
  exact Bool.false_ne_true

/-! ## The sort -/

/-- Sorted as the clause asks, and as the executor sorts. -/
theorem sorted_output (orderable : ∀ order ∈ stmt.orderBy, Orderable X tables stmt order.expr)
    (well : WellOrdered X tables stmt) :
    ∃ from' : List Row, from'.Perm (sources X tables stmt) ∧
      sortRows X (outputSchema X tables stmt) stmt.orderBy ((sources X tables stmt).map (output X tables stmt)) =
        .ok (from'.map (output X tables stmt)) ∧
      from'.Pairwise fun a b => (clauseOrder X (clauseKey X tables stmt) stmt.orderBy a b).isLE := by
  rcases well with few | well
  · have notTwo : ¬ 2 ≤ ((sources X tables stmt).map (output X tables stmt)).length := by
      rw [List.length_map]
      omega
    refine ⟨sources X tables stmt, .refl _, ?_, ?_⟩
    · rw [sortRows, if_neg fun two => notTwo two.1]
      revert few
      cases sources X tables stmt with
      | nil => exact fun _ => by rw [List.map_nil, List.mergeSort_nil]
      | cons a rest =>
        cases rest with
        | nil => exact fun _ => by rw [List.map_singleton, List.mergeSort_singleton]
        | cons b rest => exact fun few => absurd few (by simp)
    · revert few
      cases sources X tables stmt with
      | nil => exact fun _ => List.Pairwise.nil
      | cons a rest =>
        cases rest with
        | nil => exact fun _ => List.pairwise_singleton _ _
        | cons b rest => exact fun few => absurd few (by simp)
  · have keys : ∀ order ∈ stmt.orderBy, ∀ source : Row,
        sortKeyValue X order.expr (output X tables stmt source) (outputSchema X tables stmt) =
          clauseKey X tables stmt order source := fun order among source =>
      (sortKeyValue_eq (orderable order among) (well order among).1 source).1
    have calm : (((sources X tables stmt).map (output X tables stmt)).any
        (keyPanics X (outputSchema X tables stmt) stmt.orderBy)) = false := by
      rw [List.any_map, List.any_eq_false]
      intro source _
      rw [Function.comp_apply, keyPanics_of_each fun order among =>
        (sortKeyValue_eq (orderable order among) (well order among).1 source).2]
      exact Bool.false_ne_true
    have ranks : ∀ a ∈ sources X tables stmt, ∀ b ∈ sources X tables stmt,
        clauseOrder X (clauseKey X tables stmt) stmt.orderBy a b =
          rankOrder (clauseKey X tables stmt) stmt.orderBy a b := fun a here b there =>
      clauseOrder_eq_rank fun order among => ((well order among).2 a here b there).1
    have compares : ∀ a ∈ sources X tables stmt, ∀ b ∈ sources X tables stmt,
        (rankOrder (clauseKey X tables stmt) stmt.orderBy a b).isLE =
          (compareRows X (outputSchema X tables stmt) stmt.orderBy (output X tables stmt a)
            (output X tables stmt b) != .gt) := by
      intro a here b there
      have executor : compareRows X (outputSchema X tables stmt) stmt.orderBy (output X tables stmt a)
          (output X tables stmt b) = clauseOrder X (clauseKey X tables stmt) stmt.orderBy a b := by
        rw [compareRows_eq fun order among => by
          rw [keys order among, keys order among]
          exact ((well order among).2 a here b there).2]
        exact clauseOrder_congr fun order among => ⟨keys order among a, keys order among b⟩
      rw [executor, ranks a here b there]
      cases rankOrder (clauseKey X tables stmt) stmt.orderBy a b <;> rfl
    refine ⟨(sources X tables stmt).mergeSort fun a b =>
      (rankOrder (clauseKey X tables stmt) stmt.orderBy a b).isLE, List.mergeSort_perm _ _, ?_, ?_⟩
    · rw [sortRows, if_neg fun panics => by rw [calm] at panics; exact Bool.false_ne_true panics.2,
        List.map_mergeSort (s := fun a b => compareRows X (outputSchema X tables stmt) stmt.orderBy a b != .gt)
          compares]
    · have sorted := List.pairwise_mergeSort (fun a b c => Std.TransCmp.isLE_trans)
        (fun a b => by
          rw [Bool.or_eq_true]
          exact isLE_total (rankOrder (clauseKey X tables stmt) stmt.orderBy) a b) (sources X tables stmt)
      apply sorted.imp_of_mem
      intro a b here there before
      rw [ranks a (List.mem_mergeSort.mp here) b (List.mem_mergeSort.mp there)]
      exact before

/-! ## What a statement ends in -/

/-- The executors of plain nodes are the same beside any others. -/
theorem buildExecutor_plain {turns : Nat} {plan : LogicalNode} (plain : plan.Plain) (others others' : OtherExecutors) :
    buildExecutor X turns others tables plan = buildExecutor X turns others' tables plan := by
  induction plan with
  | scan name => rfl
  | projection input exprs ih | selection input predicate ih | limit input limit offset ih =>
    rw [buildExecutor, buildExecutor, ih plain]
  | join left right on leftIh rightIh => rw [buildExecutor, buildExecutor, leftIh plain.1, rightIh plain.2]
  | sort input orderBy ih | aggregate input exprs groupBy having ih | dedup input ih => exact plain.elim

theorem plain_joins {node : LogicalNode} (plain : node.Plain) (joins : List Join) :
    (joins.foldl (fun node join => LogicalNode.join node (.scan join.right) join.on) node).Plain := by
  induction joins generalizing node with
  | nil => exact plain
  | cons join rest ih => exact ih ⟨plain, trivial⟩

theorem known_joins {node : LogicalNode} {joins : List Join}
    (known : Known tables (joins.foldl (fun node join => .join node (.scan join.right) join.on) node)) :
    Known tables node ∧ ∀ join ∈ joins, (tables.lookup join.right).isSome := by
  induction joins generalizing node with
  | nil => exact ⟨known, by simp⟩
  | cons join rest ih =>
    obtain ⟨first, others⟩ := ih known
    exact ⟨first.1, List.forall_mem_cons.mpr ⟨first.2, others⟩⟩

theorem getSchema_of_known {name : Text} (known : (tables.lookup name).isSome) :
    (TableStore.getSchema name tables).1 = .ok (columnsOf tables name) := by
  obtain ⟨d, found⟩ := Option.isSome_iff_exists.mp known
  rw [TableStore.getSchema, Exec.bind_of_ok (TableStore.data_of_lookup found), columnsOf_found found]
  rfl

theorem foldlM_schemas (node : LogicalNode) {joins : List Join}
    (known : ∀ join ∈ joins, (tables.lookup join.right).isSome) :
    (joins.foldlM (fun schema join => do
        let right ← (TableStore.getSchema join.right tables).1
        pure (combineSchemas schema right)) (schemaAt tables node) : Result Schema) =
      .ok (schemaAt tables (joins.foldl (fun node join => .join node (.scan join.right) join.on) node)) := by
  induction joins generalizing node with
  | nil => rfl
  | cons join rest ih =>
    obtain ⟨first, others⟩ := List.forall_mem_cons.mp known
    rw [List.foldlM_cons, getSchema_of_known first]
    exact ih (.join node (.scan join.right) join.on) others

/-- The plan over the select list. -/
def layered (distinct : Bool) (orderBy : List OrderByExpr) (node : LogicalNode) : LogicalNode :=
  let sorted : LogicalNode := if orderBy.isEmpty then node else .sort node orderBy
  if distinct then .dedup sorted else sorted

/-- **A bound statement** is drained from the executors of its plan. -/
theorem executeSelect_bound {turns : Nat} {others : OtherExecutors}
    (known : Known tables (baseNode stmt)) (plain : aggregated X (listExprs tables stmt) stmt.groupBy = false)
    (binds : Binder.bind (expandWildcards stmt.selectList (sourceSchema tables stmt)) (sourceSchema tables stmt) =
      .ok ()) :
    executeSelect X turns others tables stmt =
      drain turns (buildExecutor X turns others tables
        (.limit (layered stmt.distinct stmt.orderBy (listNode tables stmt)) (stmt.limit.getD usizeMax)
          (stmt.offset.getD 0))) := by
  obtain ⟨first, others'⟩ := known_joins known
  have exists' : tableExists tables stmt.fromTable = .ok () := if_pos first
  have joined : (stmt.joins.forM fun join => tableExists tables join.right) = .ok () :=
    Outcome.forM_ok fun join among => if_pos (others' join among)
  have combined : combinedFromSchema tables stmt.fromTable stmt.joins = .ok (sourceSchema tables stmt) := by
    rw [combinedFromSchema, getSchema_of_known first, Outcome.ok_bind]
    exact foldlM_schemas (.scan stmt.fromTable) others'
  have plan : planSelect X { stmt with selectList := expandWildcards stmt.selectList (sourceSchema tables stmt) } =
      .limit (layered stmt.distinct stmt.orderBy (listNode tables stmt)) (stmt.limit.getD usizeMax)
        (stmt.offset.getD 0) := by
    have unaggregated : (! stmt.groupBy.isEmpty ||
        ((expandWildcards stmt.selectList (sourceSchema tables stmt)).map SelectItem.planned).any
          fun item => containsAggregate X item.1) = false := plain
    simp only [planSelect, unaggregated, Bool.false_eq_true, if_false]
    rfl
  rw [executeSelect, exists', Outcome.ok_bind, joined, Outcome.ok_bind, combined, Outcome.ok_bind]
  show (Binder.bind (expandWildcards stmt.selectList (sourceSchema tables stmt)) (sourceSchema tables stmt) >>=
    fun _ => _) = _
  rw [binds, Outcome.ok_bind]
  exact congrArg (fun plan => drain turns (buildExecutor X turns others tables plan)) plan

theorem known_source (known : Known tables (baseNode stmt)) : Known tables (sourceNode stmt) := by
  rw [sourceNode]
  cases stmt.whereClause <;> exact known

theorem schemaAt_source : schemaAt tables (sourceNode stmt) = sourceSchema tables stmt := by
  rw [sourceNode]
  cases stmt.whereClause <;> rfl

theorem list_serves (known : Known tables (baseNode stmt)) (evaluates : Evaluates X tables (listNode tables stmt)) :
    ∃ enough, ∀ turns, enough ≤ turns → ∀ others,
      ∃ exec, buildExecutor X turns others tables (listNode tables stmt) = .ok exec ∧ Closes exec ∧
        Serves exec ((sources X tables stmt).map (output X tables stmt)) := by
  have plain : (listNode tables stmt).Plain := by
    have scan : (LogicalNode.scan stmt.fromTable).Plain := trivial
    have base : (baseNode stmt).Plain := plain_joins scan stmt.joins
    show (sourceNode stmt).Plain
    rw [sourceNode]
    cases stmt.whereClause <;> exact base
  obtain ⟨enough, serve⟩ := serves_denote noOthers plain (known_source known) evaluates
  refine ⟨enough, fun turns atLeast others => ?_⟩
  obtain ⟨exec, built, closes, serves⟩ := serve turns atLeast
  refine ⟨exec, (buildExecutor_plain plain others noOthers).trans built, closes, ?_⟩
  rw [listNode, denote, schemaAt_source] at serves
  exact serves

theorem dedup_serves {turns : Nat} {input : Executor} {rows : List Row} (serves : Serves input rows)
    (enough : rows.length < turns) :
    Serves (dedupExecutor hasher turns input)
      (firsts (fun r row => rowHash hasher r == rowHash hasher row) [] rows) := by
  obtain ⟨opened, opens, yields⟩ := serves
  exact ⟨_, dedup_yields hasher [] opens yields enough⟩

theorem dedup_closes {turns : Nat} {input : Executor} (closes : Closes input) :
    Closes (dedupExecutor hasher turns input) := by
  intro w
  obtain ⟨s', done⟩ := closes w.input
  exact ⟨_, Seen.onInput_of_ok done⟩

/-- What DISTINCT leaves of some rows. -/
def distinctRows (hasher : Bytes → UInt64) (distinct : Bool) (rows : List Row) : List Row :=
  if distinct then firsts (fun r row => rowHash hasher r == rowHash hasher row) [] rows else rows

theorem distinctRows_sublist (hasher : Bytes → UInt64) (distinct : Bool) (rows : List Row) :
    (distinctRows hasher distinct rows).Sublist rows := by
  rw [distinctRows]
  split
  · exact firsts_sublist _ _ _
  · exact .refl _

/-- The rows of the select list in the order the executors hand them on. -/
def Handed (X : Extern) (tables : TableStore) (stmt : SelectStatement) (rows : List Row) : Prop :=
  (stmt.orderBy = [] ∧ rows = (sources X tables stmt).map (output X tables stmt)) ∨
    (stmt.orderBy ≠ [] ∧ sortRows X (outputSchema X tables stmt) stmt.orderBy
      ((sources X tables stmt).map (output X tables stmt)) = .ok rows)

section Ends

variable (known : Known tables (baseNode stmt))
  (plain : aggregated X (listExprs tables stmt) stmt.groupBy = false)
  (binds : Binder.bind (expandWildcards stmt.selectList (sourceSchema tables stmt)) (sourceSchema tables stmt) =
    .ok ())
  (evaluates : Evaluates X tables (listNode tables stmt)) (fits : (sources X tables stmt).length ≤ maxRows)

include known evaluates fits in
theorem layered_serves {rows : List Row} (handed : Handed X tables stmt rows) :
    ∃ enough, ∀ turns, enough ≤ turns →
      ∃ exec, buildExecutor X turns (queryExecutors X hasher maxRows turns) tables
          (layered stmt.distinct stmt.orderBy (listNode tables stmt)) = .ok exec ∧ Closes exec ∧
        Serves exec (distinctRows hasher stmt.distinct rows) := by
  obtain ⟨enough, serve⟩ := list_serves known evaluates
  refine ⟨max enough (rows.length + (sources X tables stmt).length + 1), fun turns atLeast => ?_⟩
  obtain ⟨exec, built, closes, serves⟩ := serve turns (by omega) (queryExecutors X hasher maxRows turns)
  have sorted : ∃ exec, buildExecutor X turns (queryExecutors X hasher maxRows turns) tables
      (if stmt.orderBy.isEmpty then listNode tables stmt else .sort (listNode tables stmt) stmt.orderBy) = .ok exec ∧
        Closes exec ∧ Serves exec rows := by
    rcases handed with ⟨none, rfl⟩ | ⟨some, sorts⟩
    · rw [none]
      exact ⟨exec, built, closes, serves⟩
    · have asked : stmt.orderBy.isEmpty = false := by simpa using some
      rw [asked, if_neg Bool.false_ne_true]
      refine ⟨sortExecutor X turns maxRows exec stmt.orderBy (outputSchema X tables stmt), ?_, sort_closes exec,
        sort_serves serves closes ?_ ?_ sorts⟩
      · have resolved : resolveOutputSchema X tables (listNode tables stmt) = .ok (outputSchema X tables stmt) := by
          rw [listNode, resolveOutputSchema, resolveSchema_of_known (known_source known)]
          rfl
        rw [buildExecutor, built, resolved]
        rfl
      · rw [List.length_map]
        exact fits
      · rw [List.length_map]
        omega
  obtain ⟨exec, built, closes, serves⟩ := sorted
  rw [layered, distinctRows]
  cases stmt.distinct with
  | false => exact ⟨exec, built, closes, serves⟩
  | true =>
    refine ⟨dedupExecutor hasher turns exec, ?_, dedup_closes closes, dedup_serves serves (by omega)⟩
    rw [if_pos rfl, buildExecutor, built]
    rfl

include known plain binds evaluates fits in
/-- **A SELECT without aggregates**, whatever its clauses. -/
theorem statement_ends {rows : List Row} (handed : Handed X tables stmt rows) :
    StatementEnds X hasher maxRows tables stmt (.ok (cut stmt (distinctRows hasher stmt.distinct rows))) := by
  obtain ⟨enough, serve⟩ := layered_serves known evaluates fits handed
  refine ⟨max enough ((distinctRows hasher stmt.distinct rows).length + 1), fun turns atLeast => ?_⟩
  obtain ⟨exec, built, closes, serves⟩ := serve turns (by omega)
  have limited := limit_serves (stmt.limit.getD usizeMax) (stmt.offset.getD 0) serves
    (show (distinctRows hasher stmt.distinct rows).length < turns by omega)
  have few : (((distinctRows hasher stmt.distinct rows).drop (stmt.offset.getD 0)).take
      (stmt.limit.getD usizeMax)).length < turns := by
    rw [List.length_take, List.length_drop]
    omega
  obtain ⟨s, ran⟩ := buffered_serves limited (limit_closes closes) few
  rw [executeSelect_bound known plain binds, buildExecutor, built]
  exact congrArg Prod.fst ran

end Ends

theorem StatementEnds.unique {o o' : Result (List Row)} (one : StatementEnds X hasher maxRows tables stmt o)
    (other : StatementEnds X hasher maxRows tables stmt o') : o = o' := by
  obtain ⟨n, ends⟩ := one
  obtain ⟨m, ends'⟩ := other
  rw [← ends (max n m) (le_max_left n m), ends' (max n m) (le_max_right n m)]

/-! ## Two statements -/

def twoColumns : Schema :=
  ⟨[⟨['a'], .integer, true, none, 0, false, false, false⟩, ⟨['b'], .integer, true, none, 1, false, false, false⟩]⟩

/-- A table `t` of the columns `a` and `b` with the rows (2, 7) and (1, 8). -/
def twoPairs : TableData :=
  ⟨twoColumns, [⟨[some (.integer 2), some (.integer 7)]⟩, ⟨[some (.integer 1), some (.integer 8)]⟩], 2⟩

def pairTables : TableStore := AList.singleton ['t'] twoPairs

/-- `SELECT b FROM t` in some order. -/
def secondColumn (orderBy : List OrderByExpr) : SelectStatement where
  distinct := false
  selectList := [.expr (.column ['b']) none]
  fromTable := ['t']
  joins := []
  whereClause := none
  groupBy := []
  having := none
  orderBy := orderBy
  limit := none
  offset := none

/-- `ORDER BY b DESC, 1 ASC NULLS FIRST`. -/
def byShown : SelectStatement := secondColumn [⟨.column ['b'], false, none⟩, ⟨.literal (.integer 1), true, some true⟩]

/-- `ORDER BY a`. -/
def byHidden : SelectStatement := secondColumn [⟨.column ['a'], true, none⟩]

theorem secondColumn_known (orderBy : List OrderByExpr) :
    Known pairTables (baseNode (secondColumn orderBy)) := rfl

theorem secondColumn_evaluates (orderBy : List OrderByExpr) :
    Evaluates .ascii pairTables (listNode pairTables (secondColumn orderBy)) := by
  refine ⟨trivial, ?_⟩
  have each : ∀ item ∈ ([(.column ['b'], none)] : List (Expr × Option Text)),
      EvaluatesOn .ascii twoColumns twoPairs.rows item.1 := by decide +kernel
  exact each

/-- `ORDER BY n DESC NULLS LAST` puts the NULL first. -/
example : compareRows .ascii numbers [⟨.column ['n'], false, some false⟩] ⟨[some .null]⟩ ⟨[some (.integer 1)]⟩ =
    .lt := by
  decide +kernel

end NovaRuntime.Sql
