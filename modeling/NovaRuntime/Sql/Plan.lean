/-
# NovaRuntime.Sql.Plan — `SelectStatement` and `LogicalPlanner::plan_select`

A SELECT becomes a tree of logical nodes: the scans of its tables joined from the left,
the WHERE over them, then a projection or an aggregation, the ORDER BY and the DISTINCT
where there are any, and a limit over everything. The aliases of tables are left out,
`plan_select` copies them and nothing reads them.
-/
import NovaRuntime.Sql.Ast

namespace NovaRuntime.Sql

open NovaRuntime.Library

set_option autoImplicit false

inductive SelectItem where
  | expr (expr : Expr) (columnAlias : Option Text)
  | wildcard

structure OrderByExpr where
  expr : Expr
  asc : Bool
  nullsFirst : Option Bool

/-- The table a join adds, and its ON. -/
structure Join where
  right : Text
  on : Option Expr

structure SelectStatement where
  distinct : Bool
  selectList : List SelectItem
  fromTable : Text
  joins : List Join
  whereClause : Option Expr
  groupBy : List Expr
  having : Option Expr
  orderBy : List OrderByExpr
  limit : Option Nat
  offset : Option Nat

inductive LogicalNode where
  | scan (tableName : Text)
  | projection (input : LogicalNode) (exprs : List (Expr × Option Text))
  | selection (input : LogicalNode) (predicate : Expr)
  | sort (input : LogicalNode) (orderBy : List OrderByExpr)
  | limit (input : LogicalNode) (limit offset : Nat)
  | aggregate (input : LogicalNode) (exprs : List (Expr × Option Text)) (groupBy : List Expr)
      (having : Option Expr)
  | dedup (input : LogicalNode)
  | join (left right : LogicalNode) (on : Option Expr)

/-! ## Aggregates -/

mutual

/-- Whether an expression calls an aggregate. An aggregate inside the arguments of
another function is not looked for. -/
def containsAggregate (X : Extern) : Expr → Bool
  | .function name _ => decide (X.toLowercase name ∈
      ["count".toList, "sum".toList, "avg".toList, "min".toList, "max".toList])
  | .binaryOp left _ right => containsAggregate X left || containsAggregate X right
  | .unaryOp _ expr => containsAggregate X expr
  | .caseWhen whens elseVal => whensContain X whens || elseContains X elseVal
  | .cast expr _ => containsAggregate X expr
  | .inList expr list => containsAggregate X expr || listContains X list
  | .between expr low high =>
    containsAggregate X expr || containsAggregate X low || containsAggregate X high
  | .like expr pattern => containsAggregate X expr || containsAggregate X pattern
  | .iLike expr pattern => containsAggregate X expr || containsAggregate X pattern
  | .isNull expr => containsAggregate X expr
  | .isNotNull expr => containsAggregate X expr
  | .column _ => false
  | .literal _ => false

def listContains (X : Extern) : List Expr → Bool
  | [] => false
  | e :: rest => containsAggregate X e || listContains X rest

def whensContain (X : Extern) : List (Expr × Expr) → Bool
  | [] => false
  | w :: rest => whenContains X w || whensContain X rest

def whenContains (X : Extern) : Expr × Expr → Bool
  | (cond, result) => containsAggregate X cond || containsAggregate X result

def elseContains (X : Extern) : Option Expr → Bool
  | some e => containsAggregate X e
  | none => false

end

/-! ## The planner -/

def usizeMax : Nat := 2 ^ 64 - 1

/-- A wildcard is planned as the text `*`. -/
def SelectItem.planned : SelectItem → Expr × Option Text
  | .expr e columnAlias => (e, columnAlias)
  | .wildcard => (.literal (.string "*".toList), none)

/-- The scans of a statement, joined from the left. -/
def planJoins (first : Text) (joins : List Join) : LogicalNode :=
  joins.foldl (fun node join => .join node (.scan join.right) join.on) (.scan first)

def planSelect (X : Extern) (stmt : SelectStatement) : LogicalNode :=
  let base := planJoins stmt.fromTable stmt.joins
  let filtered := stmt.whereClause.elim base (.selection base)
  let exprs := stmt.selectList.map SelectItem.planned
  let hasGroupBy := ! stmt.groupBy.isEmpty
  let hasAggregate := hasGroupBy || exprs.any fun item => containsAggregate X item.1
  let listed : LogicalNode :=
    if hasAggregate then .aggregate filtered exprs stmt.groupBy stmt.having
    else .projection filtered exprs
  let sorted : LogicalNode := if stmt.orderBy.isEmpty then listed else .sort listed stmt.orderBy
  let distinct : LogicalNode := if stmt.distinct then .dedup sorted else sorted
  .limit distinct (stmt.limit.getD usizeMax) (stmt.offset.getD 0)

/-! ## The plans of scans, joins, selections, projections and limits -/

namespace LogicalNode

/-- No aggregation, no sort and no removal of duplicates. -/
def Plain : LogicalNode → Prop
  | .scan _ => True
  | .projection input _ => input.Plain
  | .selection input _ => input.Plain
  | .limit input _ _ => input.Plain
  | .join left right _ => left.Plain ∧ right.Plain
  | .sort _ _ => False
  | .aggregate _ _ _ _ => False
  | .dedup _ => False

end LogicalNode

/-- The plan of a statement that leads to none of these three. -/
theorem planSelect_of_plain {X : Extern} {stmt : SelectStatement}
    (plain : (planSelect X stmt).Plain) :
    planSelect X stmt = .limit (.projection
      (stmt.whereClause.elim (planJoins stmt.fromTable stmt.joins)
        (.selection (planJoins stmt.fromTable stmt.joins)))
      (stmt.selectList.map SelectItem.planned)) (stmt.limit.getD usizeMax) (stmt.offset.getD 0) := by
  revert plain
  simp only [planSelect, LogicalNode.Plain]
  by_cases distinct : stmt.distinct = true
  · simp only [if_pos distinct, LogicalNode.Plain, false_implies]
  rw [if_neg distinct]
  by_cases unordered : stmt.orderBy.isEmpty = true
  · rw [if_pos unordered]
    split
    · simp only [LogicalNode.Plain, false_implies]
    · exact fun _ => rfl
  · simp only [if_neg unordered, LogicalNode.Plain, false_implies]

end NovaRuntime.Sql
