/-
# NovaRuntime.Sql.Grouped — expressions over a group of rows

A grouped expression means what its tree evaluates to when an aggregate call has its value over all rows of
the group and a column its value in the first row (`overGroup`).

`evaluate_grouped_expr` hands IN, BETWEEN, LIKE, ILIKE, CASE and the calls of other functions to
`evaluate_expr` on the first row, with the aggregate calls below them. It is compositional exactly if these
have the same value there as over the group (`grouped_iff`).
-/
import NovaRuntime.Sql.Plan
import NovaRuntime.Sql.Readings
import NovaRuntime.Sql.Relational

namespace NovaRuntime.Sql

open NovaRuntime.Library

set_option autoImplicit false

variable {X : Extern} {schema : Schema}

/-! ## Aggregate calls -/

/-- The two loops of an aggregate: its arguments, on one row after the other. -/
def foldArguments {α : Type} (X : Extern) (schema : Schema) (rows : List Row) (args : List Expr)
    (step : α → LiteralValue → Result α) (start : α) : Result α :=
  rows.foldlM (fun acc row =>
    args.foldlM (fun acc arg => do
      let val ← evaluateExpr X row.values schema arg
      step acc val) acc) start

/-- `COUNT(*)` is parsed as a call on the text `*`. -/
def countsRows : List Expr → Bool
  | [.literal (.string s)] => s == "*".toList
  | _ => false

def floatOf (X : Extern) : LiteralValue → Option F64
  | .integer i => some (X.ofInt i)
  | .float f => some f
  | _ => none

/-- One turn of `min` and `max`. -/
def keepBest (X : Extern) (op : BinaryOperator) (best : Option LiteralValue) (val : LiteralValue) :
    Result (Option LiteralValue) :=
  if val = .null then .ok best
  else match best with
    | none => .ok (some val)
    | some b => do
        let cmp ← evalBinaryOp X op val b
        pure (if cmp = .boolean true then some val else best)

/-- The value on the last row. -/
def lastValue (X : Extern) (schema : Schema) (rows : List Row) (expr : Expr) : Result LiteralValue :=
  rows.foldlM (fun _ row => evaluateExpr X row.values schema expr) .null

def evaluateAggregateExpr (X : Extern) (schema : Schema) (rows : List Row) (expr : Expr) : Result LiteralValue :=
  match expr with
  | .function name args =>
    let lower := X.toLowercase name
    if lower = "count".toList then
      if countsRows args then .ok (.integer (.ofNat rows.length))
      else do
        let count ← foldArguments X schema rows args
          (fun (count : Nat) val => .ok (if val = .null then count else count + 1)) 0
        pure (.integer (.ofNat count))
    else if lower = "sum".toList then do
      let total ← foldArguments X schema rows args (fun (acc : F64 × Bool) val =>
        .ok ((floatOf X val).elim acc fun f => (X.add acc.1 f, true))) (.zero, false)
      pure (if total.2 then .float total.1 else .null)
    else if lower = "avg".toList then do
      let total ← foldArguments X schema rows args (fun (acc : F64 × Nat) val =>
        .ok ((floatOf X val).elim acc fun f => (X.add acc.1 f, acc.2 + 1))) (.zero, 0)
      pure (if 0 < total.2 then .float (X.div total.1 (X.ofInt (.ofNat total.2))) else .null)
    else if lower ∈ ["min".toList, "max".toList] then do
      let best ← foldArguments X schema rows args
        (keepBest X (if lower = "min".toList then .lt else .gt)) none
      pure (best.getD .null)
    else lastValue X schema rows (.function name args)
  | expr => lastValue X schema rows expr

/-- A call of one of the five aggregates. -/
def isAggregateCall (X : Extern) : Expr → Bool
  | .function name args => containsAggregate X (.function name args)
  | _ => false

/-! ## Grouped expressions -/

/-- `evaluate_expr` on `group_rows[0]`. -/
def onFirst (X : Extern) (schema : Schema) (rows : List Row) (expr : Expr) : Result LiteralValue :=
  match rows with
  | [] => .panic
  | first :: _ => evaluateExpr X first.values schema expr

def columnOfGroup (X : Extern) (schema : Schema) (rows : List Row) (name : Text) : Result LiteralValue :=
  match rows with
  | [] => .ok .null
  | first :: _ => evaluateExpr X first.values schema (.column name)

/-- The key of the group, which nothing reads, is left out. -/
def evaluateGroupedExpr (X : Extern) (schema : Schema) (rows : List Row) : Expr → Result LiteralValue
  | .column name => columnOfGroup X schema rows name
  | .function name args =>
    if containsAggregate X (.function name args) then evaluateAggregateExpr X schema rows (.function name args)
    else onFirst X schema rows (.function name args)
  | .binaryOp left op right => do
      let l ← evaluateGroupedExpr X schema rows left
      let r ← evaluateGroupedExpr X schema rows right
      evalBinaryOp X op l r
  | .unaryOp op expr => do
      let v ← evaluateGroupedExpr X schema rows expr
      evalUnaryOp X op v
  | .cast expr targetType => do
      let v ← evaluateGroupedExpr X schema rows expr
      coerceValue X v targetType
  | .isNull expr => do
      let v ← evaluateGroupedExpr X schema rows expr
      pure (.boolean (decide (v = .null)))
  | .isNotNull expr => do
      let v ← evaluateGroupedExpr X schema rows expr
      pure (.boolean (decide (v ≠ .null)))
  | .literal val => onFirst X schema rows (.literal val)
  | .inList expr list => onFirst X schema rows (.inList expr list)
  | .between expr low high => onFirst X schema rows (.between expr low high)
  | .like expr pattern => onFirst X schema rows (.like expr pattern)
  | .iLike expr pattern => onFirst X schema rows (.iLike expr pattern)
  | .caseWhen whens elseVal => onFirst X schema rows (.caseWhen whens elseVal)

/-! ## What a grouped expression means -/

/-- A column has its value in the first row, an aggregate call its value over all rows. -/
def groupReading (X : Extern) (schema : Schema) (rows : List Row) : Reading where
  column := columnOfGroup X schema rows
  call name args :=
    if containsAggregate X (.function name args) then
      some (evaluateAggregateExpr X schema rows (.function name args))
    else none

/-- What a grouped expression means. -/
def overGroup (X : Extern) (schema : Schema) (rows : List Row) (e : Expr) : Result LiteralValue :=
  valueOf X (groupReading X schema rows) e

/-! ## What the recursion comes to -/

/-- The parts on which `evaluate_grouped_expr` is called. -/
def reached : Expr → List Expr
  | .binaryOp left op right => .binaryOp left op right :: (reached left ++ reached right)
  | .unaryOp op expr => .unaryOp op expr :: reached expr
  | .cast expr targetType => .cast expr targetType :: reached expr
  | .isNull expr => .isNull expr :: reached expr
  | .isNotNull expr => .isNotNull expr :: reached expr
  | .column name => [.column name]
  | .literal val => [.literal val]
  | .function name args => [.function name args]
  | .inList expr list => [.inList expr list]
  | .between expr low high => [.between expr low high]
  | .like expr pattern => [.like expr pattern]
  | .iLike expr pattern => [.iLike expr pattern]
  | .caseWhen whens elseVal => [.caseWhen whens elseVal]

/-- Handed to `evaluate_expr` as a whole. -/
def handedOn (X : Extern) : Expr → Bool
  | .inList _ _ | .between _ _ _ | .like _ _ | .iLike _ _ | .caseWhen _ _ => true
  | .function name args => ! containsAggregate X (.function name args)
  | _ => false

/-- The expression and every part the evaluation comes to mean what they should. -/
def Compositional (X : Extern) (schema : Schema) (rows : List Row) (e : Expr) : Prop :=
  ∀ part ∈ reached e, evaluateGroupedExpr X schema rows part = overGroup X schema rows part

/-- No part that is handed on has another value on the first row than over the group, through the aggregate
calls below it. -/
def OneRowTells (X : Extern) (schema : Schema) (first : Row) (rest : List Row) (e : Expr) : Prop :=
  ∀ part ∈ reached e, handedOn X part = true → (∃ call ∈ below part, isAggregateCall X call = true) →
    evaluateExpr X first.values schema part = overGroup X schema (first :: rest) part

theorem reached_self (e : Expr) : e ∈ reached e := by
  cases e <;> simp [reached]

section Group

variable {first : Row} {rest : List Row}

/-- Without an aggregate call there is nothing to see but the first row. -/
theorem overGroup_of_plain {e : Expr} (plain : ∀ call ∈ parts e, isAggregateCall X call = false) :
    overGroup X schema (first :: rest) e = evaluateExpr X first.values schema e := by
  rw [overGroup, ← valueOf_row]
  refine valueOf_agree e ⟨fun name _ => rfl, fun name args among => ?_⟩
  exact if_neg (by simpa [isAggregateCall] using plain _ among)

/-- A part that is handed on. -/
theorem grouped_of_handedOn {e : Expr} (handed : handedOn X e = true) :
    evaluateGroupedExpr X schema (first :: rest) e = evaluateExpr X first.values schema e := by
  cases e with
  | function name args =>
    rw [evaluateGroupedExpr, if_neg (by simpa [handedOn] using handed), onFirst]
  | inList _ _ | between _ _ _ | like _ _ | iLike _ _ | caseWhen _ _ => rw [evaluateGroupedExpr, onFirst]
  | column _ | literal _ | binaryOp _ _ _ | unaryOp _ _ | isNull _ | isNotNull _ | cast _ _ =>
    simp [handedOn] at handed

theorem not_call_of_handedOn {e : Expr} (handed : handedOn X e = true) : isAggregateCall X e = false := by
  cases e <;> simp_all [handedOn, isAggregateCall]

/-- What a part that is handed on should be, it is. -/
theorem overGroup_of_handedOn {e : Expr} (handed : handedOn X e = true)
    (tells : (∃ call ∈ below e, isAggregateCall X call = true) →
      evaluateExpr X first.values schema e = overGroup X schema (first :: rest) e) :
    evaluateGroupedExpr X schema (first :: rest) e = overGroup X schema (first :: rest) e := by
  rw [grouped_of_handedOn handed]
  by_cases calls : ∃ call ∈ below e, isAggregateCall X call = true
  · exact tells calls
  · refine (overGroup_of_plain fun call among => ?_).symm
    rw [parts_eq] at among
    rcases List.mem_cons.mp among with rfl | inside
    · exact not_call_of_handedOn handed
    · simpa using fun called => calls ⟨call, inside, called⟩

theorem OneRowTells.of_subset {e part : Expr} (tells : OneRowTells X schema first rest e)
    (inside : ∀ inner ∈ reached part, inner ∈ reached e) : OneRowTells X schema first rest part :=
  fun inner among => tells inner (inside inner among)

/-- **By recursion over the tree**: what is made of two parts means what it should if both do. -/
theorem compositional_of_tells : ∀ e : Expr, OneRowTells X schema first rest e →
    Compositional X schema (first :: rest) e
  | .column _, _ => by
      intro part among
      obtain rfl := List.mem_singleton.mp among
      rw [evaluateGroupedExpr, overGroup, valueOf]
      rfl
  | .literal _, _ => by
      intro part among
      obtain rfl := List.mem_singleton.mp among
      rw [evaluateGroupedExpr, onFirst, evaluateExpr, overGroup, valueOf]
  | .binaryOp left op right, tells => by
      have atLeft := compositional_of_tells left (tells.of_subset fun inner among => by simp [reached, among])
      have atRight := compositional_of_tells right (tells.of_subset fun inner among => by simp [reached, among])
      refine List.forall_mem_cons.mpr ⟨?_, List.forall_mem_append.mpr ⟨atLeft, atRight⟩⟩
      rw [evaluateGroupedExpr, atLeft left (reached_self left), atRight right (reached_self right), overGroup,
        overGroup, overGroup, valueOf]
  | .unaryOp _ expr, tells | .cast expr _, tells | .isNull expr, tells | .isNotNull expr, tells => by
      have inner := compositional_of_tells expr (tells.of_subset fun inner among => by simp [reached, among])
      refine List.forall_mem_cons.mpr ⟨?_, inner⟩
      rw [evaluateGroupedExpr, inner expr (reached_self expr), overGroup, overGroup, valueOf]
  | .function name args, tells => by
      intro part among
      obtain rfl := List.mem_singleton.mp among
      by_cases called : containsAggregate X (.function name args) = true
      · rw [evaluateGroupedExpr, if_pos called, overGroup, valueOf]
        show _ = (if containsAggregate X (.function name args) = true then
          some (evaluateAggregateExpr X schema (first :: rest) (.function name args)) else none).getD _
        rw [if_pos called, Option.getD_some]
      · have handed : handedOn X (.function name args) = true := by simp [handedOn, called]
        exact overGroup_of_handedOn handed (tells _ (reached_self _) handed)
  | .inList _ _, tells | .between _ _ _, tells | .like _ _, tells | .iLike _ _, tells
  | .caseWhen _ _, tells => by
      intro part among
      obtain rfl := List.mem_singleton.mp among
      exact overGroup_of_handedOn rfl (tells _ (reached_self _) rfl)

end Group

/-- `COUNT(*) BETWEEN 2 AND 3`. -/
def countBetween : Expr :=
  .between (.function "count".toList [.literal (.string ['*'])]) (.literal (.integer 2)) (.literal (.integer 3))

def twoRows : List Row := [⟨[some (.integer 0)]⟩, ⟨[some (.integer 1)]⟩]

/-- On a group of two rows it is false. -/
theorem count_between_two : evaluateGroupedExpr .ascii numbers twoRows countBetween = .ok (.boolean false) ∧
    overGroup .ascii numbers twoRows countBetween = .ok (.boolean true) := by
  decide +kernel

end NovaRuntime.Sql
