/-
# NovaRuntime.Sql.Readings — trees whose leaves are read from elsewhere

`valueOf` evaluates a tree as `evaluate_expr` does, but for its columns, and for the calls that a `Reading`
gives a value of their own. With the reading of one row it is `evaluate_expr` (`valueOf_row`). It depends
on nothing but what the reading says of the columns and calls of the tree (`valueOf_agree`).
-/
import NovaRuntime.Sql.Parts

namespace NovaRuntime.Sql

open NovaRuntime.Library

set_option autoImplicit false

variable {X : Extern} {schema : Schema}

/-! ## Trees with some leaves read from elsewhere -/

/-- Where the columns have their values, and which calls have one that is not made of those of the arguments. -/
structure Reading where
  column : Text → Result LiteralValue
  call : Text → List Expr → Option (Result LiteralValue)

mutual

def valueOf (X : Extern) (reading : Reading) : Expr → Result LiteralValue
  | .column name => reading.column name
  | .literal val => .ok val
  | .binaryOp left op right => do
      let leftVal ← valueOf X reading left
      let rightVal ← valueOf X reading right
      evalBinaryOp X op leftVal rightVal
  | .unaryOp op expr => do
      let val ← valueOf X reading expr
      evalUnaryOp X op val
  | .function name args => (reading.call name args).getD do
      let argVals ← valuesOf X reading args
      evalFunction X name argVals
  | .isNull expr => do
      let val ← valueOf X reading expr
      pure (.boolean (decide (val = .null)))
  | .isNotNull expr => do
      let val ← valueOf X reading expr
      pure (.boolean (decide (val ≠ .null)))
  | .inList expr list => do
      let val ← valueOf X reading expr
      valueIn X reading val list
  | .between expr low high => do
      let val ← valueOf X reading expr
      let lowVal ← valueOf X reading low
      let highVal ← valueOf X reading high
      let ge ← evalBinaryOp X .gtEq val lowVal
      let le ← evalBinaryOp X .ltEq val highVal
      pure (.boolean (decide (ge = .boolean true) && decide (le = .boolean true)))
  | .like expr pattern => do
      let val ← valueOf X reading expr
      let pat ← valueOf X reading pattern
      evalLike X val pat false
  | .iLike expr pattern => do
      let val ← valueOf X reading expr
      let pat ← valueOf X reading pattern
      evalLike X val pat true
  | .caseWhen whens elseVal => valueCase X reading (valueElse X reading elseVal) whens
  | .cast expr targetType => do
      let val ← valueOf X reading expr
      coerceValue X val targetType

def valuesOf (X : Extern) (reading : Reading) : List Expr → Result (List LiteralValue)
  | [] => .ok []
  | e :: rest => do
      let val ← valueOf X reading e
      let vals ← valuesOf X reading rest
      pure (val :: vals)

def valueIn (X : Extern) (reading : Reading) (val : LiteralValue) : List Expr → Result LiteralValue
  | [] => .ok (.boolean false)
  | item :: rest => do
      let itemVal ← valueOf X reading item
      if val.eq itemVal then pure (.boolean true) else valueIn X reading val rest

def valueWhen (X : Extern) (reading : Reading) (later : Result LiteralValue) : Expr × Expr → Result LiteralValue
  | (cond, result) => do
      let condVal ← valueOf X reading cond
      if condVal = .boolean true then valueOf X reading result else later

def valueCase (X : Extern) (reading : Reading) (other : Result LiteralValue) :
    List (Expr × Expr) → Result LiteralValue
  | [] => other
  | w :: rest => valueWhen X reading (valueCase X reading other rest) w

def valueElse (X : Extern) (reading : Reading) : Option Expr → Result LiteralValue
  | some e => valueOf X reading e
  | none => .ok .null

end

/-! ## The reading of a row -/

def rowReading (X : Extern) (values : List (Option LiteralValue)) (schema : Schema) : Reading where
  column name := evaluateExpr X values schema (.column name)
  call _ _ := none

mutual

theorem valueOf_row {values : List (Option LiteralValue)} :
    ∀ e : Expr, valueOf X (rowReading X values schema) e = evaluateExpr X values schema e
  | .column _ => rfl
  | .literal _ => by rw [valueOf, evaluateExpr]
  | .unaryOp _ expr | .isNull expr | .isNotNull expr | .cast expr _ => by
      rw [valueOf, evaluateExpr, valueOf_row expr]
  | .binaryOp left _ right | .like left right | .iLike left right => by
      rw [valueOf, evaluateExpr, valueOf_row left, valueOf_row right]
  | .function _ args => by
      rw [valueOf, evaluateExpr, valuesOf_row args]
      rfl
  | .inList expr list => by
      rw [valueOf, evaluateExpr, valueOf_row expr]
      simp only [valueIn_row list]
  | .between expr low high => by
      rw [valueOf, evaluateExpr, valueOf_row expr, valueOf_row low, valueOf_row high]
  | .caseWhen whens elseVal => by
      rw [valueOf, evaluateExpr, valueElse_row elseVal, valueCase_row whens]

theorem valuesOf_row {values : List (Option LiteralValue)} :
    ∀ args : List Expr, valuesOf X (rowReading X values schema) args = evaluateAll X values schema args
  | [] => by rw [valuesOf, evaluateAll]
  | e :: rest => by rw [valuesOf, evaluateAll, valueOf_row e, valuesOf_row rest]

theorem valueIn_row {values : List (Option LiteralValue)} :
    ∀ (list : List Expr) (val : LiteralValue),
      valueIn X (rowReading X values schema) val list = evaluateIn X values schema val list
  | [], _ => by rw [valueIn, evaluateIn]
  | e :: rest, val => by rw [valueIn, evaluateIn, valueOf_row e, valueIn_row rest val]

theorem valueCase_row {values : List (Option LiteralValue)} {other : Result LiteralValue} :
    ∀ whens : List (Expr × Expr),
      valueCase X (rowReading X values schema) other whens = evaluateCase X values schema other whens
  | [] => by rw [valueCase, evaluateCase]
  | (cond, result) :: rest => by
      rw [valueCase, evaluateCase, valueWhen, evaluateWhen, valueOf_row cond, valueOf_row result,
        valueCase_row rest]

theorem valueElse_row {values : List (Option LiteralValue)} :
    ∀ elseVal : Option Expr,
      valueElse X (rowReading X values schema) elseVal = evaluateElse X values schema elseVal
  | none => by rw [valueElse, evaluateElse]
  | some e => by rw [valueElse, evaluateElse, valueOf_row e]

end

/-! ## What a value depends on -/

/-- Two readings say the same of some expressions. -/
structure Reading.AgreeIn (one other : Reading) (named : List Expr) : Prop where
  column : ∀ name, .column name ∈ named → one.column name = other.column name
  call : ∀ name args, .function name args ∈ named → one.call name args = other.call name args

namespace Reading.AgreeIn

variable {one other : Reading} {e : Expr} {some others : List Expr}

theorem append (agree : one.AgreeIn other (some ++ others)) : one.AgreeIn other some ∧ one.AgreeIn other others :=
  ⟨⟨fun name among => agree.column name (List.mem_append_left _ among),
      fun name args among => agree.call name args (List.mem_append_left _ among)⟩,
    ⟨fun name among => agree.column name (List.mem_append_right _ among),
      fun name args among => agree.call name args (List.mem_append_right _ among)⟩⟩

theorem tail (agree : one.AgreeIn other (e :: others)) : one.AgreeIn other others :=
  ⟨fun name among => agree.column name (List.mem_cons_of_mem e among),
    fun name args among => agree.call name args (List.mem_cons_of_mem e among)⟩

end Reading.AgreeIn

variable {one other : Reading}

mutual

/-- **A tree has one value under readings that agree on its columns and calls.** -/
theorem valueOf_agree : ∀ e : Expr, one.AgreeIn other (parts e) → valueOf X one e = valueOf X other e
  | .column name, agree => by
      rw [valueOf, valueOf]
      exact agree.column name (self_mem_parts _)
  | .literal _, _ => by rw [valueOf, valueOf]
  | .unaryOp _ expr, agree | .isNull expr, agree | .isNotNull expr, agree | .cast expr _, agree => by
      rw [valueOf, valueOf, valueOf_agree expr agree.tail]
  | .binaryOp left _ right, agree | .like left right, agree | .iLike left right, agree => by
      obtain ⟨atLeft, atRight⟩ := agree.tail.append
      rw [valueOf, valueOf, valueOf_agree left atLeft, valueOf_agree right atRight]
  | .function name args, agree => by
      rw [valueOf, valueOf, valuesOf_agree args agree.tail, agree.call name args (self_mem_parts _)]
  | .inList expr list, agree => by
      obtain ⟨first, rest⟩ := agree.tail.append
      rw [valueOf, valueOf, valueOf_agree expr first]
      simp only [valueIn_agree list rest]
  | .between expr low high, agree => by
      obtain ⟨first, rest⟩ := agree.tail.append
      obtain ⟨second, third⟩ := rest.append
      rw [valueOf, valueOf, valueOf_agree expr first, valueOf_agree low second, valueOf_agree high third]
  | .caseWhen whens elseVal, agree => by
      obtain ⟨first, rest⟩ := agree.tail.append
      rw [valueOf, valueOf, valueElse_agree elseVal rest, valueCase_agree whens first]

theorem valuesOf_agree : ∀ args : List Expr, one.AgreeIn other (partsAll args) →
    valuesOf X one args = valuesOf X other args
  | [], _ => by rw [valuesOf, valuesOf]
  | e :: rest, agree => by
      obtain ⟨first, others⟩ := agree.append
      rw [valuesOf, valuesOf, valueOf_agree e first, valuesOf_agree rest others]

theorem valueIn_agree : ∀ list : List Expr, one.AgreeIn other (partsAll list) →
    ∀ val, valueIn X one val list = valueIn X other val list
  | [], _ => fun _ => by rw [valueIn, valueIn]
  | e :: rest, agree => fun val => by
      obtain ⟨first, others⟩ := agree.append
      rw [valueIn, valueIn, valueOf_agree e first, valueIn_agree rest others val]

theorem valueCase_agree : ∀ whens : List (Expr × Expr), one.AgreeIn other (partsWhens whens) →
    ∀ {last : Result LiteralValue}, valueCase X one last whens = valueCase X other last whens
  | [], _ => by rw [valueCase, valueCase]
  | (cond, result) :: rest, agree => by
      obtain ⟨first, others⟩ := agree.append
      obtain ⟨atCond, atResult⟩ := first.append
      rw [valueCase, valueCase, valueWhen, valueWhen, valueOf_agree cond atCond, valueOf_agree result atResult,
        valueCase_agree rest others]

theorem valueElse_agree : ∀ elseVal : Option Expr, one.AgreeIn other (partsElse elseVal) →
    valueElse X one elseVal = valueElse X other elseVal
  | none, _ => by rw [valueElse, valueElse]
  | some e, agree => by rw [valueElse, valueElse, valueOf_agree e agree]

end

/-! ## Evaluation ends -/

theorem integerResult_returns (exact : Int) : (integerResult X exact).Returns := by
  rw [integerResult]
  split <;> trivial

theorem coercePair_returns (left right : LiteralValue) : (coercePair X left right).Returns := by
  cases left <;> cases right <;> trivial

theorem coerceNumericPair_returns (left right : LiteralValue) : (coerceNumericPair X left right).Returns := by
  cases left <;> cases right <;> trivial

theorem coerceToBool_returns (val : LiteralValue) : (coerceToBool X val).Returns := by
  cases val <;> trivial

theorem compareCoerced_returns (left right : LiteralValue) (integers : Int64 → Int64 → Bool)
    (floats : F64 → F64 → Bool) (texts : Text → Text → Bool) :
    (compareCoerced X left right integers floats texts).Returns := by
  rw [compareCoerced]
  split
  · trivial
  · refine (coercePair_returns left right).bind fun pair => ?_
    split <;> trivial

theorem arithmetic_returns (left right : LiteralValue) (integers : Int → Int → Int) (floats : F64 → F64 → F64) :
    (arithmetic X left right integers floats).Returns := by
  refine (coerceNumericPair_returns left right).bind fun pair => ?_
  split
  · exact integerResult_returns _
  all_goals trivial

theorem evalBinaryOp_returns (op : BinaryOperator) (left right : LiteralValue) :
    (evalBinaryOp X op left right).Returns := by
  cases op <;> rw [evalBinaryOp]
  case plus | minus | multiply => exact arithmetic_returns _ _ _ _
  case lt | ltEq | gt | gtEq => exact compareCoerced_returns _ _ _ _ _
  case and | or =>
    exact (coerceToBool_returns left).bind fun _ => (coerceToBool_returns right).bind fun _ => trivial
  case eq | notEq => split <;> trivial
  case concat => trivial
  case divide | modulo =>
    refine (coerceNumericPair_returns left right).bind fun pair => ?_
    repeat' split
    all_goals trivial

theorem evalUnaryOp_returns (op : UnaryOperator) (val : LiteralValue) : (evalUnaryOp X op val).Returns := by
  cases op <;> cases val <;> first | trivial | exact integerResult_returns _

theorem coerceValue_returns (val : LiteralValue) (targetType : SQLType) : (coerceValue X val targetType).Returns := by
  unfold coerceValue
  repeat' first | split | dsimp only
  all_goals trivial

theorem evalLike_returns (val pattern : LiteralValue) (caseInsensitive : Bool) :
    (evalLike X val pattern caseInsensitive).Returns := by
  unfold evalLike
  repeat' first | split | dsimp only
  all_goals trivial

theorem pickBest_returns (op : BinaryOperator) (best : LiteralValue) (vals : List LiteralValue) :
    (pickBest X op best vals).Returns := by
  induction vals generalizing best with
  | nil => trivial
  | cons v rest ih => exact (evalBinaryOp_returns op v best).bind fun _ => ih _

theorem sumIntegers_returns (total : Int64) (vals : List LiteralValue) : (sumIntegers X total vals).Returns := by
  induction vals generalizing total with
  | nil => trivial
  | cons v rest ih =>
    cases v with
    | integer i =>
      refine (integerResult_returns _).bind fun sum => ?_
      cases sum with
      | integer total' => exact ih total'
      | _ => trivial
    | _ => exact ih total

theorem evalFunction_returns (name : Text) (args : List LiteralValue) : (evalFunction X name args).Returns := by
  simp only [evalFunction]
  repeat' split
  all_goals first | trivial | exact sumIntegers_returns _ _ | exact pickBest_returns _ _ _

/-- The columns and calls of a reading end. -/
structure Reading.Returns (reading : Reading) : Prop where
  column : ∀ name, (reading.column name).Returns
  call : ∀ name args o, reading.call name args = some o → o.Returns

mutual

theorem valueOf_returns {reading : Reading} (returns : reading.Returns) : ∀ e : Expr, (valueOf X reading e).Returns
  | .column name => by
      rw [valueOf]
      exact returns.column name
  | .literal _ => by
      rw [valueOf]
      trivial
  | .unaryOp _ expr => by
      rw [valueOf]
      exact (valueOf_returns returns expr).bind fun _ => evalUnaryOp_returns _ _
  | .isNull expr | .isNotNull expr => by
      rw [valueOf]
      exact (valueOf_returns returns expr).bind fun _ => trivial
  | .cast expr _ => by
      rw [valueOf]
      exact (valueOf_returns returns expr).bind fun _ => coerceValue_returns _ _
  | .binaryOp left _ right => by
      rw [valueOf]
      exact (valueOf_returns returns left).bind fun _ =>
        (valueOf_returns returns right).bind fun _ => evalBinaryOp_returns _ _ _
  | .like expr pattern | .iLike expr pattern => by
      rw [valueOf]
      exact (valueOf_returns returns expr).bind fun _ =>
        (valueOf_returns returns pattern).bind fun _ => evalLike_returns _ _ _
  | .function name args => by
      rw [valueOf]
      cases given : reading.call name args with
      | some o => exact returns.call name args o given
      | none => exact (valuesOf_returns returns args).bind fun _ => evalFunction_returns _ _
  | .inList expr list => by
      rw [valueOf]
      exact (valueOf_returns returns expr).bind fun val => valueIn_returns returns list val
  | .between expr low high => by
      rw [valueOf]
      exact (valueOf_returns returns expr).bind fun _ => (valueOf_returns returns low).bind fun _ =>
        (valueOf_returns returns high).bind fun _ => (evalBinaryOp_returns _ _ _).bind fun _ =>
          (evalBinaryOp_returns _ _ _).bind fun _ => trivial
  | .caseWhen whens elseVal => by
      rw [valueOf]
      exact valueCase_returns returns whens (valueElse_returns returns elseVal)

theorem valuesOf_returns {reading : Reading} (returns : reading.Returns) :
    ∀ args : List Expr, (valuesOf X reading args).Returns
  | [] => by
      rw [valuesOf]
      trivial
  | e :: rest => by
      rw [valuesOf]
      exact (valueOf_returns returns e).bind fun _ => (valuesOf_returns returns rest).bind fun _ => trivial

theorem valueIn_returns {reading : Reading} (returns : reading.Returns) :
    ∀ (list : List Expr) (val : LiteralValue), (valueIn X reading val list).Returns
  | [], _ => by
      rw [valueIn]
      trivial
  | e :: rest, val => by
      rw [valueIn]
      refine (valueOf_returns returns e).bind fun _ => ?_
      split
      · trivial
      · exact valueIn_returns returns rest val

theorem valueCase_returns {reading : Reading} (returns : reading.Returns) :
    ∀ (whens : List (Expr × Expr)) {last : Result LiteralValue}, last.Returns →
      (valueCase X reading last whens).Returns
  | [], _, ends => by
      rw [valueCase]
      exact ends
  | (cond, result) :: rest, _, ends => by
      rw [valueCase, valueWhen]
      refine (valueOf_returns returns cond).bind fun _ => ?_
      split
      · exact valueOf_returns returns result
      · exact valueCase_returns returns rest ends

theorem valueElse_returns {reading : Reading} (returns : reading.Returns) :
    ∀ elseVal : Option Expr, (valueElse X reading elseVal).Returns
  | none => by
      rw [valueElse]
      trivial
  | some e => by
      rw [valueElse]
      exact valueOf_returns returns e

end

/-- **An expression ends on every row.** -/
theorem evaluateExpr_returns (values : List (Option LiteralValue)) (e : Expr) :
    (evaluateExpr X values schema e).Returns := by
  rw [← valueOf_row]
  refine valueOf_returns ⟨fun name => ?_, fun _ _ _ given => by cases given⟩ e
  show (evaluateExpr X values schema (.column name)).Returns
  rw [evaluateExpr]
  split
  · trivial
  · split <;> trivial

end NovaRuntime.Sql
