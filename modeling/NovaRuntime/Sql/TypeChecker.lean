/-
# NovaRuntime.Sql.TypeChecker — `TypeChecker::check_types`

The static types of expressions, as `type_checker.rs` gives them. `check_types` goes
down an expression and fails at the first part that does not fit; it never looks at
the operand of `IS NULL`, at the conditions of a `CASE`, at the arguments of `COUNT`
or of a function it does not know, or past the first argument of the others.
-/
import NovaRuntime.Sql.Evaluate

namespace NovaRuntime.Sql

open NovaRuntime.Library

set_option autoImplicit false

/-! ## Operators -/

/-- `NULL` goes with every type, and an integer with a float. -/
def unifyTypes (a b : SQLType) : Result SQLType :=
  if a = .null then .ok b
  else if b = .null then .ok a
  else if a = b then .ok a
  else match a, b with
    | .integer, .float => .ok .float
    | .float, .integer => .ok .float
    | a, b => .err (.typeMismatch a.debug b.debug)

def checkBinaryOp (op : BinaryOperator) (left right : SQLType) : Result SQLType :=
  match op with
  | .and | .or =>
    if left ≠ .boolean then .err (.typeMismatch "BOOLEAN".toList left.debug)
    else if right ≠ .boolean then .err (.typeMismatch "BOOLEAN".toList right.debug)
    else .ok .boolean
  -- The type of an equality is the one its operands share, not BOOLEAN.
  | .eq | .notEq => unifyTypes left right
  | .lt | .ltEq | .gt | .gtEq | .concat => do
      let unified ← unifyTypes left right
      match unified with
      | .null | .boolean => pure .boolean
      | .integer | .float => pure .boolean
      | .text => if op = .concat then pure .text else pure .boolean
  | .plus | .minus | .multiply | .divide | .modulo => do
      let unified ← unifyTypes left right
      match unified with
      | .null => pure .null
      | .integer => pure .integer
      | .float => pure .float
      | .text => pure .text
      | .boolean => .err (.typeMismatch "numeric".toList "BOOLEAN".toList)

def checkUnaryOp (op : UnaryOperator) (inner : SQLType) : Result SQLType :=
  match op, inner with
  | .neg, .integer | .neg, .float | .neg, .null => .ok inner
  | .neg, other => .err (.typeMismatch "numeric".toList other.debug)
  | .not, .boolean | .not, .null => .ok .boolean
  | .not, other => .err (.typeMismatch "BOOLEAN".toList other.debug)

/-- `first` is what the check of the first argument gives, where there is one. -/
def checkFunction (X : Extern) (name : Text) (first : Option (Result SQLType)) : Result SQLType :=
  let lower := X.toLowercase name
  let missing : Result SQLType :=
    .err (.ofMessage (name ++ " requires at least one argument".toList))
  if lower = "count".toList then .ok .integer
  else if lower = "sum".toList ∨ lower = "avg".toList then
    first.elim missing fun checked => checked >>= fun argType =>
      if argType = .integer ∨ argType = .float then
        if lower = "avg".toList then pure .float else pure argType
      else .err (.typeMismatch "numeric".toList argType.debug)
  else if lower = "min".toList ∨ lower = "max".toList then first.elim missing id
  else .ok .null

/-! ## Expressions -/

mutual

def checkTypes (X : Extern) (schema : Schema) : Expr → Result SQLType
  | .column name =>
    match schema.findColumn name with
    | none => .err (.columnNotFound name)
    | some col => .ok col.sqlType
  | .literal val => .ok (literalType val)
  | .binaryOp left op right => do
      let leftType ← checkTypes X schema left
      let rightType ← checkTypes X schema right
      checkBinaryOp op leftType rightType
  | .unaryOp op expr => do
      let inner ← checkTypes X schema expr
      checkUnaryOp op inner
  | .function name args => checkFunction X name (checkFirst X schema args)
  | .isNull _ => .ok .boolean
  | .isNotNull _ => .ok .boolean
  | .inList expr list => do
      let exprType ← checkTypes X schema expr
      checkItems X schema exprType list
  | .between expr low high => do
      let et ← checkTypes X schema expr
      let lt ← checkTypes X schema low
      let ht ← checkTypes X schema high
      let _ ← unifyTypes et lt
      let _ ← unifyTypes et ht
      pure .boolean
  | .like expr pattern => do
      let _ ← checkTypes X schema expr
      let _ ← checkTypes X schema pattern
      pure .boolean
  | .iLike expr pattern => do
      let _ ← checkTypes X schema expr
      let _ ← checkTypes X schema pattern
      pure .boolean
  | .caseWhen whens elseVal => do
      let resultType ← checkWhens X schema .null whens
      checkElse X schema resultType elseVal
  | .cast expr targetType => do
      let _ ← checkTypes X schema expr
      pure targetType

def checkFirst (X : Extern) (schema : Schema) : List Expr → Option (Result SQLType)
  | [] => none
  | arg :: _ => some (checkTypes X schema arg)

/-- The loop of `Expr::In`. -/
def checkItems (X : Extern) (schema : Schema) (exprType : SQLType) : List Expr → Result SQLType
  | [] => .ok .boolean
  | item :: rest => do
      let itemType ← checkTypes X schema item
      let _ ← unifyTypes exprType itemType
      checkItems X schema exprType rest

/-- The loop of `Expr::Case`, over the type found so far. -/
def checkWhens (X : Extern) (schema : Schema) (resultType : SQLType) :
    List (Expr × Expr) → Result SQLType
  | [] => .ok resultType
  | w :: rest => do
      let rt ← checkResult X schema w
      let unified ← unifyTypes resultType rt
      checkWhens X schema unified rest

def checkResult (X : Extern) (schema : Schema) : Expr × Expr → Result SQLType
  | (_, result) => checkTypes X schema result

def checkElse (X : Extern) (schema : Schema) (resultType : SQLType) :
    Option Expr → Result SQLType
  | some e => do
      let rt ← checkTypes X schema e
      unifyTypes resultType rt
  | none => .ok resultType

end

/-! ## What unifies -/

@[simp] theorem unifyTypes_null_right (a : SQLType) : unifyTypes a .null = .ok a := by
  cases a <;> rfl

@[simp] theorem unifyTypes_self (a : SQLType) : unifyTypes a a = .ok a := by
  cases a <;> rfl

end NovaRuntime.Sql
