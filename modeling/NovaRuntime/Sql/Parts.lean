/-
# NovaRuntime.Sql.Parts — the expressions an expression is made of

What is said of an expression and of all that is below it is said of `parts`. `below` leaves the
expression itself out.
-/
import NovaRuntime.Sql.Evaluate

namespace NovaRuntime.Sql

set_option autoImplicit false

mutual

/-- An expression and everything below it. -/
def parts : Expr → List Expr
  | .column name => [.column name]
  | .literal val => [.literal val]
  | .binaryOp left op right => .binaryOp left op right :: (parts left ++ parts right)
  | .unaryOp op expr => .unaryOp op expr :: parts expr
  | .function name args => .function name args :: partsAll args
  | .isNull expr => .isNull expr :: parts expr
  | .isNotNull expr => .isNotNull expr :: parts expr
  | .inList expr list => .inList expr list :: (parts expr ++ partsAll list)
  | .between expr low high => .between expr low high :: (parts expr ++ (parts low ++ parts high))
  | .like expr pattern => .like expr pattern :: (parts expr ++ parts pattern)
  | .iLike expr pattern => .iLike expr pattern :: (parts expr ++ parts pattern)
  | .caseWhen whens elseVal => .caseWhen whens elseVal :: (partsWhens whens ++ partsElse elseVal)
  | .cast expr targetType => .cast expr targetType :: parts expr

def partsAll : List Expr → List Expr
  | [] => []
  | e :: rest => parts e ++ partsAll rest

def partsWhen : Expr × Expr → List Expr
  | (cond, result) => parts cond ++ parts result

def partsWhens : List (Expr × Expr) → List Expr
  | [] => []
  | w :: rest => partsWhen w ++ partsWhens rest

def partsElse : Option Expr → List Expr
  | some e => parts e
  | none => []

end

theorem self_mem_parts (e : Expr) : e ∈ parts e := by
  cases e <;> simp [parts]

/-- The parts of an expression but itself. -/
def below (e : Expr) : List Expr := (parts e).tail

theorem parts_eq (e : Expr) : parts e = e :: below e := by
  cases e <;> rfl

end NovaRuntime.Sql
