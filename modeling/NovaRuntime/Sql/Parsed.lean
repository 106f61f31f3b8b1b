/-
# NovaRuntime.Sql.Parsed — what the parser makes of a query, and the `Debug` of it

The statements of `ast.rs` with all their fields. `Sql.Plan` and `Sql.Ast` leave out what no
executor reads: the aliases of tables and the parsed `CHECK` of a column. An `EXISTS` keeps its
subquery as the text that the derived `Debug` writes, so all of it is here.
-/
import NovaRuntime.Sql.Lexer
import NovaRuntime.Sql.Plan
import NovaRuntime.Sql.Evaluate

namespace NovaRuntime.Sql

open NovaRuntime.Library

set_option autoImplicit false

/-! ## Statements -/

structure TableRef where
  name : Text
  tableAlias : Option Text

/-- The expression of an item of a SELECT list. -/
def SelectItem.exprs : SelectItem → List Expr
  | .expr e _ => [e]
  | .wildcard => []

namespace Parsed

structure Join where
  right : TableRef
  on : Option Expr

structure SelectStatement where
  distinct : Bool
  selectList : List SelectItem
  fromTable : TableRef
  joins : List Join
  whereClause : Option Expr
  groupBy : List Expr
  having : Option Expr
  orderBy : List OrderByExpr
  limit : Option Nat
  offset : Option Nat

structure InsertStatement where
  table : TableRef
  columns : List Text
  values : List (List Expr)

structure UpdateStatement where
  table : TableRef
  assignments : List Assignment
  whereClause : Option Expr

structure DeleteStatement where
  table : TableRef
  whereClause : Option Expr

structure ColumnDef where
  name : Text
  sqlType : SQLType
  nullable : Bool
  default : Option LiteralValue
  unique : Bool
  isPrimaryKey : Bool
  autoIncrement : Bool
  checkExpr : Option Expr

structure CreateTableStatement where
  table : TableRef
  columns : List ColumnDef

structure DropTableStatement where
  table : TableRef

inductive Statement where
  | select (sel : SelectStatement)
  | insert (ins : InsertStatement)
  | update (upd : UpdateStatement)
  | delete (del : DeleteStatement)
  | createTable (ct : CreateTableStatement)
  | dropTable (dt : DropTableStatement)

/-! ### The expressions of a statement -/

def SelectStatement.exprs (sel : SelectStatement) : List Expr :=
  sel.selectList.flatMap SelectItem.exprs ++ sel.joins.flatMap (fun j => j.on.toList) ++
    sel.whereClause.toList ++ sel.groupBy ++ sel.having.toList ++ sel.orderBy.map OrderByExpr.expr

/-- Every expression a statement is made with. -/
def Statement.exprs : Statement → List Expr
  | .select sel => sel.exprs
  | .insert ins => ins.values.flatten
  | .update upd => upd.assignments.map Assignment.value ++ upd.whereClause.toList
  | .delete del => del.whereClause.toList
  | .createTable ct => ct.columns.flatMap fun c => c.checkExpr.toList
  | .dropTable _ => []

end Parsed

/-! ## The derived `Debug` -/

/-- Texts with a comma between them. -/
def commas (items : List Text) : Text := (items.intersperse ", ".toList).flatten

def debugTuple (name : Text) (items : List Text) : Text := name ++ "(".toList ++ commas items ++ ")".toList

def debugVec (items : List Text) : Text := "[".toList ++ commas items ++ "]".toList

def debugFields (name : Text) (fields : List (Text × Text)) : Text :=
  name ++ " \x7b ".toList ++ commas (fields.map fun (field, value) => field ++ ": ".toList ++ value) ++
    " \x7d".toList

def debugOption : Option Text → Text
  | none => "None".toList
  | some value => debugTuple "Some".toList [value]

def debugBool (b : Bool) : Text := (if b then "true" else "false").toList

def BinaryOperator.debug : BinaryOperator → Text
  | .plus => "Plus".toList
  | .minus => "Minus".toList
  | .multiply => "Multiply".toList
  | .divide => "Divide".toList
  | .modulo => "Modulo".toList
  | .eq => "Eq".toList
  | .notEq => "NotEq".toList
  | .lt => "Lt".toList
  | .ltEq => "LtEq".toList
  | .gt => "Gt".toList
  | .gtEq => "GtEq".toList
  | .and => "And".toList
  | .or => "Or".toList
  | .concat => "Concat".toList

def UnaryOperator.debug : UnaryOperator → Text
  | .neg => "Neg".toList
  | .not => "Not".toList

section Debug

variable (X : Extern)

mutual

def Expr.debug : Expr → Text
  | .column name => debugTuple "Column".toList [X.debugString name]
  | .literal val => debugTuple "Literal".toList [val.debug X]
  | .binaryOp left op right => debugFields "BinaryOp".toList
      [("left".toList, left.debug), ("op".toList, op.debug), ("right".toList, right.debug)]
  | .unaryOp op expr => debugFields "UnaryOp".toList [("op".toList, op.debug), ("expr".toList, expr.debug)]
  | .function name args => debugFields "Function".toList
      [("name".toList, X.debugString name), ("args".toList, debugVec (debugAll args))]
  | .isNull expr => debugTuple "IsNull".toList [expr.debug]
  | .isNotNull expr => debugTuple "IsNotNull".toList [expr.debug]
  | .inList expr list => debugFields "In".toList
      [("expr".toList, expr.debug), ("list".toList, debugVec (debugAll list))]
  | .between expr low high => debugFields "Between".toList
      [("expr".toList, expr.debug), ("low".toList, low.debug), ("high".toList, high.debug)]
  | .like expr pattern => debugFields "Like".toList
      [("expr".toList, expr.debug), ("pattern".toList, pattern.debug)]
  | .iLike expr pattern => debugFields "ILike".toList
      [("expr".toList, expr.debug), ("pattern".toList, pattern.debug)]
  | .caseWhen whens elseVal => debugFields "Case".toList
      [("whens".toList, debugVec (debugWhens whens)), ("else_val".toList, debugOption (debugElse elseVal))]
  | .cast expr targetType => debugFields "Cast".toList
      [("expr".toList, expr.debug), ("target_type".toList, targetType.debug)]

def debugAll : List Expr → List Text
  | [] => []
  | e :: rest => e.debug :: debugAll rest

def debugWhen : Expr × Expr → Text
  | (cond, result) => debugTuple [] [cond.debug, result.debug]

def debugWhens : List (Expr × Expr) → List Text
  | [] => []
  | w :: rest => debugWhen w :: debugWhens rest

def debugElse : Option Expr → Option Text
  | some e => some e.debug
  | none => none

end

def SelectItem.debug : SelectItem → Text
  | .expr e columnAlias => debugFields "Expr".toList
      [("expr".toList, e.debug X), ("alias".toList, debugOption (columnAlias.map X.debugString))]
  | .wildcard => "Wildcard".toList

def TableRef.debug (t : TableRef) : Text := debugFields "TableRef".toList
  [("name".toList, X.debugString t.name), ("alias".toList, debugOption (t.tableAlias.map X.debugString))]

def Parsed.Join.debug (j : Parsed.Join) : Text := debugFields "Join".toList
  [("right".toList, j.right.debug X), ("on".toList, debugOption (j.on.map (Expr.debug X)))]

def OrderByExpr.debug (o : OrderByExpr) : Text := debugFields "OrderByExpr".toList
  [("expr".toList, o.expr.debug X), ("asc".toList, debugBool o.asc),
    ("nulls_first".toList, debugOption (o.nullsFirst.map debugBool))]

def Parsed.SelectStatement.debug (sel : Parsed.SelectStatement) : Text :=
  debugFields "SelectStatement".toList
    [("distinct".toList, debugBool sel.distinct),
      ("select_list".toList, debugVec (sel.selectList.map (SelectItem.debug X))),
      ("from".toList, sel.fromTable.debug X),
      ("joins".toList, debugVec (sel.joins.map (Parsed.Join.debug X))),
      ("where_clause".toList, debugOption (sel.whereClause.map (Expr.debug X))),
      ("group_by".toList, debugVec (sel.groupBy.map (Expr.debug X))),
      ("having".toList, debugOption (sel.having.map (Expr.debug X))),
      ("order_by".toList, debugVec (sel.orderBy.map (OrderByExpr.debug X))),
      ("limit".toList, debugOption (sel.limit.map decimal)),
      ("offset".toList, debugOption (sel.offset.map decimal))]

/-- A keyword is the name of its variant. -/
def Keyword.debug : Keyword → Text
  | .iLike => "ILike".toList
  | k => k.word.modifyHead Char.toUpper

def Symbol.debug : Symbol → Text
  | .plus => "Plus".toList
  | .minus => "Minus".toList
  | .star => "Star".toList
  | .slash => "Slash".toList
  | .percent => "Percent".toList
  | .eq => "Eq".toList
  | .notEq => "NotEq".toList
  | .lt => "Lt".toList
  | .ltEq => "LtEq".toList
  | .gt => "Gt".toList
  | .gtEq => "GtEq".toList
  | .concat => "Concat".toList
  | .colonColon => "ColonColon".toList
  | .lParen => "LParen".toList
  | .rParen => "RParen".toList
  | .comma => "Comma".toList
  | .semicolon => "Semicolon".toList
  | .dot => "Dot".toList

def Token.debug : Token → Text
  | .keyword k => k.debug
  | .identifier name => debugTuple "Identifier".toList [X.debugString name]
  | .number digits => debugTuple "Number".toList [X.debugString digits]
  | .string s => debugTuple "String".toList [X.debugString s]
  | .symbol s => s.debug
  | .eof => "EOF".toList

end Debug

end NovaRuntime.Sql
