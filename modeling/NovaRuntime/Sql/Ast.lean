/-
# NovaRuntime.Sql.Ast — the syntax trees, schemas and errors of the SQL crate

`ast.rs`, `schema.rs` and `error.rs`. An `i64` is an `Int64` and an `f64` its bits, so
the derived `==` of a literal is the comparison of floats: no NaN equals itself.

The name of a table is an `Identifier`, what the lexer reads as one: ASCII letters,
digits and underscores. `TableRef::alias` is left out, nothing that writes reads it, and
so is the parsed `CHECK` of a column, which no statement looks at. `Statement` here has
the five statements that write; `SELECT` changes no table.

`Extern` holds what the crate calls whose code is outside the repository: Rust's own
arithmetic and text of floats, its lower case, the `Debug` form of a string, and the
packages `regex`, `serde_json` and `dashmap`. `overflowChecks` says how the crate was built.
-/
import NovaRuntime.Library.Json
import NovaRuntime.Library.Outcome
import NovaRuntime.Library.Text

namespace NovaRuntime.Sql

open NovaRuntime.Library

set_option autoImplicit false

/-! ## Values and types -/

inductive LiteralValue where
  | null
  | boolean (b : Bool)
  | integer (i : Int64)
  | float (f : F64)
  | string (s : Text)
  deriving DecidableEq

namespace LiteralValue

/-- The derived `PartialEq`. -/
def eq : LiteralValue → LiteralValue → Bool
  | .null, .null => true
  | .boolean a, .boolean b => a == b
  | .integer a, .integer b => a == b
  | .float a, .float b => a.eq b
  | .string a, .string b => a == b
  | _, _ => false

theorem eq_comm (a b : LiteralValue) : a.eq b = b.eq a := by
  cases a <;> cases b <;> simp only [eq]
  · exact BEq.comm
  · exact BEq.comm
  · exact F64.eq_comm _ _
  · exact BEq.comm

@[simp] theorem eq_null (a : LiteralValue) : a.eq .null = true ↔ a = .null := by
  cases a <;> simp [eq]

end LiteralValue

inductive SQLType where
  | null
  | boolean
  | integer
  | float
  | text
  deriving DecidableEq

def literalType : LiteralValue → SQLType
  | .null => .null
  | .boolean _ => .boolean
  | .integer _ => .integer
  | .float _ => .float
  | .string _ => .text

/-! ## Expressions and statements -/

inductive BinaryOperator where
  | plus | minus | multiply | divide | modulo
  | eq | notEq | lt | ltEq | gt | gtEq
  | and | or | concat
  deriving DecidableEq

inductive UnaryOperator where
  | neg | not
  deriving DecidableEq

inductive Expr where
  | column (name : Text)
  | literal (val : LiteralValue)
  | binaryOp (left : Expr) (op : BinaryOperator) (right : Expr)
  | unaryOp (op : UnaryOperator) (expr : Expr)
  | function (name : Text) (args : List Expr)
  | isNull (expr : Expr)
  | isNotNull (expr : Expr)
  | inList (expr : Expr) (list : List Expr)
  | between (expr low high : Expr)
  | like (expr pattern : Expr)
  | iLike (expr pattern : Expr)
  | caseWhen (whens : List (Expr × Expr)) (elseVal : Option Expr)
  | cast (expr : Expr) (targetType : SQLType)

/-- A character the lexer takes into an identifier. -/
def isIdentChar (c : Char) : Bool := c.isAlphanum || c == '_'

structure Identifier where
  text : Text
  plain : text.all isIdentChar = true
  deriving DecidableEq

/-- An identifier holds no colon. -/
theorem Identifier.colon_not_mem (name : Identifier) : ':' ∉ name.text := by
  intro member
  have plain := List.all_eq_true.mp name.plain ':' member
  revert plain
  decide

structure ColumnDef where
  name : Text
  sqlType : SQLType
  nullable : Bool
  default : Option LiteralValue
  unique : Bool
  isPrimaryKey : Bool
  autoIncrement : Bool
  deriving DecidableEq

structure Assignment where
  column : Text
  value : Expr

structure InsertStatement where
  table : Identifier
  columns : List Text
  values : List (List Expr)

structure UpdateStatement where
  table : Identifier
  assignments : List Assignment
  whereClause : Option Expr

structure DeleteStatement where
  table : Identifier
  whereClause : Option Expr

structure CreateTableStatement where
  table : Identifier
  columns : List ColumnDef

structure DropTableStatement where
  table : Identifier

inductive Statement where
  | insert (ins : InsertStatement)
  | update (upd : UpdateStatement)
  | delete (del : DeleteStatement)
  | createTable (ct : CreateTableStatement)
  | dropTable (dt : DropTableStatement)

/-! ## Schemas -/

structure ColumnInfo where
  name : Text
  sqlType : SQLType
  nullable : Bool
  default : Option LiteralValue
  ordinal : Nat
  unique : Bool
  isPrimaryKey : Bool
  autoIncrement : Bool
  deriving DecidableEq

structure Schema where
  columns : List ColumnInfo
  deriving DecidableEq

namespace Schema

def len (schema : Schema) : Nat := schema.columns.length

def findIndex (schema : Schema) (name : Text) : Option Nat :=
  schema.columns.findIdx? fun c => c.name == name

def findColumn (schema : Schema) (name : Text) : Option ColumnInfo :=
  schema.columns.find? fun c => c.name == name

theorem findIndex_lt {schema : Schema} {name : Text} {idx : Nat}
    (found : schema.findIndex name = some idx) : idx < schema.len :=
  (List.findIdx?_eq_some_iff_getElem.mp found).1

end Schema

/-! ## Errors -/

inductive SQLError where
  | syntaxAt (message : Text) (start stop : Nat)
  | tableNotFound (name : Text)
  | columnNotFound (name : Text)
  | typeMismatch (expected actual : Text)
  | internal (message : Text)
  | constraintViolation (message : Text)
  | queryTooComplex (message : Text)
  deriving DecidableEq

/-- A number in decimal. -/
def decimal (n : Nat) : Text := Nat.toDigits 10 n

namespace SQLError

/-- `SQLError::syntax`. -/
def ofMessage (message : Text) : SQLError := .syntaxAt message 0 0

/-- `Display`, as the `thiserror` attributes give it. -/
def display : SQLError → Text
  | .syntaxAt message start stop => "syntax error at ".toList ++ decimal start ++ ":".toList ++
      decimal stop ++ ": ".toList ++ message
  | .tableNotFound name => "table not found: ".toList ++ name
  | .columnNotFound name => "column not found: ".toList ++ name
  | .typeMismatch expected actual => "type mismatch: expected ".toList ++ expected ++
      ", got ".toList ++ actual
  | .internal message => "internal error: ".toList ++ message
  | .constraintViolation message => "constraint violation: ".toList ++ message
  | .queryTooComplex message => "query too complex: ".toList ++ message

/-- `map_err(|e| SQLError::syntax(e.to_string()))`. -/
def asSyntax (e : SQLError) : SQLError := ofMessage e.display

end SQLError

/-- `nova_sql::error::Result`, with the panics. -/
abbrev Result (α : Type) := Outcome SQLError α

/-! ## What lies outside the repository -/

structure Extern where
  add : F64 → F64 → F64
  sub : F64 → F64 → F64
  mul : F64 → F64 → F64
  div : F64 → F64 → F64
  /-- `Iterator::sum` over `f64`. -/
  sum : List F64 → F64
  /-- `as f64` of an `i64`. -/
  ofInt : Int64 → F64
  /-- `as i64` of an `f64`. -/
  toInt : F64 → Int64
  parseFloat : Text → Option F64
  displayFloat : F64 → Text
  debugFloat : F64 → Text
  debugString : Text → Text
  toLowercase : Text → Text
  /-- `Regex::new(pattern)` and then `is_match(text)`, or the text of the error. -/
  isMatch : Text → Text → Except Text Bool
  overflowChecks : Bool
  /-- The length of a document as `serde_json` writes it. -/
  jsonLen : Json → Nat
  /-- What `serde_json` reads from the digits it wrote for a finite float. -/
  jsonFloat : F64 → F64
  /-- The order in which a `DashMap` gives its keys. -/
  hashOrder : List Text → List Text

/-- A `DashMap` gives every key once. -/
structure Extern.Laws (X : Extern) : Prop where
  hashOrder_perm : ∀ names, (X.hashOrder names).Perm names

/-- For runs without floats and `LIKE`, on ASCII texts. -/
def Extern.ascii : Extern where
  add a _ := a
  sub a _ := a
  mul a _ := a
  div a _ := a
  sum _ := .zero
  ofInt _ := .zero
  toInt _ := 0
  parseFloat _ := none
  displayFloat _ := []
  debugFloat _ := []
  debugString s := Json.quoted s
  toLowercase s := s.map Char.toLower
  isMatch _ _ := .error []
  overflowChecks := true
  jsonLen j := (utf8 (j.text fun _ => [])).length
  jsonFloat f := f
  hashOrder names := names

theorem Extern.ascii_laws : Extern.ascii.Laws := ⟨fun names => .refl names⟩

end NovaRuntime.Sql
