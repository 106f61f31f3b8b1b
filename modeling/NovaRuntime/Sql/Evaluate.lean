/-
# NovaRuntime.Sql.Evaluate — `evaluate_expr` and `TypeChecker::coerce_value`

The evaluator of `execute/mod.rs` on one row, and the coercion an INSERT, an UPDATE
and a CAST make. Errors carry the texts of the source. Integer arithmetic that leaves
the `i64` range panics or wraps as the crate was built; a division that leaves it
always panics.
-/
import NovaRuntime.Sql.Ast

namespace NovaRuntime.Sql

open NovaRuntime.Library

set_option autoImplicit false

/-! ## Texts -/

def LiteralValue.debug (X : Extern) : LiteralValue → Text
  | .null => "Null".toList
  | .boolean b => "Boolean(".toList ++ (if b then "true" else "false").toList ++ ")".toList
  | .integer i => "Integer(".toList ++ (toString i).toList ++ ")".toList
  | .float f => "Float(".toList ++ X.debugFloat f ++ ")".toList
  | .string s => "String(".toList ++ X.debugString s ++ ")".toList

def SQLType.debug : SQLType → Text
  | .null => "Null".toList
  | .boolean => "Boolean".toList
  | .integer => "Integer".toList
  | .float => "Float".toList
  | .text => "Text".toList

def valueToString (X : Extern) : LiteralValue → Text
  | .null => "NULL".toList
  | .boolean b => (if b then "true" else "false").toList
  | .integer i => (toString i).toList
  | .float f => X.displayFloat f
  | .string s => s

/-! ## Coercions -/

/-- `str::parse::<i64>`: an optional sign and digits, in range. -/
def parseInt (s : Text) : Option Int64 :=
  let number (negative : Bool) (digits : Text) : Option Int64 :=
    if digits.isEmpty || ! digits.all Char.isDigit then none
    else
      let magnitude := Nat.ofDigitChars 10 digits 0
      let value : Int := if negative then -magnitude else magnitude
      if -2 ^ 63 ≤ value ∧ value < 2 ^ 63 then some (.ofInt value) else none
  match s with
  | '-' :: digits => number true digits
  | '+' :: digits => number false digits
  | digits => number false digits

def coerceToBool (X : Extern) : LiteralValue → Result Bool
  | .boolean b => .ok b
  | .null => .ok false
  | val => .err (.typeMismatch "BOOLEAN".toList (val.debug X))

def coercePair (X : Extern) : LiteralValue → LiteralValue → Result (LiteralValue × LiteralValue)
  | .integer a, .integer b => .ok (.integer a, .integer b)
  | .float a, .float b => .ok (.float a, .float b)
  | .string a, .string b => .ok (.string a, .string b)
  | .integer i, .float f => .ok (.float (X.ofInt i), .float f)
  | .float f, .integer i => .ok (.float f, .float (X.ofInt i))
  | .integer i, .string s => .ok (.integer i, .string s)
  | .string s, .integer i => .ok (.string s, .integer i)
  | left, right => .err (.typeMismatch "matching types".toList
      (left.debug X ++ " vs ".toList ++ right.debug X))

def coerceNumericPair (X : Extern) :
    LiteralValue → LiteralValue → Result (LiteralValue × LiteralValue)
  | .integer a, .integer b => .ok (.integer a, .integer b)
  | .integer i, .float f => .ok (.float (X.ofInt i), .float f)
  | .float f, .integer i => .ok (.float f, .float (X.ofInt i))
  | .float a, .float b => .ok (.float a, .float b)
  | left, right => .err (.typeMismatch "numeric".toList
      (left.debug X ++ " vs ".toList ++ right.debug X))

/-- `TypeChecker::coerce_value`. -/
def coerceValue (X : Extern) (val : LiteralValue) (target : SQLType) : Result LiteralValue :=
  if val = .null then .ok .null
  else if literalType val = target then .ok val
  else match val, target with
    | .integer i, .float => .ok (.float (X.ofInt i))
    | .float f, .integer => .ok (.integer (X.toInt f))
    | .string s, .integer =>
      match parseInt s with
      | some i => .ok (.integer i)
      | none => .err (.typeMismatch "INTEGER".toList ("string: ".toList ++ s))
    | .string s, .float =>
      match X.parseFloat s with
      | some f => .ok (.float f)
      | none => .err (.typeMismatch "FLOAT".toList ("string: ".toList ++ s))
    | .integer i, .text => .ok (.string (toString i).toList)
    | .float f, .text => .ok (.string (X.displayFloat f))
    | .boolean b, .text => .ok (.string (if b then "true" else "false").toList)
    | .string s, .boolean =>
      let lower := X.toLowercase s
      if lower ∈ ["true".toList, "1".toList, "yes".toList] then .ok (.boolean true)
      else if lower ∈ ["false".toList, "0".toList, "no".toList] then .ok (.boolean false)
      else .err (.typeMismatch "BOOLEAN".toList ("string: ".toList ++ s))
    | .integer i, .boolean => .ok (.boolean (i != 0))
    | _, _ => .err (.typeMismatch target.debug (literalType val).debug)

/-! ## Operators -/

/-- An integer result, where it leaves the range of an `i64` as the build has it. -/
def integerResult (X : Extern) (exact : Int) : Result LiteralValue :=
  if X.overflowChecks ∧ ¬ (-2 ^ 63 ≤ exact ∧ exact < 2 ^ 63) then .panic
  else .ok (.integer (.ofInt exact))

def divisionByZero : SQLError := .internal "division by zero".toList

/-- The comparisons `<`, `<=`, `>` and `>=`, on operands `coerce_pair` made alike. -/
def compareCoerced (X : Extern) (left right : LiteralValue) (integers : Int64 → Int64 → Bool)
    (floats : F64 → F64 → Bool) (texts : Text → Text → Bool) : Result LiteralValue :=
  if left = .null ∨ right = .null then .ok .null
  else coercePair X left right >>= fun
    | (.integer a, .integer b) => .ok (.boolean (integers a b))
    | (.float a, .float b) => .ok (.boolean (floats a b))
    | (.string a, .string b) => .ok (.boolean (texts a b))
    | _ => .err (.typeMismatch "comparable types".toList
        (left.debug X ++ " vs ".toList ++ right.debug X))

/-- `+`, `-` and `*`, on operands `coerce_numeric_pair` made alike. -/
def arithmetic (X : Extern) (left right : LiteralValue) (integers : Int → Int → Int)
    (floats : F64 → F64 → F64) : Result LiteralValue :=
  coerceNumericPair X left right >>= fun
    | (.integer a, .integer b) => integerResult X (integers a.toInt b.toInt)
    | (.float a, .float b) => .ok (.float (floats a b))
    | _ => .ok .null

/-- Strings compare by their bytes, which is the order of their characters. -/
def textLt (a b : Text) : Bool := decide (a < b)

def evalBinaryOp (X : Extern) (op : BinaryOperator) (left right : LiteralValue) :
    Result LiteralValue :=
  match op with
  | .and => do
      let l ← coerceToBool X left
      let r ← coerceToBool X right
      pure (.boolean (l && r))
  | .or => do
      let l ← coerceToBool X left
      let r ← coerceToBool X right
      pure (.boolean (l || r))
  | .eq => if left = .null ∨ right = .null then .ok .null else .ok (.boolean (left.eq right))
  | .notEq => if left = .null ∨ right = .null then .ok .null else .ok (.boolean (! left.eq right))
  | .lt => compareCoerced X left right (fun a b => a < b) F64.lt textLt
  | .ltEq => compareCoerced X left right (fun a b => a ≤ b) F64.le (fun a b => ! textLt b a)
  | .gt => compareCoerced X left right (fun a b => b < a) (fun a b => b.lt a) (fun a b => textLt b a)
  | .gtEq => compareCoerced X left right (fun a b => b ≤ a) (fun a b => b.le a)
      (fun a b => ! textLt a b)
  | .plus => arithmetic X left right (· + ·) X.add
  | .minus => arithmetic X left right (· - ·) X.sub
  | .multiply => arithmetic X left right (· * ·) X.mul
  | .divide => coerceNumericPair X left right >>= fun
      | (.integer a, .integer b) =>
        if b = 0 then .err divisionByZero
        else if a = Int64.minValue ∧ b = -1 then .panic
        else .ok (.integer (a / b))
      | (.float a, .float b) =>
        if b.eq .zero then .err divisionByZero else .ok (.float (X.div a b))
      | _ => .ok .null
  | .modulo => coerceNumericPair X left right >>= fun
      | (.integer a, .integer b) =>
        if b = 0 then .err divisionByZero
        else if a = Int64.minValue ∧ b = -1 then .panic
        else .ok (.integer (a % b))
      | _ => .ok .null
  | .concat => .ok (.string (valueToString X left ++ valueToString X right))

def evalUnaryOp (X : Extern) (op : UnaryOperator) (val : LiteralValue) : Result LiteralValue :=
  match op, val with
  | .neg, .integer i => integerResult X (-i.toInt)
  | .neg, .float f => .ok (.float f.neg)
  | .not, .boolean b => .ok (.boolean (! b))
  | _, .null => .ok .null
  | .neg, val => .err (.typeMismatch "numeric".toList (val.debug X))
  | .not, val => .err (.typeMismatch "BOOLEAN".toList (val.debug X))

/-! ## LIKE -/

def patToRegexChars : Text → Text
  | [] => []
  | '%' :: rest => '.' :: '*' :: patToRegexChars rest
  | '_' :: rest => '.' :: patToRegexChars rest
  | '\\' :: '%' :: rest => '%' :: patToRegexChars rest
  | '\\' :: '_' :: rest => '_' :: patToRegexChars rest
  | '\\' :: c :: rest =>
    if c = '\\' then '\\' :: '\\' :: patToRegexChars rest
    else '\\' :: '\\' :: c :: patToRegexChars rest
  | ['\\'] => ['\\', '\\']
  | c :: rest =>
    if c ∈ ".+*?^$()[]\x7b\x7d|".toList then '\\' :: c :: patToRegexChars rest
    else c :: patToRegexChars rest

def patToRegex (pat : Text) : Text := "^(?s)".toList ++ patToRegexChars pat ++ ['$']

def evalLike (X : Extern) (val pattern : LiteralValue) (caseInsensitive : Bool) :
    Result LiteralValue :=
  let folded (s : Text) : Text := if caseInsensitive then X.toLowercase s else s
  match val, pattern with
  | .null, _ => .ok .null
  | .string _, .null => .ok .null
  | .string s, .string p =>
    match X.isMatch (patToRegex (folded p)) (folded s) with
    | .ok matched => .ok (.boolean matched)
    | .error e => .err (.internal ("invalid LIKE pattern: ".toList ++ e))
  | _, _ => .ok (.boolean false)

/-! ## Functions -/

def sumIntegers (X : Extern) : Int64 → List LiteralValue → Result LiteralValue
  | total, [] => .ok (.integer total)
  | total, .integer i :: rest =>
    integerResult X (total.toInt + i.toInt) >>= fun
      | .integer total' => sumIntegers X total' rest
      | _ => .panic
  | total, _ :: rest => sumIntegers X total rest

/-- The running best of `min` and `max`. -/
def pickBest (X : Extern) (op : BinaryOperator) :
    LiteralValue → List LiteralValue → Result LiteralValue
  | best, [] => .ok best
  | best, v :: rest => do
      let better ← evalBinaryOp X op v best
      pickBest X op (if better = .boolean true then v else best) rest

def evalFunction (X : Extern) (name : Text) (args : List LiteralValue) : Result LiteralValue :=
  let lower := X.toLowercase name
  let nonNull := args.filter fun a => decide (a ≠ .null)
  if lower = "count".toList then .ok (.integer (.ofNat nonNull.length))
  else if lower = "sum".toList then sumIntegers X 0 args
  else if lower = "avg".toList then
    let nums := args.filterMap fun
      | .integer i => some (X.ofInt i)
      | .float f => some f
      | _ => none
    if nums.isEmpty then .ok .null
    else .ok (.float (X.div (X.sum nums) (X.ofInt (.ofNat nums.length))))
  else if lower = "min".toList then
    match nonNull with
    | [] => .ok .null
    | first :: rest => pickBest X .lt first rest
  else if lower = "max".toList then
    match nonNull with
    | [] => .ok .null
    | first :: rest => pickBest X .gt first rest
  else .ok .null

/-! ## Expressions -/

mutual

def evaluateExpr (X : Extern) (row : List (Option LiteralValue)) (schema : Schema) :
    Expr → Result LiteralValue
  | .column name =>
    match schema.findIndex name with
    | none => .err (.columnNotFound name)
    | some idx =>
      match row[idx]? with
      | none => .panic
      | some val => .ok (val.getD .null)
  | .literal val => .ok val
  | .binaryOp left op right => do
      let leftVal ← evaluateExpr X row schema left
      let rightVal ← evaluateExpr X row schema right
      evalBinaryOp X op leftVal rightVal
  | .unaryOp op expr => do
      let val ← evaluateExpr X row schema expr
      evalUnaryOp X op val
  | .function name args => do
      let argVals ← evaluateAll X row schema args
      evalFunction X name argVals
  | .isNull expr => do
      let val ← evaluateExpr X row schema expr
      pure (.boolean (decide (val = .null)))
  | .isNotNull expr => do
      let val ← evaluateExpr X row schema expr
      pure (.boolean (decide (val ≠ .null)))
  | .inList expr list => do
      let val ← evaluateExpr X row schema expr
      evaluateIn X row schema val list
  | .between expr low high => do
      let val ← evaluateExpr X row schema expr
      let lowVal ← evaluateExpr X row schema low
      let highVal ← evaluateExpr X row schema high
      let ge ← evalBinaryOp X .gtEq val lowVal
      let le ← evalBinaryOp X .ltEq val highVal
      pure (.boolean (decide (ge = .boolean true) && decide (le = .boolean true)))
  | .like expr pattern => do
      let val ← evaluateExpr X row schema expr
      let pat ← evaluateExpr X row schema pattern
      evalLike X val pat false
  | .iLike expr pattern => do
      let val ← evaluateExpr X row schema expr
      let pat ← evaluateExpr X row schema pattern
      evalLike X val pat true
  | .caseWhen whens elseVal =>
    evaluateCase X row schema (evaluateElse X row schema elseVal) whens
  | .cast expr targetType => do
      let val ← evaluateExpr X row schema expr
      coerceValue X val targetType

/-- The arguments of a function, up to the first that fails. -/
def evaluateAll (X : Extern) (row : List (Option LiteralValue)) (schema : Schema) :
    List Expr → Result (List LiteralValue)
  | [] => .ok []
  | e :: rest => do
      let val ← evaluateExpr X row schema e
      let vals ← evaluateAll X row schema rest
      pure (val :: vals)

/-- The loop of `Expr::In`: no item after the first that matches is evaluated. -/
def evaluateIn (X : Extern) (row : List (Option LiteralValue)) (schema : Schema)
    (val : LiteralValue) : List Expr → Result LiteralValue
  | [] => .ok (.boolean false)
  | item :: rest => do
      let itemVal ← evaluateExpr X row schema item
      if val.eq itemVal then pure (.boolean true) else evaluateIn X row schema val rest

/-- One `WHEN`: its result, or what the later ones give. -/
def evaluateWhen (X : Extern) (row : List (Option LiteralValue)) (schema : Schema)
    (later : Result LiteralValue) : Expr × Expr → Result LiteralValue
  | (cond, result) => do
      let condVal ← evaluateExpr X row schema cond
      if condVal = .boolean true then evaluateExpr X row schema result else later

/-- The loop of `Expr::Case`. -/
def evaluateCase (X : Extern) (row : List (Option LiteralValue)) (schema : Schema)
    (other : Result LiteralValue) : List (Expr × Expr) → Result LiteralValue
  | [] => other
  | w :: rest => evaluateWhen X row schema (evaluateCase X row schema other rest) w

def evaluateElse (X : Extern) (row : List (Option LiteralValue)) (schema : Schema) :
    Option Expr → Result LiteralValue
  | some e => evaluateExpr X row schema e
  | none => .ok .null

end

end NovaRuntime.Sql
