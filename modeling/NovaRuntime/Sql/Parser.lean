/-
# NovaRuntime.Sql.Parser — `Parser` of `parser.rs`

The parser goes through its tokens once and gives none back, but for the places where it looks one
word ahead. So what it keeps as a list of tokens, a list of positions and an index is here the list
of the tokens that are left, each with its position; `depth` is the counter of `parse_expression`.

The functions of the parser call one another. `Calls` holds one of each, and each function is
written over the `Calls` it makes. `calls stack` is the functions with `stack` calls left: one more
call, with none left, is the overflow of the stack, from which the process does not return
(`.hang`). A loop takes a token in every turn, so it has as many turns as there are tokens left.
-/
import NovaRuntime.Sql.Parsed

namespace NovaRuntime.Sql

open NovaRuntime.Library

set_option autoImplicit false

def maxNestingDepth : Nat := 64

structure Parser where
  rest : List Placed
  depth : Nat

namespace Parser

/-- `Parser::new`. A token without a position has that of none. -/
def new (tokens : List Token) (positions : List (Nat × Nat)) : Parser where
  rest := tokens.mapIdx fun i t => (t, (positions[i]?).getD (0, 0))
  depth := 0

/-- `peek`. -/
def token (s : Parser) : Token :=
  match s.rest with
  | (t, _) :: _ => t
  | [] => .eof

/-- The position an error carries. -/
def span (s : Parser) : Nat × Nat :=
  match s.rest with
  | (_, span) :: _ => span
  | [] => (0, 0)

abbrev Method (α : Type) := Exec SQLError Parser α

/-! ## The tokens -/

def peek : Method Token := fun s => (.ok s.token, s)

def advance : Method Unit := Exec.modify fun s => { s with rest := s.rest.drop 1 }

def errSyntax {α : Type} (message : Text) : Method α := fun s =>
  (.err (.syntaxAt message s.span.1 s.span.2), s)

def eatIf (expected : Token) : Method Bool := do
  if (← peek) = expected then
    advance
    pure true
  else pure false

section Functions

variable (X : Extern)

def expect (expected : Token) : Method Unit := do
  let actual ← peek
  if actual = expected then advance
  else errSyntax ("expected ".toList ++ expected.debug X ++ ", got ".toList ++ actual.debug X)

def parseIdentifier : Method Text := do
  match ← peek with
  | .identifier name => do
      advance
      pure name
  | t => errSyntax ("expected identifier, got ".toList ++ t.debug X)

/-- The word is given in lower case, and looked for in any. -/
def eatIdentifier (ident : Text) : Method Bool := do
  match ← peek with
  | .identifier name =>
    if name.map Char.toLower = ident then do
      advance
      pure true
    else pure false
  | _ => pure false

/-- The turns of `parse_comma_separated` behind its first item. -/
def commaLoop {α : Type} (item : Method α) : Nat → Method (List α)
  | 0 => pure []
  | turns + 1 => do
      if ← eatIf (.symbol .comma) then
        let x ← item
        let later ← commaLoop item turns
        pure (x :: later)
      else pure []

def parseCommaSeparated {α : Type} (item : Method α) : Method (List α) := do
  let first ← item
  let s ← Exec.get
  let later ← commaLoop item s.rest.length
  pure (first :: later)

/-! ## Literals and types -/

/-- A text with a point or an exponent is a float. -/
def isFloat (digits : Text) : Bool := digits.any fun c => c == '.' || c == 'e' || c == 'E'

/-- The value of a number. -/
def numberLiteral (digits : Text) : Result LiteralValue :=
  if isFloat digits then
    match X.parseFloat digits with
    | some f => .ok (.float f)
    | none => .err (.ofMessage ("invalid float: ".toList ++ digits))
  else
    match parseInt digits with
    | some i => .ok (.integer i)
    | none => .err (.ofMessage ("invalid integer: ".toList ++ digits))

def makeNumberLiteral (digits : Text) : Method Expr := do
  let val ← Exec.lift (numberLiteral X digits)
  pure (.literal val)

def parseLiteral : Method LiteralValue := do
  match ← peek with
  | .keyword .null => do
      advance
      pure .null
  | .keyword .true => do
      advance
      pure (.boolean true)
  | .keyword .false => do
      advance
      pure (.boolean false)
  | .number digits => do
      advance
      Exec.lift (numberLiteral X digits)
  | .string s => do
      advance
      pure (.string s)
  | t => errSyntax ("unexpected token in literal: ".toList ++ t.debug X)

/-- `str::parse::<usize>`. -/
def parseSize (digits : Text) : Option Nat :=
  let plain := if digits.head? = some '+' then digits.drop 1 else digits
  if plain.isEmpty || ! plain.all Char.isDigit then none
  else
    let value := Nat.ofDigitChars 10 plain 0
    if value < 2 ^ 64 then some value else none

def parseUsize : Method Nat := do
  match ← peek with
  | .number digits => do
      advance
      match parseSize digits with
      | some n => pure n
      | none => Exec.lift (.err (.ofMessage ("invalid number: ".toList ++ digits)))
  | t => errSyntax ("expected number, got ".toList ++ t.debug X)

/-- The type a name stands for. -/
def sqlTypeOf (name : Text) : Option SQLType :=
  if name ∈ ["int".toList, "integer".toList, "tinyint".toList, "smallint".toList, "mediumint".toList,
      "bigint".toList] then some .integer
  else if name ∈ ["float".toList, "double".toList, "real".toList, "decimal".toList,
      "numeric".toList] then some .float
  else if name ∈ ["text".toList, "varchar".toList, "string".toList, "char".toList, "tinytext".toList,
      "mediumtext".toList, "longtext".toList] then some .text
  else if name ∈ ["bool".toList, "boolean".toList, "bit".toList] then some .boolean
  else if name ∈ ["timestamp".toList, "datetime".toList, "date".toList, "time".toList,
      "year".toList] then some .text
  else if name ∈ ["blob".toList, "tinyblob".toList, "mediumblob".toList, "longblob".toList,
      "binary".toList, "varbinary".toList] then some .text
  else none

def parseSqlType : Method SQLType := do
  let ident ← parseIdentifier X
  match sqlTypeOf (X.toLowercase ident) with
  | some t => pure t
  | none => errSyntax ("unknown type: ".toList ++ X.toLowercase ident)

end Functions

/-! ## Expressions -/

/-- One function of the parser each, as another calls it. -/
structure Calls where
  parseExpression : Method Expr
  parseOr : Method Expr
  parseAnd : Method Expr
  parseEquality : Method Expr
  parseComparison : Method Expr
  parseTerm : Method Expr
  parseFactor : Method Expr
  parseUnary : Method Expr
  parsePrimary : Method Expr
  parseCase : Method Expr
  parseCast : Method Expr
  parseAggregateFunction : Method Expr
  parseExists : Method Expr
  parseSelect : Method Parsed.SelectStatement

/-- The turns of a loop over operators that group from the left. -/
def leftAssocLoop (op : Token → Option BinaryOperator) (operand : Method Expr) :
    Nat → Expr → Method Expr
  | 0, left => pure left
  | turns + 1, left => do
      match op (← peek) with
      | some operator => do
          advance
          let right ← operand
          leftAssocLoop op operand turns (.binaryOp left operator right)
      | none => pure left

/-- `parse_or` to `parse_factor`: operands of the next level with operators between them. -/
def leftAssoc (op : Token → Option BinaryOperator) (operand : Method Expr) : Method Expr := do
  let left ← operand
  let s ← Exec.get
  leftAssocLoop op operand s.rest.length left

def orOp : Token → Option BinaryOperator
  | .keyword .or => some .or
  | _ => none

def andOp : Token → Option BinaryOperator
  | .keyword .and => some .and
  | _ => none

def equalityOp : Token → Option BinaryOperator
  | .symbol .eq => some .eq
  | .symbol .notEq => some .notEq
  | _ => none

def comparisonOp : Token → Option BinaryOperator
  | .symbol .lt => some .lt
  | .symbol .ltEq => some .ltEq
  | .symbol .gt => some .gt
  | .symbol .gtEq => some .gtEq
  | _ => none

def termOp : Token → Option BinaryOperator
  | .symbol .plus => some .plus
  | .symbol .minus => some .minus
  | .symbol .concat => some .concat
  | _ => none

def factorOp : Token → Option BinaryOperator
  | .symbol .star => some .multiply
  | .symbol .slash => some .divide
  | .symbol .percent => some .modulo
  | _ => none

section Functions

variable (X : Extern) (frames : Calls)

/-- The counter goes down again however the call ends. -/
def parseExpression : Method Expr := fun s =>
  if maxNestingDepth ≤ s.depth then (.err (.queryTooComplex "max nesting depth exceeded".toList), s)
  else
    let (result, s') := frames.parseOr { s with depth := s.depth + 1 }
    (result, { s' with depth := s'.depth - 1 })

def parseOr : Method Expr := leftAssoc orOp frames.parseAnd

def parseAnd : Method Expr := leftAssoc andOp frames.parseEquality

def parseEquality : Method Expr := leftAssoc equalityOp frames.parseComparison

def parseComparison : Method Expr := leftAssoc comparisonOp frames.parseTerm

def parseTerm : Method Expr := leftAssoc termOp frames.parseFactor

def parseFactor : Method Expr := leftAssoc factorOp frames.parseUnary

def parseUnary : Method Expr := do
  if ← eatIf (.symbol .minus) then
    let expr ← frames.parseUnary
    pure (.unaryOp .neg expr)
  else if ← eatIf (.keyword .not) then
    let expr ← frames.parseUnary
    pure (.unaryOp .not expr)
  else frames.parsePrimary

/-- A list of expressions in parentheses, behind the opening one. -/
def parseArguments : Method (List Expr) := do
  let args ← parseCommaSeparated frames.parseExpression
  expect X (.symbol .rParen)
  pure args

/-- `IN`, `BETWEEN`, `LIKE` or `ILIKE` behind an operand, if one of them is next. -/
def parseInfix (expr : Expr) : Method (Option Expr) := do
  match ← peek with
  | .keyword .inKw => do
      advance
      expect X (.symbol .lParen)
      let list ← parseArguments X frames
      pure (some (.inList expr list))
  | .keyword .between => do
      advance
      let low ← frames.parseComparison
      expect X (.keyword .and)
      let high ← frames.parseExpression
      pure (some (.between expr low high))
  | .keyword .like => do
      advance
      let pattern ← frames.parseExpression
      pure (some (.like expr pattern))
  | .keyword .iLike => do
      advance
      let pattern ← frames.parseExpression
      pure (some (.iLike expr pattern))
  | _ => pure none

/-- `IS NULL` and `IS NOT NULL` behind the `IS`. -/
def parseIs (expr : Expr) : Method Expr := do
  if ← eatIf (.keyword .not) then
    expect X (.keyword .null)
    pure (.isNotNull expr)
  else
    expect X (.keyword .null)
    pure (.isNull expr)

/-- What may stand behind the name of a column. A `NOT` that none of the four words follows is left
where it is; the source then looks for them again at the `NOT`, where they cannot be. -/
def parsePredicate (expr : Expr) : Method Expr := do
  let saved ← Exec.get
  if ← eatIf (.keyword .not) then
    match ← parseInfix X frames expr with
    | some predicate => pure (.unaryOp .not predicate)
    | none => do
        Exec.modify fun s => { s with rest := saved.rest }
        pure expr
  else if ← eatIf (.keyword .is) then parseIs X expr
  else do
    let predicate ← parseInfix X frames expr
    pure (predicate.getD expr)

/-- Behind a name: a call, a cast with `::`, or a column. -/
def parseNamed (name : Text) : Method Expr := do
  if ← eatIf (.symbol .lParen) then
    let args ← parseArguments X frames
    pure (.function name args)
  else if ← eatIf (.symbol .colonColon) then
    let targetType ← parseSqlType X
    pure (.cast (.column name) targetType)
  else parsePredicate X frames (.column name)

def parsePrimary : Method Expr := do
  match ← peek with
  | .symbol .lParen => do
      advance
      let expr ← frames.parseExpression
      expect X (.symbol .rParen)
      pure expr
  | .keyword .case => do
      advance
      frames.parseCase
  | .keyword .cast => do
      advance
      frames.parseCast
  | .keyword .count | .keyword .sum | .keyword .avg | .keyword .min | .keyword .max =>
    frames.parseAggregateFunction
  | .keyword .exists => frames.parseExists
  | .keyword .null => do
      advance
      pure (.literal .null)
  | .keyword .true => do
      advance
      pure (.literal (.boolean true))
  | .keyword .false => do
      advance
      pure (.literal (.boolean false))
  | .number digits => do
      advance
      makeNumberLiteral X digits
  | .string s => do
      advance
      pure (.literal (.string s))
  | .identifier name => do
      advance
      parseNamed X frames name
  | t => errSyntax ("unexpected token: ".toList ++ t.debug X)

/-- The turns of `parse_case`. A later ELSE takes the place of an earlier one. -/
def caseLoop : Nat → List (Expr × Expr) → Option Expr → Method (List (Expr × Expr) × Option Expr)
  | 0, _, _ => errSyntax "expected WHEN, ELSE, or END in CASE expression".toList
  | turns + 1, whens, elseVal => do
      if ← eatIf (.keyword .when) then
        let cond ← frames.parseExpression
        expect X (.keyword .thenKw)
        let result ← frames.parseExpression
        caseLoop turns (whens ++ [(cond, result)]) elseVal
      else if ← eatIf (.keyword .elseKw) then
        let value ← frames.parseExpression
        caseLoop turns whens (some value)
      else if ← eatIf (.keyword .endKw) then
        pure (whens, elseVal)
      else errSyntax "expected WHEN, ELSE, or END in CASE expression".toList

def parseCase : Method Expr := do
  let s ← Exec.get
  let (whens, elseVal) ← caseLoop X frames s.rest.length [] none
  if whens.isEmpty then errSyntax "CASE must have at least one WHEN".toList
  else pure (.caseWhen whens elseVal)

def parseCast : Method Expr := do
  expect X (.symbol .lParen)
  let expr ← frames.parseExpression
  expect X (.keyword .as)
  let targetType ← parseSqlType X
  expect X (.symbol .rParen)
  pure (.cast expr targetType)

def aggregateName : Token → Option Text
  | .keyword .count => some ['c', 'o', 'u', 'n', 't']
  | .keyword .sum => some ['s', 'u', 'm']
  | .keyword .avg => some ['a', 'v', 'g']
  | .keyword .min => some ['m', 'i', 'n']
  | .keyword .max => some ['m', 'a', 'x']
  | _ => none

def parseAggregateFunction : Method Expr := do
  match aggregateName (← peek) with
  | none => errSyntax "expected aggregate function".toList
  | some name => do
      advance
      expect X (.symbol .lParen)
      if ← eatIf (.symbol .star) then
        expect X (.symbol .rParen)
        pure (.function name [.literal (.string ['*'])])
      else if ← eatIf (.keyword .distinct) then
        let arg ← frames.parseExpression
        expect X (.symbol .rParen)
        pure (.function (name ++ "_distinct".toList) [arg])
      else
        let args ← parseArguments X frames
        pure (.function name args)

def parseExists : Method Expr := do
  advance
  expect X (.symbol .lParen)
  let subquery ← frames.parseSelect
  expect X (.symbol .rParen)
  pure (.function ['e', 'x', 'i', 's', 't', 's'] [.literal (.string (subquery.debug X))])

/-! ## SELECT -/

/-- An alias that no AS introduces, where one of `ends` follows it. -/
def bareAlias (ends : Token → Bool) : Method (Option Text) := do
  match ← peek with
  | .identifier name => do
      let saved ← Exec.get
      advance
      if ends (← peek) then pure (some name)
      else
        Exec.modify fun s => { s with rest := saved.rest }
        pure none
  | _ => pure none

/-- The tokens behind the tables of a query. -/
def endsClause : Token → Bool
  | .keyword .whereKw | .keyword .group | .keyword .order | .keyword .having | .keyword .limit
  | .keyword .offset | .symbol .comma | .symbol .semicolon | .eof => true
  | _ => false

def endsItem (t : Token) : Bool := t = .keyword .fromKw || endsClause t

def parseAlias (ends : Token → Bool) : Method (Option Text) := do
  if ← eatIf (.keyword .as) then
    let name ← parseIdentifier X
    pure (some name)
  else bareAlias ends

def parseTableRef : Method TableRef := do
  let name ← parseIdentifier X
  let tableAlias ← parseAlias X endsClause
  pure ⟨name, tableAlias⟩

def parseSelectItem : Method SelectItem := do
  if ← eatIf (.symbol .star) then pure .wildcard
  else
    let expr ← frames.parseExpression
    let columnAlias ← parseAlias X endsItem
    pure (.expr expr columnAlias)

/-- The turns of `parse_joins`. -/
def joinLoop : Nat → Method (List Parsed.Join)
  | 0 => pure []
  | turns + 1 => do
      if ← eatIf (.keyword .join) then
        let right ← parseTableRef X
        if ← eatIf (.keyword .on) then
          let on ← frames.parseExpression
          let later ← joinLoop turns
          pure (⟨right, some on⟩ :: later)
        else if endsClause (← peek) then
          let later ← joinLoop turns
          pure (⟨right, none⟩ :: later)
        else errSyntax "expected ON <condition> after JOIN (or a valid clause terminator)".toList
      else pure []

def parseOrderByExpr : Method OrderByExpr := do
  let expr ← frames.parseExpression
  let asc ← (do
    if ← eatIf (.keyword .asc) then pure true
    else
      let desc ← eatIf (.keyword .desc)
      pure (! desc))
  if ← eatIf (.keyword .nulls) then
    if ← eatIf (.keyword .first) then pure ⟨expr, asc, some true⟩
    else if ← eatIf (.keyword .last) then pure ⟨expr, asc, some false⟩
    else errSyntax "expected FIRST or LAST after NULLS".toList
  else pure ⟨expr, asc, none⟩

/-- A clause that starts with a keyword. -/
def optional {α : Type} (start : Keyword) (clause : Method α) : Method (Option α) := do
  if ← eatIf (.keyword start) then
    let value ← clause
    pure (some value)
  else pure none

/-- A clause of `BY` and a list. -/
def parseBy {α : Type} (start : Keyword) (item : Method α) : Method (List α) := do
  if ← eatIf (.keyword start) then
    expect X (.keyword .byKw)
    parseCommaSeparated item
  else pure []

def parseSelect : Method Parsed.SelectStatement := do
  expect X (.keyword .select)
  let distinct ← eatIf (.keyword .distinct)
  let selectList ← parseCommaSeparated (parseSelectItem X frames)
  expect X (.keyword .fromKw)
  let fromTable ← parseTableRef X
  let s ← Exec.get
  let joins ← joinLoop X frames s.rest.length
  let whereClause ← optional .whereKw frames.parseExpression
  let groupBy ← parseBy X .group frames.parseExpression
  let having ← optional .having frames.parseExpression
  let orderBy ← parseBy X .order (parseOrderByExpr frames)
  let limit ← optional .limit (parseUsize X)
  let offset ← optional .offset (parseUsize X)
  pure ⟨distinct, selectList, fromTable, joins, whereClause, groupBy, having, orderBy, limit, offset⟩

end Functions

/-! ## The functions of the parser, one call deep after another -/

/-- The call for which there is no room. -/
def overflow {α : Type} : Method α := Exec.lift .hang

def calls (X : Extern) : Nat → Calls
  | 0 => ⟨overflow, overflow, overflow, overflow, overflow, overflow, overflow, overflow, overflow,
      overflow, overflow, overflow, overflow, overflow⟩
  | stack + 1 =>
    let frames := calls X stack
    { parseExpression := parseExpression frames
      parseOr := parseOr frames
      parseAnd := parseAnd frames
      parseEquality := parseEquality frames
      parseComparison := parseComparison frames
      parseTerm := parseTerm frames
      parseFactor := parseFactor frames
      parseUnary := parseUnary frames
      parsePrimary := parsePrimary X frames
      parseCase := parseCase X frames
      parseCast := parseCast X frames
      parseAggregateFunction := parseAggregateFunction X frames
      parseExists := parseExists X frames
      parseSelect := parseSelect X frames }

/-! ## Statements -/

section Statements

variable (X : Extern) (frames : Calls)

def parseValueList : Method (List Expr) := do
  expect X (.symbol .lParen)
  parseArguments X frames

def parseInsert : Method Parsed.InsertStatement := do
  expect X (.keyword .insert)
  expect X (.keyword .into)
  let table ← parseTableRef X
  let columns ← (do
    if ← eatIf (.symbol .lParen) then
      let cols ← parseCommaSeparated (parseIdentifier X)
      expect X (.symbol .rParen)
      pure cols
    else pure [])
  expect X (.keyword .values)
  let values ← parseCommaSeparated (parseValueList X frames)
  pure ⟨table, columns, values⟩

def parseAssignment : Method Assignment := do
  let column ← parseIdentifier X
  expect X (.symbol .eq)
  let value ← frames.parseExpression
  pure ⟨column, value⟩

def parseUpdate : Method Parsed.UpdateStatement := do
  expect X (.keyword .update)
  let table ← parseTableRef X
  expect X (.keyword .set)
  let assignments ← parseCommaSeparated (parseAssignment X frames)
  let whereClause ← optional .whereKw frames.parseExpression
  pure ⟨table, assignments, whereClause⟩

def parseDelete : Method Parsed.DeleteStatement := do
  expect X (.keyword .delete)
  expect X (.keyword .fromKw)
  let table ← parseTableRef X
  let whereClause ← optional .whereKw frames.parseExpression
  pure ⟨table, whereClause⟩

/-- One of the three names of a clock. -/
def eatClock : Method Bool := do
  if ← eatIdentifier "current_timestamp".toList then pure true
  else if ← eatIdentifier "current_date".toList then pure true
  else eatIdentifier "current_time".toList

/-- The value behind DEFAULT. -/
def parseDefault : Method LiteralValue := do
  if ← eatClock then pure (.string "current_timestamp".toList)
  else parseLiteral X

/-- The constraints behind the type of a column, in any order. -/
def columnLoop : Nat → Parsed.ColumnDef → Method Parsed.ColumnDef
  | 0, col => pure col
  | turns + 1, col => do
      if ← eatIf (.keyword .not) then
        expect X (.keyword .null)
        columnLoop turns { col with nullable := false }
      else if ← eatIf (.keyword .null) then columnLoop turns { col with nullable := true }
      else if ← eatIf (.keyword .default) then
        let val ← parseDefault X
        columnLoop turns { col with default := some val }
      else if ← eatIf (.keyword .primary) then
        expect X (.keyword .key)
        columnLoop turns { col with isPrimaryKey := true, nullable := false }
      else if ← eatIf (.keyword .unique) then columnLoop turns { col with unique := true }
      else if ← eatIdentifier "auto_increment".toList then
        columnLoop turns { col with autoIncrement := true }
      else if ← eatIf (.keyword .check) then
        expect X (.symbol .lParen)
        let expr ← frames.parseExpression
        expect X (.symbol .rParen)
        columnLoop turns { col with checkExpr := some expr }
      else pure col

def parseColumnDef : Method Parsed.ColumnDef := do
  let name ← parseIdentifier X
  let sqlType ← parseSqlType X
  let s ← Exec.get
  columnLoop X frames s.rest.length
    { name, sqlType, nullable := true, default := none, unique := false, isPrimaryKey := false
      autoIncrement := false, checkExpr := none }

def parseCreateTable : Method Parsed.CreateTableStatement := do
  expect X (.keyword .create)
  expect X (.keyword .table)
  let table ← parseTableRef X
  expect X (.symbol .lParen)
  let columns ← parseCommaSeparated (parseColumnDef X frames)
  expect X (.symbol .rParen)
  pure ⟨table, columns⟩

def parseDropTable : Method Parsed.DropTableStatement := do
  expect X (.keyword .drop)
  expect X (.keyword .table)
  let table ← parseTableRef X
  pure ⟨table⟩

def parseStatement : Method Parsed.Statement := do
  match ← peek with
  | .keyword .select => Parsed.Statement.select <$> frames.parseSelect
  | .keyword .insert => Parsed.Statement.insert <$> parseInsert X frames
  | .keyword .update => Parsed.Statement.update <$> parseUpdate X frames
  | .keyword .delete => Parsed.Statement.delete <$> parseDelete X frames
  | .keyword .create => Parsed.Statement.createTable <$> parseCreateTable X frames
  | .keyword .drop => Parsed.Statement.dropTable <$> parseDropTable X
  | t => errSyntax ("unexpected token at start of statement: ".toList ++ t.debug X)

/-- The turns of `parse_program`. -/
def programLoop : Nat → Method (List Parsed.Statement)
  | 0 => pure []
  | turns + 1 => do
      if (← peek) = .eof then pure []
      else
        let stmt ← parseStatement X frames
        let _ ← eatIf (.symbol .semicolon)
        let later ← programLoop turns
        pure (stmt :: later)

end Statements

/-- `parse_program` on the tokens of a text, with room for `stack` calls. -/
def parseProgram (X : Extern) (stack : Nat) (tokens : List Token) (positions : List (Nat × Nat)) :
    Result (List Parsed.Statement) :=
  (programLoop X (calls X stack) tokens.length (new tokens positions)).1

end Parser

end NovaRuntime.Sql
