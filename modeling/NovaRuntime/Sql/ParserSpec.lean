/-
# NovaRuntime.Sql.ParserSpec — how the parser moves, and which trees it makes

No function of the parser gives tokens back or leaves the counter changed (`After`), and every
expression it returns is `Grammatical`: the predicates `IS NULL`, `IN`, `BETWEEN`, `LIKE` and `ILIKE`
are about a column, no list is empty, and no cast is to the type of NULL. `calls_forward` says both
of all functions at once, by induction on the calls that are left.

`leftAssoc_stops` says where a level of binary operators ends: in front of a token that is none of
them.
-/
import NovaRuntime.Library.Triples
import NovaRuntime.Sql.Parser
import NovaRuntime.Sql.Parts

namespace NovaRuntime.Sql

open NovaRuntime.Library NovaRuntime.Library.Exec

set_option autoImplicit false

/-! ## The trees -/

/-- What the parser makes of an operand of a postfix predicate. -/
def IsColumn : Expr → Prop
  | .column _ => True
  | _ => False

/-- The shape of one node of a tree. -/
def Shaped : Expr → Prop
  | .isNull expr | .isNotNull expr | .between expr _ _ | .like expr _ | .iLike expr _ => IsColumn expr
  | .inList expr list => IsColumn expr ∧ list ≠ []
  | .function _ args => args ≠ []
  | .caseWhen whens _ => whens ≠ []
  | .cast _ targetType => targetType ≠ .null
  | _ => True

/-- All nodes of a tree are as the grammar of the parser has them. -/
def Grammatical (e : Expr) : Prop := ∀ p ∈ parts e, Shaped p

section Grammatical

theorem grammatical_of_parts {e : Expr} {below : List Expr} (all : parts e = e :: below)
    (shaped : Shaped e) (held : ∀ p ∈ below, Shaped p) : Grammatical e := by
  intro p member
  rw [all] at member
  rcases List.mem_cons.mp member with rfl | later
  · exact shaped
  · exact held p later

theorem shaped_all {list : List Expr} (each : ∀ e ∈ list, Grammatical e) : ∀ p ∈ partsAll list, Shaped p := by
  induction list with
  | nil => nofun
  | cons e rest ih =>
    intro p member
    rw [partsAll] at member
    rcases List.mem_append.mp member with first | later
    · exact each e (.head _) p first
    · exact ih (fun e member => each e (.tail _ member)) p later

theorem shaped_whens {whens : List (Expr × Expr)}
    (each : ∀ w ∈ whens, Grammatical w.1 ∧ Grammatical w.2) : ∀ p ∈ partsWhens whens, Shaped p := by
  induction whens with
  | nil => nofun
  | cons w rest ih =>
    intro p member
    rw [partsWhens, partsWhen] at member
    obtain ⟨cond, result⟩ := each w List.mem_cons_self
    rcases List.mem_append.mp member with first | later
    · exact (List.mem_append.mp first).elim (cond p) (result p)
    · exact ih (fun w member => each w (.tail _ member)) p later

variable {left right expr low high pattern : Expr}

theorem grammatical_column (name : Text) : Grammatical (.column name) :=
  grammatical_of_parts rfl trivial nofun

theorem grammatical_literal (val : LiteralValue) : Grammatical (.literal val) :=
  grammatical_of_parts rfl trivial nofun

theorem grammatical_binaryOp (op : BinaryOperator) (first : Grammatical left) (second : Grammatical right) :
    Grammatical (.binaryOp left op right) :=
  grammatical_of_parts rfl trivial fun p member => (List.mem_append.mp member).elim (first p) (second p)

theorem grammatical_unaryOp (op : UnaryOperator) (held : Grammatical expr) : Grammatical (.unaryOp op expr) :=
  grammatical_of_parts rfl trivial held

theorem grammatical_function (name : Text) {args : List Expr} (some : args ≠ [])
    (each : ∀ e ∈ args, Grammatical e) : Grammatical (.function name args) :=
  grammatical_of_parts rfl some (shaped_all each)

section

variable (column : IsColumn expr) (held : Grammatical expr)

include column held

theorem grammatical_isNull : Grammatical (.isNull expr) :=
  grammatical_of_parts rfl column held

theorem grammatical_isNotNull : Grammatical (.isNotNull expr) :=
  grammatical_of_parts rfl column held

theorem grammatical_inList {list : List Expr}
    (some : list ≠ []) (each : ∀ e ∈ list, Grammatical e) : Grammatical (.inList expr list) :=
  grammatical_of_parts rfl ⟨column, some⟩ fun p member =>
    (List.mem_append.mp member).elim (held p) (shaped_all each p)

theorem grammatical_between (first : Grammatical low)
    (second : Grammatical high) : Grammatical (.between expr low high) :=
  grammatical_of_parts rfl column fun p member => (List.mem_append.mp member).elim (held p) fun later =>
    (List.mem_append.mp later).elim (first p) (second p)

theorem grammatical_like (second : Grammatical pattern) : Grammatical (.like expr pattern) :=
  grammatical_of_parts rfl column fun p member => (List.mem_append.mp member).elim (held p) (second p)

theorem grammatical_iLike (second : Grammatical pattern) : Grammatical (.iLike expr pattern) :=
  grammatical_of_parts rfl column fun p member => (List.mem_append.mp member).elim (held p) (second p)

end

theorem grammatical_caseWhen {whens : List (Expr × Expr)} {elseVal : Option Expr} (some : whens ≠ [])
    (each : ∀ w ∈ whens, Grammatical w.1 ∧ Grammatical w.2) (last : ∀ e ∈ elseVal, Grammatical e) :
    Grammatical (.caseWhen whens elseVal) := by
  refine grammatical_of_parts rfl some fun p member => (List.mem_append.mp member).elim (shaped_whens each p) ?_
  cases elseVal with
  | none => nofun
  | some e => exact last e rfl p

theorem grammatical_cast {targetType : SQLType} (typed : targetType ≠ .null) (held : Grammatical expr) :
    Grammatical (.cast expr targetType) :=
  grammatical_of_parts rfl typed held

end Grammatical

namespace Parser

/-! ## Forward through the tokens -/

/-- The parser one token further. -/
def next (s : Parser) : Parser := { s with rest := s.rest.drop 1 }

/-- What may be left after a call. -/
structure After (s s' : Parser) : Prop where
  depth : s'.depth = s.depth
  left : s'.rest <:+ s.rest

theorem After.refl (s : Parser) : After s s := ⟨rfl, List.suffix_rfl⟩

theorem After.trans {s t u : Parser} (first : After s t) (second : After t u) : After s u :=
  ⟨second.depth.trans first.depth, second.left.trans first.left⟩

theorem after_next (s : Parser) : After s s.next := ⟨rfl, List.drop_suffix 1 _⟩

theorem peek_apply (s : Parser) : peek s = (.ok s.token, s) := rfl

theorem advance_apply (s : Parser) : advance s = (.ok (), s.next) := rfl

section Steps

variable {s : Parser} {t : Token}

theorem eatIf_hit (found : s.token = t) : eatIf t s = (.ok true, s.next) := by
  rw [eatIf, Exec.bind_of_ok (peek_apply s), if_pos found]
  rfl

theorem eatIf_miss (other : s.token ≠ t) : eatIf t s = (.ok false, s) := by
  rw [eatIf, Exec.bind_of_ok (peek_apply s), if_neg other]
  rfl

theorem expect_hit (X : Extern) (found : s.token = t) : expect X t s = (.ok (), s.next) := by
  rw [expect, Exec.bind_of_ok (peek_apply s), if_pos found]
  rfl

variable {α : Type} {mayHang : Prop} {Q : α → Parser → Prop}

/-- What has to stand here: on behind it. -/
theorem ends_expect (X : Extern) {f : Unit → Method α} (hit : s.token = t → Ends mayHang (f ()) s.next Q) :
    Ends mayHang (expect X t >>= f) s Q := by
  by_cases found : s.token = t
  · exact .of_step (expect_hit X found) (hit found)
  · refine Ends.bind (Q := fun _ _ => False) (.of_step (peek_apply s) ?_) fun _ _ => False.elim
    rw [if_neg found]
    exact ⟨nofun, nofun⟩

/-- What may stand here: on behind it, or else from here. -/
theorem ends_eatIf {yes no : Method α} (hit : s.token = t → Ends mayHang yes s.next Q)
    (miss : s.token ≠ t → Ends mayHang no s Q) :
    Ends mayHang (eatIf t >>= fun found => if found = true then yes else no) s Q := by
  by_cases found : s.token = t
  · exact .of_step (eatIf_hit found) (hit found)
  · exact .of_step (eatIf_miss found) (miss found)

end Steps

/-- The token may be passed over. -/
def Passes (M : Motion Parser) (t : Token) : Prop := ∀ s, M.inv s → s.token = t → M.rel s s.next

def isOpen : Token → Bool
  | .symbol .lParen | .keyword .case => true
  | _ => false

def isClose : Token → Bool
  | .symbol .rParen | .keyword .endKw => true
  | _ => false

/-- A token that neither opens nor closes anything. -/
def ordinary : Token → Bool
  | .eof => false
  | t => ! isOpen t && ! isClose t

/-- Forward, whatever the tokens are. -/
def forward : Motion Parser := ⟨fun _ => True, After, After.refl, After.trans, fun _ _ => trivial⟩

theorem forward_passes (t : Token) : Passes forward t := fun s _ _ => after_next s

/-- The call goes forward, and what it gives is good. -/
abbrev Forward {α : Type} (good : α → Prop) (x : Method α) : Prop := Moves True forward good x

theorem forward_advance : Forward (fun _ => True) advance := fun s _ =>
  ⟨nofun, by rintro _ _ ⟨⟩; exact ⟨after_next s, trivial⟩⟩

section Tokens

variable {α : Type} {mayHang : Prop} {M : Motion Parser}

theorem moves_peek : Moves mayHang M (fun _ => True) peek := fun s _ =>
  ⟨nofun, by rintro _ _ ⟨⟩; exact ⟨M.refl s, trivial⟩⟩

theorem moves_errSyntax (good : α → Prop) (message : Text) : Moves mayHang M good (errSyntax message) :=
  fun _ _ => ⟨nofun, nofun⟩

/-- A call that looks at the next token, and may take it. -/
theorem moves_of_token {good : α → Prop} {f : Token → Method α}
    (each : ∀ s, M.inv s → Ends mayHang (f s.token) s fun a s' => M.rel s s' ∧ good a) :
    Moves mayHang M good (peek >>= f) :=
  fun s inv => .of_step (peek_apply s) (each s inv)

/-- One token is taken, and the call goes on behind it. -/
theorem ends_advance {good : α → Prop} {t : Token} {x : Method α} {s : Parser} (passes : Passes M t)
    (inv : M.inv s) (found : s.token = t) (behind : Moves mayHang M good x) :
    Ends mayHang (do advance; x) s fun a s' => M.rel s s' ∧ good a := by
  have moved := passes s inv found
  exact .of_step (advance_apply s) ((behind s.next (M.keeps inv moved)).mono
    fun _ _ held => ⟨M.trans moved held.1, held.2⟩)

theorem moves_eatIf {expected : Token} (passes : Passes M expected) :
    Moves mayHang M (fun _ => True) (eatIf expected) :=
  moves_of_token fun s inv => by
    split
    next found => exact ends_advance passes inv found (moves_pure trivial)
    next => exact ends_pure ⟨M.refl s, trivial⟩

/-- What may stand here, and the two ways on. -/
theorem moves_branch {good : α → Prop} {expected : Token} {yes no : Method α} (passes : Passes M expected)
    (hit : Moves mayHang M good yes) (miss : Moves mayHang M good no) :
    Moves mayHang M good (eatIf expected >>= fun found => if found = true then yes else no) :=
  (moves_eatIf passes).bind fun found _ => by
    split
    · exact hit
    · exact miss

variable (X : Extern)

theorem moves_expect {expected : Token} (passes : Passes M expected) :
    Moves mayHang M (fun _ => True) (expect X expected) :=
  moves_of_token fun s inv => by
    split
    next found => exact ⟨nofun, by rintro _ _ ⟨⟩; exact ⟨passes s inv found, trivial⟩⟩
    next => exact moves_errSyntax _ _ s inv

theorem moves_parseIdentifier (passes : ∀ name, Passes M (.identifier name)) :
    Moves mayHang M (fun _ => True) (parseIdentifier X) :=
  moves_of_token fun s inv => by
    split
    next found => exact ends_advance (passes _) inv found (moves_pure trivial)
    next => exact moves_errSyntax _ _ s inv

theorem sqlTypeOf_ne_null {name : Text} {t : SQLType} (found : sqlTypeOf name = some t) : t ≠ .null := by
  unfold sqlTypeOf at found
  split_ifs at found <;> cases found <;> nofun

theorem moves_parseSqlType (passes : ∀ name, Passes M (.identifier name)) :
    Moves mayHang M (· ≠ .null) (parseSqlType X) :=
  (moves_parseIdentifier X passes).bind fun name _ => by
    split
    next found => exact moves_pure (sqlTypeOf_ne_null found)
    next => exact moves_errSyntax _ _

theorem moves_commaLoop {good : α → Prop} {item : Method α} (passes : Passes M (.symbol .comma))
    (each : Moves mayHang M good item) (turns : Nat) :
    Moves mayHang M (fun xs => ∀ x ∈ xs, good x) (commaLoop item turns) := by
  induction turns with
  | zero => exact moves_pure nofun
  | succ turns ih =>
    refine moves_branch passes ?_ ?_
    · refine each.bind fun x fine => ih.bind fun xs later => moves_pure ?_
      exact List.forall_mem_cons.mpr ⟨fine, later⟩
    · exact moves_pure nofun

/-- A list with commas has an item, and good items only. -/
theorem moves_parseCommaSeparated {good : α → Prop} {item : Method α} (passes : Passes M (.symbol .comma))
    (each : Moves mayHang M good item) :
    Moves mayHang M (fun xs => xs ≠ [] ∧ ∀ x ∈ xs, good x) (parseCommaSeparated item) :=
  each.bind fun x fine => fun s inv => .of_step rfl <|
    (moves_commaLoop passes each s.rest.length).bind (fun xs later =>
      moves_pure (a := x :: xs) ⟨nofun, List.forall_mem_cons.mpr ⟨fine, later⟩⟩) s inv

/-- Back to where the parser was before: still allowed from there. -/
theorem ends_restore {good : α → Prop} {x : Method α} {saved s : Parser} (inv : M.inv saved)
    (each : Moves mayHang M good x) (depth : s.depth = saved.depth) :
    Ends mayHang (do
        Exec.modify fun s : Parser => { s with rest := saved.rest }
        x) s fun a s' => M.rel saved s' ∧ good a := by
  have back : (Exec.modify fun s : Parser => { s with rest := saved.rest } : Method Unit) s =
      (.ok (), saved) := by
    rw [Exec.modify_apply, depth]
  exact .of_step back (each saved inv)

end Tokens

/-! ## SELECT -/

section Select

variable {X : Extern} {mayHang : Prop} {M : Motion Parser} (passes : ∀ t, ordinary t = true → Passes M t)

include passes

theorem moves_bareAlias (ends : Token → Bool) : Moves mayHang M (fun _ => True) (bareAlias ends) :=
  moves_of_token fun s inv => by
    split
    next name found =>
        refine .of_step (get_apply s) ?_
        refine .of_step (advance_apply s) ?_
        refine .of_step (peek_apply s.next) ?_
        split
        · exact ends_pure ⟨passes _ rfl s inv found, trivial⟩
        · exact ends_restore inv (moves_pure trivial) rfl
    next => exact ends_pure ⟨M.refl s, trivial⟩

theorem moves_parseAlias (ends : Token → Bool) : Moves mayHang M (fun _ => True) (parseAlias X ends) := by
  refine moves_branch (passes _ rfl) ?_ ?_
  · exact (moves_parseIdentifier X fun _ => passes _ rfl).bind fun _ _ => moves_pure trivial
  · exact moves_bareAlias passes ends

theorem moves_parseTableRef : Moves mayHang M (fun _ => True) (parseTableRef X) :=
  (moves_parseIdentifier X fun _ => passes _ rfl).bind fun _ _ =>
    (moves_parseAlias passes _).bind fun _ _ => moves_pure trivial

theorem moves_parseUsize : Moves mayHang M (fun _ => True) (parseUsize X) :=
  moves_of_token fun s inv => by
    split
    next digits found =>
        refine ends_advance (passes _ rfl) inv found ?_
        split
        · exact moves_pure trivial
        · exact moves_lift nofun nofun
    next => exact moves_errSyntax _ _ s inv

theorem moves_optional {α : Type} {good : α → Prop} {clause : Method α} {start : Keyword}
    (started : ordinary (.keyword start) = true) (each : Moves mayHang M good clause) :
    Moves mayHang M (fun o => ∀ a ∈ o, good a) (optional start clause) := by
  refine moves_branch (passes _ started) ?_ ?_
  · exact each.bind fun a fine => moves_pure (by
      rintro _ ⟨⟩
      exact fine)
  · exact moves_pure nofun

theorem moves_parseBy {α : Type} {good : α → Prop} {item : Method α} {start : Keyword}
    (started : ordinary (.keyword start) = true) (each : Moves mayHang M good item) :
    Moves mayHang M (fun xs => ∀ a ∈ xs, good a) (parseBy X start item) := by
  refine moves_branch (passes _ started) ?_ ?_
  · exact (moves_expect X (passes _ rfl)).bind fun _ _ =>
      (moves_parseCommaSeparated (passes _ rfl) each).mono fun _ held => held.2
  · exact moves_pure nofun

variable {frames : Calls} {good : Expr → Prop} (each : Moves mayHang M good frames.parseExpression)

include each

theorem moves_parseSelectItem :
    Moves mayHang M (fun item => ∀ e ∈ item.exprs, good e) (parseSelectItem X frames) := by
  refine moves_branch (passes _ rfl) ?_ ?_
  · exact moves_pure nofun
  · exact each.bind fun e fine => (moves_parseAlias passes _).bind fun _ _ =>
      moves_pure (by simpa [SelectItem.exprs] using fine)

theorem moves_joinLoop (turns : Nat) :
    Moves mayHang M (fun joins => ∀ j ∈ joins, ∀ e ∈ j.on, good e) (joinLoop X frames turns) := by
  induction turns with
  | zero => exact moves_pure nofun
  | succ turns ih =>
    refine moves_branch (passes _ rfl) ?_ ?_
    · refine (moves_parseTableRef passes).bind fun right _ =>
        (moves_eatIf (passes _ rfl)).bind fun on _ => ?_
      split
      · refine each.bind fun e fine => ih.bind fun later held => moves_pure (List.forall_mem_cons.mpr ⟨?_, held⟩)
        rintro _ ⟨⟩
        exact fine
      · refine moves_peek.bind fun t _ => ?_
        split
        · exact ih.bind fun later held => moves_pure (List.forall_mem_cons.mpr ⟨nofun, held⟩)
        · exact moves_errSyntax _ _
    · exact moves_pure nofun

theorem moves_parseOrderByExpr : Moves mayHang M (fun o => good o.expr) (parseOrderByExpr frames) := by
  refine each.bind fun expr fine => ?_
  refine Moves.follow ?_ fun asc => ?_
  · refine moves_branch (passes _ rfl) ?_ ?_
    · exact moves_pure trivial
    · exact (moves_eatIf (passes _ rfl)).bind fun _ _ => moves_pure trivial
  · refine moves_branch (passes _ rfl) ?_ ?_
    · refine moves_branch (passes _ rfl) ?_ ?_
      · exact moves_pure fine
      · refine moves_branch (passes _ rfl) ?_ ?_
        · exact moves_pure fine
        · exact moves_errSyntax _ _
    · exact moves_pure fine

/-- **A SELECT has good expressions only, where its expressions are good.** -/
theorem moves_parseSelect : Moves mayHang M (fun sel => ∀ e ∈ sel.exprs, good e) (parseSelect X frames) := by
  refine (moves_expect X (passes _ rfl)).bind fun _ _ => (moves_eatIf (passes _ rfl)).bind fun distinct _ =>
    (moves_parseCommaSeparated (passes _ rfl) (moves_parseSelectItem passes each)).bind fun selectList items =>
    (moves_expect X (passes _ rfl)).bind fun _ _ => (moves_parseTableRef passes).bind fun fromTable _ =>
    fun s inv => ?_
  refine .of_step (get_apply s) ?_
  refine ((moves_joinLoop passes each _).bind fun joins ons =>
    (moves_optional passes rfl each).bind fun whereClause condition =>
    (moves_parseBy passes rfl each).bind fun groupBy groups =>
    (moves_optional passes rfl each).bind fun having groupCondition =>
    (moves_parseBy passes rfl (moves_parseOrderByExpr passes each)).bind fun orderBy orders =>
    (moves_optional passes rfl (moves_parseUsize passes)).bind fun limit _ =>
    (moves_optional passes rfl (moves_parseUsize passes)).bind fun offset _ => moves_pure ?_) s inv
  intro e member
  simp only [Parsed.SelectStatement.exprs, List.mem_append, List.mem_flatMap, List.mem_map,
    Option.mem_toList] at member
  rcases member with ((((⟨item, listed, member⟩ | ⟨j, listed, member⟩) | member) | member) | member) |
    ⟨o, listed, rfl⟩
  · exact items.2 item listed e member
  · exact ons j listed e member
  · exact condition e member
  · exact groups e member
  · exact groupCondition e member
  · exact orders o listed

end Select

/-! ## Levels of operators -/

section Levels

variable {op : Token → Option BinaryOperator} {operand : Method Expr} {good : Expr → Prop} {stop : Token → Prop}

/-- A turn takes an operator and an operand, so the turns last until another token is next. -/
theorem leftAssocLoop_stops (atEnd : op .eof = none)
    (each : ∀ s, Ends True operand s fun e s' => (After s s' ∧ good e) ∧ stop s'.token)
    (joined : ∀ left operator right, good left → good right → good (.binaryOp left operator right))
    (turns : Nat) (left : Expr) (s : Parser) (enough : s.rest.length ≤ turns) (held : good left)
    (stopped : stop s.token) :
    Ends True (leftAssocLoop op operand turns left) s
      fun e s' => (After s s' ∧ good e) ∧ stop s'.token ∧ op s'.token = none := by
  induction turns generalizing left s with
  | zero =>
    have empty : s.rest = [] := List.length_eq_zero_iff.mp (by omega)
    refine ends_pure ⟨⟨.refl s, held⟩, stopped, ?_⟩
    rw [token, empty]
    exact atEnd
  | succ turns ih =>
    refine .of_step (peek_apply s) ?_
    split
    next operator found =>
      have shorter : s.next.rest.length ≤ turns := by
        rw [next, List.length_drop]
        omega
      refine .of_step (advance_apply s) ?_
      refine (each s.next).bind fun right s' read => ?_
      refine (ih (.binaryOp left operator right) s' (read.1.1.left.length_le.trans shorter)
        (joined left operator right held read.1.2) read.2).mono fun e s'' later => ⟨⟨?_, later.1.2⟩, later.2⟩
      exact (after_next s).trans (read.1.1.trans later.1.1)
    next ended => exact ends_pure ⟨⟨.refl s, held⟩, stopped, ended⟩

/-- **A level of operators ends in front of a token that is none of them**, nor one that its operands
do not end at. -/
theorem leftAssoc_stops (atEnd : op .eof = none)
    (each : ∀ s, Ends True operand s fun e s' => (After s s' ∧ good e) ∧ stop s'.token)
    (joined : ∀ left operator right, good left → good right → good (.binaryOp left operator right))
    (s : Parser) :
    Ends True (leftAssoc op operand) s
      fun e s' => (After s s' ∧ good e) ∧ stop s'.token ∧ op s'.token = none := by
  refine (each s).bind fun left s' read => ?_
  refine .of_step (get_apply s') ?_
  exact (leftAssocLoop_stops atEnd each joined _ left s' le_rfl read.1.2 read.2).mono fun e s'' later =>
    ⟨⟨read.1.1.trans later.1.1, later.1.2⟩, later.2⟩

theorem forward_leftAssoc (atEnd : op .eof = none) (each : Forward Grammatical operand) :
    Forward Grammatical (leftAssoc op operand) := fun s _ =>
  let anywhere (_ : Token) : Prop := True
  have each (s : Parser) : Ends True operand s
      fun e s' => (After s s' ∧ Grammatical e) ∧ anywhere s'.token :=
    (each s trivial).mono fun _ _ held => ⟨held, trivial⟩
  (leftAssoc_stops atEnd each (fun _ operator _ => grammatical_binaryOp operator) s).mono fun _ _ held => held.1

end Levels

/-! ## The functions that call one another -/

/-- Every function goes forward and returns what the grammar has. -/
structure Calls.Sound (frames : Calls) : Prop where
  parseExpression : Forward Grammatical frames.parseExpression
  parseOr : Forward Grammatical frames.parseOr
  parseAnd : Forward Grammatical frames.parseAnd
  parseEquality : Forward Grammatical frames.parseEquality
  parseComparison : Forward Grammatical frames.parseComparison
  parseTerm : Forward Grammatical frames.parseTerm
  parseFactor : Forward Grammatical frames.parseFactor
  parseUnary : Forward Grammatical frames.parseUnary
  parsePrimary : Forward Grammatical frames.parsePrimary
  parseCase : Forward Grammatical frames.parseCase
  parseCast : Forward Grammatical frames.parseCast
  parseAggregateFunction : Forward Grammatical frames.parseAggregateFunction
  parseExists : Forward Grammatical frames.parseExists
  parseSelect : Forward (fun sel => ∀ e ∈ sel.exprs, Grammatical e) frames.parseSelect

section Functions

variable {X : Extern} {frames : Calls} (sound : frames.Sound)

include sound

theorem forward_parseExpression : Forward Grammatical (parseExpression frames) := by
  intro s _
  have inner := sound.parseOr { s with depth := s.depth + 1 } trivial
  constructor
  · exact fun _ => trivial
  · intro e s' step
    rw [parseExpression] at step
    split at step
    · cases step
    · rcases ran : frames.parseOr { s with depth := s.depth + 1 } with ⟨o, s₁⟩
      rw [ran] at step
      obtain ⟨rfl, rfl⟩ := Prod.mk.inj step
      obtain ⟨⟨depth, left⟩, held⟩ := inner.post e s₁ ran
      exact ⟨⟨by rw [depth, Nat.add_sub_cancel], left⟩, held⟩

theorem forward_parseUnary : Forward Grammatical (parseUnary frames) := by
  refine moves_branch (forward_passes _) ?_ ?_
  · exact sound.parseUnary.bind fun e held => moves_pure (grammatical_unaryOp _ held)
  · refine moves_branch (forward_passes _) ?_ ?_
    · exact sound.parseUnary.bind fun e held => moves_pure (grammatical_unaryOp _ held)
    · exact sound.parsePrimary

theorem forward_parseArguments :
    Forward (fun args => args ≠ [] ∧ ∀ e ∈ args, Grammatical e) (parseArguments X frames) :=
  (moves_parseCommaSeparated (forward_passes _) sound.parseExpression).bind fun _ held =>
    (moves_expect X (forward_passes _)).bind fun _ _ => moves_pure held

theorem forward_parseInfix {expr : Expr} (column : IsColumn expr) (held : Grammatical expr) :
    Forward (fun o => ∀ e ∈ o, Grammatical e) (parseInfix X frames expr) := by
  refine moves_peek.bind fun t _ => ?_
  split
  · exact forward_advance.bind fun _ _ => (moves_expect X (forward_passes _)).bind fun _ _ =>
      (forward_parseArguments sound).bind fun list fine => moves_pure (by
        rintro _ ⟨⟩
        exact grammatical_inList column held fine.1 fine.2)
  · exact forward_advance.bind fun _ _ => sound.parseComparison.bind fun low first =>
      (moves_expect X (forward_passes _)).bind fun _ _ => sound.parseExpression.bind fun high second =>
        moves_pure (by
          rintro _ ⟨⟩
          exact grammatical_between column held first second)
  · exact forward_advance.bind fun _ _ => sound.parseExpression.bind fun pattern second =>
      moves_pure (by
        rintro _ ⟨⟩
        exact grammatical_like column held second)
  · exact forward_advance.bind fun _ _ => sound.parseExpression.bind fun pattern second =>
      moves_pure (by
        rintro _ ⟨⟩
        exact grammatical_iLike column held second)
  · exact moves_pure nofun

omit sound in
theorem forward_parseIs {expr : Expr} (column : IsColumn expr) (held : Grammatical expr) :
    Forward Grammatical (parseIs X expr) := by
  refine moves_branch (forward_passes _) ?_ ?_
  · exact (moves_expect X (forward_passes _)).bind fun _ _ => moves_pure (grammatical_isNotNull column held)
  · exact (moves_expect X (forward_passes _)).bind fun _ _ => moves_pure (grammatical_isNull column held)

theorem forward_parsePredicate {expr : Expr} (column : IsColumn expr) (held : Grammatical expr) :
    Forward Grammatical (parsePredicate X frames expr) := by
  intro saved _
  refine .of_step (get_apply saved) ?_
  refine (moves_eatIf (M := forward) (forward_passes _) saved trivial).bind fun negated s₁ moved => ?_
  split
  · refine (forward_parseInfix sound column held s₁ trivial).bind fun predicate s₂ read => ?_
    have further : After saved s₂ := moved.1.trans read.1
    cases predicate with
    | none => exact ends_restore (M := forward) trivial (moves_pure held) further.depth
    | some e => exact ends_pure ⟨further, grammatical_unaryOp _ (read.2 e rfl)⟩
  · refine Ends.mono (Q := fun e s' => After s₁ s' ∧ Grammatical e) ?_ fun e s' later =>
      ⟨moved.1.trans later.1, later.2⟩
    refine (moves_eatIf (M := forward) (forward_passes _)).bind (fun isNext _ => ?_) s₁ trivial
    split
    · exact forward_parseIs column held
    · refine (forward_parseInfix sound column held).bind fun predicate fine => moves_pure ?_
      cases predicate with
      | none => exact held
      | some e => exact fine e rfl

theorem forward_parseNamed (name : Text) : Forward Grammatical (parseNamed X frames name) := by
  refine moves_branch (forward_passes _) ?_ ?_
  · exact (forward_parseArguments sound).bind fun args fine =>
      moves_pure (grammatical_function name fine.1 fine.2)
  · refine moves_branch (forward_passes _) ?_ ?_
    · exact (moves_parseSqlType X fun _ => forward_passes _).bind fun t typed =>
        moves_pure (grammatical_cast typed (grammatical_column name))
    · exact forward_parsePredicate sound trivial (grammatical_column name)

theorem forward_parsePrimary : Forward Grammatical (parsePrimary X frames) := by
  have literal (val : LiteralValue) : Forward Grammatical (do advance; pure (.literal val)) :=
    forward_advance.bind fun _ _ => moves_pure (grammatical_literal val)
  refine moves_peek.bind fun t _ => ?_
  split
  · exact forward_advance.bind fun _ _ => sound.parseExpression.bind fun e held =>
      (moves_expect X (forward_passes _)).bind fun _ _ => moves_pure held
  · exact forward_advance.bind fun _ _ => sound.parseCase
  · exact forward_advance.bind fun _ _ => sound.parseCast
  iterate 5 · exact sound.parseAggregateFunction
  · exact sound.parseExists
  · exact literal _
  · exact literal _
  · exact literal _
  · exact forward_advance.bind fun _ _ => (moves_lift (fun _ => trivial) fun _ _ => trivial).bind
      fun val (_ : True) => moves_pure (grammatical_literal val)
  · exact literal _
  · exact forward_advance.bind fun _ _ => forward_parseNamed sound _
  · exact moves_errSyntax _ _

theorem forward_caseLoop (turns : Nat) (whens : List (Expr × Expr)) (elseVal : Option Expr)
    (each : ∀ w ∈ whens, Grammatical w.1 ∧ Grammatical w.2) (last : ∀ e ∈ elseVal, Grammatical e) :
    Forward (fun r => (∀ w ∈ r.1, Grammatical w.1 ∧ Grammatical w.2) ∧ ∀ e ∈ r.2, Grammatical e)
      (caseLoop X frames turns whens elseVal) := by
  induction turns generalizing whens elseVal with
  | zero => exact moves_errSyntax _ _
  | succ turns ih =>
    refine moves_branch (forward_passes _) ?_ ?_
    · refine sound.parseExpression.bind fun cond first => (moves_expect X (forward_passes _)).bind fun _ _ =>
        sound.parseExpression.bind fun result second => ih _ _ ?_ last
      intro w member
      rcases List.mem_append.mp member with old | new
      · exact each w old
      · rw [List.mem_singleton.mp new]
        exact ⟨first, second⟩
    · refine moves_branch (forward_passes _) ?_ ?_
      · exact sound.parseExpression.bind fun value held => ih _ _ each (by
          rintro _ ⟨⟩
          exact held)
      · refine moves_branch (forward_passes _) ?_ ?_
        · exact moves_pure ⟨each, last⟩
        · exact moves_errSyntax _ _

theorem forward_parseCase : Forward Grammatical (parseCase X frames) := by
  intro s inv
  refine .of_step (get_apply s) ?_
  refine (forward_caseLoop sound s.rest.length [] none nofun nofun).bind (fun r fine => ?_) s inv
  obtain ⟨whens, elseVal⟩ := r
  dsimp only
  split
  · exact moves_errSyntax _ _
  · next some =>
      exact moves_pure (grammatical_caseWhen (by simpa using some) fine.1 fine.2)

theorem forward_parseCast : Forward Grammatical (parseCast X frames) :=
  (moves_expect X (forward_passes _)).bind fun _ _ => sound.parseExpression.bind fun _ held =>
    (moves_expect X (forward_passes _)).bind fun _ _ => (moves_parseSqlType X fun _ => forward_passes _).bind fun _ typed =>
      (moves_expect X (forward_passes _)).bind fun _ _ => moves_pure (grammatical_cast typed held)

theorem forward_parseAggregateFunction : Forward Grammatical (parseAggregateFunction X frames) := by
  have alone (name : Text) {arg : Expr} (held : Grammatical arg) : Grammatical (.function name [arg]) :=
    grammatical_function name nofun (by
      intro e member
      rw [List.mem_singleton.mp member]
      exact held)
  refine moves_peek.bind fun t _ => ?_
  split
  · exact moves_errSyntax _ _
  · refine forward_advance.bind fun _ _ => (moves_expect X (forward_passes _)).bind fun _ _ =>
      (moves_eatIf (forward_passes _)).bind fun star _ => ?_
    split
    · exact (moves_expect X (forward_passes _)).bind fun _ _ => moves_pure (alone _ (grammatical_literal _))
    · refine moves_branch (forward_passes _) ?_ ?_
      · exact sound.parseExpression.bind fun e held => (moves_expect X (forward_passes _)).bind fun _ _ =>
          moves_pure (alone _ held)
      · exact (forward_parseArguments sound).bind fun args fine =>
          moves_pure (grammatical_function _ fine.1 fine.2)

theorem forward_parseExists : Forward Grammatical (parseExists X frames) :=
  forward_advance.bind fun _ _ => (moves_expect X (forward_passes _)).bind fun _ _ => sound.parseSelect.bind
    fun sel _ => (moves_expect X (forward_passes _)).bind fun _ _ => moves_pure
      (grammatical_function _ nofun (by
        intro e member
        rw [List.mem_singleton.mp member]
        exact grammatical_literal _))

end Functions

/-- **Every function of the parser goes forward and returns what the grammar has**, with any room for
calls. -/
theorem calls_sound (X : Extern) (stack : Nat) : (calls X stack).Sound := by
  induction stack with
  | zero =>
    have none {α : Type} (good : α → Prop) : Forward good overflow :=
      moves_lift (fun _ => trivial) nofun
    exact ⟨none _, none _, none _, none _, none _, none _, none _, none _, none _, none _, none _,
      none _, none _, none _⟩
  | succ stack ih =>
    exact {
      parseExpression := forward_parseExpression ih
      parseOr := forward_leftAssoc rfl ih.parseAnd
      parseAnd := forward_leftAssoc rfl ih.parseEquality
      parseEquality := forward_leftAssoc rfl ih.parseComparison
      parseComparison := forward_leftAssoc rfl ih.parseTerm
      parseTerm := forward_leftAssoc rfl ih.parseFactor
      parseFactor := forward_leftAssoc rfl ih.parseUnary
      parseUnary := forward_parseUnary ih
      parsePrimary := forward_parsePrimary ih
      parseCase := forward_parseCase ih
      parseCast := forward_parseCast ih
      parseAggregateFunction := forward_parseAggregateFunction ih
      parseExists := forward_parseExists ih
      parseSelect := moves_parseSelect (fun t _ => forward_passes t) ih.parseExpression }

end Parser

end NovaRuntime.Sql
