/-
# NovaRuntime.Sql.Nesting — how deep the parser goes, and how deep its trees are

The counter of `parse_expression` bounds how deep expressions are nested in parentheses, lists, CASE
and the operands of LIKE. It does not count prefix operators, the lower bounds of BETWEEN, nor the
turns of the loops over binary operators; each of these takes an operator. `run` counts the operators
of an expression without what its brackets hold, and `bounded_of_runs` bounds the open calls and the
trees of a program by the longest run.

`unbounded_runs` shows that nothing else bounds them.
-/
import Mathlib.Data.List.Infix
import NovaRuntime.Sql.ParserRoom

namespace NovaRuntime.Sql

open NovaRuntime.Library NovaRuntime.Library.Exec

set_option autoImplicit false

/-! ## Depth of a tree -/

mutual

/-- How many expressions are inside one another. -/
def Expr.depth : Expr → Nat
  | .column _ | .literal _ => 1
  | .binaryOp left _ right => max left.depth right.depth + 1
  | .unaryOp _ expr | .isNull expr | .isNotNull expr | .cast expr _ => expr.depth + 1
  | .function _ args => depthAll args + 1
  | .inList expr list => max expr.depth (depthAll list) + 1
  | .between expr low high => max expr.depth (max low.depth high.depth) + 1
  | .like expr pattern | .iLike expr pattern => max expr.depth pattern.depth + 1
  | .caseWhen whens elseVal => max (depthWhens whens) (depthElse elseVal) + 1

def depthAll : List Expr → Nat
  | [] => 0
  | e :: rest => max e.depth (depthAll rest)

def depthWhen : Expr × Expr → Nat
  | (cond, result) => max cond.depth result.depth

def depthWhens : List (Expr × Expr) → Nat
  | [] => 0
  | w :: rest => max (depthWhen w) (depthWhens rest)

def depthElse : Option Expr → Nat
  | some e => e.depth
  | none => 0

end

theorem depthAll_le {list : List Expr} {n : Nat} (each : ∀ e ∈ list, e.depth ≤ n) : depthAll list ≤ n := by
  induction list with
  | nil => exact Nat.zero_le n
  | cons e rest ih => exact max_le (each e (.head _)) (ih fun e member => each e (.tail _ member))

theorem depthWhens_le {whens : List (Expr × Expr)} {n : Nat} (each : ∀ w ∈ whens, w.1.depth ≤ n ∧ w.2.depth ≤ n) :
    depthWhens whens ≤ n := by
  induction whens with
  | nil => exact Nat.zero_le n
  | cons w rest ih =>
    obtain ⟨cond, result⟩ := w
    have first := each (cond, result) List.mem_cons_self
    exact max_le (max_le first.1 first.2) (ih fun w member => each w (.tail _ member))

theorem depthElse_le {elseVal : Option Expr} {n : Nat} (last : ∀ e ∈ elseVal, e.depth ≤ n) : depthElse elseVal ≤ n := by
  cases elseVal with
  | none => exact Nat.zero_le n
  | some e => exact last e rfl

namespace Parser

/-! ## Runs of operators -/

/-- What may make a tree or the stack deeper without being counted. -/
def isOperator : Token → Bool
  | .keyword .or | .keyword .and | .keyword .not | .keyword .between => true
  | .symbol .eq | .symbol .notEq | .symbol .lt | .symbol .ltEq | .symbol .gt | .symbol .gtEq => true
  | .symbol .plus | .symbol .minus | .symbol .concat => true
  | .symbol .star | .symbol .slash | .symbol .percent => true
  | _ => false

/-- The keywords inside an expression, apart from what its brackets hold. -/
def insideExpression : Keyword → Bool
  | .and | .or | .not | .null | .is | .inKw | .between | .like | .iLike | .true | .false | .exists
  | .count | .sum | .avg | .min | .max | .cast => true
  | _ => false

/-- A token that no expression holds but in brackets. -/
def isBreak : Token → Bool
  | .keyword k => ! insideExpression k
  | .symbol .comma | .symbol .semicolon | .symbol .dot | .eof => true
  | _ => false

/-- The operators up to the end of an expression, with so many brackets still open. What is in brackets
is left out. -/
def run : Nat → List Token → Nat
  | _, [] => 0
  | 0, t :: rest =>
    if isOpen t then run 1 rest
    else if isClose t || isBreak t then 0
    else (if isOperator t then 1 else 0) + run 0 rest
  | level + 1, t :: rest =>
    if isOpen t then run (level + 2) rest
    else if isClose t then run level rest
    else run (level + 1) rest

/-- From no place on is a run longer than `n`. -/
def RunsWithin (n : Nat) (tokens : List Token) : Prop := ∀ tail, tail <:+ tokens → run 0 tail ≤ n

instance (n : Nat) (tokens : List Token) : Decidable (RunsWithin n tokens) :=
  decidable_of_iff (∀ tail ∈ tokens.tails, run 0 tail ≤ n) (by simp only [RunsWithin, List.mem_tails])

def tokens (s : Parser) : List Token := s.rest.map Prod.fst

theorem tokens_eq {s : Parser} (found : s.token ≠ .eof) : s.tokens = s.token :: s.next.tokens := by
  rcases s with ⟨_ | ⟨first, rest⟩, depth⟩
  · exact absurd rfl found
  · rfl

/-! ## What is left behind a part of an expression -/

/-- Brackets that were opened are closed. -/
structure Within (s s' : Parser) : Prop extends After s s' where
  brackets : ∀ level, run (level + 1) s'.tokens = run (level + 1) s.tokens

/-- Part of one expression: no more operators are left than before. -/
structure Along (s s' : Parser) : Prop extends Within s s' where
  shorter : run 0 s'.tokens ≤ run 0 s.tokens

/-- From behind an opening bracket to behind the closing one. -/
structure Closes (s s' : Parser) : Prop extends After s s' where
  brackets : ∀ level, run level s'.tokens = run (level + 1) s.tokens

theorem Within.refl (s : Parser) : Within s s := ⟨.refl s, fun _ => rfl⟩

theorem Within.trans {s t u : Parser} (first : Within s t) (second : Within t u) : Within s u :=
  ⟨first.toAfter.trans second.toAfter, fun level => (second.brackets level).trans (first.brackets level)⟩

theorem Along.refl (s : Parser) : Along s s := ⟨.refl s, le_rfl⟩

theorem Along.trans {s t u : Parser} (first : Along s t) (second : Along t u) : Along s u :=
  ⟨first.toWithin.trans second.toWithin, second.shorter.trans first.shorter⟩

theorem Within.closes {s t u : Parser} (first : Within s t) (second : Closes t u) : Closes s u :=
  ⟨first.toAfter.trans second.toAfter, fun level => (second.brackets level).trans (first.brackets level)⟩

section Tokens

variable {s : Parser} {t : Token}

theorem ordinary_iff : ordinary t = true ↔ t ≠ .eof ∧ isOpen t = false ∧ isClose t = false := by
  cases t <;> simp [ordinary]

section

variable (found : s.token = t)

include found

/-- A token in brackets that is none itself. -/
theorem within_next (plain : ordinary t = true) : Within s s.next := by
  obtain ⟨notEnd, notOpen, notClose⟩ := ordinary_iff.mp plain
  have first : s.tokens = s.token :: s.next.tokens := tokens_eq (by rwa [found])
  refine ⟨after_next s, fun level => ?_⟩
  rw [first, found, run, if_neg (by simp [notOpen]), if_neg (by simp [notClose])]

theorem run_next (plain : ordinary t = true) (inside : isBreak t = false) :
    run 0 s.tokens = (if isOperator t then 1 else 0) + run 0 s.next.tokens := by
  obtain ⟨notEnd, notOpen, notClose⟩ := ordinary_iff.mp plain
  have first : s.tokens = s.token :: s.next.tokens := tokens_eq (by rwa [found])
  rw [first, found, run, if_neg (by simp [notOpen]), if_neg (by simp [notClose, inside])]

/-- A token of an expression. -/
theorem along_next (plain : ordinary t = true) (inside : isBreak t = false) : Along s s.next := by
  have counted := run_next found plain inside
  exact ⟨within_next found plain, by omega⟩

/-- An operator shortens the run. -/
theorem along_operator (operator : isOperator t = true) :
    Along s s.next ∧ run 0 s.next.tokens + 1 = run 0 s.tokens := by
  have kind : ordinary t = true ∧ isBreak t = false := by
    unfold isOperator at operator
    split at operator <;> first | exact ⟨rfl, rfl⟩ | cases operator
  have counted := run_next found kind.1 kind.2
  rw [if_pos operator] at counted
  exact ⟨along_next found kind.1 kind.2, by omega⟩

/-- What is opened and closed again is left out of a run. -/
theorem along_of_closes {s' : Parser} (opens : isOpen t = true) (closes : Closes s.next s') : Along s s' := by
  have notEnd : s.token ≠ .eof := by
    rintro atEnd
    rw [← found, atEnd] at opens
    cases opens
  have opened (level : Nat) : run level s.tokens = run (level + 1) s.next.tokens := by
    rw [tokens_eq notEnd, found]
    cases level <;> rw [run, if_pos opens]
  refine ⟨⟨(after_next s).trans closes.toAfter, fun level => ?_⟩, ?_⟩
  · rw [closes.brackets, ← opened]
  · rw [closes.brackets, ← opened]

theorem closes_next (closing : isClose t = true) : Closes s s.next := by
  have notEnd : s.token ≠ .eof ∧ isOpen t = false := by
    subst found
    cases token : s.token <;> rw [token] at closing <;> revert closing
    case keyword k => cases k <;> decide
    case symbol k => cases k <;> decide
    all_goals nofun
  refine ⟨after_next s, fun level => ?_⟩
  rw [tokens_eq notEnd.1, found, run, if_neg (by simp [notEnd.2]), if_pos closing]

end

end Tokens

theorem RunsWithin.after {n : Nat} {s s' : Parser} (runs : RunsWithin n s.tokens) (moved : After s s') :
    RunsWithin n s'.tokens :=
  fun tail suffix => runs tail (suffix.trans (moved.left.map Prod.fst))

/-! ## What the functions need and give -/

section Bounds

variable (n : Nat)

/-- The depth of a tree at a value of the counter, beyond the run it is made from. -/
def limit (depth : Nat) : Nat := (n + 1) * (maxNestingDepth - depth) + 2

/-- The calls below a value of the counter. -/
def room (depth : Nat) : Nat := (5 * n + 11) * (maxNestingDepth - depth)

/-- A function with so many calls left, on its level of precedence, comes back with a part of the
expression; what it takes of the run bounds the depth of its tree. -/
def Level (stack rank : Nat) (x : Method Expr) : Prop :=
  ∀ s, RunsWithin n s.tokens → room n s.depth + 5 * run 0 s.tokens + rank ≤ stack →
    Ends False x s fun e s' => Along s s' ∧ e.depth + run 0 s'.tokens ≤ limit n s.depth + run 0 s.tokens

/-- A function that reads up to a closing bracket. -/
def Bracketed (stack : Nat) (R : Parser → Parser → Prop) (x : Method Expr) : Prop :=
  ∀ s, RunsWithin n s.tokens → room n s.depth + 2 ≤ stack →
    Ends False x s fun e s' => R s s' ∧ e.depth ≤ limit n s.depth

/-- Along one expression, anywhere. -/
def along : Motion Parser := ⟨fun _ => True, Along, .refl, .trans, fun _ _ => trivial⟩

/-- Inside brackets, at one value of the counter. -/
def nested (depth : Nat) : Motion Parser where
  inv s := s.depth = depth ∧ RunsWithin n s.tokens
  rel := Within
  refl := .refl
  trans := .trans
  keeps inv moved := ⟨moved.depth.trans inv.1, inv.2.after moved.toAfter⟩

/-- Every function comes back, if it has the room for it. -/
structure Calls.Fits (stack : Nat) (frames : Calls) : Prop where
  parseExpression : ∀ s, RunsWithin n s.tokens → room n s.depth + 1 ≤ stack →
    Ends False frames.parseExpression s fun e s' =>
      Along s s' ∧ e.depth + n + 1 + run 0 s'.tokens ≤ limit n s.depth + run 0 s.tokens
  parseOr : Level n stack 11 frames.parseOr
  parseAnd : Level n stack 10 frames.parseAnd
  parseEquality : Level n stack 9 frames.parseEquality
  parseComparison : Level n stack 8 frames.parseComparison
  parseTerm : Level n stack 7 frames.parseTerm
  parseFactor : Level n stack 6 frames.parseFactor
  parseUnary : Level n stack 5 frames.parseUnary
  parsePrimary : Level n stack 4 frames.parsePrimary
  parseCase : Bracketed n stack Closes frames.parseCase
  parseCast : Bracketed n stack Along frames.parseCast
  parseAggregateFunction : Bracketed n stack Along frames.parseAggregateFunction
  parseExists : ∀ s, RunsWithin n s.tokens → s.token = .keyword .exists → room n s.depth + 3 ≤ stack →
    Ends False frames.parseExists s fun e s' => Along s s' ∧ e.depth ≤ limit n s.depth
  parseSelect : ∀ depth, room n depth + 2 ≤ stack → Moves False (nested n depth)
    (fun sel => ∀ e ∈ sel.exprs, e.depth + 1 ≤ limit n depth) frames.parseSelect

end Bounds

section Levels

variable {n stack rank : Nat} {op : Token → Option BinaryOperator} {operand : Method Expr}

section

variable (ops : ∀ t o, op t = some o → isOperator t = true) (each : Level n stack rank operand)

include ops each

/-- A turn takes an operator, so it may make the tree deeper and needs no more room. -/
theorem loop_fits {s₀ : Parser} (fits : room n s₀.depth + 5 * run 0 s₀.tokens + rank ≤ stack)
    (runs : RunsWithin n s₀.tokens) (turns : Nat) (left : Expr) (s : Parser) (moved : Along s₀ s)
    (low : left.depth + run 0 s.tokens ≤ limit n s₀.depth + run 0 s₀.tokens) :
    Ends False (leftAssocLoop op operand turns left) s fun e s' =>
      Along s₀ s' ∧ e.depth + run 0 s'.tokens ≤ limit n s₀.depth + run 0 s₀.tokens := by
  induction turns generalizing left s with
  | zero => exact ends_pure ⟨moved, low⟩
  | succ turns ih =>
    refine .of_step (peek_apply s) ?_
    split
    next operator found =>
      obtain ⟨further, shorter⟩ := along_operator rfl (ops _ _ found)
      have next := moved.trans further
      have depth := next.depth
      have shorter' := moved.shorter
      refine .of_step (advance_apply s) ?_
      refine (each s.next (runs.after next.toAfter) (by rw [depth]; omega)).bind fun right s' read => ?_
      obtain ⟨along, lowRight⟩ := read
      rw [depth] at lowRight
      have shorter'' := along.shorter
      refine ih _ s' (next.trans along) ?_
      rw [Expr.depth]
      omega
    next => exact ends_pure ⟨moved, low⟩

/-- A level of operators needs one call more than its operands. -/
theorem level_fits : Level n (stack + 1) (rank + 1) (leftAssoc op operand) := by
  intro s runs fits
  have fits : room n s.depth + 5 * run 0 s.tokens + rank ≤ stack := by omega
  refine (each s runs fits).bind fun left s' read => ?_
  refine .of_step (get_apply s') ?_
  exact loop_fits ops each fits runs _ left s' read.1 read.2

end

end Levels

section Functions

variable {X : Extern} {n stack : Nat} {frames : Calls}

theorem two_le_limit (depth : Nat) : 2 ≤ limit n depth := Nat.le_add_left 2 _

theorem limit_succ {depth : Nat} (shallow : depth < maxNestingDepth) :
    limit n depth = limit n (depth + 1) + (n + 1) := by
  obtain ⟨k, same⟩ : ∃ k, maxNestingDepth - depth = k + 1 := ⟨maxNestingDepth - depth - 1, by omega⟩
  rw [limit, limit, same, show maxNestingDepth - (depth + 1) = k by omega, Nat.mul_succ]
  omega

theorem room_succ {depth : Nat} (shallow : depth < maxNestingDepth) :
    room n depth = room n (depth + 1) + (5 * n + 11) := by
  obtain ⟨k, same⟩ : ∃ k, maxNestingDepth - depth = k + 1 := ⟨maxNestingDepth - depth - 1, by omega⟩
  rw [room, room, same, show maxNestingDepth - (depth + 1) = k by omega, Nat.mul_succ]

theorem run_le {s : Parser} (runs : RunsWithin n s.tokens) : run 0 s.tokens ≤ n := runs _ List.suffix_rfl

variable (fits : frames.Fits n stack)

include fits

theorem fits_parseExpression (s : Parser) (runs : RunsWithin n s.tokens) (enough : room n s.depth + 1 ≤ stack + 1) :
    Ends False (parseExpression frames) s fun e s' =>
      Along s s' ∧ e.depth + n + 1 + run 0 s'.tokens ≤ limit n s.depth + run 0 s.tokens := by
  by_cases deep : maxNestingDepth ≤ s.depth
  · have refused : parseExpression frames s =
        (.err (.queryTooComplex "max nesting depth exceeded".toList), s) := by
      rw [parseExpression, if_pos deep]
    constructor
    · intro hangs
      rw [refused] at hangs
      cases hangs
    · intro e s' ran
      rw [refused] at ran
      cases ran
  · have shallow : s.depth < maxNestingDepth := by omega
    have short := run_le runs
    have roomIs := room_succ (n := n) shallow
    have limitIs := limit_succ (n := n) shallow
    obtain ⟨returns, post⟩ := fits.parseOr { s with depth := s.depth + 1 } runs (by
      change room n (s.depth + 1) + 5 * run 0 s.tokens + 11 ≤ stack
      omega)
    have inner : parseExpression frames s = ((frames.parseOr { s with depth := s.depth + 1 }).1,
        { (frames.parseOr { s with depth := s.depth + 1 }).2 with
          depth := (frames.parseOr { s with depth := s.depth + 1 }).2.depth - 1 }) := if_neg deep
    refine ⟨by rwa [inner], fun e s' step => ?_⟩
    rcases ran : frames.parseOr { s with depth := s.depth + 1 } with ⟨o, s₁⟩
    rw [inner, ran] at step
    obtain ⟨rfl, rfl⟩ := Prod.mk.inj step
    obtain ⟨along, low⟩ := post e s₁ ran
    have back : s₁.depth - 1 = s.depth := by rw [along.depth, Nat.add_sub_cancel]
    refine ⟨⟨⟨⟨back, along.left⟩, along.brackets⟩, along.shorter⟩, ?_⟩
    change e.depth + n + 1 + run 0 s₁.tokens ≤ _
    change e.depth + run 0 s₁.tokens ≤ limit n (s.depth + 1) + run 0 s.tokens at low
    omega

/-- In brackets an expression is below what holds it. -/
theorem moves_expression {depth : Nat} (enough : room n depth + 1 ≤ stack) :
    Moves False (nested n depth) (fun e => e.depth + 1 ≤ limit n depth) frames.parseExpression := by
  rintro s ⟨rfl, runs⟩
  refine (fits.parseExpression s runs enough).mono fun e s' read => ⟨read.1.toWithin, ?_⟩
  have short := run_le runs
  have low := read.2
  omega

omit fits in
theorem nested_passes (depth : Nat) (t : Token) (plain : ordinary t = true) : Passes (nested n depth) t :=
  fun _ _ found => within_next found plain

theorem fits_parseArguments (s : Parser) (runs : RunsWithin n s.tokens) (enough : room n s.depth + 1 ≤ stack) :
    Ends False (parseArguments X frames) s fun args s' => Closes s s' ∧ ∀ e ∈ args, e.depth + 1 ≤ limit n s.depth := by
  refine (moves_parseCommaSeparated (nested_passes _ _ rfl) (moves_expression fits enough) s ⟨rfl, runs⟩).bind
    fun args s₁ read => ends_expect X fun found => ?_
  exact ends_pure ⟨read.1.closes (closes_next found rfl), read.2.2⟩

/-- A list in parentheses, behind the opening one. -/
theorem fits_list (s : Parser) (runs : RunsWithin n s.tokens) (opened : s.token = .symbol .lParen)
    (enough : room n s.depth + 1 ≤ stack) :
    Ends False (parseArguments X frames) s.next fun args s' =>
      Along s s' ∧ ∀ e ∈ args, e.depth + 1 ≤ limit n s.depth := by
  have moved := after_next s
  refine (fits_parseArguments fits s.next (runs.after moved) (by rwa [moved.depth])).mono fun args s' read => ?_
  exact ⟨along_of_closes opened rfl read.1, moved.depth ▸ read.2⟩

/-- A word and the pattern behind it. -/
theorem fits_pattern {build : Expr → Expr} (deeper : ∀ p, (build p).depth = max 1 p.depth + 1) (s : Parser)
    (runs : RunsWithin n s.tokens) {word : Token} (found : s.token = word) (plain : ordinary word = true)
    (inside : isBreak word = false) (enough : room n s.depth + 1 ≤ stack) :
    Ends False (do advance; let pattern ← frames.parseExpression; pure (some (build pattern))) s fun o s' =>
      (∀ e ∈ o, Along s s' ∧ e.depth + run 0 s'.tokens ≤ limit n s.depth + run 0 s.tokens) ∧ (o = none → s' = s) := by
  have base := two_le_limit (n := n) s.depth
  have moved := along_next found plain inside
  have depth := moved.depth
  have short := moved.shorter
  refine .of_step (advance_apply s) ?_
  refine (fits.parseExpression s.next (runs.after moved.toAfter) (by rwa [depth])).bind
    fun pattern s' read => ends_pure ⟨?_, nofun⟩
  rintro _ ⟨⟩
  obtain ⟨along, low⟩ := read
  have shorter := along.shorter
  rw [depth] at low
  refine ⟨moved.trans along, ?_⟩
  rw [deeper]
  omega

theorem fits_parseInfix {expr : Expr} (leaf : expr.depth = 1) (s : Parser) (runs : RunsWithin n s.tokens)
    (enough : room n s.depth + 5 * run 0 s.tokens + 3 ≤ stack) :
    Ends False (parseInfix X frames expr) s fun o s' =>
      (∀ e ∈ o, Along s s' ∧ e.depth + run 0 s'.tokens ≤ limit n s.depth + run 0 s.tokens) ∧ (o = none → s' = s) := by
  have base := two_le_limit (n := n) s.depth
  refine .of_step (peek_apply s) ?_
  split
  next found =>
    -- IN and its list
    have moved := along_next found rfl rfl
    have depth := moved.depth
    refine .of_step (advance_apply s) ?_
    refine ends_expect X fun isOpen => ?_
    refine (fits_list fits s.next (runs.after moved.toAfter) isOpen (by rw [depth]; omega)).bind
      fun list s' read => ends_pure ⟨?_, nofun⟩
    rintro _ ⟨⟩
    obtain ⟨along, each⟩ := read
    have shorter := (moved.trans along).shorter
    have low : depthAll list ≤ limit n s.depth - 1 := depthAll_le fun e member => by
      have := each e member
      rw [depth] at this
      omega
    refine ⟨moved.trans along, ?_⟩
    rw [Expr.depth, leaf]
    omega
  next found =>
    -- BETWEEN is an operator, and so is its AND
    obtain ⟨moved, counted⟩ := along_operator found rfl
    have depth := moved.depth
    refine .of_step (advance_apply s) ?_
    refine (fits.parseComparison s.next (runs.after moved.toAfter) (by rw [depth]; omega)).bind fun low s₁ read => ?_
    obtain ⟨along, lowFits⟩ := read
    have moved₁ := moved.trans along
    have depth₁ := moved₁.depth
    have short₁ := along.shorter
    refine ends_expect X fun isAnd => ?_
    obtain ⟨further, counted₁⟩ := along_operator isAnd rfl
    have moved₂ := moved₁.trans further
    have depth₂ := moved₂.depth
    refine (fits.parseExpression s₁.next (runs.after moved₂.toAfter) (by rw [depth₂]; omega)).bind
      fun high s₃ read => ends_pure ⟨?_, nofun⟩
    rintro _ ⟨⟩
    obtain ⟨last, highFits⟩ := read
    have short₂ := last.shorter
    rw [depth] at lowFits
    rw [depth₂] at highFits
    refine ⟨moved₂.trans last, ?_⟩
    rw [Expr.depth, leaf]
    omega
  next found => exact fits_pattern fits (fun p => by rw [Expr.depth, leaf]) s runs found rfl rfl (by omega)
  next found => exact fits_pattern fits (fun p => by rw [Expr.depth, leaf]) s runs found rfl rfl (by omega)
  next => exact ends_pure ⟨nofun, fun _ => rfl⟩

omit fits in
theorem fits_parseIs {expr : Expr} (leaf : expr.depth = 1) (s : Parser) :
    Ends False (parseIs X expr) s fun e s' => Along s s' ∧ e.depth = 2 := by
  refine ends_eatIf (fun found => ?_) fun _ => ?_
  · refine ends_expect X fun isNull => ends_pure ⟨?_, by rw [Expr.depth, leaf]⟩
    exact (along_next found rfl rfl).trans (along_next isNull rfl rfl)
  · exact ends_expect X fun isNull => ends_pure ⟨along_next isNull rfl rfl, by rw [Expr.depth, leaf]⟩

theorem fits_parsePredicate {expr : Expr} (leaf : expr.depth = 1) (s : Parser) (runs : RunsWithin n s.tokens)
    (enough : room n s.depth + 5 * run 0 s.tokens + 3 ≤ stack) :
    Ends False (parsePredicate X frames expr) s fun e s' =>
      Along s s' ∧ e.depth + run 0 s'.tokens ≤ limit n s.depth + run 0 s.tokens := by
  have base := two_le_limit (n := n) s.depth
  refine .of_step (get_apply s) ?_
  refine ends_eatIf (fun found => ?_) fun _ => ?_
  · obtain ⟨moved, counted⟩ := along_operator found rfl
    have depth := moved.depth
    refine (fits_parseInfix fits leaf s.next (runs.after moved.toAfter) (by rw [depth]; omega)).bind
      fun o s₂ read => ?_
    cases o with
    | none =>
      cases read.2 rfl
      have same : Moves False along (· = expr) (pure expr : Method Expr) := moves_pure rfl
      have restored : s.next.depth = s.depth := rfl
      refine (ends_restore trivial same restored).mono ?_
      rintro e s' ⟨moved, rfl⟩
      have shorter := moved.shorter
      exact ⟨moved, by omega⟩
    | some predicate =>
      obtain ⟨further, low⟩ := read.1 predicate rfl
      rw [depth] at low
      refine ends_pure ⟨moved.trans further, ?_⟩
      rw [Expr.depth]
      omega
  · refine ends_eatIf (fun found => ?_) fun _ => ?_
    · have moved := along_next found rfl rfl
      refine (fits_parseIs leaf s.next).mono fun e s' read => ⟨moved.trans read.1, ?_⟩
      have shorter := (moved.trans read.1).shorter
      rw [read.2]
      omega
    · refine (fits_parseInfix fits leaf s runs enough).bind fun o s' read => ends_pure ?_
      cases o with
      | none =>
        cases read.2 rfl
        exact ⟨.refl s, by rw [Option.getD_none]; omega⟩
      | some predicate => exact read.1 predicate rfl

omit fits in
theorem along_passes (t : Token) (plain : ordinary t = true) (inside : isBreak t = false) : Passes along t :=
  fun _ _ found => along_next found plain inside

theorem fits_parseNamed (name : Text) (s : Parser) (runs : RunsWithin n s.tokens)
    (enough : room n s.depth + 5 * run 0 s.tokens + 3 ≤ stack) :
    Ends False (parseNamed X frames name) s fun e s' =>
      Along s s' ∧ e.depth + run 0 s'.tokens ≤ limit n s.depth + run 0 s.tokens := by
  have base := two_le_limit (n := n) s.depth
  refine ends_eatIf (fun found => ?_) fun _ => ?_
  · refine (fits_list fits s runs found (by omega)).bind fun args s' read => ends_pure ⟨read.1, ?_⟩
    have shorter := read.1.shorter
    have low : depthAll args ≤ limit n s.depth - 1 := depthAll_le fun e member => by
      have := read.2 e member
      omega
    rw [Expr.depth]
    omega
  · refine ends_eatIf (fun found => ?_) fun _ => ?_
    · have moved := along_next found rfl rfl
      refine (moves_parseSqlType (M := along) X (fun _ => along_passes _ rfl rfl) s.next trivial).bind
        fun t s' read => ends_pure ⟨moved.trans read.1, ?_⟩
      have shorter := (moved.trans read.1).shorter
      rw [Expr.depth, Expr.depth]
      omega
    · exact fits_parsePredicate fits (by rw [Expr.depth]) s runs enough

omit fits in
theorem ends_literal {x : Method Expr} {s : Parser} {t : Token} (found : s.token = t) (plain : ordinary t = true)
    (inside : isBreak t = false) (behind : Moves False along (fun e => e.depth = 1) x) :
    Ends False (do advance; x) s fun e s' =>
      Along s s' ∧ e.depth + run 0 s'.tokens ≤ limit n s.depth + run 0 s.tokens := by
  have base := two_le_limit (n := n) s.depth
  refine (ends_advance (M := along) (along_passes t plain inside) trivial found behind).mono fun e s' read => ?_
  have shorter := read.1.shorter
  exact ⟨read.1, by have := read.2; omega⟩

omit fits in
theorem numberLiteral_returns (digits : Text) : numberLiteral X digits ≠ .hang := by
  unfold numberLiteral
  split
  · split <;> nofun
  · split <;> nofun

theorem fits_group (s : Parser) (runs : RunsWithin n s.tokens) (found : s.token = .symbol .lParen)
    (enough : room n s.depth + 1 ≤ stack) :
    Ends False (do let expr ← frames.parseExpression; expect X (.symbol .rParen); pure expr) s.next fun e s' =>
      Along s s' ∧ e.depth ≤ limit n s.depth := by
  have moved := after_next s
  refine (moves_expression fits enough s.next ⟨moved.depth, runs.after moved⟩).bind fun e s₁ read =>
    ends_expect X fun isClose => ?_
  exact ends_pure ⟨along_of_closes found rfl (read.1.closes (closes_next isClose rfl)), by have := read.2; omega⟩

theorem fits_parsePrimary : Level n (stack + 1) 4 (parsePrimary X frames) := by
  intro s runs enough
  have base := two_le_limit (n := n) s.depth
  refine .of_step (peek_apply s) ?_
  -- what is known to be low is low beyond the run that is left
  have bracketed {x : Method Expr} (ends : Ends False x s fun e s' => Along s s' ∧ e.depth ≤ limit n s.depth) :
      Ends False x s fun e s' => Along s s' ∧ e.depth + run 0 s'.tokens ≤ limit n s.depth + run 0 s.tokens :=
    ends.mono fun e s' read => ⟨read.1, by have := read.1.shorter; have := read.2; omega⟩
  have leaf (val : LiteralValue) : Moves False along (fun e => e.depth = 1) (pure (.literal val) : Method Expr) :=
    moves_pure (by rw [Expr.depth])
  split
  next found =>
    exact bracketed (.of_step (advance_apply s) (fits_group fits s runs found (by omega)))
  next found =>
    have moved := after_next s
    refine bracketed (.of_step (advance_apply s) ?_)
    refine (fits.parseCase s.next (runs.after moved) (by rw [moved.depth]; omega)).mono fun e s' read => ?_
    exact ⟨along_of_closes found rfl read.1, moved.depth ▸ read.2⟩
  next found =>
    have moved := along_next found rfl rfl
    refine bracketed (.of_step (advance_apply s) ?_)
    refine (fits.parseCast s.next (runs.after moved.toAfter) (by rw [moved.depth]; omega)).mono fun e s' read => ?_
    exact ⟨moved.trans read.1, moved.depth ▸ read.2⟩
  iterate 5 next found => exact bracketed (fits.parseAggregateFunction s runs (by omega))
  next found => exact bracketed (fits.parseExists s runs found (by omega))
  next found => exact ends_literal found rfl rfl (leaf _)
  next found => exact ends_literal found rfl rfl (leaf _)
  next found => exact ends_literal found rfl rfl (leaf _)
  next digits found =>
    refine ends_literal found rfl rfl ?_
    exact (moves_lift (numberLiteral_returns digits) fun _ _ => trivial).bind fun val (_ : True) => leaf val
  next found => exact ends_literal found rfl rfl (leaf _)
  next name found =>
    have moved := along_next found rfl rfl
    have shorter := moved.shorter
    refine .of_step (advance_apply s) ?_
    refine (fits_parseNamed fits name s.next (runs.after moved.toAfter) (by rw [moved.depth]; omega)).mono
      fun e s' read => ⟨moved.trans read.1, ?_⟩
    have low := read.2
    rw [moved.depth] at low
    omega
  next => exact ⟨nofun, nofun⟩

theorem fits_parseUnary : Level n (stack + 1) 5 (parseUnary frames) := by
  intro s runs enough
  -- a prefix operator and its operand
  have negated {t : Token} (op : UnaryOperator) (found : s.token = t) (operator : isOperator t = true) :
      Ends False (do let expr ← frames.parseUnary; pure (Expr.unaryOp op expr)) s.next fun e s' =>
        Along s s' ∧ e.depth + run 0 s'.tokens ≤ limit n s.depth + run 0 s.tokens := by
    obtain ⟨moved, counted⟩ := along_operator found operator
    refine (fits.parseUnary s.next (runs.after moved.toAfter) (by rw [moved.depth]; omega)).bind fun e s' read => ?_
    have low := read.2
    rw [moved.depth] at low
    refine ends_pure ⟨moved.trans read.1, ?_⟩
    rw [Expr.depth]
    omega
  refine ends_eatIf (fun found => ?_) fun _ => ?_
  · exact negated .neg found rfl
  · refine ends_eatIf (fun found => ?_) fun _ => ?_
    · exact negated .not found rfl
    · exact fits.parsePrimary s runs (by omega)

theorem fits_caseLoop {depth : Nat} (enough : room n depth + 1 ≤ stack) (turns : Nat) (whens : List (Expr × Expr))
    (elseVal : Option Expr) (s : Parser) (inv : (nested n depth).inv s)
    (each : ∀ w ∈ whens, w.1.depth + 1 ≤ limit n depth ∧ w.2.depth + 1 ≤ limit n depth)
    (last : ∀ e ∈ elseVal, e.depth + 1 ≤ limit n depth) :
    Ends False (caseLoop X frames turns whens elseVal) s fun r s' => Closes s s' ∧
      (∀ w ∈ r.1, w.1.depth + 1 ≤ limit n depth ∧ w.2.depth + 1 ≤ limit n depth) ∧
      ∀ e ∈ r.2, e.depth + 1 ≤ limit n depth := by
  have expression := moves_expression fits enough
  induction turns generalizing whens elseVal s with
  | zero => exact ⟨nofun, nofun⟩
  | succ turns ih =>
    refine ends_eatIf (fun found => ?_) fun _ => ?_
    · have moved := within_next found rfl
      refine (expression s.next ((nested n depth).keeps inv moved)).bind fun cond s₂ first => ?_
      have moved₂ := moved.trans first.1
      refine (moves_expect X (nested_passes depth _ rfl) s₂ ((nested n depth).keeps inv moved₂)).bind
        fun _ s₃ thenRead => ?_
      have moved₃ := moved₂.trans thenRead.1
      refine (expression s₃ ((nested n depth).keeps inv moved₃)).bind fun result s₄ second => ?_
      have moved₄ := moved₃.trans second.1
      refine (ih _ elseVal s₄ ((nested n depth).keeps inv moved₄) ?_ last).mono
        fun r s' closed => ⟨moved₄.closes closed.1, closed.2⟩
      intro w member
      rcases List.mem_append.mp member with old | new
      · exact each w old
      · rw [List.mem_singleton.mp new]
        exact ⟨first.2, second.2⟩
    · refine ends_eatIf (fun found => ?_) fun _ => ?_
      · have moved := within_next found rfl
        refine (expression s.next ((nested n depth).keeps inv moved)).bind fun value s₃ read => ?_
        have moved₃ := moved.trans read.1
        refine (ih whens _ s₃ ((nested n depth).keeps inv moved₃) each ?_).mono
          fun r s' closed => ⟨moved₃.closes closed.1, closed.2⟩
        rintro _ ⟨⟩
        exact read.2
      · refine ends_eatIf (fun found => ?_) fun _ => ?_
        · exact ends_pure ⟨closes_next found rfl, each, last⟩
        · exact ⟨nofun, nofun⟩

theorem fits_parseCase : Bracketed n (stack + 1) Closes (parseCase X frames) := by
  intro s runs enough
  have base := two_le_limit (n := n) s.depth
  refine .of_step (get_apply s) ?_
  refine (fits_caseLoop fits (by omega) s.rest.length [] none s ⟨rfl, runs⟩ nofun nofun).bind fun r s' read => ?_
  obtain ⟨whens, elseVal⟩ := r
  obtain ⟨closed, each, last⟩ := read
  dsimp only
  split
  · exact ⟨nofun, nofun⟩
  · refine ends_pure ⟨closed, ?_⟩
    have lowWhens : depthWhens whens ≤ limit n s.depth - 1 := depthWhens_le fun w member => by
      have := each w member
      omega
    have lowElse : depthElse elseVal ≤ limit n s.depth - 1 := depthElse_le fun e member => by
      have := last e member
      omega
    rw [Expr.depth]
    omega

theorem fits_parseCast : Bracketed n (stack + 1) Along (parseCast X frames) := by
  intro s runs enough
  have moved := after_next s
  refine ends_expect X fun isOpen => ?_
  have inv : (nested n s.depth).inv s.next := ⟨moved.depth, runs.after moved⟩
  refine (moves_expression fits (by omega) s.next inv).bind fun e s₂ read => ?_
  have inv := (nested n s.depth).keeps inv read.1
  refine (moves_expect X (nested_passes s.depth _ rfl) s₂ inv).bind fun _ s₃ as => ?_
  have inv := (nested n s.depth).keeps inv as.1
  refine (moves_parseSqlType X (fun _ => nested_passes s.depth _ rfl) s₃ inv).bind fun t s₄ typed => ?_
  refine ends_expect X fun isClose => ?_
  have within : Within s.next s₄ := (read.1.trans as.1).trans typed.1
  refine ends_pure ⟨along_of_closes isOpen rfl (within.closes (closes_next isClose rfl)), ?_⟩
  rw [Expr.depth]
  exact read.2

theorem fits_parseAggregateFunction : Bracketed n (stack + 1) Along (parseAggregateFunction X frames) := by
  intro s runs enough
  have base := two_le_limit (n := n) s.depth
  refine .of_step (peek_apply s) ?_
  cases named : aggregateName s.token with
  | none => exact ⟨nofun, nofun⟩
  | some name =>
    have moved : Along s s.next := by
      unfold aggregateName at named
      split at named
      case h_6 => cases named
      all_goals
        rename_i found
        exact along_next found rfl rfl
    refine .of_step (advance_apply s) ?_
    refine ends_expect X fun isOpen => ?_
    have depth : s.next.next.depth = s.depth := rfl
    have runs₂ : RunsWithin n s.next.next.tokens := (runs.after moved.toAfter).after (after_next s.next)
    -- from behind the parenthesis
    have behind {s' : Parser} (closed : Closes s.next.next s') : Along s s' :=
      moved.trans (along_of_closes isOpen rfl closed)
    refine ends_eatIf (fun found => ?_) fun _ => ?_
    · refine ends_expect X fun isClose => ?_
      refine ends_pure ⟨behind ((within_next found rfl).closes (closes_next isClose rfl)), ?_⟩
      rw [Expr.depth, depthAll, depthAll, Expr.depth]
      omega
    · refine ends_eatIf (fun found => ?_) fun _ => ?_
      · have within := within_next found rfl
        refine (moves_expression fits (by omega) s.next.next.next
          ((nested n s.depth).keeps ⟨depth, runs₂⟩ within)).bind fun arg s₄ read => ?_
        refine ends_expect X fun isClose => ?_
        refine ends_pure ⟨behind ((within.trans read.1).closes (closes_next isClose rfl)), ?_⟩
        have low := read.2
        rw [Expr.depth, depthAll, depthAll]
        omega
      · refine (fits_parseArguments fits s.next.next runs₂ (by rw [depth]; omega)).bind fun args s' read =>
          ends_pure ⟨behind read.1, ?_⟩
        have low : depthAll args ≤ limit n s.depth - 1 := depthAll_le fun e member => by
          have := read.2 e member
          rw [depth] at this
          omega
        rw [Expr.depth]
        omega

theorem fits_parseExists (s : Parser) (runs : RunsWithin n s.tokens) (found : s.token = .keyword .exists)
    (enough : room n s.depth + 3 ≤ stack + 1) :
    Ends False (parseExists X frames) s fun e s' => Along s s' ∧ e.depth ≤ limit n s.depth := by
  have base := two_le_limit (n := n) s.depth
  have moved := along_next found rfl rfl
  refine .of_step (advance_apply s) ?_
  refine ends_expect X fun isOpen => ?_
  have runs₂ : RunsWithin n s.next.next.tokens := (runs.after moved.toAfter).after (after_next s.next)
  refine (fits.parseSelect s.depth (by omega) s.next.next ⟨rfl, runs₂⟩).bind fun subquery s₂ read => ?_
  refine ends_expect X fun isClose => ?_
  refine ends_pure ⟨moved.trans (along_of_closes isOpen rfl (read.1.closes (closes_next isClose rfl))), ?_⟩
  rw [Expr.depth, depthAll, depthAll, Expr.depth]
  omega

theorem fits_parseSelect {depth : Nat} (enough : room n depth + 2 ≤ stack + 1) :
    Moves False (nested n depth) (fun sel => ∀ e ∈ sel.exprs, e.depth + 1 ≤ limit n depth)
      (parseSelect X frames) :=
  moves_parseSelect (fun t plain => nested_passes depth t plain) (moves_expression fits (by omega))

end Functions

theorem isOperator_of_level {op : Token → Option BinaryOperator}
    (level : op ∈ [orOp, andOp, equalityOp, comparisonOp, termOp, factorOp]) (t : Token) (o : BinaryOperator)
    (found : op t = some o) : isOperator t = true := by
  simp only [List.mem_cons, List.not_mem_nil, or_false] at level
  rcases level with rfl | rfl | rfl | rfl | rfl | rfl
  all_goals
    simp only [orOp, andOp, equalityOp, comparisonOp, termOp, factorOp] at found
    split at found <;> first | rfl | cases found

/-- **With the room for it, no function of the parser overflows, and its trees are below the limit.** -/
theorem calls_fits (X : Extern) (n stack : Nat) : (calls X stack).Fits n stack := by
  induction stack with
  | zero =>
    constructor
    case parseSelect =>
      intro depth enough
      omega
    case parseExpression | parseExists =>
      intros
      omega
    all_goals
      intro s runs enough
      omega
  | succ stack ih =>
    exact {
      parseExpression := fits_parseExpression ih
      parseOr := level_fits (isOperator_of_level (by simp)) ih.parseAnd
      parseAnd := level_fits (isOperator_of_level (by simp)) ih.parseEquality
      parseEquality := level_fits (isOperator_of_level (by simp)) ih.parseComparison
      parseComparison := level_fits (isOperator_of_level (by simp)) ih.parseTerm
      parseTerm := level_fits (isOperator_of_level (by simp)) ih.parseFactor
      parseFactor := level_fits (isOperator_of_level (by simp)) ih.parseUnary
      parseUnary := fits_parseUnary ih
      parsePrimary := fits_parsePrimary ih
      parseCase := fits_parseCase ih
      parseCast := fits_parseCast ih
      parseAggregateFunction := fits_parseAggregateFunction ih
      parseExists := fits_parseExists ih
      parseSelect := fun _ enough => fits_parseSelect ih enough }

/-! ## Programs -/

section Programs

/-- From statement to statement, outside all brackets. -/
def program (n : Nat) : Motion Parser where
  inv s := s.depth = 0 ∧ RunsWithin n s.tokens
  rel := After
  refl := .refl
  trans := .trans
  keeps inv moved := ⟨moved.depth.trans inv.1, inv.2.after moved⟩

theorem program_passes (n : Nat) (t : Token) : Passes (program n) t := fun s _ _ => after_next s

variable {X : Extern} {n : Nat} {frames : Calls} {good : Expr → Prop}
  (each : Moves False (program n) good frames.parseExpression)

theorem moves_eatIdentifier (ident : Text) :
    Moves False (program n) (fun _ => True) (eatIdentifier ident) :=
  moves_of_token fun s inv => by
    split
    next name found =>
      split
      · exact ends_advance (program_passes n _) inv found (moves_pure trivial)
      · exact ends_pure ⟨.refl s, trivial⟩
    next => exact ends_pure ⟨.refl s, trivial⟩

theorem moves_parseLiteral : Moves False (program n) (fun _ => True) (parseLiteral X) :=
  moves_of_token fun s inv => by
    split
    next found => exact ends_advance (program_passes n _) inv found (moves_pure trivial)
    next found => exact ends_advance (program_passes n _) inv found (moves_pure trivial)
    next found => exact ends_advance (program_passes n _) inv found (moves_pure trivial)
    next digits found =>
      exact ends_advance (program_passes n _) inv found
        (moves_lift (numberLiteral_returns digits) fun _ _ => trivial)
    next found => exact ends_advance (program_passes n _) inv found (moves_pure trivial)
    next => exact ⟨nofun, nofun⟩

theorem moves_parseDefault : Moves False (program n) (fun _ => True) (parseDefault X) := by
  refine Moves.follow ?_ fun isClock => ?_
  · refine (moves_eatIdentifier _).bind fun found _ => ?_
    split
    · exact moves_pure trivial
    · refine (moves_eatIdentifier _).bind fun found _ => ?_
      split
      · exact moves_pure trivial
      · exact moves_eatIdentifier _
  · split
    · exact moves_pure trivial
    · exact moves_parseLiteral

include each

theorem moves_parseArguments : Moves False (program n) (fun args => ∀ e ∈ args, good e) (parseArguments X frames) :=
  (moves_parseCommaSeparated (program_passes n _) each).bind fun _ held =>
    (moves_expect X (program_passes n _)).bind fun _ _ => moves_pure held.2

theorem moves_parseInsert : Moves False (program n)
    (fun ins => ∀ e ∈ (Parsed.Statement.insert ins).exprs, good e) (parseInsert X frames) := by
  refine (moves_expect X (program_passes n _)).bind fun _ _ => (moves_expect X (program_passes n _)).bind fun _ _ =>
    (moves_parseTableRef fun t _ => program_passes n t).bind fun table _ => ?_
  refine Moves.follow ?_ fun columns => ?_
  · refine (moves_eatIf (program_passes n _)).bind fun opened _ => ?_
    split
    · exact (moves_parseCommaSeparated (program_passes n _)
        (moves_parseIdentifier X fun _ => program_passes n _)).bind fun _ _ =>
        (moves_expect X (program_passes n _)).bind fun _ _ => moves_pure trivial
    · exact moves_pure trivial
  · refine (moves_expect X (program_passes n _)).bind fun _ _ =>
      (moves_parseCommaSeparated (program_passes n _)
        ((moves_expect X (program_passes n _)).bind fun _ _ => moves_parseArguments each)).bind fun values held =>
      moves_pure ?_
    intro e member
    obtain ⟨list, listed, member⟩ := List.mem_flatten.mp member
    exact held.2 list listed e member

theorem moves_parseUpdate : Moves False (program n)
    (fun upd => ∀ e ∈ (Parsed.Statement.update upd).exprs, good e) (parseUpdate X frames) := by
  have assignment : Moves False (program n) (fun a => good a.value) (parseAssignment X frames) :=
    (moves_parseIdentifier X fun _ => program_passes n _).bind fun column _ =>
      (moves_expect X (program_passes n _)).bind fun _ _ => each.bind fun e fine => moves_pure fine
  refine (moves_expect X (program_passes n _)).bind fun _ _ =>
    (moves_parseTableRef fun t _ => program_passes n t).bind fun table _ =>
    (moves_expect X (program_passes n _)).bind fun _ _ =>
    (moves_parseCommaSeparated (program_passes n _) assignment).bind fun assignments held =>
    (moves_optional (fun t _ => program_passes n t) rfl each).bind fun whereClause fine => moves_pure ?_
  intro e member
  rcases List.mem_append.mp member with value | condition
  · obtain ⟨a, listed, rfl⟩ := List.mem_map.mp value
    exact held.2 a listed
  · exact fine e (Option.mem_toList.mp condition)

theorem moves_parseDelete : Moves False (program n)
    (fun del => ∀ e ∈ (Parsed.Statement.delete del).exprs, good e) (parseDelete X frames) :=
  (moves_expect X (program_passes n _)).bind fun _ _ => (moves_expect X (program_passes n _)).bind fun _ _ =>
    (moves_parseTableRef fun t _ => program_passes n t).bind fun _ _ =>
    (moves_optional (fun t _ => program_passes n t) rfl each).bind fun _ fine =>
      moves_pure fun e member => fine e (Option.mem_toList.mp member)

theorem moves_columnLoop (turns : Nat) (col : Parsed.ColumnDef) (checked : ∀ e ∈ col.checkExpr, good e) :
    Moves False (program n) (fun col => ∀ e ∈ col.checkExpr, good e) (columnLoop X frames turns col) := by
  have pass {t : Token} : Moves False (program n) (fun _ => True) (eatIf t) := moves_eatIf (program_passes n _)
  have behind {t : Token} : Moves False (program n) (fun _ => True) (expect X t) := moves_expect X (program_passes n _)
  induction turns generalizing col with
  | zero => exact moves_pure checked
  | succ turns ih =>
    refine pass.bind fun isNot _ => ?_
    split
    · exact behind.bind fun _ _ => ih _ checked
    refine pass.bind fun isNull _ => ?_
    split
    · exact ih _ checked
    refine pass.bind fun isDefault _ => ?_
    split
    · exact moves_parseDefault.bind fun _ _ => ih _ checked
    refine pass.bind fun isPrimary _ => ?_
    split
    · exact behind.bind fun _ _ => ih _ checked
    refine pass.bind fun isUnique _ => ?_
    split
    · exact ih _ checked
    refine (moves_eatIdentifier _).bind fun isAuto _ => ?_
    split
    · exact ih _ checked
    refine pass.bind fun isCheck _ => ?_
    split
    · refine behind.bind fun _ _ => each.bind fun e fine => behind.bind fun _ _ => ih _ ?_
      rintro _ ⟨⟩
      exact fine
    · exact moves_pure checked

theorem moves_parseCreateTable : Moves False (program n)
    (fun ct => ∀ e ∈ (Parsed.Statement.createTable ct).exprs, good e) (parseCreateTable X frames) := by
  have column : Moves False (program n) (fun col => ∀ e ∈ col.checkExpr, good e) (parseColumnDef X frames) :=
    (moves_parseIdentifier X fun _ => program_passes n _).bind fun name _ =>
      (moves_parseSqlType X fun _ => program_passes n _).bind fun t _ => fun s inv =>
        .of_step (get_apply s) (moves_columnLoop each _ _ (by nofun) s inv)
  refine (moves_expect X (program_passes n _)).bind fun _ _ => (moves_expect X (program_passes n _)).bind fun _ _ =>
    (moves_parseTableRef fun t _ => program_passes n t).bind fun table _ =>
    (moves_expect X (program_passes n _)).bind fun _ _ =>
    (moves_parseCommaSeparated (program_passes n _) column).bind fun columns held =>
    (moves_expect X (program_passes n _)).bind fun _ _ => moves_pure ?_
  intro e member
  obtain ⟨col, listed, member⟩ := List.mem_flatMap.mp member
  exact held.2 col listed e (Option.mem_toList.mp member)

variable (select : Moves False (program n) (fun sel => ∀ e ∈ sel.exprs, good e) frames.parseSelect)

include select

theorem moves_parseStatement :
    Moves False (program n) (fun stmt => ∀ e ∈ stmt.exprs, good e) (parseStatement X frames) := by
  refine moves_peek.bind fun t _ => ?_
  split
  · exact select.map fun _ => id
  · exact (moves_parseInsert each).map fun _ => id
  · exact (moves_parseUpdate each).map fun _ => id
  · exact (moves_parseDelete each).map fun _ => id
  · exact (moves_parseCreateTable each).map fun _ => id
  · refine Moves.map ?_ fun _ (_ : True) _ member => absurd member (by exact List.not_mem_nil)
    exact (moves_expect X (program_passes n _)).bind fun _ _ => (moves_expect X (program_passes n _)).bind fun _ _ =>
      (moves_parseTableRef fun t _ => program_passes n t).bind fun table _ => moves_pure trivial
  · exact moves_errSyntax _ _

theorem moves_programLoop (turns : Nat) : Moves False (program n)
    (fun stmts => ∀ stmt ∈ stmts, ∀ e ∈ stmt.exprs, good e) (programLoop X frames turns) := by
  induction turns with
  | zero => exact moves_pure (List.forall_mem_nil _)
  | succ turns ih =>
    refine moves_peek.bind fun t _ => ?_
    split
    · exact moves_pure (List.forall_mem_nil _)
    · exact (moves_parseStatement each select).bind fun stmt fine =>
        (moves_eatIf (program_passes n _)).bind fun _ _ => ih.bind fun later held =>
          moves_pure (List.forall_mem_cons.mpr ⟨fine, held⟩)

end Programs

/-- **What the counter is for**: no more calls of the parser are open, and no tree it returns is deeper,
than `K` times the greatest nesting. -/
structure Bounded (X : Extern) (K : Nat) (tokens : List Token) (positions : List (Nat × Nat)) : Prop where
  recursion : parseProgram X (K * maxNestingDepth) tokens positions ≠ .hang
  trees : ∀ statements, parseProgram X (K * maxNestingDepth) tokens positions = .ok statements →
    ∀ stmt ∈ statements, ∀ e ∈ stmt.exprs, e.depth ≤ K * maxNestingDepth

theorem new_tokens (tokens : List Token) (positions : List (Nat × Nat)) :
    (new tokens positions).tokens = tokens := by
  rw [Parser.tokens, new, List.mapIdx_eq_zipIdx_map, List.map_map]
  exact List.zipIdx_map_fst 0 tokens

/-- **Calls and trees are bounded by the longest run of operators.** With at most `n` operators in a row
outside of brackets, `5 * n + 12` times the greatest nesting is enough for both. -/
theorem bounded_of_runs (X : Extern) (n : Nat) (tokens : List Token) (positions : List (Nat × Nat))
    (runs : RunsWithin n tokens) : Bounded X (5 * n + 12) tokens positions := by
  have start : (program n).inv (new tokens positions) := ⟨rfl, (new_tokens tokens positions).symm ▸ runs⟩
  have enough : room n 0 + 2 ≤ (5 * n + 12) * maxNestingDepth := by
    rw [room, maxNestingDepth]
    omega
  have fits := calls_fits X n ((5 * n + 12) * maxNestingDepth)
  have wider {α : Type} {good : α → Prop} {x : Method α} (moves : Moves False (nested n 0) good x) :
      Moves False (program n) good x :=
    fun s inv => (moves s inv).mono fun _ _ held => ⟨held.1.toAfter, held.2⟩
  have ends := moves_programLoop (X := X) (wider (moves_expression fits (by omega)))
    (wider (fits.parseSelect 0 enough)) tokens.length _ start
  refine ⟨fun hangs => ends.returns hangs, fun statements ran stmt listed e member => ?_⟩
  have low := (ends.post statements _ (eq_ok_of_fst ran)).2 stmt listed e member
  rw [limit, maxNestingDepth] at low
  rw [maxNestingDepth]
  omega

/-! ## A run of prefix operators -/

section Prefix

variable {X : Extern}

/-- One level of operators over a call that overflows. -/
theorem level_overflows (level operand : Calls → Method Expr) {op : Token → Option BinaryOperator} {m : Nat}
    {s : Parser} (bottom : level (calls X 0) = overflow)
    (body : ∀ n, level (calls X (n + 1)) = leftAssoc op (operand (calls X n)))
    (each : ∀ n ≤ m, (operand (calls X n) s).1 = .hang) : ∀ n ≤ m, (level (calls X n) s).1 = .hang := by
  intro n le
  cases n with
  | zero =>
    rw [bottom]
    rfl
  | succ n =>
    rw [body]
    exact bind_of_hang (each n (by omega)) _

/-- Each NOT of a row is one more call. -/
theorem parseUnary_overflows (n m : Nat) (le : n ≤ m) (s : Parser) (later : List Token)
    (tokens : s.tokens = List.replicate m (.keyword .not) ++ later) :
    ((calls X n).parseUnary s).1 = .hang := by
  induction n generalizing m s with
  | zero => rfl
  | succ n ih =>
    obtain ⟨m, rfl⟩ : ∃ k, m = k + 1 := ⟨m - 1, by omega⟩
    rcases s with ⟨_ | ⟨first, rest⟩, depth⟩
    · cases tokens
    · obtain ⟨isNot, others⟩ := List.cons.inj tokens
      have found : Parser.token ⟨first :: rest, depth⟩ = .keyword .not := isNot
      change ((parseUnary (calls X n)) ⟨first :: rest, depth⟩).1 = .hang
      rw [parseUnary, bind_of_ok (eatIf_miss (by rw [found]; nofun))]
      change ((eatIf (.keyword .not) >>= _) _).1 = _
      rw [bind_of_ok (eatIf_hit found)]
      exact bind_of_hang (ih m (by omega) ⟨rest, depth⟩ others) _

section

variable (m : Nat) (s : Parser) (shallow : s.depth < maxNestingDepth) (later : List Token)

include m s shallow later

theorem parseExpression_overflows
    (tokens : s.tokens = List.replicate m (.keyword .not) ++ later) (n : Nat) (le : n ≤ m) :
    ((calls X n).parseExpression s).1 = .hang := by
  have factor := level_overflows (X := X) Calls.parseFactor Calls.parseUnary rfl (fun _ => rfl)
    (fun n le => parseUnary_overflows n m le { s with depth := s.depth + 1 } later tokens)
  have term := level_overflows (X := X) Calls.parseTerm Calls.parseFactor rfl (fun _ => rfl) factor
  have comparison := level_overflows (X := X) Calls.parseComparison Calls.parseTerm rfl (fun _ => rfl) term
  have equality := level_overflows (X := X) Calls.parseEquality Calls.parseComparison rfl (fun _ => rfl) comparison
  have and := level_overflows (X := X) Calls.parseAnd Calls.parseEquality rfl (fun _ => rfl) equality
  have or := level_overflows (X := X) Calls.parseOr Calls.parseAnd rfl (fun _ => rfl) and
  cases n with
  | zero => rfl
  | succ n =>
    change ((parseExpression (calls X n)) s).1 = .hang
    rw [parseExpression, if_neg (by omega)]
    exact or n (by omega)

/-- `SELECT NOT NOT ... a FROM t`. -/
def negations (m : Nat) : List Token :=
  .keyword .select :: (List.replicate m (.keyword .not) ++
    [.identifier ['a'], .keyword .fromKw, .identifier ['t'], .eof])

theorem parseSelect_overflows
    (tokens : s.tokens = .keyword .select :: (List.replicate (m + 1) (.keyword .not) ++ later)) (n : Nat)
    (le : n ≤ m) : ((calls X n).parseSelect s).1 = .hang := by
  cases n with
  | zero => rfl
  | succ n =>
    rcases s with ⟨_ | ⟨first, _ | ⟨second, rest⟩⟩, depth⟩
    · cases tokens
    · cases (List.cons.inj tokens).2
    · obtain ⟨isSelect, others⟩ := List.cons.inj tokens
      have found : Parser.token ⟨first :: second :: rest, depth⟩ = .keyword .select := isSelect
      have isNot : Parser.token ⟨second :: rest, depth⟩ = .keyword .not := (List.cons.inj others).1
      change ((parseSelect X (calls X n)) ⟨first :: second :: rest, depth⟩).1 = .hang
      rw [parseSelect, bind_of_ok (expect_hit X found)]
      rw [bind_of_ok (eatIf_miss (by change Parser.token ⟨second :: rest, depth⟩ ≠ _; rw [isNot]; nofun))]
      refine bind_of_hang (bind_of_hang ?_ _) _
      rw [parseSelectItem, bind_of_ok (eatIf_miss (by change Parser.token ⟨second :: rest, depth⟩ ≠ _; rw [isNot]; nofun))]
      exact bind_of_hang (parseExpression_overflows (m + 1) ⟨second :: rest, depth⟩ shallow later others n (by omega)) _

end

theorem parseProgram_negations (stack m : Nat) (le : stack ≤ m) (positions : List (Nat × Nat)) :
    parseProgram X stack (negations (m + 1)) positions = .hang := by
  have tokens := new_tokens (negations (m + 1)) positions
  have found : (new (negations (m + 1)) positions).token = .keyword .select := by
    rcases started : (new (negations (m + 1)) positions).rest with _ | ⟨first, rest⟩
    · rw [Parser.tokens, started] at tokens
      cases tokens
    · rw [Parser.tokens, started] at tokens
      rw [Parser.token, started]
      exact (List.cons.inj tokens).1
  have notEnd : ¬ (new (negations (m + 1)) positions).token = .eof := by
    rw [found]
    intro same
    cases same
  change ((peek >>= _) _).1 = _
  rw [bind_of_ok (rfl : peek (new (negations (m + 1)) positions) = (.ok _, _)), if_neg notEnd]
  refine bind_of_hang ?_ _
  change ((peek >>= _) _).1 = _
  rw [bind_of_ok (rfl : peek (new (negations (m + 1)) positions) = (.ok _, _)), found]
  exact bind_of_hang (parseSelect_overflows m _ (show 0 < maxNestingDepth by decide) _ tokens stack le) _

end Prefix

/-- **No multiple of the greatest nesting bounds the parser.** -/
theorem unbounded_runs : ¬ ∃ K, ∀ tokens positions, Bounded .ascii K tokens positions := by
  rintro ⟨K, bounded⟩
  exact (bounded (negations (K * maxNestingDepth + 1)) []).recursion
    (parseProgram_negations _ _ le_rfl [])

/-- One operator, and a bound for it. -/
theorem bounded_sum :
    Bounded .ascii 17 [.keyword .select, .identifier ['a'], .symbol .plus, .identifier ['b'], .keyword .fromKw,
      .identifier ['t'], .eof] [] :=
  bounded_of_runs .ascii 1 _ [] (by decide)

end Parser

end NovaRuntime.Sql
