/-
# NovaRuntime.Sql.Capture — what a predicate and a NOT take of the operators behind them

The pattern of a LIKE and the upper bound of a BETWEEN are read by `parse_expression`, which goes on
through every operator up to OR. So an AND or OR behind such a predicate becomes a part of its operand,
and the whole is never a conjunction or disjunction of the predicate. A NOT is read by `parse_unary`,
below the comparisons, so `NOT x = y` compares the negation of `x`.

`predicates_capture` says both for all operands.
-/
import NovaRuntime.Sql.ParserRoom

namespace NovaRuntime.Sql

open NovaRuntime.Library NovaRuntime.Library.Exec

set_option autoImplicit false

namespace Parser

/-- What `parse_expression` makes of some tokens, with room for so many calls. -/
def expressionOf (X : Extern) (stack : Nat) (placed : List Placed) : Result Expr :=
  ((calls X stack).parseExpression ⟨placed, 0⟩).1

/-! ## Where an expression ends -/

/-- None of these operators. -/
def StopsAt (ops : List (Token → Option BinaryOperator)) (t : Token) : Prop := ∀ op ∈ ops, op t = none

/-- The operators of an expression, from the loosest. -/
def operators : List (Token → Option BinaryOperator) :=
  [orOp, andOp, equalityOp, comparisonOp, termOp, factorOp]

section Stops

variable (X : Extern)

/-- With any room, a level of operators ends where its operands do, and in front of none of its own. -/
theorem level_stops {ops : List (Token → Option BinaryOperator)} {op : Token → Option BinaryOperator}
    (level operand : Calls → Method Expr) (atEnd : op .eof = none) (bottom : level (calls X 0) = overflow)
    (body : ∀ n, level (calls X (n + 1)) = leftAssoc op (operand (calls X n)))
    (sound : ∀ n, Forward Grammatical (operand (calls X n)))
    (stops : ∀ n s, Ends True (operand (calls X n)) s fun _ s' => StopsAt ops s'.token) (n : Nat) (s : Parser) :
    Ends True (level (calls X n)) s fun _ s' => StopsAt (op :: ops) s'.token := by
  cases n with
  | zero =>
    rw [bottom]
    exact ends_lift (fun _ => trivial) nofun
  | succ n =>
    rw [body]
    have each (s : Parser) : Ends True (operand (calls X n)) s
        fun e s' => (After s s' ∧ Grammatical e) ∧ StopsAt ops s'.token :=
      ⟨fun _ => trivial, fun e s' ran => ⟨(sound n s trivial).post e s' ran, (stops n s).post e s' ran⟩⟩
    exact (leftAssoc_stops atEnd each (fun _ operator _ => grammatical_binaryOp operator) s).mono
      fun _ _ held => List.forall_mem_cons.mpr ⟨held.2.2, held.2.1⟩

theorem parseFactor_stops : ∀ n s,
    Ends True (calls X n).parseFactor s fun _ s' => StopsAt [factorOp] s'.token :=
  level_stops X Calls.parseFactor Calls.parseUnary rfl rfl (fun _ => rfl) (fun n => (calls_sound X n).parseUnary)
    fun _ _ => ⟨fun _ => trivial, nofun⟩

theorem parseTerm_stops : ∀ n s,
    Ends True (calls X n).parseTerm s fun _ s' => StopsAt [termOp, factorOp] s'.token :=
  level_stops X Calls.parseTerm Calls.parseFactor rfl rfl (fun _ => rfl) (fun n => (calls_sound X n).parseFactor)
    (parseFactor_stops X)

theorem parseComparison_stops : ∀ n s,
    Ends True (calls X n).parseComparison s fun _ s' => StopsAt [comparisonOp, termOp, factorOp] s'.token :=
  level_stops X Calls.parseComparison Calls.parseTerm rfl rfl (fun _ => rfl) (fun n => (calls_sound X n).parseTerm)
    (parseTerm_stops X)

theorem parseEquality_stops : ∀ n s, Ends True (calls X n).parseEquality s
    fun _ s' => StopsAt [equalityOp, comparisonOp, termOp, factorOp] s'.token :=
  level_stops X Calls.parseEquality Calls.parseComparison rfl rfl (fun _ => rfl)
    (fun n => (calls_sound X n).parseComparison) (parseComparison_stops X)

theorem parseAnd_stops : ∀ n s, Ends True (calls X n).parseAnd s
    fun _ s' => StopsAt [andOp, equalityOp, comparisonOp, termOp, factorOp] s'.token :=
  level_stops X Calls.parseAnd Calls.parseEquality rfl rfl (fun _ => rfl)
    (fun n => (calls_sound X n).parseEquality) (parseEquality_stops X)

theorem parseOr_stops : ∀ n s, Ends True (calls X n).parseOr s fun _ s' => StopsAt operators s'.token :=
  level_stops X Calls.parseOr Calls.parseAnd rfl rfl (fun _ => rfl) (fun n => (calls_sound X n).parseAnd)
    (parseAnd_stops X)

/-- What `parse_or` ensures from one level down, where the counter allows it. -/
theorem ends_parseExpression (frames : Calls) {s : Parser} {Q : Expr → List Placed → Prop}
    (inner : Ends True frames.parseOr { s with depth := s.depth + 1 } fun e s' => Q e s'.rest) :
    Ends True (parseExpression frames) s fun e s' => Q e s'.rest := by
  refine ⟨fun _ => trivial, fun e s' step => ?_⟩
  rw [parseExpression] at step
  split at step
  · cases step
  · rcases ran : frames.parseOr { s with depth := s.depth + 1 } with ⟨o, s₁⟩
    rw [ran] at step
    obtain ⟨rfl, rfl⟩ := Prod.mk.inj step
    exact inner.post e s₁ ran

/-- **No operator is left behind an expression.** -/
theorem parseExpression_stops (n : Nat) (s : Parser) :
    Ends True (calls X n).parseExpression s fun _ s' => StopsAt operators s'.token := by
  cases n with
  | zero => exact ends_lift (fun _ => trivial) nofun
  | succ n =>
    exact ends_parseExpression _ (Q := fun _ rest => StopsAt operators (Parser.token ⟨rest, 0⟩))
      (parseOr_stops X n _)

end Stops

/-! ## Predicates -/

section Predicates

variable {X : Extern}
variable {s : Parser}

/-- An operand with no operator behind it is the whole of its level. -/
theorem ends_leftAssoc {op : Token → Option BinaryOperator} {operand : Method Expr}
    {Q : Expr → Parser → Prop} (first : Ends True operand s Q) (stops : ∀ e s', Q e s' → op s'.token = none) :
    Ends True (leftAssoc op operand) s Q := by
  refine first.bind fun e s' held => ?_
  refine .of_step (get_apply s') ?_
  cases s'.rest.length with
  | zero => exact ends_pure held
  | succ turns =>
    refine .of_step (peek_apply s') ?_
    rw [stops e s' held]
    exact ends_pure held

/-- What a unary operand ensures, with no operator behind it, the expression ensures. -/
theorem expression_of_unary {good : Expr → Prop}
    (unary : ∀ n, Ends True (calls X n).parseUnary { s with depth := s.depth + 1 }
      fun e s' => good e ∧ StopsAt operators s'.token) (n : Nat) :
    Ends True (calls X n).parseExpression s fun e _ => good e := by
  have nothing {Q : Expr → Parser → Prop} (s : Parser) : Ends True (overflow : Method Expr) s Q :=
    ends_lift (fun _ => trivial) nofun
  let Q (e : Expr) (s' : Parser) : Prop := good e ∧ StopsAt operators s'.token
  have level (level operand : Calls → Method Expr) (op : Token → Option BinaryOperator) (member : op ∈ operators)
      (bottom : level (calls X 0) = overflow)
      (body : ∀ n, level (calls X (n + 1)) = leftAssoc op (operand (calls X n)))
      (each : ∀ n, Ends True (operand (calls X n)) { s with depth := s.depth + 1 } Q) (n : Nat) :
      Ends True (level (calls X n)) { s with depth := s.depth + 1 } Q := by
    cases n with
    | zero => exact bottom ▸ nothing _
    | succ n => exact body n ▸ ends_leftAssoc (each n) fun _ _ held => held.2 op member
  have factor := level Calls.parseFactor Calls.parseUnary factorOp (by simp [operators]) rfl (fun _ => rfl) unary
  have term := level Calls.parseTerm Calls.parseFactor termOp (by simp [operators]) rfl (fun _ => rfl) factor
  have comparison := level Calls.parseComparison Calls.parseTerm comparisonOp (by simp [operators]) rfl
    (fun _ => rfl) term
  have equality := level Calls.parseEquality Calls.parseComparison equalityOp (by simp [operators]) rfl
    (fun _ => rfl) comparison
  have and := level Calls.parseAnd Calls.parseEquality andOp (by simp [operators]) rfl (fun _ => rfl) equality
  have or := level Calls.parseOr Calls.parseAnd orOp (by simp [operators]) rfl (fun _ => rfl) and
  cases n with
  | zero => exact nothing _
  | succ n => exact ends_parseExpression _ (Q := fun e _ => good e) ((or n).mono fun _ _ held => held.1)

/-- The words that are followed by the operands of a predicate. -/
def predicateWords : List Token := [.keyword .between, .keyword .like, .keyword .iLike]

/-- A predicate on the column: it has taken every operator behind it. -/
def OnColumn (c : Text) : Expr → Prop
  | .between expr _ _ | .like expr _ | .iLike expr _ => expr = .column c
  | _ => False

theorem ends_parseInfix (n : Nat) (c : Text) (word : s.token ∈ predicateWords) :
    Ends True (parseInfix X (calls X n) (.column c)) s
      fun o s' => (∃ e, o = some e ∧ OnColumn c e) ∧ StopsAt operators s'.token := by
  refine .of_step (peek_apply s) ?_
  have oneOf : s.token = .keyword .between ∨ s.token = .keyword .like ∨ s.token = .keyword .iLike := by
    simpa [predicateWords] using word
  rcases oneOf with between | like | iLike
  · rw [between]
    refine .of_step (advance_apply s) ?_
    exact ((calls_sound X n).parseComparison _ trivial).bind fun low s₁ _ =>
      (moves_expect (M := forward) X (forward_passes _) s₁ trivial).bind
      fun _ s₂ _ => (parseExpression_stops X n s₂).bind fun high s₃ stops => ends_pure ⟨⟨_, rfl, rfl⟩, stops⟩
  · rw [like]
    refine .of_step (advance_apply s) ?_
    exact (parseExpression_stops X n _).bind fun pattern s₃ stops => ends_pure ⟨⟨_, rfl, rfl⟩, stops⟩
  · rw [iLike]
    refine .of_step (advance_apply s) ?_
    exact (parseExpression_stops X n _).bind fun pattern s₃ stops => ends_pure ⟨⟨_, rfl, rfl⟩, stops⟩

/-- The predicate on `c`, as it is or negated. -/
def Predicate (c : Text) (e : Expr) : Prop := OnColumn c e ∨ ∃ positive, e = .unaryOp .not positive ∧ OnColumn c positive

/-- **A predicate has taken every operator behind it.** -/
theorem parseNamed_takes (n : Nat) (c : Text)
    (word : s.token ∈ predicateWords ∨ s.token = .keyword .not ∧ s.next.token ∈ predicateWords) :
    Ends True (parseNamed X (calls X n) c) s fun e s' => Predicate c e ∧ StopsAt operators s'.token := by
  have notOpen : s.token ≠ .symbol .lParen ∧ s.token ≠ .symbol .colonColon := by
    rcases word with plain | ⟨negated, -⟩
    · simp only [predicateWords, List.mem_cons, List.not_mem_nil, or_false] at plain
      rcases plain with h | h | h <;> rw [h] <;> exact ⟨nofun, nofun⟩
    · rw [negated]
      exact ⟨nofun, nofun⟩
  refine .of_step (eatIf_miss notOpen.1) (.of_step (eatIf_miss notOpen.2) ?_)
  refine .of_step (get_apply s) ?_
  rcases word with plain | ⟨negated, plain⟩
  · have others : s.token ≠ .keyword .not ∧ s.token ≠ .keyword .is := by
      simp only [predicateWords, List.mem_cons, List.not_mem_nil, or_false] at plain
      rcases plain with h | h | h <;> rw [h] <;> exact ⟨nofun, nofun⟩
    refine .of_step (eatIf_miss others.1) (.of_step (eatIf_miss others.2) ?_)
    refine (ends_parseInfix n c plain).bind fun o s' held => ?_
    obtain ⟨⟨e, rfl, onColumn⟩, stops⟩ := held
    exact ends_pure ⟨.inl onColumn, stops⟩
  · refine .of_step (eatIf_hit negated) ?_
    refine (ends_parseInfix n c plain).bind fun o s' held => ?_
    obtain ⟨⟨e, rfl, onColumn⟩, stops⟩ := held
    exact ends_pure ⟨.inr ⟨e, rfl, onColumn⟩, stops⟩

theorem unary_takes (c : Text) (named : s.token = .identifier c)
    (word : s.next.token ∈ predicateWords ∨ s.next.token = .keyword .not ∧ s.next.next.token ∈ predicateWords)
    (n : Nat) : Ends True (calls X n).parseUnary s fun e s' => Predicate c e ∧ StopsAt operators s'.token := by
  cases n with
  | zero => exact ends_lift (fun _ => trivial) nofun
  | succ n =>
    refine .of_step (eatIf_miss (by rw [named]; nofun)) (.of_step (eatIf_miss (by rw [named]; nofun)) ?_)
    cases n with
    | zero => exact ends_lift (fun _ => trivial) nofun
    | succ n =>
      refine .of_step (peek_apply s) ?_
      rw [named]
      exact .of_step (advance_apply s) (parseNamed_takes n c word)

end Predicates

/-! ## NOT in front of a comparison -/

section Negation

variable {op : Token → Option BinaryOperator} {operand : Method Expr}
variable {left : Expr} {s s' : Parser}

/-- Which tokens a level takes does not depend on its first operand. -/
theorem leftAssocLoop_left {turns : Nat} {e : Expr} (left' : Expr)
    (ran : leftAssocLoop op operand turns left s = (.ok e, s')) :
    ∃ e', leftAssocLoop op operand turns left' s = (.ok e', s') := by
  induction turns generalizing left left' s with
  | zero =>
    cases ran
    exact ⟨left', rfl⟩
  | succ turns ih =>
    rw [leftAssocLoop, bind_of_ok (peek_apply s)] at ran ⊢
    cases found : op s.token with
    | none =>
      rw [found] at ran
      cases ran
      exact ⟨left', rfl⟩
    | some operator =>
      rw [found] at ran
      obtain ⟨_, s₁, moved, ran⟩ := bind_eq_ok.mp ran
      obtain ⟨right, s₂, read, ran⟩ := bind_eq_ok.mp ran
      obtain ⟨e', later⟩ := ih (.binaryOp left' operator right) ran
      exact ⟨e', bind_eq_ok.mpr ⟨_, s₁, moved, bind_eq_ok.mpr ⟨right, s₂, read, later⟩⟩⟩

/-- A level of operators is its first operand and the loop behind it. -/
theorem leftAssoc_eq_ok {e : Expr} :
    leftAssoc op operand s = (.ok e, s') ↔ ∃ left s₁, operand s = (.ok left, s₁) ∧
      leftAssocLoop op operand s₁.rest.length left s₁ = (.ok e, s') := by
  constructor
  · intro ran
    obtain ⟨left, s₁, read, ran⟩ := bind_eq_ok.mp ran
    exact ⟨left, s₁, read, ran⟩
  · rintro ⟨left, s₁, read, ran⟩
    exact bind_eq_ok.mpr ⟨left, s₁, read, ran⟩

/-- Another first operand that ends at the same place, and more room for the others. -/
theorem leftAssoc_other {operand' : Method Expr} (more : Below operand operand') {e : Expr} {t : Parser}
    (ran : leftAssoc op operand s = (.ok e, s'))
    (same : ∀ left s₁, operand s = (.ok left, s₁) → ∃ left', operand' t = (.ok left', s₁)) :
    ∃ e', leftAssoc op operand' t = (.ok e', s') := by
  obtain ⟨left, s₁, read, ran⟩ := leftAssoc_eq_ok.mp ran
  obtain ⟨left', other⟩ := same left s₁ read
  obtain ⟨e', later⟩ := leftAssocLoop_left left' ran
  refine ⟨e', leftAssoc_eq_ok.mpr ⟨left', s₁, other, ?_⟩⟩
  rw [below_leftAssocLoop more _ _ _ (by rw [later]; nofun), later]

def IsBinary : Expr → Prop
  | .binaryOp _ _ _ => True
  | _ => False

theorem ends_binaryLoop {turns : Nat} (binary : IsBinary left) :
    Ends True (leftAssocLoop op operand turns left) s fun e _ => IsBinary e := by
  induction turns generalizing left s with
  | zero => exact ends_pure binary
  | succ turns ih =>
    refine .of_step (peek_apply s) ?_
    cases op s.token with
    | none => exact ends_pure binary
    | some operator =>
      refine .of_step (advance_apply s) ?_
      exact (show Ends True operand s.next fun _ _ => True from ⟨fun _ => trivial, fun _ _ _ => trivial⟩).bind
        fun right s' _ => ih trivial

/-- Above an operator there is always an operator. -/
theorem ends_binary (first : Ends True operand s fun e _ => IsBinary e) :
    Ends True (leftAssoc op operand) s fun e _ => IsBinary e :=
  first.bind fun _ s' binary => .of_step (get_apply s') (ends_binaryLoop binary)

/-- With the operand read, the NOT in front of it ends where the operand does. -/
theorem parseTerm_negated {X : Extern} {n : Nat} (negation : s.token = .keyword .not)
    (read : (calls X n).parseTerm s.next = (.ok left, s')) :
    ∃ e, (calls X (n + 1)).parseTerm s = (.ok e, s') := by
  cases n with
  | zero => cases read
  | succ n =>
    refine leftAssoc_other (calls_succ X n).parseFactor read fun factor s₁ read => ?_
    cases n with
    | zero => cases read
    | succ n =>
      refine leftAssoc_other (calls_succ X n).parseUnary read fun unary s₂ read => ⟨.unaryOp .not unary, ?_⟩
      refine (bind_of_ok (eatIf_miss (by rw [negation]; nofun)) _).trans ?_
      exact (bind_of_ok (eatIf_hit negation) _).trans (bind_of_ok read _)

/-- An operand with a comparison behind it makes the equality. -/
theorem parseEquality_binary {X : Extern} {n : Nat}
    (read : (calls X n).parseTerm s = (.ok left, s')) (compared : s'.token = .symbol .eq)
    (more : s'.rest ≠ []) : Ends True (calls X (n + 2)).parseEquality s fun e _ => IsBinary e := by
  have operand : Ends True (calls X (n + 1)).parseComparison s fun _ s₁ => s₁ = s' := by
    refine ends_leftAssoc (Q := fun _ s₁ => s₁ = s') ⟨fun _ => trivial, fun e s₁ ran => ?_⟩ ?_
    · rw [read] at ran
      cases ran
      rfl
    · rintro _ _ rfl
      rw [compared]
      rfl
  refine operand.bind fun e s₁ ended => .of_step (get_apply s₁) ?_
  subst ended
  obtain ⟨turns, length⟩ : ∃ turns, s₁.rest.length = turns + 1 :=
    Nat.exists_eq_succ_of_ne_zero (by simpa using more)
  rw [length]
  refine .of_step (peek_apply s₁) ?_
  rw [compared]
  refine .of_step (advance_apply s₁) ?_
  exact ((calls_sound X (n + 1)).parseComparison _ trivial).bind fun right s₂ _ => ends_binaryLoop trivial

end Negation

/-! ## What an AND, an OR and a NOT are read as -/

/-- The tokens behind the name of a column. -/
inductive Phrase where
  | between (low high : List Token)
  | like (pattern : List Token)
  | iLike (pattern : List Token)

def Phrase.tokens : Phrase → List Token
  | .between low high => .keyword .between :: (low ++ .keyword .and :: high)
  | .like pattern => .keyword .like :: pattern
  | .iLike pattern => .keyword .iLike :: pattern

/-- The predicate a phrase is for. -/
def Phrase.On (c : Text) : Phrase → Expr → Prop
  | .between _ _, e => ∃ low high, e = .between (.column c) low high
  | .like _, e => ∃ pattern, e = .like (.column c) pattern
  | .iLike _, e => ∃ pattern, e = .iLike (.column c) pattern

def negatedPhrase (negated : Bool) (phrase : Phrase) : List Token :=
  if negated then .keyword .not :: phrase.tokens else phrase.tokens

/-- AND or OR. -/
inductive Connective where
  | and
  | or

def Connective.token : Connective → Token
  | .and => .keyword .and
  | .or => .keyword .or

def Connective.operator : Connective → BinaryOperator
  | .and => .and
  | .or => .or

/-- `c phrase AND q` is the conjunction of the predicate and `q`, and so with OR and with NOT. -/
def Joined (X : Extern) (stack : Nat) (placed : List Placed) (c : Text) (negated : Bool) (phrase : Phrase)
    (connective : Connective) : Prop :=
  ∃ predicate right, phrase.On c predicate ∧ expressionOf X stack placed = .ok
    (.binaryOp (if negated then .unaryOp .not predicate else predicate) connective.operator right)

/-- In front of `rest`, which starts with `=`, the tokens `x` are one operand. -/
def IsOperand (X : Extern) (x rest : List Placed) : Prop :=
  ∃ stack left, (calls X stack).parseTerm ⟨x ++ rest, 1⟩ = (.ok left, ⟨rest, 1⟩)

/-- `NOT x = y` is the negation of the comparison. -/
def NegatesComparison (X : Extern) (stack : Nat) (placed : List Placed) : Prop :=
  ∃ left right, expressionOf X stack placed = .ok (.unaryOp .not (.binaryOp left .eq right))

theorem phrase_starts (phrase : Phrase) : ∃ word rest, phrase.tokens = word :: rest ∧ word ∈ predicateWords := by
  cases phrase <;> exact ⟨_, _, rfl, by simp [predicateWords]⟩

section Claims

variable {X : Extern}

theorem token_of_map {placed : List Placed} {t : Token} {later : List Token} (depth : Nat)
    (tokens : placed.map Prod.fst = t :: later) :
    Parser.token ⟨placed, depth⟩ = t ∧ ∃ rest, Parser.next ⟨placed, depth⟩ = ⟨rest, depth⟩ ∧
      rest.map Prod.fst = later := by
  cases placed with
  | nil => cases tokens
  | cons first rest =>
    obtain ⟨rfl, rfl⟩ := List.cons.inj tokens
    exact ⟨rfl, rest, rfl, rfl⟩

/-- The expression of a phrase is a predicate and not a conjunction. -/
theorem expressionOf_phrase {stack : Nat} {placed : List Placed} {c : Text} {negated : Bool} {phrase : Phrase}
    {later : List Token} (tokens : placed.map Prod.fst = .identifier c :: (negatedPhrase negated phrase ++ later))
    {e : Expr} (ran : expressionOf X stack placed = .ok e) : Predicate c e := by
  obtain ⟨word, rest, starts, isWord⟩ := phrase_starts phrase
  have takes : ∀ n, Ends True (calls X n).parseUnary ⟨placed, 1⟩
      fun e s' => Predicate c e ∧ StopsAt operators s'.token := by
    obtain ⟨named, tail, nextIs, tokens⟩ := token_of_map 1 tokens
    refine unary_takes c named ?_
    rw [nextIs]
    cases negated with
    | false =>
      rw [negatedPhrase, if_neg nofun, starts, List.cons_append] at tokens
      rw [(token_of_map _ tokens).1]
      exact .inl isWord
    | true =>
      rw [negatedPhrase, if_pos rfl, starts, List.cons_append, List.cons_append] at tokens
      obtain ⟨isNot, tail', nextIs, tokens⟩ := token_of_map 1 tokens
      rw [nextIs, isNot, (token_of_map _ tokens).1]
      exact .inr ⟨rfl, isWord⟩
  exact (expression_of_unary (s := ⟨placed, 0⟩) takes stack).post e _ (eq_ok_of_fst ran)

theorem predicate_not_binary {c : Text} {e : Expr} (predicate : Predicate c e) : ¬ IsBinary e := by
  rcases predicate with plain | ⟨positive, rfl, -⟩
  · cases e <;> simp_all [OnColumn, IsBinary]
  · exact id

/-- A comparison behind the operand of a NOT makes an equality of the whole. -/
theorem expressionOf_negation {stack : Nat} {negation equals : Placed} {x y : List Placed}
    (isNot : negation.1 = .keyword .not) (isEq : equals.1 = .symbol .eq) (operand : IsOperand X x (equals :: y))
    {e : Expr} (ran : expressionOf X stack (negation :: (x ++ equals :: y)) = .ok e) : IsBinary e := by
  obtain ⟨n, left, read⟩ := operand
  obtain ⟨negated, read⟩ := parseTerm_negated (s := ⟨negation :: (x ++ equals :: y), 1⟩) isNot read
  have room := calls_le X Calls.parseTerm Calls.Below.parseTerm (Nat.le_add_left (n + 1) stack)
  have read := (room ⟨negation :: (x ++ equals :: y), 1⟩ (by rw [read]; nofun)).trans read
  have equality := parseEquality_binary read isEq nofun
  have conjunction : Ends True (calls X (stack + (n + 1) + 3)).parseAnd ⟨negation :: (x ++ equals :: y), 1⟩
      fun e _ => IsBinary e := ends_binary equality
  have disjunction : Ends True (calls X (stack + (n + 1) + 4)).parseOr ⟨negation :: (x ++ equals :: y), 1⟩
      fun e _ => IsBinary e := ends_binary conjunction
  have whole : Ends True (calls X (stack + (n + 1) + 5)).parseExpression ⟨negation :: (x ++ equals :: y), 0⟩
      fun e _ => IsBinary e :=
    ends_parseExpression (calls X (stack + (n + 1) + 4)) (Q := fun e _ => IsBinary e) disjunction
  have more := calls_le X Calls.parseExpression Calls.Below.parseExpression
    (show stack ≤ stack + (n + 1) + 5 by omega) ⟨negation :: (x ++ equals :: y), 0⟩
  have ran := eq_ok_of_fst ran
  exact whole.post e _ ((more (by rw [ran]; nofun)).trans ran)

/-- **No AND, OR or comparison is read as an operator of a predicate or below a NOT.** Whatever the
operands are, `c BETWEEN l AND h AND q`, `c LIKE p AND q`, `c ILIKE p OR q` and their NOT forms are no
conjunction or disjunction, and `NOT x = y` is not the negation of a comparison. -/
theorem predicates_capture (X : Extern) :
    (∀ (stack : Nat) (placed : List Placed) (c : Text) (negated : Bool) (phrase : Phrase)
      (connective : Connective) (q : List Token),
      placed.map Prod.fst = .identifier c :: (negatedPhrase negated phrase ++ connective.token :: q) →
        ¬ Joined X stack placed c negated phrase connective) ∧
    ∀ (stack : Nat) (negation equals : Placed) (x y : List Placed), negation.1 = .keyword .not →
      equals.1 = .symbol .eq → IsOperand X x (equals :: y) →
        ¬ NegatesComparison X stack (negation :: (x ++ equals :: y)) := by
  constructor
  · rintro stack placed c negated phrase connective q tokens ⟨predicate, right, -, ran⟩
    exact predicate_not_binary (expressionOf_phrase tokens ran) trivial
  · rintro stack negation equals x y isNot isEq operand ⟨left, right, ran⟩
    exact expressionOf_negation isNot isEq operand ran

end Claims

/-- Tokens without their positions. -/
def bare (tokens : List Token) : List Placed := tokens.map fun t => (t, 0, 0)

/-- `c LIKE 'p' AND d`. -/
def likeAndTokens : List Placed :=
  bare [.identifier ['c'], .keyword .like, .string ['p'], .keyword .and, .identifier ['d'], .eof]

/-- The pattern of `c LIKE 'p' AND d` is `'p' AND d`, and `NOT x = y` is `(NOT x) = y`. -/
theorem like_takes_conjunction :
    (expressionOf .ascii 40 likeAndTokens = .ok (.like (.column ['c'])
        (.binaryOp (.literal (.string ['p'])) .and (.column ['d']))) ∧
      ¬ Joined .ascii 40 likeAndTokens ['c'] false (.like [.string ['p']]) .and) ∧
    expressionOf .ascii 40 (bare [.keyword .not, .identifier ['x'], .symbol .eq, .identifier ['y'], .eof]) =
      .ok (.binaryOp (.unaryOp .not (.column ['x'])) .eq (.column ['y'])) := by
  have read : expressionOf .ascii 40 likeAndTokens = .ok (.like (.column ['c'])
      (.binaryOp (.literal (.string ['p'])) .and (.column ['d']))) := rfl
  refine ⟨⟨read, ?_⟩, rfl⟩
  rintro ⟨predicate, right, -, joined⟩
  cases read.symm.trans joined

/-- `NOT x = y` on columns. -/
theorem capture_columns :
    ¬ NegatesComparison .ascii 40
      (bare [.keyword .not, .identifier ['x'], .symbol .eq, .identifier ['y'], .eof]) :=
  (predicates_capture .ascii).2 40 (.keyword .not, 0, 0) (.symbol .eq, 0, 0) (bare [.identifier ['x']])
    (bare [.identifier ['y'], .eof]) rfl rfl ⟨20, .column ['x'], rfl⟩

end Parser

end NovaRuntime.Sql
