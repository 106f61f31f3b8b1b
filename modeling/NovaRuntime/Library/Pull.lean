/-
# NovaRuntime.Library.Pull — rows on demand

A source of rows is a state and a call `next` that gives a row or says that there are
none left. `Yields next s xs` says what the calls give from the state `s` on: the rows of
`xs` in their order, and then nothing, however often it is called again.

The combinators are the loops of pull executors: `cursorNext` over a list, `mapNext`,
`filterNext`, `limitNext` with `skipRows`, and `pairsNext` over two lists, the right one
restarted for each row of the left. Each has one theorem, what it yields when its input
yields `xs`. A loop is given a number of turns and hangs when they run out; `yields_loop`
is the rule for all of them, an invariant with a bound on the turns still to take.
`Pushes` is for sources that may fail: a list that a chain of maps, filters and limits
pushes through one test, `both` of those of the chain.
-/
import NovaRuntime.Library.Outcome

namespace NovaRuntime.Library

set_option autoImplicit false

variable {ε σ τ α β γ : Type}

/-! ## Loops -/

/-- Run `body` until it gives a value. -/
def Exec.loop (body : Exec ε σ (Option β)) : Nat → Exec ε σ β
  | 0 => Exec.lift .hang
  | turns + 1 => do
      match ← body with
      | some b => pure b
      | none => Exec.loop body turns

theorem Exec.loop_of_done {body : Exec ε σ (Option β)} {s s' : σ} {b : β} (turns : Nat)
    (step : body s = (.ok (some b), s')) : Exec.loop body (turns + 1) s = (.ok b, s') := by
  rw [Exec.loop, Exec.bind_of_ok step]
  rfl

theorem Exec.loop_of_again {body : Exec ε σ (Option β)} {s s' : σ} (turns : Nat)
    (step : body s = (.ok none, s')) : Exec.loop body (turns + 1) s = Exec.loop body turns s' := by
  rw [Exec.loop, Exec.bind_of_ok step]

namespace Pull

/-! ## What a source yields -/

/-- A source with nothing left says so, and stays as it is. -/
def Ended (next : Exec ε σ (Option α)) (s : σ) : Prop := next s = (.ok none, s)

def Yields (next : Exec ε σ (Option α)) : σ → List α → Prop
  | s, [] => ∃ s', next s = (.ok none, s') ∧ Ended next s'
  | s, x :: xs => ∃ s', next s = (.ok (some x), s') ∧ Yields next s' xs

variable {next : Exec ε σ (Option α)} {xs : List α} {turns : Nat} {x : α} {f : α → Outcome ε (Option β)}
variable {s : σ}

theorem exists_succ {n : Nat} (enough : n < turns) : ∃ m, turns = m + 1 :=
  Nat.exists_eq_succ_of_ne_zero (Nat.ne_zero_of_lt enough)

theorem Ended.yields (ended : Ended next s) :
    Yields next s [] := ⟨s, ended, ended⟩

/-- Every later call finds nothing either. -/
theorem Ended.stays (ended : Ended next s) (n : Nat) :
    Nat.repeat (fun s => (next s).2) n s = s := by
  induction n with
  | zero => rfl
  | succ n ih =>
    show (next (Nat.repeat (fun s => (next s).2) n s)).2 = s
    rw [ih, ended]

/-- `while let Some(row) = next()? { rows.push(row) }`. -/
def collect (next : Exec ε σ (Option α)) : Nat → Exec ε σ (List α)
  | 0 => Exec.lift .hang
  | turns + 1 => do
      match ← next with
      | none => pure []
      | some x => do
          let rest ← collect next turns
          pure (x :: rest)

/-- **Draining a source** gives what it yields and leaves it ended. -/
theorem Yields.collect (yields : Yields next s xs) (enough : xs.length < turns) :
    ∃ s', collect next turns s = (.ok xs, s') ∧ Ended next s' := by
  induction xs generalizing s turns with
  | nil =>
    obtain ⟨s', last, ended⟩ := yields
    obtain ⟨turns, rfl⟩ := exists_succ enough
    refine ⟨s', ?_, ended⟩
    rw [Pull.collect, Exec.bind_of_ok last]
    rfl
  | cons x xs ih =>
    obtain ⟨s', first, rest⟩ := yields
    obtain ⟨turns, rfl⟩ := exists_succ enough
    rw [List.length_cons] at enough
    obtain ⟨s'', collected, ended⟩ := ih rest (Nat.lt_of_succ_lt_succ enough)
    refine ⟨s'', ?_, ended⟩
    rw [Pull.collect, Exec.bind_of_ok first]
    show ((Pull.collect next turns >>= fun rest => pure (x :: rest)) s') = _
    rw [Exec.bind_of_ok collected]
    rfl

/-- A source that is part of a larger state. -/
theorem Yields.zoom {read : τ → σ} {write : σ → τ → τ}
    (reads : ∀ a t, read (write a t) = a) (writes : ∀ a b t, write a (write b t) = write a t)
    {t : τ} (yields : Yields next (read t) xs) :
    Yields (Exec.zoom read write next) t xs := by
  induction xs generalizing t with
  | nil =>
    obtain ⟨s', last, ended⟩ := yields
    refine ⟨write s' t, ?_, ?_⟩
    · rw [Exec.zoom_apply, last]
    · rw [Ended, Exec.zoom_apply, reads, ended, writes]
  | cons x xs ih =>
    obtain ⟨s', first, rest⟩ := yields
    refine ⟨write s' t, ?_, ih ?_⟩
    · rw [Exec.zoom_apply, first]
    · rwa [reads]

/-! ## The rule for loops -/

section Loop

variable {body : Exec ε σ (Option (Option γ))}

/-- One turn of a loop over a source: it is at its end, it has a row, or it goes on. -/
inductive Turn (body : Exec ε σ (Option (Option γ))) (I : Nat → σ → List γ → Prop) (n : Nat)
    (s : σ) : List γ → Prop
  | last {s' : σ} (step : body s = (.ok (some none), s'))
      (ended : body s' = (.ok (some none), s')) : Turn body I n s []
  | row {s' : σ} {y : γ} {ys : List γ} {m : Nat} (step : body s = (.ok (some (some y)), s'))
      (fewer : m < n) (kept : I m s' ys) : Turn body I n s (y :: ys)
  | again {s' : σ} {ys : List γ} {m : Nat} (step : body s = (.ok none, s')) (fewer : m < n)
      (kept : I m s' ys) : Turn body I n s ys

theorem loop_turn {I : Nat → σ → List γ → Prop}
    (turn : ∀ n s ys, I n s ys → Turn body I n s ys) (n : Nat) :
    ∀ s ys turns, I n s ys → n < turns →
      (ys = [] ∧ ∃ s', Exec.loop body turns s = (.ok none, s') ∧ body s' = (.ok (some none), s')) ∨
      ∃ y rest m s', ys = y :: rest ∧ Exec.loop body turns s = (.ok (some y), s') ∧ m < n ∧
        I m s' rest := by
  induction n using Nat.strongRecOn with
  | ind n ih =>
    intro s ys turns holds enough
    obtain ⟨turns, rfl⟩ := exists_succ enough
    cases turn n s ys holds with
    | last step ended => exact .inl ⟨rfl, _, Exec.loop_of_done turns step, ended⟩
    | row step fewer kept =>
      exact .inr ⟨_, _, _, _, rfl, Exec.loop_of_done turns step, fewer, kept⟩
    | @again s' _ m step fewer kept =>
      rw [Exec.loop_of_again turns step]
      rcases ih m fewer s' ys turns kept (by omega) with
        done | ⟨y, rest, m', s'', split, ran, less, later⟩
      · exact .inl done
      · exact .inr ⟨y, rest, m', s'', split, ran, Nat.lt_trans less fewer, later⟩

/-- **A loop yields what its invariant promises**, given more turns than it still needs. -/
theorem yields_loop {I : Nat → σ → List γ → Prop}
    (turn : ∀ n s ys, I n s ys → Turn body I n s ys) {n turns : Nat} {s : σ} {ys : List γ}
    (holds : I n s ys) (enough : n < turns) : Yields (Exec.loop body turns) s ys := by
  induction ys generalizing n s with
  | nil =>
    rcases loop_turn turn n s [] turns holds enough with
      ⟨_, s', ran, ended⟩ | ⟨_, _, _, _, impossible, _⟩
    · obtain ⟨turns, rfl⟩ := exists_succ enough
      exact ⟨s', ran, Exec.loop_of_done turns ended⟩
    · cases impossible
  | cons y ys ih =>
    rcases loop_turn turn n s (y :: ys) turns holds enough with
      ⟨impossible, _⟩ | ⟨_, _, m, s', split, ran, fewer, later⟩
    · cases impossible
    · cases split
      exact ⟨s', ran, ih later (Nat.lt_trans fewer enough)⟩

end Loop

/-! ## A list, gone through by index -/

structure Cursor (α : Type) where
  rows : List α
  index : Nat

def cursorNext : Exec ε (Cursor α) (Option α) := fun s =>
  match s.rows[s.index]? with
  | none => (.ok none, s)
  | some row => (.ok (some row), { s with index := s.index + 1 })

theorem cursor_yields (rows : List α) (index : Nat) :
    Yields (cursorNext : Exec ε (Cursor α) (Option α)) ⟨rows, index⟩ (rows.drop index) := by
  induction left : rows.drop index generalizing index with
  | nil =>
    refine Ended.yields ?_
    have past : rows[index]? = none := List.getElem?_eq_none (List.drop_eq_nil_iff.mp left)
    rw [Ended, cursorNext]
    simp only [past]
  | cons row rest ih =>
    have here : rows[index]? = some row := by
      rw [← List.head?_drop, left]
      rfl
    refine ⟨⟨rows, index + 1⟩, ?_, ih (index + 1) ?_⟩
    · rw [cursorNext]
      simp only [here]
    · rw [← List.tail_drop, left]
      rfl

/-! ## Mapping and filtering -/

def mapNext (next : Exec ε σ (Option α)) (f : α → Outcome ε β) : Exec ε σ (Option β) := do
  match ← next with
  | none => pure none
  | some x => do
      let y ← Exec.lift (f x)
      pure (some y)

theorem map_yields {f : α → Outcome ε β} {g : α → β}
    (yields : Yields next s xs) (each : ∀ x ∈ xs, f x = .ok (g x)) :
    Yields (mapNext next f) s (xs.map g) := by
  induction xs generalizing s with
  | nil =>
    obtain ⟨s', last, ended⟩ := yields
    refine ⟨s', ?_, ?_⟩
    · rw [mapNext, Exec.bind_of_ok last]
      rfl
    · rw [Ended, mapNext, Exec.bind_of_ok ended]
      rfl
  | cons x xs ih =>
    obtain ⟨s', first, rest⟩ := yields
    obtain ⟨here, later⟩ := List.forall_mem_cons.mp each
    refine ⟨s', ?_, ih rest later⟩
    rw [mapNext, Exec.bind_of_ok first]
    simp only [here]
    rfl

def filterTurn (next : Exec ε σ (Option α)) (test : α → Outcome ε Bool) :
    Exec ε σ (Option (Option α)) := do
  match ← next with
  | none => pure (some none)
  | some x => do
      let keep ← Exec.lift (test x)
      pure (if keep then some (some x) else none)

def filterNext (next : Exec ε σ (Option α)) (test : α → Outcome ε Bool) (turns : Nat) :
    Exec ε σ (Option α) := Exec.loop (filterTurn next test) turns

theorem filter_yields {test : α → Outcome ε Bool} {keep : α → Bool} (yields : Yields next s xs)
    (each : ∀ x ∈ xs, test x = .ok (keep x)) (enough : xs.length < turns) :
    Yields (filterNext next test turns) s (xs.filter keep) := by
  refine yields_loop (I := fun n s ys => ∃ xs, Yields next s xs ∧
    (∀ x ∈ xs, test x = .ok (keep x)) ∧ n = xs.length ∧ ys = xs.filter keep) ?_
    ⟨xs, yields, each, rfl, rfl⟩ enough
  rintro n s ys ⟨xs, yields, each, rfl, rfl⟩
  cases xs with
  | nil =>
    obtain ⟨s', last, ended⟩ := yields
    have step : filterTurn next test s = (.ok (some none), s') := by
      rw [filterTurn, Exec.bind_of_ok last]
      rfl
    have stays : filterTurn next test s' = (.ok (some none), s') := by
      rw [filterTurn, Exec.bind_of_ok ended]
      rfl
    exact .last step stays
  | cons x xs =>
    obtain ⟨s', first, rest⟩ := yields
    obtain ⟨here, later⟩ := List.forall_mem_cons.mp each
    have step : filterTurn next test s = (.ok (if keep x then some (some x) else none), s') := by
      rw [filterTurn, Exec.bind_of_ok first]
      simp only [here]
      rfl
    have kept : ∃ xs', Yields next s' xs' ∧ (∀ x ∈ xs', test x = .ok (keep x)) ∧
        xs.length = xs'.length ∧ xs.filter keep = xs'.filter keep := ⟨xs, rest, later, rfl, rfl⟩
    rw [List.filter_cons]
    cases passes : keep x with
    | true =>
      rw [passes] at step
      exact .row step (Nat.lt_succ_self _) kept
    | false =>
      rw [passes] at step
      exact .again step (Nat.lt_succ_self _) kept

/-! ## A window of rows -/

structure Window (σ : Type) where
  input : σ
  skipped : Nat
  emitted : Nat

def Window.onInput (x : Exec ε σ α) : Exec ε (Window σ) α :=
  Exec.zoom Window.input (fun s w => { w with input := s }) x

/-- One turn of `while skipped < offset`. -/
def skipTurn (next : Exec ε σ (Option α)) (offset : Nat) :
    Exec ε (Window σ) (Option Unit) := do
  let w ← Exec.get
  if w.skipped < offset then
    match ← Window.onInput next with
    | none => pure (some ())
    | some _ => do
        Exec.modify fun w => { w with skipped := w.skipped + 1 }
        pure none
  else pure (some ())

def limitNext (next : Exec ε σ (Option α)) (limit : Nat) : Exec ε (Window σ) (Option α) := do
  let w ← Exec.get
  if limit ≤ w.emitted then pure none
  else
    match ← Window.onInput next with
    | none => pure none
    | some x => do
        Exec.modify fun w => { w with emitted := w.emitted + 1 }
        pure (some x)

variable {w : Window σ}

theorem Window.onInput_of_ok {x : Exec ε σ α} {a : α} {s' : σ} (step : x w.input = (.ok a, s')) :
    Window.onInput x w = (.ok a, { w with input := s' }) := by
  rw [Window.onInput, Exec.zoom_apply, step]

theorem limit_yields {limit : Nat} (yields : Yields next w.input xs) :
    Yields (limitNext next limit) w (xs.take (limit - w.emitted)) := by
  by_cases full : limit ≤ w.emitted
  · rw [Nat.sub_eq_zero_of_le full, List.take_zero]
    refine Ended.yields ?_
    rw [Ended, limitNext, Exec.get_bind, if_pos full]
    rfl
  · induction xs generalizing w with
    | nil =>
      obtain ⟨s', last, ended⟩ := yields
      rw [List.take_nil]
      refine ⟨{ w with input := s' }, ?_, ?_⟩
      · rw [limitNext, Exec.get_bind, if_neg full, Exec.bind_of_ok (Window.onInput_of_ok last)]
        rfl
      · rw [Ended, limitNext, Exec.get_bind, if_neg full,
          Exec.bind_of_ok (Window.onInput_of_ok (w := { w with input := s' }) ended)]
        rfl
    | cons x xs ih =>
      obtain ⟨s', first, rest⟩ := yields
      have one : limit - w.emitted = limit - (w.emitted + 1) + 1 := by omega
      rw [one, List.take_succ_cons]
      refine ⟨⟨s', w.skipped, w.emitted + 1⟩, ?_, ?_⟩
      · rw [limitNext, Exec.get_bind, if_neg full, Exec.bind_of_ok (Window.onInput_of_ok first)]
        rfl
      · by_cases nowFull : limit ≤ w.emitted + 1
        · rw [Nat.sub_eq_zero_of_le nowFull, List.take_zero]
          refine Ended.yields ?_
          rw [Ended, limitNext, Exec.get_bind, if_pos nowFull]
          rfl
        · exact ih (w := ⟨s', w.skipped, w.emitted + 1⟩) rest nowFull

/-- **Skipping** leaves what comes after the offset, or nothing. -/
theorem skip_yields {offset : Nat} (yields : Yields next w.input xs) (enough : xs.length < turns) :
    ∃ w', Exec.loop (skipTurn next offset) turns w = (.ok (), w') ∧ w'.emitted = w.emitted ∧
      Yields next w'.input (xs.drop (offset - w.skipped)) := by
  induction xs generalizing w turns with
  | nil =>
    obtain ⟨turns, rfl⟩ := exists_succ enough
    rw [List.drop_nil]
    by_cases more : w.skipped < offset
    · obtain ⟨s', last, ended⟩ := yields
      refine ⟨{ w with input := s' }, Exec.loop_of_done turns ?_, rfl, ended.yields⟩
      rw [skipTurn, Exec.get_bind, if_pos more, Exec.bind_of_ok (Window.onInput_of_ok last)]
      rfl
    · refine ⟨w, Exec.loop_of_done turns ?_, rfl, yields⟩
      rw [skipTurn, Exec.get_bind, if_neg more]
      rfl
  | cons x xs ih =>
    obtain ⟨turns, rfl⟩ := exists_succ enough
    by_cases more : w.skipped < offset
    · obtain ⟨s', first, rest⟩ := yields
      obtain ⟨w', ran, emitted, left⟩ := ih (w := ⟨s', w.skipped + 1, w.emitted⟩) rest
        (Nat.lt_of_succ_lt_succ enough)
      refine ⟨w', ?_, emitted, ?_⟩
      · rw [← ran]
        refine Exec.loop_of_again turns ?_
        rw [skipTurn, Exec.get_bind, if_pos more, Exec.bind_of_ok (Window.onInput_of_ok first)]
        rfl
      · have one : offset - w.skipped = offset - (w.skipped + 1) + 1 := by omega
        rw [one, List.drop_succ_cons]
        exact left
    · refine ⟨w, Exec.loop_of_done turns ?_, rfl, ?_⟩
      · rw [skipTurn, Exec.get_bind, if_neg more]
        rfl
      · rw [Nat.sub_eq_zero_of_le (Nat.not_lt.mp more), List.drop_zero]
        exact yields

/-! ## The pairs of two lists -/

structure Pairs (α β : Type) where
  lefts : List α
  leftIndex : Nat
  rights : List β
  rightIndex : Nat

/-- One turn of a nested loop: the next pair, or on to the next row of the left. -/
def pairsTurn (test : α → β → Outcome ε (Option γ)) : Exec ε (Pairs α β) (Option (Option γ)) :=
  fun s =>
    match s.lefts[s.leftIndex]? with
    | none => (.ok (some none), s)
    | some l =>
      match s.rights[s.rightIndex]? with
      | none => (.ok none, { s with leftIndex := s.leftIndex + 1, rightIndex := 0 })
      | some r => (test l r >>= fun given => .ok (given.map some),
          { s with rightIndex := s.rightIndex + 1 })

def pairsNext (test : α → β → Outcome ε (Option γ)) (turns : Nat) :
    Exec ε (Pairs α β) (Option γ) := Exec.loop (pairsTurn test) turns

/-- All pairs, the left one changing last. -/
def product (lefts : List α) (rights : List β) : List (α × β) :=
  lefts.flatMap fun l => rights.map fun r => (l, r)

/-- The pairs still to come: the rest of the row the left stands at, then the later rows. -/
def Pairs.left (s : Pairs α β) : List (α × β) :=
  match s.lefts.drop s.leftIndex with
  | [] => []
  | l :: later => (s.rights.drop s.rightIndex).map (fun r => (l, r)) ++ product later s.rights

/-- The turns still needed: one for each pair to come and one for each end of the right. -/
def Pairs.turnsLeft (s : Pairs α β) : Nat :=
  match s.lefts.drop s.leftIndex with
  | [] => 0
  | _ :: later => (s.rights.length - s.rightIndex + 1) + later.length * (s.rights.length + 1)

section Pairs

variable {lefts : List α} {rights : List β} {i j : Nat}

theorem Pairs.left_of_drop {l : α} {later : List α} (atLeft : lefts.drop i = l :: later) :
    (⟨lefts, i, rights, j⟩ : Pairs α β).left =
      (rights.drop j).map (fun r => (l, r)) ++ product later rights := by
  rw [Pairs.left]
  simp only [atLeft]

theorem Pairs.turnsLeft_of_drop {l : α} {later : List α} (atLeft : lefts.drop i = l :: later) :
    (⟨lefts, i, rights, j⟩ : Pairs α β).turnsLeft =
      (rights.length - j + 1) + later.length * (rights.length + 1) := by
  rw [Pairs.turnsLeft]
  simp only [atLeft]

/-- At the start of a row all its pairs are to come. -/
theorem Pairs.left_of_row (lefts : List α) (i : Nat) (rights : List β) :
    (⟨lefts, i, rights, 0⟩ : Pairs α β).left = product (lefts.drop i) rights := by
  rw [Pairs.left]
  cases atLeft : lefts.drop i with
  | nil => rfl
  | cons l later => rfl

theorem Pairs.turnsLeft_of_row (lefts : List α) (i : Nat) (rights : List β) :
    (⟨lefts, i, rights, 0⟩ : Pairs α β).turnsLeft =
      (lefts.drop i).length * (rights.length + 1) := by
  rw [Pairs.turnsLeft]
  cases atLeft : lefts.drop i with
  | nil => simp
  | cons l later =>
    simp only [List.length_cons, Nat.sub_zero]
    rw [Nat.add_mul, Nat.one_mul, Nat.add_comm]

theorem getElem?_of_drop {xs : List α} {x : α} {rest : List α} {n : Nat}
    (atN : xs.drop n = x :: rest) : xs[n]? = some x ∧ xs.drop (n + 1) = rest := by
  constructor
  · rw [← List.head?_drop, atN]
    rfl
  · rw [← List.tail_drop, atN]
    rfl

/-- The invariant of the nested loop: what is to come is what `pick` makes of the pairs left. -/
def Pairs.Coming (test : α → β → Outcome ε (Option γ)) (pick : α → β → Option γ) (n : Nat)
    (s : Pairs α β) (ys : List γ) : Prop :=
  (∀ p ∈ s.left, test p.1 p.2 = .ok (pick p.1 p.2)) ∧ n = s.turnsLeft ∧
    ys = s.left.filterMap fun p => pick p.1 p.2

theorem pairs_turn {test : α → β → Outcome ε (Option γ)} {pick : α → β → Option γ}
    (each : ∀ p ∈ (⟨lefts, i, rights, j⟩ : Pairs α β).left, test p.1 p.2 = .ok (pick p.1 p.2)) :
    Turn (pairsTurn test) (Pairs.Coming test pick)
      (⟨lefts, i, rights, j⟩ : Pairs α β).turnsLeft ⟨lefts, i, rights, j⟩
      ((⟨lefts, i, rights, j⟩ : Pairs α β).left.filterMap fun p => pick p.1 p.2) := by
  cases atLeft : lefts.drop i with
  | nil =>
    have past : lefts[i]? = none := List.getElem?_eq_none (List.drop_eq_nil_iff.mp atLeft)
    have nothing : (⟨lefts, i, rights, j⟩ : Pairs α β).left = [] := by
      rw [Pairs.left]
      simp only [atLeft]
    have ended : pairsTurn test ⟨lefts, i, rights, j⟩ =
        (.ok (some none), ⟨lefts, i, rights, j⟩) := by
      rw [pairsTurn]
      simp only [past]
    rw [nothing]
    exact .last ended ended
  | cons l later =>
    obtain ⟨here, dropped⟩ := getElem?_of_drop atLeft
    cases atRight : rights.drop j with
    | nil =>
      have past : rights[j]? = none := List.getElem?_eq_none (List.drop_eq_nil_iff.mp atRight)
      have moved : pairsTurn test ⟨lefts, i, rights, j⟩ =
          (.ok none, ⟨lefts, i + 1, rights, 0⟩) := by
        rw [pairsTurn]
        simp only [here, past]
      have same : (⟨lefts, i, rights, j⟩ : Pairs α β).left =
          (⟨lefts, i + 1, rights, 0⟩ : Pairs α β).left := by
        rw [Pairs.left_of_drop atLeft, Pairs.left_of_row, atRight, dropped]
        rfl
      rw [same] at each ⊢
      refine .again moved ?_ ⟨each, rfl, rfl⟩
      rw [Pairs.turnsLeft_of_drop atLeft, Pairs.turnsLeft_of_row, dropped]
      omega
    | cons r rest =>
      obtain ⟨hereRight, droppedRight⟩ := getElem?_of_drop atRight
      have inside : j < rights.length := by
        by_contra outside
        rw [List.drop_eq_nil_of_le (Nat.not_lt.mp outside)] at atRight
        cases atRight
      have split : (⟨lefts, i, rights, j⟩ : Pairs α β).left =
          (l, r) :: (⟨lefts, i, rights, j + 1⟩ : Pairs α β).left := by
        rw [Pairs.left_of_drop atLeft, Pairs.left_of_drop atLeft, atRight, droppedRight]
        rfl
      have fewer : (⟨lefts, i, rights, j + 1⟩ : Pairs α β).turnsLeft <
          (⟨lefts, i, rights, j⟩ : Pairs α β).turnsLeft := by
        rw [Pairs.turnsLeft_of_drop atLeft, Pairs.turnsLeft_of_drop atLeft]
        omega
      rw [split] at each ⊢
      obtain ⟨tested, others⟩ := List.forall_mem_cons.mp each
      have stepped : pairsTurn test ⟨lefts, i, rights, j⟩ =
          (.ok ((pick l r).map some), ⟨lefts, i, rights, j + 1⟩) := by
        rw [pairsTurn]
        simp only [here, hereRight, tested, Outcome.ok_bind]
      cases picked : pick l r with
      | none =>
        rw [picked] at stepped
        simp only [List.filterMap_cons, picked]
        exact .again stepped fewer ⟨others, rfl, rfl⟩
      | some c =>
        rw [picked] at stepped
        simp only [List.filterMap_cons, picked]
        exact .row stepped fewer ⟨others, rfl, rfl⟩

/-- **A nested loop yields the pairs it picks**, the left list changing last. -/
theorem pairs_yields {test : α → β → Outcome ε (Option γ)} {pick : α → β → Option γ}
    (each : ∀ p ∈ product lefts rights, test p.1 p.2 = .ok (pick p.1 p.2)) {turns : Nat}
    (enough : lefts.length * (rights.length + 1) < turns) :
    Yields (pairsNext test turns) ⟨lefts, 0, rights, 0⟩
      ((product lefts rights).filterMap fun p => pick p.1 p.2) := by
  have start : (⟨lefts, 0, rights, 0⟩ : Pairs α β).left = product lefts rights := by
    rw [Pairs.left_of_row, List.drop_zero]
  have needed : (⟨lefts, 0, rights, 0⟩ : Pairs α β).turnsLeft < turns := by
    rw [Pairs.turnsLeft_of_row, List.drop_zero]
    exact enough
  rw [← start] at each ⊢
  refine yields_loop (I := Pairs.Coming test pick) ?_ ⟨each, rfl, rfl⟩ needed
  rintro n s ys ⟨each, rfl, rfl⟩
  exact pairs_turn each

end Pairs

/-! ## Sources that fail -/

/-- How a call ends without a value. -/
inductive Stop (ε : Type) where
  | err (error : ε)
  | panic
  | hang

def Stop.ends : Stop ε → Outcome ε α
  | .err e => .err e
  | .panic => .panic
  | .hang => .hang

theorem stop_of_not_ok {o : Outcome ε α} (failed : ∀ a, o ≠ .ok a) : ∃ stop : Stop ε, o = stop.ends := by
  cases o with
  | ok a => exact absurd rfl (failed a)
  | err e => exact ⟨.err e, rfl⟩
  | panic => exact ⟨.panic, rfl⟩
  | hang => exact ⟨.hang, rfl⟩

theorem bind_of_stop {x : Exec ε σ α} {s' : σ} {stop : Stop ε} (ended : x s = (stop.ends, s'))
    (f : α → Exec ε σ β) : (x >>= f) s = (stop.ends, s') := by
  cases stop <;>
    · rw [Exec.bind_apply, ended]
      rfl

/-- A list pushed through a test that keeps, changes or drops an item, or fails. -/
def pushed (f : α → Outcome ε (Option β)) : List α → Outcome ε (List β)
  | [] => .ok []
  | x :: xs => do
      match ← f x with
      | none => pushed f xs
      | some y => do
          let ys ← pushed f xs
          pure (y :: ys)

/-- **A source that pushes a list through a test**: what a call of `next` gives, and every call after it. -/
inductive Pushes (next : Exec ε σ (Option β)) (f : α → Outcome ε (Option β)) :
    Outcome ε (Option β) × σ → List α → Prop
  | ended {s : σ} (stays : Ended next s) : Pushes next f (.ok none, s) []
  | dropped {given : Outcome ε (Option β) × σ} {x : α} {xs : List α} (drops : f x = .ok none)
      (rest : Pushes next f given xs) : Pushes next f given (x :: xs)
  | kept {s : σ} {x : α} {y : β} {xs : List α} (keeps : f x = .ok (some y)) (rest : Pushes next f (next s) xs) :
      Pushes next f (.ok (some y), s) (x :: xs)
  | stopped {s : σ} {x : α} {xs : List α} {stop : Stop ε} (fails : f x = stop.ends) :
      Pushes next f (stop.ends, s) (x :: xs)

theorem Yields.pushes (yields : Yields next s xs) :
    Pushes next (fun x => .ok (some x)) (next s) xs := by
  induction xs generalizing s with
  | nil =>
    obtain ⟨s', last, stays⟩ := yields
    rw [last]
    exact .ended stays
  | cons x xs ih =>
    obtain ⟨s', first, rest⟩ := yields
    rw [first]
    exact .kept rfl (ih rest)

/-- **Draining it** ends as pushing the list does. -/
theorem Pushes.collect {next : Exec ε σ (Option β)}
    (pushes : Pushes next f (next s) xs) (enough : xs.length < turns) :
    ∃ s', collect next turns s = (pushed f xs, s') := by
  induction xs generalizing s turns with
  | nil =>
    obtain ⟨turns, rfl⟩ := exists_succ enough
    generalize given : next s = r at pushes
    cases pushes with
    | @ended s' _ => exact ⟨s', by rw [Pull.collect, Exec.bind_of_ok given]; rfl⟩
  | cons x xs ih =>
    obtain ⟨turns, rfl⟩ := exists_succ enough
    have fewer : xs.length < turns := Nat.lt_of_succ_lt_succ enough
    generalize given : next s = r at pushes
    cases pushes with
    | dropped drops rest =>
      rw [pushed, drops, Outcome.ok_bind]
      exact ih (given ▸ rest) (Nat.lt_succ_of_lt fewer)
    | @kept s' _ y _ keeps rest =>
      obtain ⟨s'', ended⟩ := ih rest fewer
      refine ⟨s'', ?_⟩
      rw [pushed, keeps, Outcome.ok_bind, Pull.collect, Exec.bind_of_ok given]
      show (Pull.collect next turns >>= fun rest => pure (y :: rest)) s' = _
      rw [Exec.bind_apply, ended]
      cases pushed f xs <;> rfl
    | @stopped s' _ _ stop fails =>
      refine ⟨s', ?_⟩
      rw [pushed, fails]
      refine (bind_of_stop given _).trans ?_
      cases stop <;> rfl

/-- One test behind another. -/
def both (f : α → Outcome ε (Option β)) (g : β → Outcome ε (Option γ)) (x : α) : Outcome ε (Option γ) := do
  match ← f x with
  | none => pure none
  | some y => g y

theorem both_of_dropped (drops : f x = .ok none)
    (g : β → Outcome ε (Option γ)) : both f g x = .ok none := by
  rw [both, drops]
  rfl

theorem both_of_kept {y : β} (keeps : f x = .ok (some y))
    (g : β → Outcome ε (Option γ)) : both f g x = g y := by
  rw [both, keeps]
  rfl

theorem both_of_stopped {stop : Stop ε} (fails : f x = stop.ends)
    (g : β → Outcome ε (Option γ)) : both f g x = stop.ends := by
  rw [both, fails]
  cases stop <;> rfl

/-- The test of a map. -/
def changed (h : α → Outcome ε β) (x : α) : Outcome ε (Option β) := do
  let y ← h x
  pure (some y)

/-- The test of a filter. -/
def tested (test : α → Outcome ε Bool) (x : α) : Outcome ε (Option α) := do
  let keep ← test x
  pure (if keep then some x else none)

theorem Pushes.map {next : Exec ε σ (Option β)} {h : β → Outcome ε γ}
    (pushes : Pushes next f (next s) xs) :
    Pushes (mapNext next h) (both f (changed h)) (mapNext next h s) xs := by
  induction xs generalizing s with
  | nil =>
    generalize given : next s = r at pushes
    cases pushes with
    | @ended s' stays =>
      have last : mapNext next h s = (.ok none, s') := by rw [mapNext, Exec.bind_of_ok given]; rfl
      have still : mapNext next h s' = (.ok none, s') := by rw [mapNext, Exec.bind_of_ok stays]; rfl
      rw [last]
      exact .ended still
  | cons x xs ih =>
    generalize given : next s = r at pushes
    cases pushes with
    | dropped drops rest => exact .dropped (both_of_dropped drops _) (ih (given ▸ rest))
    | @kept s' _ y _ keeps rest =>
      have first : mapNext next h s =
          (Exec.lift (h y) >>= fun z => (pure (some z) : Exec ε σ (Option γ))) s' := by
        rw [mapNext, Exec.bind_of_ok given]
      have through : both f (changed h) x = changed h y := both_of_kept keeps _
      have ends (stop : Stop ε) (fails : h y = stop.ends) :
          Pushes (mapNext next h) (both f (changed h)) (stop.ends, s') (x :: xs) := by
        refine .stopped (through.trans ?_)
        rw [changed, fails]
        cases stop <;> rfl
      rw [first, Exec.bind_apply, Exec.lift_apply]
      cases changes : h y with
      | ok z => exact .kept (through.trans (by rw [changed, changes]; rfl)) (ih rest)
      | err e => exact ends (.err e) changes
      | panic => exact ends .panic changes
      | hang => exact ends .hang changes
    | @stopped s' _ _ stop fails =>
      rw [show mapNext next h s = (stop.ends, s') from bind_of_stop given _]
      exact .stopped (both_of_stopped fails _)

/-- The loop of a filter, with turns for all that is left. -/
theorem Pushes.filter_loop {next : Exec ε σ (Option β)} {test : β → Outcome ε Bool}
    (pushes : Pushes next f (next s) xs) (enough : xs.length < turns)
    {left : Nat} (room : xs.length < left) :
    Pushes (filterNext next test turns) (both f (tested test)) (Exec.loop (filterTurn next test) left s) xs := by
  induction xs generalizing s left with
  | nil =>
    obtain ⟨left, rfl⟩ := Nat.exists_eq_succ_of_ne_zero (Nat.ne_zero_of_lt room)
    obtain ⟨turns, rfl⟩ := exists_succ enough
    generalize given : next s = r at pushes
    cases pushes with
    | @ended s' stays =>
      have last : filterTurn next test s = (.ok (some none), s') := by
        rw [filterTurn, Exec.bind_of_ok given]
        rfl
      have still : filterTurn next test s' = (.ok (some none), s') := by
        rw [filterTurn, Exec.bind_of_ok stays]
        rfl
      rw [Exec.loop_of_done left last]
      exact .ended (Exec.loop_of_done turns still)
  | cons x xs ih =>
    obtain ⟨left, rfl⟩ := Nat.exists_eq_succ_of_ne_zero (Nat.ne_zero_of_lt room)
    have fewer : xs.length < left := Nat.lt_of_succ_lt_succ room
    have still : xs.length < turns := Nat.lt_of_succ_lt enough
    generalize given : next s = r at pushes
    cases pushes with
    | dropped drops rest =>
      exact .dropped (both_of_dropped drops _) (ih (given ▸ rest) still (Nat.lt_succ_of_lt fewer))
    | @kept s' _ y _ keeps rest =>
      have turn : filterTurn next test s = (Exec.lift (test y) >>= fun keep =>
          (pure (if keep then some (some y) else none) : Exec ε σ (Option (Option β)))) s' := by
        rw [filterTurn, Exec.bind_of_ok given]
      rw [Exec.bind_apply, Exec.lift_apply] at turn
      have through : both f (tested test) x = tested test y := both_of_kept keeps _
      have ends (stop : Stop ε) (fails : test y = stop.ends) :
          Pushes (filterNext next test turns) (both f (tested test))
            (Exec.loop (filterTurn next test) (left + 1) s) (x :: xs) := by
        have broken : filterTurn next test s = (stop.ends, s') := by
          rw [turn, fails]
          cases stop <;> rfl
        rw [Exec.loop, bind_of_stop broken]
        refine .stopped (through.trans ?_)
        rw [tested, fails]
        cases stop <;> rfl
      cases passes : test y with
      | ok keep =>
        rw [passes] at turn
        cases keep with
        | true =>
          rw [Exec.loop_of_done left turn]
          exact .kept (through.trans (by rw [tested, passes]; rfl)) (ih rest still still)
        | false =>
          rw [Exec.loop_of_again left turn]
          exact .dropped (through.trans (by rw [tested, passes]; rfl)) (ih rest still fewer)
      | err e => exact ends (.err e) passes
      | panic => exact ends .panic passes
      | hang => exact ends .hang passes
    | @stopped s' _ _ stop fails =>
      have broken : filterTurn next test s = (stop.ends, s') := bind_of_stop given _
      rw [Exec.loop, bind_of_stop broken]
      exact .stopped (both_of_stopped fails _)

theorem Pushes.filter {next : Exec ε σ (Option β)} {test : β → Outcome ε Bool}
    (pushes : Pushes next f (next s) xs) (enough : xs.length < turns) :
    Pushes (filterNext next test turns) (both f (tested test)) (filterNext next test turns s) xs :=
  pushes.filter_loop enough enough

/-- A limit that is not reached lets everything through. -/
theorem Pushes.limit {next : Exec ε σ (Option β)} {limit : Nat}
    (pushes : Pushes next f (next w.input) xs) (room : w.emitted + xs.length < limit) :
    Pushes (limitNext next limit) f (limitNext next limit w) xs := by
  have open' : ¬ limit ≤ w.emitted := by omega
  induction xs generalizing w with
  | nil =>
    generalize given : next w.input = r at pushes
    cases pushes with
    | @ended s' stays =>
      have last : limitNext next limit w = (.ok none, { w with input := s' }) := by
        rw [limitNext, Exec.get_bind, if_neg open', Exec.bind_of_ok (Window.onInput_of_ok given)]
        rfl
      have still : limitNext next limit { w with input := s' } = (.ok none, { w with input := s' }) := by
        rw [limitNext, Exec.get_bind, if_neg open',
          Exec.bind_of_ok (Window.onInput_of_ok (w := { w with input := s' }) stays)]
        rfl
      rw [last]
      exact .ended still
  | cons x xs ih =>
    rw [List.length_cons] at room
    generalize given : next w.input = r at pushes
    cases pushes with
    | dropped drops rest => exact .dropped drops (ih (given ▸ rest) (by omega) open')
    | @kept s' _ y _ keeps rest =>
      have first : limitNext next limit w = (.ok (some y), ⟨s', w.skipped, w.emitted + 1⟩) := by
        rw [limitNext, Exec.get_bind, if_neg open', Exec.bind_of_ok (Window.onInput_of_ok given)]
        rfl
      have more : ¬ limit ≤ w.emitted + 1 := by omega
      have fewer : w.emitted + 1 + xs.length < limit := by omega
      rw [first]
      exact .kept keeps (ih (w := ⟨s', w.skipped, w.emitted + 1⟩) rest fewer more)
    | @stopped s' _ _ stop fails =>
      have broken : Window.onInput next w = (stop.ends, { w with input := s' }) := by
        rw [Window.onInput, Exec.zoom_apply, given]
      rw [limitNext, Exec.get_bind, if_neg open', bind_of_stop broken]
      exact .stopped fails

/-! ## What pushing gives -/

theorem pushed_of_ok {g : α → Option β}
    (each : ∀ x ∈ xs, f x = .ok (g x)) : pushed f xs = .ok (xs.filterMap g) := by
  induction xs with
  | nil => rfl
  | cons x xs ih =>
    obtain ⟨first, rest⟩ := List.forall_mem_cons.mp each
    rw [pushed, first, Outcome.ok_bind, ih rest]
    cases given : g x with
    | none => rw [List.filterMap_cons_none given]
    | some y =>
      rw [List.filterMap_cons_some given]
      rfl

/-- The first item that fails decides. -/
theorem pushed_of_stop {g : α → Option β} {rest : List α}
    {stop : Stop ε} (each : ∀ y ∈ xs, f y = .ok (g y)) (fails : f x = stop.ends) :
    pushed f (xs ++ x :: rest) = stop.ends := by
  induction xs with
  | nil =>
    rw [List.nil_append, pushed, fails]
    cases stop <;> rfl
  | cons y ys ih =>
    obtain ⟨first, later⟩ := List.forall_mem_cons.mp each
    rw [List.cons_append, pushed, first, Outcome.ok_bind, ih later]
    cases g y <;> cases stop <;> rfl

/-- Two tests in a row succeed on a list if the first does, and the second on what it keeps. -/
theorem pushed_both_eq_ok {g : β → Outcome ε (Option γ)}
    {zs : List γ} : pushed (both f g) xs = .ok zs ↔ ∃ ys, pushed f xs = .ok ys ∧ pushed g ys = .ok zs := by
  induction xs generalizing zs with
  | nil => exact ⟨fun ran => ⟨[], rfl, ran⟩, fun ⟨ys, first, ran⟩ => by cases first; exact ran⟩
  | cons x xs ih =>
    cases given : f x with
    | ok kept =>
      cases kept with
      | none => rw [pushed, both_of_dropped given, Outcome.ok_bind, pushed, given, Outcome.ok_bind, ih]
      | some y =>
        rw [pushed, both_of_kept given, pushed, given, Outcome.ok_bind]
        constructor
        · intro ran
          obtain ⟨next, second, ran⟩ := Outcome.bind_eq_ok.mp ran
          cases next with
          | none =>
            obtain ⟨ys, first, rest⟩ := ih.mp ran
            refine ⟨y :: ys, by rw [first]; rfl, ?_⟩
            rw [pushed, second]
            exact rest
          | some z =>
            obtain ⟨zs', later, same⟩ := Outcome.bind_eq_ok.mp ran
            obtain ⟨ys, first, rest⟩ := ih.mp later
            refine ⟨y :: ys, by rw [first]; rfl, ?_⟩
            rw [pushed, second, Outcome.ok_bind, rest]
            exact same
        · rintro ⟨ys, first, ran⟩
          obtain ⟨ys', later, same⟩ := Outcome.bind_eq_ok.mp first
          cases same
          rw [pushed] at ran
          obtain ⟨next, second, ran⟩ := Outcome.bind_eq_ok.mp ran
          rw [second, Outcome.ok_bind]
          cases next with
          | none => exact ih.mpr ⟨ys', later, ran⟩
          | some z =>
            obtain ⟨zs', rest, same⟩ := Outcome.bind_eq_ok.mp ran
            rw [ih.mpr ⟨ys', later, rest⟩]
            exact same
    | err e | panic | hang => simp [pushed, both, given]

theorem pushed_changed_eq_ok {h : α → Outcome ε β} {ys : List β}
    (ran : pushed (changed h) xs = .ok ys) : List.Forall₂ (fun x y => h x = .ok y) xs ys := by
  induction xs generalizing ys with
  | nil =>
    cases ran
    exact .nil
  | cons x xs ih =>
    rw [pushed] at ran
    obtain ⟨given, first, ran⟩ := Outcome.bind_eq_ok.mp ran
    obtain ⟨y, changes, same⟩ := Outcome.bind_eq_ok.mp first
    cases same
    obtain ⟨ys', rest, same⟩ := Outcome.bind_eq_ok.mp ran
    cases same
    exact .cons changes (ih rest)

theorem pushed_returns (each : ∀ x, (f x).Returns) (xs : List α) :
    (pushed f xs).Returns := by
  induction xs with
  | nil => trivial
  | cons x xs ih =>
    refine (each x).bind fun given => ?_
    cases given with
    | none => exact ih
    | some y => exact ih.bind fun _ => trivial

theorem exists_of_pushed_ok {ys : List β}
    (ran : pushed f xs = .ok ys) : ∀ x ∈ xs, ∃ given, f x = .ok given := by
  induction xs generalizing ys with
  | nil => simp
  | cons x xs ih =>
    rw [pushed] at ran
    obtain ⟨given, first, ran⟩ := Outcome.bind_eq_ok.mp ran
    refine List.forall_mem_cons.mpr ⟨⟨given, first⟩, ?_⟩
    cases given with
    | none => exact ih ran
    | some y =>
      obtain ⟨ys', rest, -⟩ := Outcome.bind_eq_ok.mp ran
      exact ih rest

end Pull

end NovaRuntime.Library
