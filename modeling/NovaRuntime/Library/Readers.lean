/-
# NovaRuntime.Library.Readers — what a reader takes, allocates, and how deep it calls

A reader is a call on the tokens that are left. `Parses R` is its meaning: where it gives a
value it has taken a prefix that `R` relates to the value. It is kept by sequencing and by
reading a number of times.

A metered reader also writes down each length that it allocates, with the number of tokens
left at that moment, and the most calls that were open at once. `Within` bounds all three, and
says that the reader ends in a value or an error; `Tracks` says that without its meter it is
the plain reader.
-/
import NovaRuntime.Library.Outcome

namespace NovaRuntime.Library

set_option autoImplicit false

/-- The call ended in a value or an error. -/
def Outcome.Answers {ε α : Type} : Outcome ε α → Prop
  | .ok _ => True
  | .err _ => True
  | _ => False

theorem Outcome.answers_iff {ε α : Type} {o : Outcome ε α} :
    o.Answers ↔ (∃ a, o = .ok a) ∨ ∃ e, o = .err e := by
  cases o <;> simp [Outcome.Answers]

theorem Outcome.answers_ite {ε α : Type} {p : Prop} [Decidable p] {x y : Outcome ε α} (left : x.Answers)
    (right : y.Answers) : (if p then x else y).Answers := by
  by_cases held : p
  · rwa [if_pos held]
  · rwa [if_neg held]

namespace Exec

variable {ε σ τ α β : Type}
variable {x : Exec ε (List τ) α}

/-- The same call a number of times. -/
def times (x : Exec ε σ α) : Nat → Exec ε σ (List α)
  | 0 => pure []
  | n + 1 => do
      let first ← x
      let rest ← times x n
      pure (first :: rest)

/-! ## Readers -/

/-- What a reader takes for a value is related to the value. -/
def Parses (R : List τ → α → Prop) (x : Exec ε (List τ) α) : Prop :=
  ∀ input a rest, x input = (.ok a, rest) → ∃ used, input = used ++ rest ∧ R used a

theorem Parses.bind {R : List τ → α → Prop} {S : α → List τ → β → Prop}
    {f : α → Exec ε (List τ) β} (first : Parses R x) (next : ∀ a, Parses (S a) (f a)) :
    Parses (fun used b => ∃ a before after, used = before ++ after ∧ R before a ∧ S a after b)
      (x >>= f) := by
  intro input b rest ran
  obtain ⟨a, middle, ranFirst, ranNext⟩ := bind_eq_ok.mp ran
  obtain ⟨before, rfl, related⟩ := first input a middle ranFirst
  obtain ⟨after, rfl, relatedNext⟩ := next a middle b rest ranNext
  exact ⟨before ++ after, (List.append_assoc ..).symm, a, before, after, rfl, related, relatedNext⟩

theorem Parses.mono {R S : List τ → α → Prop} (parses : Parses R x)
    (weaker : ∀ used a, R used a → S used a) : Parses S x := by
  intro input a rest ran
  obtain ⟨used, split, related⟩ := parses input a rest ran
  exact ⟨used, split, weaker used a related⟩

/-- **Reading a number of times** takes the items one after the other. -/
theorem Parses.times {R : List τ → α → Prop} (parses : Parses R x) (n : Nat) :
    Parses (fun used items => items.length = n ∧
      ∃ parts : List (List τ), used = parts.flatten ∧ List.Forall₂ R parts items) (times x n) := by
  induction n with
  | zero =>
    intro input items rest ran
    obtain ⟨rfl, rfl⟩ : [] = items ∧ input = rest := by simpa [Exec.times] using ran
    exact ⟨[], rfl, rfl, [], rfl, .nil⟩
  | succ n ih =>
    intro input items rest ran
    obtain ⟨first, middle, ranFirst, ran⟩ := bind_eq_ok.mp ran
    obtain ⟨later, rest', ranLater, ran⟩ := bind_eq_ok.mp ran
    obtain ⟨rfl, rfl⟩ : first :: later = items ∧ rest' = rest := by simpa using ran
    obtain ⟨part, rfl, related⟩ := parses input first middle ranFirst
    obtain ⟨used, rfl, size, parts, rfl, each⟩ := ih middle later rest' ranLater
    refine ⟨part ++ parts.flatten, (List.append_assoc ..).symm, ?_, part :: parts, rfl, .cons related each⟩
    rw [List.length_cons, size]

/-- The reader ends in a value or an error, whatever is left. -/
def Answering (x : Exec ε (List τ) α) : Prop := ∀ input, (x input).1.Answers

theorem answering_pure (a : α) : Answering (pure a : Exec ε (List τ) α) := fun _ => trivial

theorem Answering.bind {f : α → Exec ε (List τ) β} (first : Answering x)
    (next : ∀ a, Answering (f a)) : Answering (x >>= f) := by
  intro input
  have answers := first input
  rw [bind_apply]
  revert answers
  rcases x input with ⟨a | e | _ | _, rest⟩
  · exact fun _ => next a rest
  all_goals exact fun answers => answers

end Exec

/-! ## Meters -/

/-- A length that is allocated, and the number of tokens left then. -/
structure Allocation where
  len : Nat
  left : Nat
  deriving DecidableEq

/-- The tokens that are left, the calls that are open, the most there were, and what was
allocated. -/
structure Meter (τ : Type) where
  left : List τ
  calls : Nat
  deepest : Nat
  allocated : List Allocation
  deriving DecidableEq

abbrev Metered (ε τ α : Type) := Exec ε (Meter τ) α

namespace Metered

variable {ε τ α β : Type}

/-- Room for `len` items, before any of them is read. -/
def allocate (len : Nat) : Metered ε τ Unit :=
  Exec.modify fun m => { m with allocated := m.allocated ++ [⟨len, m.left.length⟩] }

/-- A plain reader. -/
def onLeft (x : Exec ε (List τ) α) : Metered ε τ α :=
  Exec.zoom Meter.left (fun left m => { m with left := left }) x

/-- A call that is counted while it is open. -/
def call (x : Metered ε τ α) : Metered ε τ α := fun m =>
  let ran := x { m with calls := m.calls + 1, deepest := max m.deepest (m.calls + 1) }
  (ran.1, { ran.2 with calls := m.calls })

/-- Nothing read, nothing allocated, no call open. -/
def start (input : List τ) : Meter τ := ⟨input, 0, 0, []⟩

/-! ### Without the meter -/

/-- The metered reader is the plain one and a meter. -/
def Tracks (x : Metered ε τ α) (y : Exec ε (List τ) α) : Prop :=
  ∀ m, (x m).1 = (y m.left).1 ∧ (x m).2.left = (y m.left).2

theorem tracks_onLeft (y : Exec ε (List τ) α) : Tracks (onLeft y) y := fun _ => ⟨rfl, rfl⟩

theorem tracks_pure (a : α) : Tracks (pure a : Metered ε τ α) (pure a) := fun _ => ⟨rfl, rfl⟩

theorem tracks_lift (o : Outcome ε α) : Tracks (Exec.lift o : Metered ε τ α) (Exec.lift o) :=
  fun _ => ⟨rfl, rfl⟩

theorem Tracks.bind {x : Metered ε τ α} {y : Exec ε (List τ) α} {f : α → Metered ε τ β}
    {g : α → Exec ε (List τ) β} (first : Tracks x y) (next : ∀ a, Tracks (f a) (g a)) :
    Tracks (x >>= f) (y >>= g) := by
  intro m
  obtain ⟨ended, left⟩ := first m
  rw [Exec.bind_apply, Exec.bind_apply]
  revert ended left
  rcases x m with ⟨o, m'⟩
  rcases y m.left with ⟨o', rest⟩
  rintro rfl rfl
  cases o with
  | ok a => exact next a m'
  | err _ | panic | hang => exact ⟨rfl, rfl⟩

theorem Tracks.allocate {x : Metered ε τ α} {y : Exec ε (List τ) α} (tracks : Tracks x y) (len : Nat) :
    Tracks (allocate len >>= fun _ => x) y := by
  intro m
  exact tracks { m with allocated := m.allocated ++ [⟨len, m.left.length⟩] }

theorem Tracks.call {x : Metered ε τ α} {y : Exec ε (List τ) α} (tracks : Tracks x y) :
    Tracks (call x) y := by
  intro m
  exact tracks { m with calls := m.calls + 1, deepest := max m.deepest (m.calls + 1) }

theorem Tracks.times {x : Metered ε τ α} {y : Exec ε (List τ) α} (tracks : Tracks x y) (n : Nat) :
    Tracks (Exec.times x n) (Exec.times y n) := by
  induction n with
  | zero => exact tracks_pure []
  | succ n ih => exact tracks.bind fun _ => ih.bind fun _ => tracks_pure _

/-! ### Bounds -/

/-- What a reader did between two meters: it left the open calls as they were and opened at
most one for each token there was, and one more; each length that it allocated is below the
bound, and where it gave a value, at most the number of tokens left. -/
structure Spends (bound k : Nat) (ok : Prop) (m m' : Meter τ) : Prop where
  calls : m'.calls = m.calls
  deepest : m'.deepest ≤ max m.deepest (m.calls + m.left.length + 1)
  costs : ok → m'.left.length + k ≤ m.left.length
  grows : ∃ fresh, m'.allocated = m.allocated ++ fresh ∧
    ∀ a ∈ fresh, a.len < bound ∧ (ok → a.len ≤ a.left)

/-- With fewer than `n` tokens left the reader answers within the bounds, and a value costs at
least `k` tokens. -/
def Within (n bound k : Nat) (x : Metered ε τ α) : Prop :=
  ∀ m, m.left.length < n → (x m).1.Answers ∧ Spends bound k (∃ a, (x m).1 = .ok a) m (x m).2

variable {n bound k l : Nat}
variable {x : Metered ε τ α}

theorem within_onLeft {R : List τ → α → Prop} {y : Exec ε (List τ) α} (answers : Exec.Answering y)
    (parses : Exec.Parses R y) (long : ∀ used a, R used a → k ≤ used.length) :
    Within n bound k (onLeft y) := by
  intro m _
  refine ⟨answers m.left, rfl, le_max_left .., ?_, [], (List.append_nil _).symm, by simp⟩
  rintro ⟨a, ended⟩
  obtain ⟨used, split, related⟩ := parses m.left a _ (Exec.eq_ok_of_fst ended)
  have size := congrArg List.length split
  have enough := long used a related
  rw [List.length_append] at size
  show (y m.left).2.length + k ≤ m.left.length
  omega

theorem within_lift {o : Outcome ε α} (answers : o.Answers) : Within n bound 0 (Exec.lift o : Metered ε τ α) :=
  fun _ _ => ⟨answers, rfl, le_max_left .., fun _ => le_rfl, [], (List.append_nil _).symm, by simp⟩

theorem within_pure (a : α) : Within n bound 0 (pure a : Metered ε τ α) := @within_lift ε τ α n bound (.ok a) trivial

/-- One after the other, when the second only runs where the first gave a value. -/
theorem Spends.trans {ok done : Prop} {m m' m'' : Meter τ} (first : Spends bound k ok m m')
    (next : Spends bound l done m' m'') (gave : ok) : Spends bound (k + l) done m m'' := by
  obtain ⟨fresh, grown, small⟩ := first.grows
  obtain ⟨later, grownNext, smallNext⟩ := next.grows
  have cost := first.costs gave
  have deep := first.deepest
  have deepNext := next.deepest
  rw [first.calls] at deepNext
  exact
    { calls := next.calls.trans first.calls
      deepest := by omega
      costs := fun finished => by
        have := next.costs finished
        omega
      grows := by
        refine ⟨fresh ++ later, by rw [grownNext, grown, List.append_assoc], fun a member => ?_⟩
        rcases List.mem_append.mp member with early | late
        · exact ⟨(small a early).1, fun _ => (small a early).2 gave⟩
        · exact smallNext a late }

/-- The second part is only needed for values that the first can give. -/
theorem Within.bind_of {P : α → Prop} {f : α → Metered ε τ β} (first : Within n bound k x)
    (gives : ∀ m a, (x m).1 = .ok a → P a) (next : ∀ a, P a → Within n bound l (f a)) :
    Within n bound (k + l) (x >>= f) := by
  intro m few
  obtain ⟨answers, spends⟩ := first m few
  have given := gives m
  rw [Exec.bind_apply]
  revert answers spends given
  rcases x m with ⟨a | e | _ | _, m'⟩
  · intro _ spends given
    have cost := spends.costs ⟨a, rfl⟩
    simp only at cost
    obtain ⟨answersNext, spendsNext⟩ := next a (given a rfl) m' (by omega)
    exact ⟨answersNext, spends.trans spendsNext ⟨a, rfl⟩⟩
  · intro _ spends _
    simp only [reduceCtorEq, exists_false] at spends ⊢
    exact ⟨trivial, { spends with costs := False.elim }⟩
  all_goals exact fun never _ _ => never.elim

theorem Within.bind {f : α → Metered ε τ β} (first : Within n bound k x)
    (next : ∀ a, Within n bound l (f a)) : Within n bound (k + l) (x >>= f) :=
  first.bind_of (fun _ _ _ => trivial) fun a _ => next a

theorem Within.mono (within : Within n bound k x) (fewer : l ≤ k) :
    Within n bound l x := by
  intro m few
  obtain ⟨answers, spends⟩ := within m few
  exact ⟨answers, { spends with costs := fun gave => Nat.le_trans (Nat.add_le_add_left fewer _) (spends.costs gave) }⟩

/-- **A length that is paid for**: a value takes at least that many tokens. -/
theorem Within.allocate (within : Within n bound k x) {len : Nat} (small : len < bound)
    (paid : len ≤ k) : Within n bound k (allocate len >>= fun _ => x) := by
  intro m few
  obtain ⟨answers, spends⟩ := within { m with allocated := m.allocated ++ [⟨len, m.left.length⟩] } few
  obtain ⟨fresh, grown, smallFresh⟩ := spends.grows
  refine ⟨answers, spends.calls, spends.deepest, spends.costs, ⟨len, m.left.length⟩ :: fresh, ?_, ?_⟩
  · exact grown.trans (List.append_assoc ..)
  · intro a member
    rcases List.mem_cons.mp member with rfl | later
    · refine ⟨small, fun gave => ?_⟩
      have cost := spends.costs gave
      simp only at cost ⊢
      omega
    · exact smallFresh a later

/-- **A call that takes a token first**: one token fewer makes up for one call more. -/
theorem Within.call {R : List τ → α → Prop} {y : Exec ε (List τ) α} {f : α → Metered ε τ β}
    (answers : Exec.Answering y) (parses : Exec.Parses R y) (takes : ∀ used a, R used a → 1 ≤ used.length)
    (next : ∀ a, Within n bound k (f a)) : Within (n + 1) bound (1 + k) (call (onLeft y >>= f)) := by
  intro m few
  let opened : Meter τ := { m with calls := m.calls + 1, deepest := max m.deepest (m.calls + 1) }
  have closed {o : Outcome ε β} {m' : Meter τ} (ran : (onLeft y >>= f) opened = (o, m')) :
      Metered.call (onLeft y >>= f) m = (o, { m' with calls := m.calls }) := by
    show (((onLeft y >>= f) opened).1, { ((onLeft y >>= f) opened).2 with calls := m.calls }) = _
    rw [ran]
  have taken : onLeft y opened = ((y m.left).1, { opened with left := (y m.left).2 }) := rfl
  rcases given : y m.left with ⟨a | e | _ | _, rest⟩
  · obtain ⟨used, split, related⟩ := parses m.left a rest given
    have size := congrArg List.length split
    have one := takes used a related
    rw [List.length_append] at size
    rw [given] at taken
    obtain ⟨answersNext, spends⟩ := next a { opened with left := rest } (show rest.length < n by omega)
    have deep := spends.deepest
    have cost := spends.costs
    rw [closed (Exec.bind_of_ok taken f)]
    simp only [opened] at deep cost ⊢
    refine ⟨answersNext, rfl, by simp only; omega, fun gave => ?_, spends.grows⟩
    have := cost gave
    simp only
    omega
  · have failed : (onLeft y >>= f) opened = (.err e, { opened with left := rest }) := by
      rw [Exec.bind_apply, taken, given]
    rw [closed failed]
    refine ⟨trivial, rfl, ?_, (fun ⟨_, ended⟩ => nomatch ended), [], (List.append_nil _).symm, by simp⟩
    simp only [opened]
    omega
  all_goals
    have never := answers m.left
    rw [given] at never
    exact never.elim

theorem Within.times (within : Within n bound 1 x) (count : Nat) :
    Within n bound count (Exec.times x count) := by
  induction count with
  | zero => exact within_pure []
  | succ count ih => exact (within.bind fun _ => ih.bind fun _ => within_pure _).mono (by omega)

end Metered

end NovaRuntime.Library
