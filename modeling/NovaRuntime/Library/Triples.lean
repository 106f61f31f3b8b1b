/-
# NovaRuntime.Library.Triples — what a call ensures from a state

`Ends mayHang x s Q` says of the call `x` from the state `s` that a success is in `Q`, and that the
call returns unless it may hang. With `True` for `mayHang` it is partial correctness, with `False`
the call comes back. `Moves mayHang M good x` says it of all states of an invariant at once, with a
relation between the state before and the state after (`Motion`).

`Below x y` compares two calls: `y` returns wherever `x` does, and the same. A sequence is taken apart
by `Ends.bind` and `Moves.bind`, and a specification is fitted to its use by `Ends.mono` and
`Moves.mono`.
-/
import NovaRuntime.Library.Outcome

namespace NovaRuntime.Library

set_option autoImplicit false

namespace Exec

variable {ε σ α β : Type}

/-! ## From one state -/

/-- A success ends in `Q`; a call that never returns is one that may. -/
structure Ends (mayHang : Prop) (x : Exec ε σ α) (s : σ) (Q : α → σ → Prop) : Prop where
  returns : (x s).1 = .hang → mayHang
  post : ∀ a s', x s = (.ok a, s') → Q a s'

section Ends

variable {mayHang : Prop} {s : σ} {Q Q' : α → σ → Prop}
variable {x : Exec ε σ α}

theorem ends_pure {a : α} (held : Q a s) : Ends mayHang (pure a : Exec ε σ α) s Q where
  returns := nofun
  post := by
    intro a' s' step
    cases step
    exact held

theorem Ends.mono (ends : Ends mayHang x s Q) (weaker : ∀ a s', Q a s' → Q' a s') :
    Ends mayHang x s Q' :=
  ⟨ends.returns, fun a s' step => weaker a s' (ends.post a s' step)⟩

/-- A sequence does what its second part does from where the first one ends. -/
theorem Ends.bind {f : α → Exec ε σ β} {R : β → σ → Prop}
    (first : Ends mayHang x s Q) (next : ∀ a s', Q a s' → Ends mayHang (f a) s' R) :
    Ends mayHang (x >>= f) s R := by
  obtain ⟨returns, post⟩ := first
  constructor
  · rw [bind_apply]
    rcases ran : x s with ⟨a | _ | _ | _, s'⟩
    · exact (next a s' (post a s' ran)).returns
    · nofun
    · nofun
    · exact fun _ => returns (by rw [ran])
  · intro b s'' step
    obtain ⟨a, s', ran, rest⟩ := bind_eq_ok.mp step
    exact (next a s' (post a s' ran)).post b s'' rest

/-- A sequence whose first part is known to succeed. -/
theorem Ends.of_step {f : α → Exec ε σ β} {R : β → σ → Prop} {a : α} {s' : σ}
    (step : x s = (.ok a, s')) (next : Ends mayHang (f a) s' R) : Ends mayHang (x >>= f) s R := by
  have same := bind_of_ok step f
  exact ⟨same ▸ next.returns, fun b s'' ran => next.post b s'' (same.symm.trans ran)⟩

/-- What comes behind a call that hangs is never reached. -/
theorem bind_of_hang {s : σ} (hangs : (x s).1 = .hang) (f : α → Exec ε σ β) :
    ((x >>= f) s).1 = .hang := by
  rw [bind_apply]
  rcases ran : x s with ⟨_ | _ | _ | _, s'⟩ <;> rw [ran] at hangs <;> first | rfl | cases hangs

/-- A call that reads and changes nothing but its outcome. -/
theorem ends_lift {o : Outcome ε α} (returns : o = .hang → mayHang) (held : ∀ a, o = .ok a → Q a s) :
    Ends mayHang (lift o : Exec ε σ α) s Q where
  returns := returns
  post := by
    intro a s' step
    cases step
    exact held a rfl

end Ends

/-! ## From every state -/

/-- An invariant, and how a state may change under it. -/
structure Motion (σ : Type) where
  inv : σ → Prop
  rel : σ → σ → Prop
  refl : ∀ s, rel s s
  trans : ∀ {s t u}, rel s t → rel t u → rel s u
  keeps : ∀ {s t}, inv s → rel s t → inv t

/-- Under the invariant, a success has a good value and a state the motion allows. -/
def Moves (mayHang : Prop) (M : Motion σ) (good : α → Prop) (x : Exec ε σ α) : Prop :=
  ∀ s, M.inv s → Ends mayHang x s fun a s' => M.rel s s' ∧ good a

section Moves

variable {mayHang : Prop} {M : Motion σ} {good good' : α → Prop}
variable {x : Exec ε σ α}

theorem Moves.mono (moves : Moves mayHang M good x) (weaker : ∀ a, good a → good' a) :
    Moves mayHang M good' x :=
  fun s inv => (moves s inv).mono fun a _ held => ⟨held.1, weaker a held.2⟩

theorem moves_pure {a : α} (held : good a) : Moves mayHang M good (pure a : Exec ε σ α) :=
  fun s _ => ends_pure ⟨M.refl s, held⟩

theorem moves_lift {o : Outcome ε α} (returns : o = .hang → mayHang) (held : ∀ a, o = .ok a → good a) :
    Moves mayHang M good (lift o : Exec ε σ α) :=
  fun s _ => ends_lift returns fun a ended => ⟨M.refl s, held a ended⟩

theorem Moves.bind {f : α → Exec ε σ β} {fine : β → Prop} (first : Moves mayHang M good x)
    (next : ∀ a, good a → Moves mayHang M fine (f a)) : Moves mayHang M fine (x >>= f) :=
  fun s inv => (first s inv).bind fun a s' held =>
    (next a held.2 s' (M.keeps inv held.1)).mono fun _ _ later => ⟨M.trans held.1 later.1, later.2⟩

/-- Where the value of the first does not matter. -/
theorem Moves.follow {f : α → Exec ε σ β} {fine : β → Prop}
    (first : Moves mayHang M (fun _ => True) x) (next : ∀ a, Moves mayHang M fine (f a)) :
    Moves mayHang M fine (x >>= f) :=
  first.bind fun a _ => next a

theorem Moves.map {f : α → β} {fine : β → Prop} (moves : Moves mayHang M good x)
    (next : ∀ a, good a → fine (f a)) : Moves mayHang M fine (f <$> x) :=
  moves.bind fun a held => moves_pure (next a held)

end Moves

/-! ## Calls that return where others hang -/

/-- Wherever `x` returns, `y` does the same. -/
def Below (x y : Exec ε σ α) : Prop := ∀ s, (x s).1 ≠ .hang → y s = x s

theorem Below.refl (x : Exec ε σ α) : Below x x := fun _ _ => rfl

theorem Below.trans {x y z : Exec ε σ α} (first : Below x y) (second : Below y z) : Below x z := by
  intro s returns
  have same := first s returns
  rw [second s (same ▸ returns), same]

/-- What hangs everywhere is below everything. -/
theorem below_hang (y : Exec ε σ α) : Below (lift .hang) y := fun _ returns => absurd rfl returns

theorem Below.bind {x y : Exec ε σ α} {f g : α → Exec ε σ β} (first : Below x y)
    (next : ∀ a, Below (f a) (g a)) : Below (x >>= f) (y >>= g) := by
  intro s returns
  rw [bind_apply] at returns
  rw [bind_apply, bind_apply]
  rcases ran : x s with ⟨a | e | _ | _, s'⟩
  · have same : y s = (.ok a, s') := by rw [first s (by rw [ran]; nofun), ran]
    rw [ran] at returns
    rw [same]
    exact next a s' returns
  · rw [first s (by rw [ran]; nofun), ran]
  · rw [first s (by rw [ran]; nofun), ran]
  · rw [ran] at returns
    exact absurd rfl returns

theorem Below.ite {c : Prop} [Decidable c] {x y x' y' : Exec ε σ α} (holds : Below x x')
    (fails : Below y y') : Below (if c then x else y) (if c then x' else y') := by
  split
  · exact holds
  · exact fails

end Exec

end NovaRuntime.Library
