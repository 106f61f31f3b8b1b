/-
# NovaRuntime.Library.Outcome — calls that return, fail, panic or never return

`Outcome ε α` is how one call ends: with a value, with an error the caller sees,
with a panic, or not at all (a lock that is never released, a loop that never
ends). `Exec ε σ α` is a call that also reads and changes a state; the state it
leaves behind is there however it ends. `bind_eq_ok` and `Exec.bind_eq_ok` take a
successful sequence apart into its steps. `Exec.Keeps` and `Exec.Returns` are for
sequences taken as a whole: what holds before holds after, and the call ends.
-/
import NovaRuntime.Library.Entries

namespace NovaRuntime.Library

set_option autoImplicit false

/-- What is related to some of a list, item by item, comes from an item. -/
theorem exists_of_mem_right {α β : Type} {R : α → β → Prop} {xs : List α} {ys : List β}
    (each : List.Forall₂ R xs ys) {y : β} (member : y ∈ ys) : ∃ x ∈ xs, R x y := by
  induction each with
  | nil => cases member
  | cons first rest ih =>
    rcases List.mem_cons.mp member with rfl | later
    · exact ⟨_, .head _, first⟩
    · obtain ⟨x, inRest, related⟩ := ih later
      exact ⟨x, .tail _ inRest, related⟩

/-- How a call ends. `hang` is a call that never returns to its caller. -/
inductive Outcome (ε α : Type) where
  | ok (value : α)
  | err (error : ε)
  | panic
  | hang
  deriving DecidableEq

namespace Outcome

variable {ε α β : Type}
variable {xs : List α} {f : α → Outcome ε β}

/-- The call ended in a value, an error or a panic. -/
def Returns : Outcome ε α → Prop
  | .hang => False
  | _ => True

/-- Go on with the value of a success, pass anything else up. -/
def bind (x : Outcome ε α) (f : α → Outcome ε β) : Outcome ε β :=
  match x with
  | .ok a => f a
  | .err e => .err e
  | .panic => .panic
  | .hang => .hang

/-- What a success is turned into, or a default. -/
def elim (x : Outcome ε α) (ok : α → β) (other : β) : β :=
  match x with
  | .ok a => ok a
  | _ => other

instance : Monad (Outcome ε) where
  pure := .ok
  bind := Outcome.bind

@[simp] theorem pure_eq (a : α) : (pure a : Outcome ε α) = .ok a := rfl
@[simp] theorem ok_bind (a : α) (f : α → Outcome ε β) :
    ((.ok a : Outcome ε α) >>= f) = f a := rfl
@[simp] theorem err_bind (e : ε) (f : α → Outcome ε β) :
    ((.err e : Outcome ε α) >>= f) = .err e := rfl
@[simp] theorem panic_bind (f : α → Outcome ε β) :
    ((.panic : Outcome ε α) >>= f) = .panic := rfl
@[simp] theorem hang_bind (f : α → Outcome ε β) : ((.hang : Outcome ε α) >>= f) = .hang := rfl

instance : LawfulMonad (Outcome ε) := 
  LawfulMonad.mk' (Outcome ε) (fun x => by cases x <;> rfl) (fun _ _ => rfl)
    (fun x _ _ => by cases x <;> rfl)

/-- A sequence succeeds only through both parts. -/
theorem bind_eq_ok {x : Outcome ε α} {b : β} :
    (x >>= f) = .ok b ↔ ∃ a, x = .ok a ∧ f a = .ok b := by
  cases x <;> simp

/-- **A list that is gone through with success** has a result for each of its items. -/
theorem mapM_eq_ok {ys : List β} (ran : xs.mapM f = .ok ys) :
    List.Forall₂ (fun x y => f x = .ok y) xs ys := by
  induction xs generalizing ys with
  | nil =>
    rw [List.mapM_nil, pure_eq] at ran
    cases ran
    exact .nil
  | cons x xs ih =>
    rw [List.mapM_cons] at ran
    obtain ⟨y, first, ran⟩ := bind_eq_ok.mp ran
    obtain ⟨ys', rest, ran⟩ := bind_eq_ok.mp ran
    cases ran
    exact .cons first (ih rest)

/-- A result comes from an item. -/
theorem exists_of_mem_mapM {ys : List β}
    (ran : xs.mapM f = .ok ys) {y : β} (member : y ∈ ys) : ∃ x ∈ xs, f x = .ok y :=
  exists_of_mem_right (mapM_eq_ok ran) member

theorem mapM_of_forall₂ {ys : List β}
    (each : List.Forall₂ (fun x y => f x = .ok y) xs ys) : xs.mapM f = .ok ys := by
  induction each with
  | nil => rfl
  | cons first _ ih =>
    rw [List.mapM_cons, first, ih]
    rfl

theorem mapM_eq_map {g : α → β} (each : ∀ x ∈ xs, f x = .ok (g x)) :
    xs.mapM f = .ok (xs.map g) := by
  induction xs with
  | nil => rfl
  | cons x xs ih =>
    obtain ⟨first, rest⟩ := List.forall_mem_cons.mp each
    rw [List.mapM_cons, first, ih rest]
    rfl

theorem forM_ok {f : α → Outcome ε Unit} (each : ∀ x ∈ xs, f x = .ok ()) :
    xs.forM f = .ok () := by
  induction xs with
  | nil => rfl
  | cons x xs ih =>
    obtain ⟨first, rest⟩ := List.forall_mem_cons.mp each
    show (f x >>= fun _ => xs.forM f) = .ok ()
    rw [first]
    exact ih rest

theorem Returns.bind {x : Outcome ε α} (first : x.Returns)
    (next : ∀ a, (f a).Returns) : (x >>= f).Returns := by
  cases x with
  | ok a => exact next a
  | err _ => trivial
  | panic => trivial
  | hang => exact first

theorem mapM_returns (each : ∀ x ∈ xs, (f x).Returns) :
    (xs.mapM f).Returns := by
  induction xs with
  | nil => trivial
  | cons x xs ih =>
    obtain ⟨first, rest⟩ := List.forall_mem_cons.mp each
    rw [List.mapM_cons]
    exact first.bind fun _ => (ih rest).bind fun _ => trivial

theorem foldlM_returns {f : β → α → Outcome ε β} (each : ∀ b a, (f b a).Returns) (xs : List α) (start : β) :
    (xs.foldlM f start).Returns := by
  induction xs generalizing start with
  | nil => trivial
  | cons x xs ih =>
    rw [List.foldlM_cons]
    exact (each start x).bind ih

theorem forM_returns {f : α → Outcome ε Unit} (each : ∀ a, (f a).Returns) (xs : List α) :
    (xs.forM f).Returns := by
  induction xs with
  | nil => trivial
  | cons x xs ih => exact (each x).bind fun _ => ih

end Outcome

/-- A call that reads and changes a state of type `σ`. -/
def Exec (ε σ α : Type) := σ → Outcome ε α × σ

namespace Exec

variable {ε σ α β : Type}
variable {x : Exec ε σ α} {a : α} {s s' : σ}

instance : Monad (Exec ε σ) where
  pure a := fun s => (.ok a, s)
  bind x f := fun s =>
    match x s with
    | (.ok a, s') => f a s'
    | (.err e, s') => (.err e, s')
    | (.panic, s') => (.panic, s')
    | (.hang, s') => (.hang, s')

/-- Read the state. -/
def get : Exec ε σ σ := fun s => (.ok s, s)

/-- Change the state. -/
def modify (f : σ → σ) : Exec ε σ Unit := fun s => (.ok (), f s)

/-- A call that does not touch the state. -/
def lift (o : Outcome ε α) : Exec ε σ α := fun s => (o, s)

/-- A call on a part of a larger state. -/
def zoom {τ : Type} (read : τ → σ) (write : σ → τ → τ) (x : Exec ε σ α) : Exec ε τ α :=
  fun t => ((x (read t)).1, write (x (read t)).2 t)

/-- A call whose errors are passed on in another form. -/
def mapErr (f : ε → ε) (x : Exec ε σ α) : Exec ε σ α := fun s =>
  (match (x s).1 with
    | .err e => .err (f e)
    | o => o, (x s).2)

/-- A call whose error is taken as no value. -/
def attempt (x : Exec ε σ α) : Exec ε σ (Option α) := fun s =>
  match x s with
  | (.ok a, s') => (.ok (some a), s')
  | (.err _, s') => (.ok none, s')
  | (.panic, s') => (.panic, s')
  | (.hang, s') => (.hang, s')

@[simp] theorem pure_apply (a : α) (s : σ) : (pure a : Exec ε σ α) s = (.ok a, s) := rfl
@[simp] theorem get_apply (s : σ) : (get : Exec ε σ σ) s = (.ok s, s) := rfl
@[simp] theorem modify_apply (f : σ → σ) (s : σ) :
    (modify f : Exec ε σ Unit) s = (.ok (), f s) := rfl
@[simp] theorem lift_apply (o : Outcome ε α) (s : σ) : (lift o : Exec ε σ α) s = (o, s) := rfl
@[simp] theorem zoom_apply {τ : Type} (read : τ → σ) (write : σ → τ → τ) (x : Exec ε σ α) (t : τ) :
    zoom read write x t = ((x (read t)).1, write (x (read t)).2 t) := rfl
theorem mapErr_of_ok {f : ε → ε} (step : x s = (.ok a, s')) :
    mapErr f x s = (.ok a, s') := by
  rw [mapErr, step]

theorem bind_apply (x : Exec ε σ α) (f : α → Exec ε σ β) (s : σ) :
    (x >>= f) s = match x s with
      | (.ok a, s') => f a s'
      | (.err e, s') => (.err e, s')
      | (.panic, s') => (.panic, s')
      | (.hang, s') => (.hang, s') := rfl

@[simp] theorem get_bind (f : σ → Exec ε σ β) (s : σ) : (get >>= f) s = f s s := rfl
@[simp] theorem modify_bind (g : σ → σ) (f : Unit → Exec ε σ β) (s : σ) :
    (modify g >>= f) s = f () (g s) := rfl
/-- A step that succeeds hands its value and its state on. -/
theorem bind_of_ok (step : x s = (.ok a, s'))
    (f : α → Exec ε σ β) : (x >>= f) s = f a s' := by
  rw [bind_apply, step]

theorem attempt_of_ok (step : x s = (.ok a, s')) :
    attempt x s = (.ok (some a), s') := by
  rw [attempt, step]

theorem attempt_of_err {e : ε} (step : x s = (.err e, s')) :
    attempt x s = (.ok none, s') := by
  rw [attempt, step]

theorem eq_ok_of_fst (ended : (x s).1 = .ok a) :
    x s = (.ok a, (x s).2) := Prod.ext ended rfl

/-- A sequence succeeds only through both parts. -/
theorem bind_eq_ok {f : α → Exec ε σ β} {s'' : σ} {b : β} :
    (x >>= f) s = (.ok b, s'') ↔ ∃ a s', x s = (.ok a, s') ∧ f a s' = (.ok b, s'') := by
  rw [bind_apply]
  rcases x s with ⟨_ | _ | _ | _, s'⟩ <;> simp

/-- The call does not succeed and leaves the state as it was. -/
def Refuses (x : Exec ε σ α) (s : σ) : Prop := (x s).2 = s ∧ ∀ a, (x s).1 ≠ .ok a

theorem Refuses.bind (refuses : Refuses x s) (f : α → Exec ε σ β) :
    Refuses (x >>= f) s := by
  obtain ⟨still, notOk⟩ := refuses
  rw [Refuses, bind_apply]
  revert still notOk
  rcases x s with ⟨a | e | _ | _, s'⟩
  · exact fun _ notOk => absurd rfl (notOk a)
  all_goals exact fun still _ => ⟨still, by simp⟩

/-- **A sequence that starts with a read**: it ends there, or goes on where it began. -/
theorem bind_of_still (still : (x s).2 = s) (f : α → Exec ε σ β) :
    Refuses (x >>= f) s ∨ ∃ a, x s = (.ok a, s) ∧ (x >>= f) s = f a s := by
  rw [Refuses, bind_apply]
  revert still
  rcases x s with ⟨a | e | _ | _, s'⟩
  · rintro rfl
    exact .inr ⟨a, rfl, rfl⟩
  all_goals exact fun still => .inl ⟨still, by simp⟩

/-! ## Predicates kept, calls that return -/

/-- However the call ends, the predicate holds again. -/
def Keeps (P : σ → Prop) (x : Exec ε σ α) : Prop := ∀ s, P s → P (x s).2

theorem keeps_pure (P : σ → Prop) (a : α) : Keeps P (pure a : Exec ε σ α) := fun _ => id

theorem keeps_lift (P : σ → Prop) (o : Outcome ε α) : Keeps P (lift o : Exec ε σ α) :=
  fun _ => id

theorem Keeps.bind {P : σ → Prop} {f : α → Exec ε σ β} (first : Keeps P x)
    (next : ∀ a, Keeps P (f a)) : Keeps P (x >>= f) := by
  intro s held
  have kept := first s held
  rw [bind_apply]
  revert kept
  rcases x s with ⟨a | _ | _ | _, s'⟩
  · exact next a s'
  all_goals exact fun kept => kept

theorem keeps_get_bind {P : σ → Prop} {f : σ → Exec ε σ β} (next : ∀ s, Keeps P (f s)) :
    Keeps P (get >>= f) := fun s held => next s s held

/-- The call never hangs. -/
def Returns (x : Exec ε σ α) : Prop := ∀ s, (x s).1.Returns

theorem returns_pure (a : α) : Returns (pure a : Exec ε σ α) := fun _ => trivial

theorem returns_get : Returns (get : Exec ε σ σ) := fun _ => trivial

theorem returns_modify (f : σ → σ) : Returns (modify f : Exec ε σ Unit) := fun _ => trivial

theorem returns_lift {o : Outcome ε α} (returns : o.Returns) : Returns (lift o : Exec ε σ α) :=
  fun _ => returns

theorem Returns.bind {f : α → Exec ε σ β} (first : Returns x)
    (next : ∀ a, Returns (f a)) : Returns (x >>= f) := by
  intro s
  have returned := first s
  rw [bind_apply]
  revert returned
  rcases x s with ⟨a | _ | _ | _, s'⟩
  · exact fun _ => next a s'
  · exact fun _ => trivial
  · exact fun _ => trivial
  · exact fun never => never

end Exec

end NovaRuntime.Library
