/-
# NovaRuntime.Library.Assignments — assignments in turn, and at once

Assignments to the entries of a list, each with a target and a value that depends on the list. Made in
turn, each is evaluated on what the earlier ones left (`inTurn`); made at once, all are evaluated on
the list as it was (`AtOnce`), and their order says nothing.

With distinct targets the two agree exactly where no value changes when the earlier entries do
(`inTurn_iff_steady`).
-/
import Mathlib.Data.List.Basic

namespace NovaRuntime.Library

set_option autoImplicit false

section

variable {α β : Type} (target : α → Option Nat) (value : List β → α → Option β)

def inTurn (current : List β) : List α → Option (List β)
  | [] => some current
  | a :: rest =>
    (target a).bind fun i => (value current a).bind fun v => inTurn (current.set i v) rest

/-- The values are those on `s`, put into another list. -/
structure Placed (s current : List β) (as : List α) (after : List β) : Prop where
  length : after.length = current.length
  assigned : ∀ a ∈ as, ∃ i v, target a = some i ∧ value s a = some v ∧ after[i]? = some v
  others : ∀ i, (∀ a ∈ as, target a ≠ some i) → after[i]? = current[i]?

def AtOnce (s : List β) (as : List α) (after : List β) : Prop := Placed target value s s as after

/-- No value differs from the one on `s` once the earlier ones are in place. -/
def Steady (s : List β) : List β → List α → Prop
  | _, [] => True
  | current, a :: rest =>
    value current a = value s a ∧
      ∀ i v, target a = some i → value s a = some v → Steady s (current.set i v) rest

variable {target : α → Option Nat} {value : List β → α → Option β} {s current after : List β} {as : List α}

/-! ## At once -/

/-- The first assignment, made on the list. -/
theorem Placed.tail {a : α} {rest : List α} {i : Nat} {v : β} (placed : Placed target value s current (a :: rest) after)
    (here : target a = some i) (given : value s a = some v) :
    Placed target value s (current.set i v) rest after := by
  refine ⟨?_, fun b among => placed.assigned b (.tail _ among), fun j free => ?_⟩
  · rw [placed.length, List.length_set]
  · obtain ⟨k, w, here', given', filled⟩ := placed.assigned a List.mem_cons_self
    rw [here, Option.some.injEq] at here'
    rw [given, Option.some.injEq] at given'
    subst here' given'
    by_cases same : i = j
    · subst same
      have inside : i < current.length := placed.length ▸ (List.getElem?_eq_some_iff.mp filled).1
      rw [filled, List.getElem?_set_self inside]
    · rw [List.getElem?_set_ne same]
      apply placed.others j
      intro b among atTarget
      rcases List.mem_cons.mp among with rfl | among
      · rw [here, Option.some.injEq] at atTarget
        exact same atTarget
      · exact free b among atTarget

/-- And back, where no later one has its target. -/
theorem Placed.cons {a : α} {rest : List α} {i : Nat} {v : β} (here : target a = some i)
    (given : value s a = some v) (inside : i < current.length) (free : ∀ b ∈ rest, target b ≠ some i)
    (placed : Placed target value s (current.set i v) rest after) :
    Placed target value s current (a :: rest) after := by
  refine ⟨?_, ?_, fun j none => ?_⟩
  · rw [placed.length, List.length_set]
  · intro b among
    rcases List.mem_cons.mp among with rfl | among
    · refine ⟨i, v, here, given, ?_⟩
      rw [placed.others i free, List.getElem?_set_self inside]
    · exact placed.assigned b among
  · obtain ⟨other, rest⟩ := List.forall_mem_cons.mp none
    rw [placed.others j rest, List.getElem?_set_ne]
    rintro rfl
    exact other here

/-! ## In turn -/

/-- What no assignment has as its target stays. -/
theorem inTurn_frame (ran : inTurn target value current as = some after) :
    after.length = current.length ∧ ∀ i, (∀ a ∈ as, target a ≠ some i) → after[i]? = current[i]? := by
  induction as generalizing current with
  | nil =>
    rw [inTurn, Option.some.injEq] at ran
    subst ran
    exact ⟨rfl, fun i _ => rfl⟩
  | cons a rest ih =>
    rw [inTurn, Option.bind_eq_some_iff] at ran
    obtain ⟨i, here, ran⟩ := ran
    obtain ⟨v, given, ran⟩ := Option.bind_eq_some_iff.mp ran
    obtain ⟨length, stays⟩ := ih ran
    refine ⟨by rw [length, List.length_set], fun j free => ?_⟩
    obtain ⟨other, free⟩ := List.forall_mem_cons.mp free
    rw [stays j free, List.getElem?_set_ne]
    rintro rfl
    exact other here

/-- No two assignments have one target. -/
def Apart (target : α → Option Nat) (as : List α) : Prop :=
  as.Pairwise fun a b => ∀ i, target a = some i → target b ≠ some i

theorem targets_apart {a : α} {rest : List α} {i : Nat} (distinct : Apart target (a :: rest))
    (here : target a = some i) : Apart target rest ∧ ∀ b ∈ rest, target b ≠ some i := by
  obtain ⟨first, others⟩ := List.pairwise_cons.mp distinct
  exact ⟨others, fun b among => first b among i here⟩

/-- Values that exist can be put in place. -/
theorem exists_placed (distinct : Apart target as)
    (inside : ∀ a ∈ as, ∀ i, target a = some i → i < current.length)
    (defined : ∀ a ∈ as, ∃ i v, target a = some i ∧ value s a = some v) :
    ∃ after, Placed target value s current as after := by
  induction as generalizing current with
  | nil => exact ⟨current, rfl, by simp, fun i _ => rfl⟩
  | cons a rest ih =>
    obtain ⟨i, v, here, given⟩ := defined a List.mem_cons_self
    obtain ⟨distinct, apart⟩ := targets_apart distinct here
    have insideRest : ∀ b ∈ rest, ∀ j, target b = some j → j < (current.set i v).length := by
      intro b among j there
      rw [List.length_set]
      exact inside b (.tail _ among) j there
    obtain ⟨after, placed⟩ := ih distinct insideRest fun b among => defined b (.tail _ among)
    exact ⟨after, placed.cons here given (inside a (.head _) i here) apart⟩

/-- **In turn is at once** exactly where the values are steady. -/
theorem inTurn_iff_steady (distinct : Apart target as)
    (placed : Placed target value s current as after) :
    inTurn target value current as = some after ↔ Steady target value s current as := by
  induction as generalizing current with
  | nil =>
    have same : after = current := List.ext_getElem? fun i => placed.others i (by simp)
    simp [inTurn, Steady, same]
  | cons a rest ih =>
    obtain ⟨i, v, here, given, filled⟩ := placed.assigned a List.mem_cons_self
    obtain ⟨distinct, apart⟩ := targets_apart distinct here
    have inside : i < current.length := placed.length ▸ (List.getElem?_eq_some_iff.mp filled).1
    have rest := ih distinct (placed.tail here given)
    rw [inTurn, here, Option.bind_some, Option.bind_eq_some_iff, Steady]
    constructor
    · rintro ⟨w, read, ran⟩
      -- nothing later writes the entry, so what is there at the end was assigned here
      have kept := (inTurn_frame ran).2 i apart
      rw [filled, List.getElem?_set_self inside, Option.some.injEq] at kept
      subst kept
      refine ⟨read.trans given.symm, fun j u there given' => ?_⟩
      rw [here, Option.some.injEq] at there
      rw [given, Option.some.injEq] at given'
      subst there given'
      exact rest.mp ran
    · rintro ⟨same, steady⟩
      exact ⟨v, same.trans given, rest.mpr (steady i v here given)⟩

/-- Steady values that exist can be assigned in turn, and come out as at once. -/
theorem inTurn_of_steady (distinct : Apart target as)
    (inside : ∀ a ∈ as, ∀ i, target a = some i → i < current.length)
    (defined : ∀ a ∈ as, ∃ i v, target a = some i ∧ value s a = some v)
    (steady : Steady target value s current as) :
    ∃ after, inTurn target value current as = some after ∧ Placed target value s current as after := by
  obtain ⟨after, placed⟩ := exists_placed distinct inside defined
  exact ⟨after, (inTurn_iff_steady distinct placed).mpr steady, placed⟩

theorem set_present {s : List β} {i : Nat} {v : β} (present : s[i]? = some v) : s.set i v = s := by
  obtain ⟨inside, rfl⟩ := List.getElem?_eq_some_iff.mp present
  exact List.set_getElem_self inside

/-- Assignments that change nothing are at once what they are in turn. -/
theorem inTurn_self_iff (distinct : Apart target as)
    (inside : ∀ a ∈ as, ∀ i, target a = some i → i < s.length) :
    inTurn target value s as = some s ↔ AtOnce target value s as s := by
  induction as with
  | nil => exact ⟨fun _ => ⟨rfl, by simp, fun i _ => rfl⟩, fun _ => rfl⟩
  | cons a rest ih =>
    obtain ⟨first, others⟩ := List.forall_mem_cons.mp inside
    rw [inTurn, Option.bind_eq_some_iff]
    constructor
    · rintro ⟨i, here, ran⟩
      obtain ⟨v, given, ran⟩ := Option.bind_eq_some_iff.mp ran
      obtain ⟨distinct, apart⟩ := targets_apart distinct here
      have kept := (inTurn_frame ran).2 i apart
      rw [List.getElem?_set_self (first i here)] at kept
      rw [set_present kept] at ran
      have once := (ih distinct others).mp ran
      refine ⟨rfl, fun b among => ?_, fun j _ => rfl⟩
      rcases List.mem_cons.mp among with rfl | among
      · exact ⟨i, v, here, given, kept⟩
      · exact once.assigned b among
    · intro once
      obtain ⟨i, v, here, given, filled⟩ := once.assigned a List.mem_cons_self
      refine ⟨i, here, ?_⟩
      rw [given, Option.bind_some, set_present filled]
      apply (ih (targets_apart distinct here).1 others).mpr
      exact ⟨rfl, fun b among => once.assigned b (.tail _ among), fun j _ => rfl⟩

end

end NovaRuntime.Library
