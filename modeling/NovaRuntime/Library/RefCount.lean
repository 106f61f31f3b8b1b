/-
# NovaRuntime.Library.RefCount — things that are kept as long as they are referred to

A pool keeps things by their keys, and counts the references to them. `refs` are the
references there are, `count` is what the pool has counted, `present` says what is in the
pool, `writing` has the keys of things that somebody is about to put in, and `dying` the
keys of things that somebody is about to take out. In a sound pool no reference is left
uncounted, everything that is referred to is there or on its way, and nothing dies that is
counted. A key that dies may not be referred to again before it is taken out, and one that
is counted already may only be referred to again if the thing is there or on its way: these
are the two premises of `Sound.retain`.
-/
import Mathlib.Data.List.Count

namespace NovaRuntime.Library.RefCount

set_option autoImplicit false

variable {K : Type} [DecidableEq K]

structure Sound (count : K → Nat) (refs : List K) (present : K → Prop) (writing dying : List K) : Prop where
  counted : ∀ k, refs.count k ≤ count k
  held : ∀ k ∈ refs, present k ∨ k ∈ writing
  dead : ∀ k ∈ dying, count k = 0

/-- Every reference is counted, and nothing else is. -/
def Exact (count : K → Nat) (refs : List K) : Prop := ∀ k, count k = refs.count k

/-- No reference is left uncounted. -/
def Covers (count : K → Nat) (refs : List K) : Prop := ∀ k ∈ refs, refs.count k ≤ count k

instance (count : K → Nat) (refs : List K) : Decidable (Covers count refs) :=
  inferInstanceAs (Decidable (∀ k ∈ refs, refs.count k ≤ count k))

section Sound

variable {count count' : K → Nat} {refs refs' : List K} {present present' : K → Prop}
  {writing writing' dying dying' : List K} {key : K}

/-- What dies is not referred to. -/
theorem Sound.not_mem_of_dying (sound : Sound count refs present writing dying) (dies : key ∈ dying) :
    key ∉ refs := by
  have none := sound.counted key
  rw [sound.dead key dies, Nat.le_zero] at none
  exact List.count_eq_zero.mp none

/-- References that are covered, of things that are all there, and nothing dies. -/
theorem Covers.sound (covers : Covers count refs) (there : ∀ k ∈ refs, present k) :
    Sound count refs present [] [] where
  counted k := by
    by_cases member : k ∈ refs
    · exact covers k member
    · rw [List.count_eq_zero_of_not_mem member]
      exact Nat.zero_le _
  held k member := .inl (there k member)
  dead k absent := nomatch absent

section

variable (sound : Sound count refs present writing dying)

include sound

/-- The order of references does not matter, and there may be fewer of them. -/
theorem Sound.weaken (fewer : refs'.Subperm refs)
    (same : ∀ k ∈ writing, k ∈ refs' → present k ∨ k ∈ writing') (less : ∀ k ∈ dying', k ∈ dying) :
    Sound count refs' present writing' dying' where
  counted k := Nat.le_trans (fewer.count_le k) (sound.counted k)
  held k member := (sound.held k (fewer.subset member)).elim .inl fun later => same k later member
  dead k member := sound.dead k (less k member)

section

variable (more : ∀ k, count' k = if k = key then count k + 1 else count k) (refers : refs'.Perm (key :: refs))

include more refers

/-- One more reference to a thing that is there or on its way. -/
theorem Sound.retain (alive : key ∉ dying) (there : present key ∨ key ∈ writing) :
    Sound count' refs' present writing dying where
  counted k := by
    have before := sound.counted k
    rw [more, refers.count_eq, List.count_cons]
    by_cases here : k = key
    · subst here
      simpa using before
    · rw [if_neg here, if_neg (by simpa using Ne.symm here)]
      exact before
  held k member := by
    rcases List.mem_cons.mp (refers.mem_iff.mp member) with rfl | before
    · exact there
    · exact sound.held k before
  dead k member := by
    have other : k ≠ key := fun same => alive (same ▸ member)
    rw [more, if_neg other]
    exact sound.dead k member

/-- The first reference to a thing that somebody is about to put in. -/
theorem Sound.acquire (writes : ∀ k, k ∈ writing' ↔ k = key ∨ k ∈ writing) (alive : key ∉ dying) :
    Sound count' refs' present writing' dying := by
  have wider : Sound count refs present writing' dying :=
    sound.weaken (List.Subperm.refl refs) (fun k later _ => .inr ((writes k).mpr (.inr later)))
      fun _ => id
  exact wider.retain more refers alive (.inr ((writes key).mpr (.inl rfl)))

end

theorem Sound.written
    (puts : present' key) (stay : ∀ k, present k → present' k) (writes : ∀ k ∈ writing, k = key ∨ k ∈ writing') :
    Sound count refs present' writing' dying where
  counted := sound.counted
  held k member := by
    rcases sound.held k member with there | later
    · exact .inl (stay k there)
    · rcases writes k later with rfl | still
      · exact .inl puts
      · exact .inr still
  dead := sound.dead

/-- A reference ends; the last one may make the thing die. -/
theorem Sound.release
    (less : ∀ k, count' k = if k = key then count k - 1 else count k) (referred : refs.Perm (key :: refs'))
    (dies : ∀ k ∈ dying', k ∈ dying ∨ k = key ∧ count' key = 0) :
    Sound count' refs' present writing dying' where
  counted k := by
    have before := sound.counted k
    rw [referred.count_eq, List.count_cons] at before
    rw [less]
    by_cases here : k = key
    · subst here
      rw [if_pos rfl]
      rw [beq_self_eq_true, if_pos rfl] at before
      omega
    · rw [if_neg here]
      exact Nat.le_trans (Nat.le_add_right _ _) before
  held k member := sound.held k (referred.mem_iff.mpr (.tail _ member))
  dead k member := by
    rcases dies k member with before | ⟨rfl, zero⟩
    · have still := sound.dead k before
      rw [less]
      split <;> omega
    · exact zero

/-- A thing that nobody refers to is taken out. -/
theorem Sound.remove (stay : ∀ k, k ≠ key → present k → present' k) (dies : key ∈ dying)
    (less : ∀ k ∈ dying', k ∈ dying) : Sound count refs present' writing dying' where
  counted := sound.counted
  held k member := by
    have other : k ≠ key := fun same => sound.not_mem_of_dying dies (same ▸ member)
    exact (sound.held k member).imp_left (stay k other)
  dead k member := sound.dead k (less k member)

/-- A thing that nobody refers to is not counted any more. -/
theorem Sound.forget (zero : ∀ k, count' k = if k = key then 0 else count k) (dies : key ∈ dying)
    (less : ∀ k ∈ dying', k ∈ dying) : Sound count' refs present writing dying' where
  counted k := by
    have before := sound.counted k
    have none := sound.dead key dies
    rw [zero]
    split
    next here =>
      subst here
      omega
    next => exact before
  held := sound.held
  dead k member := by
    rw [zero, sound.dead k (less k member), ite_self]

/-- Things without a counted reference die. -/
theorem Sound.collect (dies : ∀ k ∈ dying', k ∈ dying ∨ count k = 0) : Sound count refs present writing dying' where
  counted := sound.counted
  held := sound.held
  dead k member := (dies k member).elim (sound.dead k) id

end

end Sound

section Exact

variable {count count' : K → Nat} {refs refs' : List K} {key : K}

section

variable (exact : Exact count refs)

include exact

/-- What is counted is referred to. -/
theorem Exact.mem (positive : 0 < count key) : key ∈ refs := by
  rw [exact key] at positive
  exact List.count_pos_iff.mp positive

theorem Exact.perm (same : refs'.Perm refs) : Exact count refs' := fun k => by
  rw [exact k, same.count_eq]

theorem Exact.retain
    (more : ∀ k, count' k = if k = key then count k + 1 else count k) (refers : refs'.Perm (key :: refs)) :
    Exact count' refs' := fun k => by
  rw [more, refers.count_eq, List.count_cons, exact k]
  by_cases here : k = key
  · subst here
    simp
  · rw [if_neg here, if_neg (by simpa using Ne.symm here)]
    rfl

theorem Exact.release
    (less : ∀ k, count' k = if k = key then count k - 1 else count k) (referred : refs.Perm (key :: refs')) :
    Exact count' refs' := fun k => by
  have before := exact k
  rw [referred.count_eq, List.count_cons] at before
  rw [less]
  by_cases here : k = key
  · subst here
    rw [if_pos rfl, before, beq_self_eq_true, if_pos rfl, Nat.add_sub_cancel]
  · rw [if_neg here, before, if_neg (by simpa using Ne.symm here)]
    rfl

theorem Exact.forget (zero : ∀ k, count' k = if k = key then 0 else count k)
    (none : count key = 0) : Exact count' refs := fun k => by
  rw [zero]
  split
  next here =>
    subst here
    rw [← exact k, none]
  next => exact exact k

end

end Exact

end NovaRuntime.Library.RefCount
