/-
# NovaRuntime.Library.Buckets — a ring of buckets

Items with a number are kept in a ring of `n` buckets: bucket `i` has those whose number is `i` modulo `n`, in
their order (`buckets`). Putting an item behind the others changes the one bucket it belongs to
(`buckets_concat`), filtering the items filters every bucket (`buckets_filter`), and emptying a bucket takes its
items away (`buckets_set_nil`). As long as all numbers lie within one turn of the ring, a bucket has the items
of a single number (`mod_eq_mod_iff_of_turn`).
-/
import Mathlib.Data.List.Induction
import Mathlib.Data.Nat.ModEq

namespace NovaRuntime.Library

set_option autoImplicit false

variable {α : Type} {n : Nat} {number : α → Nat}

def buckets (n : Nat) (number : α → Nat) (xs : List α) : List (List α) :=
  (List.range n).map fun i => xs.filter fun x => number x % n = i

@[simp] theorem length_buckets (xs : List α) : (buckets n number xs).length = n := by
  rw [buckets, List.length_map, List.length_range]

theorem getElem?_buckets {i : Nat} (inside : i < n) (xs : List α) :
    (buckets n number xs)[i]? = some (xs.filter fun x => number x % n = i) := by
  rw [buckets, List.getElem?_map, List.getElem?_range inside]
  rfl

theorem getElem_buckets {i : Nat} (xs : List α) (inside : i < (buckets n number xs).length) :
    (buckets n number xs)[i] = xs.filter fun x => number x % n = i := by
  simp only [buckets, List.getElem_map, List.getElem_range]

@[simp] theorem buckets_nil : buckets n number [] = List.replicate n [] := by
  apply List.ext_getElem
  · simp
  · intro i inside _
    rw [getElem_buckets, List.getElem_replicate, List.filter_nil]

theorem buckets_concat (xs : List α) (x : α) :
    buckets n number (xs ++ [x]) = (buckets n number xs).modify (number x % n) (· ++ [x]) := by
  apply List.ext_getElem
  · simp
  · intro i inside _
    rw [getElem_buckets, List.getElem_modify, getElem_buckets, List.filter_append]
    split
    next here => rw [List.filter_cons_of_pos (by simpa using here), List.filter_nil]
    next other => rw [List.filter_cons_of_neg (by simpa using other), List.filter_nil, List.append_nil]

theorem buckets_filter (keep : α → Bool) (xs : List α) :
    buckets n number (xs.filter keep) = (buckets n number xs).map (List.filter keep) := by
  apply List.ext_getElem
  · simp
  · intro i inside _
    rw [getElem_buckets, List.getElem_map, getElem_buckets, List.filter_filter, List.filter_filter]
    simp only [Bool.and_comm]

theorem buckets_set_nil (i : Nat) (xs : List α) :
    (buckets n number xs).set i [] = buckets n number (xs.filter fun x => number x % n ≠ i) := by
  apply List.ext_getElem
  · simp
  · intro j inside _
    rw [List.getElem_set, getElem_buckets, getElem_buckets, List.filter_filter]
    split
    next here =>
      subst here
      refine (List.filter_eq_nil_iff.mpr fun x _ => ?_).symm
      simp
    next other =>
      refine List.filter_congr fun x _ => ?_
      by_cases at_j : number x % n = j
      · simp [at_j, Ne.symm other]
      · simp [at_j]

/-- What is kept of the items: the bucket of a new one gets what is kept of it. -/
theorem map_buckets_concat {β : Type} (f : α → β) (xs : List α) (x : α) :
    (buckets n number (xs ++ [x])).map (List.map f) =
      ((buckets n number xs).map (List.map f)).modify (number x % n) (· ++ [f x]) := by
  rw [buckets_concat]
  apply List.ext_getElem
  · simp
  · intro i inside _
    simp only [List.getElem_map, List.getElem_modify]
    split
    · rw [List.map_append, List.map_singleton]
    · rfl

/-- Of the numbers of one turn, only one leads to a bucket. -/
theorem mod_eq_mod_iff_of_turn {start number : Nat} (after : start ≤ number) (within : number < start + n) :
    number % n = start % n ↔ number = start := by
  constructor
  · intro same
    obtain ⟨k, rfl⟩ := Nat.exists_eq_add_of_le after
    have whole : k ≡ 0 [MOD n] := Nat.ModEq.add_left_cancel' start same
    have none : k % n = 0 := by simpa [Nat.ModEq] using whole
    rw [Nat.mod_eq_of_lt (by omega)] at none
    rw [none, Nat.add_zero]
  · rintro rfl
    rfl

end NovaRuntime.Library
