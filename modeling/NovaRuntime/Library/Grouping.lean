/-
# NovaRuntime.Library.Grouping — groups by first match

`place` puts an item into the first group whose key is the same as its own, or into a new group behind the
others; `grouped` places the items of a list one after the other. If sameness is symmetric and transitive,
the groups are the classes of the list (`Classes`). It need not be reflexive: an item whose key is not even
the same as itself is a group of its own.
-/
import Mathlib.Data.List.Induction
import Mathlib.Data.List.Perm.Basic

namespace NovaRuntime.Library

set_option autoImplicit false

variable {κ α : Type}

/-! ## Placing -/

def place (same : κ → κ → Bool) (key : κ) (x : α) : List (κ × List α) → List (κ × List α)
  | [] => [(key, [x])]
  | group :: groups =>
    if same group.1 key then (group.1, group.2 ++ [x]) :: groups else group :: place same key x groups

def grouped (same : κ → κ → Bool) (key : α → κ) (xs : List α) : List (κ × List α) :=
  xs.foldl (fun groups x => place same (key x) x groups) []

variable {same : κ → κ → Bool} {key : α → κ}

/-! ## Groups in the making -/

/-- A group has the key of its first item, and the later ones have the same. -/
def Keyed (same : κ → κ → Bool) (key : α → κ) (group : κ × List α) : Prop :=
  ∃ first rest, group.2 = first :: rest ∧ group.1 = key first ∧ ∀ x ∈ rest, same group.1 (key x) = true

structure Groups (same : κ → κ → Bool) (key : α → κ) (xs : List α) (groups : List (κ × List α)) : Prop where
  all : (groups.flatMap Prod.snd).Perm xs
  keyed : ∀ group ∈ groups, Keyed same key group
  passed : groups.Pairwise fun group later => ∀ x ∈ later.2, same group.1 (key x) = false

theorem Keyed.append {k : κ} {items : List α} (group : Keyed same key (k, items)) {x : α}
    (isSame : same k (key x) = true) : Keyed same key (k, items ++ [x]) := by
  obtain ⟨first, rest, split, own, alike⟩ := group
  refine ⟨first, rest ++ [x], ?_, own, ?_⟩
  · show items ++ [x] = _
    rw [show items = first :: rest from split, List.cons_append]
  · intro y among
    rcases List.mem_append.mp among with earlier | last
    · exact alike y earlier
    · obtain rfl := List.mem_singleton.mp last
      exact isSame

/-- The groups behind a placed item: those before, where the item joins one or is one of its own. -/
theorem mem_place {x : α} {groups : List (κ × List α)} {group : κ × List α}
    (among : group ∈ place same (key x) x groups) :
    group ∈ groups ∨ (∃ items, (group.1, items) ∈ groups ∧ group.2 = items ++ [x] ∧
      same group.1 (key x) = true) ∨ group = (key x, [x]) := by
  induction groups with
  | nil => exact .inr (.inr (List.mem_singleton.mp among))
  | cons other groups ih =>
    rw [place] at among
    split at among
    next joins =>
      rcases List.mem_cons.mp among with rfl | later
      · exact .inr (.inl ⟨other.2, (.head _), rfl, joins⟩)
      · exact .inl (.tail _ later)
    next =>
      rcases List.mem_cons.mp among with rfl | later
      · exact .inl List.mem_cons_self
      · rcases ih later with known | ⟨items, known, joined⟩ | new
        · exact .inl (.tail _ known)
        · exact .inr (.inl ⟨items, .tail _ known, joined⟩)
        · exact .inr (.inr new)

/-- No item is lost and none is added. -/
theorem items_place (k : κ) (x : α) (groups : List (κ × List α)) :
    ((place same k x groups).flatMap Prod.snd).Perm (groups.flatMap Prod.snd ++ [x]) := by
  induction groups with
  | nil => exact .refl _
  | cons group groups ih =>
    rw [place]
    split
    · rw [List.flatMap_cons, List.flatMap_cons, List.append_assoc, List.append_assoc]
      exact List.Perm.append_left _ List.perm_append_comm
    · rw [List.flatMap_cons, List.flatMap_cons, List.append_assoc]
      exact List.Perm.append_left _ ih

/-- Items of a group before the place of an item do not have its key. -/
theorem passed_place {x : α} {groups : List (κ × List α)}
    (passed : groups.Pairwise fun group later => ∀ x ∈ later.2, same group.1 (key x) = false) :
    (place same (key x) x groups).Pairwise fun group later => ∀ x ∈ later.2, same group.1 (key x) = false := by
  induction groups with
  | nil => exact List.pairwise_singleton _ _
  | cons group groups ih =>
    obtain ⟨first, rest⟩ := List.pairwise_cons.mp passed
    rw [place]
    split
    · exact List.pairwise_cons.mpr ⟨first, rest⟩
    next differs =>
      refine List.pairwise_cons.mpr ⟨?_, ih rest⟩
      intro later among y inside
      rcases mem_place among with known | ⟨items, known, joined, -⟩ | rfl
      · exact first later known y inside
      · rw [joined] at inside
        rcases List.mem_append.mp inside with earlier | last
        · exact first _ known y earlier
        · obtain rfl := List.mem_singleton.mp last
          exact Bool.eq_false_iff.mpr differs
      · obtain rfl := List.mem_singleton.mp inside
        exact Bool.eq_false_iff.mpr differs

theorem Groups.place {xs : List α} {groups : List (κ × List α)} (made : Groups same key xs groups) (x : α) :
    Groups same key (xs ++ [x]) (NovaRuntime.Library.place same (key x) x groups) where
  all := (items_place (key x) x groups).trans (made.all.append_right [x])
  keyed := by
    intro group among
    rcases mem_place among with known | ⟨items, known, joined, isSame⟩ | rfl
    · exact made.keyed group known
    · obtain ⟨k, given⟩ := group
      obtain rfl : given = items ++ [x] := joined
      exact (made.keyed _ known).append isSame
    · exact ⟨x, [], rfl, rfl, by simp⟩
  passed := passed_place made.passed

theorem grouped_concat (xs : List α) (x : α) :
    grouped same key (xs ++ [x]) = place same (key x) x (grouped same key xs) := by
  rw [grouped, List.foldl_append]
  rfl

theorem groups_grouped (xs : List α) : Groups same key xs (grouped same key xs) := by
  induction xs using List.reverseRecOn with
  | nil => exact ⟨.refl _, by simp [grouped], List.Pairwise.nil⟩
  | append_singleton xs x ih =>
    rw [grouped_concat]
    exact ih.place x

theorem length_place_le (k : κ) (x : α) (groups : List (κ × List α)) :
    (place same k x groups).length ≤ groups.length + 1 := by
  induction groups with
  | nil => exact Nat.le_refl _
  | cons group groups ih =>
    rw [place]
    split
    · exact Nat.le_succ _
    · exact Nat.succ_le_succ ih

theorem length_grouped_le (xs : List α) : (grouped same key xs).length ≤ xs.length := by
  induction xs using List.reverseRecOn with
  | nil => exact Nat.le_refl _
  | append_singleton xs x ih =>
    rw [grouped_concat, List.length_append]
    exact Nat.le_trans (length_place_le (key x) x _) (Nat.succ_le_succ ih)

/-! ## Classes -/

/-- Every item is in one list; the items of a list have the same key, those of two lists have not. -/
structure Classes (same : κ → κ → Bool) (key : α → κ) (xs : List α) (classes : List (List α)) : Prop where
  all : classes.flatten.Perm xs
  inhabited : ∀ items ∈ classes, items ≠ []
  alike : ∀ items ∈ classes, items.Pairwise fun x y => same (key x) (key y) = true
  apart : classes.Pairwise fun items later => ∀ x ∈ items, ∀ y ∈ later, same (key x) (key y) = false

theorem classes_grouped (symmetric : ∀ a b, same a b = true → same b a = true)
    (transitive : ∀ a b c, same a b = true → same b c = true → same a c = true) (xs : List α) :
    Classes same key xs ((grouped same key xs).map Prod.snd) := by
  have made : Groups same key xs (grouped same key xs) := groups_grouped xs
  refine ⟨?_, ?_, ?_, ?_⟩
  · rw [← List.flatMap_def]
    exact made.all
  · rintro items among rfl
    obtain ⟨group, inside, empty⟩ := List.mem_map.mp among
    obtain ⟨first, rest, split, -⟩ := made.keyed group inside
    rw [split] at empty
    cases empty
  · intro items among
    obtain ⟨group, inside, rfl⟩ := List.mem_map.mp among
    obtain ⟨first, rest, split, own, alike⟩ := made.keyed group inside
    rw [split, List.pairwise_cons]
    refine ⟨fun y later => own ▸ alike y later, List.pairwise_of_forall_mem_list ?_⟩
    intro x here y there
    exact transitive _ _ _ (symmetric _ _ (alike x here)) (alike y there)
  · rw [List.pairwise_map]
    apply made.passed.imp_of_mem
    intro group later inside _ passed x here y there
    obtain ⟨first, rest, split, own, alike⟩ := made.keyed group inside
    have differs := passed y there
    rw [split] at here
    rcases List.mem_cons.mp here with rfl | other
    · rw [← own]
      exact differs
    · by_contra isSame
      rw [Bool.not_eq_false] at isSame
      rw [transitive _ _ _ (alike x other) isSame] at differs
      cases differs

end NovaRuntime.Library
