/-
# NovaRuntime.Library.Wildcards — patterns of characters and wildcards

A pattern is a list of pieces: a character, any one character, or any sequence of characters.
`Matches` says which texts it is a pattern of, and `matchesPieces` decides it.
-/
import Mathlib.Data.List.Infix

namespace NovaRuntime.Library

set_option autoImplicit false

variable {α : Type}

inductive Piece (α : Type) where
  | exactly (a : α)
  | one
  | many
  deriving DecidableEq

/-- **The texts a pattern matches**, from their first character to their last. -/
inductive Matches : List (Piece α) → List α → Prop where
  | nil : Matches [] []
  | exactly {ps : List (Piece α)} {s : List α} (a : α) (rest : Matches ps s) :
      Matches (.exactly a :: ps) (a :: s)
  | one {ps : List (Piece α)} {s : List α} (a : α) (rest : Matches ps s) : Matches (.one :: ps) (a :: s)
  | many {ps : List (Piece α)} {s : List α} (skipped : List α) (rest : Matches ps s) :
      Matches (.many :: ps) (skipped ++ s)

def matchesPieces [DecidableEq α] : List (Piece α) → List α → Bool
  | [], s => s.isEmpty
  | .exactly a :: ps, b :: s => decide (a = b) && matchesPieces ps s
  | .one :: ps, _ :: s => matchesPieces ps s
  | .exactly _ :: _, [] | .one :: _, [] => false
  | .many :: ps, s => s.tails.any fun rest => matchesPieces ps rest

theorem matchesPieces_iff [DecidableEq α] {ps : List (Piece α)} {s : List α} :
    matchesPieces ps s = true ↔ Matches ps s := by
  constructor
  · intro decided
    induction ps generalizing s with
    | nil =>
      rw [matchesPieces, List.isEmpty_iff] at decided
      exact decided ▸ .nil
    | cons piece ps ih =>
      cases piece with
      | exactly a =>
        cases s with
        | nil => cases decided
        | cons b s =>
          rw [matchesPieces, Bool.and_eq_true, decide_eq_true_eq] at decided
          exact decided.1 ▸ .exactly a (ih decided.2)
      | one =>
        cases s with
        | nil => cases decided
        | cons b s => exact .one b (ih decided)
      | many =>
        rw [matchesPieces, List.any_eq_true] at decided
        obtain ⟨rest, tail, decided⟩ := decided
        obtain ⟨skipped, rfl⟩ := (List.mem_tails _ _).mp tail
        exact .many skipped (ih decided)
  · intro matched
    induction matched with
    | nil => rfl
    | exactly a _ ih => simp [matchesPieces, ih]
    | one a _ ih => exact ih
    | many skipped _ ih =>
      rw [matchesPieces, List.any_eq_true]
      exact ⟨_, (List.mem_tails _ _).mpr (List.suffix_append ..), ih⟩

instance [DecidableEq α] (ps : List (Piece α)) (s : List α) : Decidable (Matches ps s) :=
  decidable_of_iff _ matchesPieces_iff

end NovaRuntime.Library
