/-
# NovaRuntime.Library.Span — integers between two bounds

A span is what is known of a number before it is computed. Each operation on spans
holds what the operation on their members gives; a product and a quotient are kept
within the reach of their operands, on both sides of zero.
-/
import Mathlib.Algebra.Order.Ring.Abs
import Mathlib.Algebra.Order.Ring.Int
import Mathlib.Tactic.Linarith

namespace NovaRuntime.Library

set_option autoImplicit false

structure Span where
  least : Int
  greatest : Int
  deriving DecidableEq

namespace Span

instance : Membership Int Span := ⟨fun s x => s.least ≤ x ∧ x ≤ s.greatest⟩

instance (x : Int) (s : Span) : Decidable (x ∈ s) := inferInstanceAs (Decidable (_ ∧ _))

def point (x : Int) : Span := ⟨x, x⟩

def add (s t : Span) : Span := ⟨s.least + t.least, s.greatest + t.greatest⟩

def sub (s t : Span) : Span := ⟨s.least - t.greatest, s.greatest - t.least⟩

def neg (s : Span) : Span := ⟨-s.greatest, -s.least⟩

/-- The numbers no further from zero than `m`. -/
def around (m : Int) : Span := ⟨-m, m⟩

/-- How far from zero a member can be. -/
def reach (s : Span) : Int := max |s.least| |s.greatest|

def mul (s t : Span) : Span := around (s.reach * t.reach)

def hull (s t : Span) : Span := ⟨min s.least t.least, max s.greatest t.greatest⟩

variable {x y : Int} {s t : Span}

theorem mem_point (x : Int) : x ∈ point x := ⟨le_refl x, le_refl x⟩

theorem add_mem (left : x ∈ s) (right : y ∈ t) : x + y ∈ s.add t :=
  ⟨Int.add_le_add left.1 right.1, Int.add_le_add left.2 right.2⟩

theorem sub_mem (left : x ∈ s) (right : y ∈ t) : x - y ∈ s.sub t :=
  ⟨Int.sub_le_sub left.1 right.2, Int.sub_le_sub left.2 right.1⟩

theorem neg_mem (member : x ∈ s) : -x ∈ s.neg :=
  ⟨Int.neg_le_neg member.2, Int.neg_le_neg member.1⟩

theorem mem_around {m : Int} : x ∈ around m ↔ |x| ≤ m := abs_le.symm

theorem abs_le_reach (member : x ∈ s) : |x| ≤ s.reach := by
  obtain ⟨low, high⟩ := member
  exact abs_le_max_abs_abs low high

theorem mul_mem (left : x ∈ s) (right : y ∈ t) : x * y ∈ s.mul t := by
  refine mem_around.mpr ?_
  rw [abs_mul]
  exact mul_le_mul (abs_le_reach left) (abs_le_reach right) (abs_nonneg y)
    (le_trans (abs_nonneg x) (abs_le_reach left))

/-- A quotient is no further from zero than what was divided. -/
theorem tdiv_mem (y : Int) (member : x ∈ s) : x.tdiv y ∈ around s.reach := by
  have shrinks : |x.tdiv y| ≤ |x| := by
    rw [Int.abs_eq_natAbs, Int.abs_eq_natAbs, Int.natAbs_tdiv]
    exact_mod_cast Nat.div_le_self x.natAbs y.natAbs
  exact mem_around.mpr (le_trans shrinks (abs_le_reach member))

theorem tmod_mem (y : Int) (member : x ∈ s) : x.tmod y ∈ around s.reach := by
  have shrinks : |x.tmod y| ≤ |x| := by
    rw [Int.abs_eq_natAbs, Int.abs_eq_natAbs, Int.natAbs_tmod]
    exact_mod_cast Nat.mod_le x.natAbs y.natAbs
  exact mem_around.mpr (le_trans shrinks (abs_le_reach member))

theorem mem_hull_left (member : x ∈ s) : x ∈ s.hull t :=
  ⟨le_trans (min_le_left ..) member.1, le_trans member.2 (le_max_left ..)⟩

theorem mem_hull_right (member : x ∈ t) : x ∈ s.hull t :=
  ⟨le_trans (min_le_right ..) member.1, le_trans member.2 (le_max_right ..)⟩

/-- Every span of a list is inside their hull. -/
theorem mem_foldl_hull {spans : List Span} (start : Span) (member : x ∈ start ∨ ∃ s ∈ spans, x ∈ s) :
    x ∈ spans.foldl hull start := by
  induction spans generalizing start with
  | nil =>
    rcases member with inStart | ⟨s, none, _⟩
    · exact inStart
    · cases none
  | cons first rest ih =>
    refine ih (start.hull first) ?_
    rcases member with inStart | ⟨s, inSpans, inS⟩
    · exact .inl (mem_hull_left inStart)
    · rcases List.mem_cons.mp inSpans with rfl | later
      · exact .inl (mem_hull_right inS)
      · exact .inr ⟨s, later, inS⟩

/-- The least span around all of a list. -/
def hullAll : List Span → Span
  | [] => point 0
  | s :: rest => rest.foldl hull s

theorem mem_hullAll {spans : List Span} (inSpans : s ∈ spans) (member : x ∈ s) :
    x ∈ hullAll spans := by
  cases spans with
  | nil => cases inSpans
  | cons first rest =>
    refine mem_foldl_hull first ?_
    rcases List.mem_cons.mp inSpans with rfl | later
    · exact .inl member
    · exact .inr ⟨s, later, member⟩

/-- The sums of numbers each of which may be left out. -/
def sums (start : Span) (spans : List Span) : Span :=
  spans.foldl (fun total s => total.add (s.hull (point 0))) start

theorem mem_hull_zero (s : Span) : 0 ∈ s.hull (point 0) := mem_hull_right (mem_point 0)

/-- Leaving all of them out is one of the sums. -/
theorem mem_sums_of_mem (spans : List Span) {start : Span} (member : x ∈ start) :
    x ∈ sums start spans := by
  induction spans generalizing start with
  | nil => exact member
  | cons s rest ih =>
    refine ih ?_
    have added := add_mem member (mem_hull_zero s)
    rwa [Int.add_zero] at added

end Span

end NovaRuntime.Library
