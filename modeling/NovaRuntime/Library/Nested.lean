/-
# NovaRuntime.Library.Nested — maps in maps, read and written along paths

A `Nesting` is a kind of map some of whose values are maps again: it reads and changes a
key, and tells the values that are maps. A path is a list of keys, each but the last leading
into a map. Reading, writing and removing along a path agree as they do for a single key:
what was written is read (`read_write`), what was removed is gone (`read_remove`), there is
something to remove exactly where there is something to read (`remove_isSome`), and paths
of which neither begins the other do not see each other (`read_write_apart`,
`read_remove_apart`).
-/
import Mathlib.Data.List.Infix

namespace NovaRuntime.Library

set_option autoImplicit false

structure Nesting (K V M : Type) [DecidableEq K] where
  get : K → M → Option V
  insert : K → V → M → M
  erase : K → M → M
  /-- The map that a value is. -/
  view : V → Option M
  build : M → V
  get_insert : ∀ k k' v m, get k' (insert k v m) = if k' = k then some v else get k' m
  get_erase : ∀ k k' m, get k' (erase k m) = if k' = k then none else get k' m
  view_build : ∀ m, view (build m) = some m

namespace Nesting

/-- Neither path begins the other. -/
def Apart {K : Type} (p q : List K) : Prop := ¬ p <+: q ∧ ¬ q <+: p

theorem apart_cons {K : Type} {k : K} {p q : List K} : Apart (k :: p) (k :: q) ↔ Apart p q := by
  simp only [Apart, List.prefix_cons_inj]

variable {K V M : Type} [DecidableEq K] (N : Nesting K V M)

def read : List K → M → Option V
  | [], _ => none
  | [key], map => N.get key map
  | key :: next :: rest, map => ((N.get key map).bind N.view).bind (read (next :: rest))

/-- Why nothing was written: there is no path, or a key on the way leads to nothing, or to a
value that is not a map. -/
inductive Blocked (K : Type) where
  | noPath
  | missing (key : K)
  | solid (key : K)
  deriving DecidableEq

def write (value : V) : List K → M → Except (Blocked K) M
  | [], _ => .error .noPath
  | [key], map => .ok (N.insert key value map)
  | key :: next :: rest, map =>
    match N.get key map with
    | none => .error (.missing key)
    | some found =>
      match N.view found with
      | none => .error (.solid key)
      | some inner =>
        (write value (next :: rest) inner).map fun inner => N.insert key (N.build inner) map

def remove : List K → M → Option M
  | [], _ => none
  | [key], map => if (N.get key map).isSome then some (N.erase key map) else none
  | key :: next :: rest, map =>
    ((N.get key map).bind N.view).bind fun inner =>
      (remove (next :: rest) inner).map fun inner => N.insert key (N.build inner) map

variable {N} {value : V} {map map' : M} {p q : List K}

/-! ## One key -/

theorem get_insert_self (key : K) (value : V) (map : M) : N.get key (N.insert key value map) = some value := by
  rw [N.get_insert, if_pos rfl]

theorem get_insert_ne {key other : K} (ne : other ≠ key) (value : V) (map : M) :
    N.get other (N.insert key value map) = N.get other map := by
  rw [N.get_insert, if_neg ne]

/-- A path is read through its first key. -/
theorem read_congr {key : K} (same : N.get key map' = N.get key map) (rest : List K) :
    N.read (key :: rest) map' = N.read (key :: rest) map := by
  cases rest with
  | nil => exact same
  | cons next rest => rw [read, read, same]

/-- A map that was put under a key is read from there on. -/
theorem read_insert_build (key next : K) (rest : List K) (inner map : M) :
    N.read (key :: next :: rest) (N.insert key (N.build inner) map) = N.read (next :: rest) inner := by
  rw [read, get_insert_self, Option.bind_some, N.view_build, Option.bind_some]

/-! ## Along a path -/

/-- A write through a key writes the map behind it. -/
theorem write_cons_eq_ok {key next : K} {rest : List K} :
    N.write value (key :: next :: rest) map = .ok map' ↔
      ∃ inner inner', (N.get key map).bind N.view = some inner ∧
        N.write value (next :: rest) inner = .ok inner' ∧ map' = N.insert key (N.build inner') map := by
  rw [write]
  rcases N.get key map with _ | found
  · simp
  · rcases viewed : N.view found with _ | inner
    · simp [viewed]
    · rcases wrote : N.write value (next :: rest) inner with blocked | inner'
      · simp [viewed, wrote, Except.map]
      · simp [viewed, wrote, Except.map, eq_comm]

theorem remove_cons_eq_some {key next : K} {rest : List K} :
    N.remove (key :: next :: rest) map = some map' ↔
      ∃ inner inner', (N.get key map).bind N.view = some inner ∧
        N.remove (next :: rest) inner = some inner' ∧ map' = N.insert key (N.build inner') map := by
  rw [remove, Option.bind_eq_some_iff]
  simp only [Option.map_eq_some_iff]
  constructor
  · rintro ⟨inner, viewed, inner', removed, rfl⟩
    exact ⟨inner, inner', viewed, removed, rfl⟩
  · rintro ⟨inner, inner', viewed, removed, rfl⟩
    exact ⟨inner, viewed, inner', removed, rfl⟩

theorem read_write (wrote : N.write value p map = .ok map') : N.read p map' = some value := by
  induction p generalizing map map' with
  | nil => cases wrote
  | cons key rest ih =>
    cases rest with
    | nil =>
      cases wrote
      exact get_insert_self key value map
    | cons next rest =>
      obtain ⟨inner, inner', _, below, rfl⟩ := write_cons_eq_ok.mp wrote
      rw [read_insert_build]
      exact ih below

/-- What is replaced behind a key is seen only through that key. -/
theorem read_insert_apart {key next : K} {rest : List K} {inner inner' : M}
    (apart : Apart (key :: next :: rest) q) (viewed : (N.get key map).bind N.view = some inner)
    (same : ∀ q, Apart (next :: rest) q → N.read q inner' = N.read q inner) :
    N.read q (N.insert key (N.build inner') map) = N.read q map := by
  rcases q with _ | ⟨other, later⟩
  · exact absurd List.nil_prefix apart.2
  by_cases here : other = key
  · subst here
    rcases later with _ | ⟨next', later⟩
    · exact absurd (List.prefix_append [other] _) apart.2
    · rw [read_insert_build, same _ (apart_cons.mp apart), read, viewed, Option.bind_some]
  · exact read_congr (get_insert_ne here _ _) later

/-- What is replaced under a last key is not seen from apart. -/
theorem read_last_apart {key : K} (apart : Apart [key] q)
    (same : ∀ other, other ≠ key → N.get other map' = N.get other map) :
    N.read q map' = N.read q map := by
  rcases q with _ | ⟨other, later⟩
  · exact absurd List.nil_prefix apart.2
  · refine read_congr (same other ?_) later
    rintro rfl
    exact apart.1 (List.prefix_append [other] later)

/-- **A write is not seen from apart.** -/
theorem read_write_apart (wrote : N.write value p map = .ok map') (apart : Apart p q) :
    N.read q map' = N.read q map := by
  induction p generalizing q map map' with
  | nil => cases wrote
  | cons key rest ih =>
    cases rest with
    | nil =>
      cases wrote
      exact read_last_apart apart fun other ne => get_insert_ne ne value map
    | cons next rest =>
      obtain ⟨inner, inner', viewed, below, rfl⟩ := write_cons_eq_ok.mp wrote
      exact read_insert_apart apart viewed fun _ apart => ih below apart

/-- **There is something to remove where there is something to read.** -/
theorem remove_isSome : (N.remove p map).isSome = (N.read p map).isSome := by
  induction p generalizing map with
  | nil => rfl
  | cons key rest ih =>
    cases rest with
    | nil =>
      rw [remove, read]
      cases N.get key map <;> rfl
    | cons next rest =>
      rw [remove, read]
      rcases (N.get key map).bind N.view with _ | inner
      · rfl
      · rw [Option.bind_some, Option.bind_some, Option.isSome_map]
        exact ih

/-- **What was removed is gone.** -/
theorem read_remove (removed : N.remove p map = some map') : N.read p map' = none := by
  induction p generalizing map map' with
  | nil => cases removed
  | cons key rest ih =>
    cases rest with
    | nil =>
      rw [remove] at removed
      split at removed
      · cases removed
        rw [read, N.get_erase, if_pos rfl]
      · cases removed
    | cons next rest =>
      obtain ⟨inner, inner', _, below, rfl⟩ := remove_cons_eq_some.mp removed
      rw [read_insert_build]
      exact ih below

/-- **A removal is not seen from apart.** -/
theorem read_remove_apart (removed : N.remove p map = some map') (apart : Apart p q) :
    N.read q map' = N.read q map := by
  induction p generalizing q map map' with
  | nil => cases removed
  | cons key rest ih =>
    cases rest with
    | nil =>
      rw [remove] at removed
      split at removed
      · cases removed
        exact read_last_apart apart fun other ne => by rw [N.get_erase, if_neg ne]
      · cases removed
    | cons next rest =>
      obtain ⟨inner, inner', viewed, below, rfl⟩ := remove_cons_eq_some.mp removed
      exact read_insert_apart apart viewed fun _ apart => ih below apart

end Nesting

end NovaRuntime.Library
