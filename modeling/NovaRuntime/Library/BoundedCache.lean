/-
# NovaRuntime.Library.BoundedCache — a map that may forget

`BoundedCache` is the interface of a cache of bounded capacity: putting an entry
may evict others, nothing else loses one (`LawfulBoundedCache`). What it holds is
read with `peek`, which leaves the replacement order alone; `get` reads the same
and may change that order.

`RecencyCache` is the least-recently-used instance: a list of entries, most
recently used first, cut off at the capacity.
-/
import NovaRuntime.Library.Entries

namespace NovaRuntime.Library

set_option autoImplicit false

class BoundedCache (C : Type) (K V : outParam Type) where
  new (cap : Nat) (pos : 0 < cap) : C
  peek : C → K → Option V
  get : C → K → Option V × C
  put : C → K → V → C
  pop : C → K → Option V × C
  len : C → Nat

/-- What the operations do to the entries held. -/
class LawfulBoundedCache (C : Type) {K V : Type} [DecidableEq K] [BoundedCache C K V] : Prop where
  peek_new : ∀ cap pos k, BoundedCache.peek (BoundedCache.new cap pos : C) k = none
  get_fst : ∀ (c : C) k, (BoundedCache.get c k).1 = BoundedCache.peek c k
  peek_get : ∀ (c : C) k k', BoundedCache.peek (BoundedCache.get c k).2 k' = BoundedCache.peek c k'
  peek_put_self : ∀ (c : C) k v, BoundedCache.peek (BoundedCache.put c k v) k = some v
  peek_put_of_ne : ∀ (c : C) k v k', k' ≠ k →
    BoundedCache.peek (BoundedCache.put c k v) k' = none ∨
      BoundedCache.peek (BoundedCache.put c k v) k' = BoundedCache.peek c k'
  pop_fst : ∀ (c : C) k, (BoundedCache.pop c k).1 = BoundedCache.peek c k
  peek_pop : ∀ (c : C) k k', BoundedCache.peek (BoundedCache.pop c k).2 k' =
    if k' = k then none else BoundedCache.peek c k'

namespace BoundedCache

variable {C K V : Type} [DecidableEq K] [BoundedCache C K V]

/-- Putting an entry for `k` throws the one for `k'` out. -/
def Evicts (c : C) (k : K) (v : V) (k' : K) : Prop :=
  (peek c k').isSome ∧ peek (put c k v) k' = none

instance (c : C) (k : K) (v : V) (k' : K) : Decidable (Evicts c k v k') := by
  unfold Evicts; infer_instance

end BoundedCache

/-! ## Least recently used -/

/-- A cache that evicts the entry whose last use is longest ago. -/
structure RecencyCache (K V : Type) where
  cap : Nat
  entries : List (K × V) := []
  pos : 0 < cap

namespace RecencyCache

variable {K V : Type} [DecidableEq K]

/-- The entries for other keys, in their order. -/
def others (entries : List (K × V)) (k : K) : List (K × V) := entries.filter fun e => e.1 != k

/-- A hit moves the entry to the front. -/
def touch (c : RecencyCache K V) (k : K) : RecencyCache K V :=
  match c.entries.lookup k with
  | some v => { c with entries := (k, v) :: others c.entries k }
  | none => c

instance : BoundedCache (RecencyCache K V) K V where
  new cap pos := { cap, pos }
  peek c k := c.entries.lookup k
  get c k := (c.entries.lookup k, c.touch k)
  put c k v := { c with entries := ((k, v) :: others c.entries k).take c.cap }
  pop c k := (c.entries.lookup k, { c with entries := others c.entries k })
  len c := c.entries.length

/-- The least recently used entry leaves. -/
def popLru (c : RecencyCache K V) : Option (K × V) × RecencyCache K V :=
  (c.entries.getLast?, { c with entries := c.entries.dropLast })

theorem lookup_others (entries : List (K × V)) (k k' : K) :
    (others entries k).lookup k' = if k' = k then none else entries.lookup k' := by
  rw [others, lookup_filter_key (fun key => key != k)]
  by_cases same : k' = k <;> simp [same]

theorem lookup_touch (c : RecencyCache K V) (k k' : K) :
    (c.touch k).entries.lookup k' = c.entries.lookup k' := by
  unfold touch
  split
  · rename_i v found
    rw [lookup_cons_ite, lookup_others]
    by_cases same : k' = k
    · simp [same, found]
    · simp [same]
  · rfl

/-- Cutting a list short can only lose answers. -/
theorem lookup_take (entries : List (K × V)) (n : Nat) (k : K) :
    (entries.take n).lookup k = none ∨ (entries.take n).lookup k = entries.lookup k := by
  have split : entries.lookup k = ((entries.take n).lookup k).or ((entries.drop n).lookup k) := by
    rw [← List.lookup_append, List.take_append_drop]
  cases found : (entries.take n).lookup k with
  | none => exact .inl rfl
  | some v => exact .inr (by rw [split, found]; rfl)

instance : LawfulBoundedCache (RecencyCache K V) where
  peek_new _ _ _ := rfl
  get_fst _ _ := rfl
  peek_get c k k' := lookup_touch c k k'
  peek_put_self c k v := by
    obtain ⟨n, cap⟩ : ∃ n, c.cap = n + 1 := ⟨c.cap - 1, by have := c.pos; omega⟩
    simp [BoundedCache.peek, BoundedCache.put, cap]
  peek_put_of_ne c k v k' differ := by
    have whole : (((k, v) :: others c.entries k) : List (K × V)).lookup k' = c.entries.lookup k' := by
      rw [lookup_cons_ite, lookup_others]
      simp [differ]
    simpa only [BoundedCache.peek, BoundedCache.put, whole] using
      lookup_take ((k, v) :: others c.entries k) c.cap k'
  pop_fst _ _ := rfl
  peek_pop c k k' := lookup_others c.entries k k'

end RecencyCache

end NovaRuntime.Library
