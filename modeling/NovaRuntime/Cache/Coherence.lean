/-
# NovaRuntime.Cache.Coherence — what a hit answers

A cache may evict, expire and refuse what it is given, and its counter may be wrong. Beside it
stands the map of the entries set last (`Watched`). Every entry that the cache has is that map's
(`Coherent`), so a hit is the value set last (`hit_is_latest`).
-/
import Mathlib.Logic.Function.Basic
import NovaRuntime.Cache.Accounting

namespace NovaRuntime.Cache.HashMapBackend

open NovaRuntime.Library

set_option autoImplicit false

abbrev Latest := CacheKey → Option CacheEntry

/-- The entries set last and not deleted since. A `set` counts if it returns. -/
def remember (s : HashMapBackend) (latest : Latest) : CacheOp → Latest
  | .set key value ttl now =>
    if (s.set key value ttl now).1 = .ok () then
      Function.update latest key (some ⟨value, now, ttl.map (now + ·), 0⟩)
    else latest
  | .delete key => Function.update latest key none
  | .deleteMatching pattern => fun key => if matchesGlob pattern key then none else latest key
  | .flush => fun _ => none
  | .get .. | .exists .. | .evictExpired _ => latest

structure Watched where
  cache : HashMapBackend
  latest : Latest

def Watched.step (w : Watched) (op : CacheOp) : Watched := ⟨w.cache.step op, remember w.cache w.latest op⟩

def Watched.Coherent (w : Watched) : Prop := ∀ e ∈ w.cache.entries, w.latest e.1 = some e.2

section

variable {s : HashMapBackend} {e : CacheKey × CacheEntry} {key : CacheKey}

theorem mem_others {es : Entries} (member : e ∈ RecencyCache.others es key) : e ∈ es ∧ e.1 ≠ key := by
  obtain ⟨inside, differs⟩ := List.mem_filter.mp member
  exact ⟨inside, by simpa using differs⟩

/-- What is left after a `set`: its own entry, and entries of before. -/
theorem mem_setLocked {value : CacheValue} {expiresAt : Option Nat} {now : Nat}
    (member : e ∈ (setLocked key value expiresAt now s).2.entries) :
    ((setLocked key value expiresAt now s).1 = .ok () ∧ e = (key, ⟨value, now, expiresAt, 0⟩)) ∨
      e ∈ s.entries ∧ ((setLocked key value expiresAt now s).1 = .ok () → e.1 ≠ key) := by
  have dropped := (makeRoom_dropped (entrySize key value) (s.cache.entries.length + 1) (s.uncount key)).1.pre
  have same : (s.uncount key).entries = s.entries := by
    rw [uncount]
    split <;> rfl
  rw [same] at dropped
  revert member
  simp only [setLocked]
  split
  · next room roomy =>
    rw [roomy] at dropped
    intro member
    rcases List.mem_cons.mp (List.mem_of_mem_take member) with rfl | other
    · exact .inl ⟨rfl, rfl⟩
    · exact .inr ⟨dropped.subset (mem_others other).1, fun _ => (mem_others other).2⟩
  · next failed =>
    exact fun member => .inr ⟨dropped.subset member, fun ok => (failed _ (Prod.ext ok rfl)).elim⟩

theorem mem_looked {now : Nat} (member : e ∈ (looked key now s).entries) : e ∈ s.entries := by
  rw [looked] at member
  split at member
  · exact (mem_others member).1
  · exact member

theorem mem_deleteAll {keys : List CacheKey} {n : Nat} (member : e ∈ (deleteAll keys n s).2.entries) :
    e ∈ s.entries ∧ e.1 ∉ keys := by
  induction keys generalizing s n with
  | nil => exact ⟨member, List.not_mem_nil⟩
  | cons key keys ih =>
    obtain ⟨left, others⟩ := ih member
    rw [entries_delete] at left
    exact ⟨(mem_others left).1, List.not_mem_cons_of_ne_of_not_mem (mem_others left).2 others⟩

theorem mem_evictAll {keys : List CacheKey} (member : e ∈ (keys.foldl evictKey s).entries) : e ∈ s.entries := by
  induction keys generalizing s with
  | nil => exact member
  | cons key keys ih =>
    have left := ih member
    rw [entries_evictKey] at left
    exact (mem_others left).1

end

/-- **Step.** -/
theorem Watched.Coherent.step {w : Watched} (coherent : w.Coherent) (op : CacheOp) : (w.step op).Coherent := by
  intro e member
  cases op with
  | set key value ttl now =>
    have ran : w.cache.set key value ttl now = (.panic, w.cache) ∨
        w.cache.set key value ttl now = setLocked key value (ttl.map (now + ·)) now w.cache := by
      cases ttl with
      | none => exact .inr rfl
      | some d => exact (Decidable.em (instantLimit ≤ now + d)).imp (if_pos ·) (if_neg ·)
    simp only [Watched.step, HashMapBackend.step, remember] at member ⊢
    rcases ran with ran | ran
    · rw [ran] at member ⊢
      exact coherent e member
    · rw [ran] at member ⊢
      rcases mem_setLocked member with ⟨ok, rfl⟩ | ⟨old, other⟩
      · rw [if_pos ok]
        exact Function.update_self ..
      · split
        · next ok => exact (Function.update_of_ne (other ok) ..).trans (coherent e old)
        · exact coherent e old
  | get key now =>
    have left : e ∈ (w.cache.get key now).2.cache.entries := member
    rw [(get_looked key now w.cache).1] at left
    exact coherent e (mem_looked left)
  | «exists» key now => exact coherent e (mem_looked member)
  | delete key =>
    have left : e ∈ (w.cache.delete key).2.entries := member
    rw [entries_delete] at left
    exact (Function.update_of_ne (mem_others left).2 ..).trans (coherent e (mem_others left).1)
  | deleteMatching pattern =>
    obtain ⟨here, unmatched⟩ := mem_deleteAll member
    refine (if_neg fun isMatch => unmatched ?_).trans (coherent e here)
    exact List.mem_filter.mpr ⟨List.mem_map_of_mem here, isMatch⟩
  | flush => cases member
  | evictExpired now => exact coherent e (mem_evictAll member)

/-- **A hit is the value that was set last**, in every run of calls on a cache of any size: no
deletion came since, and its entry has not expired. -/
theorem hit_is_latest (maxBytes : Nat) (ops : List CacheOp) :
    ∀ w ∈ Run.states Watched.step ⟨new maxBytes, fun _ => none⟩ ops, ∀ key now value,
      (w.cache.get key now).1 = some value →
        ∃ e, w.latest key = some e ∧ e.value = value ∧ e.expired now = false := by
  intro w reached key now value hit
  have coherent : w.Coherent := Run.always_of_step (I := Watched.Coherent)
    (fun _ op held => held.step op) (fun _ absent => (List.not_mem_nil absent).elim) ops w reached
  rw [HashMapBackend.get] at hit
  rcases look_cases key now w.cache with ⟨look, -⟩ | ⟨e, found, fresh, look⟩ | ⟨e, -, -, look⟩
  · rw [look] at hit
    cases hit
  · rw [look] at hit
    obtain ⟨newer, older, split⟩ := split_of_peek found
    refine ⟨e, coherent (key, e) ?_, Option.some.inj hit, fresh⟩
    rw [split]
    exact List.mem_append_right _ (.head _)
  · rw [look] at hit
    cases hit

theorem hit_is_latest_sample :
    ∃ e, ((⟨new 9, fun _ => none⟩ : Watched).step (.set [] [1] none 0)).latest [] = some e ∧
      e.value = [1] ∧ e.expired 5 = false :=
  hit_is_latest 9 [.set [] [1] none 0] _ (.tail _ (.head _)) [] 5 [1] rfl

end NovaRuntime.Cache.HashMapBackend
