/-
# NovaRuntime.Cache.Patterns — the keys that a pattern deletes

`delete_matching` of `backend/hashmap.rs` and `backend/ttl.rs`. The matcher decides the
language of its patterns (`matchesGlob_eq`), and the in-memory cache asks it about each of its
keys. `TtlBackend` asks it only about the keys for which it has an expiry, so that a key
stored without one outlives every pattern: `deleteMatching_exact_iff` says that there is no
other difference.

An instant is a number of nanoseconds. The expiries are listed in some order of the map.
-/
import NovaRuntime.Cache.Accounting
import NovaRuntime.Library.Wildcards

namespace NovaRuntime.Cache

open NovaRuntime.Library HashMapBackend

set_option autoImplicit false

/-! ## The matcher -/

/-- What a pattern says: a star is any sequence, a question mark any one character. -/
def pieces (pattern : Text) : List (Piece Char) :=
  pattern.map fun c => if c = '*' then .many else if c = '?' then .one else .exactly c

theorem pieces_plain {c : Char} {pattern : Text} (star : c ≠ '*') (question : c ≠ '?') :
    pieces (c :: pattern) = .exactly c :: pieces pattern := by
  rw [pieces, List.map_cons, if_neg star, if_neg question]
  rfl

/-- **The matcher decides the language.** -/
theorem matchesGlob_eq (pattern key : Text) : matchesGlob pattern key = matchesPieces (pieces pattern) key := by
  fun_induction matchesGlob pattern key with
  | case1 => rfl
  | case2 p ih =>
    rw [ih]
    exact (Bool.or_false _).symm
  | case3 p c k here there =>
    rw [here, there]
    rfl
  | case4 p c k ih => exact ih
  | case5 p c k star question ih =>
    rw [pieces_plain star question, matchesPieces, ih, decide_eq_true rfl, Bool.true_and]
  | case6 p c k d star question differ =>
    rw [pieces_plain star question, matchesPieces, decide_eq_false differ, Bool.false_and]
  | case7 pattern key empty star ends question plain =>
    cases pattern with
    | nil =>
      cases key with
      | nil => exact (empty rfl rfl).elim
      | cons => rfl
    | cons c p =>
      cases key with
      | cons d k => exact (plain c p d k rfl rfl).elim
      | nil =>
        have noStar : c ≠ '*' := fun same => star p (same ▸ rfl) rfl
        rw [pieces, List.map_cons, if_neg noStar]
        split
        · rfl
        · rfl

theorem matchesGlob_iff {pattern key : Text} : matchesGlob pattern key = true ↔ Matches (pieces pattern) key := by
  rw [matchesGlob_eq, matchesPieces_iff]

/-! ## The in-memory cache -/

/-- Exactly the entries whose keys match are gone, and `n` is their number. -/
structure Deletes (pattern : Text) (before after : Entries) (n : Nat) : Prop where
  entries : after = before.filter fun e => ¬ Matches (pieces pattern) e.1
  count : n = (before.filter fun e => Matches (pieces pattern) e.1).length

namespace HashMapBackend

/-- What the parts of the operations make of an empty cache, in any order. -/
inductive Reachable : HashMapBackend → Prop where
  | new (maxBytes : Nat) : Reachable (new maxBytes)
  | set {s : HashMapBackend} (reached : Reachable s) (key : CacheKey) (value : CacheValue) (ttl : Option Nat)
      (now : Nat) : Reachable (s.set key value ttl now).2
  | pop {s : HashMapBackend} (reached : Reachable s) (key : CacheKey) : Reachable (s.pop key)
  | delete {s : HashMapBackend} (reached : Reachable s) (key : CacheKey) : Reachable (s.delete key).2
  | evictKey {s : HashMapBackend} (reached : Reachable s) (key : CacheKey) : Reachable (s.evictKey key)
  | flush {s : HashMapBackend} (reached : Reachable s) : Reachable s.flush
  | count {s : HashMapBackend} (reached : Reachable s) (f : CacheMetrics → CacheMetrics) : Reachable (s.count f)

section

variable {s : HashMapBackend}

theorem Reachable.distinct (reachable : s.Reachable) : Distinct s.entries := by
  induction reachable with
  | new maxBytes => exact List.nodup_nil
  | @set s _ key value ttl now ih =>
    have locked (expiresAt : Option Nat) : Distinct (setLocked key value expiresAt now s).2.entries := by
      have dropped := (makeRoom_dropped (entrySize key value) (s.cache.entries.length + 1) (s.uncount key)).1
      have same : (s.uncount key).entries = s.entries := by
        rw [uncount]
        split
        · rfl
        · rfl
      have left := Distinct.sublist (same.symm ▸ ih) dropped.pre.sublist
      simp only [setLocked]
      split
      · next room roomy =>
        rw [roomy] at left
        exact (distinct_put left _ _).sublist (List.take_sublist ..)
      · exact left
    cases ttl with
    | none => exact locked none
    | some d =>
      rw [HashMapBackend.set]
      split
      · exact ih
      · exact locked _
  | pop _ key ih => exact ih.sublist List.filter_sublist
  | @delete s _ key ih =>
    rw [entries_delete]
    exact ih.sublist List.filter_sublist
  | @evictKey s _ key ih =>
    rw [entries_evictKey]
    exact ih.sublist List.filter_sublist
  | flush _ _ => exact List.nodup_nil
  | count _ f ih => exact ih

theorem filter_mem_cons {es : Entries} {key : CacheKey} (absent : key ∉ es.map Prod.fst) (keys : List CacheKey) :
    (es.filter fun e => e.1 ∈ key :: keys) = es.filter fun e => e.1 ∈ keys := by
  refine List.filter_congr fun e member => ?_
  have differ : e.1 ≠ key := fun same => absent (same ▸ List.mem_map_of_mem member)
  rw [decide_eq_decide, List.mem_cons, or_iff_right differ]

/-- One key is deleted, and the others are left to the rest of the loop. -/
theorem length_filter_delete (distinct : Distinct s.entries) (key : CacheKey) (keys : List CacheKey) :
    (s.entries.filter fun e => e.1 ∈ key :: keys).length =
      (if (s.delete key).1 then 1 else 0) + ((RecencyCache.others s.entries key).filter fun e => e.1 ∈ keys).length := by
  rw [delete]
  cases found : s.peek key with
  | none =>
    rw [others_of_peek_none found, filter_mem_cons]
    · simp
    · intro member
      obtain ⟨e, inside, same⟩ := List.mem_map.mp member
      exact absurd (List.lookup_eq_none_iff.mp found e inside) (by simp [same])
  | some e =>
    obtain ⟨newer, older, split⟩ := split_of_peek found
    obtain ⟨before, behind, others, -⟩ := distinct.split split
    rw [others, split, List.filter_append, List.filter_append, List.filter_cons_of_pos (by simp),
      filter_mem_cons before, filter_mem_cons behind]
    simp only [List.length_append, List.length_cons, if_pos]
    omega

/-- **The loop takes out what it is told to**, and counts what was there. -/
theorem deleteAll_entries (distinct : Distinct s.entries) (keys : List CacheKey) (n : Nat) :
    (deleteAll keys n s).2.entries = (s.entries.filter fun e => e.1 ∉ keys) ∧
      (deleteAll keys n s).1 = n + (s.entries.filter fun e => e.1 ∈ keys).length := by
  induction keys generalizing s n with
  | nil => simp [deleteAll]
  | cons key keys ih =>
    have rest : Distinct (s.delete key).2.entries := by
      rw [entries_delete]
      exact distinct.sublist List.filter_sublist
    obtain ⟨entries, count⟩ := ih rest (if (s.delete key).1 then n + 1 else n)
    rw [entries_delete] at entries count
    rw [deleteAll, entries, count]
    constructor
    · rw [RecencyCache.others, List.filter_filter]
      exact List.filter_congr fun e _ => by
        simp only [List.mem_cons, not_or, Bool.decide_and, decide_not, bne_eq, Bool.and_comm]
        rfl
    · rw [length_filter_delete distinct]
      split
      · omega
      · omega

/-- The loop is told what matches, as far as the cache has it. -/
theorem deletes_of_keys (reachable : s.Reachable) {pattern : Text} {keys : List CacheKey}
    (asked : ∀ e ∈ s.entries, e.1 ∈ keys ↔ Matches (pieces pattern) e.1) :
    Deletes pattern s.entries (deleteAll keys 0 s).2.entries (deleteAll keys 0 s).1 := by
  obtain ⟨entries, count⟩ := deleteAll_entries reachable.distinct keys 0
  constructor
  · rw [entries]
    exact List.filter_congr fun e member => by rw [decide_eq_decide, asked e member]
  · rw [count, Nat.zero_add]
    exact congrArg List.length (List.filter_congr fun e member => by rw [decide_eq_decide, asked e member])

/-- **The in-memory cache deletes exactly what matches.** -/
theorem deletes_matching (reachable : s.Reachable) (pattern : Text) :
    Deletes pattern s.entries (s.deleteMatching pattern).2.entries (s.deleteMatching pattern).1 := by
  refine deletes_of_keys reachable fun e member => ?_
  rw [List.mem_filter, matchesGlob_iff]
  exact and_iff_right (List.mem_map_of_mem member)

end

end HashMapBackend

/-! ## The cache with expiries of its own -/

structure TtlBackend where
  inner : HashMapBackend
  expires : List (CacheKey × Nat)

namespace TtlBackend

def new (inner : HashMapBackend) : TtlBackend := ⟨inner, []⟩

def insert (key : CacheKey) (expiry : Nat) (s : TtlBackend) : TtlBackend :=
  { s with expires := (key, expiry) :: RecencyCache.others s.expires key }

def remove (key : CacheKey) (s : TtlBackend) : TtlBackend :=
  { s with expires := RecencyCache.others s.expires key }

def expired (key : CacheKey) (now : Nat) (s : TtlBackend) : Bool :=
  ((s.expires.lookup key).map fun expiry => decide (expiry ≤ now)).getD false

def delete (key : CacheKey) (s : TtlBackend) : Bool × TtlBackend :=
  ((s.inner.delete key).1, { s.remove key with inner := (s.inner.delete key).2 })

/-- The inner cache reads the clock once more. -/
def get (key : CacheKey) (now innerNow : Nat) (s : TtlBackend) : Option CacheValue × TtlBackend :=
  if s.expired key now then (none, (s.delete key).2)
  else ((s.inner.get key innerNow).1, { s with inner := (s.inner.get key innerNow).2 })

def setInner (key : CacheKey) (value : CacheValue) (ttl : Option Nat) (innerNow : Nat) (s : TtlBackend) :
    Outcome CacheError Unit × TtlBackend :=
  ((s.inner.set key value ttl innerNow).1, { s with inner := (s.inner.set key value ttl innerNow).2 })

def set (key : CacheKey) (value : CacheValue) (ttl : Option Nat) (now innerNow : Nat) (s : TtlBackend) :
    Outcome CacheError Unit × TtlBackend :=
  match ttl with
  | some 0 => (s.insert key now).setInner key value ttl innerNow
  | some d =>
    if instantLimit ≤ now + d then (.panic, s) else (s.insert key (now + d)).setInner key value ttl innerNow
  | none => (s.remove key).setInner key value ttl innerNow

def flush (s : TtlBackend) : TtlBackend := ⟨s.inner.flush, []⟩

/-- The sweeper. -/
def evictExpired (now : Nat) (s : TtlBackend) : TtlBackend :=
  ((s.expires.filter fun e => e.2 ≤ now).map Prod.fst).foldl (fun s key => (s.delete key).2) s

/-- The loop of `delete_matching`. -/
def deleteAll : List CacheKey → Nat → TtlBackend → Nat × TtlBackend
  | [], count, s => (count, s)
  | key :: rest, count, s => deleteAll rest (if (s.delete key).1 then count + 1 else count) (s.delete key).2

def deleteMatching (pattern : Text) (s : TtlBackend) : Nat × TtlBackend :=
  deleteAll ((s.expires.map Prod.fst).filter (matchesGlob pattern)) 0 s

/-- The calls. `exists` leaves what `get` leaves, and the calls for many keys are made of these. -/
inductive TtlOp where
  | set (key : CacheKey) (value : CacheValue) (ttl : Option Nat) (now innerNow : Nat)
  | get (key : CacheKey) (now innerNow : Nat)
  | delete (key : CacheKey)
  | deleteMatching (pattern : Text)
  | flush
  | evictExpired (now : Nat)

def step (s : TtlBackend) : TtlOp → TtlBackend
  | .set key value ttl now innerNow => (s.set key value ttl now innerNow).2
  | .get key now innerNow => (s.get key now innerNow).2
  | .delete key => (s.delete key).2
  | .deleteMatching pattern => (s.deleteMatching pattern).2
  | .flush => s.flush
  | .evictExpired now => s.evictExpired now

/-- **What is asked of a pattern**, whatever the expiries are. -/
structure Exact (s : TtlBackend) (pattern : Text) : Prop where
  decides : ∀ key, matchesGlob pattern key = true ↔ Matches (pieces pattern) key
  alone : Deletes pattern s.inner.entries (s.inner.deleteMatching pattern).2.entries (s.inner.deleteMatching pattern).1
  entries : Deletes pattern s.inner.entries (s.deleteMatching pattern).2.inner.entries (s.deleteMatching pattern).1
  expires : ∀ e, ¬ Matches (pieces pattern) e.1 → (e ∈ (s.deleteMatching pattern).2.expires ↔ e ∈ s.expires)

section

variable {s : TtlBackend}

theorem deleteAll_eq (keys : List CacheKey) (n : Nat) (s : TtlBackend) :
    (deleteAll keys n s).1 = (HashMapBackend.deleteAll keys n s.inner).1 ∧
      (deleteAll keys n s).2.inner = (HashMapBackend.deleteAll keys n s.inner).2 ∧
      ∀ e, e.1 ∉ keys → (e ∈ (deleteAll keys n s).2.expires ↔ e ∈ s.expires) := by
  induction keys generalizing s n with
  | nil => exact ⟨rfl, rfl, fun _ _ => .rfl⟩
  | cons key keys ih =>
    obtain ⟨count, inner, expires⟩ := ih (if (s.delete key).1 then n + 1 else n) (s.delete key).2
    refine ⟨count, inner, fun e absent => (expires e fun member => absent (.tail _ member)).trans ?_⟩
    have other : e.1 ≠ key := fun same => absent (same ▸ .head _)
    refine List.mem_filter.trans (and_iff_left ?_)
    simpa using other

/-- A call leaves a content of the inner cache that its own parts can make. -/
theorem reachable_step (reachable : s.inner.Reachable) (op : TtlOp) : (s.step op).inner.Reachable := by
  have deleteAll (keys : List CacheKey) {s : HashMapBackend} (n : Nat) (reachable : s.Reachable) :
      (HashMapBackend.deleteAll keys n s).2.Reachable := by
    induction keys generalizing s n with
    | nil => exact reachable
    | cons key keys ih => exact ih _ (reachable.delete key)
  cases op with
  | set key value ttl now innerNow =>
    simp only [step, set]
    split
    · exact reachable.set ..
    · split
      · exact reachable
      · exact reachable.set ..
    · exact reachable.set ..
  | get key now innerNow =>
    simp only [step, get]
    split
    · exact reachable.delete key
    · simp only [HashMapBackend.get]
      split
      · exact reachable.count fun m => { m with hits := m.hits + 1 }
      · split
        · exact (reachable.pop key).count fun m => { m with misses := m.misses + 1 }
        · exact reachable.count fun m => { m with misses := m.misses + 1 }
  | delete key => exact reachable.delete key
  | deleteMatching pattern =>
    rw [step, deleteMatching, (deleteAll_eq _ _ s).2.1]
    exact deleteAll _ _ reachable
  | flush => exact reachable.flush
  | evictExpired now =>
    rw [step, evictExpired]
    induction (s.expires.filter fun e => e.2 ≤ now).map Prod.fst generalizing s with
    | nil => exact reachable
    | cons key keys ih => exact ih (reachable.delete key)

/-- **A pattern is obeyed exactly when every key that matches has an expiry.** -/
theorem deleteMatching_exact_iff (reachable : s.inner.Reachable) (pattern : Text) :
    s.Exact pattern ↔
      ∀ key ∈ s.inner.keys, Matches (pieces pattern) key → key ∈ s.expires.map Prod.fst := by
  obtain ⟨count, inner, expires⟩ := deleteAll_eq ((s.expires.map Prod.fst).filter (matchesGlob pattern)) 0 s
  constructor
  · intro exact key member matched
    obtain ⟨e, stored, rfl⟩ := List.mem_map.mp member
    by_contra absent
    have stays : e ∈ (s.deleteMatching pattern).2.inner.entries := by
      rw [deleteMatching, inner, (deleteAll_entries reachable.distinct _ 0).1]
      exact List.mem_filter.mpr ⟨stored, decide_eq_true fun asked => absent (List.mem_filter.mp asked).1⟩
    rw [exact.entries.entries] at stays
    exact of_decide_eq_true (List.mem_filter.mp stays).2 matched
  · intro known
    refine ⟨fun _ => matchesGlob_iff, deletes_matching reachable pattern, ?_, fun e other => ?_⟩
    · rw [deleteMatching, inner, count]
      refine deletes_of_keys reachable fun e member => ?_
      rw [List.mem_filter, matchesGlob_iff]
      exact and_iff_right_of_imp (known e.1 (List.mem_map_of_mem member))
    · exact expires e fun member => other (matchesGlob_iff.mp (List.mem_filter.mp member).2)

end

/-- Two keys, both with an expiry. -/
def sampleContent : TtlBackend :=
  ((new (.new 1024)).step (.set "user:1".toList [1] (some 60) 0 0)).step (.set "post:1".toList [2] (some 60) 0 0)

theorem deleteMatching_exact_iff_sample : sampleContent.Exact "user:*".toList ↔
    ∀ key ∈ sampleContent.inner.keys, Matches (pieces "user:*".toList) key →
      key ∈ sampleContent.expires.map Prod.fst :=
  deleteMatching_exact_iff (reachable_step (reachable_step (.new 1024) _) _) _

/-- A key that is stored without an expiry matches, and stays. -/
theorem unexpiring_key_stays : ¬ ∀ s : TtlBackend, s.inner.Reachable → ∀ pattern, s.Exact pattern := by
  intro claim
  have exact := claim ((new (.new 1024)).step (.set "k".toList [1] none 0 0)) (reachable_step (.new 1024) _) "*".toList
  exact absurd exact.entries.count (by decide +kernel)

end TtlBackend

end NovaRuntime.Cache
