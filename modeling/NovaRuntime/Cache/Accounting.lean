/-
# NovaRuntime.Cache.Accounting — the counter of bytes and the entries

`Accounted` is what a call is to leave behind: a counter that is the sum of the sizes, below the
limit as far as that can be, and no entry lost without a reason. Three branches of the code miss
it: `get` and `exists` drop an expired entry and leave the counter, `set` subtracts the entry that
it replaces and may evict it and subtract it once more, and the cache itself drops an entry when
it holds as many as it can.

`accounted_iff` says that no other branch does.
-/
import Mathlib.Data.List.Nodup
import Mathlib.Data.Nat.ModEq
import NovaRuntime.Cache.HashMapBackend
import NovaRuntime.Library.Runs

namespace NovaRuntime.Cache.HashMapBackend

open NovaRuntime.Library

set_option autoImplicit false

/-! ## Calls -/

inductive CacheOp where
  | set (key : CacheKey) (value : CacheValue) (ttl : Option Nat) (now : Nat)
  | get (key : CacheKey) (now : Nat)
  | «exists» (key : CacheKey) (now : Nat)
  | delete (key : CacheKey)
  | deleteMatching (pattern : Text)
  | flush
  | evictExpired (now : Nat)

def step (s : HashMapBackend) : CacheOp → HashMapBackend
  | .set key value ttl now => (s.set key value ttl now).2
  | .get key now => (s.get key now).2
  | .exists key now => (s.exists key now).2
  | .delete key => (s.delete key).2
  | .deleteMatching pattern => (s.deleteMatching pattern).2
  | .flush => s.flush
  | .evictExpired now => s.evictExpired now

abbrev Entries := List (CacheKey × CacheEntry)

def sizeOf (e : CacheKey × CacheEntry) : Nat := entrySize e.1 e.2.value

/-- The bytes of some entries. -/
def bytes (es : Entries) : Nat := (es.map sizeOf).sum

def entries (s : HashMapBackend) : Entries := s.cache.entries

/-! ## What is asked -/

/-- The counter is right, and has never gone below zero. -/
structure Counted (s : HashMapBackend) : Prop where
  bytes : s.currentBytes = bytes s.entries
  wrapped : s.wrapped = false

/-- An entry and what has been used after it do not fit beside a new one, or the cache holds as
many entries as it can. -/
def NoRoom (s : HashMapBackend) (key : CacheKey) (newSize : Nat) (e : CacheKey × CacheEntry) : Prop :=
  (∃ newer older, s.entries = newer ++ e :: older ∧
    s.maxBytes < bytes (RecencyCache.others (newer ++ [e]) key) + newSize) ∨
  s.peek key = none ∧ s.entries.length = s.cache.cap

/-- Why a call may lose an entry: it replaces it, deletes it, finds it expired, or needs its room. -/
def Reason (s : HashMapBackend) (e : CacheKey × CacheEntry) : CacheOp → Prop
  | .set key value _ _ => e.1 = key ∨ s.NoRoom key (entrySize key value) e
  | .get key now | .exists key now => e.1 = key ∧ e.2.expired now = true
  | .delete key => e.1 = key
  | .deleteMatching pattern => matchesGlob pattern e.1 = true
  | .flush => True
  | .evictExpired now => e.2.expired now = true

/-- What `set` is to do: it stores the entry, and stays below the limit unless the entry alone
does not. -/
structure Stores (s s' : HashMapBackend) (key : CacheKey) (value : CacheValue) : Prop where
  stored : ∃ e, s'.peek key = some e ∧ e.value = value
  bounded : bytes s'.entries ≤ s.maxBytes ∨ ∃ e, s'.entries = [e]

/-- **What a call is to leave behind.** -/
structure Accounted (s : HashMapBackend) (op : CacheOp) : Prop where
  counted : (s.step op).Counted
  kept : ∀ key e, s.peek key = some e → (s.step op).peek key = some e ∨ s.Reason (key, e) op
  set : ∀ key value ttl now, op = .set key value ttl now → (s.set key value ttl now).1 = .ok () ∧
    Stores s (s.set key value ttl now).2 key value

/-! ## When it does -/

/-- `set` has an instant to expire at, its sum does not overflow, the entry it replaces is not so
old that it is evicted first, and there is room for one more entry. Entries of no size do no harm. -/
structure SetMeets (s : HashMapBackend) (key : CacheKey) (value : CacheValue) (ttl : Option Nat) (now : Nat) : Prop where
  instant : ∀ d, ttl = some d → now + d < instantLimit
  fits : bytes (RecencyCache.others s.entries key) + entrySize key value < 2 ^ 64
  replaced : ∀ newer e older, s.entries = newer ++ (key, e) :: older →
    s.maxBytes < bytes newer + entrySize key value → entrySize key e.value = 0
  room : s.peek key = none → bytes s.entries + entrySize key value ≤ s.maxBytes → s.entries.length = s.cache.cap →
    ∀ last, s.entries.getLast? = some last → sizeOf last = 0

def Meets (s : HashMapBackend) : CacheOp → Prop
  | .set key value ttl now => s.SetMeets key value ttl now
  | .get key now | .exists key now => ∀ e, s.peek key = some e → e.expired now = true → entrySize key e.value = 0
  | _ => True

/-! ## Sums of sizes -/

section Bytes

variable {es fs : Entries} {key : CacheKey} {e : CacheEntry}

theorem bytes_append (es fs : Entries) : bytes (es ++ fs) = bytes es + bytes fs := by
  rw [bytes, List.map_append, List.sum_append]
  rfl

theorem bytes_cons (e : CacheKey × CacheEntry) (es : Entries) : bytes (e :: es) = sizeOf e + bytes es := List.sum_cons

theorem bytes_sublist (sub : es.Sublist fs) : bytes es ≤ bytes fs := by
  induction sub with
  | slnil => exact le_rfl
  | cons e _ ih => exact le_trans ih (by rw [bytes_cons]; omega)
  | cons_cons e _ ih =>
    rw [bytes_cons, bytes_cons]
    omega

/-- The keys of a cache are distinct. -/
def Distinct (es : Entries) : Prop := (es.map Prod.fst).Nodup

theorem Distinct.sublist (distinct : Distinct fs) (sub : es.Sublist fs) : Distinct es :=
  List.Nodup.sublist (sub.map Prod.fst) distinct

theorem others_of_lookup_none (absent : es.lookup key = none) : RecencyCache.others es key = es := by
  refine List.filter_eq_self.mpr fun e member => ?_
  have differ := List.lookup_eq_none_iff.mp absent e member
  simpa using fun same : e.1 = key => by simp [same] at differ

theorem lookup_others (es : Entries) (key k : CacheKey) :
    (RecencyCache.others es key).lookup k = if k = key then none else es.lookup k := by
  have others : RecencyCache.others es key = es.filter fun e => !decide (e.1 = key) := rfl
  rw [others, lookup_filter_key fun k' => !decide (k' = key)]
  by_cases same : k = key <;> simp [same]

theorem others_append (es fs : Entries) (key : CacheKey) :
    RecencyCache.others (es ++ fs) key = RecencyCache.others es key ++ RecencyCache.others fs key := List.filter_append ..

theorem others_of_not_mem (absent : key ∉ es.map Prod.fst) : RecencyCache.others es key = es := by
  refine List.filter_eq_self.mpr fun e member => ?_
  simpa using fun same : e.1 = key => absent (same ▸ List.mem_map_of_mem member)

/-- Where the entry of a key stands. -/
theorem split_of_lookup (found : es.lookup key = some e) : ∃ newer older, es = newer ++ (key, e) :: older ∧
    key ∉ newer.map Prod.fst := by
  obtain ⟨newer, older, split, before⟩ := List.lookup_eq_some_iff.mp found
  refine ⟨newer, older, split, fun member => ?_⟩
  obtain ⟨e', inside, same⟩ := List.mem_map.mp member
  have differ := before e' inside
  rw [same] at differ
  simp at differ

theorem Distinct.split (distinct : Distinct es) {newer older : Entries} (split : es = newer ++ (key, e) :: older) :
    key ∉ newer.map Prod.fst ∧ key ∉ older.map Prod.fst ∧ RecencyCache.others es key = newer ++ older ∧
      es.lookup key = some e := by
  subst split
  rw [Distinct, List.map_append, List.map_cons, List.nodup_append] at distinct
  obtain ⟨-, rest, cross⟩ := distinct
  have before : key ∉ newer.map Prod.fst := fun member => cross key member key (.head _) rfl
  have after := (List.nodup_cons.mp rest).1
  refine ⟨before, after, ?_, ?_⟩
  · have self : RecencyCache.others ((key, e) :: older) key = RecencyCache.others older key :=
      List.filter_cons_of_neg (by simp)
    rw [others_append, self, others_of_not_mem before, others_of_not_mem after]
  · refine List.lookup_eq_some_iff.mpr ⟨newer, older, rfl, fun e' member => ?_⟩
    simpa using fun same : key = e'.1 => before (same ▸ List.mem_map_of_mem member)

/-- There is one place where the entry of a key can stand. -/
theorem split_unique {newer newer' older older' : Entries} {e' : CacheEntry} (before : key ∉ newer.map Prod.fst)
    (before' : key ∉ newer'.map Prod.fst) (same : newer ++ (key, e) :: older = newer' ++ (key, e') :: older') :
    newer = newer' := by
  induction newer generalizing newer' with
  | nil =>
    cases newer' with
    | nil => rfl
    | cons first newer' =>
      rw [List.nil_append, List.cons_append, List.cons.injEq] at same
      exact absurd (List.mem_map.mpr ⟨first, .head _, by rw [← same.1]⟩) before'
  | cons first newer ih =>
    cases newer' with
    | nil =>
      rw [List.nil_append, List.cons_append, List.cons.injEq] at same
      exact absurd (List.mem_map.mpr ⟨first, .head _, by rw [same.1]⟩) before
    | cons first' newer' =>
      rw [List.cons_append, List.cons_append, List.cons.injEq] at same
      rw [same.1, ih (fun member => before (.tail _ member)) (fun member => before' (.tail _ member)) same.2]

theorem Distinct.bytes (distinct : Distinct es) (found : es.lookup key = some e) :
    bytes es = bytes (RecencyCache.others es key) + entrySize key e.value := by
  obtain ⟨newer, older, split, -⟩ := split_of_lookup found
  rw [(distinct.split split).2.2.1, split, bytes_append, bytes_append, bytes_cons, sizeOf]
  dsimp only
  omega

end Bytes

/-! ## The counter -/

section Counter

variable {s : HashMapBackend} {size left : Nat}

theorem fetchSub_of_le (has : s.currentBytes = left + size) (small : left + size < 2 ^ 64) :
    (s.fetchSub size).currentBytes = left ∧ (s.fetchSub size).wrapped = s.wrapped := by
  rw [fetchSub]
  dsimp only
  rw [has, decide_eq_false (by omega), Bool.or_false, Nat.mod_eq_of_lt (show size < 2 ^ 64 by omega),
    show left + size + (2 ^ 64 - size) = left + 2 ^ 64 by omega, Nat.add_mod_right, Nat.mod_eq_of_lt (by omega)]
  exact ⟨rfl, rfl⟩

/-- Any subtraction, up to multiples of `2 ^ 64`. -/
theorem fetchSub_modEq (s : HashMapBackend) (size : Nat) :
    (s.fetchSub size).currentBytes + size ≡ s.currentBytes [MOD 2 ^ 64] := by
  rw [fetchSub]
  dsimp only
  have below : size % 2 ^ 64 ≤ 2 ^ 64 := le_of_lt (Nat.mod_lt _ (Nat.two_pow_pos 64))
  calc (s.currentBytes + (2 ^ 64 - size % 2 ^ 64)) % 2 ^ 64 + size
      ≡ s.currentBytes + (2 ^ 64 - size % 2 ^ 64) + size % 2 ^ 64 [MOD 2 ^ 64] :=
        Nat.ModEq.add (Nat.mod_modEq _ _) (Nat.mod_modEq _ _).symm
    _ = s.currentBytes + 2 ^ 64 := by omega
    _ ≡ s.currentBytes [MOD 2 ^ 64] := Nat.add_modEq_right

end Counter

/-! ## The loop that makes room -/

section Loop

variable {newSize : Nat}

/-- One turn of the loop on entries of which `e` is the oldest. -/
theorem makeRoom_succ (newSize fuel : Nat) (s : HashMapBackend) {newer : Entries} {e : CacheKey × CacheEntry}
    (split : s.entries = newer ++ [e]) : makeRoom newSize (fuel + 1) s =
      if 2 ^ 64 ≤ s.currentBytes + newSize then (.panic, s)
      else if s.maxBytes < s.currentBytes + newSize then
        makeRoom newSize fuel (count evicted (fetchSub (sizeOf e) { s with cache := { s.cache with entries := newer } }))
      else (.ok (), s) := by
  have popped : s.cache.popLru = (some e, { s.cache with entries := newer }) := by
    rw [entries] at split
    rw [RecencyCache.popLru, split, List.getLast?_concat, List.dropLast_concat]
  rw [makeRoom, popped]
  rfl

theorem makeRoom_nil (newSize fuel : Nat) (s : HashMapBackend) (empty : s.entries = []) :
    makeRoom newSize (fuel + 1) s = if 2 ^ 64 ≤ s.currentBytes + newSize then (.panic, s) else (.ok (), s) := by
  have nothing : s.cache.popLru = (none, { s.cache with entries := [] }) := by
    rw [entries] at empty
    rw [RecencyCache.popLru, empty]
    rfl
  rw [makeRoom, nothing]
  dsimp only
  rw [ite_self]

/-- What any run of the loop leaves alone, and that it drops entries from the end. -/
structure Dropped (s s' : HashMapBackend) : Prop where
  pre : s'.entries <+: s.entries
  cap : s'.cache.cap = s.cache.cap
  maxBytes : s'.maxBytes = s.maxBytes

/-- **The loop keeps what the counter is off by**, up to multiples of `2 ^ 64`. -/
theorem makeRoom_dropped (newSize fuel : Nat) (s : HashMapBackend) : Dropped s (makeRoom newSize fuel s).2 ∧
    ∀ off, s.currentBytes + off ≡ bytes s.entries [MOD 2 ^ 64] →
      (makeRoom newSize fuel s).2.currentBytes + off ≡ bytes (makeRoom newSize fuel s).2.entries [MOD 2 ^ 64] := by
  have still : ∀ s : HashMapBackend, Dropped s s ∧ ∀ off, s.currentBytes + off ≡ bytes s.entries [MOD 2 ^ 64] →
      s.currentBytes + off ≡ bytes s.entries [MOD 2 ^ 64] := fun s => ⟨⟨List.prefix_rfl, rfl, rfl⟩, fun _ => id⟩
  induction fuel generalizing s with
  | zero => exact still s
  | succ fuel ih =>
    rcases List.eq_nil_or_concat s.entries with empty | ⟨newer, e, split⟩
    · rw [makeRoom_nil newSize fuel s empty]
      split_ifs
      · exact still s
      · exact still s
    · rw [List.concat_eq_append] at split
      rw [makeRoom_succ newSize fuel s split]
      split_ifs with panics full
      · exact still s
      · obtain ⟨dropped, keeps⟩ :=
          ih (count evicted (fetchSub (sizeOf e) { s with cache := { s.cache with entries := newer } }))
        refine ⟨⟨dropped.pre.trans (split ▸ List.prefix_append ..), dropped.cap, dropped.maxBytes⟩,
          fun off isOff => keeps off ?_⟩
        refine Nat.ModEq.add_right_cancel' (sizeOf e) ?_
        have whole : bytes s.entries = bytes newer + sizeOf e := by
          rw [split, bytes_append, bytes_cons, show bytes [] = 0 from rfl, Nat.add_zero]
        rw [whole] at isOff
        refine Nat.ModEq.trans ?_ isOff
        rw [Nat.add_right_comm]
        exact Nat.ModEq.add_right off (fetchSub_modEq { s with cache := { s.cache with entries := newer } } (sizeOf e))
      · exact still s

/-- The loop as it is meant: it drops from the end what does not fit, where the entry that is to
be replaced counts for nothing. -/
structure Roomy (key : CacheKey) (newSize : Nat) (s s' : HashMapBackend) : Prop where
  dropped : ∃ older, s.entries = s'.entries ++ older ∧ ∀ between e rest, older = between ++ e :: rest →
    s.maxBytes < bytes (RecencyCache.others (s'.entries ++ between ++ [e]) key) + newSize
  cap : s'.cache.cap = s.cache.cap
  maxBytes : s'.maxBytes = s.maxBytes
  counter : s'.currentBytes = bytes (RecencyCache.others s'.entries key)
  wrapped : s'.wrapped = s.wrapped
  enough : s'.entries = [] ∨ bytes (RecencyCache.others s'.entries key) + newSize ≤ s.maxBytes

variable {key : CacheKey}

theorem Roomy.refl {s : HashMapBackend} (counter : s.currentBytes = bytes (RecencyCache.others s.entries key))
    (enough : s.entries = [] ∨ bytes (RecencyCache.others s.entries key) + newSize ≤ s.maxBytes) : Roomy key newSize s s :=
  ⟨⟨[], (List.append_nil _).symm, fun _ _ _ split => absurd split.symm (List.append_ne_nil_of_right_ne_nil _ (List.cons_ne_nil _ _))⟩,
    rfl, rfl, counter, rfl, enough⟩

/-- One entry is dropped before the others. -/
theorem Roomy.of_turn {s s₁ s' : HashMapBackend} {e : CacheKey × CacheEntry} (split : s.entries = s₁.entries ++ [e])
    (cap : s₁.cache.cap = s.cache.cap) (maxBytes : s₁.maxBytes = s.maxBytes) (wrapped : s₁.wrapped = s.wrapped)
    (full : s.maxBytes < bytes (RecencyCache.others s.entries key) + newSize) (later : Roomy key newSize s₁ s') :
    Roomy key newSize s s' := by
  obtain ⟨older, whole, needed⟩ := later.dropped
  refine ⟨⟨older ++ [e], by rw [split, whole, List.append_assoc], fun between e' rest cut => ?_⟩, later.cap.trans cap,
    later.maxBytes.trans maxBytes, later.counter, later.wrapped.trans wrapped, maxBytes ▸ later.enough⟩
  rcases List.eq_nil_or_concat rest with none | ⟨rest', last, isRest⟩
  · subst none
    obtain ⟨rfl, same⟩ := List.append_inj' cut rfl
    rw [← List.cons.inj same |>.1, ← whole, ← split]
    exact full
  · rw [isRest, List.concat_eq_append, ← List.cons_append, ← List.append_assoc] at cut
    obtain ⟨cut', -⟩ := List.append_inj' cut rfl
    exact maxBytes ▸ needed between e' rest' cut'

/-- **The loop does as it is meant**, or it comes to the entry that is to be replaced. -/
theorem makeRoom_spec (newSize fuel : Nat) (s : HashMapBackend) (long : s.entries.length < fuel) (distinct : Distinct s.entries)
    (counter : s.currentBytes = bytes (RecencyCache.others s.entries key))
    (fits : bytes (RecencyCache.others s.entries key) + newSize < 2 ^ 64) :
    (∃ s', makeRoom newSize fuel s = (.ok (), s') ∧ Roomy key newSize s s') ∨
    ∃ newer e older, s.entries = newer ++ (key, e) :: older ∧ s.maxBytes < bytes newer + newSize ∧
      0 < entrySize key e.value ∧ (makeRoom newSize fuel s).2.entries <+: newer := by
  induction fuel generalizing s with
  | zero => exact absurd long (Nat.not_lt_zero _)
  | succ fuel ih =>
    have noPanic : ¬ 2 ^ 64 ≤ s.currentBytes + newSize := by
      rw [counter]
      exact Nat.not_le.mpr fits
    rcases List.eq_nil_or_concat s.entries with empty | ⟨newer, ⟨k, e⟩, split⟩
    · exact .inl ⟨s, by rw [makeRoom_nil newSize fuel s empty, if_neg noPanic], .refl counter (.inl empty)⟩
    · rw [List.concat_eq_append] at split
      rw [makeRoom_succ newSize fuel s split, if_neg noPanic]
      by_cases full : s.maxBytes < s.currentBytes + newSize
      · rw [if_pos full]
        have full' : s.maxBytes < bytes (RecencyCache.others s.entries key) + newSize := counter ▸ full
        let s₁ : HashMapBackend :=
          count evicted (fetchSub (sizeOf (k, e)) { s with cache := { s.cache with entries := newer } })
        have shorter : s₁.entries.length < fuel := by
          have length := congrArg List.length split
          rw [List.length_append, List.length_singleton] at length
          have : s₁.entries = newer := rfl
          rw [this]
          omega
        have distinct' : Distinct s₁.entries := distinct.sublist (split ▸ List.sublist_append_left ..)
        -- what is left to count once the oldest entry is gone
        have turn : s₁.currentBytes = bytes (RecencyCache.others newer key) → s₁.wrapped = s.wrapped →
            (∃ s', makeRoom newSize fuel s₁ = (.ok (), s') ∧ Roomy key newSize s s') ∨
            ∃ newer' e' older, s.entries = newer' ++ (key, e') :: older ∧ s.maxBytes < bytes newer' + newSize ∧
              0 < entrySize key e'.value ∧ (makeRoom newSize fuel s₁).2.entries <+: newer' := by
          intro counter₁ wrapped₁
          have less : bytes (RecencyCache.others newer key) ≤ bytes (RecencyCache.others s.entries key) := by
            rw [split, others_append, bytes_append]
            exact Nat.le_add_right ..
          have fits₁ : bytes (RecencyCache.others s₁.entries key) + newSize < 2 ^ 64 :=
            lt_of_le_of_lt (Nat.add_le_add_right less newSize) fits
          rcases ih s₁ shorter distinct' counter₁ fits₁ with ⟨s', ran, roomy⟩ | ⟨newer', e', older, cut, over', some', left⟩
          · exact .inl ⟨s', ran, .of_turn (show s.entries = s₁.entries ++ [(k, e)] from split) rfl rfl wrapped₁ full' roomy⟩
          · have cut' : newer = newer' ++ (key, e') :: older := cut
            exact .inr ⟨newer', e', older ++ [(k, e)], by rw [split, cut', List.append_assoc, List.cons_append], over',
              some', left⟩
        by_cases isKey : k = key
        · subst isKey
          obtain ⟨absent, -, others, -⟩ := distinct.split split
          rw [List.append_nil] at others
          rcases Nat.eq_zero_or_pos (entrySize k e.value) with zero | positive
          · have has : s.currentBytes = bytes (RecencyCache.others newer k) + sizeOf (k, e) := by
              rw [counter, others, others_of_not_mem absent, show sizeOf (k, e) = 0 from zero, Nat.add_zero]
            obtain ⟨counter₁, wrapped₁⟩ := fetchSub_of_le
              (s := { s with cache := { s.cache with entries := newer } }) has (by rw [← has, counter]; omega)
            exact turn counter₁ wrapped₁
          · refine .inr ⟨newer, e, [], split, by rwa [others] at full', positive, ?_⟩
            exact (makeRoom_dropped newSize fuel s₁).1.pre
        · have others : RecencyCache.others s.entries key = RecencyCache.others newer key ++ [(k, e)] := by
            rw [split, others_append]
            congr 1
            exact List.filter_cons_of_pos (by simpa using isKey)
          have has : s.currentBytes = bytes (RecencyCache.others newer key) + sizeOf (k, e) := by
            rw [counter, others, bytes_append, bytes_cons]
            rfl
          obtain ⟨counter₁, wrapped₁⟩ := fetchSub_of_le
            (s := { s with cache := { s.cache with entries := newer } }) has (by rw [← has, counter]; omega)
          exact turn counter₁ wrapped₁
      · rw [if_neg full]
        exact .inl ⟨s, rfl, .refl counter (.inr (by omega))⟩

end Loop

/-! ## One call -/

/-- **The invariant of a cache that is accounted for.** -/
structure Sound (s : HashMapBackend) : Prop where
  counted : s.Counted
  distinct : Distinct s.entries
  room : s.entries.length ≤ s.cache.cap
  small : bytes s.entries < 2 ^ 64

theorem sound_new (maxBytes : Nat) : (new maxBytes).Sound :=
  ⟨⟨rfl, rfl⟩, List.nodup_nil, Nat.zero_le _, Nat.two_pow_pos 64⟩

section Calls

variable {s : HashMapBackend} {key : CacheKey}

theorem others_of_peek_none (absent : s.peek key = none) : RecencyCache.others s.entries key = s.entries :=
  others_of_lookup_none absent

theorem split_of_peek {e : CacheEntry} (found : s.peek key = some e) :
    ∃ newer older, s.entries = newer ++ (key, e) :: older := by
  obtain ⟨newer, older, split, -⟩ := split_of_lookup found
  exact ⟨newer, older, split⟩

/-! ### `set` -/

theorem uncount_spec (sound : s.Sound) (key : CacheKey) :
    (s.uncount key).entries = s.entries ∧ (s.uncount key).cache = s.cache ∧ (s.uncount key).maxBytes = s.maxBytes ∧
      (s.uncount key).currentBytes = bytes (RecencyCache.others s.entries key) ∧ (s.uncount key).wrapped = false := by
  rw [uncount]
  cases found : s.peek key with
  | none => exact ⟨rfl, rfl, rfl, by rw [others_of_peek_none found, ← sound.counted.bytes], sound.counted.wrapped⟩
  | some e =>
    have whole := sound.distinct.bytes found
    have small := sound.small
    obtain ⟨counter, wrapped⟩ := fetchSub_of_le (sound.counted.bytes.trans whole) (whole ▸ small)
    exact ⟨rfl, rfl, rfl, counter, wrapped.trans sound.counted.wrapped⟩

/-- What is put in first stays, and the others follow as far as there is room. -/
theorem entries_store (key : CacheKey) (entry : CacheEntry) (s : HashMapBackend) :
    (store key entry s).entries = ((key, entry) :: RecencyCache.others s.entries key).take s.cache.cap := rfl

theorem peek_store (key : CacheKey) (entry : CacheEntry) (s : HashMapBackend) :
    (store key entry s).peek key = some entry := by
  have positive := s.cache.pos
  obtain ⟨n, isCap⟩ : ∃ n, s.cache.cap = n + 1 := ⟨s.cache.cap - 1, by omega⟩
  have held : (store key entry s).peek key = (store key entry s).entries.lookup key := rfl
  rw [held, entries_store, isCap, List.take_succ_cons, lookup_cons_ite, if_pos (by simp)]

/-- Cut off at the capacity, the list loses its last entry or nothing. -/
theorem take_cap (distinct : Distinct s.entries) (room : s.entries.length ≤ s.cache.cap) (entry : CacheEntry) :
    ((key, entry) :: RecencyCache.others s.entries key).take s.cache.cap =
      if s.peek key = none ∧ s.entries.length = s.cache.cap then (key, entry) :: s.entries.dropLast
      else (key, entry) :: RecencyCache.others s.entries key := by
  have positive := s.cache.pos
  split
  next full =>
    rw [others_of_peek_none full.1]
    obtain ⟨n, isCap⟩ : ∃ n, s.cache.cap = n + 1 := ⟨s.cache.cap - 1, by omega⟩
    rw [isCap, List.take_succ_cons, List.dropLast_eq_take, full.2, isCap, Nat.add_sub_cancel]
  next spare =>
    refine List.take_of_length_le ?_
    rw [List.length_cons]
    cases found : s.peek key with
    | none =>
      have less : s.entries.length ≠ s.cache.cap := fun same => spare ⟨found, same⟩
      rw [others_of_peek_none found]
      omega
    | some e =>
      obtain ⟨newer, older, split⟩ := split_of_peek found
      rw [(distinct.split split).2.2.1]
      rw [split, List.length_append, List.length_cons] at room
      rw [List.length_append]
      omega

theorem bytes_monotone {es fs : Entries} (pre : es <+: fs) (key : CacheKey) :
    bytes (RecencyCache.others es key) ≤ bytes (RecencyCache.others fs key) :=
  bytes_sublist (pre.sublist.filter _)

theorem distinct_put (distinct : Distinct s.entries) (key : CacheKey) (entry : CacheEntry) :
    Distinct ((key, entry) :: RecencyCache.others s.entries key) := by
  rw [Distinct, List.map_cons]
  refine List.nodup_cons.mpr ⟨fun member => ?_, distinct.sublist List.filter_sublist⟩
  obtain ⟨e, inside, same⟩ := List.mem_map.mp member
  have differ := (List.mem_filter.mp inside).2
  rw [same] at differ
  simp at differ

/-- The entries after `set`, once there is room. -/
theorem bytes_store (sound : s.Sound) {value : CacheValue} {ttl : Option Nat} {now : Nat}
    (meets : s.SetMeets key value ttl now) {s₁ : HashMapBackend}
    (roomy : Roomy key (entrySize key value) (s.uncount key) s₁) (entry : CacheEntry) :
    bytes (((key, entry) :: RecencyCache.others s₁.entries key).take s₁.cache.cap) =
      bytes (RecencyCache.others s₁.entries key) + sizeOf (key, entry) := by
  obtain ⟨whole, sameCache, sameMax, -⟩ := uncount_spec sound key
  obtain ⟨older, split, -⟩ := roomy.dropped
  rw [whole] at split
  have cap : s₁.cache.cap = s.cache.cap := roomy.cap.trans (by rw [sameCache])
  have length := congrArg List.length split
  rw [List.length_append] at length
  have room := sound.room
  have distinct₁ : Distinct s₁.entries := sound.distinct.sublist (split ▸ List.sublist_append_left ..)
  rw [take_cap distinct₁ (by omega)]
  split_ifs with full
  · -- the cache is full, and nothing has been dropped
    have none : older = [] := List.eq_nil_of_length_eq_zero (by omega)
    subst none
    rw [List.append_nil] at split
    have absent : s.peek key = none := by
      have there := full.1
      rw [peek, show s₁.cache.entries = s.cache.entries from split.symm] at there
      exact there
    have enough := roomy.enough
    rw [others_of_peek_none full.1, ← split, sameMax] at enough
    rcases List.eq_nil_or_concat s.entries with empty | ⟨newer, last, isLast⟩
    · rw [split] at empty
      rw [empty, List.length_nil] at full
      exact absurd full.2.symm (Nat.ne_of_gt s₁.cache.pos)
    · rw [List.concat_eq_append] at isLast
      have some' : s.entries ≠ [] := isLast ▸ List.append_ne_nil_of_right_ne_nil _ (List.cons_ne_nil _ _)
      have zero := meets.room absent (enough.resolve_left some') (by rw [split, full.2, cap]) last
        (by rw [isLast, List.getLast?_concat])
      rw [others_of_peek_none full.1, ← split, isLast, List.dropLast_concat, bytes_cons, bytes_append, bytes_cons, zero,
        show bytes [] = 0 from rfl]
      omega
  · rw [bytes_cons, Nat.add_comm]

/-- **`set` under the condition** does all that is asked of it. -/
theorem setLocked_spec (sound : s.Sound) {value : CacheValue} {ttl : Option Nat} {now : Nat}
    (meets : s.SetMeets key value ttl now) (expiresAt : Option Nat) :
    ∃ s', setLocked key value expiresAt now s = (.ok (), s') ∧ s'.Sound ∧ Stores s s' key value ∧
      ∀ k e, s.peek k = some e → s'.peek k = some e ∨ k = key ∨ s.NoRoom key (entrySize key value) (k, e) := by
  obtain ⟨whole, sameCache, sameMax, counter, wrapped⟩ := uncount_spec sound key
  have long : (s.uncount key).entries.length < s.cache.entries.length + 1 := by
    rw [whole]
    exact Nat.lt_succ_self _
  rcases makeRoom_spec (entrySize key value) (s.cache.entries.length + 1) (s.uncount key) long (by rw [whole]; exact sound.distinct)
    (by rw [whole]; exact counter) (by rw [whole]; exact meets.fits) with
    ⟨s₁, ran, roomy⟩ | ⟨newer, e, older, split, tight, positive, -⟩
  · let entry : CacheEntry := { value, createdAt := now, expiresAt, accessCount := 0 }
    obtain ⟨older, split, needed⟩ := roomy.dropped
    have sum := bytes_store sound meets roomy entry
    have enough := roomy.enough
    have cap : s₁.cache.cap = s.cache.cap := roomy.cap.trans (by rw [sameCache])
    rw [whole] at split
    rw [sameMax] at needed enough
    have length := congrArg List.length split
    rw [List.length_append] at length
    have room := sound.room
    have distinct₁ : Distinct s₁.entries := sound.distinct.sublist (split ▸ List.sublist_append_left ..)
    have total : bytes (store key entry s₁).entries = s₁.currentBytes + entrySize key value := by
      rw [entries_store, sum, roomy.counter]
      rfl
    have below : s₁.currentBytes + entrySize key value < 2 ^ 64 := by
      rw [roomy.counter]
      exact lt_of_le_of_lt (Nat.add_le_add_right (bytes_monotone (split ▸ List.prefix_append ..) key) _) meets.fits
    refine ⟨store key entry s₁, by rw [setLocked, ran], ⟨⟨?_, ?_⟩, ?_, ?_, total ▸ below⟩, ⟨⟨entry, peek_store key entry s₁, rfl⟩, ?_⟩,
      fun k e found => ?_⟩
    · have after : (store key entry s₁).currentBytes = (s₁.currentBytes + entrySize key value) % 2 ^ 64 := rfl
      rw [after, total, Nat.mod_eq_of_lt below]
    · have kept : (store key entry s₁).wrapped = s₁.wrapped := rfl
      rw [kept, roomy.wrapped, wrapped]
    · exact (distinct_put distinct₁ key entry).sublist (List.take_sublist ..)
    · exact List.length_take_le ..
    · rcases enough with empty | fits
      · refine .inr ⟨(key, entry), ?_⟩
        obtain ⟨n, isCap⟩ : ∃ n, s₁.cache.cap = n + 1 := ⟨s₁.cache.cap - 1, by have := s₁.cache.pos; omega⟩
        rw [entries_store, empty, isCap, show RecencyCache.others ([] : Entries) key = [] from rfl, List.take_succ_cons,
          List.take_nil]
      · exact .inl (by rw [total, roomy.counter]; exact fits)
    · by_cases isKey : k = key
      · exact .inr (.inl isKey)
      · have there : (k, e) ∈ s₁.entries ++ older := by
          obtain ⟨before, after, cut⟩ := split_of_peek found
          rw [← split, cut]
          exact List.mem_append_right _ (.head _)
        rcases List.mem_append.mp there with kept | gone
        · by_cases full : s₁.peek key = none ∧ s₁.entries.length = s₁.cache.cap
          · have none : older = [] := List.eq_nil_of_length_eq_zero (by omega)
            rw [none, List.append_nil] at split
            have absent : s.peek key = s₁.peek key := congrArg (fun es : Entries => es.lookup key) split
            exact .inr (.inr (.inr ⟨absent.trans full.1, by rw [split, full.2, cap]⟩))
          · obtain ⟨before, after, cut⟩ := List.append_of_mem kept
            have held : (store key entry s₁).peek k = (store key entry s₁).entries.lookup k := rfl
            rw [held, entries_store, take_cap distinct₁ (by omega), if_neg full, lookup_cons_ite, if_neg (by simpa using isKey),
              lookup_others, if_neg isKey]
            exact .inl (distinct₁.split cut).2.2.2
        · obtain ⟨between, rest, cut⟩ := List.append_of_mem gone
          exact .inr (.inr (.inl ⟨s₁.entries ++ between, rest, by rw [split, cut, List.append_assoc],
            needed between (k, e) rest cut⟩))
  · rw [whole] at split
    rw [sameMax] at tight
    exact absurd (meets.replaced newer e older split tight) (Nat.ne_of_gt positive)

/-- **`set` that leaves the counter right** meets the condition. -/
theorem setMeets_of_counted (sound : s.Sound) {value : CacheValue} {expiresAt : Option Nat} {now : Nat} {s' : HashMapBackend}
    (ran : setLocked key value expiresAt now s = (.ok (), s')) (counted : s'.Counted) :
    bytes (RecencyCache.others s.entries key) + entrySize key value < 2 ^ 64 ∧
    (∀ newer e older, s.entries = newer ++ (key, e) :: older → s.maxBytes < bytes newer + entrySize key value →
      entrySize key e.value = 0) ∧
    (s.peek key = none → bytes s.entries + entrySize key value ≤ s.maxBytes → s.entries.length = s.cache.cap →
      ∀ last, s.entries.getLast? = some last → sizeOf last = 0) := by
  obtain ⟨whole, sameCache, sameMax, counter, wrapped⟩ := uncount_spec sound key
  have long : (s.uncount key).entries.length < s.cache.entries.length + 1 := by
    rw [whole]
    exact Nat.lt_succ_self _
  have fits : bytes (RecencyCache.others s.entries key) + entrySize key value < 2 ^ 64 := by
    by_contra large
    have panics : makeRoom (entrySize key value) (s.cache.entries.length + 1) (s.uncount key) = (.panic, s.uncount key) := by
      rw [makeRoom, if_pos (by rw [counter]; exact Nat.not_lt.mp large)]
    rw [setLocked, panics] at ran
    cases ran
  cases room : makeRoom (entrySize key value) (s.cache.entries.length + 1) (s.uncount key) with
  | mk outcome s₁ =>
    have isOk : outcome = .ok () ∧ store key { value, createdAt := now, expiresAt, accessCount := 0 } s₁ = s' := by
      rw [setLocked, room] at ran
      cases outcome with
      | ok u => exact ⟨rfl, (Prod.mk.inj ran).2⟩
      | err e | panic | hang => cases ran
    obtain ⟨rfl, rfl⟩ := isOk
    obtain ⟨dropped, keeps⟩ := makeRoom_dropped (entrySize key value) (s.cache.entries.length + 1) (s.uncount key)
    rw [room] at dropped keeps
    dsimp only at dropped keeps
    rw [whole, counter] at keeps
    have pre : s₁.entries <+: s.entries := whole ▸ dropped.pre
    have cap : s₁.cache.cap = s.cache.cap := dropped.cap.trans (by rw [sameCache])
    have spec := makeRoom_spec (entrySize key value) (s.cache.entries.length + 1) (s.uncount key) long
      (by rw [whole]; exact sound.distinct) (by rw [whole]; exact counter) (by rw [whole]; exact fits)
    rw [room, whole, sameMax] at spec
    have sum := counted.bytes
    rw [entries_store, cap] at sum
    refine ⟨fits, fun newer e older split tight => ?_, fun absent small full last isLast => ?_⟩
    · by_contra some'
      have size : entrySize key e.value < 2 ^ 64 := by
        have part := sound.distinct.bytes (sound.distinct.split split).2.2.2
        have small := sound.small
        omega
      by_cases gone : key ∉ s₁.entries.map Prod.fst
      · -- the entry is subtracted once more
        have shorter : s₁.entries.length < s.entries.length := by
          refine lt_of_le_of_ne pre.length_le fun same => gone ?_
          rw [pre.eq_of_length same, split, List.map_append]
          exact List.mem_append_right _ (.head _)
        have off := keeps (entrySize key e.value) (by
          rw [← sound.distinct.bytes (sound.distinct.split split).2.2.2])
        have after : (store key { value, createdAt := now, expiresAt, accessCount := 0 } s₁).currentBytes =
            (s₁.currentBytes + entrySize key value) % 2 ^ 64 := rfl
        have length := sound.room
        rw [others_of_not_mem gone, List.take_of_length_le (by rw [List.length_cons]; omega), bytes_cons, after, sizeOf] at sum
        have even : s₁.currentBytes ≡ bytes s₁.entries [MOD 2 ^ 64] := by
          refine Nat.ModEq.add_right_cancel' (entrySize key value) ?_
          refine (Nat.mod_modEq _ _).symm.trans ?_
          rw [sum, Nat.add_comm]
        have zero : entrySize key e.value ≡ 0 [MOD 2 ^ 64] :=
          Nat.ModEq.add_left_cancel' s₁.currentBytes (off.trans even.symm)
        rw [Nat.ModEq, Nat.mod_eq_of_lt size, Nat.zero_mod] at zero
        exact some' zero
      · have here := not_not.mp gone
        have absent := (sound.distinct.split split).1
        obtain ⟨⟨k, e'⟩, inside, isKey⟩ := List.mem_map.mp here
        obtain rfl : k = key := isKey
        rcases spec with ⟨s₂, ran', roomy⟩ | ⟨newer', e', older', split', -, -, left⟩
        · obtain rfl : s₁ = s₂ := (Prod.mk.inj ran').2
          obtain ⟨before, after, cut⟩ := List.append_of_mem inside
          obtain ⟨rest, longer⟩ := pre
          have same : newer = before := by
            refine split_unique absent ?_ (split.symm.trans (longer.symm.trans (by rw [cut, List.append_assoc, List.cons_append])))
            exact ((sound.distinct.sublist (longer ▸ List.sublist_append_left ..)).split cut).1
          have enough := roomy.enough
          rw [sameMax, ((sound.distinct.sublist (longer ▸ List.sublist_append_left ..)).split cut).2.2.1, cut, bytes_append,
            ← same] at enough
          rcases enough with empty | fits'
          · exact List.append_ne_nil_of_right_ne_nil _ (List.cons_ne_nil _ _) empty
          · omega
        · have absent' := (sound.distinct.split split').1
          exact absent' ((left.sublist.map Prod.fst).subset here)
    · rcases spec with ⟨s₂, ran', roomy⟩ | ⟨newer, e, older, split, -⟩
      · obtain rfl : s₁ = s₂ := (Prod.mk.inj ran').2
        obtain ⟨older, split, needed⟩ := roomy.dropped
        rw [whole] at split
        rw [sameMax] at needed
        have none : older = [] := by
          cases older with
          | nil => rfl
          | cons first rest =>
            have tight := needed [] first rest rfl
            have part : s₁.entries ++ [] ++ [first] <+: s.entries := ⟨rest, by simp [split]⟩
            have less := bytes_monotone part key
            rw [others_of_peek_none absent] at less
            omega
        subst none
        rw [List.append_nil] at split
        have absent₁ : s₁.peek key = none := by
          rw [← absent]
          exact (congrArg (fun es : Entries => es.lookup key) split).symm
        have distinct₁ : Distinct s₁.entries := split ▸ sound.distinct
        have after : (store key { value, createdAt := now, expiresAt, accessCount := 0 } s₁).currentBytes =
            (s₁.currentBytes + entrySize key value) % 2 ^ 64 := rfl
        rw [← cap, take_cap distinct₁ (by rw [← split, cap]; exact sound.room), if_pos ⟨absent₁, by rw [← split, full, cap]⟩,
          after, roomy.counter, others_of_peek_none absent₁, ← split, bytes_cons, Nat.mod_eq_of_lt
            (by rw [← others_of_peek_none absent]; exact fits)] at sum
        obtain ⟨init, isInit⟩ := List.getLast?_eq_some_iff.mp isLast
        rw [isInit, List.dropLast_concat, bytes_append, bytes_cons, show bytes [] = 0 from rfl] at sum
        have one : sizeOf (key, { value, createdAt := now, expiresAt, accessCount := 0 }) = entrySize key value := rfl
        omega
      · exact absurd ((sound.distinct.split split).2.2.2.symm.trans absent) (by simp)

/-! ### The other calls -/

theorem Sound.removed (sound : s.Sound) {e : CacheEntry} (found : s.peek key = some e) (f : CacheMetrics → CacheMetrics) :
    (count f (fetchSub (entrySize key e.value) (s.pop key))).Sound := by
  have whole := sound.distinct.bytes found
  have small := sound.small
  obtain ⟨counter, wrapped⟩ := fetchSub_of_le (s := s.pop key) (sound.counted.bytes.trans whole) (whole ▸ small)
  have left : (count f (fetchSub (entrySize key e.value) (s.pop key))).entries = RecencyCache.others s.entries key := rfl
  refine ⟨⟨counter, wrapped.trans sound.counted.wrapped⟩, ?_, ?_, ?_⟩
  · rw [left]
    exact sound.distinct.sublist List.filter_sublist
  · rw [left]
    exact (List.length_filter_le ..).trans sound.room
  · rw [left]
    omega

theorem peek_pop (s : HashMapBackend) (key k : CacheKey) : (s.pop key).peek k = if k = key then none else s.peek k :=
  lookup_others s.cache.entries key k

theorem Sound.delete (sound : s.Sound) (key : CacheKey) : (s.delete key).2.Sound := by
  rw [HashMapBackend.delete]
  cases found : s.peek key with
  | none => exact sound
  | some e => exact sound.removed found fun m => { m with deletes := m.deletes + 1 }

theorem Sound.evictKey (sound : s.Sound) (key : CacheKey) : (s.evictKey key).Sound := by
  rw [HashMapBackend.evictKey]
  cases found : s.peek key with
  | none => exact sound
  | some e => exact sound.removed found _

theorem entries_delete (s : HashMapBackend) (key : CacheKey) :
    (s.delete key).2.entries = RecencyCache.others s.entries key := by
  rw [HashMapBackend.delete]
  cases found : s.peek key with
  | none => exact (others_of_peek_none found).symm
  | some e => rfl

theorem entries_evictKey (s : HashMapBackend) (key : CacheKey) :
    (s.evictKey key).entries = RecencyCache.others s.entries key := by
  rw [HashMapBackend.evictKey]
  cases found : s.peek key with
  | none => exact (others_of_peek_none found).symm
  | some e => rfl

theorem peek_delete (s : HashMapBackend) (key k : CacheKey) :
    (s.delete key).2.peek k = if k = key then none else s.peek k :=
  (congrArg (List.lookup k) (entries_delete s key)).trans (lookup_others s.entries key k)

theorem peek_evictKey (s : HashMapBackend) (key k : CacheKey) :
    (s.evictKey key).peek k = if k = key then none else s.peek k :=
  (congrArg (List.lookup k) (entries_evictKey s key)).trans (lookup_others s.entries key k)

/-- The keys that are deleted, one after the other. -/
theorem deleteAll_spec (sound : s.Sound) (keys : List CacheKey) (n : Nat) :
    (deleteAll keys n s).2.Sound ∧ ∀ k, k ∉ keys → (deleteAll keys n s).2.peek k = s.peek k := by
  induction keys generalizing s n with
  | nil => exact ⟨sound, fun _ _ => rfl⟩
  | cons key keys ih =>
    obtain ⟨sound', kept⟩ := ih (sound.delete key) (if (s.delete key).1 then n + 1 else n)
    refine ⟨sound', fun k other => ?_⟩
    rw [deleteAll, kept k fun member => other (.tail _ member), peek_delete, if_neg fun same : k = key => other (same ▸ .head _)]

theorem evictAll_spec (sound : s.Sound) (keys : List CacheKey) :
    (keys.foldl HashMapBackend.evictKey s).Sound ∧
      ∀ k, k ∉ keys → (keys.foldl HashMapBackend.evictKey s).peek k = s.peek k := by
  induction keys generalizing s with
  | nil => exact ⟨sound, fun _ _ => rfl⟩
  | cons key keys ih =>
    obtain ⟨sound', kept⟩ := ih (sound.evictKey key)
    refine ⟨sound', fun k other => ?_⟩
    rw [List.foldl_cons, kept k fun member => other (.tail _ member), peek_evictKey,
      if_neg fun same : k = key => other (same ▸ .head _)]

/-- What `get` and `exists` leave behind. -/
def looked (key : CacheKey) (now : Nat) (s : HashMapBackend) : HashMapBackend :=
  if (s.look key now).2 then s.pop key else s

theorem look_cases (key : CacheKey) (now : Nat) (s : HashMapBackend) :
    (s.look key now = (none, false) ∧ s.peek key = none) ∨
    (∃ e, s.peek key = some e ∧ e.expired now = false ∧ s.look key now = (some e.value, false)) ∨
    ∃ e, s.peek key = some e ∧ e.expired now = true ∧ s.look key now = (none, true) := by
  rw [look]
  cases s.peek key with
  | none => exact .inl ⟨rfl, rfl⟩
  | some e =>
    cases expired : e.expired now with
    | true => exact .inr (.inr ⟨e, rfl, expired, if_pos expired⟩)
    | false => exact .inr (.inl ⟨e, rfl, expired, if_neg (by simp [expired])⟩)

theorem get_looked (key : CacheKey) (now : Nat) (s : HashMapBackend) :
    (s.get key now).2.cache = (looked key now s).cache ∧ (s.get key now).2.currentBytes = (looked key now s).currentBytes ∧
      (s.get key now).2.wrapped = (looked key now s).wrapped := by
  rw [HashMapBackend.get, looked]
  rcases look_cases key now s with ⟨look, -⟩ | ⟨e, -, -, look⟩ | ⟨e, -, -, look⟩
  · rw [look]
    exact ⟨rfl, rfl, rfl⟩
  · rw [look]
    exact ⟨rfl, rfl, rfl⟩
  · rw [look]
    exact ⟨rfl, rfl, rfl⟩

theorem looked_cases (key : CacheKey) (now : Nat) (s : HashMapBackend) :
    (looked key now s = s ∧ ∀ e, s.peek key = some e → e.expired now = false) ∨
    ∃ e, s.peek key = some e ∧ e.expired now = true ∧ looked key now s = s.pop key := by
  rw [looked]
  rcases look_cases key now s with ⟨look, none⟩ | ⟨e, found, fresh, look⟩ | ⟨e, found, expired, look⟩
  · rw [look, none]
    exact .inl ⟨rfl, nofun⟩
  · rw [look, found]
    exact .inl ⟨rfl, by rintro _ ⟨⟩; exact fresh⟩
  · rw [look]
    exact .inr ⟨e, found, expired, rfl⟩

/-- **A look** leaves the counter right exactly if what it drops has no size. -/
theorem looked_spec (sound : s.Sound) (key : CacheKey) (now : Nat) :
    ((looked key now s).Counted ↔ ∀ e, s.peek key = some e → e.expired now = true → entrySize key e.value = 0) ∧
    ((looked key now s).Counted → (looked key now s).Sound) ∧
    ∀ k e, s.peek k = some e → (looked key now s).peek k = some e ∨ k = key ∧ e.expired now = true := by
  rcases looked_cases key now s with ⟨same, fresh⟩ | ⟨e, found, expired, popped⟩
  · rw [same]
    refine ⟨⟨fun _ e found expired => ?_, fun _ => sound.counted⟩, fun _ => sound, fun k e found => .inl found⟩
    rw [fresh e found] at expired
    cases expired
  · rw [popped]
    have whole := sound.distinct.bytes found
    have small := sound.small
    have left : (s.pop key).entries = RecencyCache.others s.entries key := rfl
    have counter : (s.pop key).currentBytes = s.currentBytes := rfl
    refine ⟨⟨fun counted e' found' _ => ?_, fun zero => ?_⟩, fun counted => ⟨counted, ?_, ?_, ?_⟩, fun k e' found' => ?_⟩
    · have sum := counted.bytes
      rw [left, counter, sound.counted.bytes] at sum
      rw [found] at found'
      cases found'
      omega
    · refine ⟨?_, sound.counted.wrapped⟩
      rw [left, counter, sound.counted.bytes, whole, zero e found expired, Nat.add_zero]
    · rw [left]
      exact sound.distinct.sublist List.filter_sublist
    · rw [left]
      exact (List.length_filter_le ..).trans sound.room
    · rw [left]
      omega
    · by_cases isKey : k = key
      · subst isKey
        rw [found] at found'
        cases found'
        exact .inr ⟨rfl, expired⟩
      · exact .inl (by rw [peek_pop, if_neg isKey, found'])

end Calls

/-! ## Every call, and every run -/

section Runs

variable {s : HashMapBackend}

/-- `get` does what a look does, up to the metrics. -/
theorem counted_get (key : CacheKey) (now : Nat) (s : HashMapBackend) :
    ((s.get key now).2.Counted ↔ (looked key now s).Counted) ∧ ((looked key now s).Sound → (s.get key now).2.Sound) ∧
      ∀ k, (s.get key now).2.peek k = (looked key now s).peek k := by
  obtain ⟨cache, counter, wrapped⟩ := get_looked key now s
  have entries' : (s.get key now).2.entries = (looked key now s).entries := congrArg RecencyCache.entries cache
  have same : (s.get key now).2.Counted ↔ (looked key now s).Counted :=
    ⟨fun counted => ⟨by rw [← counter, ← entries', counted.bytes], by rw [← wrapped, counted.wrapped]⟩,
      fun counted => ⟨by rw [counter, entries', counted.bytes], by rw [wrapped, counted.wrapped]⟩⟩
  refine ⟨same, fun sound => ⟨same.mpr sound.counted, entries' ▸ sound.distinct, ?_, entries' ▸ sound.small⟩, fun k => ?_⟩
  · rw [entries', cache]
    exact sound.room
  · rw [peek, peek, cache]

theorem step_set (s : HashMapBackend) (key : CacheKey) (value : CacheValue) (ttl : Option Nat) (now : Nat) :
    (∃ d, ttl = some d ∧ instantLimit ≤ now + d ∧ s.set key value ttl now = (.panic, s)) ∨
    ∃ expiresAt, (∀ d, ttl = some d → now + d < instantLimit) ∧
      s.set key value ttl now = setLocked key value expiresAt now s := by
  cases ttl with
  | none => exact .inr ⟨none, nofun, rfl⟩
  | some d =>
    by_cases late : instantLimit ≤ now + d
    · exact .inl ⟨d, rfl, late, if_pos late⟩
    · exact .inr ⟨some (now + d), by rintro _ ⟨⟩; exact Nat.not_le.mp late, if_neg late⟩

theorem accounted_set (sound : s.Sound) (key : CacheKey) (value : CacheValue) (ttl : Option Nat) (now : Nat) :
    (s.Accounted (.set key value ttl now) ↔ s.SetMeets key value ttl now) ∧
      (s.SetMeets key value ttl now → (s.step (.set key value ttl now)).Sound) := by
  rcases step_set s key value ttl now with ⟨d, isTtl, late, panics⟩ | ⟨expiresAt, instant, locked⟩
  · constructor
    · constructor
      · intro accounted
        have ran := (accounted.set key value ttl now rfl).1
        rw [panics] at ran
        cases ran
      · exact fun meets => absurd (meets.instant d isTtl) (Nat.not_lt.mpr late)
    · exact fun meets => absurd (meets.instant d isTtl) (Nat.not_lt.mpr late)
  · have forward : s.SetMeets key value ttl now →
        s.Accounted (.set key value ttl now) ∧ (s.step (.set key value ttl now)).Sound := by
      intro meets
      obtain ⟨s', ran, sound', stores, kept⟩ := setLocked_spec sound meets expiresAt
      rw [← locked] at ran
      have after : s.step (.set key value ttl now) = s' := by rw [step, ran]
      refine ⟨⟨after ▸ sound'.counted, fun k e found => ?_, ?_⟩, after ▸ sound'⟩
      · rw [after]
        exact kept k e found
      · rintro key' value' ttl' now' ⟨⟩
        rw [ran]
        exact ⟨rfl, stores⟩
    refine ⟨⟨fun accounted => ?_, fun meets => (forward meets).1⟩, fun meets => (forward meets).2⟩
    have isOk := (accounted.set key value ttl now rfl).1
    have counted := accounted.counted
    rw [step, locked] at counted
    rw [locked] at isOk
    obtain ⟨fits, replaced, room⟩ := setMeets_of_counted sound (Prod.ext isOk rfl) counted
    exact ⟨instant, fits, replaced, room⟩

/-- **A call of a sound cache** is accounted for exactly under the condition, and then the cache stays
sound. -/
theorem accounted_call (sound : s.Sound) (op : CacheOp) :
    (s.Accounted op ↔ s.Meets op) ∧ (s.Meets op → (s.step op).Sound) := by
  cases op with
  | set key value ttl now => exact accounted_set sound key value ttl now
  | get key now =>
    obtain ⟨same, sound', peeks⟩ := counted_get key now s
    obtain ⟨exactly, stays, kept⟩ := looked_spec sound key now
    refine ⟨⟨fun accounted => exactly.mp (same.mp accounted.counted), fun meets =>
      ⟨same.mpr (exactly.mpr meets), fun k e found => ?_, nofun⟩⟩, fun meets => sound' (stays (exactly.mpr meets))⟩
    rw [step, peeks]
    exact kept k e found
  | «exists» key now =>
    obtain ⟨exactly, stays, kept⟩ := looked_spec sound key now
    exact ⟨⟨fun accounted => exactly.mp accounted.counted, fun meets => ⟨exactly.mpr meets, kept, nofun⟩⟩,
      fun meets => stays (exactly.mpr meets)⟩
  | delete key =>
    refine ⟨iff_of_true ⟨(sound.delete key).counted, fun k e found => ?_, nofun⟩ trivial, fun _ => sound.delete key⟩
    rw [step, peek_delete]
    split_ifs with same
    · exact .inr same
    · exact .inl found
  | deleteMatching pattern =>
    obtain ⟨sound', kept⟩ := deleteAll_spec sound (s.keys.filter (matchesGlob pattern)) 0
    refine ⟨iff_of_true ⟨sound'.counted, fun k e found => ?_, nofun⟩ trivial, fun _ => sound'⟩
    by_cases isMatch : matchesGlob pattern k = true
    · exact .inr isMatch
    · exact .inl ((kept k fun member => isMatch (List.mem_filter.mp member).2).trans found)
  | flush =>
    have flushed : s.flush.Sound := ⟨⟨rfl, sound.counted.wrapped⟩, List.nodup_nil, Nat.zero_le _, Nat.two_pow_pos 64⟩
    exact ⟨iff_of_true ⟨flushed.counted, fun _ _ _ => .inr trivial, nofun⟩ trivial, fun _ => flushed⟩
  | evictExpired now =>
    obtain ⟨sound', kept⟩ := evictAll_spec sound (s.expiredKeys now)
    refine ⟨iff_of_true ⟨sound'.counted, fun k e found => ?_, nofun⟩ trivial, fun _ => sound'⟩
    by_cases expired : e.expired now = true
    · exact .inr expired
    · refine .inl ((kept k fun member => expired ?_).trans found)
      obtain ⟨⟨k', e'⟩, inside, same⟩ := List.mem_map.mp member
      obtain ⟨stored, isExpired⟩ := List.mem_filter.mp inside
      obtain rfl : k' = k := same
      obtain ⟨before, after, cut⟩ := List.append_of_mem stored
      have first : s.peek k' = some e' := (sound.distinct.split cut).2.2.2
      rw [first] at found
      cases found
      exact isExpired

/-- **Every run of calls**, from an empty cache of any size. -/
theorem accounted_iff (maxBytes : Nat) (ops : List CacheOp) :
    Run.Each step Accounted (new maxBytes) ops ↔ Run.Each step Meets (new maxBytes) ops := by
  have exactly : ∀ (s : HashMapBackend) (op : CacheOp), s.Sound → (s.Accounted op ↔ s.Meets op) :=
    fun _ op sound => (accounted_call sound op).1
  have keeps : ∀ (s : HashMapBackend) (op : CacheOp), s.Sound → s.Meets op → (s.step op).Sound :=
    fun _ op sound => (accounted_call sound op).2
  exact Run.Each.iff_of_tied exactly keeps (sound_new maxBytes) ops

end Runs

/-- An entry that `get` finds expired leaves the cache and stays in the counter. -/
theorem expired_stays_counted : ¬ Run.Each step Accounted (new 1024)
    [.set "k".toList [1, 2, 3] (some 5) 0, .get "k".toList 10] := by
  rintro ⟨-, accounted, -⟩
  exact absurd accounted.counted.bytes (by decide +kernel)

end NovaRuntime.Cache.HashMapBackend
