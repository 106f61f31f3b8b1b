/-
# NovaRuntime.Cache.HashMapBackend — the in-memory cache of `backend/hashmap.rs`

The entries are a `RecencyCache`, most recently used first. Beside them goes a counter of bytes
in 64 bits, which every operation is to keep up to date by itself. An operation is made of parts,
one for each time that it takes the lock.

An instant is a number of nanoseconds. An addition that overflows panics.
-/
import NovaRuntime.Library.BoundedCache
import NovaRuntime.Library.Outcome
import NovaRuntime.Library.Text

namespace NovaRuntime.Cache

open NovaRuntime.Library

set_option autoImplicit false

/-! ## Keys and entries -/

abbrev CacheKey := Text
abbrev CacheValue := Bytes

structure CacheEntry where
  value : CacheValue
  createdAt : Nat
  expiresAt : Option Nat
  accessCount : Nat
  deriving DecidableEq

def CacheEntry.expired (e : CacheEntry) (now : Nat) : Bool := (e.expiresAt.map fun t => decide (t < now)).getD false

def matchesGlob : Text → Text → Bool
  | [], [] => true
  | '*' :: p, [] => matchesGlob p []
  | '*' :: p, c :: k => matchesGlob p (c :: k) || matchesGlob ('*' :: p) k
  | '?' :: p, _ :: k => matchesGlob p k
  | c₁ :: p, c₂ :: k => if c₁ = c₂ then matchesGlob p k else false
  | _, _ => false
termination_by p k => p.length + k.length

inductive CacheError where
  | notFound (key : Text)
  | capacityExceeded
  | serialization (msg : Text)
  | backend (msg : Text)
  | internal (msg : Text)
  deriving DecidableEq

structure CacheMetrics where
  hits : UInt64 := 0
  misses : UInt64 := 0
  evictions : UInt64 := 0
  sets : UInt64 := 0
  deletes : UInt64 := 0
  deriving DecidableEq

/-! ## The backend -/

/-- `wrapped` is not in the code: it says that some subtraction has gone below zero. -/
structure HashMapBackend where
  cache : RecencyCache CacheKey CacheEntry
  maxBytes : Nat
  currentBytes : Nat
  metrics : CacheMetrics
  wrapped : Bool

namespace HashMapBackend

def maxEntries (maxBytes : Nat) : Nat := min (max (maxBytes / 100) 100) 1000000

def new (maxBytes : Nat) : HashMapBackend :=
  { cache := { cap := maxEntries maxBytes, pos := by unfold maxEntries; omega }
    maxBytes, currentBytes := 0, metrics := {}, wrapped := false }

def entrySize (key : CacheKey) (value : CacheValue) : Nat := (utf8 key).length + value.length

def fetchSub (size : Nat) (s : HashMapBackend) : HashMapBackend :=
  { s with
    currentBytes := (s.currentBytes + (2 ^ 64 - size % 2 ^ 64)) % 2 ^ 64
    wrapped := s.wrapped || decide (s.currentBytes < size) }

def fetchAdd (size : Nat) (s : HashMapBackend) : HashMapBackend :=
  { s with currentBytes := (s.currentBytes + size) % 2 ^ 64 }

def count (f : CacheMetrics → CacheMetrics) (s : HashMapBackend) : HashMapBackend := { s with metrics := f s.metrics }

def evicted (m : CacheMetrics) : CacheMetrics := { m with evictions := m.evictions + 1 }

def peek (key : CacheKey) (s : HashMapBackend) : Option CacheEntry := s.cache.entries.lookup key

/-- `pop`, where nothing is done about the counter. -/
def pop (key : CacheKey) (s : HashMapBackend) : HashMapBackend := { s with cache := (BoundedCache.pop s.cache key).2 }

/-! ### The parts of the operations -/

/-- What `get` and `exists` see under the read lock: the value, and whether the entry has expired. -/
def look (key : CacheKey) (now : Nat) (s : HashMapBackend) : Option CacheValue × Bool :=
  match s.peek key with
  | some entry => if entry.expired now then (none, true) else (some entry.value, false)
  | none => (none, false)

/-- What `evict_expired` collects under the read lock. -/
def expiredKeys (now : Nat) (s : HashMapBackend) : List CacheKey :=
  (s.cache.entries.filter fun e => e.2.expired now).map Prod.fst

/-- One key in the loop of `evict_expired`. -/
def evictKey (s : HashMapBackend) (key : CacheKey) : HashMapBackend :=
  match s.peek key with
  | some e => count evicted (fetchSub (entrySize key e.value) (s.pop key))
  | none => s

/-- The loop of `set` over the least recently used entries. -/
def makeRoom (newSize : Nat) : Nat → HashMapBackend → Outcome CacheError Unit × HashMapBackend
  | 0, s => (.hang, s)
  | fuel + 1, s =>
    if 2 ^ 64 ≤ s.currentBytes + newSize then (.panic, s)
    else if s.maxBytes < s.currentBytes + newSize then
      match s.cache.popLru with
      | (some (key, e), cache) =>
        makeRoom newSize fuel (count evicted (fetchSub (entrySize key e.value) { s with cache }))
      | (none, _) => (.ok (), s)
    else (.ok (), s)

/-- The end of `set`. -/
def store (key : CacheKey) (entry : CacheEntry) (s : HashMapBackend) : HashMapBackend :=
  count (fun m => { m with sets := m.sets + 1 })
    (fetchAdd (entrySize key entry.value) { s with cache := BoundedCache.put s.cache key entry })

/-- The beginning of `set`: the entry that is to be replaced is not counted any more. -/
def uncount (key : CacheKey) (s : HashMapBackend) : HashMapBackend :=
  match s.peek key with
  | some existing => fetchSub (entrySize key existing.value) s
  | none => s

/-- What `set` does under the write lock. -/
def setLocked (key : CacheKey) (value : CacheValue) (expiresAt : Option Nat) (now : Nat) (s : HashMapBackend) :
    Outcome CacheError Unit × HashMapBackend :=
  let newSize := entrySize key value
  match makeRoom newSize (s.cache.entries.length + 1) (s.uncount key) with
  | (.ok (), s) => (.ok (), store key { value, createdAt := now, expiresAt, accessCount := 0 } s)
  | failed => failed

/-- An instant has its seconds in 63 bits. -/
def instantLimit : Nat := 2 ^ 63 * 10 ^ 9

/-! ### The operations -/

def get (key : CacheKey) (now : Nat) (s : HashMapBackend) : Option CacheValue × HashMapBackend :=
  match s.look key now with
  | (some value, _) => (some value, s.count fun m => { m with hits := m.hits + 1 })
  | (none, shouldEvict) =>
    (none, (if shouldEvict then s.pop key else s).count fun m => { m with misses := m.misses + 1 })

def set (key : CacheKey) (value : CacheValue) (ttl : Option Nat) (now : Nat) (s : HashMapBackend) :
    Outcome CacheError Unit × HashMapBackend :=
  match ttl with
  | some d => if instantLimit ≤ now + d then (.panic, s) else setLocked key value (some (now + d)) now s
  | none => setLocked key value none now s

def delete (key : CacheKey) (s : HashMapBackend) : Bool × HashMapBackend :=
  match s.peek key with
  | some entry =>
    (true, count (fun m => { m with deletes := m.deletes + 1 }) (fetchSub (entrySize key entry.value) (s.pop key)))
  | none => (false, s)

def «exists» (key : CacheKey) (now : Nat) (s : HashMapBackend) : Bool × HashMapBackend :=
  let (found, shouldEvict) := s.look key now
  (found.isSome, if shouldEvict then s.pop key else s)

def flush (s : HashMapBackend) : HashMapBackend :=
  { s with cache := { s.cache with entries := [] }, currentBytes := 0 }

def evictExpired (now : Nat) (s : HashMapBackend) : HashMapBackend := (s.expiredKeys now).foldl evictKey s

def keys (s : HashMapBackend) : List CacheKey := s.cache.entries.map Prod.fst

/-- The keys that match are deleted one by one. -/
def deleteAll : List CacheKey → Nat → HashMapBackend → Nat × HashMapBackend
  | [], count, s => (count, s)
  | key :: rest, count, s =>
    let done := s.delete key
    deleteAll rest (if done.1 then count + 1 else count) done.2

def deleteMatching (pattern : Text) (s : HashMapBackend) : Nat × HashMapBackend :=
  deleteAll (s.keys.filter (matchesGlob pattern)) 0 s

end HashMapBackend

end NovaRuntime.Cache
