/-
# NovaRuntime.Executor.RateLimiter — buckets for users, addresses and operations

`nova_executor::rate_limiter`. Numbers are exact, and instants are seconds of one clock. A
check reads the clock once. Where a map is full, `iter().next()` chooses the entry that
goes; which one that is depends on how the map hashes, and comes with the check.
-/
import Mathlib.Algebra.Order.Field.Rat
import NovaRuntime.Executor.Types
import NovaRuntime.Library.TokenBucket

namespace NovaRuntime.Executor

open NovaRuntime.Library

set_option autoImplicit false

inductive IpAddr where
  | v4 (octets : BitVec 32)
  | v6 (octets : BitVec 128)
  deriving DecidableEq

/-- So many a second, and so many at once. -/
structure Rate where
  perSec : ℚ
  burst : ℚ
  perSec_nonneg : 0 ≤ perSec
  burst_nonneg : 0 ≤ burst

/-- A full bucket. -/
def Rate.bucket (rate : Rate) (now : ℚ) : TokenBucket ℚ :=
  .new rate.perSec rate.burst rate.perSec_nonneg rate.burst_nonneg now

structure RateLimitConfig where
  global : Rate
  user : Rate
  ip : Rate
  critical : Rate
  maxTrackedUsers : Nat
  maxTrackedIps : Nat
  operationLimits : List (OperationType × { rate : ℚ // 0 ≤ rate })

/-- What `check` reads of a context and of its request. -/
structure Caller where
  userId : Option (BitVec 128)
  ip : IpAddr
  operationType : OperationType
  /-- `Priority::Critical`. -/
  critical : Bool
  deriving DecidableEq

/-- Where the iteration over a full map begins. -/
structure Order where
  users : Nat
  ips : Nat
  deriving DecidableEq

/-- The rate of an operation, with a burst of two seconds and at least a hundred. -/
def RateLimitConfig.operation (config : RateLimitConfig) (op : OperationType) : Rate :=
  let rate := (config.operationLimits.lookup op).getD ⟨1000, by norm_num⟩
  ⟨rate, max (rate * 2) 100, rate.2, le_max_of_le_right (by norm_num)⟩

/-! ## Maps of buckets -/

abbrev Buckets (K : Type) := List (K × TokenBucket ℚ)

/-- `try_consume(1.0)`. -/
def tryConsume (bucket : TokenBucket ℚ) (now : ℚ) : TokenBucket ℚ × Bool := bucket.consume 1 now (by norm_num)

namespace Buckets

variable {K : Type} [DecidableEq K] (buckets : Buckets K)

/-- The bucket of a key, a full one if it has none. -/
def bucket (rate : Rate) (now : ℚ) (key : K) : TokenBucket ℚ := (buckets.lookup key).getD (rate.bucket now)

def set (key : K) (bucket : TokenBucket ℚ) : Buckets K := (key, bucket) :: buckets.filter fun e => e.1 != key

/-- `remove`, of the key that `iter().next()` gives. -/
def evict (first : Nat) : Buckets K :=
  match buckets[first % buckets.length]? with
  | some victim => buckets.filter fun e => e.1 != victim.1
  | none => buckets

/-- The key has its bucket, or there is room for one. -/
def roomy (maxTracked : Nat) (key : K) : Bool := (buckets.lookup key).isSome || buckets.length < maxTracked

/-- `get_or_create_user_bucket` and `get_or_create_ip_bucket`, and `try_consume`. -/
def ask (maxTracked first : Nat) (rate : Rate) (now : ℚ) (key : K) : Buckets K × Bool :=
  let asked := tryConsume (buckets.bucket rate now key) now
  ((if buckets.roomy maxTracked key then buckets else buckets.evict first).set key asked.1, asked.2)

end Buckets

structure RateLimiter where
  global : TokenBucket ℚ
  perUser : Buckets (BitVec 128)
  perIp : Buckets IpAddr
  perOperation : Buckets OperationType
  critical : TokenBucket ℚ
  hits : Nat
  waived : Nat

namespace RateLimiter

variable (config : RateLimitConfig)

def new (now : ℚ) : RateLimiter where
  global := config.global.bucket now
  perUser := []
  perIp := []
  perOperation := config.operationLimits.map fun e => (e.1, (config.operation e.1).bucket now)
  critical := config.critical.bucket now
  hits := 0
  waived := 0

variable (l : RateLimiter) (now : ℚ)

def hit : RateLimiter := { l with hits := l.hits + 1 }

/-- The step of `check` that asks a bucket. -/
def checkGlobal : RateLimiter × Bool :=
  let asked := tryConsume l.global now
  ({ l with global := asked.1 }, asked.2)

def checkUser (order : Order) : Option (BitVec 128) → RateLimiter × Bool
  | none => (l, true)
  | some userId =>
    let asked := l.perUser.ask config.maxTrackedUsers order.users config.user now userId
    ({ l with perUser := asked.1 }, asked.2)

def checkIp (order : Order) (ip : IpAddr) : RateLimiter × Bool :=
  let asked := l.perIp.ask config.maxTrackedIps order.ips config.ip now ip
  ({ l with perIp := asked.1 }, asked.2)

/-- The map of the operations is not bounded. -/
def checkOperation (op : OperationType) : RateLimiter × Bool :=
  let asked := tryConsume (l.perOperation.bucket (config.operation op) now op) now
  ({ l with perOperation := l.perOperation.set op asked.1 }, asked.2)

/-- A critical operation is let through without a token, too. -/
def checkCritical (critical : Bool) : RateLimiter :=
  if critical then
    let asked := tryConsume l.critical now
    { l with critical := asked.1, waived := if asked.2 then l.waived else l.waived + 1 }
  else l

/-- `check`: whether the request is admitted. -/
def check (order : Order) (caller : Caller) : RateLimiter × Bool :=
  let asked := l.checkGlobal now
  if asked.2 then
    let asked := asked.1.checkUser config now order caller.userId
    if asked.2 then
      let asked := asked.1.checkIp config now order caller.ip
      if asked.2 then
        let asked := asked.1.checkOperation config now caller.operationType
        if asked.2 then (asked.1.checkCritical now caller.critical, true) else (asked.1.hit, false)
      else (asked.1.hit, false)
    else (asked.1.hit, false)
  else (asked.1.hit, false)

end RateLimiter

end NovaRuntime.Executor
