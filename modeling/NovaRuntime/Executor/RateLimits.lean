/-
# NovaRuntime.Executor.RateLimits — whether callers are limited by themselves alone

A `Meter` writes down when users and addresses were admitted. As long as no bucket is taken
out of a full map, nobody is admitted more often than the burst and the rate allow, whatever
the others do. A check that is rejected by a bucket behind the global one has taken a global
token by then, which others miss: rejected checks take nothing exactly in the runs in which
the global bucket is the only one to reject (`limits_hold`).
-/
import NovaRuntime.Executor.RateLimiter
import NovaRuntime.Library.Entries
import NovaRuntime.Library.Runs

namespace NovaRuntime.Executor

open NovaRuntime.Library

set_option autoImplicit false

/-! ## A map of buckets -/

theorem Rate.bucket_level (rate : Rate) (start now : ℚ) : (rate.bucket start).level now = rate.burst :=
  TokenBucket.level_new

/-- The bucket is one of this rate, last looked at in the past. -/
structure Rate.Fits (rate : Rate) (now : ℚ) (b : TokenBucket ℚ) : Prop where
  capacity : b.capacity = rate.burst
  rate : b.rate = rate.perSec
  last : b.last ≤ now

theorem Rate.fits_bucket (rate : Rate) (now : ℚ) : rate.Fits now (rate.bucket now) := ⟨rfl, rfl, le_rfl⟩

theorem Rate.Fits.wait {rate : Rate} {now later : ℚ} {b : TokenBucket ℚ} (fits : rate.Fits now b) (order : now ≤ later) :
    rate.Fits later b := ⟨fits.capacity, fits.rate, le_trans fits.last order⟩

section

variable {rate : Rate} {now later : ℚ} {b : TokenBucket ℚ}

theorem tryConsume_snd : (tryConsume b now).2 = true ↔ 1 ≤ b.level now := TokenBucket.consume_snd

theorem Rate.Fits.consume (fits : rate.Fits now b) : rate.Fits now (tryConsume b now).1 where
  capacity := TokenBucket.consume_capacity.trans fits.capacity
  rate := TokenBucket.consume_rate.trans fits.rate
  last := le_of_eq (TokenBucket.consume_last.trans (max_eq_right fits.last))

/-- A token that is taken is missing. -/
theorem tryConsume_taken (early : b.last ≤ now) (taken : (tryConsume b now).2 = true) :
    (tryConsume b now).1.level now = b.level now - 1 :=
  TokenBucket.level_consume early (tryConsume_snd.mp taken)

end

namespace Buckets

variable {K : Type} [DecidableEq K] {buckets : Buckets K} {rateOf : K → Rate} {now later : ℚ} {key k : K}

/-- **A map of buckets** of these rates. -/
def Fits (rateOf : K → Rate) (now : ℚ) (buckets : Buckets K) : Prop :=
  ∀ key b, buckets.lookup key = some b → (rateOf key).Fits now b

theorem Fits.wait (fits : Fits rateOf now buckets) (order : now ≤ later) : Fits rateOf later buckets :=
  fun key b known => (fits key b known).wait order

theorem Fits.bucket (fits : Fits rateOf now buckets) (key : K) :
    (rateOf key).Fits now (buckets.bucket (rateOf key) now key) := by
  rw [Buckets.bucket]
  cases known : buckets.lookup key with
  | none => exact (rateOf key).fits_bucket now
  | some b => exact fits key b known

/-- The level of a key: a key without a bucket has a full one. -/
def level (rateOf : K → Rate) (buckets : Buckets K) (key : K) (now : ℚ) : ℚ :=
  (buckets.bucket (rateOf key) 0 key).level now

/-- Only the buckets that are there count. -/
theorem level_bucket (start : ℚ) : (buckets.bucket (rateOf key) start key).level now = level rateOf buckets key now := by
  rw [level, Buckets.bucket, Buckets.bucket]
  cases buckets.lookup key with
  | none => exact (Rate.bucket_level _ _ _).trans (Rate.bucket_level _ _ _).symm
  | some b => rfl

theorem lookup_set (b : TokenBucket ℚ) :
    (buckets.set key b).lookup k = if k = key then some b else buckets.lookup k := by
  rw [set, lookup_cons_ite, lookup_filter_key (fun other => other != key)]
  by_cases same : k = key <;> simp [same]

theorem lookup_evict (first : Nat) :
    (buckets.evict first).lookup k = buckets.lookup k ∨ (buckets.evict first).lookup k = none := by
  rw [evict]
  split
  next victim _ =>
    rw [lookup_filter_key (fun other => other != victim.1)]
    split
    · exact .inl rfl
    · exact .inr rfl
  next => exact .inl rfl

theorem Fits.evict (fits : Fits rateOf now buckets) (first : Nat) : Fits rateOf now (buckets.evict first) := by
  intro k b known
  rcases buckets.lookup_evict (k := k) first with same | gone
  · exact fits k b (same ▸ known)
  · rw [gone] at known
    cases known

theorem Fits.set (fits : Fits rateOf now buckets) {b : TokenBucket ℚ} (here : (rateOf key).Fits now b) :
    Fits rateOf now (buckets.set key b) := by
  intro k b' known
  rw [lookup_set] at known
  split at known
  next same =>
    cases known
    exact same ▸ here
  next => exact fits k b' known

theorem bucket_set_self (b : TokenBucket ℚ) (rate : Rate) (start : ℚ) :
    (buckets.set key b).bucket rate start key = b := by
  rw [Buckets.bucket, lookup_set, if_pos rfl]
  rfl

theorem bucket_set_other (b : TokenBucket ℚ) (rate : Rate) (start : ℚ) (other : k ≠ key) :
    (buckets.set key b).bucket rate start k = buckets.bucket rate start k := by
  rw [Buckets.bucket, lookup_set, if_neg other]
  rfl

/-! ### Asking for a token -/

section

variable {maxTracked first : Nat}

theorem ask_snd (rateOf : K → Rate) (maxTracked first : Nat) : (buckets.ask maxTracked first (rateOf key) now key).2 = true ↔ 1 ≤ level rateOf buckets key now :=
  tryConsume_snd.trans (by rw [level_bucket])

theorem Fits.ask (fits : Fits rateOf now buckets) : Fits rateOf now (buckets.ask maxTracked first (rateOf key) now key).1 := by
  rw [Buckets.ask]
  refine Fits.set ?_ (fits.bucket key).consume
  split
  · exact fits
  · exact fits.evict first

/-- While there is room the others keep their buckets. -/
theorem ask_bucket_other (roomy : buckets.roomy maxTracked key) (rate rate' : Rate) (start : ℚ) (other : k ≠ key) :
    (buckets.ask maxTracked first rate now key).1.bucket rate' start k = buckets.bucket rate' start k := by
  rw [Buckets.ask, if_pos roomy, bucket_set_other _ _ _ other]

theorem ask_bucket_self (rate rate' : Rate) (start : ℚ) :
    (buckets.ask maxTracked first rate now key).1.bucket rate' start key =
      (tryConsume (buckets.bucket rate now key) now).1 := by
  rw [Buckets.ask, bucket_set_self]

end

end Buckets

/-! ## What a caller was admitted -/

/-- So often in every interval, ends included. -/
def Bounded (rate : Rate) (times : List ℚ) : Prop :=
  ∀ a b, a ≤ b → (times.countP (fun t => a ≤ t ∧ t ≤ b) : ℚ) ≤ rate.burst + (b - a) * rate.perSec

/-- **A bucket and the admissions it has let through.** -/
structure Accounted (b : TokenBucket ℚ) (times : List ℚ) (now : ℚ) : Prop where
  past : ∀ t ∈ times, t ≤ now
  spent : ∀ since, since ≤ now → b.Spent since now (times.countP fun t => since ≤ t)

section

variable {rate : Rate} {b : TokenBucket ℚ} {times : List ℚ} {now later : ℚ}

theorem countP_since_eq_zero (past : ∀ t ∈ times, t ≤ now) {since : ℚ} (later : now < since) :
    times.countP (fun t => since ≤ t) = 0 :=
  List.countP_eq_zero.mpr fun t member => by
    rw [decide_eq_true_eq, not_le]
    exact lt_of_le_of_lt (past t member) later

theorem Accounted.wait (accounted : Accounted b times now) (order : now ≤ later) : Accounted b times later := by
  refine ⟨fun t member => le_trans (accounted.past t member) order, fun since before => ?_⟩
  rcases le_or_gt since now with early | late
  · exact (accounted.spent since early).wait order
  · rw [countP_since_eq_zero accounted.past late, Nat.cast_zero]
    exact .start before

theorem accounted_nil (b : TokenBucket ℚ) (now : ℚ) : Accounted b [] now :=
  ⟨nofun, fun _ before => by
    rw [List.countP_nil, Nat.cast_zero]
    exact .start before⟩

/-- Full buckets of one rate account for the same. -/
theorem Accounted.full {start : ℚ} (accounted : Accounted (rate.bucket start) times now) (start' : ℚ) :
    Accounted (rate.bucket start') times now := by
  refine ⟨accounted.past, fun since before => ?_⟩
  have spent := accounted.spent since before
  rw [TokenBucket.Spent, Rate.bucket_level] at spent ⊢
  exact spent

theorem Accounted.refused (accounted : Accounted b times now) (early : b.last ≤ now)
    (refused : (tryConsume b now).2 = false) : Accounted (tryConsume b now).1 times now := by
  have short : b.level now < 1 := by
    by_contra enough
    rw [tryConsume_snd.mpr (not_lt.mp enough)] at refused
    cases refused
  refine ⟨accounted.past, fun since before => ?_⟩
  rw [tryConsume, TokenBucket.consume_short short]
  exact (accounted.spent since before).refill early

/-- **An admission** is a token less. -/
theorem Accounted.admitted (accounted : Accounted b times now) (early : b.last ≤ now)
    (taken : (tryConsume b now).2 = true) : Accounted (tryConsume b now).1 (now :: times) now := by
  refine ⟨List.forall_mem_cons.mpr ⟨le_rfl, accounted.past⟩, fun since before => ?_⟩
  rw [List.countP_cons, if_pos (decide_eq_true before), Nat.cast_succ]
  exact (accounted.spent since before).consume early (tryConsume_snd.mp taken)

theorem Accounted.tail {t : ℚ} (accounted : Accounted b (t :: times) now) : Accounted b times now :=
  ⟨fun t' member => accounted.past t' (.tail _ member), fun since before =>
    (accounted.spent since before).less (Nat.cast_le.mpr (List.sublist_cons_self ..).countP_le)⟩

/-- **The bound** grows with every admission that is accounted for. -/
theorem Bounded.cons (bounded : Bounded rate times) (fits : rate.Fits now b) (accounted : Accounted b (now :: times) now) :
    Bounded rate (now :: times) := by
  intro lo hi order
  rcases lt_or_ge hi now with before | after
  · rw [List.countP_cons_of_neg (by simp [before])]
    exact bounded lo hi order
  · have most : ((now :: times).countP fun t => lo ≤ t ∧ t ≤ hi) ≤ (now :: times).countP fun t => lo ≤ t :=
      List.countP_mono_left fun t _ inside => decide_eq_true (of_decide_eq_true inside).1
    have gain : 0 ≤ (hi - now) * rate.perSec := mul_nonneg (sub_nonneg.mpr after) rate.perSec_nonneg
    rcases le_or_gt lo now with early | late
    · have bound := (accounted.spent lo early).bound
      rw [fits.capacity, fits.rate] at bound
      have total : (now - lo) * rate.perSec + (hi - now) * rate.perSec = (hi - lo) * rate.perSec := by ring
      have cast : (((now :: times).countP fun t => lo ≤ t ∧ t ≤ hi : ℕ) : ℚ) ≤
          ((now :: times).countP fun t => lo ≤ t : ℕ) := Nat.cast_le.mpr most
      linarith
    · have none_since := countP_since_eq_zero accounted.past late
      rw [none_since] at most
      rw [Nat.le_zero.mp most, Nat.cast_zero]
      exact add_nonneg rate.burst_nonneg (mul_nonneg (sub_nonneg.mpr order) rate.perSec_nonneg)

end

namespace Buckets

variable {K : Type} [DecidableEq K] {buckets : Buckets K} {rate : Rate} {now later : ℚ} {times : K → List ℚ}

/-- Every key is accounted for. -/
def Accounts (rate : Rate) (now : ℚ) (buckets : Buckets K) (times : K → List ℚ) : Prop :=
  ∀ key, Accounted (buckets.bucket rate now key) (times key) now

theorem Accounts.wait (accounts : Accounts rate now buckets times) (order : now ≤ later) :
    Accounts rate later buckets times := by
  intro key
  have accounted := (accounts key).wait order
  rw [Buckets.bucket] at accounted ⊢
  cases known : buckets.lookup key with
  | none =>
    rw [known] at accounted
    exact accounted.full later
  | some b =>
    rw [known] at accounted
    exact accounted

variable {maxTracked first : Nat} {key : K}

section

variable (fits : Fits (fun _ => rate) now buckets)
  (accounts : Accounts rate now buckets times)
  (roomy : buckets.roomy maxTracked key)

include fits accounts roomy

/-- **Asking for a token**, whatever becomes of the check that asks. -/
theorem Accounts.ask : Accounts rate now (buckets.ask maxTracked first rate now key).1 times := by
  intro k
  by_cases same : k = key
  · rw [same, ask_bucket_self]
    have early := (fits.bucket key).last
    cases asked : (tryConsume (buckets.bucket rate now key) now).2 with
    | true => exact ((accounts key).admitted early asked).tail
    | false => exact (accounts key).refused early asked
  · rw [ask_bucket_other roomy rate rate now same]
    exact accounts k

theorem Accounts.admitted (taken : (buckets.ask maxTracked first rate now key).2 = true) :
    Accounts rate now (buckets.ask maxTracked first rate now key).1
      (fun k => if k = key then now :: times k else times k) := by
  intro k
  by_cases same : k = key
  · dsimp only
    rw [if_pos same, same, ask_bucket_self]
    exact (accounts key).admitted (fits.bucket key).last taken
  · dsimp only
    rw [if_neg same, ask_bucket_other roomy rate rate now same]
    exact accounts k

end

end Buckets

namespace RateLimiter

inductive BucketName where
  | global
  | user (userId : BitVec 128)
  | ip (ip : IpAddr)
  | operation (op : OperationType)
  | critical
  deriving DecidableEq

/-- The level of every bucket there is or would be. -/
def level (config : RateLimitConfig) (l : RateLimiter) : BucketName → ℚ → ℚ
  | .global => l.global.level
  | .user userId => Buckets.level (fun _ => config.user) l.perUser userId
  | .ip ip => Buckets.level (fun _ => config.ip) l.perIp ip
  | .operation op => Buckets.level config.operation l.perOperation op
  | .critical => l.critical.level

/-- The caller's own buckets have a token. -/
structure Passes (config : RateLimitConfig) (l : RateLimiter) (now : ℚ) (caller : Caller) : Prop where
  user : ∀ userId ∈ caller.userId, 1 ≤ l.level config (.user userId) now
  ip : 1 ≤ l.level config (.ip caller.ip) now
  operation : 1 ≤ l.level config (.operation caller.operationType) now

section

variable (config : RateLimitConfig) (l : RateLimiter) (now : ℚ) (order : Order)

theorem checkGlobal_snd : (l.checkGlobal now).2 = true ↔ 1 ≤ l.level config .global now := tryConsume_snd

theorem checkUser_snd (userId : Option (BitVec 128)) :
    (l.checkUser config now order userId).2 = true ↔ ∀ u ∈ userId, 1 ≤ l.level config (.user u) now := by
  cases userId with
  | none => exact iff_of_true rfl (by rintro _ ⟨⟩)
  | some u =>
    refine (Buckets.ask_snd (fun _ => config.user) config.maxTrackedUsers order.users).trans ⟨?_, fun all => all u rfl⟩
    rintro enough _ ⟨⟩
    exact enough

theorem checkIp_snd (ip : IpAddr) :
    (l.checkIp config now order ip).2 = true ↔ 1 ≤ l.level config (.ip ip) now :=
  Buckets.ask_snd (fun _ => config.ip) config.maxTrackedIps order.ips

theorem checkOperation_snd (op : OperationType) :
    (l.checkOperation config now op).2 = true ↔ 1 ≤ l.level config (.operation op) now :=
  tryConsume_snd.trans (by rw [Buckets.level_bucket]; rfl)

/-- A stage changes its own map alone. -/
theorem checkUser_perIp (userId : Option (BitVec 128)) : (l.checkUser config now order userId).1.perIp = l.perIp := by
  cases userId <;> rfl

theorem checkUser_perOperation (userId : Option (BitVec 128)) :
    (l.checkUser config now order userId).1.perOperation = l.perOperation := by
  cases userId <;> rfl

theorem checkUser_global (userId : Option (BitVec 128)) : (l.checkUser config now order userId).1.global = l.global := by
  cases userId <;> rfl

theorem checkIp_perOperation (ip : IpAddr) : (l.checkIp config now order ip).1.perOperation = l.perOperation := rfl

/-- **A check is admitted** when the global bucket and those of the caller have a token. -/
theorem check_snd (caller : Caller) : (l.check config now order caller).2 = true ↔
    1 ≤ l.level config .global now ∧ l.Passes config now caller := by
  have user := checkUser_snd config (l.checkGlobal now).1 now order caller.userId
  have ip := checkIp_snd config ((l.checkGlobal now).1.checkUser config now order caller.userId).1 now order caller.ip
  have op := checkOperation_snd config
    (((l.checkGlobal now).1.checkUser config now order caller.userId).1.checkIp config now order caller.ip).1 now
    caller.operationType
  rw [level, checkUser_perIp] at ip
  rw [level, checkIp_perOperation, checkUser_perOperation] at op
  rw [← checkGlobal_snd, check]
  dsimp only
  split
  next global =>
    rw [and_iff_right global]
    split
    next user_ok =>
      split
      next ip_ok =>
        split
        next op_ok => exact iff_of_true rfl ⟨user.mp user_ok, ip.mp ip_ok, op.mp op_ok⟩
        next refused => exact iff_of_false Bool.false_ne_true fun passes => refused (op.mpr passes.operation)
      next refused => exact iff_of_false Bool.false_ne_true fun passes => refused (ip.mpr passes.ip)
    next refused => exact iff_of_false Bool.false_ne_true fun passes => refused (user.mpr passes.user)
  next refused => exact iff_of_false Bool.false_ne_true fun both => refused both.1

/-! ### What a check changes -/

theorem checkCritical_frame (critical : Bool) : (l.checkCritical now critical).global = l.global ∧
    (l.checkCritical now critical).perUser = l.perUser ∧ (l.checkCritical now critical).perIp = l.perIp := by
  cases critical <;> exact ⟨rfl, rfl, rfl⟩

/-- Whatever comes of a check, it has asked the global bucket. -/
theorem check_global (caller : Caller) : (l.check config now order caller).1.global = (tryConsume l.global now).1 := by
  rw [check]
  dsimp only
  split
  · split
    · split
      · split
        · exact (checkCritical_frame _ _ _).1.trans (checkUser_global ..)
        · exact checkUser_global ..
      · exact checkUser_global ..
    · exact checkUser_global ..
  · rfl

theorem checkUser_perUser (userId : Option (BitVec 128)) :
    ((l.checkGlobal now).1.checkUser config now order userId).1.perUser =
      (l.checkUser config now order userId).1.perUser := by
  cases userId <;> rfl

theorem check_perUser (caller : Caller) : (l.check config now order caller).1.perUser =
    if (l.checkGlobal now).2 then (l.checkUser config now order caller.userId).1.perUser else l.perUser := by
  rw [check]
  dsimp only
  split
  · rw [← checkUser_perUser]
    split
    · split
      · split
        · exact (checkCritical_frame _ _ _).2.1
        · rfl
      · rfl
    · rfl
  · rfl

theorem check_perIp (caller : Caller) : (l.check config now order caller).1.perIp =
    if (l.checkGlobal now).2 ∧ ((l.checkGlobal now).1.checkUser config now order caller.userId).2 then
      (l.perIp.ask config.maxTrackedIps order.ips config.ip now caller.ip).1
    else l.perIp := by
  rw [check]
  dsimp only
  by_cases global : (l.checkGlobal now).2 = true
  · rw [if_pos global]
    by_cases user : ((l.checkGlobal now).1.checkUser config now order caller.userId).2 = true
    · rw [if_pos user, if_pos (And.intro global user)]
      have asked : (((l.checkGlobal now).1.checkUser config now order caller.userId).1.checkIp config now order
          caller.ip).1.perIp = (l.perIp.ask config.maxTrackedIps order.ips config.ip now caller.ip).1 := by
        rw [checkIp, checkUser_perIp]
        rfl
      split
      · split
        · exact (checkCritical_frame _ _ _).2.2.trans asked
        · exact asked
      · exact asked
    · rw [if_neg user, if_neg fun both => user both.2]
      exact checkUser_perIp ..
  · rw [if_neg global, if_neg fun both => global both.1]
    rfl

/-- A check that the global bucket rejects looks at no other. -/
theorem check_rejected (caller : Caller) (rejected : ¬ 1 ≤ l.level config .global now) :
    l.check config now order caller = ((l.checkGlobal now).1.hit, false) := by
  rw [check]
  exact if_neg fun global => rejected ((checkGlobal_snd config l now).mp global)

/-! ### Later checks -/

/-- Other counters. -/
def recount (l : RateLimiter) (hits waived : Nat) : RateLimiter := { l with hits, waived }

/-- The counters are not read. -/
theorem check_recount (caller : Caller) (hits waived : Nat) :
    ∃ hits' waived', (l.recount hits waived).check config now order caller =
      ((l.check config now order caller).1.recount hits' waived', (l.check config now order caller).2) := by
  have global : (l.recount hits waived).checkGlobal now =
      ((l.checkGlobal now).1.recount hits waived, (l.checkGlobal now).2) := rfl
  have user (l : RateLimiter) (userId : Option (BitVec 128)) :
      (l.recount hits waived).checkUser config now order userId =
        ((l.checkUser config now order userId).1.recount hits waived, (l.checkUser config now order userId).2) := by
    cases userId <;> rfl
  have ip (l : RateLimiter) (ip : IpAddr) : (l.recount hits waived).checkIp config now order ip =
      ((l.checkIp config now order ip).1.recount hits waived, (l.checkIp config now order ip).2) := rfl
  have operation (l : RateLimiter) (op : OperationType) : (l.recount hits waived).checkOperation config now op =
      ((l.checkOperation config now op).1.recount hits waived, (l.checkOperation config now op).2) := rfl
  rw [check, check]
  simp only [global, user, ip, operation]
  split_ifs
  · cases caller.critical
    · exact ⟨hits, waived, rfl⟩
    · exact ⟨hits, _, rfl⟩
  all_goals exact ⟨_, waived, rfl⟩

end

/-- A check, so long after the last one. -/
structure RateCheck where
  wait : ℚ
  order : Order
  caller : Caller
  wait_nonneg : 0 ≤ wait

/-- The answers to a run of checks. -/
def answers (config : RateLimitConfig) : RateLimiter → ℚ → List RateCheck → List Bool
  | _, _, [] => []
  | l, now, c :: cs =>
    (l.check config (now + c.wait) c.order c.caller).2 ::
      answers config (l.check config (now + c.wait) c.order c.caller).1 (now + c.wait) cs

theorem answers_recount (config : RateLimitConfig) (l : RateLimiter) (hits waived : Nat) (now : ℚ)
    (cs : List RateCheck) : answers config (l.recount hits waived) now cs = answers config l now cs := by
  induction cs generalizing l hits waived now with
  | nil => rfl
  | cons c cs ih =>
    obtain ⟨hits', waived', same⟩ := check_recount config l (now + c.wait) c.order c.caller hits waived
    rw [answers, answers, same, ih]

/-- A look at the global bucket is not noticed. -/
theorem answers_refilled (config : RateLimitConfig) {l : RateLimiter} {now : ℚ} (early : l.global.last ≤ now)
    (cs : List RateCheck) :
    answers config { l with global := l.global.refill now } now cs = answers config l now cs := by
  cases cs with
  | nil => rfl
  | cons c cs =>
    have asked : ({ l with global := l.global.refill now } : RateLimiter).checkGlobal (now + c.wait) =
        l.checkGlobal (now + c.wait) := by
      rw [checkGlobal, checkGlobal, tryConsume, tryConsume,
        TokenBucket.consume_refill early (le_add_of_nonneg_right c.wait_nonneg)]
    have same : ({ l with global := l.global.refill now } : RateLimiter).check config (now + c.wait) c.order c.caller =
        l.check config (now + c.wait) c.order c.caller := by
      rw [check, check, asked]
    rw [answers, answers, same]

/-- **A rejected check takes nothing**: every bucket has what it would have without it, and
every later check is answered as without it. -/
structure Unnoticed (config : RateLimitConfig) (now : ℚ) (l l' : RateLimiter) : Prop where
  tokens : ∀ name later, now ≤ later → l'.level config name later = l.level config name later
  answers : ∀ cs, answers config l' now cs = answers config l now cs

/-- **Only the global bucket rejects without taking.** -/
theorem unnoticed_iff (config : RateLimitConfig) {l : RateLimiter} {now : ℚ} (early : l.global.last ≤ now)
    (order : Order) (caller : Caller) :
    ((l.check config now order caller).2 = false → Unnoticed config now l (l.check config now order caller).1) ↔
      (1 ≤ l.level config .global now → l.Passes config now caller) := by
  constructor
  · intro harmless global
    by_contra fails
    have rejected : (l.check config now order caller).2 = false :=
      Bool.eq_false_iff.mpr fun admitted => fails ((check_snd config l now order caller).mp admitted).2
    have same := (harmless rejected).tokens .global now (le_rfl)
    rw [level, check_global, tryConsume_taken early (tryConsume_snd.mpr global)] at same
    have : l.global.level now = l.level config .global now := rfl
    linarith
  · intro passes rejected
    have refused : ¬ 1 ≤ l.level config .global now := fun global => by
      rw [(check_snd config l now order caller).mpr ⟨global, passes global⟩] at rejected
      cases rejected
    have short : l.global.level now < 1 := not_le.mp refused
    have refilled : (l.checkGlobal now).1 = { l with global := l.global.refill now } := by
      rw [checkGlobal, tryConsume, TokenBucket.consume_short short]
    rw [check_rejected config l now order caller refused, refilled]
    refine ⟨fun name later after => ?_, fun cs => ?_⟩
    · cases name with
      | global => exact TokenBucket.level_refill early after
      | _ => rfl
    · exact (answers_recount config { l with global := l.global.refill now } (l.hits + 1) l.waived now cs).trans
        (answers_refilled config early cs)

end RateLimiter

/-! ## A meter beside the limiter -/

structure Meter where
  limiter : RateLimiter
  clock : ℚ
  /-- Who was admitted when, the latest first. -/
  admitted : List (ℚ × Caller)

namespace Meter

open RateLimiter

variable (config : RateLimitConfig) (m : Meter)

def userTimes (userId : BitVec 128) : List ℚ :=
  (m.admitted.filter fun e => e.2.userId == some userId).map fun e => e.1

def ipTimes (ip : IpAddr) : List ℚ := (m.admitted.filter fun e => e.2.ip == ip).map fun e => e.1

def start (clock : ℚ) : Meter := ⟨.new config clock, clock, []⟩

def check (c : RateCheck) : RateLimiter × Bool := m.limiter.check config (m.clock + c.wait) c.order c.caller

def step (c : RateCheck) : Meter where
  limiter := (m.check config c).1
  clock := m.clock + c.wait
  admitted := if (m.check config c).2 then (m.clock + c.wait, c.caller) :: m.admitted else m.admitted

/-- **Nobody is admitted more often than the limits allow**, in any interval. -/
structure Limited : Prop where
  users : ∀ userId, Bounded config.user (m.userTimes userId)
  ips : ∀ ip, Bounded config.ip (m.ipTimes ip)

/-- No bucket is taken out of a full map. -/
def Roomy (c : RateCheck) : Prop :=
  1 ≤ m.limiter.level config .global (m.clock + c.wait) →
    (∀ u ∈ c.caller.userId, m.limiter.perUser.roomy config.maxTrackedUsers u) ∧
      ((∀ u ∈ c.caller.userId, 1 ≤ m.limiter.level config (.user u) (m.clock + c.wait)) →
        m.limiter.perIp.roomy config.maxTrackedIps c.caller.ip)

/-- A check that is rejected is not noticed. -/
def Harmless (c : RateCheck) : Prop :=
  (m.check config c).2 = false → Unnoticed config (m.clock + c.wait) m.limiter (m.check config c).1

/-- A check that finds a token in the global bucket finds those of its caller. -/
def Provided (c : RateCheck) : Prop :=
  1 ≤ m.limiter.level config .global (m.clock + c.wait) → m.limiter.Passes config (m.clock + c.wait) c.caller

variable {config m} {c : RateCheck}

theorem userTimes_step : (m.step config c).userTimes = if (m.check config c).2 then
    fun u => if c.caller.userId = some u then (m.clock + c.wait) :: m.userTimes u else m.userTimes u
    else m.userTimes := by
  funext u
  rw [userTimes, step]
  dsimp only
  split
  · rw [List.filter_cons]
    by_cases same : c.caller.userId = some u
    · rw [if_pos (beq_iff_eq.mpr same)]
      exact (if_pos same).symm
    · rw [if_neg (by simpa using same)]
      exact (if_neg same).symm
  · rfl

theorem ipTimes_step : (m.step config c).ipTimes = if (m.check config c).2 then
    fun ip => if ip = c.caller.ip then (m.clock + c.wait) :: m.ipTimes ip else m.ipTimes ip
    else m.ipTimes := by
  funext ip
  rw [ipTimes, step]
  dsimp only
  split
  · rw [List.filter_cons]
    by_cases same : ip = c.caller.ip
    · rw [if_pos (beq_iff_eq.mpr same.symm)]
      exact (if_pos same).symm
    · rw [if_neg (by simpa using fun h => same h.symm)]
      exact (if_neg same).symm
  · rfl

/-- A map whose keys were admitted at these times, within the limits. -/
structure Asked {K : Type} [DecidableEq K] (rate : Rate) (now : ℚ) (buckets : Buckets K) (times : K → List ℚ) : Prop where
  fits : Buckets.Fits (fun _ => rate) now buckets
  accounts : Buckets.Accounts rate now buckets times
  bounded : ∀ key, Bounded rate (times key)

section

variable {K : Type} [DecidableEq K] {rate : Rate} {now later : ℚ} {buckets : Buckets K} {times : K → List ℚ}
  {maxTracked first : Nat} {key : K}

theorem Asked.wait (asked : Asked rate now buckets times) (order : now ≤ later) : Asked rate later buckets times :=
  ⟨asked.fits.wait order, asked.accounts.wait order, asked.bounded⟩

/-- **One more check**: the limits hold whether it is admitted or not. -/
theorem Asked.ask (asked : Asked rate now buckets times) (roomy : buckets.roomy maxTracked key) (admitted : Bool)
    (taken : admitted = true → (buckets.ask maxTracked first rate now key).2 = true) :
    Asked rate now (buckets.ask maxTracked first rate now key).1
      (if admitted then fun k => if k = key then now :: times k else times k else times) := by
  have fits : Buckets.Fits (fun _ => rate) now (buckets.ask maxTracked first rate now key).1 := asked.fits.ask
  cases admitted with
  | false => exact ⟨fits, asked.accounts.ask asked.fits roomy, asked.bounded⟩
  | true =>
    have accounts := asked.accounts.admitted asked.fits roomy (taken rfl)
    rw [if_pos rfl]
    refine ⟨fits, accounts, fun k => ?_⟩
    by_cases same : k = key
    · have here := accounts k
      simp only [if_pos same] at here ⊢
      exact (asked.bounded k).cons (fits.bucket k) here
    · simp only [if_neg same]
      exact asked.bounded k

end

/-- The meter tells the truth, and the limits hold. -/
structure Metered (config : RateLimitConfig) (m : Meter) : Prop where
  users : Asked config.user m.clock m.limiter.perUser m.userTimes
  ips : Asked config.ip m.clock m.limiter.perIp m.ipTimes

theorem metered_start (config : RateLimitConfig) (clock : ℚ) : (start config clock).Metered config := by
  refine ⟨⟨?_, fun _ => accounted_nil _ _, ?_⟩, ⟨?_, fun _ => accounted_nil _ _, ?_⟩⟩
  · rintro _ _ ⟨⟩
  · exact fun _ a b order => add_nonneg config.user.burst_nonneg
      (mul_nonneg (sub_nonneg.mpr order) config.user.perSec_nonneg)
  · rintro _ _ ⟨⟩
  · exact fun _ a b order => add_nonneg config.ip.burst_nonneg
      (mul_nonneg (sub_nonneg.mpr order) config.ip.perSec_nonneg)

theorem admitted_iff : (m.check config c).2 = true ↔
    1 ≤ m.limiter.level config .global (m.clock + c.wait) ∧ m.limiter.Passes config (m.clock + c.wait) c.caller :=
  check_snd config m.limiter (m.clock + c.wait) c.order c.caller

section

variable (metered : m.Metered config) (roomy : m.Roomy config c)

include metered roomy

theorem users_step :
    Asked config.user (m.clock + c.wait) (m.check config c).1.perUser (m.step config c).userTimes := by
  have before := metered.users.wait (le_add_of_nonneg_right c.wait_nonneg)
  rw [userTimes_step, check, check_perUser]
  by_cases global : 1 ≤ m.limiter.level config .global (m.clock + c.wait)
  · rw [if_pos ((checkGlobal_snd config m.limiter _).mpr global)]
    cases user : c.caller.userId with
    | none =>
      have same : (if (m.limiter.check config (m.clock + c.wait) c.order c.caller).2 then
          fun u => if none = some u then (m.clock + c.wait) :: m.userTimes u else m.userTimes u
          else m.userTimes) = m.userTimes := by
        split <;> rfl
      rw [same]
      exact before
    | some v =>
      have times : (fun u => if some v = some u then (m.clock + c.wait) :: m.userTimes u else m.userTimes u) =
          fun u => if u = v then (m.clock + c.wait) :: m.userTimes u else m.userTimes u :=
        funext fun u => if_congr ⟨fun h => (Option.some_inj.mp h).symm, fun h => congrArg some h.symm⟩ rfl rfl
      rw [times]
      exact before.ask ((roomy global).1 v user) _ fun admitted =>
        (Buckets.ask_snd (fun _ => config.user) config.maxTrackedUsers c.order.users).mpr
          ((admitted_iff.mp admitted).2.user v user)
  · have rejected : ¬ (m.limiter.check config (m.clock + c.wait) c.order c.caller).2 = true :=
      fun admitted => global (admitted_iff.mp admitted).1
    rw [if_neg fun asked => global ((checkGlobal_snd config m.limiter _).mp asked), if_neg rejected]
    exact before

theorem ips_step : Asked config.ip (m.clock + c.wait) (m.check config c).1.perIp (m.step config c).ipTimes := by
  have before := metered.ips.wait (le_add_of_nonneg_right c.wait_nonneg)
  have user := checkUser_snd config (m.limiter.checkGlobal (m.clock + c.wait)).1 (m.clock + c.wait) c.order c.caller.userId
  rw [ipTimes_step, check, check_perIp]
  by_cases asked : (m.limiter.checkGlobal (m.clock + c.wait)).2 = true ∧
      ((m.limiter.checkGlobal (m.clock + c.wait)).1.checkUser config (m.clock + c.wait) c.order c.caller.userId).2 = true
  · rw [if_pos asked]
    have global := (checkGlobal_snd config m.limiter _).mp asked.1
    exact before.ask ((roomy global).2 (user.mp asked.2)) _ fun admitted =>
      (Buckets.ask_snd (fun _ => config.ip) config.maxTrackedIps c.order.ips).mpr (admitted_iff.mp admitted).2.ip
  · have rejected : ¬ (m.limiter.check config (m.clock + c.wait) c.order c.caller).2 = true := fun admitted =>
      asked ⟨(checkGlobal_snd config m.limiter _).mpr (admitted_iff.mp admitted).1,
        user.mpr (admitted_iff.mp admitted).2.user⟩
    rw [if_neg asked, if_neg rejected]
    exact before

theorem metered_step : (m.step config c).Metered config :=
  ⟨users_step metered roomy, ips_step metered roomy⟩

end

/-- The global bucket was last looked at in the past. -/
def Past (m : Meter) : Prop := m.limiter.global.last ≤ m.clock

theorem past_step (past : m.Past) (c : RateCheck) : (m.step config c).Past := by
  rw [Past, step, check, check_global]
  dsimp only
  rw [tryConsume, TokenBucket.consume_last]
  exact max_le (le_trans past (le_add_of_nonneg_right c.wait_nonneg)) (le_rfl)

/-- **Limits of callers, and of callers alone**: as long as no bucket is taken out of a full
map every user and every address is admitted within its limits; and rejected checks go
unnoticed exactly when every check that finds a token in the global bucket finds those of
its caller. -/
theorem limits_hold (config : RateLimitConfig) (clock : ℚ) (checks : List RateCheck) :
    (Run.Each (step config) (Roomy config) (start config clock) checks →
        ∀ m ∈ Run.states (step config) (start config clock) checks, m.Limited config) ∧
      (Run.Each (step config) (Harmless config) (start config clock) checks ↔
        Run.Each (step config) (Provided config) (start config clock) checks) := by
  constructor
  · intro roomy m member
    have metered := roomy.invariant (I := Metered config) (fun m c => metered_step) (metered_start config clock) m member
    exact ⟨metered.users.bounded, metered.ips.bounded⟩
  · exact Run.Each.iff (I := Past) (fun m c past => past_step past c)
      (fun m c past => unnoticed_iff config (le_trans past (le_add_of_nonneg_right c.wait_nonneg)) c.order c.caller)
      (show (start config clock).Past from le_refl clock) checks

/-! ### A run -/

def atOnce (burst : ℚ) (nonneg : 0 ≤ burst) : Rate := ⟨0, burst, le_rfl, nonneg⟩

/-- Two tokens for all, and one for each user. -/
def tight : RateLimitConfig where
  global := atOnce 2 (by norm_num)
  user := atOnce 1 (by norm_num)
  ip := atOnce 10 (by norm_num)
  critical := atOnce 10 (by norm_num)
  maxTrackedUsers := 10
  maxTrackedIps := 10
  operationLimits := []

def checkOf (userId : BitVec 128) : RateCheck := ⟨0, ⟨0, 0⟩, ⟨some userId, .v4 0, .get, false⟩, le_rfl⟩

/-- **A user who has used up the limit takes the token of another**, who would be admitted
if the first had not asked. -/
theorem rejected_takes : ¬ Run.Each (step tight) (Harmless tight) (start tight 0) [checkOf 1, checkOf 1] := by
  rintro ⟨-, second, -⟩
  have same := (second (by decide +kernel)).answers [checkOf 2]
  exact absurd same (by decide +kernel)

end Meter

end NovaRuntime.Executor
