/-
# NovaRuntime.Executor.TokenRaces — one bucket of tokens and many calls

`TokenBucket` of `nova_executor::rate_limiter`, cut at its atomic steps. A refill holds the
lock from its look at the clock's last reading to its end; the swaps of `try_consume` do not.
So a swap may fall between the addition of a refill and its store of the capacity, which then
gives the tokens back, or long after its call refilled, when a full bucket has gained nothing.

`limited_run` says that these are the only ways to exceed the rate: it holds where every swap
that succeeds finds a bucket that would not overflow if it were refilled (`Timely`).
Numbers are exact.
-/
import Mathlib.Algebra.Order.Field.Rat
import Mathlib.Tactic.Linarith
import Mathlib.Tactic.Ring
import NovaRuntime.Library.Runs

namespace NovaRuntime.Executor

open NovaRuntime.Library

set_option autoImplicit false

/-- A call without the lock, after its look at the clock, after its refill, or with the balance
read. `none` is a call of `available`. -/
inductive BucketCall where
  | called (ask : Option ℚ)
  | clocked (ask : Option ℚ) (now : ℚ)
  | consuming (ask : Option ℚ)
  | taking (tokens current : ℚ)

/-- The lock: free, or held by a refill before a load or a swap of `fetch_add` or before its store. -/
inductive Refill where
  | free
  | adding (ask : Option ℚ) (added : ℚ)
  | swapping (ask : Option ℚ) (added old : ℚ)
  | storing (ask : Option ℚ)

/-- The bucket, the clock, the calls under way, and what was granted when. -/
structure AtomicBucket where
  tokens : ℚ
  capacity : ℚ
  refillRate : ℚ
  lastRefill : ℚ
  now : ℚ
  refill : Refill
  calls : List BucketCall
  granted : List (ℚ × ℚ)

inductive BucketAct where
  | tick (t : ℚ)
  | call (ask : Option ℚ)
  | turn (i : Nat)
  | refill

namespace AtomicBucket

def new (ratePerSec burst now : ℚ) : AtomicBucket where
  tokens := burst
  capacity := burst
  refillRate := ratePerSec
  lastRefill := now
  now := now
  refill := .free
  calls := []
  granted := []

def resume (s : AtomicBucket) (call : BucketCall) : AtomicBucket := { s with calls := call :: s.calls }

/-- A step of a call without the lock; `s` has the others. -/
def turn (s : AtomicBucket) : BucketCall → AtomicBucket
  | .called ask => s.resume (.clocked ask s.now)
  | .clocked ask now =>
    match s.refill with
    | .free =>
      if s.lastRefill < now then
        { s with lastRefill := now, refill := .adding ask ((now - s.lastRefill) * s.refillRate) }
      else s.resume (.consuming ask)
    | _ => s.resume (.clocked ask now)
  | .consuming none => s
  | .consuming (some tokens) => if s.tokens < tokens then s else s.resume (.taking tokens s.tokens)
  | .taking tokens current =>
    if s.tokens = current then
      { s with tokens := current - tokens, granted := (s.now, tokens) :: s.granted }
    else s.resume (.consuming (some tokens))

def unlock (s : AtomicBucket) (ask : Option ℚ) : AtomicBucket :=
  { s with refill := .free, calls := .consuming ask :: s.calls }

/-- A step of the call that holds the lock. -/
def refillTurn (s : AtomicBucket) : Refill → AtomicBucket
  | .free => s
  | .adding ask added => { s with refill := .swapping ask added s.tokens }
  | .swapping ask added old =>
    if s.tokens = old then
      if s.capacity < old + added then { s with tokens := old + added, refill := .storing ask }
      else unlock { s with tokens := old + added } ask
    else { s with refill := .swapping ask added s.tokens }
  | .storing ask => unlock { s with tokens := s.capacity } ask

def step (s : AtomicBucket) : BucketAct → AtomicBucket
  | .tick t => { s with now := max s.now t }
  | .call ask => s.resume (.called ask)
  | .turn i =>
    match s.calls[i]? with
    | some call => turn { s with calls := s.calls.eraseIdx i } call
    | none => s
  | .refill => s.refillTurn s.refill

/-! ## What is asked -/

/-- The tokens granted from one instant to another. -/
def spent (granted : List (ℚ × ℚ)) (since till : ℚ) : ℚ :=
  ((granted.filter fun g => since ≤ g.1 ∧ g.1 ≤ till).map Prod.snd).sum

/-- **No more than the rate**, and a balance between nothing and the capacity. -/
structure Limited (s : AtomicBucket) : Prop where
  rate : ∀ since till, since ≤ till →
    spent s.granted since till ≤ s.capacity + s.refillRate * (till - since)
  nonneg : 0 ≤ s.tokens
  settled : s.calls = [] → s.refill = .free → s.tokens ≤ s.capacity

/-- What a refill has still to add. -/
def pending (s : AtomicBucket) : ℚ :=
  match s.refill with
  | .adding _ added | .swapping _ added _ => added
  | _ => 0

/-- What a refill without a capacity would make of the balance. -/
def value (s : AtomicBucket) : ℚ := s.tokens + s.pending + s.refillRate * (s.now - s.lastRefill)

/-- The condition of a step: nothing below zero is asked for, and a swap of `try_consume` that
succeeds finds room for what a refill would add. -/
def Timely (s : AtomicBucket) : BucketAct → Prop
  | .call ask => ∀ tokens ∈ ask, 0 ≤ tokens
  | .turn i => ∀ tokens, s.calls[i]? = some (.taking tokens s.tokens) → s.value ≤ s.capacity
  | _ => True

/-! ## The invariant -/

end AtomicBucket

def BucketCall.Fits (now : ℚ) : BucketCall → Prop
  | .called ask | .consuming ask => ∀ tokens ∈ ask, 0 ≤ tokens
  | .clocked ask t => (∀ tokens ∈ ask, 0 ≤ tokens) ∧ t ≤ now
  | .taking tokens current => 0 ≤ tokens ∧ tokens ≤ current

/-- The balance is above the capacity only before the store of a refill. -/
def Refill.Fits (tokens capacity : ℚ) : Refill → Prop
  | .free => tokens ≤ capacity
  | .adding ask added | .swapping ask added _ => (∀ n ∈ ask, 0 ≤ n) ∧ 0 ≤ added ∧ tokens ≤ capacity
  | .storing ask => (∀ n ∈ ask, 0 ≤ n) ∧ capacity < tokens

namespace AtomicBucket

def level (s : AtomicBucket) : ℚ := min s.capacity s.value

/-- **The invariant.** What was granted since an instant and the level are not above what a full
bucket has gained since. -/
structure Sound (s : AtomicBucket) : Prop extends s.Limited where
  rate_nonneg : 0 ≤ s.refillRate
  burst_nonneg : 0 ≤ s.capacity
  early : s.lastRefill ≤ s.now
  calls : ∀ call ∈ s.calls, call.Fits s.now
  refill : s.refill.Fits s.tokens s.capacity
  past : ∀ g ∈ s.granted, g.1 ≤ s.now
  gained : ∀ since, since ≤ s.now →
    spent s.granted since s.now + s.level ≤ s.capacity + s.refillRate * (s.now - since)

variable {s : AtomicBucket}

section

variable (sound : s.Sound)

include sound

/-- Nothing is granted in the future. -/
theorem Sound.spent_eq (since : ℚ) {till : ℚ} (order : s.now ≤ till) :
    spent s.granted since till = spent s.granted since s.now := by
  unfold spent
  rw [List.filter_congr fun g member => ?_]
  have past := sound.past g member
  rw [decide_eq_decide, and_iff_left (past.trans order), and_iff_left past]

theorem Sound.move {tokens last : ℚ} {refill : Refill} {calls : List BucketCall}
    (same : level { s with tokens, lastRefill := last, refill, calls } = s.level) (nonneg : 0 ≤ tokens)
    (early : last ≤ s.now) (fits : ∀ call ∈ calls, call.Fits s.now) (holds : refill.Fits tokens s.capacity) :
    Sound { s with tokens, lastRefill := last, refill, calls } where
  rate := sound.rate
  nonneg := nonneg
  settled _ free := by
    obtain rfl : refill = .free := free
    exact holds
  rate_nonneg := sound.rate_nonneg
  burst_nonneg := sound.burst_nonneg
  early := early
  calls := fits
  refill := holds
  past := sound.past
  gained since within := same ▸ sound.gained since within

theorem Sound.others (i : Nat) : Sound { s with calls := s.calls.eraseIdx i } :=
  sound.move rfl sound.nonneg sound.early
    (fun call member => sound.calls call (List.mem_of_mem_eraseIdx member)) sound.refill

theorem Sound.resume {call : BucketCall} (fits : call.Fits s.now) : (s.resume call).Sound :=
  sound.move rfl sound.nonneg sound.early (List.forall_mem_cons.mpr ⟨fits, sound.calls⟩) sound.refill

theorem Sound.tick (t : ℚ) : (s.step (.tick t)).Sound := by
  have order : s.now ≤ max s.now t := le_max_left _ _
  have gain := mul_nonneg sound.rate_nonneg (sub_nonneg.mpr order)
  have grown : (s.step (.tick t)).level ≤ s.level + s.refillRate * (max s.now t - s.now) := by
    have total : (s.step (.tick t)).value = s.value + s.refillRate * (max s.now t - s.now) := by
      simp only [value, step, pending]
      ring
    rw [level, level, total, min_add]
    exact min_le_min_right _ (le_add_of_nonneg_right gain)
  refine { sound with early := sound.early.trans order, calls := ?_, past := ?_, gained := ?_ }
  · intro call member
    have fits := sound.calls call member
    cases call with
    | clocked ask now => exact ⟨fits.1, fits.2.trans order⟩
    | called ask | consuming ask => exact fits
    | taking tokens current => exact fits
  · exact fun g member => (sound.past g member).trans order
  · intro since within
    show spent s.granted since (max s.now t) + (s.step (.tick t)).level ≤
      s.capacity + s.refillRate * (max s.now t - since)
    rw [sound.spent_eq since order]
    by_cases before : since ≤ s.now
    · have gained := sound.gained since before
      have total : s.refillRate * (max s.now t - since) =
        s.refillRate * (max s.now t - s.now) + s.refillRate * (s.now - since) := by ring
      linarith
    · have nothing : spent s.granted since s.now = 0 := by
        rw [spent, List.filter_eq_nil_iff.mpr]
        · rfl
        · intro g member
          rw [decide_eq_true_eq]
          exact fun inside => before (inside.1.trans inside.2)
      rw [nothing, zero_add]
      exact le_add_of_le_of_nonneg (min_le_left _ _) (mul_nonneg sound.rate_nonneg (sub_nonneg.mpr within))

theorem Sound.tokens_le_value : s.tokens ≤ s.value := by
  have rest : 0 ≤ s.refillRate * (s.now - s.lastRefill) :=
    mul_nonneg sound.rate_nonneg (sub_nonneg.mpr sound.early)
  have nonneg : 0 ≤ s.pending := by
    have holds := sound.refill
    unfold pending
    split
    · next held => exact (held ▸ holds).2.1
    · next held => exact (held ▸ holds).2.1
    · exact le_rfl
  rw [value]
  linarith

/-- **A swap that succeeds** takes what it grants out of the level. -/
theorem Sound.grant {tokens : ℚ} (room : s.value ≤ s.capacity) (some : 0 ≤ tokens) (enough : tokens ≤ s.tokens) :
    Sound { s with tokens := s.tokens - tokens, granted := (s.now, tokens) :: s.granted } := by
  have paid : level { s with tokens := s.tokens - tokens, granted := (s.now, tokens) :: s.granted } ≤
      s.level - tokens := by
    have total : value { s with tokens := s.tokens - tokens, granted := (s.now, tokens) :: s.granted } =
        s.value - tokens := by
      simp only [value, pending]
      ring
    rw [level, level, total, min_eq_right room]
    exact min_le_right _ _
  have spent_cons (since : ℚ) {till : ℚ} (order : s.now ≤ till) (before : since ≤ s.now) :
      spent ((s.now, tokens) :: s.granted) since till = tokens + spent s.granted since till := by
    rw [spent, List.filter_cons_of_pos (by simpa using ⟨before, order⟩)]
    exact List.sum_cons
  have spent_out (since till : ℚ) (out : ¬ (since ≤ s.now ∧ s.now ≤ till)) :
      spent ((s.now, tokens) :: s.granted) since till = spent s.granted since till := by
    rw [spent, List.filter_cons_of_neg (by simpa using out)]
    rfl
  have pays : tokens ≤ s.level := by
    rw [level, min_eq_right room]
    exact enough.trans sound.tokens_le_value
  refine { sound with rate := ?_, nonneg := sub_nonneg.mpr enough, settled := ?_, refill := ?_, past := ?_, gained := ?_ }
  · intro since till order
    by_cases inside : since ≤ s.now ∧ s.now ≤ till
    · have gained := sound.gained since inside.1
      have longer := mul_le_mul_of_nonneg_left (sub_le_sub_right inside.2 since) sound.rate_nonneg
      rw [spent_cons since inside.2 inside.1, sound.spent_eq since inside.2]
      show _ ≤ s.capacity + s.refillRate * (till - since)
      linarith
    · rw [spent_out since till inside]
      exact sound.rate since till order
  · intro _ free
    have fits := sound.refill
    rw [show s.refill = .free from free] at fits
    exact (sub_le_self _ some).trans fits
  · have holds := sound.refill
    show s.refill.Fits (s.tokens - tokens) s.capacity
    cases held : s.refill with
    | free =>
      rw [held] at holds
      exact (sub_le_self _ some).trans holds
    | adding ask added | swapping ask added old =>
      rw [held] at holds
      exact ⟨holds.1, holds.2.1, (sub_le_self _ some).trans holds.2.2⟩
    | storing ask =>
      rw [held] at holds
      exact absurd (sound.tokens_le_value.trans room) (not_le.mpr holds.2)
  · exact List.forall_mem_cons.mpr ⟨le_rfl, sound.past⟩
  · intro since before
    have gained := sound.gained since before
    rw [spent_cons since (le_rfl) before]
    show tokens + spent s.granted since s.now + _ ≤ s.capacity + s.refillRate * (s.now - since)
    linarith

theorem Sound.turn {call : BucketCall} (fits : call.Fits s.now)
    (timely : ∀ tokens, call = .taking tokens s.tokens → s.value ≤ s.capacity) : (s.turn call).Sound := by
  cases call with
  | called ask => exact sound.resume ⟨fits, le_rfl⟩
  | clocked ask now =>
    obtain ⟨asks, past⟩ := fits
    simp only [AtomicBucket.turn]
    split
    · next free =>
      split
      · next late =>
        have full := sound.refill
        rw [free] at full
        refine sound.move ?_ sound.nonneg past sound.calls ⟨asks, ?_, full⟩
        · simp only [level, value, pending, free]
          congr 1
          ring
        · exact mul_nonneg (sub_nonneg.mpr late.le) sound.rate_nonneg
      · exact sound.resume asks
    · exact sound.resume ⟨asks, past⟩
  | consuming ask =>
    cases ask with
    | none => exact sound
    | some tokens =>
      simp only [AtomicBucket.turn]
      split
      · exact sound
      · next enough => exact sound.resume ⟨fits tokens rfl, not_lt.mp enough⟩
  | taking tokens current =>
    simp only [AtomicBucket.turn]
    split
    · next same =>
      subst same
      exact sound.grant (timely tokens rfl) fits.1 fits.2
    · refine sound.resume fun asked same => ?_
      cases same
      exact fits.1

theorem Sound.refillTurn : (s.refillTurn s.refill).Sound := by
  have holds := sound.refill
  cases held : s.refill with
  | free => exact sound
  | adding ask added =>
    rw [held] at holds
    refine sound.move ?_ sound.nonneg sound.early sound.calls holds
    simp only [level, value, pending, held]
  | swapping ask added old =>
    rw [held] at holds
    obtain ⟨asks, gains, within⟩ := holds
    simp only [AtomicBucket.refillTurn]
    split
    · next current =>
      subst current
      have nonneg := add_nonneg sound.nonneg gains
      split
      · next above =>
        refine sound.move ?_ nonneg sound.early sound.calls ⟨asks, above⟩
        simp only [level, value, pending, held, add_zero]
      · next fits =>
        refine sound.move ?_ nonneg sound.early (List.forall_mem_cons.mpr ⟨asks, sound.calls⟩) (not_lt.mp fits)
        simp only [level, value, pending, held, add_zero]
    · refine sound.move ?_ sound.nonneg sound.early sound.calls ⟨asks, gains, within⟩
      simp only [level, value, pending, held]
  | storing ask =>
    rw [held] at holds
    refine sound.move ?_ sound.burst_nonneg sound.early (List.forall_mem_cons.mpr ⟨holds.1, sound.calls⟩) (le_rfl)
    have full : s.capacity ≤ s.value := holds.2.le.trans sound.tokens_le_value
    have gain := mul_nonneg sound.rate_nonneg (sub_nonneg.mpr sound.early)
    rw [level, level, min_eq_left full, min_eq_left]
    simpa only [value, pending, add_zero] using le_add_of_nonneg_right gain

/-- **A step** that meets the condition. -/
theorem Sound.step {act : BucketAct} (timely : s.Timely act) : (s.step act).Sound := by
  cases act with
  | tick t => exact sound.tick t
  | call ask => exact sound.resume timely
  | turn i =>
    simp only [AtomicBucket.step]
    split
    · next call found =>
      have rest := sound.others i
      refine rest.turn (sound.calls call (List.mem_of_getElem? found)) fun tokens same => ?_
      exact timely tokens (same ▸ found)
    · exact sound
  | refill => exact sound.refillTurn

end

theorem sound_new {ratePerSec burst : ℚ} (rate : 0 ≤ ratePerSec) (capacity : 0 ≤ burst) (now : ℚ) :
    (new ratePerSec burst now).Sound := by
  have gain {d : ℚ} (longer : 0 ≤ d) : 0 ≤ burst + ratePerSec * d := add_nonneg capacity (mul_nonneg rate longer)
  refine ⟨⟨fun since till order => gain (sub_nonneg.mpr order), capacity, fun _ _ => le_rfl⟩, rate, capacity,
    le_rfl, nofun, le_rfl, nofun, fun since before => ?_⟩
  have longer := mul_nonneg rate (sub_nonneg.mpr before)
  exact (zero_add _).trans_le ((min_le_left _ _).trans (le_add_of_nonneg_right longer))

/-- **Where every step is timely, the bucket admits no more than its rate**, in every state. -/
theorem limited_run {ratePerSec burst : ℚ} (rate : 0 ≤ ratePerSec) (capacity : 0 ≤ burst) (now : ℚ)
    {acts : List BucketAct} (timely : Run.Each step Timely (new ratePerSec burst now) acts) :
    Run.Always step Limited (new ratePerSec burst now) acts := fun s reached =>
  (Run.Each.invariant (I := Sound) (fun _ _ sound => sound.step) (sound_new rate capacity now) timely s reached).toLimited

/-- One call after another, at one token a second. -/
theorem limited_run_sample : Run.Always step Limited (new 1 2 0)
    [.call (some 2), .turn 0, .turn 0, .turn 0, .turn 0, .tick 1, .call (some 1), .turn 0, .turn 0, .refill, .refill,
      .turn 0, .turn 0] := by
  refine limited_run (by norm_num) (by norm_num) 0 ?_
  simp [Run.Each, Timely, new, step, resume, turn, refillTurn, unlock, value, pending]

/-- Before the store of a refill another call takes two tokens of three; the store gives them back. -/
theorem refill_overwrites : ¬ ∀ (ratePerSec burst now : ℚ) (acts : List BucketAct), 0 ≤ ratePerSec → 0 ≤ burst →
    (∀ ask, .call ask ∈ acts → ∀ tokens ∈ ask, 0 ≤ tokens) →
    Run.Always step Limited (new ratePerSec burst now) acts := by
  intro claim
  have limited := claim 1 2 0 [.call (some 2), .turn 0, .turn 0, .tick 1, .call (some 2), .turn 0, .turn 0, .refill,
    .refill, .turn 0, .turn 0, .refill, .turn 0, .turn 0] (by norm_num) (by norm_num) (by simp) _
    (Run.foldl_mem_states _ _)
  have bound := limited.rate 1 1 (le_rfl)
  norm_num [new, step, resume, turn, refillTurn, unlock, spent] at bound

end AtomicBucket

end NovaRuntime.Executor
