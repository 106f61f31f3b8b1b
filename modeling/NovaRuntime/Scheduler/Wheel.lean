/-
# NovaRuntime.Scheduler.Wheel — when the time wheel returns a job

The wheel of `nova_scheduler::time_wheel` over whole histories of `schedule`, `cancel` and `tick`. Beside the
wheel a history keeps what was registered and not cancelled since, and the number of ticks (`Turning`); a
registration is due at the `max(1, delay / tick_ms)`-th tick after it.

The slots are the ring of what is pending, numbered by the ticks it is due at (`Turning.Follows`), so that every
tick returns exactly the registrations due at it. The tick itself can be early: the delay is rounded down to
whole ticks, and counted from the tick before the registration.
-/
import NovaRuntime.Library.Buckets
import NovaRuntime.Library.Runs
import NovaRuntime.Scheduler.Types

namespace NovaRuntime.Scheduler

open NovaRuntime.Library

set_option autoImplicit false

/-! ## Histories -/

/-- A call of `schedule` that comes `now`, after so many ticks. -/
structure Registration where
  jobId : Uuid
  fireAt : Int
  now : Int
  ticks : Nat
  deriving DecidableEq

namespace Registration

def delay (r : Registration) : Int := r.fireAt - r.now

/-- The number of the tick that is to return the job. -/
def dueTick (tickMs : Nat) (r : Registration) : Nat := r.ticks + max 1 (r.delay / tickMs).toNat

/-- The first tick after the registration is late enough, or what the rounding takes from the delay is at most
the time from the registration to the tick before it: nothing, for a registration right at a tick. -/
def OnTime (tickMs : Nat) (epoch : Int) (r : Registration) : Prop :=
  r.fireAt ≤ epoch + (r.ticks + 1) * tickMs ∨ r.delay % tickMs ≤ epoch + r.ticks * tickMs - r.now

instance (tickMs : Nat) (epoch : Int) (r : Registration) : Decidable (r.OnTime tickMs epoch) :=
  inferInstanceAs (Decidable (_ ∨ _))

end Registration

inductive WheelEvent where
  | schedule (jobId : Uuid) (fireAt now : Int)
  | cancel (jobId : Uuid)
  | tick
  deriving DecidableEq

/-- A wheel, the ticks it made, and what was registered and not cancelled since. -/
structure Turning where
  wheel : TimeWheel
  ticks : Nat
  registered : List Registration
  deriving DecidableEq

namespace Turning

def start (tickMs numSlots : Nat) (turns : 0 < numSlots) : Turning where
  wheel := TimeWheel.new tickMs numSlots turns
  ticks := 0
  registered := []

def step (s : Turning) : WheelEvent → Turning
  | .schedule jobId fireAt now =>
    { s with
      wheel := s.wheel.schedule jobId fireAt now
      registered := s.registered ++ [⟨jobId, fireAt, now, s.ticks⟩] }
  | .cancel jobId =>
    { s with
      wheel := s.wheel.cancel jobId
      registered := s.registered.filter fun r => r.jobId ≠ jobId }
  | .tick => { s with wheel := s.wheel.tick.2, ticks := s.ticks + 1 }

/-- When the next tick comes: the ticks are `tick_ms` apart, the first one that long after the epoch. -/
def nextTick (epoch : Int) (s : Turning) : Int := epoch + (s.ticks + 1) * s.wheel.tickMs

/-- What the next tick is to return. -/
def owed (s : Turning) : List Registration :=
  s.registered.filter fun r => r.dueTick s.wheel.tickMs = s.ticks + 1

/-- No delay is longer than a turn of the wheel: `schedule_job` has a queue for those. -/
def Admits (s : Turning) : WheelEvent → Prop
  | .schedule _ fireAt now => fireAt - now ≤ s.wheel.slots.length * s.wheel.tickMs
  | .cancel _ | .tick => True

instance (s : Turning) (e : WheelEvent) : Decidable (s.Admits e) := by
  unfold Turning.Admits
  split <;> infer_instance

/-- No job of the next tick is to fire after it. -/
def NeverEarly (epoch : Int) (s : Turning) : Prop := ∀ r ∈ s.owed, r.fireAt ≤ s.nextTick epoch

instance (epoch : Int) (s : Turning) : Decidable (s.NeverEarly epoch) :=
  inferInstanceAs (Decidable (∀ r ∈ s.owed, r.fireAt ≤ s.nextTick epoch))

/-- What an event registers is on time. -/
def Punctual (epoch : Int) (s : Turning) : WheelEvent → Prop
  | .schedule jobId fireAt now => Registration.OnTime s.wheel.tickMs epoch ⟨jobId, fireAt, now, s.ticks⟩
  | .cancel _ | .tick => True

instance (epoch : Int) (s : Turning) (e : WheelEvent) : Decidable (s.Punctual epoch e) := by
  unfold Turning.Punctual
  split <;> infer_instance

/-! ## The slots are the ring of what is pending -/

def pending (s : Turning) : List Registration :=
  s.registered.filter fun r => s.ticks < r.dueTick s.wheel.tickMs

/-- In a wheel of `n` slots: the hand stands at the last tick, and no registration is more than a turn away. -/
structure Follows (tickMs n : Nat) (s : Turning) : Prop where
  length_of_tick : s.wheel.tickMs = tickMs
  current : s.wheel.currentSlot = s.ticks % n
  slots : s.wheel.slots =
    (buckets n (Registration.dueTick tickMs) s.pending).map (List.map Registration.jobId)
  near : ∀ r ∈ s.registered, r.dueTick tickMs ≤ s.ticks + n

variable {tickMs n : Nat} {epoch : Int} {s : Turning}

theorem Follows.length (follows : s.Follows tickMs n) : s.wheel.slots.length = n := by
  rw [follows.slots, List.length_map, length_buckets]

theorem follows_start (turns : 0 < n) : (start tickMs n turns).Follows tickMs n where
  length_of_tick := rfl
  current := (Nat.zero_mod n).symm
  slots := by simp [start, TimeWheel.new, pending]
  near := by simp [start]

/-- The slot of a job is the one of the tick it is due at. -/
theorem Follows.slotFor (long : 0 < tickMs) (follows : s.Follows tickMs n) (jobId : Uuid) (fireAt now : Int) :
    s.wheel.slotFor (fireAt - now) = Registration.dueTick tickMs ⟨jobId, fireAt, now, s.ticks⟩ % n := by
  simp only [TimeWheel.slotFor, Registration.dueTick, Registration.delay, follows.current, follows.length,
    follows.length_of_tick, Nat.mod_add_mod]
  split
  next past =>
    have none : ((fireAt - now) / (tickMs : Int)).toNat = 0 :=
      Int.toNat_eq_zero.mpr (Int.ediv_nonpos_of_nonpos_of_neg past (by omega))
    rw [none]
    rfl
  next ahead =>
    have whole : ((fireAt - now) / (tickMs : Int)).toNat = (fireAt - now).toNat / tickMs := by
      obtain ⟨d, delay⟩ := Int.eq_ofNat_of_zero_le (by omega : 0 ≤ fireAt - now)
      rw [delay, ← Int.natCast_ediv, Int.toNat_natCast, Int.toNat_natCast]
    rw [whole, Nat.max_comm]

theorem lt_dueTick (r : Registration) : r.ticks < r.dueTick tickMs := by
  unfold Registration.dueTick
  omega

theorem Follows.schedule (turns : 0 < n) (long : 0 < tickMs) (follows : s.Follows tickMs n) {jobId : Uuid}
    {fireAt now : Int} (within : fireAt - now ≤ n * tickMs) :
    (s.step (.schedule jobId fireAt now)).Follows tickMs n where
  length_of_tick := follows.length_of_tick
  current := follows.current
  slots := by
    have fresh : (s.step (.schedule jobId fireAt now)).pending =
        s.pending ++ [⟨jobId, fireAt, now, s.ticks⟩] := by
      show (s.registered ++ [_]).filter (fun r => decide (s.ticks < Registration.dueTick s.wheel.tickMs r)) = _
      rw [List.filter_append, List.filter_cons_of_pos, List.filter_nil]
      · rfl
      · exact decide_eq_true (lt_dueTick ⟨jobId, fireAt, now, s.ticks⟩)
    rw [fresh, map_buckets_concat, ← follows.slots, ← follows.slotFor long jobId]
    rfl
  near := by
    intro r member
    rcases List.mem_append.mp member with before | new
    · exact follows.near r before
    · obtain rfl := List.mem_singleton.mp new
      have turn : (fireAt - now) / (tickMs : Int) ≤ n := Int.ediv_le_of_le_mul (by omega) within
      show s.ticks + max 1 ((fireAt - now) / (tickMs : Int)).toNat ≤ s.ticks + n
      omega

section

variable (follows : s.Follows tickMs n)

include follows

theorem Follows.cancel (jobId : Uuid) : (s.step (.cancel jobId)).Follows tickMs n where
  length_of_tick := follows.length_of_tick
  current := follows.current
  slots := by
    have left : (s.step (.cancel jobId)).pending = s.pending.filter fun r => r.jobId ≠ jobId := by
      show (s.registered.filter _).filter (fun r => decide (s.ticks < Registration.dueTick s.wheel.tickMs r)) = _
      simp only [pending, List.filter_filter, Bool.and_comm]
    rw [left, buckets_filter]
    show s.wheel.slots.map _ = _
    rw [follows.slots, List.map_map, List.map_map]
    refine List.map_congr_left fun slot _ => ?_
    exact List.filter_map
  near := fun r member => follows.near r (List.mem_of_mem_filter member)

/-- A tick takes from the ring what it owes, and the rest is pending. -/
theorem Follows.due_iff {r : Registration} (member : r ∈ s.registered) (ahead : s.ticks < r.dueTick tickMs) :
    r.dueTick tickMs % n = (s.ticks + 1) % n ↔ r.dueTick tickMs = s.ticks + 1 := by
  have near := follows.near r member
  exact mod_eq_mod_iff_of_turn (by omega) (by omega)

theorem Follows.nextSlot : s.wheel.nextSlot = (s.ticks + 1) % n := by
  rw [TimeWheel.nextSlot, follows.current, follows.length, Nat.mod_add_mod]

theorem Follows.tick : (s.step .tick).Follows tickMs n where
  length_of_tick := follows.length_of_tick
  current := follows.nextSlot
  slots := by
    have left : (s.step .tick).pending =
        s.pending.filter fun r => r.dueTick tickMs % n ≠ (s.ticks + 1) % n := by
      simp only [pending, step, TimeWheel.tick, List.filter_filter, follows.length_of_tick]
      refine List.filter_congr fun r member => ?_
      rw [Bool.eq_iff_iff]
      simp only [decide_eq_true_eq, Bool.and_eq_true, ne_eq]
      constructor
      · intro later
        have ahead : s.ticks < r.dueTick tickMs := by omega
        rw [follows.due_iff member ahead]
        omega
      · rintro ⟨other, ahead⟩
        rw [follows.due_iff member ahead] at other
        omega
    rw [left, ← buckets_set_nil, List.map_set]
    show s.wheel.slots.set _ _ = _
    rw [follows.nextSlot, follows.slots]
    rfl
  near := by
    intro r member
    have near := follows.near r member
    show _ ≤ s.ticks + 1 + n
    omega

end

/-- **A tick returns what is due at it.** -/
theorem Follows.returns (turns : 0 < n) (follows : s.Follows tickMs n) :
    s.wheel.tick.1 = s.owed.map Registration.jobId := by
  have inside : (s.ticks + 1) % n < n := Nat.mod_lt _ turns
  show (s.wheel.slots[s.wheel.nextSlot]?).getD [] = _
  rw [follows.nextSlot, follows.slots, List.getElem?_map, getElem?_buckets inside]
  show List.map _ _ = _
  congr 1
  rw [owed, pending, List.filter_filter]
  refine List.filter_congr fun r member => ?_
  rw [Bool.eq_iff_iff]
  simp only [decide_eq_true_eq, Bool.and_eq_true, follows.length_of_tick]
  constructor
  · rintro ⟨same, ahead⟩
    exact (follows.due_iff member ahead).mp same
  · intro due
    have ahead : s.ticks < r.dueTick tickMs := by omega
    exact ⟨(follows.due_iff member ahead).mpr due, ahead⟩

theorem Follows.step (turns : 0 < n) (long : 0 < tickMs) (follows : s.Follows tickMs n) {e : WheelEvent}
    (admits : s.Admits e) : (s.step e).Follows tickMs n := by
  cases e with
  | schedule jobId fireAt now =>
    rw [Admits, follows.length, follows.length_of_tick] at admits
    exact follows.schedule turns long admits
  | cancel jobId => exact follows.cancel jobId
  | tick => exact follows.tick

end Turning

/-! ## A tick and the time to fire -/

/-- The tick a registration is due at is late enough exactly if the registration is on time. -/
theorem Registration.fireAt_le_dueTick_iff {tickMs : Nat} (long : 0 < tickMs) (epoch : Int) (r : Registration) :
    r.fireAt ≤ epoch + r.dueTick tickMs * tickMs ↔ r.OnTime tickMs epoch := by
  have parts : tickMs * (r.delay / tickMs) + r.delay % tickMs = r.delay := Int.mul_ediv_add_emod ..
  have rounded : 0 ≤ r.delay % tickMs := Int.emod_nonneg _ (by omega)
  have delay : r.delay = r.fireAt - r.now := rfl
  unfold OnTime
  by_cases short : r.delay / tickMs ≤ 1
  · -- the next tick returns it
    have due : r.dueTick tickMs = r.ticks + 1 := by unfold dueTick; omega
    have most : (tickMs : Int) * (r.delay / tickMs) ≤ tickMs * 1 :=
      Int.mul_le_mul_of_nonneg_left short (by omega)
    rw [due, Nat.cast_add, Nat.cast_one]
    constructor
    · intro late
      exact .inl late
    · rintro (late | near)
      · exact late
      · rw [Int.add_mul]
        omega
  · obtain ⟨q, turnsAway⟩ := Int.eq_ofNat_of_zero_le (by omega : 0 ≤ r.delay / tickMs)
    have due : r.dueTick tickMs = r.ticks + q := by unfold dueTick; omega
    have least : (tickMs : Int) * 1 ≤ tickMs * q := Int.mul_le_mul_of_nonneg_left (by omega) (by omega)
    rw [turnsAway] at parts
    rw [due, Nat.cast_add, Int.add_mul, Int.add_mul, Int.mul_comm q]
    constructor
    · intro late
      exact .inr (by omega)
    · rintro (late | near)
      · omega
      · omega

namespace Turning

variable {tickMs n : Nat} {epoch : Int} {s : Turning}

/-- **The next tick comes before no time to fire exactly if all it owes was registered on time.** -/
theorem neverEarly_iff (long : 0 < s.wheel.tickMs) :
    s.NeverEarly epoch ↔ ∀ r ∈ s.owed, r.OnTime s.wheel.tickMs epoch := by
  refine forall₂_congr fun r member => ?_
  have due := (List.mem_filter.mp member).2
  rw [decide_eq_true_eq] at due
  rw [← r.fireAt_le_dueTick_iff long, due, nextTick, Nat.cast_add, Nat.cast_one]

/-- What was registered punctually is on time. -/
theorem onTime_step (timely : ∀ r ∈ s.registered, r.OnTime s.wheel.tickMs epoch) {e : WheelEvent}
    (punctual : s.Punctual epoch e) :
    ∀ r ∈ (s.step e).registered, r.OnTime (s.step e).wheel.tickMs epoch := by
  cases e with
  | schedule jobId fireAt now =>
    intro r member
    rcases List.mem_append.mp member with before | new
    · exact timely r before
    · obtain rfl := List.mem_singleton.mp new
      exact punctual
  | cancel jobId => exact fun r member => timely r (List.mem_of_mem_filter member)
  | tick => exact timely

theorem mem_registered_after {r : Registration} (member : r ∈ s.registered) {later : List WheelEvent}
    (kept : .cancel r.jobId ∉ later) : r ∈ (later.foldl step s).registered := by
  induction later generalizing s with
  | nil => exact member
  | cons e later ih =>
    have keptLater := fun among => kept (List.mem_cons_of_mem e among)
    cases e with
    | schedule jobId fireAt now => exact ih (List.mem_append_left _ member) keptLater
    | cancel jobId =>
      have other : r.jobId ≠ jobId := by
        rintro rfl
        exact kept List.mem_cons_self
      exact ih (List.mem_filter.mpr ⟨member, decide_eq_true other⟩) keptLater
    | tick => exact ih member keptLater

theorem tickMs_foldl (s : Turning) (later : List WheelEvent) :
    (later.foldl step s).wheel.tickMs = s.wheel.tickMs := by
  induction later generalizing s with
  | nil => rfl
  | cons e later ih =>
    rw [List.foldl_cons, ih]
    cases e <;> rfl

/-- What is registered and not cancelled is owed at one tick, the one it is due at. -/
theorem mem_owed_after {r : Registration} (member : r ∈ s.registered) {later : List WheelEvent}
    (kept : .cancel r.jobId ∉ later) :
    r ∈ (later.foldl step s).owed ↔ r.dueTick s.wheel.tickMs = (later.foldl step s).ticks + 1 := by
  rw [owed, List.mem_filter, decide_eq_true_eq, and_iff_right (mem_registered_after member kept), tickMs_foldl]

end Turning

/-- **The time wheel in every history of registrations within a turn, cancellations and ticks.** Every tick
returns the jobs it owes, each once: of what was registered and not cancelled since, what is due at it, the
`max(1, delay / tick_ms)`-th tick after the registration. It comes before no time to fire exactly if what it
owes was registered on time, and so no tick is early in a history whose registrations all are. -/
theorem tick_returns_owed {tickMs n : Nat} (long : 0 < tickMs) (turns : 0 < n) (epoch : Int)
    {events : List WheelEvent}
    (within : Run.Each Turning.step Turning.Admits (Turning.start tickMs n turns) events) :
    (∀ s ∈ Run.states Turning.step (Turning.start tickMs n turns) events,
      s.wheel.tick.1 = s.owed.map Registration.jobId ∧
        (∀ r ∈ s.registered, ∀ later : List WheelEvent, .cancel r.jobId ∉ later →
          (r ∈ (later.foldl Turning.step s).owed ↔
            r.dueTick tickMs = (later.foldl Turning.step s).ticks + 1)) ∧
        (s.NeverEarly epoch ↔ ∀ r ∈ s.owed, r.OnTime tickMs epoch)) ∧
      (Run.Each Turning.step (Turning.Punctual epoch) (Turning.start tickMs n turns) events →
        ∀ s ∈ Run.states Turning.step (Turning.start tickMs n turns) events, s.NeverEarly epoch) := by
  have follows : ∀ s ∈ Run.states Turning.step (Turning.start tickMs n turns) events, s.Follows tickMs n :=
    within.invariant (fun _ _ held admits => held.step turns long admits) (Turning.follows_start turns)
  have early : ∀ s ∈ Run.states Turning.step (Turning.start tickMs n turns) events,
      (s.NeverEarly epoch ↔ ∀ r ∈ s.owed, r.OnTime tickMs epoch) := by
    intro s member
    have same := (follows s member).length_of_tick
    rw [Turning.neverEarly_iff (by rw [same]; exact long), same]
  constructor
  · intro s member
    refine ⟨(follows s member).returns turns, fun r among later kept => ?_, early s member⟩
    rw [Turning.mem_owed_after among kept, (follows s member).length_of_tick]
  · intro punctual s member
    have timely := punctual.invariant
      (I := fun s => ∀ r ∈ s.registered, r.OnTime s.wheel.tickMs epoch)
      (fun _ _ timely punctual => Turning.onTime_step timely punctual) (by simp [Turning.start]) s member
    refine (early s member).mpr fun r owed => ?_
    rw [← (follows s member).length_of_tick]
    exact timely r (List.mem_of_mem_filter owed)

/-- A wheel of three slots: one job right at a tick for two ticks later, one for the rest of a tick, and one that
is cancelled. -/
theorem tick_returns_owed_sample :
    let s := [.schedule 1 200 0, .tick, .schedule 2 190 150, .schedule 3 400 100, .cancel 3, .tick, .tick].foldl
      Turning.step (Turning.start 100 3 (by decide))
    s.wheel.tick.1 = s.owed.map Registration.jobId ∧ s.NeverEarly 0 :=
  ⟨((tick_returns_owed (by decide) (by decide) 0 (by decide)).1 _ (Run.foldl_mem_states _ _)).1,
    (tick_returns_owed (by decide) (by decide) 0 (by decide)).2 (by decide) _ (Run.foldl_mem_states _ _)⟩

/-- A job that is to fire at 199, registered at 99: its delay is one tick, and the next tick is at 100. -/
theorem tick_returns_early :
    let s := (Turning.start 100 3 (by decide)).step (.schedule 1 199 99)
    Run.Each Turning.step Turning.Admits (Turning.start 100 3 (by decide)) [.schedule 1 199 99] ∧
      s.wheel.tick.1 = [1] ∧ s.nextTick 0 = 100 ∧ ¬ s.NeverEarly 0 := by decide

end NovaRuntime.Scheduler
