/-
# NovaRuntime.Library.TokenBucket — buckets of tokens that refill with time

A bucket holds tokens up to its capacity and gains them at a rate. Its level at an instant is
what it would hold then. Looking at a bucket changes no level (`level_refill`), taking an
amount lowers it by that amount (`level_consume`), and it rises no faster than the rate
(`level_le_add`), which is all that a bound on what was taken in an interval needs
(`Spent.consume`, `Spent.bound`).
-/
import Mathlib.Algebra.Order.Field.Basic
import Mathlib.Tactic.Linarith
import Mathlib.Tactic.Ring

namespace NovaRuntime.Library

set_option autoImplicit false

/-- A bucket with between no tokens and as many as it can hold. -/
@[ext]
structure TokenBucket (K : Type) [Field K] [LinearOrder K] where
  tokens : K
  capacity : K
  rate : K
  last : K
  nonneg : 0 ≤ tokens
  le_capacity : tokens ≤ capacity
  rate_nonneg : 0 ≤ rate

namespace TokenBucket

variable {K : Type} [Field K] [LinearOrder K] [IsStrictOrderedRing K]

/-- A full bucket. -/
def new (rate burst : K) (rate_nonneg : 0 ≤ rate) (burst_nonneg : 0 ≤ burst) (now : K) : TokenBucket K :=
  ⟨burst, burst, rate, now, burst_nonneg, le_rfl, rate_nonneg⟩

variable (b : TokenBucket K)

/-- What the bucket holds at an instant. -/
def level (now : K) : K := min b.capacity (b.tokens + max 0 (now - b.last) * b.rate)

variable {b} {now later amount : K}

omit [IsStrictOrderedRing K] in
theorem level_le_capacity : b.level now ≤ b.capacity := min_le_left _ _

theorem level_nonneg : 0 ≤ b.level now :=
  le_min (le_trans b.nonneg b.le_capacity) (add_nonneg b.nonneg (mul_nonneg (le_max_left _ _) b.rate_nonneg))

variable (b) in
/-- The tokens that came since the last look are put in. -/
def refill (now : K) : TokenBucket K :=
  if b.last < now then
    { b with tokens := b.level now, last := now, nonneg := level_nonneg, le_capacity := level_le_capacity }
  else b

variable (b) in
def consume (amount now : K) (amount_nonneg : 0 ≤ amount) : TokenBucket K × Bool :=
  if enough : amount ≤ (b.refill now).tokens then
    ({ b.refill now with
        tokens := (b.refill now).tokens - amount
        nonneg := sub_nonneg.mpr enough
        le_capacity := le_trans (sub_le_self _ amount_nonneg) (b.refill now).le_capacity }, true)
  else (b.refill now, false)

/-! ## Levels -/

theorem level_of_le (early : now ≤ b.last) : b.level now = b.tokens := by
  rw [level, max_eq_left (sub_nonpos.mpr early), zero_mul, add_zero, min_eq_right b.le_capacity]

theorem level_of_ge (late : b.last ≤ now) : b.level now = min b.capacity (b.tokens + (now - b.last) * b.rate) := by
  rw [level, max_eq_right (sub_nonneg.mpr late)]

theorem level_new {rate burst : K} {rate_nonneg : 0 ≤ rate} {burst_nonneg : 0 ≤ burst} :
    (new rate burst rate_nonneg burst_nonneg later).level now = burst :=
  min_eq_left (le_add_of_nonneg_right (mul_nonneg (le_max_left _ _) rate_nonneg))

theorem refill_tokens : (b.refill now).tokens = b.level now := by
  rw [refill]
  split
  · rfl
  next early => exact (level_of_le (not_lt.mp early)).symm

@[simp] theorem refill_capacity : (b.refill now).capacity = b.capacity := by
  rw [refill]
  split <;> rfl

@[simp] theorem refill_rate : (b.refill now).rate = b.rate := by
  rw [refill]
  split <;> rfl

theorem refill_last : (b.refill now).last = max b.last now := by
  rw [refill]
  split
  next late => exact (max_eq_right (le_of_lt late)).symm
  next early => exact (max_eq_left (not_lt.mp early)).symm

theorem level_le_add (order : now ≤ later) : b.level later ≤ b.level now + (later - now) * b.rate := by
  have gain : max 0 (later - b.last) ≤ max 0 (now - b.last) + (later - now) :=
    max_le (add_nonneg (le_max_left _ _) (sub_nonneg.mpr order))
      (by linarith [le_max_right 0 (now - b.last)])
  have grown := mul_le_mul_of_nonneg_right gain b.rate_nonneg
  have extra := mul_nonneg (sub_nonneg.mpr order) b.rate_nonneg
  rw [add_mul] at grown
  rw [level, level, min_add]
  exact le_min (min_le_of_left_le (by linarith)) (min_le_of_right_le (by linarith))

/-- **Looking at a bucket** changes no level. -/
theorem level_refill (early : b.last ≤ now) (order : now ≤ later) : (b.refill now).level later = b.level later := by
  rw [refill]
  split
  next late =>
    have gain := mul_nonneg (sub_nonneg.mpr order) b.rate_nonneg
    have total : b.tokens + (now - b.last) * b.rate + (later - now) * b.rate = b.tokens + (later - b.last) * b.rate := by
      ring
    rw [level_of_ge order, level_of_ge (le_trans early order)]
    dsimp only
    rw [level_of_ge early, min_add, total, ← min_assoc, min_eq_left (le_add_of_nonneg_right gain)]
  next => rfl

/-- And leaves nothing to be seen by a later look. -/
theorem refill_refill (early : b.last ≤ now) (order : now ≤ later) : (b.refill now).refill later = b.refill later := by
  apply TokenBucket.ext
  · rw [refill_tokens, refill_tokens, level_refill early order]
  · rw [refill_capacity, refill_capacity, refill_capacity]
  · rw [refill_rate, refill_rate, refill_rate]
  · rw [refill_last, refill_last, refill_last, max_assoc, max_eq_right order]

variable {amount_nonneg : 0 ≤ amount}

theorem consume_refill (early : b.last ≤ now) (order : now ≤ later) :
    (b.refill now).consume amount later amount_nonneg = b.consume amount later amount_nonneg := by
  simp only [consume, refill_refill early order]

theorem consume_snd : (b.consume amount now amount_nonneg).2 = true ↔ amount ≤ b.level now := by
  rw [consume, ← refill_tokens]
  split
  next enough => exact iff_of_true rfl enough
  next short => exact iff_of_false Bool.false_ne_true short

theorem consume_short (short : b.level now < amount) : (b.consume amount now amount_nonneg).1 = b.refill now := by
  rw [consume, dif_neg (by rw [refill_tokens]; exact not_le.mpr short)]

@[simp] theorem consume_capacity : (b.consume amount now amount_nonneg).1.capacity = b.capacity := by
  rw [consume]
  split <;> exact refill_capacity

@[simp] theorem consume_rate : (b.consume amount now amount_nonneg).1.rate = b.rate := by
  rw [consume]
  split <;> exact refill_rate

theorem consume_last : (b.consume amount now amount_nonneg).1.last = max b.last now := by
  rw [consume]
  split <;> exact refill_last

/-- **Taking an amount** lowers the level by it. -/
theorem level_consume (early : b.last ≤ now) (enough : amount ≤ b.level now) :
    (b.consume amount now amount_nonneg).1.level now = b.level now - amount := by
  have last : (b.consume amount now amount_nonneg).1.last = now := by rw [consume_last, max_eq_right early]
  rw [level_of_le (le_of_eq last.symm), consume, dif_pos (by rwa [refill_tokens])]
  dsimp only
  rw [refill_tokens]

/-! ## What is taken in an interval -/

variable (b) in
/-- What was taken since an instant leaves this. -/
def Spent (since now taken : K) : Prop := taken + b.level now ≤ b.capacity + (now - since) * b.rate

variable {since taken : K}

/-- Nothing was taken since. -/
theorem Spent.start (order : since ≤ now) : b.Spent since now 0 := by
  rw [Spent, zero_add]
  exact le_add_of_le_of_nonneg level_le_capacity (mul_nonneg (sub_nonneg.mpr order) b.rate_nonneg)

section

variable (spent : b.Spent since now taken)

include spent

theorem Spent.less {fewer : K} (order : fewer ≤ taken) : b.Spent since now fewer :=
  le_trans (add_le_add_left order _) spent

theorem Spent.wait (order : now ≤ later) : b.Spent since later taken := by
  rw [Spent] at spent ⊢
  have risen := b.level_le_add order
  have total : (now - since) * b.rate + (later - now) * b.rate = (later - since) * b.rate := by ring
  linarith

theorem Spent.refill (early : b.last ≤ now) : (b.refill now).Spent since now taken := by
  rw [Spent, level_refill early (le_rfl), refill_capacity, refill_rate]
  exact spent

/-- **A token that is taken** is one that the level has less. -/
theorem Spent.consume (early : b.last ≤ now) (enough : amount ≤ b.level now) :
    (b.consume amount now amount_nonneg).1.Spent since now (taken + amount) := by
  rw [Spent] at spent ⊢
  rw [level_consume early enough, consume_capacity, consume_rate]
  linarith

/-- **The bound**: no more is taken than a full bucket and what came in since. -/
theorem Spent.bound : taken ≤ b.capacity + (now - since) * b.rate := by
  rw [Spent] at spent
  have rest : 0 ≤ b.level now := level_nonneg
  linarith

end

end TokenBucket

end NovaRuntime.Library
