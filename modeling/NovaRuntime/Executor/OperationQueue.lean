/-
# NovaRuntime.Executor.OperationQueue — four queues and how operations age

`nova_executor::operation_queue`. The array of queues is a function of the priority. Of an
operation the queue reads the priority, three instants in nanoseconds and the age; the rest
of its request and of its context, and where its completion is sent, is the job `J`.
-/
import Mathlib.Logic.Function.Basic
import NovaRuntime.Executor.Types

namespace NovaRuntime.Executor

open NovaRuntime.Library

set_option autoImplicit false

inductive Priority where
  | critical
  | high
  | normal
  | background
  deriving DecidableEq

namespace Priority

/-- A `Duration`, as nanoseconds. -/
def maxWait : Priority → Nat
  | .critical => 100000000
  | .high => 500000000
  | .normal => 2000000000
  | .background => 10000000000

def ageUp : Priority → Option Priority
  | .background => some .normal
  | .normal => some .high
  | _ => none

/-- The index into the array of queues. -/
def index : Priority → Nat
  | .critical => 0
  | .high => 1
  | .normal => 2
  | .background => 3

/-- `capacity_by_priority`. -/
def capacity : Priority → Nat
  | .critical => 64
  | .high => 128
  | .normal => 512
  | .background => 320

end Priority

structure PendingOperation (J : Type) where
  job : J
  operationPriority : Priority
  submittedAt : Nat
  deadline : Nat
  priorityAge : Nat
  deriving DecidableEq

abbrev Queues (J : Type) := Priority → List (PendingOperation J)

structure OperationQueue (J : Type) where
  queues : Queues J
  depth : Nat
  currentDepth : Nat
  rejectedCount : Nat
  waitTimeTotal : UInt64
  waitTimeCount : UInt64

section

variable {J : Type}

/-! ## Ageing -/

/-- The operation has waited for its priority, and did not age three times. -/
def PendingOperation.waited (now : Nat) (op : PendingOperation J) : Bool :=
  op.operationPriority.maxWait ≤ now - op.submittedAt && op.priorityAge < 3

namespace Queues

variable (queues : Queues J)

/-- The scan of a queue from the back: what stays, and what is taken out, in the order it is. -/
def takeBackwards (p : PendingOperation J → Bool) (ops : List (PendingOperation J)) :
    List (PendingOperation J) × List (PendingOperation J) :=
  ops.foldr (fun op found => if p op then (found.1, found.2 ++ [op]) else (op :: found.1, found.2)) ([], [])

def pushBack (level : Priority) (op : PendingOperation J) : Queues J :=
  Function.update queues level (queues level ++ [op])

/-- One turn of the loop over `to_promote`. -/
def promote (level : Priority) (op : PendingOperation J) : Queues J :=
  match op.operationPriority.ageUp with
  | some newPriority =>
    queues.pushBack newPriority { op with operationPriority := newPriority, priorityAge := op.priorityAge + 1 }
  -- already at the highest priority: the operation is kept, at the end of its queue
  | none => queues.pushBack level { op with priorityAge := op.priorityAge + 1 }

/-- One level of the ageing in `pop_priority`. -/
def ageLevel (now : Nat) (level : Priority) : Queues J :=
  let found := takeBackwards (PendingOperation.waited now) (queues level)
  found.2.foldl (fun queues op => queues.promote level op) (Function.update queues level found.1)

def age (now : Nat) : Queues J :=
  ((queues.ageLevel now .background).ageLevel now .normal).ageLevel now .high

/-- The front of the first queue that is not empty. -/
def popFront : List Priority → Option (PendingOperation J × Queues J)
  | [] => none
  | level :: levels =>
    match queues level with
    | op :: rest => some (op, Function.update queues level rest)
    | [] => popFront levels

end Queues

/-! ## The queue -/

def Priority.all : List Priority := [.critical, .high, .normal, .background]

namespace OperationQueue

def new : OperationQueue J := ⟨fun _ => [], 0, 0, 0, 0, 0⟩

variable (q : OperationQueue J)

def push (capacity : Nat) (op : PendingOperation J) : OperationQueue J × Except OperationResponse Unit :=
  if q.depth ≥ capacity then
    ({ q with rejectedCount := q.rejectedCount + 1 },
      .error (.ofCode .serviceUnavailable "Queue capacity exceeded".toList))
  else if (q.queues op.operationPriority).length ≥ op.operationPriority.capacity then
    ({ q with rejectedCount := q.rejectedCount + 1 },
      .error (.ofCode .serviceUnavailable "Priority queue capacity exceeded".toList))
  else
    ({ q with
        queues := q.queues.pushBack op.operationPriority op
        depth := q.depth + 1
        currentDepth := q.depth + 1 }, .ok ())

def popPriority (now : Nat) : OperationQueue J × Option (PendingOperation J) :=
  if q.depth = 0 then (q, none)
  else
    match (q.queues.age now).popFront Priority.all with
    | some (op, queues) =>
      ({ q with
          queues
          depth := q.depth - 1
          currentDepth := q.depth - 1
          waitTimeTotal := q.waitTimeTotal + UInt64.ofNat (now - op.submittedAt)
          waitTimeCount := q.waitTimeCount + 1 }, some op)
    | none => ({ q with queues := q.queues.age now }, none)

/-- The completions that are sent, and how many operations there were. -/
def cancelAll (reason : Text) : OperationQueue J × List (PendingOperation J × OperationResponse) × Nat :=
  let ops := Priority.all.flatMap q.queues
  ({ q with queues := fun _ => [], depth := 0, currentDepth := 0 },
    ops.map fun op => (op, .ofCode .cancelled reason), ops.length)

def drain (deadline : Nat) : OperationQueue J × List (PendingOperation J) :=
  let found (level : Priority) := Queues.takeBackwards (fun op => op.deadline ≤ deadline) (q.queues level)
  let expired := Priority.all.flatMap fun level => (found level).2
  ({ q with
      queues := fun level => (found level).1
      depth := q.depth - expired.length
      currentDepth := q.depth - expired.length }, expired)

def len : Nat := q.currentDepth

end OperationQueue

/-! ## The scan from the back -/

/-- **What a scan from the back takes out** comes out backwards. -/
theorem Queues.takeBackwards_eq (p : PendingOperation J → Bool) (ops : List (PendingOperation J)) :
    Queues.takeBackwards p ops = (ops.filter fun op => !p op, (ops.filter p).reverse) := by
  induction ops with
  | nil => rfl
  | cons op ops ih =>
    rw [takeBackwards, List.foldr_cons]
    rw [takeBackwards] at ih
    rw [ih]
    cases waits : p op <;> simp [waits]

end

end NovaRuntime.Executor
