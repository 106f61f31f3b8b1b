/-
# NovaRuntime.Executor.CircuitBreaker — calls that are cut off after failures

`nova_executor::circuit_breaker`. The four maps of the breaker are functions of the
subsystem, and instants and durations are nanoseconds of one clock. A call reads the clock
when it comes and when `f` has returned; what happens in between two statements takes no
time. `f` works on a world of its own, so that it can be seen whether it was called.
-/
import Mathlib.Logic.Function.Basic
import NovaRuntime.Executor.Pipeline

namespace NovaRuntime.Executor

open NovaRuntime.Library

set_option autoImplicit false

/-- `nova_core::RuntimeError`. -/
inductive RuntimeError where
  | notFound (text : Text)
  | alreadyExists (text : Text)
  | invalidArgument (text : Text)
  | permissionDenied (text : Text)
  | outOfMemory (text : Text)
  | storage (text : Text)
  | io (text : Text)
  | checksumMismatch (expected actual : UInt32)
  | corruptData (text : Text)
  | busy (text : Text)
  | timeout (text : Text)
  | transactionConflict (text : Text)
  | protocol (text : Text)
  | serialization (text : Text)
  | deserialization (text : Text)
  | internal (text : Text)
  | shuttingDown
  | transactionError (text : Text)
  | deadlockDetected (text : Text)
  | capacity (text : Text)
  deriving DecidableEq

namespace RuntimeError

/-- `{:#x}`. -/
def hexText (n : UInt32) : Text := "0x".toList ++ Nat.toDigits 16 n.toNat

def toText : RuntimeError → Text
  | .notFound t => "Not found: ".toList ++ t
  | .alreadyExists t => "Already exists: ".toList ++ t
  | .invalidArgument t => "Invalid argument: ".toList ++ t
  | .permissionDenied t => "Permission denied: ".toList ++ t
  | .outOfMemory t => "Out of memory: ".toList ++ t
  | .storage t => "Storage error: ".toList ++ t
  | .io t => "IO error: ".toList ++ t
  | .checksumMismatch expected actual =>
    "Checksum mismatch: expected ".toList ++ hexText expected ++ ", got ".toList ++ hexText actual
  | .corruptData t => "Corrupt data: ".toList ++ t
  | .busy t => "Busy: ".toList ++ t
  | .timeout t => "Timeout: ".toList ++ t
  | .transactionConflict t => "Transaction conflict: ".toList ++ t
  | .protocol t => "Protocol error: ".toList ++ t
  | .serialization t => "Serialization error: ".toList ++ t
  | .deserialization t => "Deserialization error: ".toList ++ t
  | .internal t => "Internal: ".toList ++ t
  | .shuttingDown => "Shutting down".toList
  | .transactionError t => "Transaction error: ".toList ++ t
  | .deadlockDetected t => "Deadlock detected: ".toList ++ t
  | .capacity t => "Capacity exceeded: ".toList ++ t

def isTrackedFailure : RuntimeError → Bool
  | .timeout _ => true
  | .transactionConflict _ => true
  | .deadlockDetected _ => true
  | .transactionError _ => true
  | .busy _ => true
  | .io _ => true
  | _ => false

end RuntimeError

inductive CircuitError where
  | open_
  | failure (text : Text)
  deriving DecidableEq

structure CircuitConfig where
  failureThreshold : Nat
  successThreshold : Nat
  halfOpenTimeout : Nat
  window : Nat
  deriving DecidableEq

structure CircuitBreaker where
  state : SubsystemId → Option CircuitState
  failureCount : SubsystemId → Option Nat
  successCount : SubsystemId → Option Nat
  lastStateChange : SubsystemId → Option Nat
  opens : Nat
  halfOpens : Nat
  closes : Nat
  rejected : Nat

namespace CircuitBreaker

def new : CircuitBreaker := ⟨fun _ => none, fun _ => none, fun _ => none, fun _ => none, 0, 0, 0, 0⟩

section

variable (config : CircuitConfig) (b : CircuitBreaker) (subsystem : SubsystemId)

def getState : CircuitState := (b.state subsystem).getD .closed

/-- The counters of the changes. -/
def countChange : CircuitState → CircuitBreaker
  | .opened _ => { b with opens := b.opens + 1 }
  | .halfOpen => { b with halfOpens := b.halfOpens + 1 }
  | .closed => { b with closes := b.closes + 1 }

def transition (now : Nat) (newState : CircuitState) : CircuitBreaker :=
  countChange { b with
    state := Function.update b.state subsystem (some newState)
    lastStateChange := Function.update b.lastStateChange subsystem (some now) } newState

def open_ (now : Nat) : CircuitBreaker :=
  let b := b.transition subsystem now (.opened (now + config.halfOpenTimeout))
  { b with failureCount := Function.update b.failureCount subsystem none }

def close (now : Nat) : CircuitBreaker :=
  let b := b.transition subsystem now .closed
  { b with
    failureCount := Function.update b.failureCount subsystem none
    successCount := Function.update b.successCount subsystem none }

/-- After `f` succeeded. -/
def succeeded (now : Nat) : CircuitBreaker :=
  let count := (b.successCount subsystem).getD 0 + 1
  let b := { b with successCount := Function.update b.successCount subsystem (some count) }
  if count ≥ config.successThreshold ∧ b.state subsystem = some .halfOpen then b.close subsystem now else b

/-- After a tracked failure: the count starts again when the last change of state is longer
ago than the window. -/
def failed (now : Nat) : CircuitBreaker :=
  let shouldReset := (b.lastStateChange subsystem).any fun last => config.window < now - last
  let count := (if shouldReset then 0 else (b.failureCount subsystem).getD 0) + 1
  let b := { b with failureCount := Function.update b.failureCount subsystem (some count) }
  if count ≥ config.failureThreshold then b.open_ config subsystem now else b

variable {W T : Type}

/-- What is done with the outcome of `f`. -/
def finish (done : Nat) : Except RuntimeError T × W → CircuitBreaker × Except CircuitError T × W
  | (.ok result, world) => (b.succeeded config subsystem done, .ok result, world)
  | (.error e, world) =>
    (if e.isTrackedFailure then b.failed config subsystem done else b, .error (.failure e.toText), world)

def execute (start done : Nat) (f : W → Except RuntimeError T × W) (world : W) :
    CircuitBreaker × Except CircuitError T × W :=
  match b.getState subsystem with
  | .opened until_ =>
    if start < until_ then ({ b with rejected := b.rejected + 1 }, .error .open_, world)
    else (b.transition subsystem start .halfOpen).finish config subsystem done (f world)
  | _ => b.finish config subsystem done (f world)

end

/-! ## What a call changes -/

section

variable {config : CircuitConfig} {b : CircuitBreaker} {subsystem s : SubsystemId} {now : Nat}

@[simp] theorem countChange_state (c : CircuitState) : (b.countChange c).state = b.state := by cases c <;> rfl

@[simp] theorem countChange_failureCount (c : CircuitState) : (b.countChange c).failureCount = b.failureCount := by
  cases c <;> rfl

@[simp] theorem countChange_successCount (c : CircuitState) : (b.countChange c).successCount = b.successCount := by
  cases c <;> rfl

@[simp] theorem countChange_lastStateChange (c : CircuitState) :
    (b.countChange c).lastStateChange = b.lastStateChange := by
  cases c <;> rfl

/-- What the maps have of one subsystem. -/
structure Entries where
  state : Option CircuitState
  failureCount : Option Nat
  successCount : Option Nat
  lastStateChange : Option Nat

def entries (b : CircuitBreaker) (s : SubsystemId) : Entries :=
  ⟨b.state s, b.failureCount s, b.successCount s, b.lastStateChange s⟩

theorem transition_other (other : s ≠ subsystem) (c : CircuitState) :
    (b.transition subsystem now c).entries s = b.entries s := by
  simp [transition, entries, other]

theorem transition_same (c : CircuitState) : (b.transition subsystem now c).entries subsystem =
    ⟨some c, b.failureCount subsystem, b.successCount subsystem, some now⟩ := by
  simp [transition, entries]

theorem succeeded_other (other : s ≠ subsystem) : (b.succeeded config subsystem now).entries s = b.entries s := by
  rw [succeeded]
  split <;> simp [close, transition, entries, other]

/-- A success closes a circuit that is half open, with the successes it has counted. -/
theorem succeeded_same : (b.succeeded config subsystem now).entries subsystem =
    if (b.successCount subsystem).getD 0 + 1 ≥ config.successThreshold ∧ b.state subsystem = some .halfOpen then
      ⟨some .closed, none, none, some now⟩
    else ⟨b.state subsystem, b.failureCount subsystem, some ((b.successCount subsystem).getD 0 + 1),
      b.lastStateChange subsystem⟩ := by
  rw [succeeded]
  dsimp only
  split <;> simp [close, transition, entries]

/-- The failures that are counted after one more. -/
def failuresAfter (config : CircuitConfig) (b : CircuitBreaker) (s : SubsystemId) (now : Nat) : Nat :=
  (if (b.lastStateChange s).any fun last => config.window < now - last then 0 else (b.failureCount s).getD 0) + 1

theorem failed_eq : b.failed config subsystem now =
    let counted := { b with
      failureCount := Function.update b.failureCount subsystem (some (b.failuresAfter config subsystem now)) }
    if b.failuresAfter config subsystem now ≥ config.failureThreshold then counted.open_ config subsystem now
    else counted := rfl

theorem failed_other (other : s ≠ subsystem) : (b.failed config subsystem now).entries s = b.entries s := by
  rw [failed_eq]
  dsimp only
  split <;> simp [open_, transition, entries, other]

theorem failed_same : (b.failed config subsystem now).entries subsystem =
    if b.failuresAfter config subsystem now ≥ config.failureThreshold then
      ⟨some (.opened (now + config.halfOpenTimeout)), none, b.successCount subsystem, some now⟩
    else ⟨b.state subsystem, some (b.failuresAfter config subsystem now), b.successCount subsystem,
      b.lastStateChange subsystem⟩ := by
  rw [failed_eq]
  dsimp only
  split <;> simp [open_, transition, entries]

end

end CircuitBreaker

end NovaRuntime.Executor
