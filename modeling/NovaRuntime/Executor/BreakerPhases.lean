/-
# NovaRuntime.Executor.BreakerPhases — when a circuit opens and closes

What a circuit breaker is for: `Phase` is a closed circuit with its tracked failures, an open
one, or one that is half open with the successes since. A `Watch` keeps the phases beside
the breaker. The breaker counts otherwise: failures from before the window as long as it
was never opened, none of a window that began after the last change, a failure in half open
as the first of a threshold, and successes since the circuit was last closed. It is in its
phase in every state of a run exactly when no call tells these apart (`in_phase_iff`).
-/
import NovaRuntime.Executor.CircuitBreaker
import NovaRuntime.Library.Runs

namespace NovaRuntime.Executor

open NovaRuntime.Library

set_option autoImplicit false

/-! ## Phases -/

inductive Phase where
  /-- The instants of the tracked failures since the circuit was closed, the latest first. -/
  | closed (failures : List Nat)
  | open_ (until_ : Nat)
  | halfOpen (successes : Nat)
  deriving DecidableEq

namespace Phase

variable (config : CircuitConfig)

def state : Phase → CircuitState
  | .closed _ => .closed
  | .open_ until_ => .opened until_
  | .halfOpen _ => .halfOpen

/-- The phase that a call runs in; none, if it is rejected. -/
def enter (start : Nat) : Phase → Option Phase
  | .open_ until_ => if start < until_ then none else some (.halfOpen 0)
  | .closed failures => some (.closed failures)
  | .halfOpen successes => some (.halfOpen successes)

/-- The failures of the last window. -/
def recent (now : Nat) (failures : List Nat) : List Nat := failures.filter fun t => now - t ≤ config.window

def fail (now : Nat) : Phase → Phase
  | .closed failures =>
    if config.failureThreshold ≤ (recent config now (now :: failures)).length then .open_ (now + config.halfOpenTimeout)
    else .closed (now :: failures)
  | .halfOpen _ => .open_ (now + config.halfOpenTimeout)
  | p => p

end Phase

/-! ## A watch beside the breaker -/

/-- What happened to one subsystem. -/
structure Past where
  phase : Phase
  /-- When the circuit was last closed again. -/
  closedAt : Option Nat
  /-- The successes since then, or from the start. -/
  successes : Nat
  deriving DecidableEq

structure CircuitCall where
  subsystem : SubsystemId
  /-- From the last call to this one. -/
  wait : Nat
  /-- How long `f` takes. -/
  run : Nat
  outcome : Except RuntimeError Unit

namespace Past

variable (config : CircuitConfig)

def new : Past := ⟨.closed [], none, 0⟩

def succeed (p : Past) (now : Nat) : Past :=
  match p.phase with
  | .halfOpen successes =>
    if config.successThreshold ≤ successes + 1 then ⟨.closed [], some now, 0⟩
    else { p with phase := .halfOpen (successes + 1), successes := p.successes + 1 }
  | _ => { p with successes := p.successes + 1 }

/-- After `f`. -/
def finish (p : Past) (done : Nat) : Except RuntimeError Unit → Past
  | .ok _ => p.succeed config done
  | .error e => if e.isTrackedFailure then { p with phase := p.phase.fail config done } else p

def step (p : Past) (start done : Nat) (outcome : Except RuntimeError Unit) : Past :=
  (p.phase.enter start).elim p fun phase => finish config { p with phase } done outcome

end Past

structure Watch where
  breaker : CircuitBreaker
  past : SubsystemId → Past
  clock : Nat

namespace Watch

variable (config : CircuitConfig)

def start (clock : Nat) : Watch := ⟨.new, fun _ => .new, clock⟩

def step (w : Watch) (call : CircuitCall) : Watch where
  breaker := (w.breaker.execute config call.subsystem (w.clock + call.wait) (w.clock + call.wait + call.run)
    (fun world : Unit => (call.outcome, world)) ()).1
  past := Function.update w.past call.subsystem
    ((w.past call.subsystem).step config (w.clock + call.wait) (w.clock + call.wait + call.run) call.outcome)
  clock := w.clock + call.wait + call.run

/-- **The circuit is in its phase**, and a call is rejected, without calling `f`, exactly
when the phase says so. -/
structure InPhase (w : Watch) : Prop where
  state : ∀ s, w.breaker.getState s = (w.past s).phase.state
  rejects : ∀ (s : SubsystemId) (start done : Nat) (W T : Type) (f : W → Except RuntimeError T × W) (world : W),
    (w.past s).phase.enter start = none →
      (w.breaker.execute config s start done f world).2 = (.error .open_, world)
  calls : ∀ (s : SubsystemId) (start done : Nat) (W T : Type) (f : W → Except RuntimeError T × W) (world : W),
    (w.past s).phase.enter start ≠ none →
      (w.breaker.execute config s start done f world).2 =
        ((f world).1.mapError fun e => .failure e.toText, (f world).2)

/-- **What tells the counts apart**, for a call that runs in a phase. -/
def CleanIn (p : Past) (done : Nat) (outcome : Except RuntimeError Unit) : Phase → Prop
  | .closed failures => (∃ e, outcome = .error e ∧ e.isTrackedFailure) →
      -- what left the window does not make up the threshold, and after a change of state there
      -- is no threshold to reach beyond a window
      match p.closedAt with
      | none => config.failureThreshold ≤ failures.length + 1 →
          config.failureThreshold ≤ (Phase.recent config done (done :: failures)).length
      | some closed => closed + config.window < done →
          config.failureThreshold ≤ (Phase.recent config done (done :: failures)).length → config.failureThreshold ≤ 1
  | .halfOpen successes =>
    ((∃ e, outcome = .error e ∧ e.isTrackedFailure) → config.failureThreshold ≤ 1) ∧
      (outcome.toBool → config.successThreshold ≤ p.successes + 1 → config.successThreshold ≤ successes + 1)
  | .open_ _ => True

def Clean (w : Watch) (call : CircuitCall) : Prop :=
  ∀ phase ∈ (w.past call.subsystem).phase.enter (w.clock + call.wait),
    CleanIn config (w.past call.subsystem) (w.clock + call.wait + call.run) call.outcome phase

/-! ## The counts of the breaker -/

/-- The failures that the breaker has counted. -/
def counted (p : Past) : Nat :=
  match p.phase, p.closedAt with
  | .closed failures, none => failures.length
  | .closed failures, some closed =>
    if failures.any fun t => closed + config.window < t then 1 else failures.length
  | _, _ => 0

/-- **The entries of a subsystem** are what its past makes of them. -/
structure Tied (now : Nat) (entries : CircuitBreaker.Entries) (p : Past) : Prop where
  state : entries.state.getD .closed = p.phase.state
  successes : entries.successCount.getD 0 = p.successes
  failures : entries.failureCount.getD 0 = counted config p
  closed : ∀ failures, p.phase = .closed failures →
    entries.lastStateChange = p.closedAt ∧ ∀ t ∈ failures, t ≤ now ∧ ∀ c ∈ p.closedAt, c ≤ t
  since : ∀ c ∈ p.closedAt, c ≤ now
  halfOpen : ∀ successes, p.phase = .halfOpen successes → successes ≤ p.successes

variable {config} {w : Watch} {b : CircuitBreaker} {s : SubsystemId} {p : Past} {now done : Nat}

theorem getState_eq : b.getState s = (b.entries s).state.getD .closed := rfl

theorem tied_new : Tied config now (CircuitBreaker.new.entries s) .new := by
  refine ⟨rfl, rfl, rfl, ?_, ?_, ?_⟩
  · rintro _ ⟨⟩
    exact ⟨rfl, fun t absent => nomatch absent⟩
  · rintro _ ⟨⟩
  · rintro _ ⟨⟩

theorem Tied.later {entries : CircuitBreaker.Entries} (tied : Tied config now entries p) (order : now ≤ done) :
    Tied config done entries p where
  state := tied.state
  successes := tied.successes
  failures := tied.failures
  closed failures here := ⟨(tied.closed failures here).1, fun t member =>
    ⟨Nat.le_trans ((tied.closed failures here).2 t member).1 order, ((tied.closed failures here).2 t member).2⟩⟩
  since c here := Nat.le_trans (tied.since c here) order
  halfOpen := tied.halfOpen

/-! ### Successes -/

theorem succeeded_closed {failures : List Nat} (tied : Tied config done (b.entries s) p)
    (here : p.phase = .closed failures) :
    Tied config done ((b.succeeded config s done).entries s) (p.succeed config done) := by
  have state : b.state s ≠ some .halfOpen := by
    intro halfOpen
    have same : (b.state s).getD .closed = p.phase.state := tied.state
    rw [halfOpen, here] at same
    cases same
  obtain ⟨phase, closedAt, total⟩ := p
  cases here
  rw [CircuitBreaker.succeeded_same, if_neg fun both => state both.2]
  exact ⟨tied.state, congrArg (· + 1) tied.successes, tied.failures, tied.closed, tied.since,
    by rintro _ ⟨⟩⟩

theorem state_eq (tied : Tied config now (b.entries s) p) {c : CircuitState} (here : p.phase.state = c)
    (other : c ≠ .closed) : b.state s = some c := by
  have same : (b.state s).getD .closed = p.phase.state := tied.state
  cases known : b.state s with
  | none =>
    rw [known, here] at same
    exact absurd same.symm other
  | some c' =>
    rw [known, here] at same
    exact congrArg some same

/-- **In half open** the breaker takes the successes since it was last closed for those since
it is half open. -/
theorem succeeded_halfOpen {n : Nat} (tied : Tied config done (b.entries s) p) (here : p.phase = .halfOpen n) :
    ((b.succeeded config s done).getState s = (p.succeed config done).phase.state ↔
        (config.successThreshold ≤ p.successes + 1 → config.successThreshold ≤ n + 1)) ∧
      ((config.successThreshold ≤ p.successes + 1 → config.successThreshold ≤ n + 1) →
        Tied config done ((b.succeeded config s done).entries s) (p.succeed config done)) := by
  have state : b.state s = some .halfOpen := state_eq tied (by rw [here]; rfl) CircuitState.noConfusion
  have count : (b.successCount s).getD 0 = p.successes := tied.successes
  have fewer := tied.halfOpen n here
  obtain ⟨phase, closedAt, total⟩ := p
  cases here
  rw [getState_eq, CircuitBreaker.succeeded_same, count, Past.succeed]
  dsimp only
  by_cases enough : config.successThreshold ≤ n + 1
  · rw [if_pos enough, if_pos ⟨Nat.le_trans enough (Nat.succ_le_succ fewer), state⟩]
    refine ⟨iff_of_true rfl fun _ => enough, fun _ => ⟨rfl, rfl, rfl, ?_, ?_, ?_⟩⟩
    · rintro _ ⟨⟩
      exact ⟨rfl, fun t absent => nomatch absent⟩
    · rintro _ ⟨⟩
      exact le_rfl
    · rintro _ ⟨⟩
  · rw [if_neg enough]
    by_cases leaked : total + 1 ≥ config.successThreshold
    · rw [if_pos ⟨leaked, state⟩]
      exact ⟨iff_of_false (by rintro ⟨⟩) fun all => enough (all leaked), fun all => absurd (all leaked) enough⟩
    · rw [if_neg fun both => leaked both.1, state]
      refine ⟨iff_of_true rfl fun below => absurd below leaked, fun _ => ⟨rfl, rfl, tied.failures, ?_, tied.since, ?_⟩⟩
      · rintro _ ⟨⟩
      · rintro _ ⟨⟩
        exact Nat.succ_le_succ fewer

/-! ### Failures -/

/-- **In a closed circuit** the breaker counts what is in the window only as long as the last
change of state is. -/
theorem failuresAfter_closed {failures : List Nat} (tied : Tied config done (b.entries s) p)
    (here : p.phase = .closed failures) :
    b.failuresAfter config s done = counted config { p with phase := .closed (done :: failures) } := by
  have count : (b.failureCount s).getD 0 = counted config p := tied.failures
  obtain ⟨change, past⟩ := tied.closed failures here
  have change : b.lastStateChange s = p.closedAt := change
  obtain ⟨phase, closedAt, total⟩ := p
  cases here
  rw [CircuitBreaker.failuresAfter, change, count, counted, counted]
  cases closedAt with
  | none => rfl
  | some c =>
    dsimp only
    rw [Option.any_some, List.any_cons]
    by_cases late : c + config.window < done
    · have long : config.window < done - c := by omega
      simp [late, long]
    · have short : ¬ config.window < done - c := by omega
      have none_late : (failures.any fun t => c + config.window < t) = false := by
        rw [List.any_eq_false]
        intro t member
        have := (past t member).1
        simp
        omega
      simp [late, short, none_late]

theorem one_le_recent (config : CircuitConfig) (done : Nat) (failures : List Nat) : 1 ≤ (Phase.recent config done (done :: failures)).length := by
  simp [Phase.recent]

theorem recent_le (config : CircuitConfig) (done : Nat) (failures : List Nat) :
    (Phase.recent config done (done :: failures)).length ≤ failures.length + 1 := List.length_filter_le _ _

section

variable (tied : Tied config done (b.entries s) p)

include tied

/-- The two counts reach the threshold together exactly for a clean call. -/
theorem reach_iff {failures : List Nat} (here : p.phase = .closed failures)
    {e : RuntimeError} (tracked : e.isTrackedFailure) :
    (config.failureThreshold ≤ counted config { p with phase := .closed (done :: failures) } ↔
        config.failureThreshold ≤ (Phase.recent config done (done :: failures)).length) ↔
      CleanIn config p done (.error e) (.closed failures) := by
  have one := one_le_recent config done failures
  have most := recent_le config done failures
  have past := (tied.closed failures here).2
  have since := tied.since
  rw [CleanIn, forall_prop_of_true ⟨e, rfl, tracked⟩, counted]
  obtain ⟨phase, closedAt, total⟩ := p
  cases closedAt with
  | none =>
    dsimp only
    rw [List.length_cons]
    omega
  | some c =>
    dsimp only
    have earlier := since c rfl
    by_cases late : c + config.window < done
    · rw [List.any_cons, decide_eq_true late, Bool.true_or, if_pos rfl]
      omega
    · have all : Phase.recent config done (done :: failures) = done :: failures := by
        rw [Phase.recent, List.filter_eq_self]
        intro t member
        have bound : c ≤ t := by
          rcases List.mem_cons.mp member with rfl | old
          · exact earlier
          · exact (past t old).2 c rfl
        exact decide_eq_true (by omega)
      have none_late : ((done :: failures).any fun t => c + config.window < t) = false := by
        rw [List.any_eq_false]
        intro t member
        have bound : t ≤ done := by
          rcases List.mem_cons.mp member with rfl | old
          · exact le_rfl
          · exact (past t old).1
        rw [decide_eq_true_eq]
        omega
      rw [all, none_late, if_neg Bool.false_ne_true]
      exact iff_of_true Iff.rfl fun later => absurd later late

theorem failed_closed {failures : List Nat} (here : p.phase = .closed failures)
    {e : RuntimeError} (tracked : e.isTrackedFailure) :
    ((b.failed config s done).getState s = (p.phase.fail config done).state ↔
        CleanIn config p done (.error e) (.closed failures)) ∧
      (CleanIn config p done (.error e) (.closed failures) →
        Tied config done ((b.failed config s done).entries s) { p with phase := p.phase.fail config done }) := by
  have state : (b.state s).getD .closed = p.phase.state := tied.state
  have change := tied.closed failures here
  rw [← reach_iff tied here tracked, getState_eq, CircuitBreaker.failed_same, failuresAfter_closed tied here]
  obtain ⟨phase, closedAt, total⟩ := p
  cases here
  rw [Phase.fail]
  by_cases open_ : config.failureThreshold ≤ (Phase.recent config done (done :: failures)).length
  · rw [if_pos open_]
    by_cases reached : config.failureThreshold ≤ counted config ⟨.closed (done :: failures), closedAt, total⟩
    · rw [if_pos reached]
      refine ⟨iff_of_true rfl (iff_of_true reached open_), fun _ => ⟨rfl, tied.successes, rfl, ?_, tied.since, ?_⟩⟩
      · rintro _ ⟨⟩
      · rintro _ ⟨⟩
    · rw [if_neg reached]
      refine ⟨iff_of_false ?_ fun both => reached (both.mpr open_), fun both => absurd (both.mpr open_) reached⟩
      dsimp only
      rw [state]
      rintro ⟨⟩
  · rw [if_neg open_]
    by_cases reached : config.failureThreshold ≤ counted config ⟨.closed (done :: failures), closedAt, total⟩
    · rw [if_pos reached]
      exact ⟨iff_of_false (by rintro ⟨⟩) fun both => open_ (both.mp reached), fun both => absurd (both.mp reached) open_⟩
    · rw [if_neg reached]
      refine ⟨iff_of_true state (iff_of_false reached open_), fun _ => ⟨state, tied.successes, rfl, ?_, tied.since, ?_⟩⟩
      · rintro _ ⟨⟩
        exact ⟨change.1, List.forall_mem_cons.mpr ⟨⟨le_rfl, tied.since⟩, change.2⟩⟩
      · rintro _ ⟨⟩

/-- **In half open** a failure is the first that is counted. -/
theorem failed_halfOpen {n : Nat} (here : p.phase = .halfOpen n) :
    ((b.failed config s done).getState s = (p.phase.fail config done).state ↔ config.failureThreshold ≤ 1) ∧
      (config.failureThreshold ≤ 1 →
        Tied config done ((b.failed config s done).entries s) { p with phase := p.phase.fail config done }) := by
  have state : b.state s = some .halfOpen := state_eq tied (by rw [here]; rfl) CircuitState.noConfusion
  have none_counted : (b.failureCount s).getD 0 = counted config p := tied.failures
  obtain ⟨phase, closedAt, total⟩ := p
  cases here
  have first : b.failuresAfter config s done = 1 := by
    rw [CircuitBreaker.failuresAfter, none_counted, counted, ite_self]
  rw [getState_eq, CircuitBreaker.failed_same, first, Phase.fail]
  by_cases reached : config.failureThreshold ≤ 1
  · rw [if_pos reached]
    refine ⟨iff_of_true rfl reached, fun _ => ⟨rfl, tied.successes, rfl, ?_, tied.since, ?_⟩⟩
    · rintro _ ⟨⟩
    · rintro _ ⟨⟩
  · rw [if_neg reached, state]
    exact ⟨iff_of_false (by rintro ⟨⟩) reached, fun short => absurd short reached⟩

/-! ### Calls -/

/-- **What a call that runs does**: it stays in the phase exactly when it is clean. -/
theorem finish_spec (entered : ∀ until_, p.phase ≠ .open_ until_)
    (outcome : Except RuntimeError Unit) {W : Type} (world : W) :
    ((b.finish config s done (outcome, world)).1.getState s = (p.finish config done outcome).phase.state ↔
        CleanIn config p done outcome p.phase) ∧
      (CleanIn config p done outcome p.phase →
        Tied config done ((b.finish config s done (outcome, world)).1.entries s) (p.finish config done outcome)) := by
  cases here : p.phase with
  | open_ until_ => exact absurd here (entered until_)
  | closed failures =>
    cases outcome with
    | ok _ =>
      have after := succeeded_closed tied here
      exact ⟨iff_of_true after.state (by rintro ⟨_, ⟨⟩, _⟩), fun _ => after⟩
    | error e =>
      rw [CircuitBreaker.finish, Past.finish]
      by_cases tracked : e.isTrackedFailure = true
      · rw [if_pos tracked, if_pos tracked]
        exact failed_closed tied here tracked
      · rw [if_neg tracked, if_neg tracked]
        refine ⟨iff_of_true tied.state ?_, fun _ => tied⟩
        rintro ⟨_, ⟨⟩, yes⟩
        exact absurd yes tracked
  | halfOpen n =>
    cases outcome with
    | ok _ =>
      have clean : CleanIn config p done (.ok ()) (.halfOpen n) ↔
          (config.successThreshold ≤ p.successes + 1 → config.successThreshold ≤ n + 1) :=
        (and_iff_right (by rintro ⟨_, ⟨⟩, _⟩)).trans (forall_prop_of_true rfl)
      rw [clean]
      exact succeeded_halfOpen tied here
    | error e =>
      rw [CircuitBreaker.finish, Past.finish]
      by_cases tracked : e.isTrackedFailure = true
      · rw [if_pos tracked, if_pos tracked]
        have clean : CleanIn config p done (.error e) (.halfOpen n) ↔ config.failureThreshold ≤ 1 :=
          (and_iff_left (by rintro ⟨⟩)).trans (forall_prop_of_true ⟨e, rfl, tracked⟩)
        rw [clean]
        exact failed_halfOpen tied here
      · rw [if_neg tracked, if_neg tracked]
        refine ⟨iff_of_true tied.state ⟨?_, by rintro ⟨⟩⟩, fun _ => tied⟩
        rintro ⟨_, ⟨⟩, yes⟩
        exact absurd yes tracked

end

theorem finish_other {W T : Type} {o : SubsystemId} (other : o ≠ s) (outcome : Except RuntimeError T) (world : W) :
    (b.finish config s done (outcome, world)).1.entries o = b.entries o := by
  cases outcome with
  | ok result => exact CircuitBreaker.succeeded_other other
  | error e =>
    rw [CircuitBreaker.finish]
    dsimp only
    split
    · exact CircuitBreaker.failed_other other
    · rfl

/-- A call that the phase rejects is rejected. -/
theorem execute_rejected (tied : Tied config now (b.entries s) p) {start : Nat} (rejected : p.phase.enter start = none)
    {W T : Type} (f : W → Except RuntimeError T × W) (world : W) :
    b.execute config s start done f world = ({ b with rejected := b.rejected + 1 }, .error .open_, world) := by
  have state : b.getState s = p.phase.state := tied.state
  cases here : p.phase with
  | open_ until_ =>
    rw [here, Phase.enter, ite_eq_left_iff] at rejected
    have early : start < until_ := by
      by_contra late
      cases rejected late
    rw [CircuitBreaker.execute, state, here]
    exact if_pos early
  | closed _ | halfOpen _ => rw [here] at rejected; cases rejected

/-- One that runs does so in its phase. -/
theorem execute_entered (config : CircuitConfig) (done : Nat) (tied : Tied config now (b.entries s) p) {start : Nat}
    {phase : Phase}
    (runs : p.phase.enter start = some phase) :
    ∃ b' : CircuitBreaker, Tied config now (b'.entries s) { p with phase } ∧ (∀ until_, phase ≠ .open_ until_) ∧
      (∀ o, o ≠ s → b'.entries o = b.entries o) ∧
      ∀ (W T : Type) (f : W → Except RuntimeError T × W) (world : W),
        b.execute config s start done f world = b'.finish config s done (f world) := by
  have state : b.getState s = p.phase.state := tied.state
  obtain ⟨before, closedAt, total⟩ := p
  cases before with
  | open_ until_ =>
    rw [Phase.enter] at runs
    split at runs
    · cases runs
    next late =>
      cases runs
      refine ⟨b.transition s start .halfOpen, ?_, fun _ => Phase.noConfusion,
        fun o other => CircuitBreaker.transition_other other _, fun W T f world => ?_⟩
      · rw [CircuitBreaker.transition_same]
        refine ⟨rfl, tied.successes, tied.failures, ?_, tied.since, ?_⟩
        · rintro _ ⟨⟩
        · rintro _ ⟨⟩
          exact Nat.zero_le _
      · rw [CircuitBreaker.execute, state]
        exact if_neg late
  | closed failures | halfOpen n =>
    cases runs
    refine ⟨b, tied, fun _ => Phase.noConfusion, fun _ _ => rfl, fun W T f world => ?_⟩
    rw [CircuitBreaker.execute, state]
    rfl

/-- **Every subsystem is tied to its past.** -/
def AllTied (config : CircuitConfig) (w : Watch) : Prop := ∀ s, Tied config w.clock (w.breaker.entries s) (w.past s)

theorem finish_reply {W T : Type} (f : W → Except RuntimeError T × W) (world : W) :
    (b.finish config s done (f world)).2 = ((f world).1.mapError fun e => .failure e.toText, (f world).2) := by
  obtain ⟨outcome, after⟩ := f world
  cases outcome <;> rfl

theorem AllTied.inPhase (tied : w.AllTied config) : w.InPhase config where
  state s := (tied s).state
  rejects s start done W T f world rejected := by rw [execute_rejected (tied s) rejected]
  calls s start done W T f world runs := by
    obtain ⟨phase, entered⟩ := Option.ne_none_iff_exists'.mp runs
    obtain ⟨b', -, -, -, executes⟩ := execute_entered config done (tied s) entered
    rw [executes, finish_reply]

/-- **A call** stays in the phase exactly when it is clean. -/
theorem step_spec (tied : w.AllTied config) (call : CircuitCall) :
    ((w.step config call).InPhase config ↔ w.Clean config call) ∧
      (w.Clean config call → (w.step config call).AllTied config) := by
  have order : w.clock ≤ w.clock + call.wait + call.run := by omega
  cases entered : (w.past call.subsystem).phase.enter (w.clock + call.wait) with
  | none =>
    have clean : w.Clean config call := by
      rw [Clean, entered]
      rintro _ ⟨⟩
    have after : (w.step config call).AllTied config := by
      intro s
      have same : (w.step config call).past = w.past := by
        rw [step, Past.step, entered]
        exact Function.update_eq_self _ _
      rw [same, step, execute_rejected (tied _) entered]
      exact (tied s).later order
    exact ⟨iff_of_true after.inPhase clean, fun _ => after⟩
  | some phase =>
    obtain ⟨b', here, running, others, executes⟩ :=
      execute_entered config (w.clock + call.wait + call.run) (tied call.subsystem) entered
    have breaker : (w.step config call).breaker = (b'.finish config call.subsystem (w.clock + call.wait + call.run)
        (call.outcome, ())).1 := by
      rw [step, executes]
    have past : (w.step config call).past call.subsystem = Past.finish config
        { w.past call.subsystem with phase } (w.clock + call.wait + call.run) call.outcome := by
      rw [step, Past.step, entered]
      exact Function.update_self ..
    have clean : w.Clean config call ↔ CleanIn config { w.past call.subsystem with phase }
        (w.clock + call.wait + call.run) call.outcome phase := by
      rw [Clean, entered]
      refine ⟨fun all => all phase rfl, ?_⟩
      rintro here _ ⟨⟩
      exact here
    obtain ⟨agrees, keeps⟩ := finish_spec (here.later order) running call.outcome ()
    have after (is_clean : w.Clean config call) : (w.step config call).AllTied config := by
      intro s
      by_cases same : s = call.subsystem
      · rw [same, breaker, past]
        exact keeps (clean.mp is_clean)
      · have old : (w.step config call).past s = w.past s := Function.update_of_ne same _ _
        rw [breaker, old, finish_other same, others s same]
        exact (tied s).later order
    refine ⟨⟨fun inPhase => ?_, fun is_clean => (after is_clean).inPhase⟩, after⟩
    have state := inPhase.state call.subsystem
    rw [breaker, past] at state
    exact clean.mpr (agrees.mp state)

/-- **The breaker is in its phase in every state of a run exactly when its calls are clean:**
no tracked failure meets a threshold that only the failures of the last window, or only
those of the breaker's own count, reach; none comes in half open with a threshold above one;
and no success in half open reaches the threshold with successes from before. -/
theorem in_phase_iff (config : CircuitConfig) (clock : Nat) (calls : List CircuitCall) :
    (∀ w ∈ Run.states (step config) (start clock) calls, w.InPhase config) ↔
      Run.Each (step config) (Clean config) (start clock) calls :=
  Run.forall_states_iff_of_tied (fun _ tied => AllTied.inPhase tied) (fun _ call tied => (step_spec tied call).1)
    (fun _ call tied => (step_spec tied call).2) (fun _ => tied_new) calls

/-- One failure opens the circuit, and two successes close it. -/
def leakConfig : CircuitConfig := ⟨1, 2, 10, 100⟩

/-- A success, a failure that opens the circuit, and one success when it is half open. -/
def leakRun : List CircuitCall :=
  [⟨.storage, 1, 0, .ok ()⟩, ⟨.storage, 1, 0, .error (.timeout [])⟩, ⟨.storage, 20, 0, .ok ()⟩]

/-- **The success from before closes the circuit** with one of the two successes it takes. -/
theorem success_leaks : ¬ ∀ w ∈ Run.states (step leakConfig) (start 0) leakRun, w.InPhase leakConfig := by
  intro all
  have phase := (all _ (Run.foldl_mem_states _ _)).state .storage
  revert phase
  decide +kernel

end Watch

end NovaRuntime.Executor
