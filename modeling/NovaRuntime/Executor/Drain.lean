/-
# NovaRuntime.Executor.Drain — whether a drain is a barrier

A drain that reads zero in `active_operations` returns `Ok` while a call may stand between
the check of the draining flag and its count, on its way to a permit: such a call runs
afterwards (`late_runs`). `Settled` asks that no call stands there when a drain reads zero, and that
drains do not overlap; then no call runs after an `Ok`, and an `Err` leaves the executor
open (`barrier_settled`).
-/
import NovaRuntime.Executor.Calls
import NovaRuntime.Library.Runs

namespace NovaRuntime.Executor

open NovaRuntime.Library

set_option autoImplicit false

/-! ## Where a call stands -/

/-- Between its count in `active_operations` and its end. -/
def Place.counted : Place → Bool
  | .limiting => true
  | .refusing => true
  | .running _ => true
  | .storing _ _ _ => true
  | .finishing => true
  | .leaving => true
  | _ => false

/-- Behind the check of the draining flag, and not counted yet. -/
def Place.windowed : Place → Bool
  | .checking => true
  | .queueing => true
  | .acquiring => true
  | .counting => true
  | _ => false

namespace Task

def counted : Task → Bool
  | .call _ place => place.counted
  | .drain _ => false

def windowed : Task → Bool
  | .call _ place => place.windowed
  | .drain _ => false

def isDrain : Task → Bool
  | .call _ _ => false
  | .drain _ => true

/-- A drain that has set the draining flag, and not taken it back. -/
def flagging : Task → Bool
  | .drain (.polling _) => true
  | .drain .unflagging => true
  | .drain .stopping => true
  | _ => false

/-- A drain that is about to read the counter. -/
def polls : Task → Bool
  | .drain (.polling _) => true
  | _ => false

theorem counted_of_runs {task : Task} (runs : task.runs) : task.counted := by
  cases task with
  | call call place => cases place <;> first | rfl | cases runs
  | drain place => cases runs

end Task

/-- **The barrier:** the counter is right, nothing runs once a drain has returned `Ok` (and
only such a drain clears the running flag), and a drain that returns `Err` has left both
flags as `execute` wants them. -/
structure Barrier (m : PipelineExecutor) : Prop where
  active : m.shared.activeOperations = m.tasks.countP Task.counted
  closed : m.shared.isRunning = false → ∀ task ∈ m.tasks, task.runs = false
  reopened : .drain (.returning false) ∈ m.tasks → m.shared.isRunning = true ∧ m.shared.isDraining = false

/-! ## The invariant -/

structure Orderly (s : Shared) (tasks : List Task) : Prop where
  active : s.activeOperations = tasks.countP Task.counted
  single : tasks.countP Task.isDrain ≤ 1
  flagged : ∀ task ∈ tasks, task.flagging → s.isDraining = true
  stopping : .drain .stopping ∈ tasks → s.activeOperations = 0 ∧ ∀ task ∈ tasks, task.windowed = false
  closed : s.isRunning = false → s.isDraining = true ∧ s.activeOperations = 0 ∧ ∀ task ∈ tasks, task.windowed = false
  unflagging : .drain .unflagging ∈ tasks → s.isRunning = true
  reopened : .drain (.returning false) ∈ tasks → s.isRunning = true ∧ s.isDraining = false

section

variable {config : PipelineConfig} {s : Shared} {tasks rest : List Task} {limited : Bool} {env : Surroundings}

theorem Orderly.of_perm (orderly : Orderly s tasks) (same : tasks.Perm rest) : Orderly s rest where
  active := by rw [orderly.active, same.countP_eq]
  single := by rw [← same.countP_eq]; exact orderly.single
  flagged task member := orderly.flagged task (same.mem_iff.mpr member)
  stopping member := (orderly.stopping (same.mem_iff.mpr member)).imp_right
    fun none task member => none task (same.mem_iff.mpr member)
  closed down := (orderly.closed down).imp_right fun both => both.imp_right
    fun none task member => none task (same.mem_iff.mpr member)
  unflagging member := orderly.unflagging (same.mem_iff.mpr member)
  reopened member := orderly.reopened (same.mem_iff.mpr member)

theorem Orderly.frame {s' : Shared} (orderly : Orderly s tasks)
    (running : s'.isRunning = s.isRunning) (draining : s'.isDraining = s.isDraining)
    (active : s'.activeOperations = s.activeOperations) : Orderly s' tasks where
  active := active.trans orderly.active
  single := orderly.single
  flagged task member flagging := draining.trans (orderly.flagged task member flagging)
  stopping member := (orderly.stopping member).imp_left active.trans
  closed down := (orderly.closed (running.symm.trans down)).imp draining.trans (.imp_left active.trans)
  unflagging member := running.trans (orderly.unflagging member)
  reopened member := (orderly.reopened member).imp running.trans draining.trans

/-- A task that begins is neither counted nor in the window, and flags nothing. -/
theorem Orderly.begin (orderly : Orderly s tasks) (task : Task) (uncounted : task.counted = false)
    (outside : task.windowed = false) (drains : task.isDrain → ∀ other ∈ tasks, other.isDrain = false)
    (plain : task.flagging = false) (early : ∀ drained, task ≠ .drain (.returning drained)) :
    Orderly s (task :: tasks) := by
  have old {other : Task} (member : other ∈ task :: tasks) (different : other ≠ task) : other ∈ tasks :=
    (List.mem_cons.mp member).resolve_left different
  have none_windowed (none : ∀ other ∈ tasks, other.windowed = false) :
      ∀ other ∈ task :: tasks, other.windowed = false := List.forall_mem_cons.mpr ⟨outside, none⟩
  have not_flagging {place : Draining} (flagging : (Task.drain place).flagging) : Task.drain place ≠ task := by
    rintro rfl
    exact absurd flagging (Bool.eq_false_iff.mp plain)
  refine ⟨?_, ?_, ?_, fun member => ?_, fun down => ?_, fun member => ?_, fun member => ?_⟩
  · rw [orderly.active, List.countP_cons_of_neg (Bool.eq_false_iff.mp uncounted)]
  · by_cases drain : task.isDrain
    · have none := List.countP_eq_zero.mpr fun other member => Bool.eq_false_iff.mp (drains drain other member)
      rw [List.countP_cons_of_pos drain, none]
    · rw [List.countP_cons_of_neg drain]
      exact orderly.single
  · rintro other member flagging
    rcases List.mem_cons.mp member with rfl | rest
    · exact absurd flagging (Bool.eq_false_iff.mp plain)
    · exact orderly.flagged other rest flagging
  · exact (orderly.stopping (old member (not_flagging rfl))).imp_right none_windowed
  · exact (orderly.closed down).imp_right fun both => both.imp_right none_windowed
  · exact orderly.unflagging (old member (not_flagging rfl))
  · exact orderly.reopened (old member (early false).symm)

/-- The calls counted at a place that a call may be at. -/
def countedAt (place : Option Place) : Nat := place.elim 0 fun p => p.counted.toNat

/-- What a step of a call does to the flags, the counter and the window: it enters the
window only where the draining flag is down. -/
structure CallMoves (s : Shared) (place : Place) (after : Shared × Option Place) : Prop where
  running : after.1.isRunning = s.isRunning
  draining : after.1.isDraining = s.isDraining
  active : after.1.activeOperations + place.counted.toNat = s.activeOperations + countedAt after.2
  windowed : ∀ p ∈ after.2, p.windowed → place.windowed ∨ s.isDraining = false
  counted : ∀ p ∈ after.2, p.counted → place.counted ∨ place.windowed

theorem CallMoves.stay {place : Place} {next : Option Place} {after : Shared}
    (running : after.isRunning = s.isRunning) (draining : after.isDraining = s.isDraining)
    (active : after.activeOperations = s.activeOperations) (same : countedAt next = place.counted.toNat)
    (windowed : ∀ p ∈ next, p.windowed → place.windowed ∨ s.isDraining = false)
    (counted : ∀ p ∈ next, p.counted → place.counted ∨ place.windowed) :
    CallMoves s place (after, next) :=
  ⟨running, draining, by rw [active, same], windowed, counted⟩

theorem store_frame (config : PipelineConfig) (s : Shared) (call : Call) (ctx : OperationContext)
    (env : Surroundings) (response : OperationResponse) :
    (s.store config call ctx env response).isRunning = s.isRunning ∧
      (s.store config call ctx env response).isDraining = s.isDraining ∧
      (s.store config call ctx env response).activeOperations = s.activeOperations := by
  unfold Shared.store
  split <;> exact ⟨rfl, rfl, rfl⟩

theorem callStep_moves (config : PipelineConfig) (limited : Bool) (env : Surroundings) (call : Call) (place : Place)
    (positive : place.counted → 0 < s.activeOperations) :
    CallMoves s place (s.callStep config limited env call place) := by
  cases place with
  | entering =>
    simp only [Shared.callStep]
    split
    · exact .stay rfl rfl rfl rfl (by rintro _ ⟨⟩ ⟨⟩) (by rintro _ ⟨⟩ ⟨⟩)
    · exact .stay rfl rfl rfl rfl (by rintro _ ⟨⟩) (by rintro _ ⟨⟩)
  | undraining =>
    simp only [Shared.callStep]
    split
    · exact .stay rfl rfl rfl rfl (by rintro _ ⟨⟩) (by rintro _ ⟨⟩)
    next down =>
      exact .stay rfl rfl rfl rfl (fun _ _ _ => .inr (Bool.eq_false_iff.mpr down)) (by rintro _ ⟨⟩ ⟨⟩)
  | checking | queueing =>
    simp only [Shared.callStep]
    split
    · exact .stay rfl rfl rfl rfl (by rintro _ ⟨⟩) (by rintro _ ⟨⟩)
    · exact .stay rfl rfl rfl rfl (fun _ _ _ => .inl rfl) (by rintro _ ⟨⟩ ⟨⟩)
  | acquiring =>
    simp only [Shared.callStep]
    split <;> exact .stay rfl rfl rfl rfl (fun _ _ _ => .inl rfl) (by rintro _ ⟨⟩ ⟨⟩)
  | counting => exact ⟨rfl, rfl, rfl, by rintro _ ⟨⟩ ⟨⟩, fun _ _ _ => .inr rfl⟩
  | limiting =>
    simp only [Shared.callStep]
    split <;> exact .stay rfl rfl rfl rfl (by rintro _ ⟨⟩ ⟨⟩) (fun _ _ _ => .inl rfl)
  | refusing =>
    exact ⟨rfl, rfl, Nat.sub_add_cancel (positive rfl), by rintro _ ⟨⟩ ⟨⟩, by rintro _ ⟨⟩ ⟨⟩⟩
  | running ctx => exact .stay rfl rfl rfl rfl (by rintro _ ⟨⟩ ⟨⟩) (fun _ _ _ => .inl rfl)
  | storing ctx env response =>
    obtain ⟨running, draining, active⟩ := store_frame config s call ctx env response
    exact .stay running draining active rfl (by rintro _ ⟨⟩ ⟨⟩) (fun _ _ _ => .inl rfl)
  | finishing => exact .stay rfl rfl rfl rfl (by rintro _ ⟨⟩ ⟨⟩) (fun _ _ _ => .inl rfl)
  | leaving =>
    exact ⟨rfl, rfl, Nat.sub_add_cancel (positive rfl), by rintro _ ⟨⟩ ⟨⟩, by rintro _ ⟨⟩ ⟨⟩⟩
  | returning => exact .stay rfl rfl rfl rfl (by rintro _ ⟨⟩) (by rintro _ ⟨⟩)

/-- Where the draining flag is up and no call is counted or in the window, a step of a call
keeps it so. -/
theorem CallMoves.quiet {call : Call} {place : Place} {after : Shared × Option Place}
    (moves : CallMoves s place after) (active : s.activeOperations = (.call call place :: rest).countP Task.counted)
    (up : s.isDraining = true) (idle : s.activeOperations = 0)
    (none : ∀ task ∈ Task.call call place :: rest, task.windowed = false) :
    after.1.activeOperations = 0 ∧ ∀ task ∈ (after.2.map (.call call)).toList ++ rest, task.windowed = false := by
  have outside : place.windowed = false := none _ List.mem_cons_self
  have uncounted : place.counted = false := by
    cases here : place.counted with
    | false => rfl
    | true =>
      have zero := List.countP_eq_zero.mp (active.symm.trans idle) _ List.mem_cons_self
      exact absurd here zero
  have none_counted : countedAt after.2 = 0 := by
    cases next : after.2 with
    | none => rfl
    | some p =>
      cases here : p.counted with
      | false => simp [countedAt, here]
      | true =>
        have before := moves.counted p next here
        rw [uncounted, outside] at before
        exact absurd before (by decide)
  constructor
  · have balance := moves.active
    rw [uncounted, idle, none_counted] at balance
    exact balance
  · intro task member
    rcases List.mem_append.mp member with new | old
    · obtain ⟨p, next, rfl⟩ := Option.map_eq_some_iff.mp (Option.mem_toList.mp new)
      cases here : p.windowed with
      | false => exact here
      | true =>
        rcases moves.windowed p next here with before | down
        · exact absurd (before.symm.trans outside) (by decide)
        · exact absurd (up.symm.trans down) (by decide)
    · exact none task (.tail _ old)

/-- **A step of a call** moves the counter with the call. -/
theorem CallMoves.balance {call : Call} {place : Place} {after : Shared × Option Place}
    (moves : CallMoves s place after) (active : s.activeOperations = (.call call place :: rest).countP Task.counted) :
    after.1.activeOperations = ((after.2.map (Task.call call)).toList ++ rest).countP Task.counted := by
  have fresh_counted : (after.2.map (Task.call call)).toList.countP Task.counted = countedAt after.2 := by
    cases after.2 with
    | none => rfl
    | some p =>
      change [Task.call call p].countP Task.counted = p.counted.toNat
      rw [List.countP_singleton]
      cases here : p.counted <;> simp [Task.counted, here]
  have balance := moves.active
  rw [List.countP_cons] at active
  rw [List.countP_append, fresh_counted]
  cases here : place.counted <;> simp [Task.counted, here] at active balance <;> omega

theorem positive_of_counted {call : Call} {place : Place}
    (active : s.activeOperations = (.call call place :: rest).countP Task.counted) (here : place.counted) :
    0 < s.activeOperations := by
  rw [active]
  exact List.countP_pos_iff.mpr ⟨_, (.head _), here⟩

theorem mem_rest_of_drain {call : Call} {next : Option Place} {place : Draining}
    (member : .drain place ∈ (next.map (Task.call call)).toList ++ rest) : .drain place ∈ rest := by
  rcases List.mem_append.mp member with new | old
  · obtain ⟨_, _, same⟩ := Option.map_eq_some_iff.mp (Option.mem_toList.mp new)
    cases same
  · exact old

theorem Orderly.call {call : Call} {place : Place} (orderly : Orderly s (.call call place :: rest)) :
    Orderly (s.callStep config limited env call place).1
      (((s.callStep config limited env call place).2.map (.call call)).toList ++ rest) := by
  have moves := callStep_moves config limited env call place
    (positive_of_counted orderly.active)
  generalize s.callStep config limited env call place = after at moves
  have behind {t : Task} (member : t ∈ rest) : t ∈ Task.call call place :: rest := .tail _ member
  have no_drain : (after.2.map (Task.call call)).toList.countP Task.isDrain = 0 := by
    cases after.2 <;> rfl
  refine ⟨moves.balance orderly.active, ?_, ?_, ?_, ?_, ?_, ?_⟩
  · rw [List.countP_append, no_drain, Nat.zero_add]
    have before := orderly.single
    rwa [List.countP_cons_of_neg Bool.false_ne_true] at before
  · intro task member flagging
    rw [moves.draining]
    rcases List.mem_append.mp member with new | old
    · obtain ⟨_, _, rfl⟩ := Option.map_eq_some_iff.mp (Option.mem_toList.mp new)
      cases flagging
    · exact orderly.flagged task (behind old) flagging
  · intro member
    have old := behind (mem_rest_of_drain member)
    obtain ⟨idle, none⟩ := orderly.stopping old
    exact moves.quiet orderly.active (orderly.flagged _ old rfl) idle none
  · intro down
    rw [moves.running] at down
    obtain ⟨up, idle, none⟩ := orderly.closed down
    exact ⟨moves.draining.trans up, moves.quiet orderly.active up idle none⟩
  · intro member
    rw [moves.running]
    exact orderly.unflagging (behind (mem_rest_of_drain member))
  · intro member
    rw [moves.running, moves.draining]
    exact orderly.reopened (behind (mem_rest_of_drain member))

/-- The order of the calls in flight with the one drain at a place. -/
theorem Orderly.beside (next : Option Draining) (alone : ∀ task ∈ rest, task.isDrain = false)
    (active : s.activeOperations = rest.countP Task.counted)
    (flagged : ∀ p ∈ next, (Task.drain p).flagging → s.isDraining = true)
    (stopping : next = some .stopping → s.activeOperations = 0 ∧ ∀ task ∈ rest, task.windowed = false)
    (closed : s.isRunning = false →
      s.isDraining = true ∧ s.activeOperations = 0 ∧ ∀ task ∈ rest, task.windowed = false)
    (unflagging : next = some .unflagging → s.isRunning = true)
    (reopened : next = some (.returning false) → s.isRunning = true ∧ s.isDraining = false) :
    Orderly s ((next.map .drain).toList ++ rest) := by
  have the_drain {p : Draining} (member : Task.drain p ∈ (next.map Task.drain).toList ++ rest) : next = some p := by
    rcases List.mem_append.mp member with new | old
    · obtain ⟨q, here, same⟩ := Option.map_eq_some_iff.mp (Option.mem_toList.mp new)
      cases same
      exact here
    · exact absurd (alone _ old) Bool.noConfusion
  have all_windowed (none : ∀ task ∈ rest, task.windowed = false) :
      ∀ task ∈ (next.map Task.drain).toList ++ rest, task.windowed = false := by
    intro task member
    rcases List.mem_append.mp member with new | old
    · obtain ⟨_, _, rfl⟩ := Option.map_eq_some_iff.mp (Option.mem_toList.mp new)
      rfl
    · exact none task old
  have no_drain : rest.countP Task.isDrain = 0 :=
    List.countP_eq_zero.mpr fun task member => Bool.eq_false_iff.mp (alone task member)
  refine ⟨?_, ?_, ?_, fun member => ?_, fun down => ?_, fun member => unflagging (the_drain member),
    fun member => reopened (the_drain member)⟩
  · rw [active, List.countP_append]
    cases next <;> simp [Task.counted]
  · rw [List.countP_append, no_drain]
    cases next <;> simp [Task.isDrain]
  · intro task member flagging
    rcases List.mem_append.mp member with new | old
    · obtain ⟨p, here, rfl⟩ := Option.map_eq_some_iff.mp (Option.mem_toList.mp new)
      exact flagged p here flagging
    · have not_drain := alone task old
      cases task with
      | call _ _ => cases flagging
      | drain _ => cases not_drain
  · exact (stopping (the_drain member)).imp_right all_windowed
  · exact (closed down).imp_right fun both => both.imp_right all_windowed

/-- **A step of a drain** keeps the order, where no call is in the window as it reads zero. -/
theorem Orderly.drain {place : Draining} (orderly : Orderly s (.drain place :: rest))
    (settled : (Task.drain place).polls → s.activeOperations = 0 → ∀ task ∈ rest, task.windowed = false) :
    Orderly (s.drainStep place).1 (((s.drainStep place).2.map .drain).toList ++ rest) := by
  have alone : ∀ task ∈ rest, task.isDrain = false := by
    have single := orderly.single
    rw [List.countP_cons_of_pos rfl] at single
    intro task member
    exact Bool.eq_false_iff.mpr (List.countP_eq_zero.mp (Nat.le_zero.mp (Nat.le_of_succ_le_succ single)) task member)
  have active : s.activeOperations = rest.countP Task.counted := by
    have before := orderly.active
    rwa [List.countP_cons_of_neg Bool.false_ne_true] at before
  have closed (down : s.isRunning = false) : s.isDraining = true ∧ s.activeOperations = 0 ∧
      ∀ task ∈ rest, task.windowed = false :=
    (orderly.closed down).imp_right fun both => both.imp_right
      fun none task member => none task (.tail _ member)
  cases place with
  | flagging timeout =>
    refine .beside _ alone active (fun _ _ _ => rfl) ?_ ?_ ?_ ?_
    · rintro ⟨⟩
    · exact fun down => ⟨rfl, (closed down).2⟩
    · rintro ⟨⟩
    · rintro ⟨⟩
  | polling deadline =>
    have up : s.isDraining = true := orderly.flagged _ (.head _) rfl
    rw [Shared.drainStep]
    split
    next positive =>
      refine .beside _ alone active (fun _ _ _ => up) ?_ closed ?_ ?_
      · split <;> rintro ⟨⟩
      · intro _
        cases running : s.isRunning with
        | true => rfl
        | false => exact absurd (closed running).2.1 (Nat.ne_of_gt positive)
      · split <;> rintro ⟨⟩
    next zero =>
      have idle : s.activeOperations = 0 := Nat.eq_zero_of_not_pos zero
      refine .beside _ alone active (fun _ _ _ => up) (fun _ => ⟨idle, settled rfl idle⟩) closed ?_ ?_
      · rintro ⟨⟩
      · rintro ⟨⟩
  | unflagging =>
    have running := orderly.unflagging List.mem_cons_self
    refine .beside _ alone active ?_ ?_ ?_ (fun _ => running) (fun _ => ⟨running, rfl⟩)
    · rintro _ ⟨⟩ ⟨⟩
    · rintro ⟨⟩
    · exact fun down => absurd (running.symm.trans down) (by decide)
  | stopping =>
    have up : s.isDraining = true := orderly.flagged _ (.head _) rfl
    obtain ⟨idle, none⟩ := orderly.stopping List.mem_cons_self
    refine .beside _ alone active (fun _ _ _ => up) ?_ ?_ ?_ ?_
    · rintro ⟨⟩
    · exact fun _ => ⟨up, idle, fun task member => none task (.tail _ member)⟩
    · rintro ⟨⟩
    · rintro ⟨⟩
  | returning drained =>
    refine .beside none alone active ?_ ?_ closed ?_ ?_
    · rintro _ ⟨⟩
    · rintro ⟨⟩
    · rintro ⟨⟩
    · rintro ⟨⟩

end

namespace PipelineExecutor

/-! ## Runs -/

/-- A drain starts where there is no other, and where it reads zero no call is between the
check of the draining flag and its count. -/
def Settled (m : PipelineExecutor) : Event → Prop
  | .execute _ => True
  | .drain _ => ∀ task ∈ m.tasks, task.isDrain = false
  | .advance i _ _ _ => ∀ task ∈ m.tasks[i]?, task.polls → m.shared.activeOperations = 0 →
      ∀ other ∈ m.tasks, other.windowed = false

section

variable {config : PipelineConfig} {m : PipelineExecutor} {event : Event}

theorem orderly_new : Orderly (new config).shared (new config).tasks := by
  refine ⟨rfl, Nat.zero_le _, ?_, ?_, ?_, ?_, ?_⟩
  · intro task absent
    exact nomatch absent
  · intro absent
    exact nomatch absent
  · rintro ⟨⟩
  · intro absent
    exact nomatch absent
  · intro absent
    exact nomatch absent

theorem orderly_step (orderly : Orderly m.shared m.tasks) (settled : m.Settled event) :
    Orderly (m.step config event).shared (m.step config event).tasks := by
  cases event with
  | execute call =>
    exact (orderly.begin (.call call .entering) rfl rfl (by rintro ⟨⟩) rfl (by rintro _ ⟨⟩)).frame rfl rfl rfl
  | drain timeout =>
    exact orderly.begin (.drain (.flagging timeout)) rfl rfl (fun _ => settled) rfl (by rintro _ ⟨⟩)
  | advance i elapsed limited env =>
    rw [step]
    cases here : m.tasks[i]? with
    | none => exact orderly.frame rfl rfl rfl
    | some task =>
      have turn : Orderly (m.shared.elapse elapsed) (task :: m.others i) :=
        (orderly.of_perm (Run.perm_of_turn here)).frame rfl rfl rfl
      cases task with
      | call call place => exact turn.call
      | drain place =>
        refine turn.drain fun polls idle other member => ?_
        exact settled _ here polls idle other (List.mem_of_mem_eraseIdx member)

theorem barrier_of_orderly (orderly : Orderly m.shared m.tasks) : Barrier m where
  active := orderly.active
  closed down task member := by
    cases here : task.runs with
    | false => rfl
    | true =>
      have idle := orderly.active.symm.trans (orderly.closed down).2.1
      exact absurd (Task.counted_of_runs here) (List.countP_eq_zero.mp idle task member)
  reopened := orderly.reopened

/-- **A drain is a barrier:** in every state of a run in which no call stands between the
check of the draining flag and its count as a drain reads zero, and drains do not overlap. -/
theorem barrier_settled {events : List Event} (each : Run.Each (step config) Settled (new config) events) :
    Run.Always (step config) Barrier (new config) events := by
  have invariant := each.invariant (I := fun m => Orderly m.shared m.tasks)
    (fun _ _ held meets => orderly_step held meets) orderly_new
  exact fun m reached => barrier_of_orderly (invariant m reached)

end

instance (m : PipelineExecutor) (event : Event) : Decidable (m.Settled event) := by
  unfold Settled
  split <;> infer_instance

def readCall : Call := ⟨{ operationType := .get, target := .system }, ⟨0, none, 0⟩⟩

/-- A drain fails while a call runs, and after the call another one succeeds. -/
def drainedRun : List Event :=
  .execute readCall :: advances 7 ++ .drain 0 :: advances 9 ++ .drain 0 :: advances 4

/-- A drain returns `Ok` while a call waits for its permit, and then the call goes on. -/
def lateRun : List Event :=
  .execute readCall :: advances 4 ++ .drain 0 :: advances 3 ++ .advance 1 0 false {} :: advances 2

theorem barrier_settled_sample : Run.Always (step {}) Barrier (new {}) drainedRun :=
  barrier_settled (by decide +kernel)

/-- The call is in `run_pipeline` after the `Ok`. -/
theorem late_runs : ¬ ∀ (config : PipelineConfig) (events : List Event),
    Run.Always (step config) Barrier (new config) events := by
  intro all
  have last := all {} lateRun _ (Run.foldl_mem_states _ _)
  have runs : ∃ task ∈ (lateRun.foldl (step {}) (new {})).tasks, task.runs = true := by decide +kernel
  obtain ⟨task, member, running⟩ := runs
  exact absurd (running.symm.trans (last.closed (by decide +kernel) task member)) (by decide)

end PipelineExecutor

end NovaRuntime.Executor
