/-
# NovaRuntime.Queue.Scanner — `QueueScanner::scan_all` of `scanner.rs`

A pass lists the queues and then, queue by queue and with one reading of the clock,
releases what is due in flight, moves what is spent in flight to the dead-letter queue
where that is enabled, and purges what has expired. An error of one step is logged and
the pass goes on. `scanAll_keeps` is the rule for what all three steps keep.
-/
import NovaRuntime.Queue.BackendSpec

namespace NovaRuntime.Queue

open NovaRuntime.Library

set_option autoImplicit false

/-! ## A pass -/

structure QueueSummary where
  name : Text
  available : Nat
  inFlight : Nat
  delayed : Nat
  total : Nat
  paused : Bool
  deriving DecidableEq

/-- The configurations a scan of their keys finds; other values are passed over. -/
def configsOf (entries : List (Bytes × Stored)) : List IndividualQueueConfig :=
  entries.filterMap fun e =>
    match e.2 with
    | .config config => some config
    | _ => none

/-- The line of one queue; a queue whose statistics fail would show zeros. -/
def summarize (config : IndividualQueueConfig) : Method QueueSummary := fun kv =>
  let figures : QueueStats := (stats config.name kv).1.elim id ⟨0, 0, 0, 0, 0⟩
  (.ok {
    name := config.name
    available := figures.availableMessages
    inFlight := figures.inFlightMessages
    delayed := figures.delayedMessages
    total := figures.totalMessages
    paused := config.paused }, kv)

def summarizeAll : List IndividualQueueConfig → Method (List QueueSummary)
  | [] => pure []
  | config :: configs => do
      let summary ← summarize config
      let summaries ← summarizeAll configs
      pure (summary :: summaries)

def listQueues : Method (List QueueSummary) := do
  let start := utf8 metaLabel
  let entries ← KeyValue.scan start (start ++ [0xFF])
  summarizeAll (configsOf entries)

/-- Go on after an error. -/
def logged {α : Type} (x : Method α) : Method Unit := fun kv =>
  match x kv with
  | (.ok _, kv') => (.ok (), kv')
  | (.err _, kv') => (.ok (), kv')
  | (.panic, kv') => (.panic, kv')
  | (.hang, kv') => (.hang, kv')

/-- The second step, if dead-letter queues are enabled. -/
def scanDlq (U : UuidText) (enableDlq : Bool) (now : Int) (queueName : Text) : Method Unit :=
  if enableDlq then logged (moveToDlq U now queueName) else pure ()

/-- The three steps for one queue. -/
def scanQueue (U : UuidText) (enableDlq : Bool) (now : Int) (queueName : Text) : Method Unit := do
  logged (releaseExpiredMessages U now queueName)
  scanDlq U enableDlq now queueName
  logged (purgeExpiredMessages U now queueName)

def scanQueues (U : UuidText) (enableDlq : Bool) (now : Int) : List QueueSummary → Method Unit
  | [] => pure ()
  | summary :: queues => do
      scanQueue U enableDlq now summary.name
      scanQueues U enableDlq now queues

/-- The clock is read once, before the first queue. -/
def scanAll (U : UuidText) (enableDlq : Bool) (now : Int) : Method Unit := do
  let queues ← listQueues
  scanQueues U enableDlq now queues

/-! ## What a pass does -/

variable {U : UuidText}

theorem summarizeAll_apply (configs : List IndividualQueueConfig) (kv : KeyValue Stored) :
    ∃ queues, summarizeAll configs kv = (.ok queues, kv) ∧
      queues.map QueueSummary.name = configs.map IndividualQueueConfig.name := by
  induction configs with
  | nil => exact ⟨[], rfl, rfl⟩
  | cons config configs ih =>
    obtain ⟨queues, ran, names⟩ := ih
    obtain ⟨summary, line, name⟩ : ∃ summary, summarize config kv = (.ok summary, kv) ∧
        summary.name = config.name := ⟨_, rfl, rfl⟩
    refine ⟨summary :: queues, ?_, by rw [List.map_cons, names, name, List.map_cons]⟩
    exact (Exec.bind_of_ok line _).trans (Exec.bind_of_ok ran _)

/-- The queues of a pass are those with a configuration, and listing them changes nothing. -/
theorem listQueues_apply (kv : KeyValue Stored) : ∃ queues, listQueues kv = (.ok queues, kv) ∧
    queues.map QueueSummary.name =
      (configsOf (kv.range (utf8 metaLabel) (utf8 metaLabel ++ [0xFF]))).map
        IndividualQueueConfig.name := by
  obtain ⟨queues, ran, names⟩ :=
    summarizeAll_apply (configsOf (kv.range (utf8 metaLabel) (utf8 metaLabel ++ [0xFF]))) kv
  exact ⟨queues, (Exec.bind_of_ok (KeyValue.scan_apply ..) _).trans ran, names⟩

theorem mem_configsOf {kv : KeyValue Stored} {config : IndividualQueueConfig}
    (found : kv[queueMetaKey config.name]? = some (.config config)) :
    config ∈ configsOf (kv.range (utf8 metaLabel) (utf8 metaLabel ++ [0xFF])) := by
  refine List.mem_filterMap.mpr ⟨(queueMetaKey config.name, .config config), ?_, rfl⟩
  refine KeyValue.mem_range.mpr ⟨found, (mem_prefixRange (ff_not_mem_utf8 _)).mpr ?_⟩
  exact utf8_prefix_iff.mpr (List.prefix_append ..)

theorem logged_snd {α : Type} (x : Method α) (kv : KeyValue Stored) : (logged x kv).2 = (x kv).2 := by
  rw [logged]
  rcases x kv with ⟨_ | _ | _ | _, _⟩ <;> rfl

/-- An error is passed over. -/
theorem logged_apply {α : Type} {x : Method α} {kv kv' : KeyValue Stored}
    (ended : (∃ a, x kv = (.ok a, kv')) ∨ ∃ e, x kv = (.err e, kv')) :
    logged x kv = (.ok (), kv') := by
  rw [logged]
  rcases ended with ⟨_, ran⟩ | ⟨_, failed⟩
  · rw [ran]
  · rw [failed]

theorem forEachMessage_ends {α : Type} {name : Text}
    (body : Bytes → Uuid → QueueMessage → Method (Option α))
    (ends : ∀ key i m kv, ∃ result kv', body key i m kv = (.ok result, kv'))
    (keys : List Bytes) (kv : KeyValue Stored) :
    ∃ results kv', forEachMessage U name body keys kv = (.ok results, kv') := by
  obtain ⟨results, kv', ran, -⟩ := forEachMessage_keeps body (P := fun _ => True)
    (fun key kv i m _ _ => by
      obtain ⟨result, kv', ran⟩ := ends key i m kv
      exact ⟨result, kv', ran, trivial⟩) keys kv trivial
  exact ⟨results, kv', ran⟩

section

variable (now : Int) (name : Text) (kv : KeyValue Stored)

include now name kv

theorem releaseExpiredMessages_ends :
    ∃ a, releaseExpiredMessages U now name kv = (.ok a, (releaseExpiredMessages U now name kv).2) := by
  rw [releaseExpiredMessages_apply]
  obtain ⟨results, kv', ran⟩ := forEachMessage_ends (release U now name)
    (fun key i m kv => by
      rw [release_apply]
      split <;> exact ⟨_, _, rfl⟩) ((entriesOf .inflight name kv).map Prod.fst) kv
  rw [Exec.bind_of_ok ran]
  exact ⟨_, rfl⟩

theorem moveToDlq_ends : (∃ a, moveToDlq U now name kv = (.ok a, (moveToDlq U now name kv).2)) ∨
      ∃ e, moveToDlq U now name kv = (.err e, (moveToDlq U now name kv).2) := by
  by_cases target : ∃ config d, kv[queueMetaKey name]? = some (.config config) ∧
      config.dlqName = some d
  · obtain ⟨config, d, found, target⟩ := target
    obtain ⟨results, kv', ran⟩ := forEachMessage_ends
      (bury U now name d) (fun key i m kv => by
        rw [bury_apply]
        split <;> exact ⟨_, _, rfl⟩) ((entriesOf .inflight name kv).map Prod.fst) kv
    rw [moveToDlq_of_some found target, Exec.bind_of_ok ran]
    exact .inl ⟨_, rfl⟩
  · rw [moveToDlq, Exec.bind_apply, getQueue_apply]
    rcases found : kv[queueMetaKey name]? with _ | config | _ | _
    · exact .inr ⟨_, rfl⟩
    · cases named : config.dlqName with
      | none => exact .inl ⟨0, by simp [named]⟩
      | some d => exact absurd ⟨config, d, found, named⟩ target
    · exact .inr ⟨_, rfl⟩
    · exact .inr ⟨_, rfl⟩

theorem purgeExpiredMessages_ends :
    ∃ a, purgeExpiredMessages U now name kv = (.ok a, (purgeExpiredMessages U now name kv).2) := by
  rw [purgeExpiredMessages_apply]
  exact ⟨_, rfl⟩

end

theorem scanQueue_apply (enableDlq : Bool) (now : Int) (name : Text) (kv : KeyValue Stored) :
    scanQueue U enableDlq now name kv = (.ok (), (purgeExpiredMessages U now name
      (if enableDlq then (moveToDlq U now name (releaseExpiredMessages U now name kv).2).2
        else (releaseExpiredMessages U now name kv).2)).2) := by
  have first := logged_apply (.inl (releaseExpiredMessages_ends (U := U) now name kv))
  have second : scanDlq U enableDlq now name (releaseExpiredMessages U now name kv).2 =
      (.ok (), if enableDlq then (moveToDlq U now name (releaseExpiredMessages U now name kv).2).2
        else (releaseExpiredMessages U now name kv).2) := by
    rw [scanDlq]
    cases enableDlq with
    | false => rfl
    | true => exact logged_apply (moveToDlq_ends now name _)
  rw [scanQueue, Exec.bind_of_ok first, Exec.bind_of_ok second]
  exact logged_apply (.inl (purgeExpiredMessages_ends now name _))

/-- **What the three steps keep, a pass keeps.** -/
theorem scanAll_keeps {P : KeyValue Stored → Prop} (enableDlq : Bool) (now : Int)
    (release : ∀ kv name, P kv → P (releaseExpiredMessages U now name kv).2)
    (move : ∀ kv name, P kv → P (moveToDlq U now name kv).2)
    (purge : ∀ kv name, P kv → P (purgeExpiredMessages U now name kv).2)
    {kv : KeyValue Stored} (held : P kv) : P (scanAll U enableDlq now kv).2 := by
  have keepsLogged : ∀ {α : Type} {x : Method α}, (∀ kv, P kv → P (x kv).2) →
      Exec.Keeps P (logged x) := by
    intro α x keeps kv held
    rw [logged_snd]
    exact keeps kv held
  have keepsQueue : ∀ name, Exec.Keeps P (scanQueue U enableDlq now name) := by
    intro name
    refine (keepsLogged fun kv => release kv name).bind fun _ => Exec.Keeps.bind ?_ fun _ =>
      keepsLogged fun kv => purge kv name
    rw [scanDlq]
    split
    · exact keepsLogged fun kv => move kv name
    · exact Exec.keeps_pure P ()
  have keepsQueues : ∀ queues, Exec.Keeps P (scanQueues U enableDlq now queues) := by
    intro queues
    induction queues with
    | nil => exact Exec.keeps_pure P ()
    | cons summary queues ih => exact (keepsQueue summary.name).bind fun _ => ih
  obtain ⟨queues, listed, -⟩ := listQueues_apply kv
  rw [scanAll, Exec.bind_of_ok listed]
  exact keepsQueues queues kv held

end NovaRuntime.Queue
