/-
# NovaRuntime.Executor.Replies — whether a cached reply answers the right call

The cache of replies knows the key of a call and nothing else, and is read before the rate
limit and the authorization. A mutation whose key was used before, by another user, on
another target or for another operation, is answered with the reply of that call
(`stranger_succeeds`), also where its own session may not write. Where calls that share a
key share operation, target, user and the right to write (`Agrees`), and the middlewares
only refuse, every success is of a call that ran all its stages or repeats one that did
(`sound_agreeing`).
-/
import NovaRuntime.Executor.Calls
import NovaRuntime.Library.Runs

namespace NovaRuntime.Executor

open NovaRuntime.Library

set_option autoImplicit false

def Call.user (call : Call) : Option (BitVec 128) := call.context.userSession.map UserSession.userId

/-- The call has a session that may write. -/
def Call.mayWrite (call : Call) : Bool := call.context.userSession.any UserSession.canWrite

/-- Two calls for one operation of one user. -/
structure Call.Agrees (call other : Call) : Prop where
  operationType : call.request.operationType = other.request.operationType
  target : call.request.target = other.request.target
  user : call.user = other.user
  mayWrite : call.mayWrite = other.mayWrite

theorem Call.Agrees.symm {call other : Call} (agrees : call.Agrees other) : other.Agrees call :=
  ⟨agrees.operationType.symm, agrees.target.symm, agrees.user.symm, agrees.mayWrite.symm⟩

def idempotencyTtl (config : PipelineConfig) : Nat := config.idempotencyKeyTtlSecs * 1000000000

section

variable (config : PipelineConfig)

/-- An earlier call with the key of this one, for the same operation of the same user, ran
all its stages, and its reply was stored less than the lifetime of a key ago. -/
def Answer.Repeats (stores : List Stored) (a : Answer) : Prop :=
  ∃ e ∈ stores, e.call.key.isSome ∧ e.call.key = a.call.key ∧ e.call.Agrees a.call ∧
    Ran config e.env e.ctx e.call.request ∧ e.response = a.response ∧
    e.instant ≤ a.instant ∧ a.instant < e.instant + idempotencyTtl config

/-- **A sound answer:** a success is of a call that ran all its stages, or it repeats one;
and a mutation succeeds only for a session that may write. -/
structure Answer.Sound (stores : List Stored) (a : Answer) : Prop where
  sourced : a.response.success → (∃ ctx env, a.source = .pipeline ctx env ∧ Ran config env ctx a.call.request) ∨
    (a.source = .cache ∧ a.Repeats config stores)
  permitted : a.response.success → a.call.isMutation → a.call.mayWrite

/-! ## The invariant -/

/-- A call that has run holds a reply that says so. -/
def Task.Honest : Task → Prop
  | .call c (.running ctx) => ctx.userSession = c.context.userSession
  | .call c (.storing ctx env response) =>
    ctx.userSession = c.context.userSession ∧ (response.success → Ran config env ctx c.request)
  | _ => True

def Task.call? : Task → Option Call
  | .call c _ => some c
  | .drain _ => none

def AllAgree (calls : List Call) : Prop :=
  ∀ call ∈ calls, ∀ other ∈ calls, call.key.isSome → call.key = other.key → call.Agrees other

structure Replied (s : Shared) (tasks : List Task) : Prop where
  listed : ∀ task ∈ tasks, ∀ call ∈ task.call?, call ∈ s.calls
  agree : AllAgree s.calls
  honest : ∀ task ∈ tasks, task.Honest config
  stored : ∀ e ∈ s.stores, e.call ∈ s.calls ∧ e.call.key = some e.key ∧
    e.ctx.userSession = e.call.context.userSession ∧ Ran config e.env e.ctx e.call.request ∧ e.instant ≤ s.clock
  cached : ∀ key held, s.cache.lookup key = some held → ∃ e ∈ s.stores, e.key = key ∧ e.response = held.1 ∧
    held.2 = e.instant + idempotencyTtl config
  sound : ∀ a ∈ s.answers, a.Sound config s.stores

end

section

variable {config : PipelineConfig} {s s' : Shared} {tasks rest : List Task} {env : Surroundings} {call : Call}

theorem Replied.of_perm (replied : Replied config s tasks) (same : tasks.Perm rest) : Replied config s rest :=
  { replied with
    listed := fun task member => replied.listed task (same.mem_iff.mpr member)
    honest := fun task member => replied.honest task (same.mem_iff.mpr member) }

theorem Replied.elapse (replied : Replied config s tasks) (elapsed : Nat) : Replied config (s.elapse elapsed) tasks :=
  { replied with
    stored := fun e member => by
      obtain ⟨listed, keyed, session, ran, past⟩ := replied.stored e member
      exact ⟨listed, keyed, session, ran, Nat.le_trans past (Nat.le_add_right _ _)⟩ }

/-- **The turn of a call**, from what it leaves in the cache and in the story. -/
theorem Replied.turn {place : Place} {next : Option Place} (replied : Replied config s (.call call place :: rest))
    (calls : s'.calls = s.calls) (honest : ∀ p ∈ next, (Task.call call p).Honest config)
    (stored : ∀ e ∈ s'.stores, e.call ∈ s'.calls ∧ e.call.key = some e.key ∧
      e.ctx.userSession = e.call.context.userSession ∧ Ran config e.env e.ctx e.call.request ∧ e.instant ≤ s'.clock)
    (cached : ∀ key held, s'.cache.lookup key = some held → ∃ e ∈ s'.stores, e.key = key ∧ e.response = held.1 ∧
      held.2 = e.instant + idempotencyTtl config)
    (sound : ∀ a ∈ s'.answers, a.Sound config s'.stores) :
    Replied config s' ((next.map (.call call)).toList ++ rest) := by
  refine ⟨?_, ?_, ?_, stored, cached, sound⟩
  · rw [calls]
    intro task member
    rcases List.mem_append.mp member with new | old
    · obtain ⟨p, -, rfl⟩ := Option.map_eq_some_iff.mp (Option.mem_toList.mp new)
      exact replied.listed (.call call place) List.mem_cons_self
    · exact replied.listed task (.tail _ old)
  · rw [calls]
    exact replied.agree
  · intro task member
    rcases List.mem_append.mp member with new | old
    · obtain ⟨p, here, rfl⟩ := Option.map_eq_some_iff.mp (Option.mem_toList.mp new)
      exact honest p here
    · exact replied.honest task (.tail _ old)

theorem Replied.drained {place : Draining} {next : Option Draining} (replied : Replied config s (.drain place :: rest))
    (same : SameStory s s') : Replied config s' ((next.map .drain).toList ++ rest) where
  listed := by
    rw [same.calls]
    intro task member
    rcases List.mem_append.mp member with new | old
    · obtain ⟨p, -, rfl⟩ := Option.map_eq_some_iff.mp (Option.mem_toList.mp new)
      rintro _ ⟨⟩
    · exact replied.listed task (.tail _ old)
  honest := by
    intro task member
    rcases List.mem_append.mp member with new | old
    · obtain ⟨p, -, rfl⟩ := Option.map_eq_some_iff.mp (Option.mem_toList.mp new)
      trivial
    · exact replied.honest task (.tail _ old)
  agree := by rw [same.calls]; exact replied.agree
  stored := by rw [same.stores, same.calls, same.clock]; exact replied.stored
  cached := by rw [same.cache, same.stores]; exact replied.cached
  sound := by rw [same.answers, same.stores]; exact replied.sound

/-- A place that is no run says nothing about one. -/
theorem Place.Plain.honest {p : Place} (plain : p.Plain call) : (Task.call call p).Honest config := by
  cases p with
  | running ctx => exact plain
  | storing ctx env response => cases plain
  | _ => trivial

/-- An answer is as sound when more is stored. -/
theorem Answer.Sound.mono {a : Answer} {stores : List Stored} {e : Stored} (sound : a.Sound config stores) :
    a.Sound config (e :: stores) where
  permitted := sound.permitted
  sourced success := (sound.sourced success).imp_right fun repeated => by
    obtain ⟨cached, earlier, member, same⟩ := repeated
    exact ⟨cached, earlier, .tail _ member, same⟩

theorem mayWrite_of_ran {ctx : OperationContext} (ran : Ran config env ctx call.request)
    (session : ctx.userSession = call.context.userSession) (mutation : call.isMutation) : call.mayWrite := by
  obtain ⟨own, held, may⟩ := ran.canWrite mutation
  rw [session] at held
  rw [Call.mayWrite, Option.mem_def.mp held]
  exact may

/-- A reply from the cache is sound. -/
theorem Replied.sound_hit {place : Place} {key : IdempotencyKey} {response : OperationResponse}
    (replied : Replied config s (.call call place :: rest)) (keyed : call.key = some key) (mutation : call.isMutation)
    (fresh : s.cache.fresh s.clock key = some response) :
    Answer.Sound config s.stores ⟨call, response, .cache, s.clock⟩ := by
  obtain ⟨expires, held, alive⟩ := (s.cache.fresh_eq_some s.clock).mp fresh
  obtain ⟨e, member, here, same, later⟩ := replied.cached key _ held
  obtain ⟨listed, stored_key, session, ran, past⟩ := replied.stored e member
  have own : call ∈ s.calls := replied.listed (.call call place) (.head _) call rfl
  have one_key : e.call.key = call.key := by rw [stored_key, here, keyed]
  have agrees := replied.agree e.call listed call own (by rw [stored_key]; rfl) one_key
  constructor
  · intro _
    refine .inr ⟨rfl, e, member, by rw [stored_key]; rfl, one_key, agrees, ran, same, past, ?_⟩
    rw [← later]
    exact alive
  · intro _ _
    rw [← agrees.mayWrite]
    refine mayWrite_of_ran ran session ?_
    rw [Call.isMutation, agrees.operationType]
    exact mutation

/-- **A step of a call** behind middlewares that only refuse keeps the replies sound. -/
theorem Replied.advance {place : Place} {limited : Bool} (replied : Replied config s (.call call place :: rest))
    (strict : (Task.call call place).runs → env.Strict) :
    Replied config (s.callStep config limited env call place).1
      (((s.callStep config limited env call place).2.map (.call call)).toList ++ rest) := by
  have turn := callStep_turn config env s limited call place
  generalize s.callStep config limited env call place = after at turn
  cases turn with
  | quiet unstored same engaged plain =>
    refine replied.turn same.calls (fun p here => (plain p here).honest) ?_ ?_ ?_
    · rw [same.stores, same.calls, same.clock]
      exact replied.stored
    · rw [same.cache, same.stores]
      exact replied.cached
    · rw [same.answers, same.stores]
      exact replied.sound
  | refused code message unstored same engaged plain =>
    refine replied.turn same.calls (fun p here => (plain p here).honest) ?_ ?_ ?_
    · rw [same.stores, same.calls, same.clock]
      exact replied.stored
    · rw [same.cache, same.stores]
      exact replied.cached
    · rw [same.answers, same.stores]
      refine List.forall_mem_cons.mpr ⟨⟨?_, ?_⟩, replied.sound⟩
      · rintro ⟨⟩
      · rintro ⟨⟩
  | hit key cached keyed mutation fresh =>
    refine replied.turn rfl (by rintro _ ⟨⟩) replied.stored replied.cached ?_
    exact List.forall_mem_cons.mpr ⟨replied.sound_hit keyed mutation fresh, replied.sound⟩
  | miss missed =>
    refine replied.turn rfl ?_ replied.stored replied.cached replied.sound
    rintro _ ⟨⟩
    trivial
  | run ctx =>
    have session : ctx.userSession = call.context.userSession := replied.honest _ List.mem_cons_self
    have ran : (runPipeline config env ctx call.request).success → Ran config env ctx call.request :=
      ran_of_success (strict rfl)
    refine replied.turn rfl ?_ replied.stored replied.cached ?_
    · rintro _ ⟨⟩
      exact ⟨session, ran⟩
    · refine List.forall_mem_cons.mpr ⟨⟨?_, ?_⟩, replied.sound⟩
      · exact fun success => .inl ⟨ctx, env, rfl, ran success⟩
      · exact fun success mutation => mayWrite_of_ran (ran success) session mutation
  | store ctx ran response =>
    obtain ⟨session, honest⟩ := replied.honest _ List.mem_cons_self
    have finished : ∀ p ∈ some Place.finishing, (Task.call call p).Honest config := by
      rintro _ ⟨⟩
      trivial
    cases keyed : call.key with
    | none =>
      rw [Shared.store, keyed]
      exact replied.turn rfl finished replied.stored replied.cached replied.sound
    | some key =>
      cases success : response.success with
      | false =>
        have same : s.store config call ctx ran response = s := by
          rw [Shared.store, keyed]
          simp [Cache.storeIdempotency, success]
        rw [same]
        exact replied.turn rfl finished replied.stored replied.cached replied.sound
      | true =>
        have after : s.store config call ctx ran response = { s with
            cache := s.cache.storeIdempotency s.clock config key response
            stores := ⟨call, key, ctx, ran, response, s.clock⟩ :: s.stores } := by
          rw [Shared.store, keyed, success]
          rfl
        rw [after]
        refine replied.turn rfl finished ?_ ?_ (fun a member => (replied.sound a member).mono)
        · refine List.forall_mem_cons.mpr ⟨⟨?_, keyed, session, honest success, le_rfl⟩, replied.stored⟩
          exact replied.listed (.call call _) (.head _) call rfl
        · intro k held found
          rw [Cache.lookup_storeIdempotency s.cache s.clock config success] at found
          split at found
          next here =>
            cases found
            exact ⟨_, (.head _), here.symm, rfl, rfl⟩
          next =>
            split at found
            · cases found
            · obtain ⟨e, member, facts⟩ := replied.cached k held found
              exact ⟨e, .tail _ member, facts⟩

end

namespace PipelineExecutor

/-! ## Runs -/

/-- A new call agrees with the earlier ones of its key, and the middlewares around a run
only refuse. -/
def Agreeing (m : PipelineExecutor) : Event → Prop
  | .execute call => ∀ other ∈ m.shared.calls, call.key.isSome → other.key = call.key → call.Agrees other
  | .drain _ => True
  | .advance i _ _ env => ∀ task ∈ m.tasks[i]?, task.runs → env.Strict

/-- Every answer of the run so far is sound. -/
def RepliesSound (config : PipelineConfig) (m : PipelineExecutor) : Prop :=
  ∀ a ∈ m.shared.answers, a.Sound config m.shared.stores

section

variable {config : PipelineConfig} {m : PipelineExecutor} {event : Event}

theorem replied_new : Replied config (new config).shared (new config).tasks := by
  refine ⟨?_, ?_, ?_, ?_, ?_, ?_⟩
  · intro task absent
    exact nomatch absent
  · intro call absent
    exact nomatch absent
  · intro task absent
    exact nomatch absent
  · intro e absent
    exact nomatch absent
  · rintro key held ⟨⟩
  · intro a absent
    exact nomatch absent

theorem replied_step (replied : Replied config m.shared m.tasks) (agreeing : m.Agreeing event) :
    Replied config (m.step config event).shared (m.step config event).tasks := by
  cases event with
  | execute call =>
    refine ⟨?_, ?_, ?_, ?_, replied.cached, replied.sound⟩
    · refine List.forall_mem_cons.mpr ⟨?_, fun task member c here => ?_⟩
      · rintro _ ⟨⟩
        exact List.mem_cons_self
      · exact .tail _ (replied.listed task member c here)
    · intro a here b there keyed same
      rcases List.mem_cons.mp here with rfl | old
      · rcases List.mem_cons.mp there with rfl | older
        · exact ⟨rfl, rfl, rfl, rfl⟩
        · exact agreeing b older keyed same.symm
      · rcases List.mem_cons.mp there with rfl | older
        · exact (agreeing a old (same ▸ keyed) same).symm
        · exact replied.agree a old b older keyed same
    · exact List.forall_mem_cons.mpr ⟨trivial, replied.honest⟩
    · exact fun e member => (replied.stored e member).imp_left (.tail _)
  | drain timeout =>
    exact { replied with
      listed := List.forall_mem_cons.mpr ⟨by rintro _ ⟨⟩, replied.listed⟩
      honest := List.forall_mem_cons.mpr ⟨trivial, replied.honest⟩ }
  | advance i elapsed limited env =>
    rw [step]
    cases here : m.tasks[i]? with
    | none => exact replied.elapse elapsed
    | some task =>
      have turn := (replied.of_perm (Run.perm_of_turn here)).elapse elapsed
      cases task with
      | call call place => exact turn.advance (agreeing _ here)
      | drain place => exact turn.drained (drainStep_same place)

/-- **Replies are sound** in every state of a run in which calls that share a key agree and
middlewares only refuse. -/
theorem sound_agreeing {events : List Event} (each : Run.Each (step config) Agreeing (new config) events) :
    Run.Always (step config) (RepliesSound config) (new config) events := by
  have invariant := each.invariant (I := fun m => Replied config m.shared m.tasks)
    (fun _ _ held meets => replied_step held meets) replied_new
  exact fun m reached => (invariant m reached).sound

end

instance (call other : Call) : Decidable (call.Agrees other) :=
  decidable_of_iff (call.request.operationType = other.request.operationType ∧
      call.request.target = other.request.target ∧ call.user = other.user ∧ call.mayWrite = other.mayWrite)
    ⟨fun same => ⟨same.1, same.2.1, same.2.2.1, same.2.2.2⟩,
      fun agrees => ⟨agrees.operationType, agrees.target, agrees.user, agrees.mayWrite⟩⟩

instance (env : Surroundings) : Decidable env.Strict :=
  have (gate : Option PipelineResult) : Decidable (∀ result ∈ gate, result.refuses) := Option.decidableForallMem gate
  have (a : Attempt) : Decidable (∀ result ∈ a.gate, result.isError) := Option.decidableForallMem a.gate
  inferInstanceAs (Decidable (_ ∧ _ ∧ _ ∧ ∀ a ∈ env.attempts, ∀ result ∈ a.gate, result.isError))

instance (m : PipelineExecutor) : (event : Event) → Decidable (m.Agreeing event)
  | .execute call => inferInstanceAs (Decidable
      (∀ other ∈ m.shared.calls, call.key.isSome → other.key = call.key → call.Agrees other))
  | .drain _ => .isTrue trivial
  | .advance i _ _ _ => Option.decidableForallMem m.tasks[i]?

/-- A user that may write. -/
def writer : UserSession := ⟨1, ['a'], [], ["docs.write".toList], 2⟩

/-- A creation with a key. -/
def keyedCreate : Call :=
  ⟨{ operationType := .create, target := .collection ['c'], options := { idempotencyKey := some 7 } },
    ⟨0, some writer, 0⟩⟩

/-- A deletion with the same key, by nobody. -/
def strangeDelete : Call :=
  ⟨{ operationType := .delete, target := .object ['d'] (some 5), options := { idempotencyKey := some 7 } },
    ⟨0, none, 0⟩⟩

theorem sound_agreeing_sample : Run.Always (step {}) (RepliesSound {}) (new {})
    (.execute keyedCreate :: advances 12 ++ .execute keyedCreate :: advances 3) :=
  sound_agreeing (by decide +kernel)

/-- The deletion of nobody succeeds with the reply to the creation. -/
theorem stranger_succeeds : ¬ Run.Always (step {}) (RepliesSound {}) (new {})
    (.execute keyedCreate :: advances 12 ++ .execute strangeDelete :: advances 3) := by
  intro always
  have last := always _ (Run.foldl_mem_states _ _)
  have answered : ∃ a ∈ ((Event.execute keyedCreate :: advances 12 ++ .execute strangeDelete :: advances 3).foldl
      (step {}) (new {})).shared.answers,
      a.response.success = true ∧ a.call.isMutation = true ∧ a.call.mayWrite = false := by
    decide +kernel
  obtain ⟨a, member, success, mutation, barred⟩ := answered
  exact absurd (((last a member).permitted success mutation).symm.trans barred) (by decide)

end PipelineExecutor

end NovaRuntime.Executor
