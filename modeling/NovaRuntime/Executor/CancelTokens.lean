/-
# NovaRuntime.Executor.CancelTokens — how far a cancellation reaches

`CancellationToken` of `nova_executor::cancellation`, without `drain`. The calls are cut at the
load and the store of the flag and where the lock is taken or given back. A child is a token
with a callback at its parent that sets its flag, and only that: the callbacks of the child do
not run, so a cancellation goes no farther than the children that are there.

`settled_run` says what holds whenever no call is under way: a cancelled token and its children
have their flags set, its callbacks have run exactly once, and so has every callback that was
registered with the flag set. Nothing else is cancelled, and nothing runs twice.
-/
import Mathlib.Algebra.Order.Group.Multiset
import Mathlib.Logic.Relation
import Mathlib.Tactic.Abel
import NovaRuntime.Library.Runs

namespace NovaRuntime.Executor

open NovaRuntime.Library

set_option autoImplicit false

/-- A callback: the flag of a child, or one of a user. `late` says that the flag of the token was
set when it was handed over. -/
structure Registration where
  id : Nat
  token : Nat
  child : Option Nat
  late : Bool
  deriving DecidableEq

/-- A call under way, by what it does next. -/
inductive TokenCall where
  | storing (t : Nat)
  | draining (t : Nat)
  | running (rest : List Registration)
  | checking (r : Registration)
  | locking (r : Registration)
  | pushing (r : Registration)
  | firing (r : Registration)
  deriving DecidableEq

/-- The callbacks that a call has in hand. -/
def TokenCall.regs : TokenCall → List Registration
  | .running rest => rest
  | .checking r | .locking r | .pushing r | .firing r => [r]
  | .storing _ | .draining _ => []

/-- The parents of the tokens, the flags that are set, the callbacks that wait, the calls, the
tokens that `cancel` was called on, and the callbacks that were registered and that ran. -/
structure Tokens where
  parents : List (Option Nat)
  flags : List Nat
  waiting : List Registration
  calls : List TokenCall
  asked : List Nat
  registered : List Registration
  ran : List Registration

inductive TokenAct where
  | new
  | cancel (t : Nat)
  | onCancel (t : Nat)
  | childToken (t : Nat)
  | turn (i : Nat)

namespace Tokens

def start : Tokens := ⟨[], [], [], [], [], [], []⟩

def resume (s : Tokens) (call : TokenCall) : Tokens := { s with calls := call :: s.calls }

def fire (s : Tokens) (r : Registration) : Tokens :=
  { s with flags := r.child.toList ++ s.flags, ran := r :: s.ran }

/-- The lock of the callbacks of a token is taken. -/
def locked (s : Tokens) (t : Nat) : Bool := s.calls.any fun call => match call with
  | .pushing r => r.token == t
  | _ => false

/-- `on_cancel` is called. -/
def register (s : Tokens) (t : Nat) (child : Option Nat) : Tokens :=
  let r := ⟨s.registered.length, t, child, decide (t ∈ s.flags)⟩
  { s with calls := .checking r :: s.calls, registered := r :: s.registered }

/-- A step of a call; `s` has the others. -/
def turn (s : Tokens) : TokenCall → Tokens
  | .storing t => resume { s with flags := t :: s.flags } (.draining t)
  | .draining t =>
    if s.locked t then s.resume (.draining t)
    else
      resume { s with waiting := s.waiting.filter fun r => r.token ≠ t }
        (.running (s.waiting.filter fun r => r.token = t))
  | .running [] => s
  | .running (r :: rest) => (s.fire r).resume (.running rest)
  | .checking r => s.resume (if r.token ∈ s.flags then .firing r else .locking r)
  | .locking r =>
    s.resume (if s.locked r.token then .locking r else if r.token ∈ s.flags then .firing r else .pushing r)
  | .pushing r => { s with waiting := s.waiting ++ [r] }
  | .firing r => s.fire r

def step (s : Tokens) : TokenAct → Tokens
  | .new => { s with parents := s.parents ++ [none] }
  | .cancel t => { s with calls := .storing t :: s.calls, asked := t :: s.asked }
  | .onCancel t => s.register t none
  | .childToken t => register { s with parents := s.parents ++ [some t] } t (some s.parents.length)
  | .turn i =>
    match s.calls[i]? with
    | some call => turn { s with calls := s.calls.eraseIdx i } call
    | none => s

/-! ## What is asked -/

def Parent (s : Tokens) (t child : Nat) : Prop := s.parents[child]? = some (some t)

/-- **What holds with no call under way.** -/
structure Settled (s : Tokens) : Prop where
  cancelled : ∀ t ∈ s.asked, t ∈ s.flags ∧ (∀ child, s.Parent t child → child ∈ s.flags) ∧
    ∀ r ∈ s.registered, r.token = t → r ∈ s.ran
  late : ∀ r ∈ s.registered, r.late = true → r ∈ s.ran
  once : s.ran.Nodup
  only : ∀ t ∈ s.flags, ∃ a ∈ s.asked, Relation.ReflTransGen s.Parent a t
  quiet : ∀ r ∈ s.ran, r ∈ s.registered ∧ r.token ∈ s.flags

end Tokens

/-! ## The invariant -/

/-- What a call has seen before its next step. -/
def TokenCall.Fits (asked flags : List Nat) : TokenCall → Prop
  | .storing t => t ∈ asked
  | .draining t => t ∈ flags
  | .running rest => ∀ r ∈ rest, r.token ∈ flags
  | .firing r => r.token ∈ flags
  | .checking _ | .locking _ | .pushing _ => True

theorem TokenCall.Fits.mono {asked asked' flags flags' : List Nat} {call : TokenCall} (fits : call.Fits asked flags)
    (more : ∀ t ∈ asked, t ∈ asked') (grows : ∀ t ∈ flags, t ∈ flags') : call.Fits asked' flags' := by
  cases call with
  | storing t => exact more t fits
  | draining t => exact grows t fits
  | running rest => exact fun r member => grows _ (fits r member)
  | firing r => exact grows _ fits
  | checking r | locking r | pushing r => trivial

namespace Tokens

/-- A callback is in a list, or about to be: it was handed over without the flag, and a `cancel`
of its token has still to drain the list. -/
structure Waits (s : Tokens) (r : Registration) : Prop where
  early : r.late = false
  drained : r.token ∈ s.asked → .storing r.token ∈ s.calls ∨ .draining r.token ∈ s.calls

structure Sound (s : Tokens) : Prop where
  distinct : s.registered.Nodup
  ids : ∀ r ∈ s.registered, r.id < s.registered.length
  kept : (s.waiting : Multiset Registration) + s.ran + s.calls.flatMap TokenCall.regs = s.registered
  asked : ∀ t ∈ s.asked, t ∈ s.flags ∨ .storing t ∈ s.calls
  fits : ∀ call ∈ s.calls, call.Fits s.asked s.flags
  waits : ∀ r, r ∈ s.waiting ∨ .pushing r ∈ s.calls → s.Waits r
  late : ∀ r ∈ s.registered, r.late = true → r.token ∈ s.flags
  ran : ∀ r ∈ s.ran, r.token ∈ s.flags ∧ ∀ child ∈ r.child, child ∈ s.flags
  made : ∀ r ∈ s.registered, ∀ child ∈ r.child, s.Parent r.token child
  known : ∀ t child, s.Parent t child → ∃ r ∈ s.registered, r.token = t ∧ r.child = some child
  only : ∀ t ∈ s.flags, ∃ a ∈ s.asked, Relation.ReflTransGen s.Parent a t

namespace Sound

variable {s : Tokens}

theorem registered (sound : s.Sound) {r : Registration}
    (here : r ∈ s.waiting ∨ r ∈ s.ran ∨ r ∈ s.calls.flatMap TokenCall.regs) : r ∈ s.registered := by
  rw [← Multiset.mem_coe, ← sound.kept]
  simpa [or_assoc] using here

/-- **With no call under way.** -/
theorem settled (sound : s.Sound) (idle : s.calls = []) : s.Settled := by
  have kept := sound.kept
  rw [idle, List.flatMap_nil, Multiset.coe_nil, add_zero, Multiset.coe_add, Multiset.coe_eq_coe] at kept
  have ran {r : Registration} (member : r ∈ s.registered) (gone : r ∉ s.waiting) : r ∈ s.ran :=
    (List.mem_append.mp (kept.mem_iff.mpr member)).resolve_left gone
  have cancelled {t : Nat} (asked : t ∈ s.asked) {r : Registration} (member : r ∈ s.registered) (same : r.token = t) :
      r ∈ s.ran := by
    refine ran member fun waits => ?_
    have drained := (sound.waits r (.inl waits)).drained (same ▸ asked)
    rw [idle] at drained
    exact drained.elim List.not_mem_nil List.not_mem_nil
  refine ⟨fun t asked => ⟨?_, fun child parent => ?_, fun r => cancelled asked⟩, fun r member late => ?_, ?_, sound.only, ?_⟩
  · have flagged := sound.asked t asked
    rw [idle] at flagged
    exact flagged.resolve_right List.not_mem_nil
  · obtain ⟨r, member, same, made⟩ := sound.known t child parent
    exact (sound.ran r (cancelled asked member same)).2 child made
  · refine ran member fun waits => ?_
    rw [(sound.waits r (.inl waits)).early] at late
    cases late
  · exact (List.nodup_append.mp (kept.nodup_iff.mpr sound.distinct)).2.1
  · exact fun r member => ⟨sound.registered (.inr (.inl member)), (sound.ran r member).1⟩

theorem pushing_of_cons (call : TokenCall) {calls : List TokenCall} {r : Registration} (plain : call ≠ .pushing r)
    (here : .pushing r ∈ call :: calls) : .pushing r ∈ calls :=
  (List.mem_cons.mp here).resolve_left plain.symm

theorem perm (sound : s.Sound) {calls : List TokenCall} (same : s.calls.Perm calls) :
    Sound { s with calls } where
  distinct := sound.distinct
  ids := sound.ids
  kept := by
    rw [← sound.kept]
    exact congrArg _ (Multiset.coe_eq_coe.mpr (same.flatMap_right _).symm)
  asked t asked := (sound.asked t asked).imp_right same.mem_iff.mp
  fits call member := sound.fits call (same.mem_iff.mpr member)
  waits r here := by
    obtain ⟨early, drained⟩ := sound.waits r (here.imp_right same.mem_iff.mpr)
    exact ⟨early, fun asked => (drained asked).imp same.mem_iff.mp same.mem_iff.mp⟩
  late := sound.late
  ran := sound.ran
  made := sound.made
  known := sound.known
  only := sound.only

theorem fire {call : TokenCall} (sound : Sound { s with calls := call :: s.calls }) {r : Registration}
    (more : List TokenCall) (hand : call.regs = r :: more.flatMap TokenCall.regs) (flagged : r.token ∈ s.flags)
    (fits : ∀ c ∈ more, c.Fits s.asked s.flags) (plain : ∀ other, .pushing other ∉ more) :
    Sound { s.fire r with calls := more ++ s.calls } := by
  have grows : ∀ t ∈ s.flags, t ∈ r.child.toList ++ s.flags := fun _ => List.mem_append_right _
  have member : r ∈ s.registered := by
    refine sound.registered (.inr (.inr ?_))
    rw [List.flatMap_cons, hand]
    exact List.mem_append_left _ (.head _)
  -- a call with callbacks in hand is not about to store or to drain
  have still {c : TokenCall} (none : c.regs = []) (here : c ∈ call :: s.calls) : c ∈ more ++ s.calls := by
    refine List.mem_append_right _ ((List.mem_cons.mp here).resolve_left ?_)
    rintro rfl
    rw [none] at hand
    cases hand
  refine { sound with
    kept := ?_, asked := fun t asked => (sound.asked t asked).imp (grows t) (still rfl), fits := ?_
    waits := fun other here => ?_, late := fun other here late => grows _ (sound.late other here late)
    ran := ?_, only := fun t flag => ?_ }
  · have kept := sound.kept
    rw [List.flatMap_cons, hand] at kept
    refine Eq.trans ?_ kept
    simp only [Tokens.fire, List.flatMap_append, ← Multiset.coe_add, ← Multiset.cons_coe, ← Multiset.singleton_add,
      List.cons_append]
    abel
  · intro c here
    rcases List.mem_append.mp here with new | old
    · exact (fits c new).mono (fun _ => id) grows
    · exact (sound.fits c (.tail _ old)).mono (fun _ => id) grows
  · obtain ⟨early, drained⟩ := sound.waits other
      (here.imp_right fun pushes => .tail _ ((List.mem_append.mp pushes).resolve_left (plain other)))
    exact ⟨early, fun asked => (drained asked).imp (still rfl) (still rfl)⟩
  · refine List.forall_mem_cons.mpr ⟨⟨grows _ flagged, fun child made => ?_⟩, fun other here => ?_⟩
    · exact List.mem_append_left _ (Option.mem_toList.mpr made)
    · obtain ⟨token, children⟩ := sound.ran other here
      exact ⟨grows _ token, fun child made => grows _ (children child made)⟩
  · rcases List.mem_append.mp flag with new | old
    · obtain ⟨a, asked, reach⟩ := sound.only _ flagged
      exact ⟨a, asked, reach.tail (sound.made r member t (Option.mem_toList.mp new))⟩
    · exact sound.only t old

/-- A call goes on with the callbacks in hand, or exchanges some with those that wait. -/
theorem goOn {call : TokenCall} (sound : Sound { s with calls := call :: s.calls }) (more : List TokenCall)
    {waiting : List Registration}
    (kept : (waiting : Multiset Registration) + more.flatMap TokenCall.regs = s.waiting + call.regs)
    (fits : ∀ c ∈ more, c.Fits s.asked s.flags) (plain : ∀ t, call ≠ .storing t)
    (drained : ∀ r, r ∈ waiting ∨ .pushing r ∈ more ++ s.calls → call ≠ .draining r.token)
    (waits : ∀ r, r ∈ waiting ∨ .pushing r ∈ more → Waits { s with calls := call :: s.calls } r) :
    Sound { s with waiting, calls := more ++ s.calls } := by
  have still {c : TokenCall} (differs : call ≠ c) (here : c ∈ call :: s.calls) : c ∈ more ++ s.calls :=
    List.mem_append_right _ ((List.mem_cons.mp here).resolve_left differs.symm)
  refine { sound with
    kept := ?_, asked := fun t asked => (sound.asked t asked).imp_right (still (plain t))
    fits := List.forall_mem_append.mpr ⟨fits, fun c old => sound.fits c (.tail _ old)⟩
    waits := fun r here => ?_ }
  · refine Eq.trans ?_ sound.kept
    simp only [List.flatMap_append, List.flatMap_cons, ← Multiset.coe_add]
    rw [add_right_comm, ← add_assoc, kept]
    abel
  · have before : Waits { s with calls := call :: s.calls } r := by
      rcases here with stays | pushes
      · exact waits r (.inl stays)
      · exact (List.mem_append.mp pushes).elim (fun new => waits r (.inr new)) fun old => sound.waits r (.inr (.tail _ old))
    exact ⟨before.early, fun asked => (before.drained asked).imp (still (plain _)) (still (drained r here))⟩

theorem passOn {call next : TokenCall} (sound : Sound { s with calls := call :: s.calls }) (hand : next.regs = call.regs)
    (fits : next.Fits s.asked s.flags) (plain : ∀ t, call ≠ .storing t ∧ call ≠ .draining t)
    (waits : ∀ r, next = .pushing r → Waits { s with calls := call :: s.calls } r) : (s.resume next).Sound := by
  refine sound.goOn [next] ?_ (List.forall_mem_singleton.mpr fits) (fun t => (plain t).1) (fun r _ => (plain _).2) ?_
  · rw [List.flatMap_singleton, hand]
  · rintro r (here | new)
    · exact sound.waits r (.inl here)
    · exact waits r (List.mem_singleton.mp new).symm

theorem turn {call : TokenCall} (sound : Sound { s with calls := call :: s.calls }) : (s.turn call).Sound := by
  have fits := sound.fits call (.head _)
  cases call with
  | storing t =>
    have grows : ∀ u ∈ s.flags, u ∈ t :: s.flags := fun _ => .tail _
    refine { sound with
      asked := fun u asked => ?_, fits := List.forall_mem_cons.mpr ⟨.head _, fun c old => ?_⟩
      waits := fun r here => ?_
      late := fun r here late => grows _ (sound.late r here late), ran := fun r here => ?_
      only := List.forall_mem_cons.mpr ⟨⟨t, fits, .refl⟩, sound.only⟩ }
    · rcases sound.asked u asked with flag | storing
      · exact .inl (grows u flag)
      · rcases List.mem_cons.mp storing with same | old
        · cases same
          exact .inl (.head _)
        · exact .inr (.tail _ old)
    · exact (sound.fits c (.tail _ old)).mono (fun _ => id) grows
    · obtain ⟨early, drained⟩ := sound.waits r (here.imp_right fun pushes => .tail _ (pushing_of_cons (.draining t) nofun pushes))
      refine ⟨early, fun asked => ?_⟩
      rcases drained asked with storing | draining
      · rcases List.mem_cons.mp storing with same | old
        · cases same
          exact .inr (.head _)
        · exact .inl (.tail _ old)
      · exact .inr (.tail _ ((List.mem_cons.mp draining).resolve_left nofun))
    · obtain ⟨token, children⟩ := sound.ran r here
      exact ⟨grows _ token, fun child made => grows _ (children child made)⟩
  | draining t =>
    rw [Tokens.turn]
    split
    · exact sound
    · next free =>
      have other (r : Registration) (here : r ∈ s.waiting.filter (fun r => r.token ≠ t) ∨ .pushing r ∈ s.calls) :
          r.token ≠ t := by
        rcases here with stays | pushes
        · simpa using (List.mem_filter.mp stays).2
        · exact fun same => free (List.any_eq_true.mpr ⟨_, pushes, beq_iff_eq.mpr same⟩)
      refine sound.goOn [.running (s.waiting.filter fun r => r.token = t)] ?_ ?_ nofun ?_ ?_
      · simp only [List.flatMap_singleton, TokenCall.regs, Multiset.coe_nil, add_zero]
        rw [Multiset.coe_add, Multiset.coe_eq_coe]
        refine List.perm_append_comm.trans ?_
        simpa using List.filter_append_perm (fun r : Registration => decide (r.token = t)) s.waiting
      · refine List.forall_mem_singleton.mpr fun r here => ?_
        rwa [of_decide_eq_true (List.mem_filter.mp here).2]
      · exact fun r here same => other r (here.imp_right (pushing_of_cons (.running _) nofun)) (TokenCall.draining.inj same).symm
      · exact fun r here => sound.waits r (.inl (List.mem_filter.mp (here.resolve_right (by simp))).1)
  | running rest =>
    cases rest with
    | nil =>
      refine sound.goOn [] (by simp [TokenCall.regs]) nofun nofun (fun _ _ => nofun) fun r here => ?_
      exact sound.waits r (.inl (here.resolve_right List.not_mem_nil))
    | cons r rest =>
      refine sound.fire [.running rest] ?_ (fits r (.head _)) ?_ (by simp)
      · simp [TokenCall.regs]
      · exact List.forall_mem_singleton.mpr fun other member => fits other (.tail _ member)
  | checking r =>
    rw [Tokens.turn]
    split
    · next flag => exact sound.passOn rfl flag (by simp) nofun
    · exact sound.passOn rfl trivial (by simp) nofun
  | locking r =>
    rw [Tokens.turn]
    split
    · exact sound
    · split
      · next flag => exact sound.passOn rfl flag (by simp) nofun
      · next clear =>
        refine sound.passOn rfl trivial (by simp) ?_
        rintro _ ⟨⟩
        have member : r ∈ s.registered := sound.registered (.inr (.inr (List.mem_append_left _ (List.mem_singleton_self r))))
        refine ⟨?_, fun asked => .inl ((sound.asked _ asked).resolve_left clear)⟩
        cases late : r.late with
        | false => rfl
        | true => exact absurd (sound.late r member late) clear
  | pushing r =>
    refine sound.goOn [] ?_ nofun nofun (fun _ _ => nofun) fun other here => ?_
    · rw [List.flatMap_nil, Multiset.coe_nil, add_zero, ← Multiset.coe_add]
      rfl
    · rcases List.mem_append.mp (here.resolve_right List.not_mem_nil) with old | new
      · exact sound.waits other (.inl old)
      · rw [List.mem_singleton.mp new]
        exact sound.waits r (.inr (.head _))
  | firing r => exact sound.fire [] rfl fits (by simp) (by simp)

/-- `on_cancel` is called; the parents grow by the child that it is called for. -/
theorem register (sound : s.Sound) (t : Nat) {child : Option Nat} {parents : List (Option Nat)}
    (grows : ∀ u c, s.Parent u c → parents[c]? = some (some u)) (made : ∀ c ∈ child, parents[c]? = some (some t))
    (known : ∀ u c, parents[c]? = some (some u) → s.Parent u c ∨ u = t ∧ child = some c) :
    (Tokens.register { s with parents } t child).Sound := by
  refine { sound with
    distinct := List.nodup_cons.mpr ⟨fun again => absurd (sound.ids _ again) (lt_irrefl _), sound.distinct⟩
    ids := List.forall_mem_cons.mpr ⟨Nat.lt_succ_self _, fun r old => Nat.lt_succ_of_lt (sound.ids r old)⟩
    kept := ?_, asked := fun u asked => (sound.asked u asked).imp_right (.tail _)
    fits := List.forall_mem_cons.mpr ⟨trivial, sound.fits⟩, waits := fun r here => ?_
    late := List.forall_mem_cons.mpr ⟨of_decide_eq_true, sound.late⟩
    made := List.forall_mem_cons.mpr ⟨made, fun r old c has => grows _ c (sound.made r old c has)⟩
    known := fun u c parent => ?_, only := fun u flag => ?_ }
  · simp only [Tokens.register, List.flatMap_cons, TokenCall.regs, List.singleton_append, ← Multiset.cons_coe, ← sound.kept,
      ← Multiset.singleton_add]
    abel
  · obtain ⟨early, drained⟩ := sound.waits r (here.imp_right (pushing_of_cons (.checking _) nofun))
    exact ⟨early, fun asked => (drained asked).imp (.tail _) (.tail _)⟩
  · rcases known u c parent with old | ⟨rfl, same⟩
    · obtain ⟨r, member, has⟩ := sound.known u c old
      exact ⟨r, .tail _ member, has⟩
    · exact ⟨_, .head _, rfl, same⟩
  · obtain ⟨a, asked, reach⟩ := sound.only u flag
    exact ⟨a, asked, Relation.ReflTransGen.mono grows _ _ reach⟩

theorem step (sound : s.Sound) (act : TokenAct) : (s.step act).Sound := by
  have grows (parent : Option Nat) (u c : Nat) (old : s.Parent u c) : (s.parents ++ [parent])[c]? = some (some u) := by
    rw [List.getElem?_append_left (List.getElem?_eq_some_iff.mp old).1]
    exact old
  have known (parent : Option Nat) (u c : Nat) (here : (s.parents ++ [parent])[c]? = some (some u)) :
      s.Parent u c ∨ parent = some u ∧ s.parents.length = c := by
    rcases Nat.lt_trichotomy c s.parents.length with before | rfl | behind
    · exact .inl (by rwa [List.getElem?_append_left before] at here)
    · exact .inr ⟨by simpa using here, rfl⟩
    · simp [List.getElem?_append_right behind.le, Nat.sub_ne_zero_of_lt behind] at here
  cases act with
  | new =>
    refine { sound with
      waits := fun r here => ⟨(sound.waits r here).early, (sound.waits r here).drained⟩
      made := fun r member c has => grows none _ c (sound.made r member c has), known := ?_, only := ?_ }
    · exact fun u c here => sound.known u c ((known none u c here).resolve_right nofun)
    · intro u flag
      obtain ⟨a, asked, reach⟩ := sound.only u flag
      exact ⟨a, asked, Relation.ReflTransGen.mono (grows none) _ _ reach⟩
  | cancel t =>
    refine { sound with
      asked := List.forall_mem_cons.mpr ⟨.inr (.head _), fun u old => (sound.asked u old).imp_right (.tail _)⟩
      fits := List.forall_mem_cons.mpr ⟨.head _, fun c old => ?_⟩
      waits := fun r here => ?_, only := fun u flag => ?_ }
    · exact (sound.fits c old).mono (fun _ => .tail _) fun _ => id
    · obtain ⟨early, drained⟩ := sound.waits r (here.imp_right (pushing_of_cons (.storing t) nofun))
      refine ⟨early, fun asked => ?_⟩
      rcases List.mem_cons.mp asked with same | old
      · exact .inl (same ▸ .head _)
      · exact (drained old).imp (.tail _) (.tail _)
    · obtain ⟨a, asked, reach⟩ := sound.only u flag
      exact ⟨a, .tail _ asked, reach⟩
  | onCancel t => exact sound.register t (fun _ _ => id) nofun fun _ _ => .inl
  | childToken t =>
    refine sound.register t (grows (some t)) ?_ fun u c here => ?_
    · rintro c ⟨⟩
      simp
    · exact (known (some t) u c here).imp_right fun ⟨same, last⟩ => ⟨(Option.some.inj same).symm, congrArg some last⟩
  | turn i =>
    simp only [Tokens.step]
    split
    · next call found =>
      obtain ⟨inside, rfl⟩ := List.getElem?_eq_some_iff.mp found
      exact turn (sound.perm (List.getElem_cons_eraseIdx_perm inside).symm)
    · exact sound

end Sound

theorem sound_start : start.Sound :=
  ⟨List.nodup_nil, nofun, rfl, nofun, nofun, by simp [start], nofun, nofun, nofun, nofun, nofun⟩

/-- **Whenever no call is under way**, in every state of every run. -/
theorem settled_run (acts : List TokenAct) : Run.Always step (fun s => s.calls = [] → s.Settled) start acts :=
  fun s reached => (Run.always_of_step (I := Sound) (fun _ act sound => sound.step act) sound_start acts s reached).settled

/-- The flag of a child is set from its parent's parent, and its own callbacks wait on: its child is
not cancelled. -/
theorem grandchild_not_cancelled : ¬ ∀ acts : List TokenAct, Run.Always step (fun s => s.calls = [] →
    ∀ t ∈ s.asked, ∀ u, Relation.ReflTransGen s.Parent t u → u ∈ s.flags) start acts := by
  intro claim
  have reached := claim [.new, .childToken 0, .turn 0, .turn 0, .turn 0, .childToken 1, .turn 0, .turn 0, .turn 0,
    .cancel 0, .turn 0, .turn 0, .turn 0, .turn 0] _ (Run.foldl_mem_states _ _) (by decide) 0 (by decide) 2
    (.tail (.single (by rfl : Parent _ 0 1)) (by rfl : Parent _ 1 2))
  exact absurd reached (by decide)

end Tokens

end NovaRuntime.Executor
