/-
# NovaRuntime.Auth.Rbac — roles, and what they permit

`rbac.rs`. A permission is the text `action:resource`, and `permission_matches` takes texts apart at their first
colon. The set of a user's permissions is a list: only whether one of them matches is asked.

`Allowed` is said from the history of the calls. `decisions_exact_iff` says when a decision is the allowed one: an action
without a colon is decided right; for any other the rest of the action is taken for part of the resource.
-/
import Mathlib.Data.List.Induction
import Mathlib.Logic.Function.Basic
import NovaRuntime.Auth.Types

namespace NovaRuntime.Auth

open NovaRuntime.Library

set_option autoImplicit false

structure Role where
  name : Text
  description : Text
  permissions : List Text
  createdAt : Int

structure PermissionRequest where
  userId : Uuid
  action : Text
  resource : Text

structure RbacEngine where
  roles : Text → Option Role
  userRoles : Uuid → Option (List Text)

def splitOnce (separator : Char) : Text → Option (Text × Text)
  | [] => none
  | c :: t => if c = separator then some ([], t) else (splitOnce separator t).map fun p => (c :: p.1, p.2)

/-- `{action}:{resource}`. -/
def joined (action resource : Text) : Text := action ++ ':' :: resource

namespace RbacEngine

/-! ## The code -/

def new : RbacEngine := ⟨fun _ => none, fun _ => none⟩

def defineRole (role : Role) (e : RbacEngine) : RbacEngine :=
  { e with roles := Function.update e.roles role.name (some role) }

def removeRole (name : Text) (e : RbacEngine) : RbacEngine :=
  { roles := Function.update e.roles name none
    userRoles := fun user => (e.userRoles user).map fun names => names.filter (· ≠ name) }

def assignRole (user : Uuid) (name : Text) (e : RbacEngine) : Except Text RbacEngine :=
  if (e.roles name).isNone then .error ("Role '".toList ++ name ++ "' not defined".toList)
  else .ok { e with userRoles := Function.update e.userRoles user (some ((e.userRoles user).getD [] ++ [name])) }

def unassignRole (user : Uuid) (name : Text) (e : RbacEngine) : RbacEngine :=
  match e.userRoles user with
  | some names => { e with userRoles := Function.update e.userRoles user (some (names.filter (· ≠ name))) }
  | none => e

def permissionMatches (pattern target : Text) : Bool :=
  pattern = "*:*".toList || pattern = target ||
    match splitOnce ':' pattern, splitOnce ':' target with
    | some (pAction, pResource), some (tAction, tResource) =>
      (pAction = ['*'] && pResource = tResource) || (pResource = ['*'] && pAction = tAction)
    | _, _ => false

def userPermissions (e : RbacEngine) (user : Uuid) : List Text :=
  ((e.userRoles user).getD []).flatMap fun name => (e.roles name).elim [] Role.permissions

def hasPermission (e : RbacEngine) (user : Uuid) (permission : Text) : Bool :=
  (e.userPermissions user).any fun p => permissionMatches p permission

def hasAnyPermission (e : RbacEngine) (user : Uuid) (permissions : List Text) : Bool :=
  permissions.any fun p => (e.userPermissions user).any fun up => permissionMatches up p

def hasAllPermissions (e : RbacEngine) (user : Uuid) (permissions : List Text) : Bool :=
  permissions.all fun p => (e.userPermissions user).any fun up => permissionMatches up p

def evaluate (e : RbacEngine) (request : PermissionRequest) : Bool :=
  (e.userPermissions request.userId).any fun p => permissionMatches p (joined request.action request.resource)

end RbacEngine

/-! ## Histories -/

inductive RbacCall where
  | defineRole (role : Role)
  | removeRole (name : Text)
  | assignRole (user : Uuid) (name : Text)
  | unassignRole (user : Uuid) (name : Text)

/-- A refused assignment changes nothing. -/
def RbacCall.run (e : RbacEngine) : RbacCall → RbacEngine
  | defineRole role => e.defineRole role
  | removeRole name => e.removeRole name
  | assignRole user name => (e.assignRole user name).toOption.getD e
  | unassignRole user name => e.unassignRole user name

/-- The engine after some calls, oldest first. -/
def engineAfter (history : List RbacCall) : RbacEngine := history.foldl RbacCall.run .new

/-- Something was done, and has not been undone since. -/
def Since {α : Type} (does : List α → α → Prop) (undoes : α → Prop) (history : List α) : Prop :=
  ∃ earlier call later, history = earlier ++ call :: later ∧ does earlier call ∧ ∀ c ∈ later, ¬ undoes c

/-- The role that a name has now. -/
def Defined (name : Text) (role : Role) : List RbacCall → Prop :=
  Since (fun _ call => call = .defineRole role ∧ role.name = name) fun call =>
    call = .removeRole name ∨ ∃ other, call = .defineRole other ∧ other.name = name

/-- Assigned while it was defined, and neither removed nor unassigned since. -/
def Assigned (user : Uuid) (name : Text) : List RbacCall → Prop :=
  Since (fun earlier call => call = .assignRole user name ∧ ∃ role, Defined name role earlier) fun call =>
    call = .removeRole name ∨ call = .unassignRole user name

/-- A permission that the user has by some role. -/
def Holds (history : List RbacCall) (user : Uuid) (permission : Text) : Prop :=
  ∃ name role, Defined name role history ∧ Assigned user name history ∧ permission ∈ role.permissions

/-- A pattern `A:R` that fits an action and a resource. -/
def Fits (action resource pattern : Text) : Prop :=
  ∃ a r, pattern = joined a r ∧ (a = ['*'] ∨ a = action) ∧ (r = ['*'] ∨ r = resource)

def Allowed (history : List RbacCall) (request : PermissionRequest) : Prop :=
  ∃ pattern, Holds history request.userId pattern ∧ Fits request.action request.resource pattern

/-- **The decision is the allowed one**, by every method. -/
structure Exact (history : List RbacCall) (request : PermissionRequest) : Prop where
  evaluate : (engineAfter history).evaluate request = true ↔ Allowed history request
  permission : (engineAfter history).hasPermission request.userId (joined request.action request.resource) =
    (engineAfter history).evaluate request
  anyOf : ∀ wanted : List (Text × Text),
    (engineAfter history).hasAnyPermission request.userId (wanted.map fun w => joined w.1 w.2) =
      wanted.any fun w => (engineAfter history).evaluate ⟨request.userId, w.1, w.2⟩
  allOf : ∀ wanted : List (Text × Text),
    (engineAfter history).hasAllPermissions request.userId (wanted.map fun w => joined w.1 w.2) =
      wanted.all fun w => (engineAfter history).evaluate ⟨request.userId, w.1, w.2⟩

/-- The action is read as it is meant. Otherwise the user has `*:*` or the permission itself, or else a pattern for
what is read exactly if one for what is meant. -/
def ReadAsMeant (history : List RbacCall) (request : PermissionRequest) : Prop :=
  let holds := Holds history request.userId
  let meant := joined request.action request.resource
  ':' ∉ request.action ∨ holds "*:*".toList ∨ holds meant ∨
    ∀ action resource, splitOnce ':' meant = some (action, resource) →
      (holds (joined ['*'] resource) ∨ holds (joined action ['*']) ↔
        holds (joined ['*'] request.resource) ∨ holds (joined request.action ['*']))

section Histories

variable {α : Type} {does : List α → α → Prop} {undoes : α → Prop}

theorem not_since_nil : ¬ Since does undoes [] := by
  rintro ⟨earlier, call, later, split, -⟩
  cases earlier <;> cases split

/-- One more call does it, or leaves it done. -/
theorem since_concat (history : List α) (call : α) :
    Since does undoes (history ++ [call]) ↔ does history call ∨ ¬ undoes call ∧ Since does undoes history := by
  constructor
  · rintro ⟨earlier, c, later, split, done, kept⟩
    rcases List.eq_nil_or_concat later with rfl | ⟨before, last, rfl⟩
    · obtain ⟨rfl, same⟩ := List.append_inj' split rfl
      cases same
      exact .inl done
    · rw [List.concat_eq_append, ← List.cons_append, ← List.append_assoc] at split
      obtain ⟨rfl, same⟩ := List.append_inj' split rfl
      cases same
      rw [List.concat_eq_append, List.forall_mem_append] at kept
      exact .inr ⟨kept.2 _ (.head _), earlier, c, before, rfl, done, kept.1⟩
  · rintro (done | ⟨kept, earlier, c, later, rfl, done, before⟩)
    · exact ⟨history, call, [], rfl, done, nofun⟩
    · refine ⟨earlier, c, later ++ [call], by simp, done, List.forall_mem_append.mpr ⟨before, ?_⟩⟩
      exact List.forall_mem_singleton.mpr kept

end Histories

theorem engineAfter_concat (history : List RbacCall) (call : RbacCall) :
    engineAfter (history ++ [call]) = call.run (engineAfter history) := by
  rw [engineAfter, List.foldl_append]
  rfl

theorem roles_iff (history : List RbacCall) (name : Text) (role : Role) :
    (engineAfter history).roles name = some role ↔ Defined name role history := by
  induction history using List.reverseRecOn with
  | nil => exact iff_of_false nofun not_since_nil
  | append_singleton history call ih =>
    rw [engineAfter_concat, Defined, since_concat, ← Defined, ← ih]
    cases call with
    | defineRole other =>
      simp only [RbacCall.run, RbacEngine.defineRole, Function.update_apply]
      grind
    | removeRole other =>
      simp only [RbacCall.run, RbacEngine.removeRole, Function.update_apply]
      grind
    | assignRole user other =>
      simp only [RbacCall.run, RbacEngine.assignRole]
      split <;> simp [Except.toOption]
    | unassignRole user other =>
      simp only [RbacCall.run, RbacEngine.unassignRole]
      split <;> simp

theorem userRoles_iff (history : List RbacCall) (user : Uuid) (name : Text) :
    name ∈ ((engineAfter history).userRoles user).getD [] ↔ Assigned user name history := by
  induction history using List.reverseRecOn with
  | nil => exact iff_of_false nofun not_since_nil
  | append_singleton history call ih =>
    rw [engineAfter_concat, Assigned, since_concat, ← Assigned, ← ih]
    cases call with
    | defineRole other => simp [RbacCall.run, RbacEngine.defineRole]
    | removeRole other =>
      simp only [RbacCall.run, RbacEngine.removeRole]
      cases (engineAfter history).userRoles user with
      | none => simp
      | some names =>
        simp
        grind
    | assignRole user' other =>
      simp only [← roles_iff, RbacCall.run, RbacEngine.assignRole]
      cases defined : (engineAfter history).roles other <;> simp [Except.toOption, Function.update_apply] <;> grind
    | unassignRole user' other =>
      simp only [RbacCall.run, RbacEngine.unassignRole]
      split <;> simp [Function.update_apply] <;> grind

/-! ## Patterns -/

theorem splitOnce_eq_some {text a r : Text} : splitOnce ':' text = some (a, r) ↔ text = joined a r ∧ ':' ∉ a := by
  induction text generalizing a with
  | nil => simp [splitOnce, joined]
  | cons c text ih =>
    rw [splitOnce]
    cases a with
    | nil => by_cases here : c = ':' <;> simp [here, joined, eq_comm]
    | cons d a =>
      have tail := @ih a
      simp only [joined] at tail
      by_cases here : c = ':' <;> simp [here, joined, tail] <;> grind

theorem splitOnce_joined (action resource : Text) :
    ∃ first rest, splitOnce ':' (joined action resource) = some (first, rest) := by
  induction action with
  | nil => exact ⟨_, _, rfl⟩
  | cons c action ih =>
    obtain ⟨first, rest, read⟩ := ih
    rw [joined, List.cons_append, splitOnce, ← joined, read]
    split <;> exact ⟨_, _, rfl⟩

/-- The patterns that are taken for an action and a resource. -/
theorem permissionMatches_iff (pattern action resource : Text) {first rest : Text}
    (read : splitOnce ':' (joined action resource) = some (first, rest)) :
    RbacEngine.permissionMatches pattern (joined action resource) = true ↔ pattern = "*:*".toList ∨
      pattern = joined action resource ∨ pattern = joined ['*'] rest ∨ pattern = joined first ['*'] := by
  have plain := (splitOnce_eq_some.mp read).2
  have patterns (a r : Text) (free : ':' ∉ a) : pattern = joined a r ↔ splitOnce ':' pattern = some (a, r) := by
    rw [splitOnce_eq_some, and_iff_left free]
  rw [patterns ['*'] rest (by decide), patterns first ['*'] plain, RbacEngine.permissionMatches, read]
  cases splitOnce ':' pattern with
  | none => simp
  | some p => simp [Prod.ext_iff, or_assoc, and_comm]

theorem fits_iff (action resource pattern : Text) : Fits action resource pattern ↔ pattern = "*:*".toList ∨
    pattern = joined action resource ∨ pattern = joined ['*'] resource ∨ pattern = joined action ['*'] := by
  have both : "*:*".toList = joined ['*'] ['*'] := rfl
  rw [both]
  constructor
  · rintro ⟨a, r, rfl, rfl | rfl, rfl | rfl⟩ <;> simp
  · rintro (rfl | rfl | rfl | rfl) <;> exact ⟨_, _, rfl, by simp⟩

theorem mem_userPermissions (history : List RbacCall) (user : Uuid) (permission : Text) :
    permission ∈ (engineAfter history).userPermissions user ↔ Holds history user permission := by
  simp only [RbacEngine.userPermissions, List.mem_flatMap, userRoles_iff, Holds, ← roles_iff]
  constructor
  · rintro ⟨name, assigned, member⟩
    cases defined : (engineAfter history).roles name with
    | none => simp [defined] at member
    | some role => exact ⟨name, role, defined, assigned, by simpa [defined] using member⟩
  · rintro ⟨name, role, defined, assigned, member⟩
    exact ⟨name, assigned, by simpa [defined] using member⟩

/-- **When a decision is the allowed one**, after any history. -/
theorem decisions_exact_iff (history : List RbacCall) (request : PermissionRequest) :
    Exact history request ↔ ReadAsMeant history request := by
  obtain ⟨user, action, resource⟩ := request
  obtain ⟨first, rest, read⟩ := splitOnce_joined action resource
  have decides : (engineAfter history).evaluate ⟨user, action, resource⟩ = true ↔ Holds history user "*:*".toList ∨
      Holds history user (joined action resource) ∨ Holds history user (joined ['*'] rest) ∨
        Holds history user (joined first ['*']) := by
    simp only [RbacEngine.evaluate, List.any_eq_true, mem_userPermissions, permissionMatches_iff _ _ _ read,
      and_or_left, exists_or, exists_eq_right]
  have allowed : Allowed history ⟨user, action, resource⟩ ↔ Holds history user "*:*".toList ∨
      Holds history user (joined action resource) ∨ Holds history user (joined ['*'] resource) ∨
        Holds history user (joined action ['*']) := by
    simp only [Allowed, fits_iff, and_or_left, exists_or, exists_eq_right]
  have plain (free : ':' ∉ action) : first = action ∧ rest = resource := by
    rw [splitOnce_eq_some.mpr ⟨rfl, free⟩] at read
    cases read
    exact ⟨rfl, rfl⟩
  have exactly : Exact history ⟨user, action, resource⟩ ↔
      ((engineAfter history).evaluate ⟨user, action, resource⟩ = true ↔ Allowed history ⟨user, action, resource⟩) := by
    refine ⟨Exact.evaluate, fun evaluate => ⟨evaluate, rfl, fun wanted => ?_, fun wanted => ?_⟩⟩
    · exact List.any_map ..
    · exact List.all_map ..
  rw [exactly, decides, allowed, ReadAsMeant]
  constructor
  · intro same
    by_cases all : Holds history user "*:*".toList
    · exact .inr (.inl all)
    by_cases itself : Holds history user (joined action resource)
    · exact .inr (.inr (.inl itself))
    refine .inr (.inr (.inr fun a r again => ?_))
    rw [read] at again
    cases again
    simpa only [all, itself, false_or] using same
  · rintro (free | all | itself | wild)
    · obtain ⟨rfl, rfl⟩ := plain free
      exact Iff.rfl
    · exact iff_of_true (.inl all) (.inl all)
    · exact iff_of_true (.inr (.inl itself)) (.inr (.inl itself))
    · rw [wild _ _ read]

/-- Who may delete anything may not do `delete:all` with it. -/
theorem delete_grants_more : ¬ Exact
    [.defineRole ⟨['r'], [], ["delete:*".toList], 0⟩, .assignRole 0 ['r']] ⟨0, "delete:all".toList, ['x']⟩ := by
  intro exact'
  obtain ⟨pattern, holds, fits⟩ := exact'.evaluate.mp (by decide)
  have wildcard : pattern ∈ ["delete:*".toList] := (mem_userPermissions _ _ _).mpr holds
  rw [List.mem_singleton.mp wildcard, fits_iff] at fits
  exact absurd fits (by decide)

end NovaRuntime.Auth
