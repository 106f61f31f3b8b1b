/-
# NovaRuntime.Auth.Lockout — whether failures lock a user out

The detector would lock an identifier after its failures, but no call of `authenticate`
records one (`Idle.call`), and no call is ever rate limited. A `Watch` runs
beside the manager and writes down the logins: who tried with what credentials, and how the
call was answered. Every login that should be locked out is judged on its credentials, so
the lockout holds in a run exactly where no login falls into one (`lockout_iff`).
-/
import Mathlib.Data.List.Induction
import NovaRuntime.Auth.Manager
import NovaRuntime.Library.Runs

namespace NovaRuntime.Auth

open NovaRuntime.Library

set_option autoImplicit false

/-! ## Logins -/

inductive Verdict where
  | accepted
  | refused
  | limited
  deriving DecidableEq

def verdictOf : Except AuthError AuthResult → Verdict
  | .ok _ => .accepted
  | .error (.rateLimited _) => .limited
  | .error _ => .refused

/-- A call of `authenticate` for a username: whether its credentials are right, and how it
was answered. -/
structure Login where
  username : Text
  instant : Nat
  passes : Bool
  verdict : Verdict
  deriving DecidableEq

/-- Instants of logins and whether they failed, the latest first. -/
abbrev History := List (Nat × Bool)

/-- What the answers say: a login that was rate limited neither failed nor succeeded. -/
def judged (username : Text) (logins : List Login) : History :=
  (logins.filter fun l => l.username == username && l.verdict != .limited).map
    fun l => (l.instant, l.verdict == .refused)

/-- What the credentials say. -/
def presented (username : Text) (logins : List Login) : History :=
  (logins.filter fun l => l.username == username).map fun l => (l.instant, !l.passes)

section

variable (config : AuthConfig)

/-- The latest logins are as many failures as lock a user out, all within one window. -/
def Streak (history : History) : Prop :=
  config.maxFailedAttempts ≤ history.length ∧
    (∀ a ∈ history.take config.maxFailedAttempts, a.2 = true) ∧
    ∀ a ∈ history.take config.maxFailedAttempts, ∀ b ∈ history.take config.maxFailedAttempts,
      a.1 - b.1 ≤ BruteForceDetector.window

def Struck (history : History) : Prop := ∃ run ∈ history.tails, Streak config run

/-- A streak ended less than a lockout ago. -/
def LockedOut (history : History) (now : Nat) : Prop :=
  ∃ run ∈ history.tails, Streak config run ∧
    ∃ last ∈ run.head?, now < last.1 + BruteForceDetector.seconds config.lockoutDurationSecs

/-- **The lockout:** a login that is locked out by the ones before it is rate limited, and
one is rate limited only after a streak. -/
def Lockout : List Login → Prop
  | [] => True
  | l :: earlier =>
    (LockedOut config (judged l.username earlier) l.instant → l.verdict = .limited) ∧
      (l.verdict = .limited → Struck config (judged l.username earlier)) ∧ Lockout earlier

end

/-! ## A watch beside the manager -/

structure Watch where
  manager : AuthManager
  logins : List Login

/-- The username and the credentials' worth of a login by a password. -/
def AuthManager.loginOf (X : Extern) (m : AuthManager) : AuthManager.Call → Option (Text × Bool)
  | .authenticate _ provider credentials =>
    if m.providers.lookup provider = some .password then
      (credentials.get "username").map fun username =>
        (username, (passwordAuthenticate X m.users credentials).toBool)
    else none
  | _ => none

def AuthManager.verdict (X : Extern) (config : AuthConfig) (m : AuthManager) (clock : Clock) :
    AuthManager.Call → Verdict
  | .authenticate draw provider credentials =>
    verdictOf (m.authenticate X config clock draw provider credentials).2
  | _ => .refused

namespace Watch

variable (X : Extern) (config : AuthConfig)

def step (w : Watch) (event : Clock × AuthManager.Call) : Watch where
  manager := w.manager.call X config event.1 event.2
  logins := ((w.manager.loginOf X event.2).map fun login =>
    ⟨login.1, event.1.instant, login.2, w.manager.verdict X config event.1 event.2⟩).toList ++ w.logins

def start (providers : List (Text × Provider)) : Watch := ⟨.new providers, []⟩

/-- No login falls into a lockout. -/
def Free (w : Watch) (event : Clock × AuthManager.Call) : Prop :=
  ∀ login ∈ w.manager.loginOf X event.2, ¬ LockedOut config (presented login.1 w.logins) event.1.instant

/-- The detector is idle, and every login was answered by its credentials. -/
structure Plain (w : Watch) : Prop where
  idle : w.manager.Idle
  verdicts : ∀ l ∈ w.logins, l.verdict = if l.passes then .accepted else .refused

variable {X config} {w : Watch} {event : Clock × AuthManager.Call}

theorem plain_start (providers : List (Text × Provider)) : (start providers).Plain := by
  refine ⟨rfl, ?_⟩
  intro l absent
  exact nomatch absent

theorem passwordAuthenticate_error {users : List UserRecord} {credentials : Credentials} {e : AuthError}
    (failed : passwordAuthenticate X users credentials = .error e) : ∃ message, e = .invalidCredentials message := by
  unfold passwordAuthenticate at failed
  split at failed
  · exact ⟨_, (Except.error.inj failed).symm⟩
  split at failed
  · exact ⟨_, (Except.error.inj failed).symm⟩
  split at failed
  · exact ⟨_, (Except.error.inj failed).symm⟩
  split at failed
  · cases failed
  · exact ⟨_, (Except.error.inj failed).symm⟩

/-- **A login is answered by its credentials.** -/
theorem verdict_plain (plain : w.Plain) {clock : Clock} {call : AuthManager.Call} {login : Text × Bool}
    (here : w.manager.loginOf X call = some login) :
    w.manager.verdict X config clock call = if login.2 then .accepted else .refused := by
  cases call with
  | authenticate draw provider credentials =>
    rw [AuthManager.loginOf] at here
    split at here
    next registered =>
      obtain ⟨username, -, rfl⟩ := Option.map_eq_some_iff.mp here
      rw [AuthManager.verdict]
      cases done : passwordAuthenticate X w.manager.users credentials with
      | ok result =>
        rw [AuthManager.authenticate_ok plain.idle registered done]
        rfl
      | error e =>
        rw [AuthManager.authenticate_error plain.idle registered done]
        obtain ⟨message, rfl⟩ := passwordAuthenticate_error done
        rfl
    next => cases here
  | _ => cases here

theorem judged_plain (verdicts : ∀ l ∈ w.logins, l.verdict = if l.passes then .accepted else .refused)
    (username : Text) : judged username w.logins = presented username w.logins := by
  have each : ∀ l ∈ w.logins, (l.verdict != .limited) = true ∧ (l.verdict == .refused) = !l.passes := by
    intro l member
    rw [verdicts l member]
    cases l.passes <;> decide
  have same : (w.logins.filter fun l => l.username == username && l.verdict != .limited) =
      w.logins.filter fun l => l.username == username := by
    refine List.filter_congr fun l member => ?_
    rw [(each l member).1, Bool.and_true]
  rw [judged, presented, same]
  refine List.map_congr_left fun l member => ?_
  rw [(each l (List.mem_of_mem_filter member)).2]

theorem plain_step (plain : w.Plain) : (w.step X config event).Plain := by
  refine ⟨plain.idle.call event.2, ?_⟩
  rw [step]
  cases here : w.manager.loginOf X event.2 with
  | none => exact plain.verdicts
  | some login => exact List.forall_mem_cons.mpr ⟨verdict_plain plain here, plain.verdicts⟩

/-- A call keeps the lockout exactly when it is no login that falls into one. -/
theorem lockout_step (plain : w.Plain) (held : Lockout config w.logins) :
    Lockout config (w.step X config event).logins ↔ w.Free X config event := by
  rw [step, Free]
  cases here : w.manager.loginOf X event.2 with
  | none => exact iff_of_true held (by rintro _ ⟨⟩)
  | some login =>
    have answered : w.manager.verdict X config event.1 event.2 = if login.2 then .accepted else .refused :=
      verdict_plain plain here
    have free : w.manager.verdict X config event.1 event.2 ≠ .limited := by
      rw [answered]
      cases login.2 <;> decide
    change Lockout config (⟨login.1, event.1.instant, login.2, w.manager.verdict X config event.1 event.2⟩ :: w.logins) ↔ _
    rw [Lockout, judged_plain plain.verdicts]
    constructor
    · rintro ⟨locks, -, -⟩ _ ⟨⟩ locked
      exact free (locks locked)
    · intro unlocked
      exact ⟨fun locked => absurd locked (unlocked login rfl), fun limited => absurd limited free, held⟩

/-- **The lockout holds exactly in the runs in which no login falls into one:** in every
state of a run every login is answered as the lockout wants it, if and only if no call is a
login by a password of a user whose failures lock them out. -/
theorem lockout_iff (providers : List (Text × Provider)) (events : List (Clock × AuthManager.Call)) :
    (∀ w ∈ Run.states (step X config) (start providers) events, Lockout config w.logins) ↔
      Run.Each (step X config) (Free X config) (start providers) events :=
  Run.forall_states_iff (fun _ _ plain => plain_step plain) (fun _ _ plain held => lockout_step plain held)
    (plain_start providers) trivial

/-! ### A run -/

instance (config : AuthConfig) (history : History) : Decidable (Streak config history) :=
  inferInstanceAs (Decidable (_ ∧ _ ∧ _))

instance (config : AuthConfig) (history : History) (now : Nat) : Decidable (LockedOut config history now) :=
  have (run : History) : Decidable (∃ last ∈ run.head?,
      now < last.1 + BruteForceDetector.seconds config.lockoutDurationSecs) := Option.decidableExistsMem run.head?
  inferInstanceAs (Decidable (∃ run ∈ history.tails, Streak config run ∧ _))

instance (config : AuthConfig) (history : History) : Decidable (Struck config history) :=
  inferInstanceAs (Decidable (∃ run ∈ history.tails, Streak config run))

instance Lockout.decidable (config : AuthConfig) : (logins : List Login) → Decidable (Lockout config logins)
  | [] => .isTrue trivial
  | _ :: earlier =>
    have := Lockout.decidable config earlier
    inferInstanceAs (Decidable ((_ → _) ∧ (_ → _) ∧ _))

def secondsAt (n : Nat) : Clock := ⟨n * 1000000000, n * 1000⟩

def login (password : String) : AuthManager.Call :=
  .authenticate ⟨1, 2, [97]⟩ "local".toList [("username", ['a']), ("password", password.toList)]

/-- Five wrong passwords, and then the right one. -/
def guessingRun : List (Clock × AuthManager.Call) :=
  (secondsAt 0, .createUser 7 [] ['a'] "good".toList []) ::
    (List.range 5).map (fun i => (secondsAt (i + 1), login "bad")) ++ [(secondsAt 6, login "good")]

/-- The right password is accepted after the five wrong ones. -/
theorem guess_accepted : ¬ ∀ w ∈ Run.states (step sampleExtern {}) (start [("local".toList, .password)]) guessingRun,
    Lockout {} w.logins := by
  intro all
  exact absurd (all _ (Run.foldl_mem_states _ _)) (by decide +kernel)

end Watch

end NovaRuntime.Auth
