/-
# NovaRuntime.Auth.Sessions — which tokens are accepted

A `Ledger` runs beside the manager and keeps the grants: the tokens that were issued and not
taken back, each with its expiry and with whether a code of the second factor is still
missing. The manager takes no session back when a user is deleted or a password is changed,
issues sessions to users that owe a code, and never looks at `max_active_sessions`. Where
none of this comes to bear (`Clean`) the accepted tokens are the grants, and in no other run
(`lifecycle_iff`).
-/
import Mathlib.Data.List.Nodup
import NovaRuntime.Auth.Middleware
import NovaRuntime.Library.Runs

namespace NovaRuntime.Auth

open NovaRuntime.Library NovaRuntime.Executor

set_option autoImplicit false

/-! ## The store of sessions -/

namespace Sessions

variable {sessions : Sessions} {token : Text}

/-- Each session has a token of its own. -/
def Distinct (sessions : Sessions) : Prop := (sessions.map fun s => s.token).Nodup

section

variable (distinct : sessions.Distinct)

include distinct

theorem Distinct.eq {s t : Session} (hs : s ∈ sessions) (ht : t ∈ sessions) (same : s.token = t.token) : s = t :=
  List.inj_on_of_nodup_map distinct hs ht same

theorem Distinct.filter (p : Session → Bool) : Distinct (sessions.filter p) :=
  List.Nodup.sublist (List.Sublist.map _ (List.filter_sublist (p := p))) distinct

theorem find_eq_some_iff {s : Session} : sessions.find token = some s ↔ s ∈ sessions ∧ s.token = token := by
  constructor
  · intro found
    exact ⟨List.mem_of_find?_eq_some found, by simpa using List.find?_some found⟩
  · rintro ⟨member, rfl⟩
    cases found : sessions.find s.token with
    | none => exact absurd (List.find?_eq_none.mp found s member) (by simp)
    | some t =>
      have same : t.token = s.token := by simpa using List.find?_some found
      rw [distinct.eq (List.mem_of_find?_eq_some found) member same]

theorem getSession_ok_iff {now : Int} {s : Session} :
    sessions.getSession now token = .ok s ↔ s ∈ sessions ∧ s.token = token ∧ s.isValid now := by
  rw [← and_assoc, ← find_eq_some_iff distinct, getSession, Session.isValid]
  cases sessions.find token with
  | none => simp
  | some t =>
    cases expired : t.isExpired now <;> cases revoked : t.revoked <;> simp [expired, revoked] <;>
      intro same <;> cases same <;> simp [expired, revoked]

end

theorem mem_insert {new s : Session} :
    s ∈ sessions.insert new ↔ (s ∈ sessions ∧ s.token ≠ new.token) ∨ s = new := by
  simp [Sessions.insert]

theorem Distinct.insert (distinct : sessions.Distinct) (new : Session) : Distinct (sessions.insert new) := by
  rw [Distinct, Sessions.insert, List.map_append, List.nodup_append]
  refine ⟨distinct.filter _, List.nodup_singleton _, ?_⟩
  simp only [List.mem_map, List.mem_filter, bne_iff_ne]
  rintro _ ⟨s, ⟨-, other⟩, rfl⟩ _ ⟨t, here, rfl⟩
  rw [List.mem_singleton.mp here]
  exact other

theorem mem_update {f : Session → Session} {s : Session} :
    s ∈ sessions.update token f ↔ ∃ old ∈ sessions, (if old.token = token then f old else old) = s := by
  simp [update]

theorem Distinct.update (distinct : sessions.Distinct) {f : Session → Session} (keeps : ∀ s, (f s).token = s.token) :
    Distinct (sessions.update token f) := by
  have same : (sessions.update token f).map (fun s => s.token) = sessions.map fun s => s.token := by
    rw [Sessions.update, List.map_map]
    refine List.map_congr_left fun s _ => ?_
    rw [Function.comp_apply]
    split
    · exact keeps s
    · rfl
  rw [Distinct, same]
  exact distinct

end Sessions

theorem Session.isValid_iff {s : Session} {now : Int} : s.isValid now ↔ s.revoked = false ∧ now < s.expiresAt := by
  simp [isValid, isExpired]

/-- A session that is valid later is valid now. -/
theorem Session.isValid_of_later {s : Session} {now later : Int} (order : now ≤ later) (valid : s.isValid later) :
    s.isValid now := by
  rw [isValid_iff] at valid ⊢
  exact ⟨valid.1, Int.lt_of_le_of_lt order valid.2⟩

/-! ## Grants -/

structure Grant where
  token : Text
  userId : Uuid
  expiresAt : Int
  /-- Issued to a user with the second factor, and no code verified since. -/
  needsCode : Bool
  deriving DecidableEq

/-- The session that a grant is for. -/
structure Grant.For (g : Grant) (s : Session) : Prop where
  token : s.token = g.token
  userId : s.userId = g.userId
  expiresAt : s.expiresAt = g.expiresAt

structure Ledger where
  manager : AuthManager
  clock : Clock
  grants : List Grant

/-- The clocks, `wait` milliseconds later. -/
def Clock.after (clock : Clock) (wait : Nat) : Clock := ⟨clock.instant + 1000000 * wait, clock.millis + wait⟩

namespace Ledger

variable (X : Extern) (config : AuthConfig)

/-- **The tokens to accept.** -/
def Accepts (l : Ledger) (now : Int) (token : Text) : Prop :=
  ∃ g ∈ l.grants, g.token = token ∧ now < g.expiresAt ∧ g.needsCode = false

def issue (l : Ledger) (result : AuthResult) : List Grant :=
  l.grants.filter (fun g => g.token != result.session.token) ++
    [⟨result.session.token, result.userId, result.session.expiresAt, l.manager.mfa.hasMfa result.userId⟩]

def withdraw (l : Ledger) (userId : Uuid) : List Grant := l.grants.filter fun g => g.userId != userId

/-- What a call grants and takes back. -/
def register (l : Ledger) : AuthManager.Call → List Grant
  | .authenticate draw name credentials =>
    match (l.manager.authenticate X config l.clock draw name credentials).2 with
    | .ok result => l.issue result
    | .error _ => l.grants
  | .revokeSession token => l.grants.filter fun g => g.token != token
  | .revokeUserSessions userId => l.withdraw userId
  | .deleteUser id => if (l.manager.deleteUser id).2 then l.withdraw id else l.grants
  | .changePassword id salt password =>
    if (l.manager.changePassword X config l.clock id salt password).2.toBool then l.withdraw id else l.grants
  | .verifyMfa userId code =>
    if l.manager.verifyMfa X config l.clock userId code then
      l.grants.map fun g => if g.userId = userId then { g with needsCode := false } else g
    else l.grants
  | _ => l.grants

def tick (l : Ledger) (wait : Nat) : Ledger := { l with clock := l.clock.after wait }

def act (l : Ledger) (call : AuthManager.Call) : Ledger where
  manager := l.manager.call X config l.clock call
  clock := l.clock
  grants := l.register X config call

/-- A call, `wait` milliseconds after the last one. -/
def step (l : Ledger) (event : Nat × AuthManager.Call) : Ledger := (l.tick event.1).act X config event.2

def start (clock : Clock) (providers : List (Text × Provider)) : Ledger := ⟨.new providers, clock, []⟩

/-- **The lifecycle of sessions**: from now on, as long as nothing is called, exactly the
granted tokens are accepted, by the manager and in front of the pipeline, and none of a user
beyond the limit. -/
structure Good (l : Ledger) : Prop where
  validated : ∀ clock : Clock, l.clock.millis ≤ clock.millis → ∀ token,
    (∃ session, (l.manager.validateSession clock token).2 = .ok session) ↔ l.Accepts clock.millis token
  admitted : ∀ now, l.clock.millis ≤ now → ∀ ctx req, guarded req.target →
    ((∃ ctx', pass config l.manager.sessions now ctx req = .ok ctx') ↔
      ∃ token, extractToken req = some token ∧ l.Accepts now token)
  limited : ∀ clock : Clock, l.clock.millis ≤ clock.millis → ∀ userId, ∀ tokens : List Text, tokens.Nodup →
    (∀ token ∈ tokens, ∃ session, (l.manager.validateSession clock token).2 = .ok session ∧ session.userId = userId) →
    tokens.length ≤ config.maxActiveSessions

/-- No session of the user would be accepted. -/
def SignedOut (l : Ledger) (userId : Uuid) : Prop :=
  ∀ s ∈ l.manager.sessions, s.userId = userId → s.isValid l.clock.millis = false

/-- What a call is made on: users that are deleted or get a new password are signed out, and
who signs in owes no code and has fewer sessions than the limit. -/
def CleanCall (l : Ledger) : AuthManager.Call → Prop
  | .authenticate draw name credentials =>
    ∀ provider result, l.manager.providers.lookup name = some provider →
      provider.authenticate X l.manager.users (l.clock.millis / 1000) credentials = .ok result →
      0 < config.sessionTtlSecs →
        l.manager.mfa.hasMfa (result.userId.getD draw.userId) = false ∧
        Sessions.activeSessionCount
          (l.manager.sessions.filter fun s => s.token != generateSessionToken X draw.bytes)
          l.clock.millis (result.userId.getD draw.userId) < config.maxActiveSessions
  | .deleteUser id => (l.manager.userById id).isSome → l.SignedOut id
  | .changePassword id salt password =>
    X.bcryptVerify password (hashPassword X salt config.bcryptCost password) →
      (l.manager.userById id).isSome → l.SignedOut id
  | _ => True

def Clean (l : Ledger) (event : Nat × AuthManager.Call) : Prop := (l.tick event.1).CleanCall X config event.2

/-! ## Grants and sessions -/

/-- Each grant has its session while it lasts. -/
structure Mirrors (l : Ledger) : Prop where
  idle : l.manager.Idle
  distinct : l.manager.sessions.Distinct
  held : ∀ g ∈ l.grants, l.clock.millis < g.expiresAt → ∃ s ∈ l.manager.sessions, g.For s ∧ s.revoked = false

/-- Each valid session has its grant, with no code missing. -/
def Granted (l : Ledger) : Prop :=
  ∀ s ∈ l.manager.sessions, s.isValid l.clock.millis → ∃ g ∈ l.grants, g.For s ∧ g.needsCode = false

def Limited (l : Ledger) : Prop :=
  ∀ userId, l.manager.sessions.activeSessionCount l.clock.millis userId ≤ config.maxActiveSessions

variable {X config} {l : Ledger}

theorem validateSession_ok_iff (mirrors : l.Mirrors) {clock : Clock} {token : Text} {session : Session} :
    (l.manager.validateSession clock token).2 = .ok session ↔
      session ∈ l.manager.sessions ∧ session.token = token ∧ session.isValid clock.millis := by
  rw [← Sessions.getSession_ok_iff mirrors.distinct, AuthManager.validateSession]
  cases l.manager.sessions.getSession clock.millis token <;> rfl

/-- While a grant lasts its session is valid. -/
theorem Mirrors.valid_of_grant (mirrors : l.Mirrors) {g : Grant} (member : g ∈ l.grants) {now : Int}
    (later : l.clock.millis ≤ now) (lasts : now < g.expiresAt) :
    ∃ s ∈ l.manager.sessions, g.For s ∧ s.isValid now := by
  obtain ⟨s, here, for_, live⟩ := mirrors.held g member (Int.lt_of_le_of_lt later lasts)
  exact ⟨s, here, for_, Session.isValid_iff.mpr ⟨live, for_.expiresAt ▸ lasts⟩⟩

/-- **Valid sessions are the accepted tokens** once every valid session has its grant. -/
theorem accepts_iff (mirrors : l.Mirrors) (granted : l.Granted) {now : Int} (later : l.clock.millis ≤ now)
    {token : Text} : l.Accepts now token ↔ ∃ s ∈ l.manager.sessions, s.token = token ∧ s.isValid now := by
  constructor
  · rintro ⟨g, member, rfl, lasts, -⟩
    obtain ⟨s, here, for_, valid⟩ := mirrors.valid_of_grant member later lasts
    exact ⟨s, here, for_.token, valid⟩
  · rintro ⟨s, here, rfl, valid⟩
    obtain ⟨g, member, for_, done⟩ := granted s here (Session.isValid_of_later later valid)
    exact ⟨g, member, for_.token.symm, for_.expiresAt ▸ (Session.isValid_iff.mp valid).2, done⟩

theorem granted_of_accepts (mirrors : l.Mirrors)
    (accepted : ∀ s ∈ l.manager.sessions, s.isValid l.clock.millis → l.Accepts l.clock.millis s.token) : l.Granted := by
  intro s here valid
  obtain ⟨g, member, token, lasts, done⟩ := accepted s here valid
  obtain ⟨t, there, for_, -⟩ := mirrors.held g member lasts
  cases mirrors.distinct.eq there here (for_.token.trans token)
  exact ⟨g, member, for_, done⟩

theorem count_eq (sessions : Sessions) (now : Int) (userId : Uuid) :
    sessions.activeSessionCount now userId =
      ((sessions.filter fun s => s.userId == userId && s.isValid now).map fun s => s.token).length := by
  rw [Sessions.activeSessionCount, List.countP_eq_length_filter, List.length_map]

/-- The number of valid sessions bounds the accepted tokens, and is the number of some. -/
theorem limited_iff (mirrors : l.Mirrors) :
    l.Limited config ↔ ∀ clock : Clock, l.clock.millis ≤ clock.millis → ∀ userId, ∀ tokens : List Text, tokens.Nodup →
      (∀ token ∈ tokens, ∃ session, (l.manager.validateSession clock token).2 = .ok session ∧ session.userId = userId) →
      tokens.length ≤ config.maxActiveSessions := by
  simp only [validateSession_ok_iff mirrors]
  constructor
  · intro limited clock later userId tokens nodup accepted
    refine Nat.le_trans (List.Subperm.length_le (List.subperm_of_subset nodup ?_)) (count_eq _ _ _ ▸ limited userId)
    intro token member
    obtain ⟨s, ⟨here, rfl, valid⟩, rfl⟩ := accepted token member
    refine List.mem_map.mpr ⟨s, List.mem_filter.mpr ⟨here, ?_⟩, rfl⟩
    rw [beq_self_eq_true, Bool.true_and]
    exact Session.isValid_of_later later valid
  · intro bounded userId
    rw [count_eq]
    refine bounded l.clock (Int.le_rfl) userId _ (mirrors.distinct.filter _) ?_
    intro token member
    obtain ⟨s, valid, rfl⟩ := List.mem_map.mp member
    rw [List.mem_filter, Bool.and_eq_true, beq_iff_eq] at valid
    exact ⟨s, ⟨valid.1, rfl, valid.2.2⟩, valid.2.1⟩

/-- **The lifecycle in terms of the sessions that are stored.** -/
theorem good_iff (mirrors : l.Mirrors) : l.Good config ↔ l.Granted ∧ l.Limited config := by
  constructor
  · intro good
    refine ⟨granted_of_accepts mirrors fun s here valid => ?_, (limited_iff mirrors).mpr good.limited⟩
    exact (good.validated l.clock (Int.le_rfl) s.token).mp
      ⟨s, (validateSession_ok_iff mirrors).mpr ⟨here, rfl, valid⟩⟩
  · rintro ⟨granted, limited⟩
    refine ⟨fun clock later token => ?_, fun now later ctx req asked => ?_, (limited_iff mirrors).mp limited⟩
    · simp only [validateSession_ok_iff mirrors, accepts_iff mirrors granted later]
    · rw [pass_guarded asked]
      simp only [Sessions.getSession_ok_iff mirrors.distinct, accepts_iff mirrors granted later]
      constructor
      · rintro ⟨-, token, s, extracted, here, same, valid⟩
        exact ⟨token, extracted, s, here, same, valid⟩
      · rintro ⟨token, extracted, s, here, same, valid⟩
        refine ⟨fun none_allowed => ?_, token, s, extracted, here, same, valid⟩
        -- a limit of zero leaves no valid session
        have some_active : 0 < l.manager.sessions.activeSessionCount l.clock.millis s.userId :=
          List.countP_pos_iff.mpr ⟨s, here, by simp [Session.isValid_of_later later valid]⟩
        exact absurd (Nat.lt_of_lt_of_le some_active (limited s.userId)) (by rw [none_allowed]; exact Nat.lt_irrefl 0)

/-! ## Time -/

theorem mirrors_tick (mirrors : l.Mirrors) (wait : Nat) : (l.tick wait).Mirrors :=
  ⟨mirrors.idle, mirrors.distinct, fun g member lasts => mirrors.held g member (Int.lt_of_le_of_lt
    (Int.le_add_of_nonneg_right (Int.natCast_nonneg wait)) lasts)⟩

theorem later_tick (wait : Nat) : l.clock.millis ≤ (l.tick wait).clock.millis :=
  Int.le_add_of_nonneg_right (Int.natCast_nonneg wait)

theorem granted_tick (granted : l.Granted) (wait : Nat) : (l.tick wait).Granted :=
  fun s here valid => granted s here (Session.isValid_of_later (later_tick wait) valid)

theorem limited_tick (limited : l.Limited config) (wait : Nat) : (l.tick wait).Limited config := by
  intro userId
  refine Nat.le_trans (List.countP_mono_left fun s _ active => ?_) (limited userId)
  rw [Bool.and_eq_true] at active ⊢
  exact ⟨active.1, Session.isValid_of_later (later_tick wait) active.2⟩

/-! ## Calls -/

/-- The ledger with these sessions and grants. -/
def with_ (l : Ledger) (sessions : Sessions) (grants : List Grant) : Ledger :=
  { l with manager := { l.manager with sessions }, grants }

/-- A session changed in what no grant is about, or revoked. -/
structure Dims (s t : Session) : Prop where
  token : t.token = s.token
  userId : t.userId = s.userId
  expiresAt : t.expiresAt = s.expiresAt
  revoked : t.revoked = false → s.revoked = false

theorem Dims.valid {s t : Session} (dims : Dims s t) {now : Int} (valid : t.isValid now) : s.isValid now := by
  rw [Session.isValid_iff] at valid ⊢
  exact ⟨dims.revoked valid.1, dims.expiresAt ▸ valid.2⟩

theorem Dims.for_iff {s t : Session} (dims : Dims s t) {g : Grant} : g.For t ↔ g.For s :=
  ⟨fun h => ⟨dims.token ▸ h.token, dims.userId ▸ h.userId, dims.expiresAt ▸ h.expiresAt⟩,
    fun h => ⟨dims.token.trans h.token, dims.userId.trans h.userId, dims.expiresAt.trans h.expiresAt⟩⟩

theorem limited_update {f : Session → Session} (dims : ∀ s, Dims s (f s)) (limited : l.Limited config)
    (token : Text) (grants : List Grant) : (l.with_ (l.manager.sessions.update token f) grants).Limited config := by
  intro userId
  refine Nat.le_trans ?_ (limited userId)
  change List.countP _ (List.map _ _) ≤ _
  rw [List.countP_map]
  refine List.countP_mono_left fun s _ active => ?_
  rw [Function.comp_apply] at active
  split at active
  · rw [Bool.and_eq_true, (dims s).userId] at active
    rw [Bool.and_eq_true]
    exact ⟨active.1, (dims s).valid active.2⟩
  · exact active

theorem limited_filter (limited : l.Limited config) (p : Session → Bool) (grants : List Grant) :
    (l.with_ (l.manager.sessions.filter p) grants).Limited config :=
  fun userId => Nat.le_trans (List.filter_sublist.countP_le) (limited userId)

/-- **A session that is touched** stays as granted. -/
theorem touch_mirrors (mirrors : l.Mirrors) (token : Text) :
    (l.with_ (l.manager.sessions.touchSession l.clock.millis token) l.grants).Mirrors := by
  refine ⟨mirrors.idle, mirrors.distinct.update fun s => rfl, fun g member lasts => ?_⟩
  obtain ⟨s, here, for_, live⟩ := mirrors.held g member lasts
  refine ⟨_, Sessions.mem_update.mpr ⟨s, here, rfl⟩, ?_⟩
  split
  · exact ⟨⟨for_.token, for_.userId, for_.expiresAt⟩, live⟩
  · exact ⟨for_, live⟩

theorem touch_dims (now : Int) (s : Session) : Dims s { s with lastActivityAt := now } := ⟨rfl, rfl, rfl, id⟩

theorem revoke_dims (s : Session) : Dims s { s with revoked := true } := ⟨rfl, rfl, rfl, fun live => by cases live⟩

theorem touch_granted (granted : l.Granted) (token : Text) :
    (l.with_ (l.manager.sessions.touchSession l.clock.millis token) l.grants).Granted := by
  intro s member valid
  obtain ⟨old, here, same⟩ := Sessions.mem_update.mp member
  have dims : Dims old s := by
    split at same <;> cases same
    · exact touch_dims _ _
    · exact ⟨rfl, rfl, rfl, id⟩
  obtain ⟨g, issued, for_, done⟩ := granted old here (dims.valid valid)
  exact ⟨g, issued, dims.for_iff.mpr for_, done⟩

/-- **A session that is revoked** loses its grant. -/
theorem revoke_mirrors (mirrors : l.Mirrors) (token : Text) :
    (l.with_ (l.manager.sessions.revokeSession token) (l.grants.filter fun g => g.token != token)).Mirrors := by
  refine ⟨mirrors.idle, mirrors.distinct.update fun s => rfl, fun g member lasts => ?_⟩
  rw [with_, List.mem_filter, bne_iff_ne] at member
  obtain ⟨s, here, for_, live⟩ := mirrors.held g member.1 lasts
  refine ⟨s, Sessions.mem_update.mpr ⟨s, here, if_neg (for_.token ▸ member.2)⟩, for_, live⟩

theorem revoke_granted (granted : l.Granted) (token : Text) :
    (l.with_ (l.manager.sessions.revokeSession token) (l.grants.filter fun g => g.token != token)).Granted := by
  intro s member valid
  obtain ⟨old, here, same⟩ := Sessions.mem_update.mp member
  split at same
  · cases same
    cases (Session.isValid_iff.mp valid).1
  next other =>
    cases same
    obtain ⟨g, issued, for_, done⟩ := granted s here valid
    exact ⟨g, List.mem_filter.mpr ⟨issued, bne_iff_ne.mpr (for_.token ▸ other)⟩, for_, done⟩

/-- **The sessions of a user** go with the grants. -/
theorem revokeUser_mirrors (mirrors : l.Mirrors) (userId : Uuid) :
    (l.with_ (l.manager.sessions.revokeUserSessions userId) (l.withdraw userId)).Mirrors := by
  refine ⟨mirrors.idle, mirrors.distinct.filter _, fun g member lasts => ?_⟩
  rw [with_, withdraw, List.mem_filter, bne_iff_ne] at member
  obtain ⟨s, here, for_, live⟩ := mirrors.held g member.1 lasts
  exact ⟨s, List.mem_filter.mpr ⟨here, bne_iff_ne.mpr (for_.userId ▸ member.2)⟩, for_, live⟩

theorem revokeUser_granted (granted : l.Granted) (userId : Uuid) :
    (l.with_ (l.manager.sessions.revokeUserSessions userId) (l.withdraw userId)).Granted := by
  intro s member valid
  obtain ⟨here, other⟩ := List.mem_filter.mp member
  obtain ⟨g, issued, for_, done⟩ := granted s here valid
  exact ⟨g, List.mem_filter.mpr ⟨issued, by rwa [← for_.userId]⟩, for_, done⟩

/-- **A cleanup** takes what is not valid. -/
theorem cleanup_mirrors (mirrors : l.Mirrors) :
    (l.with_ (l.manager.sessions.cleanupExpired l.clock.millis) l.grants).Mirrors := by
  refine ⟨mirrors.idle, mirrors.distinct.filter _, fun g member lasts => ?_⟩
  obtain ⟨s, here, for_, live⟩ := mirrors.held g member lasts
  refine ⟨s, List.mem_filter.mpr ⟨here, ?_⟩, for_, live⟩
  have valid : s.isValid l.clock.millis := Session.isValid_iff.mpr ⟨live, for_.expiresAt ▸ lasts⟩
  rw [Session.isValid, Bool.and_eq_true, Bool.not_eq_true', Bool.not_eq_true'] at valid
  rw [valid.1, valid.2]
  rfl

theorem filter_granted (granted : l.Granted) (p : Session → Bool) :
    (l.with_ (l.manager.sessions.filter p) l.grants).Granted :=
  fun s member valid => granted s (List.mem_of_mem_filter member) valid

/-- **Grants that are taken back alone** leave a session behind, unless the user has none. -/
theorem withdraw_mirrors (mirrors : l.Mirrors) (id : Uuid) : (l.with_ l.manager.sessions (l.withdraw id)).Mirrors :=
  ⟨mirrors.idle, mirrors.distinct, fun g member lasts => mirrors.held g (List.mem_of_mem_filter member) lasts⟩

theorem withdraw_granted (granted : l.Granted) (id : Uuid) :
    (l.with_ l.manager.sessions (l.withdraw id)).Granted ↔ l.SignedOut id := by
  constructor
  · intro still s here user
    refine Bool.eq_false_iff.mpr fun valid => ?_
    obtain ⟨g, member, for_, -⟩ := still s here valid
    rw [with_, withdraw, List.mem_filter, bne_iff_ne] at member
    exact member.2 (for_.userId ▸ user)
  · intro out s here valid
    obtain ⟨g, issued, for_, done⟩ := granted s here valid
    refine ⟨g, List.mem_filter.mpr ⟨issued, bne_iff_ne.mpr fun user => ?_⟩, for_, done⟩
    exact Bool.false_ne_true ((out s here (for_.userId.trans user)).symm.trans valid)

/-- **A code** is missing no more. -/
theorem verify_mirrors (mirrors : l.Mirrors) (id : Uuid) :
    (l.with_ l.manager.sessions
      (l.grants.map fun g => if g.userId = id then { g with needsCode := false } else g)).Mirrors := by
  refine ⟨mirrors.idle, mirrors.distinct, fun g member lasts => ?_⟩
  obtain ⟨old, issued, same⟩ := List.mem_map.mp member
  split at same
  · cases same
    obtain ⟨s, here, for_, live⟩ := mirrors.held old issued lasts
    exact ⟨s, here, ⟨for_.token, for_.userId, for_.expiresAt⟩, live⟩
  · cases same
    exact mirrors.held _ issued lasts

theorem verify_granted (granted : l.Granted) (id : Uuid) :
    (l.with_ l.manager.sessions
      (l.grants.map fun g => if g.userId = id then { g with needsCode := false } else g)).Granted := by
  intro s here valid
  obtain ⟨g, issued, for_, done⟩ := granted s here valid
  by_cases user : g.userId = id
  · exact ⟨{ g with needsCode := false }, List.mem_map.mpr ⟨g, issued, if_pos user⟩,
      ⟨for_.token, for_.userId, for_.expiresAt⟩, rfl⟩
  · exact ⟨g, List.mem_map.mpr ⟨g, issued, if_neg user⟩, for_, done⟩

/-- **A session that is issued** comes with its grant. -/
theorem issue_mirrors (mirrors : l.Mirrors) {new : Session} {g : Grant} (for_ : g.For new) (live : new.revoked = false) :
    (l.with_ (l.manager.sessions.insert new) (l.grants.filter (fun h => h.token != new.token) ++ [g])).Mirrors := by
  refine ⟨mirrors.idle, mirrors.distinct.insert new, fun h member lasts => ?_⟩
  rcases List.mem_append.mp member with old | here
  · rw [List.mem_filter, bne_iff_ne] at old
    obtain ⟨s, here, same, revoked⟩ := mirrors.held h old.1 lasts
    exact ⟨s, Sessions.mem_insert.mpr (.inl ⟨here, same.token ▸ old.2⟩), same, revoked⟩
  · cases List.mem_singleton.mp here
    exact ⟨new, Sessions.mem_insert.mpr (.inr rfl), for_, live⟩

theorem issue_granted (granted : l.Granted) {new : Session} {g : Grant} (for_ : g.For new) (live : new.revoked = false) :
    (l.with_ (l.manager.sessions.insert new) (l.grants.filter (fun h => h.token != new.token) ++ [g])).Granted ↔
      (l.clock.millis < new.expiresAt → g.needsCode = false) := by
  constructor
  · intro still lasts
    obtain ⟨h, member, same, done⟩ := still new (Sessions.mem_insert.mpr (.inr rfl)) (Session.isValid_iff.mpr ⟨live, lasts⟩)
    rcases List.mem_append.mp member with old | here
    · rw [List.mem_filter, bne_iff_ne] at old
      exact absurd same.token.symm old.2
    · rwa [← List.mem_singleton.mp here]
  · intro free s member valid
    rcases Sessions.mem_insert.mp member with ⟨here, other⟩ | rfl
    · obtain ⟨h, issued, same, done⟩ := granted s here valid
      exact ⟨h, List.mem_append_left _ (List.mem_filter.mpr ⟨issued, bne_iff_ne.mpr (same.token ▸ other)⟩), same, done⟩
    · exact ⟨g, List.mem_append_right _ (List.mem_singleton.mpr rfl), for_, free (Session.isValid_iff.mp valid).2⟩

theorem issue_limited (limited : l.Limited config) {new : Session} (live : new.revoked = false) (grants : List Grant) :
    (l.with_ (l.manager.sessions.insert new) grants).Limited config ↔
      (l.clock.millis < new.expiresAt →
        Sessions.activeSessionCount (l.manager.sessions.filter fun s => s.token != new.token) l.clock.millis new.userId <
          config.maxActiveSessions) := by
  have valid_iff : new.isValid l.clock.millis ↔ l.clock.millis < new.expiresAt := by
    rw [Session.isValid_iff, and_iff_right live]
  have counted (userId : Uuid) : (l.manager.sessions.insert new).activeSessionCount l.clock.millis userId =
      Sessions.activeSessionCount (l.manager.sessions.filter fun s => s.token != new.token) l.clock.millis userId +
        if new.userId = userId ∧ l.clock.millis < new.expiresAt then 1 else 0 := by
    rw [Sessions.insert, Sessions.activeSessionCount, List.countP_append, List.countP_singleton]
    simp only [Bool.and_eq_true, beq_iff_eq, valid_iff]
    rfl
  have before (userId : Uuid) := limited_filter limited (fun s => s.token != new.token) l.grants userId
  constructor
  · intro still lasts
    have bound := still new.userId
    rw [with_, counted, if_pos ⟨rfl, lasts⟩] at bound
    exact bound
  · intro room userId
    rw [with_, counted]
    split
    next here => exact here.1 ▸ room here.2
    next => exact before userId

/-- The session that is returned is the one that is stored. -/
theorem succeed_session (m : AuthManager) (clock : Clock) (draw : Draw) (credentials : Credentials)
    (result : ProviderResult) : (m.succeed X config clock draw credentials result).2.session =
      newSession X config clock draw (result.userId.getD draw.userId) (result.username.getD "unknown".toList)
        result.roles result.permissions := by
  rw [AuthManager.succeed]
  split <;> rfl

/-- **What a call does to grants and sessions**: it keeps what is valid granted and in the
limit exactly when it is clean. -/
structure Kept (X : Extern) (config : AuthConfig) (l : Ledger) (call : AuthManager.Call) : Prop where
  mirrors : (l.act X config call).Mirrors
  exactly : l.Granted → l.Limited config →
    ((l.act X config call).Granted ∧ (l.act X config call).Limited config ↔ l.CleanCall X config call)

/-- A call that changes neither. -/
theorem kept_unchanged (mirrors : l.Mirrors) {call : AuthManager.Call} (clean : l.CleanCall X config call)
    (sessions : (l.act X config call).manager.sessions = l.manager.sessions)
    (grants : (l.act X config call).grants = l.grants) : Kept X config l call := by
  refine ⟨⟨mirrors.idle.call call, ?_, ?_⟩, fun granted limited => iff_of_true ⟨?_, ?_⟩ clean⟩
  · rw [sessions]
    exact mirrors.distinct
  · rw [sessions, grants]
    exact mirrors.held
  · rw [Granted, sessions, grants]
    exact granted
  · rw [Limited, sessions]
    exact limited

theorem kept_authenticate (mirrors : l.Mirrors) (draw : Draw) (name : Text) (credentials : Credentials) :
    Kept X config l (.authenticate draw name credentials) := by
  rcases AuthManager.authenticate_cases X config l.clock mirrors.idle draw name credentials with
    ⟨e, failed⟩ | ⟨provider, result, known, given, done⟩
  · refine kept_unchanged mirrors ?_ ?_ ?_
    · intro provider result known given
      rw [AuthManager.authenticate_ok mirrors.idle known given] at failed
      cases (Prod.mk.inj failed).2
    · rw [act, AuthManager.call, failed]
    · rw [act, register, failed]
  · have clean : l.CleanCall X config (.authenticate draw name credentials) ↔
        (0 < config.sessionTtlSecs → l.manager.mfa.hasMfa (result.userId.getD draw.userId) = false ∧
          Sessions.activeSessionCount
            (l.manager.sessions.filter fun s => s.token != generateSessionToken X draw.bytes)
            l.clock.millis (result.userId.getD draw.userId) < config.maxActiveSessions) := by
      constructor
      · intro all
        exact all provider result known given
      · intro here provider' result' known' given'
        cases known.symm.trans known'
        cases given.symm.trans given'
        exact here
    have lasts (username : Text) (roles permissions : List Text) : l.clock.millis <
        (newSession X config l.clock draw (result.userId.getD draw.userId) username roles permissions).expiresAt ↔
          0 < config.sessionTtlSecs := by
      change l.clock.millis < l.clock.millis + config.sessionTtlSecs * 1000 ↔ _
      omega
    have for_ : Grant.For ⟨generateSessionToken X draw.bytes, result.userId.getD draw.userId,
        l.clock.millis + config.sessionTtlSecs * 1000, l.manager.mfa.hasMfa (result.userId.getD draw.userId)⟩
        (newSession X config l.clock draw (result.userId.getD draw.userId) (result.username.getD "unknown".toList)
          result.roles result.permissions) := ⟨rfl, rfl, rfl⟩
    have grants : l.register X config (.authenticate draw name credentials) =
        l.grants.filter (fun g => g.token != generateSessionToken X draw.bytes) ++
          [⟨generateSessionToken X draw.bytes, result.userId.getD draw.userId,
            l.clock.millis + config.sessionTtlSecs * 1000, l.manager.mfa.hasMfa (result.userId.getD draw.userId)⟩] := by
      rw [register, done]
      dsimp only
      rw [issue, succeed_session]
      rfl
    have sessions : (l.manager.call X config l.clock (.authenticate draw name credentials)).sessions =
        l.manager.sessions.insert (newSession X config l.clock draw (result.userId.getD draw.userId)
          (result.username.getD "unknown".toList) result.roles result.permissions) := by
      rw [AuthManager.call, done]
      rfl
    have after := issue_mirrors mirrors for_ rfl
    refine ⟨⟨mirrors.idle.call _, ?_, ?_⟩, fun granted limited => ?_⟩
    · rw [act, sessions]
      exact after.distinct
    · rw [act, sessions, grants]
      exact after.held
    · rw [clean, Granted, Limited, act]
      dsimp only
      rw [sessions, grants]
      refine (and_congr (issue_granted granted for_ rfl) (issue_limited limited rfl l.grants)).trans ?_
      rw [lasts]
      exact forall_and.symm

/-- A user that may be known, whose grants are taken back. -/
theorem kept_withdraw (mirrors : l.Mirrors) {call : AuthManager.Call} (id : Uuid) (done : Prop) [Decidable done]
    (sessions : (l.act X config call).manager.sessions = l.manager.sessions)
    (grants : (l.act X config call).grants = if done then l.withdraw id else l.grants)
    (clean : l.CleanCall X config call ↔ (done → l.SignedOut id)) : Kept X config l call := by
  by_cases here : done
  · rw [if_pos here] at grants
    have after := withdraw_mirrors mirrors id
    refine ⟨⟨mirrors.idle.call _, ?_, ?_⟩, fun granted limited => ?_⟩
    · rw [sessions]
      exact after.distinct
    · rw [sessions, grants]
      exact after.held
    · rw [clean, Granted, Limited, sessions, grants]
      exact (and_iff_left limited).trans ((withdraw_granted granted id).trans
        ⟨fun out _ => out, fun all => all here⟩)
  · rw [if_neg here] at grants
    exact kept_unchanged mirrors (clean.mpr fun holds => absurd holds here) sessions grants

theorem kept_act (mirrors : l.Mirrors) (call : AuthManager.Call) : Kept X config l call := by
  cases call with
  | authenticate draw name credentials => exact kept_authenticate mirrors draw name credentials
  | validateSession token =>
    cases known : l.manager.sessions.getSession l.clock.millis token with
    | error e =>
      refine kept_unchanged mirrors trivial ?_ rfl
      rw [act, AuthManager.call, AuthManager.validateSession, known]
    | ok session =>
      have sessions : (l.act X config (.validateSession token)).manager.sessions =
          l.manager.sessions.touchSession l.clock.millis token := by
        rw [act, AuthManager.call, AuthManager.validateSession, known]
      have after := touch_mirrors mirrors token
      refine ⟨⟨mirrors.idle.call _, ?_, ?_⟩, fun granted limited => iff_of_true ⟨?_, ?_⟩ trivial⟩
      · rw [sessions]
        exact after.distinct
      · rw [sessions]
        exact after.held
      · rw [Granted, sessions]
        exact touch_granted granted token
      · rw [Limited, sessions]
        exact limited_update (touch_dims _) limited token l.grants
  | revokeSession token =>
    exact ⟨revoke_mirrors mirrors token, fun granted limited =>
      iff_of_true ⟨revoke_granted granted token, limited_update revoke_dims limited token _⟩ trivial⟩
  | revokeUserSessions userId =>
    exact ⟨revokeUser_mirrors mirrors userId, fun granted limited =>
      iff_of_true ⟨revokeUser_granted granted userId, limited_filter limited _ _⟩ trivial⟩
  | cleanupSessions =>
    exact ⟨cleanup_mirrors mirrors, fun granted limited =>
      iff_of_true ⟨filter_granted granted _, limited_filter limited _ _⟩ trivial⟩
  | verifyMfa userId code =>
    by_cases right : l.manager.verifyMfa X config l.clock userId code = true
    · have grants : (l.act X config (.verifyMfa userId code)).grants =
          l.grants.map fun g => if g.userId = userId then { g with needsCode := false } else g := if_pos right
      have after := verify_mirrors mirrors userId
      refine ⟨⟨mirrors.idle, mirrors.distinct, ?_⟩, fun granted limited => iff_of_true ⟨?_, limited⟩ trivial⟩
      · rw [grants]
        exact after.held
      · rw [Granted, grants]
        exact verify_granted granted userId
    · exact kept_unchanged mirrors trivial rfl (if_neg right)
  | createUser id salt username password roles =>
    refine kept_unchanged mirrors trivial ?_ rfl
    rw [act, AuthManager.call, AuthManager.createUser]
    split
    · rfl
    · dsimp only
      split <;> rfl
  | deleteUser id =>
    refine kept_withdraw mirrors id (l.manager.userById id).isSome ?_ ?_ Iff.rfl
    · rw [act, AuthManager.call, AuthManager.deleteUser]
      split <;> rfl
    · rw [act, register, AuthManager.deleteUser]
      cases l.manager.userById id <;> rfl
  | changePassword id salt password =>
    refine kept_withdraw mirrors id (X.bcryptVerify password (hashPassword X salt config.bcryptCost password) ∧
      (l.manager.userById id).isSome) ?_ ?_ and_imp.symm
    · rw [act, AuthManager.call, AuthManager.changePassword]
      dsimp only
      split
      · split <;> rfl
      · rfl
    · rw [act, register, AuthManager.changePassword]
      dsimp only
      by_cases verified : X.bcryptVerify password (hashPassword X salt config.bcryptCost password) = true
      · rw [if_pos verified]
        cases l.manager.userById id <;> simp [verified, Except.toBool]
      · rw [if_neg verified]
        exact (if_neg fun both => verified both.1).symm
  | cleanupBruteForce | enableMfa userId secret | createApiKey id bytes name permissions
  | revokeApiKey id => exact kept_unchanged mirrors trivial rfl rfl

/-! ## Runs -/

theorem mirrors_start (clock : Clock) (providers : List (Text × Provider)) : (start clock providers).Mirrors :=
  ⟨rfl, List.nodup_nil, nofun⟩

theorem good_start (clock : Clock) (providers : List (Text × Provider)) : (start clock providers).Good config :=
  (good_iff (mirrors_start clock providers)).mpr
    ⟨List.forall_mem_nil _, fun _ => Nat.zero_le _⟩

theorem mirrors_step (mirrors : l.Mirrors) (event : Nat × AuthManager.Call) : (l.step X config event).Mirrors :=
  (kept_act (mirrors_tick mirrors event.1) event.2).mirrors

/-- A call keeps the lifecycle exactly when it is clean. -/
theorem good_step (mirrors : l.Mirrors) (good : l.Good config) (event : Nat × AuthManager.Call) :
    (l.step X config event).Good config ↔ l.Clean X config event := by
  obtain ⟨granted, limited⟩ := (good_iff mirrors).mp good
  rw [good_iff (mirrors_step mirrors event)]
  exact (kept_act (mirrors_tick mirrors event.1) event.2).exactly (granted_tick granted event.1)
    (limited_tick limited event.1)

/-- **The lifecycle holds in every state of a run exactly when its calls are clean**: no user
with an accepted token is deleted or gets a new password, and who signs in owes no code and
has room for one more session. -/
theorem lifecycle_iff (X : Extern) (config : AuthConfig) (clock : Clock) (providers : List (Text × Provider))
    (events : List (Nat × AuthManager.Call)) :
    (∀ l ∈ Run.states (step X config) (start clock providers) events, l.Good config) ↔
      Run.Each (step X config) (Clean X config) (start clock providers) events :=
  Run.forall_states_iff (fun _ event mirrors => mirrors_step mirrors event)
    (fun _ event mirrors good => good_step mirrors good event) (mirrors_start clock providers) (good_start clock providers)

/-- A user signs in, and gets a new password a second later. -/
def changedRun : List (Nat × AuthManager.Call) :=
  [(0, .createUser 7 [] ['a'] "old".toList []),
    (0, .authenticate ⟨1, 2, [97]⟩ "local".toList [("username", ['a']), ("password", "old".toList)]),
    (1000, .changePassword 7 [] "new".toList)]

def changedStart : Ledger := start ⟨0, 0⟩ [("local".toList, .password)]

def changed : Ledger := changedRun.foldl (step sampleExtern {}) changedStart

/-- The session from before the change is still accepted. -/
theorem session_outlives : ¬ ∀ l ∈ Run.states (step sampleExtern {}) changedStart changedRun, l.Good {} := by
  intro all
  have good : changed.Good {} := all _ (Run.foldl_mem_states _ _)
  obtain ⟨g, member, -⟩ := (good.validated ⟨0, 2000⟩ (by decide +kernel) "nova_sess_a".toList).mp
    ⟨newSession sampleExtern {} ⟨0, 0⟩ ⟨1, 2, [97]⟩ 7 ['a'] [] [['*']], by decide +kernel⟩
  have taken : changed.grants = [] := by decide +kernel
  rw [taken] at member
  cases member

end Ledger

end NovaRuntime.Auth
