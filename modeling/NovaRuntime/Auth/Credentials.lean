/-
# NovaRuntime.Auth.Credentials — whether only legitimate credentials authenticate

A `Registrar` runs beside the manager and keeps what is legitimate: the accounts with the
password set last, and the keys that were given out and not revoked. The password provider
accepts nothing else. The provider of API keys does not look at the stored keys and takes
any text of 16 bytes (`stranger_key`), and the token provider skips an expiry that is a
number and no 64-bit integer. Authentication is sound exactly in the runs in which neither
is presented (`sound_iff`).
-/
import Mathlib.Data.List.Forall2
import NovaRuntime.Auth.Manager
import NovaRuntime.Library.Runs

namespace NovaRuntime.Auth

open NovaRuntime.Library

set_option autoImplicit false

/-! ## What is legitimate -/

structure Account where
  id : Uuid
  username : Text
  password : Text
  deriving DecidableEq

structure IssuedKey where
  id : Uuid
  text : Text
  permissions : List Text
  deriving DecidableEq

structure Registrar where
  manager : AuthManager
  accounts : List Account
  keys : List IssuedKey

/-- A number in the future; a claim that is no number is none. -/
def Json.inFuture (now : Int) : Json → Bool
  | .int n => now < n
  | .float f => f.exceeds now
  | _ => true

/-- The claims of a token with a right signature: HMAC of its first two segments. -/
def SignedClaims (X : Extern) (secret : Bytes) (credentials : Credentials) (claims : Json) : Prop :=
  ∃ token header payload signature bytes, credentials.get "token" = some token ∧
    splitOn '.' token = [header, payload, signature] ∧
    trimEnd '=' signature = X.base64Url (hmacSha256 X secret (utf8 (header ++ '.' :: payload))) ∧
    X.base64UrlDecode payload = some bytes ∧ X.parseJson bytes = some claims

namespace Registrar

variable (X : Extern) (config : AuthConfig)

/-- **Legitimate credentials**, and what they may. -/
def Legitimate (r : Registrar) (now : Int) (credentials : Credentials) (permissions : List Text) : Provider → Prop
  | .password => ∃ account ∈ r.accounts, credentials.get "username" = some account.username ∧
      credentials.get "password" = some account.password
  | .apiKey => ∃ key ∈ r.keys, credentials.get "api_key" = some key.text ∧ permissions = key.permissions
  | .jwt secret => ∃ claims, SignedClaims X secret credentials claims ∧
      ∀ exp, claims.member "exp" = some exp → Json.inFuture now exp

/-- A call that authenticates does so with legitimate credentials. -/
def Sound (r : Registrar) (event : Clock × AuthManager.Call) : Prop :=
  ∀ draw name credentials, event.2 = .authenticate draw name credentials →
    ∀ provider, r.manager.providers.lookup name = some provider →
      ∀ result, (r.manager.authenticate X config event.1 draw name credentials).2 = .ok result →
        r.Legitimate X (event.1.millis / 1000) credentials result.permissions provider

/-- What a provider is presented with: of the texts that have the length of a key only keys
given out to read and write, and of the tokens that are signed none that has expired by a
number that is no 64-bit integer. -/
def Presentable (r : Registrar) (now : Int) (credentials : Credentials) : Provider → Prop
  | .password => True
  | .apiKey => ∀ text, credentials.get "api_key" = some text → 16 ≤ (utf8 text).length →
      ∃ key ∈ r.keys, key.text = text ∧ key.permissions = ["read".toList, "write".toList]
  | .jwt secret => ∀ claims, SignedClaims X secret credentials claims → secret ≠ [] →
      ∀ exp, claims.member "exp" = some exp → asI64 exp = none → Json.inFuture now exp

def Clean (r : Registrar) (event : Clock × AuthManager.Call) : Prop :=
  ∀ draw name credentials, event.2 = .authenticate draw name credentials →
    ∀ provider, r.manager.providers.lookup name = some provider →
      r.Presentable X (event.1.millis / 1000) credentials provider

/-! ## The register of a run -/

/-- What a call makes legitimate, and what it takes back. -/
def register (r : Registrar) : AuthManager.Call → List Account × List IssuedKey
  | .createUser id _ username password _ =>
    (if r.accounts.any fun a => a.username == username then r.accounts
      else r.accounts ++ [⟨id, username, password⟩], r.keys)
  | .deleteUser id =>
    ((r.accounts.find? fun a => a.id == id).elim r.accounts fun account =>
      r.accounts.filter fun a => a.username != account.username, r.keys)
  | .changePassword id _ password =>
    (r.accounts.map fun a => if a.id = id then { a with password } else a, r.keys)
  | .createApiKey id bytes _ permissions =>
    (r.accounts, r.keys.filter (fun k => k.id != id) ++ [⟨id, AuthManager.apiKeyOf bytes, permissions⟩])
  | .revokeApiKey id => (r.accounts, r.keys.filter fun k => k.id != id)
  | _ => (r.accounts, r.keys)

def step (r : Registrar) (event : Clock × AuthManager.Call) : Registrar where
  manager := r.manager.call X config event.1 event.2
  accounts := (r.register event.2).1
  keys := (r.register event.2).2

def start (providers : List (Text × Provider)) : Registrar := ⟨.new providers, [], []⟩

/-! ## The invariant -/

/-- bcrypt verifies the password that was hashed, and no other. -/
def BcryptLaw (X : Extern) : Prop :=
  ∀ salt cost password other, X.bcryptVerify password (X.bcryptHash salt cost other) = true ↔ password = other

/-- A stored user is the account with the hash of its password. -/
structure Holds (X : Extern) (user : UserRecord) (account : Account) : Prop where
  id : user.id = account.id
  username : user.username = account.username
  hashed : ∃ salt cost, user.passwordHash = X.bcryptHash salt cost account.password

structure Registered (X : Extern) (r : Registrar) : Prop where
  idle : r.manager.Idle
  users : List.Forall₂ (Holds X) r.manager.users r.accounts

variable {X config} {r : Registrar} {event : Clock × AuthManager.Call}
variable {accounts : List Account} {users : List UserRecord}

section

variable (held : List.Forall₂ (Holds X) users accounts)

include held

/-- Users and accounts that hold them are found alike. -/
theorem find?_holds {p : UserRecord → Bool} {q : Account → Bool} (same : ∀ u a, Holds X u a → p u = q a) :
    Option.Rel (Holds X) (users.find? p) (accounts.find? q) := by
  induction held with
  | nil => exact .none
  | @cons u a users accounts first rest ih =>
    rw [List.find?_cons, List.find?_cons, same u a first]
    cases q a with
    | true => exact .some first
    | false => exact ih

theorem find?_id
    (id : Uuid) : Option.Rel (Holds X) (users.find? fun u => u.id == id) (accounts.find? fun a => a.id == id) :=
  find?_holds held fun u a same => by rw [same.id]

theorem any_holds
    (username : Text) : users.any (fun u => u.username == username) = accounts.any fun a => a.username == username := by
  induction held with
  | nil => rfl
  | cons first rest ih => rw [List.any_cons, List.any_cons, first.username, ih]

theorem filter_holds (username : Text) : List.Forall₂ (Holds X) (users.filter fun u => u.username != username)
      (accounts.filter fun a => a.username != username) := by
  induction held with
  | nil => exact .nil
  | cons first rest ih =>
    rw [List.filter_cons, List.filter_cons, first.username]
    split
    · exact .cons first ih
    · exact ih

theorem map_holds (id : Uuid) (salt : Bytes) (cost : Nat) (password : Text) (now : Int) :
    List.Forall₂ (Holds X) (users.map fun u =>
        if u.id = id then { u with passwordHash := hashPassword X salt cost password, updatedAt := now } else u)
      (accounts.map fun a => if a.id = id then { a with password } else a) := by
  induction held with
  | nil => exact .nil
  | cons first rest ih =>
    refine .cons ?_ ih
    dsimp only
    rw [first.id]
    split
    · exact ⟨rfl, first.username, salt, _, rfl⟩
    · exact first

end

theorem registered_start (providers : List (Text × Provider)) : (start providers).Registered X := ⟨rfl, .nil⟩

/-- **A call** keeps users and accounts together. -/
theorem registered_step (law : BcryptLaw X) (registered : r.Registered X) : (r.step X config event).Registered X := by
  refine ⟨registered.idle.call event.2, ?_⟩
  have verified (salt : Bytes) (cost : Nat) (password : Text) :
      X.bcryptVerify password (hashPassword X salt cost password) = true := (law _ _ _ _).mpr rfl
  obtain ⟨clock, call⟩ := event
  cases call with
  | authenticate draw name credentials =>
    rcases AuthManager.authenticate_cases X config clock registered.idle draw name credentials with
      ⟨e, failed⟩ | ⟨provider, result, -, -, done⟩
    · rw [step, AuthManager.call, failed]
      exact registered.users
    · rw [step, AuthManager.call, done]
      exact registered.users
  | validateSession token =>
    rw [step, AuthManager.call, AuthManager.validateSession]
    split <;> exact registered.users
  | createUser id salt username password roles =>
    rw [step, AuthManager.call, AuthManager.createUser, register, ← any_holds registered.users]
    dsimp only
    split
    · exact registered.users
    · rw [if_pos (verified salt config.bcryptCost password)]
      exact List.rel_append registered.users (.cons ⟨rfl, rfl, salt, _, rfl⟩ .nil)
  | deleteUser id =>
    have found := find?_id registered.users id
    rw [step, AuthManager.call, AuthManager.deleteUser, register, AuthManager.userById]
    generalize r.manager.users.find? _ = user at found
    generalize r.accounts.find? _ = account at found
    cases found with
    | none => exact registered.users
    | some held =>
      rw [Option.elim_some, ← held.username]
      exact filter_holds registered.users _
  | changePassword id salt password =>
    rw [step, AuthManager.call, AuthManager.changePassword, register]
    dsimp only
    rw [if_pos (verified salt config.bcryptCost password)]
    have found := find?_id registered.users id
    rw [AuthManager.userById]
    cases user : r.manager.users.find? (fun u => u.id == id) with
    | some _ => exact map_holds registered.users id salt _ password clock.millis
    | none =>
      rw [user] at found
      cases account : r.accounts.find? (fun a => a.id == id) with
      | some _ =>
        rw [account] at found
        cases found
      | none =>
        -- the code stops at an unknown user, where no account changes either
        have same : r.accounts.map (fun a => if a.id = id then { a with password } else a) = r.accounts :=
          (List.map_congr_left fun a member =>
            if_neg (by simpa using List.find?_eq_none.mp account a member)).trans (List.map_id' r.accounts)
        rw [same]
        exact registered.users
  | _ => exact registered.users

/-! ## Soundness -/

section

variable {clock : Clock} {draw : Draw} {name : Text} {credentials : Credentials} {provider : Provider}
variable {now : Int}

/-- Authentication gives what its provider gives. -/
theorem forall_authenticate (registered : r.Registered X) (known : r.manager.providers.lookup name = some provider)
    (good : List Text → Prop) :
    (∀ result, (r.manager.authenticate X config clock draw name credentials).2 = .ok result → good result.permissions) ↔
      ∀ result, provider.authenticate X r.manager.users (clock.millis / 1000) credentials = .ok result →
        good result.permissions := by
  cases done : provider.authenticate X r.manager.users (clock.millis / 1000) credentials with
  | error e =>
    rw [AuthManager.authenticate_error registered.idle known done]
    constructor <;> rintro - _ ⟨⟩
  | ok given =>
    rw [AuthManager.authenticate_ok registered.idle known done]
    constructor
    · rintro sound _ ⟨⟩
      exact sound _ rfl
    · rintro sound _ ⟨⟩
      exact sound _ rfl

/-- **The password provider** knows the accounts. -/
theorem password_legitimate (law : BcryptLaw X) (registered : r.Registered X) {result : ProviderResult}
    (done : passwordAuthenticate X r.manager.users credentials = .ok result) :
    r.Legitimate X now credentials result.permissions .password := by
  obtain ⟨username, password, user, named, given, found, verified, rfl⟩ := passwordAuthenticate_ok done
  have same := find?_holds registered.users (p := fun u => u.username == username)
    (q := fun a => a.username == username) fun u a held => by rw [held.username]
  rw [found] at same
  cases account : r.accounts.find? fun a => a.username == username with
  | none =>
    rw [account] at same
    cases same
  | some a =>
    rw [account] at same
    cases same with
    | some held =>
      obtain ⟨salt, cost, hashed⟩ := held.hashed
      rw [hashed, law] at verified
      refine ⟨a, List.mem_of_find?_eq_some account, ?_, verified ▸ given⟩
      have called : a.username = username := by simpa using List.find?_some account
      rw [named, called]

/-- **The provider of API keys** takes whatever is long enough. -/
theorem apiKey_legitimate_iff :
    (∀ result, apiKeyAuthenticate credentials = .ok result →
      r.Legitimate X now credentials result.permissions .apiKey) ↔
      r.Presentable X now credentials .apiKey := by
  constructor
  · intro sound text given long
    obtain ⟨key, member, shown, may⟩ := sound ⟨true, none, some "api-user".toList, ["api".toList], ["read".toList, "write".toList], false, none⟩
      (by rw [apiKeyAuthenticate, given]; exact if_neg (Nat.not_lt_of_le long))
    rw [given, Option.some_inj] at shown
    exact ⟨key, member, shown.symm, may.symm⟩
  · intro presentable result done
    obtain ⟨text, given, long, rfl⟩ := apiKeyAuthenticate_ok done
    obtain ⟨key, member, rfl, may⟩ := presentable text given long
    exact ⟨key, member, given, may.symm⟩

/-- A signed token has one reading. -/
theorem signedClaims_unique {secret : Bytes} {claims claims' : Json} (one : SignedClaims X secret credentials claims)
    (other : SignedClaims X secret credentials claims') : claims = claims' := by
  obtain ⟨token, header, payload, signature, bytes, given, parts, -, decoded, parsed⟩ := one
  obtain ⟨token', header', payload', signature', bytes', given', parts', -, decoded', parsed'⟩ := other
  cases Option.some_inj.mp (given.symm.trans given')
  cases parts.symm.trans parts'
  cases Option.some_inj.mp (decoded.symm.trans decoded')
  exact Option.some_inj.mp (parsed.symm.trans parsed')

theorem jwtAuthenticate_signed {secret : Bytes} {claims : Json} (given : secret ≠ [])
    (signed : SignedClaims X secret credentials claims) :
    jwtAuthenticate X secret now credentials = claimsAuthenticate X now claims := by
  obtain ⟨token, header, payload, signature, bytes, shown, parts, right, decoded, parsed⟩ := signed
  simp [jwtAuthenticate, shown, given, parts, right, sign, decoded, parsed]

theorem asI64_some {exp : Json} {n : Int} (read : asI64 exp = some n) : exp = .int n := by
  cases exp with
  | int m =>
    rw [asI64] at read
    split at read
    · rw [Option.some_inj.mp read]
    · cases read
  | _ => cases read

/-- **The token provider** reads an expiry that is an integer of 64 bits. -/
theorem jwt_legitimate_iff {secret : Bytes} :
    (∀ result, jwtAuthenticate X secret now credentials = .ok result →
      r.Legitimate X now credentials result.permissions (.jwt secret)) ↔
      r.Presentable X now credentials (.jwt secret) := by
  constructor
  · intro sound claims signed given exp found noInt
    have accepted : ∃ result, claimsAuthenticate X now claims = .ok result := by
      rw [claimsAuthenticate, found, Option.bind_some, noInt]
      exact ⟨_, rfl⟩
    obtain ⟨result, accepted⟩ := accepted
    obtain ⟨claims', signed', future⟩ := sound result (by rw [jwtAuthenticate_signed given signed, accepted])
    exact future exp (signedClaims_unique signed signed' ▸ found)
  · intro presentable result done
    obtain ⟨token, header, payload, signature, bytes, claims, shown, parts, right, decoded, parsed, accepted⟩ :=
      jwtAuthenticate_ok done
    have given : secret ≠ [] := by
      rintro rfl
      rw [jwtAuthenticate, shown] at done
      cases done
    have signed : SignedClaims X secret credentials claims :=
      ⟨token, header, payload, signature, bytes, shown, parts, right, decoded, parsed⟩
    refine ⟨claims, signed, fun exp found => ?_⟩
    cases read : asI64 exp with
    | none => exact presentable claims signed given exp found read
    | some n =>
      rw [asI64_some read]
      exact decide_eq_true ((claimsAuthenticate_ok accepted).1 n (by rw [found, Option.bind_some, read]))

/-- **A call is sound exactly when what it presents is presentable.** -/
theorem sound_iff_clean (law : BcryptLaw X) (registered : r.Registered X) (event : Clock × AuthManager.Call) :
    r.Sound X config event ↔ r.Clean X event := by
  refine forall_congr' fun draw => forall_congr' fun name => forall_congr' fun credentials =>
    imp_congr_right fun _ => forall_congr' fun provider => imp_congr_right fun known => ?_
  rw [forall_authenticate registered known fun permissions =>
    r.Legitimate X (event.1.millis / 1000) credentials permissions provider]
  cases provider with
  | password => exact iff_of_true (fun result done => password_legitimate law registered done) trivial
  | apiKey => exact apiKey_legitimate_iff
  | jwt secret => exact jwt_legitimate_iff

end

/-- **Authentication is sound exactly in the runs that present no text of a key's length but
a live key, and no signed token that has expired by a number other than an integer.** -/
theorem sound_iff (X : Extern) (config : AuthConfig) (law : BcryptLaw X) (providers : List (Text × Provider))
    (events : List (Clock × AuthManager.Call)) :
    Run.Each (step X config) (Sound X config) (start providers) events ↔
      Run.Each (step X config) (Clean X) (start providers) events :=
  Run.Each.iff (I := Registered X) (fun _ _ registered => registered_step law registered)
    (fun _ event registered => sound_iff_clean law registered event) (registered_start providers) events

theorem bcryptLaw_sample : BcryptLaw sampleExtern := by
  intro salt cost password other
  change ("$2b$".toList ++ other == "$2b$".toList ++ password) = true ↔ _
  rw [beq_iff_eq, List.append_cancel_left_eq, eq_comm]

def keyProvider : List (Text × Provider) := [("keys".toList, .apiKey)]

/-- A text that was never given out. -/
def stranger : Clock × AuthManager.Call :=
  (⟨0, 0⟩, .authenticate ⟨0, 0, []⟩ "keys".toList [("api_key", "0123456789abcdef".toList)])

theorem sound_iff_sample :
    Run.Each (step sampleExtern {}) (Sound sampleExtern {}) (start keyProvider) [stranger] ↔
      Run.Each (step sampleExtern {}) (Clean sampleExtern) (start keyProvider) [stranger] :=
  sound_iff sampleExtern {} bcryptLaw_sample keyProvider [stranger]

/-- **Any text of 16 bytes is a key**, while none was given out. -/
theorem stranger_key :
    ¬ Run.Each (step sampleExtern {}) (Sound sampleExtern {}) (start keyProvider) [stranger] := by
  rintro ⟨sound, -⟩
  obtain ⟨key, member, -⟩ := sound _ _ _ rfl .apiKey rfl _ rfl
  cases member

end Registrar

end NovaRuntime.Auth
