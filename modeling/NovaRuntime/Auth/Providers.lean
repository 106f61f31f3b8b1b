/-
# NovaRuntime.Auth.Providers — the three providers of credentials

`nova_auth::providers`. A provider reads the credentials of a call and says who the caller
is, or fails. It never returns a result that says it did not succeed
(`authenticate_success`).
-/
import NovaRuntime.Auth.Types

namespace NovaRuntime.Auth

open NovaRuntime.Library

set_option autoImplicit false

/-- What a provider returns; the other fields of `AuthResult` are filled in by the manager. -/
structure ProviderResult where
  success : Bool
  userId : Option Uuid
  username : Option Text
  roles : List Text
  permissions : List Text
  mfaRequired : Bool
  errorMessage : Option Text
  deriving DecidableEq

/-! ## Passwords -/

/-- `hash_password`: a cost of zero stands for the default. -/
def hashPassword (X : Extern) (salt : Bytes) (cost : Nat) (password : Text) : Text :=
  X.bcryptHash salt (if cost = 0 then 12 else cost) password

/-- `PasswordProvider::authenticate`. -/
def passwordAuthenticate (X : Extern) (users : List UserRecord) (credentials : Credentials) :
    Except AuthError ProviderResult :=
  match credentials.get "username" with
  | none => .error (.invalidCredentials "missing username".toList)
  | some username =>
    match credentials.get "password" with
    | none => .error (.invalidCredentials "missing password".toList)
    | some password =>
      match users.find? fun u => u.username == username with
      | none => .error (.invalidCredentials "invalid username or password".toList)
      | some user =>
        if X.bcryptVerify password user.passwordHash then
          .ok ⟨true, some user.id, some username, user.roles, [['*']], false, none⟩
        else .error (.invalidCredentials "invalid username or password".toList)

/-! ## API keys -/

/-- `ApiKeyProvider::authenticate` looks at the length of the key, in bytes. -/
def apiKeyAuthenticate (credentials : Credentials) : Except AuthError ProviderResult :=
  match credentials.get "api_key" with
  | none => .error (.invalidCredentials "missing api_key".toList)
  | some apiKey =>
    if (utf8 apiKey).length < 16 then .error (.invalidCredentials "invalid API key".toList)
    else .ok ⟨true, none, some "api-user".toList, ["api".toList], ["read".toList, "write".toList], false, none⟩

/-! ## Tokens -/

/-- `split(c)`. -/
def splitOn (c : Char) : Text → List Text
  | [] => [[]]
  | x :: t =>
    if x = c then [] :: splitOn c t
    else
      match splitOn c t with
      | [] => [[x]]
      | part :: parts => (x :: part) :: parts

/-- `trim_end_matches(c)`. -/
def trimEnd (c : Char) (t : Text) : Text := (t.reverse.dropWhile (· == c)).reverse

/-- HMAC with SHA-256, for blocks of 64 bytes. -/
def hmacSha256 (X : Extern) (secret data : Bytes) : Bytes :=
  let key := ((if secret.length > 64 then X.sha256 secret else secret) ++ List.replicate 64 0).take 64
  X.sha256 (key.map (· ^^^ 0x5C) ++ X.sha256 (key.map (· ^^^ 0x36) ++ data))

/-- `JwtProvider::sign`. -/
def sign (X : Extern) (secret : Bytes) (header payload : Text) : Text :=
  X.base64Url (hmacSha256 X secret (utf8 (header ++ '.' :: payload)))

/-- `as_i64`: a number that is an integer of 64 bits. -/
def asI64 : Json → Option Int
  | .int n => if -9223372036854775808 ≤ n ∧ n ≤ 9223372036854775807 then some n else none
  | _ => none

/-- The claims of a token whose signature is right. -/
def claimsAuthenticate (X : Extern) (now : Int) (claims : Json) : Except AuthError ProviderResult :=
  if ((claims.member "exp").bind asI64).any fun exp => exp ≤ now then
    .error (.tokenExpired "JWT expired".toList)
  else
    .ok {
      success := true
      userId := ((claims.member "uid").bind Json.asText).bind X.parseUuid
      username := (claims.member "sub").bind Json.asText
      roles :=
        match claims.member "roles" with
        | some (.arr items) => items.filterMap Json.asText
        | _ => []
      permissions := ["read".toList, "write".toList]
      mfaRequired := false
      errorMessage := none }

/-- `JwtProvider::authenticate`; `now` is in seconds. -/
def jwtAuthenticate (X : Extern) (secret : Bytes) (now : Int) (credentials : Credentials) :
    Except AuthError ProviderResult :=
  match credentials.get "token" with
  | none => .error (.invalidCredentials "missing token".toList)
  | some token =>
    if secret.isEmpty then
      .error (.tokenInvalid "JWT provider has no signing secret configured".toList)
    else
      match splitOn '.' token with
      | [header, payload, signature] =>
        if trimEnd '=' signature ≠ sign X secret header payload then
          .error (.tokenInvalid "invalid JWT signature".toList)
        else
          match X.base64UrlDecode payload with
          | none => .error (.tokenInvalid "invalid JWT payload encoding".toList)
          | some bytes =>
            match X.parseJson bytes with
            | none => .error (.tokenInvalid "invalid JWT payload".toList)
            | some claims => claimsAuthenticate X now claims
      | _ => .error (.tokenInvalid "malformed JWT".toList)

/-! ## The three of them -/

inductive Provider where
  | password
  | apiKey
  | jwt (secret : Bytes)
  deriving DecidableEq

/-- `AuthProvider::authenticate`; the password provider reads the users of the manager. -/
def Provider.authenticate (X : Extern) (users : List UserRecord) (now : Int) (credentials : Credentials) :
    Provider → Except AuthError ProviderResult
  | .password => passwordAuthenticate X users credentials
  | .apiKey => apiKeyAuthenticate credentials
  | .jwt secret => jwtAuthenticate X secret now credentials

section

variable {X : Extern} {users : List UserRecord} {now : Int} {credentials : Credentials} {result : ProviderResult}

/-- **Who authenticates by a password** is a user, with a password that verifies. -/
theorem passwordAuthenticate_ok (done : passwordAuthenticate X users credentials = .ok result) :
    ∃ username password user, credentials.get "username" = some username ∧
      credentials.get "password" = some password ∧ users.find? (fun u => u.username == username) = some user ∧
      X.bcryptVerify password user.passwordHash ∧
      result = ⟨true, some user.id, some username, user.roles, [['*']], false, none⟩ := by
  unfold passwordAuthenticate at done
  split at done
  · cases done
  next username named =>
    split at done
    · cases done
    next password given =>
      split at done
      · cases done
      next user found =>
        split at done
        next verified =>
          cases done
          exact ⟨username, password, user, named, given, found, verified, rfl⟩
        next => cases done

theorem apiKeyAuthenticate_ok (done : apiKeyAuthenticate credentials = .ok result) :
    ∃ apiKey, credentials.get "api_key" = some apiKey ∧ 16 ≤ (utf8 apiKey).length ∧
      result = ⟨true, none, some "api-user".toList, ["api".toList], ["read".toList, "write".toList], false, none⟩ := by
  unfold apiKeyAuthenticate at done
  split at done
  · cases done
  next apiKey given =>
    split at done
    · cases done
    next long =>
      cases done
      exact ⟨apiKey, given, Nat.le_of_not_lt long, rfl⟩

theorem claimsAuthenticate_ok {claims : Json} (done : claimsAuthenticate X now claims = .ok result) :
    (∀ exp, (claims.member "exp").bind asI64 = some exp → now < exp) ∧ result.success ∧ result.mfaRequired = false := by
  unfold claimsAuthenticate at done
  split at done
  · cases done
  next live =>
    cases done
    refine ⟨fun exp found => ?_, rfl, rfl⟩
    rw [found, Option.any_some, decide_eq_true_eq] at live
    exact Int.lt_of_not_ge live

/-- A token is accepted for its signature and for its claims. -/
theorem jwtAuthenticate_ok {secret : Bytes} (done : jwtAuthenticate X secret now credentials = .ok result) :
    ∃ token header payload signature bytes claims, credentials.get "token" = some token ∧
      splitOn '.' token = [header, payload, signature] ∧ trimEnd '=' signature = sign X secret header payload ∧
      X.base64UrlDecode payload = some bytes ∧ X.parseJson bytes = some claims ∧
      claimsAuthenticate X now claims = .ok result := by
  unfold jwtAuthenticate at done
  split at done
  · cases done
  next token given =>
    split at done
    · cases done
    next =>
      split at done
      next header payload signature parts =>
        split at done
        · cases done
        next signed =>
          split at done
          · cases done
          next bytes decoded =>
            split at done
            · cases done
            next claims parsed =>
              exact ⟨token, header, payload, signature, bytes, claims, given, parts, not_not.mp signed, decoded,
                parsed, done⟩
      next => cases done

/-- **A provider that returns a result says success**, and asks for no second factor. -/
theorem authenticate_success (provider : Provider)
    (done : provider.authenticate X users now credentials = .ok result) :
    result.success ∧ result.mfaRequired = false := by
  cases provider with
  | password =>
    obtain ⟨_, _, _, -, -, -, -, rfl⟩ := passwordAuthenticate_ok done
    exact ⟨rfl, rfl⟩
  | apiKey =>
    obtain ⟨_, -, -, rfl⟩ := apiKeyAuthenticate_ok done
    exact ⟨rfl, rfl⟩
  | jwt secret =>
    obtain ⟨_, _, _, _, _, _, -, -, -, -, -, accepted⟩ := jwtAuthenticate_ok done
    exact (claimsAuthenticate_ok accepted).2

end

/-- Passwords in the clear and one byte a character, for samples. -/
def sampleExtern : Extern where
  sha256 bytes := bytes
  bcryptHash _ _ password := "$2b$".toList ++ password
  bcryptVerify password passwordHash := passwordHash == "$2b$".toList ++ password
  base64Url bytes := bytes.map fun b => Char.ofNat b.toNat
  base64UrlDecode t := some (t.map fun c => UInt8.ofNat c.toNat)
  base64Standard bytes := bytes.map fun b => Char.ofNat b.toNat
  parseJson _ := none
  parseUuid _ := none

end NovaRuntime.Auth
