/-
# NovaRuntime.Auth.PasswordPolicy — the two validators of a password

`validate_password` of `types.rs` takes the length and the counts as `u8`, `validate_with_details` of
`password_policy.rs` as `usize`. They agree, and mean the limits of the configuration, on a password of at most
255 bytes, and on a longer one that the wrapped counts reject as well (`validators_agree_iff`).
-/
import Mathlib.Data.List.Infix
import NovaRuntime.Auth.Types

namespace NovaRuntime.Auth

open NovaRuntime.Library

set_option autoImplicit false

/-- The fields of `AuthConfig` about passwords. -/
structure PasswordConfig extends AuthConfig where
  passwordMinLength : UInt8 := 8
  passwordMaxLength : UInt8 := 128
  passwordMinLowercase : UInt8 := 1
  passwordMinUppercase : UInt8 := 1
  passwordMinDigits : UInt8 := 1
  passwordMinSpecial : UInt8 := 0

/-- What Unicode says of characters. -/
structure CharClasses where
  isLowercase : Char → Bool
  isUppercase : Char → Bool
  isAlphanumeric : Char → Bool
  toLowercase : Text → Text

/-! ## The code -/

/-- `errors.push` under a condition. -/
def pushIf (failed : Bool) (message : Text) : List Text := if failed then [message] else []

def display (n : UInt8) : Text := Nat.toDigits 10 n.toNat

variable (C : CharClasses) (password : Text) (config : PasswordConfig)

def lowercaseCount : Nat := password.countP C.isLowercase

def uppercaseCount : Nat := password.countP C.isUppercase

def digitCount : Nat := password.countP Char.isDigit

def specialCount : Nat := password.countP fun c => ! C.isAlphanumeric c

def validatePassword : Except (List Text) Unit :=
  let len := UInt8.ofNat (utf8 password).length
  let lowercase := UInt8.ofNat (lowercaseCount C password)
  let uppercase := UInt8.ofNat (uppercaseCount C password)
  let digits := UInt8.ofNat (digitCount password)
  let special := UInt8.ofNat (specialCount C password)
  let atLeast (n : UInt8) (what : String) := "Password must have at least ".toList ++ display n ++ what.toList
  let errors :=
    pushIf (len < config.passwordMinLength)
      ("Password must be at least ".toList ++ display config.passwordMinLength ++ " characters".toList) ++
    pushIf (config.passwordMaxLength < len)
      ("Password must be at most ".toList ++ display config.passwordMaxLength ++ " characters".toList) ++
    pushIf (lowercase < config.passwordMinLowercase) (atLeast config.passwordMinLowercase " lowercase character(s)") ++
    pushIf (uppercase < config.passwordMinUppercase) (atLeast config.passwordMinUppercase " uppercase character(s)") ++
    pushIf (digits < config.passwordMinDigits) (atLeast config.passwordMinDigits " digit(s)") ++
    pushIf (special < config.passwordMinSpecial) (atLeast config.passwordMinSpecial " special character(s)")
  if errors.isEmpty then .ok () else .error errors

/-- A rule of the policy engine, with its message. -/
structure PolicyRule where
  failed : Bool
  message : Text

/-- The rules about the length and the classes of characters. -/
def policyRules : List PolicyRule :=
  let len := (utf8 password).length
  let contain (n : UInt8) (what : String) := "Password must contain at least ".toList ++ display n ++ what.toList
  [ ⟨len < config.passwordMinLength.toNat,
      "Password must be at least ".toList ++ display config.passwordMinLength ++ " characters long".toList⟩,
    ⟨config.passwordMaxLength.toNat < len,
      "Password must be at most ".toList ++ display config.passwordMaxLength ++ " characters long".toList⟩,
    ⟨lowercaseCount C password < config.passwordMinLowercase.toNat,
      contain config.passwordMinLowercase " lowercase character(s)"⟩,
    ⟨uppercaseCount C password < config.passwordMinUppercase.toNat,
      contain config.passwordMinUppercase " uppercase character(s)"⟩,
    ⟨digitCount password < config.passwordMinDigits.toNat, contain config.passwordMinDigits " digit(s)"⟩,
    ⟨specialCount C password < config.passwordMinSpecial.toNat,
      contain config.passwordMinSpecial " special character(s)"⟩ ]

/-- The rules about common patterns. -/
def patternRules : List PolicyRule :=
  [ ⟨"password".toList <:+: C.toLowercase password, "Password must not contain the word 'password'".toList⟩,
    ⟨password.all Char.isDigit, "Password must not be entirely numeric".toList⟩ ]

def validateWithDetails : List Text :=
  (policyRules C password config ++ patternRules C password).flatMap fun rule => pushIf rule.failed rule.message

/-! ## What the limits say -/

/-- The length of a password in bytes, and how many characters of each class it has. -/
structure Counts where
  length : Nat
  lowercase : Nat
  uppercase : Nat
  digits : Nat
  special : Nat
  deriving DecidableEq

def countsOf : Counts :=
  ⟨(utf8 password).length, lowercaseCount C password, uppercaseCount C password, digitCount password,
    specialCount C password⟩

/-- The counts as `u8`. -/
def Counts.wrapped (n : Counts) : Counts :=
  ⟨n.length % 256, n.lowercase % 256, n.uppercase % 256, n.digits % 256, n.special % 256⟩

/-- Between the lengths, and enough of each class. -/
structure Within (n : Counts) : Prop where
  long : config.passwordMinLength.toNat ≤ n.length
  short : n.length ≤ config.passwordMaxLength.toNat
  lowercase : config.passwordMinLowercase.toNat ≤ n.lowercase
  uppercase : config.passwordMinUppercase.toNat ≤ n.uppercase
  digits : config.passwordMinDigits.toNat ≤ n.digits
  special : config.passwordMinSpecial.toNat ≤ n.special

/-- No message is about the length or a class of characters. -/
def NoPolicyError : Prop :=
  ∀ error ∈ validateWithDetails C password config, ∀ rule ∈ policyRules C password config, error ≠ rule.message

/-- **The validators agree**, and accept what is within the limits. -/
structure Agree : Prop where
  same : validatePassword C password config = .ok () ↔ NoPolicyError C password config
  within : validatePassword C password config = .ok () → Within config (countsOf C password)

variable {C password config}

theorem pushIf_eq_nil {failed : Bool} {message : Text} : pushIf failed message = [] ↔ failed = false := by
  cases failed <;> simp [pushIf]

theorem validatePassword_iff :
    validatePassword C password config = .ok () ↔ Within config (countsOf C password).wrapped := by
  have verdict (errors : List Text) :
      (if errors.isEmpty then .ok () else .error errors : Except (List Text) Unit) = .ok () ↔ errors = [] := by
    cases errors <;> simp
  rw [validatePassword, verdict]
  simp only [List.append_eq_nil_iff, pushIf_eq_nil, decide_eq_false_iff_not, UInt8.lt_iff_toNat_lt, UInt8.toNat_ofNat',
    Nat.not_lt, countsOf, Counts.wrapped]
  exact ⟨fun ⟨⟨⟨⟨⟨a, b⟩, c⟩, d⟩, e⟩, f⟩ => ⟨a, b, c, d, e, f⟩, fun ⟨a, b, c, d, e, f⟩ => ⟨⟨⟨⟨⟨a, b⟩, c⟩, d⟩, e⟩, f⟩⟩

theorem patternRules_message {rule pattern : PolicyRule} (isRule : rule ∈ policyRules C password config)
    (isPattern : pattern ∈ patternRules C password) : pattern.message ≠ rule.message := by
  have read {l a b : Text} : ((String.ofList l).toList ++ a ++ b)[14]? = (l ++ a ++ b)[14]? := by
    rw [String.toList_ofList]
  have letter : rule.message[14]? = some 'b' ∨ rule.message[14]? = some 'c' := by
    simp only [policyRules, List.mem_cons, List.not_mem_nil, or_false] at isRule
    rcases isRule with rfl | rfl | rfl | rfl | rfl | rfl <;> first | exact .inl (read.trans rfl) | exact .inr (read.trans rfl)
  have other : pattern.message[14]? = some 'n' := by
    simp only [patternRules, List.mem_cons, List.not_mem_nil, or_false] at isPattern
    rcases isPattern with rfl | rfl <;> exact (congrArg (·[14]?) String.toList_ofList).trans rfl
  intro same
  rw [← same, other] at letter
  exact absurd letter (by decide)

theorem noPolicyError_iff : NoPolicyError C password config ↔ Within config (countsOf C password) := by
  have quiet : NoPolicyError C password config ↔ ∀ rule ∈ policyRules C password config, rule.failed = false := by
    simp only [NoPolicyError, validateWithDetails, List.mem_flatMap, List.mem_append]
    constructor
    · intro none rule isRule
      by_contra failed
      exact none rule.message ⟨rule, .inl isRule, by simp [pushIf, failed]⟩ rule isRule rfl
    · rintro passes error ⟨source, isRule | isPattern, said⟩ rule isRule' same
      · rw [passes source isRule] at said
        cases said
      · have from' : error = source.message := by
          cases here : source.failed <;> simp [pushIf, here] at said
          exact said
        exact patternRules_message isRule' isPattern (from' ▸ same)
  rw [quiet]
  simp only [policyRules, List.forall_mem_cons, decide_eq_false_iff_not, Nat.not_lt, countsOf]
  exact ⟨fun ⟨a, b, c, d, e, f, _⟩ => ⟨a, b, c, d, e, f⟩, fun ⟨a, b, c, d, e, f⟩ => ⟨a, b, c, d, e, f, nofun⟩⟩

theorem length_le_utf8 (t : Text) : t.length ≤ (utf8 t).length := by
  induction t with
  | nil => exact le_refl 0
  | cons c t ih =>
    rw [utf8_cons, List.length_append, List.length_cons, Nat.add_comm]
    exact Nat.add_le_add (List.length_pos_iff.mpr String.utf8EncodeChar_ne_nil) ih

/-- **When the validators agree**: on every password of at most 255 bytes; a longer one has to be rejected for its
counts modulo 256 too. -/
theorem validators_agree_iff (C : CharClasses) (password : Text) (config : PasswordConfig) :
    Agree C password config ↔
      (utf8 password).length < 256 ∨ ¬ Within config (countsOf C password).wrapped := by
  have count (p : Char → Bool) : password.countP p ≤ (utf8 password).length :=
    List.countP_le_length.trans (length_le_utf8 password)
  have tooLong (long : 256 ≤ (utf8 password).length) : ¬ Within config (countsOf C password) := fun within =>
    absurd (long.trans within.short) (Nat.not_le.mpr config.passwordMaxLength.toNat_lt)
  by_cases short : (utf8 password).length < 256
  · have exactly : (countsOf C password).wrapped = countsOf C password := by
      simp only [countsOf, Counts.wrapped, lowercaseCount, uppercaseCount, digitCount, specialCount,
        Nat.mod_eq_of_lt ((count _).trans_lt short), Nat.mod_eq_of_lt short]
    have accepts : validatePassword C password config = .ok () ↔ Within config (countsOf C password) := by
      rw [validatePassword_iff, exactly]
    exact iff_of_true ⟨accepts.trans noPolicyError_iff.symm, accepts.mp⟩ (.inl short)
  · have outside := tooLong (Nat.not_lt.mp short)
    rw [or_iff_right short, ← validatePassword_iff]
    constructor
    · exact fun agree ok => outside (agree.within ok)
    · exact fun rejected => ⟨iff_of_false rejected (mt noPolicyError_iff.mp outside), fun ok => absurd ok rejected⟩

def CharClasses.ascii : CharClasses :=
  ⟨Char.isLower, Char.isUpper, Char.isAlphanum, fun t => t.map Char.toLower⟩

/-- 264 letters, of which eight are counted, pass for eight. -/
theorem long_password_accepted :
    ¬ Agree CharClasses.ascii ('A' :: '1' :: List.replicate 262 'a') {} := by
  intro agree
  have accepted : validatePassword CharClasses.ascii ('A' :: '1' :: List.replicate 262 'a') {} = .ok () :=
    validatePassword_iff.mpr ⟨by decide +kernel, by decide +kernel, by decide +kernel, by decide +kernel, by decide +kernel,
      by decide +kernel⟩
  exact absurd (agree.within accepted).short (by decide +kernel)

end NovaRuntime.Auth
