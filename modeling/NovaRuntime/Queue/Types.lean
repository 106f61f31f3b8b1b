/-
# NovaRuntime.Queue.Types — messages, configurations and what is stored of them

`nova_queue::types` and `nova_queue::error`, as far as the backend uses them. Texts
are lists of characters; times are milliseconds, far from the ends of `i64`.

`Stored` is what the backend keeps under a key: the JSON of a configuration or of a
message, which is read back as it was written, or the empty value of an index entry.
`UuidText` holds the two functions of the `uuid` package the keys are made with, and
`UuidText.Laws` what its documentation says about them.
-/
import NovaRuntime.Library.KeyValue

namespace NovaRuntime.Queue

open NovaRuntime.Library

set_option autoImplicit false

abbrev Uuid := BitVec 128

instance lawfulBEq_uuid : LawfulBEq Uuid := inferInstance

/-- The variants of `QueueError` the backend builds; the text of `Internal` is the
one of the JSON parser. -/
inductive QueueError where
  | notFound (name : Text)
  | alreadyExists (name : Text)
  | messageNotFound (id : Text)
  | invalidReceiptHandle (receipt : Text)
  | queuePaused
  | internal
  deriving DecidableEq

/-! ## Messages -/

structure QueueMessage where
  id : Uuid
  queueName : Text
  body : Bytes
  delayUntil : Option Int
  enqueuedAt : Int
  visibleAt : Int
  visibilityTimeoutSecs : UInt32
  receiptHandle : Option Text
  attemptCount : UInt32
  maxReceives : UInt32
  expiresAt : Option Int
  deriving DecidableEq

namespace QueueMessage

/-- `QueueMessage::new` with the identifier it draws and the time it reads. -/
def new (id : Uuid) (now : Int) (queueName : Text) (body : Bytes) : QueueMessage where
  id
  queueName
  body
  delayUntil := none
  enqueuedAt := now
  visibleAt := now
  visibilityTimeoutSecs := 30
  receiptHandle := none
  attemptCount := 0
  maxReceives := 3
  expiresAt := some (now + 86400000)

def isVisible (m : QueueMessage) (now : Int) : Bool :=
  m.visibleAt ≤ now && (m.expiresAt.map fun e => decide (e > now)).getD true

def hasExpired (m : QueueMessage) (now : Int) : Bool :=
  (m.expiresAt.map fun e => decide (e ≤ now)).getD false

def markReceived (m : QueueMessage) (now : Int) (receipt : Text) : QueueMessage :=
  { m with
    attemptCount := m.attemptCount + 1
    receiptHandle := some receipt
    visibleAt := now + m.visibilityTimeoutSecs.toNat * 1000 }

/-- A visible message has not expired. -/
theorem hasExpired_of_isVisible {m : QueueMessage} {now : Int} (visible : m.isVisible now = true) :
    m.hasExpired now = false := by
  rw [isVisible, Bool.and_eq_true] at visible
  rw [hasExpired]
  cases expires : m.expiresAt with
  | none => rfl
  | some e =>
    rw [expires] at visible
    simpa using visible.2

end QueueMessage

structure IndividualQueueConfig where
  name : Text
  dlqName : Option Text
  updatedAt : Int
  paused : Bool
  deriving DecidableEq

def IndividualQueueConfig.new (now : Int) (name : Text) : IndividualQueueConfig where
  name
  dlqName := none
  updatedAt := now
  paused := false

structure QueueStats where
  availableMessages : Nat
  inFlightMessages : Nat
  delayedMessages : Nat
  totalMessages : Nat
  dlqMessages : Nat
  deriving DecidableEq

/-- A value of the store. -/
inductive Stored where
  | config (config : IndividualQueueConfig)
  | message (message : QueueMessage)
  | empty
  deriving DecidableEq

/-! ## Identifiers as text -/

/-- `Display` and `parse_str` of the `uuid` package. -/
structure UuidText where
  display : Uuid → Text
  parseStr : Bytes → Option Uuid

/-- The text of an identifier has no colon and is parsed back; a longer text that ends
in a colon and an identifier can only be the URN of it. -/
structure UuidText.Laws (U : UuidText) : Prop where
  parse_display : ∀ id, U.parseStr (utf8 (U.display id)) = some id
  no_colon : ∀ id, ':' ∉ U.display id
  urn : ∀ t id id', U.parseStr (utf8 (t ++ ':' :: U.display id)) = some id' → id' = id

theorem UuidText.Laws.display_injective {U : UuidText} (laws : U.Laws) :
    Function.Injective U.display := by
  intro id id' same
  have parsed := laws.parse_display id
  rw [same, laws.parse_display] at parsed
  exact (Option.some.inj parsed).symm

/-! ### A concrete instance -/

def hexChar (digit : Nat) : Char := Char.ofNat (if digit < 10 then 48 + digit else 87 + digit)

/-- The lowest `k` hexadecimal digits, highest first. -/
def hexDigits : Nat → Nat → List Nat
  | 0, _ => []
  | k + 1, n => hexDigits k (n / 16) ++ [n % 16]

def hexValue (b : UInt8) : Nat := if b.toNat < 58 then b.toNat - 48 else b.toNat - 87

def ofHex (bytes : Bytes) : Nat := bytes.foldl (fun n b => n * 16 + hexValue b) 0

/-- Hyphens after the digits 8, 12, 16 and 20. -/
def hyphenate (digits : Text) : Text :=
  digits.take 8 ++ '-' :: ((digits.drop 8).take 4 ++ '-' :: ((digits.drop 12).take 4 ++ '-' ::
    ((digits.drop 16).take 4 ++ '-' :: digits.drop 20)))

def displayUuid (id : Uuid) : Text := hyphenate ((hexDigits 32 id.toNat).map hexChar)

/-- The identifier the bytes are the text of. -/
def parseUuid (bytes : Bytes) : Option Uuid :=
  let id := BitVec.ofNat 128 (ofHex (bytes.filter (· ≠ 0x2D)))
  if utf8 (displayUuid id) = bytes then some id else none

def urnPrefix : Text := ['u', 'r', 'n', ':', 'u', 'u', 'i', 'd', ':']

/-- Hyphenated lower-case hexadecimal digits, read back also behind `urn:uuid:`. -/
def UuidText.hyphenated : UuidText where
  display := displayUuid
  parseStr bytes :=
    if utf8 urnPrefix <+: bytes then parseUuid (bytes.drop urnPrefix.length) else parseUuid bytes

example : displayUuid 0x10 = "00000000-0000-0000-0000-000000000010".toList := by decide +kernel

theorem hexDigits_lt {k n d : Nat} (member : d ∈ hexDigits k n) : d < 16 := by
  induction k generalizing n with
  | zero => cases member
  | succ k ih =>
    rcases List.mem_append.mp member with high | low
    · exact ih high
    · rw [List.mem_singleton.mp low]
      exact Nat.mod_lt _ (by decide)

/-- What a digit is written as: one byte, neither a hyphen nor a colon. -/
theorem hexChar_spec {d : Nat} (small : d < 16) :
    utf8 [hexChar d] = [UInt8.ofNat (if d < 10 then 48 + d else 87 + d)] ∧
      hexValue (UInt8.ofNat (if d < 10 then 48 + d else 87 + d)) = d ∧
      UInt8.ofNat (if d < 10 then 48 + d else 87 + d) ≠ 0x2D ∧ hexChar d ≠ ':' := by
  revert d
  decide

theorem ofHex_hexDigits (k n : Nat) : ofHex (utf8 ((hexDigits k n).map hexChar)) = n % 16 ^ k := by
  induction k generalizing n with
  | zero => simp [hexDigits, ofHex, Nat.mod_one]
  | succ k ih =>
    have digit := hexChar_spec (Nat.mod_lt n (show 16 > 0 by decide))
    rw [hexDigits, List.map_append, List.map_singleton, utf8_append, digit.1, ofHex,
      List.foldl_append, List.foldl_cons, List.foldl_nil, digit.2.1]
    change ofHex _ * 16 + _ = _
    rw [ih, Nat.pow_succ, Nat.mul_comm (16 ^ k), Nat.mod_mul, Nat.mul_comm 16, Nat.add_comm]

/-- Without its hyphens, the hyphenated text is the digits. -/
theorem filter_utf8_hyphenate (ds : List Nat) (small : ∀ d ∈ ds, d < 16) :
    (utf8 (hyphenate (ds.map hexChar))).filter (· ≠ 0x2D) = utf8 (ds.map hexChar) := by
  have kept : ∀ es : List Nat, (∀ d ∈ es, d < 16) →
      (utf8 (es.map hexChar)).filter (· ≠ 0x2D) = utf8 (es.map hexChar) := by
    intro es small
    rw [List.filter_eq_self]
    intro b member
    obtain ⟨c, inText, inChar⟩ := List.mem_flatMap.mp member
    obtain ⟨d, inDigits, rfl⟩ := List.mem_map.mp inText
    have spec := hexChar_spec (small d inDigits)
    have bytes : String.utf8EncodeChar (hexChar d) = utf8 [hexChar d] := by simp [utf8]
    rw [bytes, spec.1, List.mem_singleton] at inChar
    simpa [inChar] using spec.2.2.1
  have hyphen : String.utf8EncodeChar '-' = [0x2D] := by decide
  have sub : ∀ (es : List Nat), es ⊆ ds → ∀ d ∈ es, d < 16 := fun es inside d member =>
    small d (inside member)
  simp only [hyphenate, ← List.map_take, ← List.map_drop, utf8_append, utf8_cons, hyphen,
    List.filter_append]
  rw [kept _ (sub _ (List.take_subset ..)),
    kept _ (sub _ (List.Subset.trans (List.take_subset ..) (List.drop_subset ..))),
    kept _ (sub _ (List.Subset.trans (List.take_subset ..) (List.drop_subset ..))),
    kept _ (sub _ (List.Subset.trans (List.take_subset ..) (List.drop_subset ..))),
    kept _ (sub _ (List.drop_subset ..))]
  simp only [List.filter_cons_of_neg, List.filter_nil, ne_eq, not_true_eq_false, decide_false,
    Bool.false_eq_true, not_false_eq_true, List.nil_append]
  simp only [← utf8_append, ← List.map_append]
  congr 2
  have step : ∀ a b : Nat, (ds.drop a).take b ++ ds.drop (a + b) = ds.drop a := by
    intro a b
    rw [← List.drop_drop, List.take_append_drop]
  rw [step 16 4, step 12 4, step 8 4, List.take_append_drop]

theorem parseUuid_displayUuid (id : Uuid) : parseUuid (utf8 (displayUuid id)) = some id := by
  have value : BitVec.ofNat 128 (ofHex ((utf8 (displayUuid id)).filter (· ≠ 0x2D))) = id := by
    rw [displayUuid, filter_utf8_hyphenate _ fun d => hexDigits_lt, ofHex_hexDigits]
    have small : id.toNat < 16 ^ 32 := id.isLt
    rw [Nat.mod_eq_of_lt small]
    exact BitVec.eq_of_toNat_eq (by simp)
  rw [parseUuid, value]
  simp

theorem parseUuid_eq_some {t : Text} {id : Uuid} (parsed : parseUuid (utf8 t) = some id) :
    displayUuid id = t := by
  rw [parseUuid] at parsed
  split at parsed
  · rename_i same
    rw [← Option.some.inj parsed]
    exact utf8_injective same
  · cases parsed

theorem colon_not_mem_displayUuid (id : Uuid) : ':' ∉ displayUuid id := by
  have digits : ∀ c ∈ (hexDigits 32 id.toNat).map hexChar, c ≠ ':' := by
    intro c member
    obtain ⟨d, inDigits, rfl⟩ := List.mem_map.mp member
    exact (hexChar_spec (hexDigits_lt inDigits)).2.2.2
  intro member
  simp only [displayUuid, hyphenate, List.mem_append, List.mem_cons] at member
  have hyphen : ':' ≠ '-' := by decide
  rcases member with h | h | h | h | h | h | h | h | h
  · exact digits _ (List.mem_of_mem_take h) rfl
  · exact hyphen h
  · exact digits _ (List.mem_of_mem_drop (List.mem_of_mem_take h)) rfl
  · exact hyphen h
  · exact digits _ (List.mem_of_mem_drop (List.mem_of_mem_take h)) rfl
  · exact hyphen h
  · exact digits _ (List.mem_of_mem_drop (List.mem_of_mem_take h)) rfl
  · exact hyphen h
  · exact digits _ (List.mem_of_mem_drop h) rfl

theorem UuidText.laws_hyphenated : UuidText.hyphenated.Laws where
  parse_display id := by
    have plain : ¬ utf8 urnPrefix <+: utf8 (displayUuid id) := fun isUrn =>
      colon_not_mem_displayUuid id ((utf8_prefix_iff.mp isUrn).subset (by decide))
    simp only [hyphenated, if_neg plain]
    exact parseUuid_displayUuid id
  no_colon := colon_not_mem_displayUuid
  urn t id id' parsed := by
    simp only [hyphenated] at parsed
    split at parsed
    · rename_i isUrn
      obtain ⟨rest, same⟩ := utf8_prefix_iff.mp isUrn
      have dropped : (utf8 (t ++ ':' :: displayUuid id)).drop urnPrefix.length = utf8 rest := by
        have width : urnPrefix.length = (utf8 urnPrefix).length := by decide
        rw [← same, utf8_append, width, List.drop_left]
      rw [dropped] at parsed
      have isRest := parseUuid_eq_some parsed
      have urn : urnPrefix = ['u', 'r', 'n', ':', 'u', 'u', 'i', 'd'] ++ [':'] := rfl
      rw [← isRest, urn, List.append_assoc, List.singleton_append, append_sep_inj_right
        (colon_not_mem_displayUuid id') (colon_not_mem_displayUuid id)] at same
      have text := congrArg utf8 same.2
      have parsed' := parseUuid_displayUuid id'
      rw [text, parseUuid_displayUuid] at parsed'
      exact (Option.some.inj parsed').symm
    · have whole := parseUuid_eq_some parsed
      have colon : ':' ∈ displayUuid id' := by
        rw [whole]
        exact List.mem_append_right _ (.head _)
      exact absurd colon (colon_not_mem_displayUuid id')

end NovaRuntime.Queue
