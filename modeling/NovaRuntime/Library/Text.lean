/-
# NovaRuntime.Library.Text — text, its UTF-8 bytes, and keys made of it

A text is a list of Unicode scalar values, `utf8` its bytes. The encoding is prefix
free character by character, so a prefix of the bytes is a prefix of the text
(`utf8_prefix_iff`), and no byte of it is `0xFF`. A range that starts at a string and
ends behind `0xFF` appended to it therefore holds exactly the keys with that prefix
(`mem_prefixRange`).

Keys that join texts with a separator can be taken apart at the separator where one
of the two sides is free of it (`append_sep_inj_left`, `append_sep_inj_right`).
-/
import NovaRuntime.Library.Entries
import Mathlib.Data.List.Basic

namespace NovaRuntime.Library

set_option autoImplicit false

abbrev Text := List Char

/-- `char::is_whitespace`, the `White_Space` of Unicode. -/
def isWhitespace (c : Char) : Bool :=
  let n := c.toNat
  (9 ≤ n && n ≤ 13) || n == 32 || n == 0x85 || n == 0xA0 || n == 0x1680 ||
    (0x2000 ≤ n && n ≤ 0x200A) || n == 0x2028 || n == 0x2029 || n == 0x202F || n == 0x205F ||
    n == 0x3000

/-! ## The encoding -/

def utf8 (t : Text) : Bytes := t.flatMap String.utf8EncodeChar

@[simp] theorem utf8_nil : utf8 [] = [] := rfl

theorem utf8_cons (c : Char) (t : Text) : utf8 (c :: t) = String.utf8EncodeChar c ++ utf8 t := rfl

theorem utf8_append (a b : Text) : utf8 (a ++ b) = utf8 a ++ utf8 b := List.flatMap_append

theorem utf8_ofList (t : Text) : utf8 (String.ofList t).toList = utf8 t := congrArg utf8 String.toList_ofList

/-- The first character can be read off the bytes. -/
theorem utf8EncodeChar_append_inj {c d : Char} {x y : Bytes}
    (same : String.utf8EncodeChar c ++ x = String.utf8EncodeChar d ++ y) : c = d ∧ x = y := by
  have decoded : ∀ (e : Char) (z : Bytes),
      ByteArray.utf8DecodeChar? (String.utf8EncodeChar e ++ z).toByteArray 0 = some e := by
    intro e z
    rw [List.toByteArray_append]
    exact ByteArray.utf8DecodeChar?_utf8EncodeChar_append
  have first : c = d := by
    have := decoded c x
    rw [same, decoded d y] at this
    exact (Option.some.inj this).symm
  subst first
  exact ⟨rfl, List.append_cancel_left same⟩

/-- A prefix of the bytes that is itself text is a prefix of the text. -/
theorem utf8_prefix_iff {a b : Text} : utf8 a <+: utf8 b ↔ a <+: b := by
  constructor
  · induction a generalizing b with
    | nil => exact fun _ => List.nil_prefix
    | cons c a ih =>
      rintro ⟨rest, same⟩
      cases b with
      | nil => simp [utf8_cons, String.utf8EncodeChar_ne_nil] at same
      | cons d b =>
        rw [utf8_cons, utf8_cons, List.append_assoc] at same
        obtain ⟨rfl, later⟩ := utf8EncodeChar_append_inj same
        exact List.cons_prefix_cons.mpr ⟨rfl, ih ⟨rest, later⟩⟩
  · rintro ⟨rest, rfl⟩
    exact ⟨utf8 rest, (utf8_append a rest).symm⟩

theorem utf8_injective : Function.Injective utf8 := by
  intro a b same
  have forth : a <+: b := utf8_prefix_iff.mp (same ▸ List.prefix_rfl)
  have back : b <+: a := utf8_prefix_iff.mp (same ▸ List.prefix_rfl)
  exact forth.eq_of_length (Nat.le_antisymm forth.length_le back.length_le)

/-- The text some bytes are, if they are valid. -/
def ofUtf8 (bytes : Bytes) : Option Text := (String.fromUTF8? bytes.toByteArray).map String.toList

theorem ofUtf8_utf8 (t : Text) : ofUtf8 (utf8 t) = some t := by
  have valid : (utf8 t).toByteArray.IsValidUTF8 := ByteArray.isValidUTF8_utf8Encode (l := t)
  have same : String.fromUTF8 (utf8 t).toByteArray valid = String.ofList t := rfl
  rw [ofUtf8, String.fromUTF8?, dif_pos valid, same, Option.map_some, String.toList_ofList]

/-- A byte of a character is either the character itself or is at least `0x80`. -/
theorem mem_utf8EncodeChar {c : Char} {b : UInt8} (member : b ∈ String.utf8EncodeChar c) :
    b ≠ 0xFF ∧ (b.toNat < 0x80 → c.val.toNat = b.toNat) := by
  have bound : c.val.toNat < 0x110000 := by
    have := c.valid
    rcases this with low | ⟨-, high⟩ <;> omega
  unfold String.utf8EncodeChar at member
  have ff : b = 0xFF ↔ b.toNat = 0xFF := by
    rw [← UInt8.toNat_inj]
    rfl
  rw [ne_eq, ff]
  simp only at member
  split at member
  · rw [List.mem_singleton.mp member, UInt8.toNat_ofNat']
    omega
  · split at member
    · simp only [List.mem_cons, List.not_mem_nil, or_false] at member
      rcases member with rfl | rfl <;> rw [UInt8.toNat_ofNat'] <;> omega
    · split at member
      · simp only [List.mem_cons, List.not_mem_nil, or_false] at member
        rcases member with rfl | rfl | rfl <;> rw [UInt8.toNat_ofNat'] <;> omega
      · simp only [List.mem_cons, List.not_mem_nil, or_false] at member
        rcases member with rfl | rfl | rfl | rfl <;> rw [UInt8.toNat_ofNat'] <;> omega

theorem ff_not_mem_utf8 (t : Text) : ∀ b ∈ utf8 t, b ≠ 0xFF := by
  intro b member
  obtain ⟨c, -, inChar⟩ := List.mem_flatMap.mp member
  exact (mem_utf8EncodeChar inChar).1

/-- An ASCII separator stands in the bytes only where it stands in the text. -/
theorem colon_mem_utf8 {t : Text} (absent : ':' ∉ t) : (0x3A : UInt8) ∉ utf8 t := by
  intro member
  obtain ⟨c, inText, inChar⟩ := List.mem_flatMap.mp member
  have code := (mem_utf8EncodeChar inChar).2 (by decide)
  have colon : c = ':' := Char.ext (UInt32.toNat_inj.mp code)
  exact absent (colon ▸ inText)

/-! ## Prefix ranges -/

/-- From a string to behind `0xFF` appended to it lie the keys that start with it. -/
theorem mem_prefixRange {start key : Bytes} (below : ∀ b ∈ key, b ≠ 0xFF) :
    (¬ key < start ∧ key < start ++ [0xFF]) ↔ start <+: key := by
  induction start generalizing key with
  | nil =>
    simp only [List.not_lt_nil, not_false_eq_true, List.nil_append, true_and, List.nil_prefix,
      iff_true]
    cases key with
    | nil => exact List.nil_lt_cons 0xFF []
    | cons k key =>
      have small := below k (.head _)
      refine List.cons_lt_cons_iff.mpr (.inl (lt_of_le_of_ne ?_ small))
      exact UInt8.le_iff_toNat_le.mpr (Nat.le_of_lt_succ k.toNat_lt)
  | cons s start ih =>
    cases key with
    | nil => simp
    | cons k key =>
      have later := ih fun b member => below b (List.mem_cons_of_mem k member)
      rw [List.cons_prefix_cons, ← later, List.cons_append, List.cons_lt_cons_iff,
        List.cons_lt_cons_iff]
      constructor
      · rintro ⟨notBelow, less | ⟨same, less⟩⟩
        · exact absurd (.inl less) notBelow
        · exact ⟨same.symm, fun under => notBelow (.inr ⟨same, under⟩), less⟩
      · rintro ⟨rfl, notUnder, less⟩
        refine ⟨?_, .inr ⟨rfl, less⟩⟩
        rintro (less | ⟨-, under⟩)
        · exact lt_irrefl _ less
        · exact notUnder under

/-! ## Separators -/

section Separators

variable {A : Type} {sep : A}

/-- Both sides are determined if the separator is not in the left ones. -/
theorem append_sep_inj_left {a a' b b' : List A} (left : sep ∉ a) (left' : sep ∉ a') :
    a ++ sep :: b = a' ++ sep :: b' ↔ a = a' ∧ b = b' := by
  constructor
  · intro same
    induction a generalizing a' with
    | nil =>
      cases a' with
      | nil => exact ⟨rfl, (List.cons.inj same).2⟩
      | cons x a' => exact absurd (List.cons.inj same).1 fun here => left' (here ▸ .head _)
    | cons x a ih =>
      cases a' with
      | nil => exact absurd (List.cons.inj same).1 fun here => left (here ▸ .head _)
      | cons y a' =>
        obtain ⟨rfl, rest⟩ := List.cons.inj same
        obtain ⟨rfl, rfl⟩ := ih (fun m => left (.tail _ m))
          (fun m => left' (.tail _ m)) rest
        exact ⟨rfl, rfl⟩
  · rintro ⟨rfl, rfl⟩
    rfl

/-- Both sides are determined if the separator is not in the right ones. -/
theorem append_sep_inj_right {a a' b b' : List A} (right : sep ∉ b) (right' : sep ∉ b') :
    a ++ sep :: b = a' ++ sep :: b' ↔ a = a' ∧ b = b' := by
  rw [← List.reverse_inj, List.reverse_append, List.reverse_append, List.reverse_cons,
    List.reverse_cons, List.append_assoc, List.append_assoc, List.singleton_append,
    List.singleton_append, append_sep_inj_left (by simpa using right) (by simpa using right'),
    List.reverse_inj, List.reverse_inj, and_comm]

/-- What has no separator lies on one side of it. -/
theorem infix_append_sep {x a b : List A} (free : sep ∉ x) : x <:+: a ++ sep :: b ↔ x <:+: a ∨ x <:+: b := by
  constructor
  · rintro ⟨s, t, split⟩
    rw [List.append_assoc] at split
    rcases List.append_eq_append_iff.mp split with ⟨c, rfl, behind⟩ | ⟨c, rfl, before⟩
    · rcases List.append_eq_append_iff.mp behind with ⟨d, rfl, -⟩ | ⟨d, rfl, after⟩
      · exact .inl ⟨s, d, by simp⟩
      · cases d with
        | nil => exact .inl ⟨s, [], by simp⟩
        | cons e d =>
          obtain ⟨rfl, -⟩ := List.cons.inj after
          exact absurd (by simp) free
    · cases c with
      | nil =>
        cases x with
        | nil => exact .inl (List.nil_infix ..)
        | cons e x =>
          obtain ⟨rfl, -⟩ := List.cons.inj before
          exact absurd (by simp) free
      | cons e c =>
        obtain ⟨rfl, rest⟩ := List.cons.inj before
        exact .inr ⟨c, t, by rw [rest, List.append_assoc]; rfl⟩
  · rintro (⟨s, t, rfl⟩ | ⟨s, t, rfl⟩)
    · exact ⟨s, t ++ sep :: b, by simp⟩
    · exact ⟨a ++ sep :: s, t, by simp⟩

end Separators

end NovaRuntime.Library
