/-
# NovaRuntime.Library.Distinct — the first of those that are the same

`firsts same earlier xs` keeps what is the same as nothing before it. Two notions of sameness keep the
same items of a list if and only if they agree, at each item, on whether something before it is the
same (`firsts_eq_iff`).

`distinctNext` is the loop of a pull executor that remembers a key of each row it hands out. It yields
the first row of each key (`distinct_yields`).

Whoever looks at a few distinct items for wanted ones finds as many as there could be in two cases
(`length_filter_eq_min_iff`).
-/
import Mathlib.Data.List.Perm.Subperm
import NovaRuntime.Library.Pull

namespace NovaRuntime.Library

set_option autoImplicit false

variable {ε σ α κ : Type}
variable {earlier xs : List α} {same : α → α → Bool}

/-! ## First occurrences -/

/-- What is the same as nothing in `earlier` or before it. -/
def firsts (same : α → α → Bool) (earlier : List α) : List α → List α
  | [] => []
  | x :: xs =>
    if earlier.any fun y => same y x then firsts same (x :: earlier) xs
    else x :: firsts same (x :: earlier) xs

/-- What was there before is not kept again. -/
theorem not_mem_firsts {x : α}
    (known : (earlier.any fun y => same y x) = true) : x ∉ firsts same earlier xs := by
  induction xs generalizing earlier with
  | nil => exact List.not_mem_nil
  | cons z xs ih =>
    have still : ((z :: earlier).any fun y => same y x) = true := by
      rw [List.any_cons, known, Bool.or_true]
    rw [firsts]
    split
    · exact ih still
    next new =>
      rintro (_ | later)
      · exact new known
      next member => exact ih still member

theorem firsts_sublist (same : α → α → Bool) (earlier xs : List α) : (firsts same earlier xs).Sublist xs := by
  induction xs generalizing earlier with
  | nil => exact .slnil
  | cons x xs ih =>
    rw [firsts]
    split
    · exact (ih _).cons x
    · exact (ih _).cons_cons x

theorem nodup_firsts (earlier : List α) (refl : ∀ x ∈ xs, same x x = true) :
    (firsts same earlier xs).Nodup := by
  induction xs generalizing earlier with
  | nil => exact List.nodup_nil
  | cons x xs ih =>
    obtain ⟨here, later⟩ := List.forall_mem_cons.mp refl
    rw [firsts]
    split
    · exact ih _ later
    · refine List.nodup_cons.mpr ⟨not_mem_firsts ?_, ih _ later⟩
      rw [List.any_cons, here, Bool.true_or]

/-- Every item is the same as one that is kept, or as one before them all. -/
theorem exists_first (earlier : List α) (refl : ∀ x ∈ xs, same x x = true)
    (tells : ∀ x ∈ xs, ∀ y ∈ xs, same x y = true → x = y) {x : α} (among : x ∈ xs) :
    (∃ y ∈ earlier, same y x = true) ∨ ∃ y ∈ firsts same earlier xs, same y x = true := by
  induction xs generalizing earlier with
  | nil => cases among
  | cons z xs ih =>
    obtain ⟨here, later⟩ := List.forall_mem_cons.mp refl
    have rest : ∀ x ∈ xs, ∀ y ∈ xs, same x y = true → x = y :=
      fun x inside y inside' => tells x (.tail _ inside) y (.tail _ inside')
    rw [firsts]
    cases known : earlier.any fun y => same y z with
    | true =>
      rw [if_pos rfl]
      obtain ⟨y, member, isSame⟩ := List.any_eq_true.mp known
      rcases List.mem_cons.mp among with rfl | inside
      · exact .inl ⟨y, member, isSame⟩
      · rcases ih (z :: earlier) later rest inside with ⟨w, before, isFirst⟩ | kept
        · rcases List.mem_cons.mp before with rfl | before
          · obtain rfl := tells w (.head _) x among isFirst
            exact .inl ⟨y, member, isSame⟩
          · exact .inl ⟨w, before, isFirst⟩
        · exact .inr kept
    | false =>
      rw [if_neg Bool.false_ne_true]
      rcases List.mem_cons.mp among with rfl | inside
      · exact .inr ⟨x, (.head _), here⟩
      · rcases ih (z :: earlier) later rest inside with ⟨w, before, isFirst⟩ | ⟨w, kept, isFirst⟩
        · rcases List.mem_cons.mp before with rfl | before
          · exact .inr ⟨w, (.head _), isFirst⟩
          · exact .inl ⟨w, before, isFirst⟩
        · exact .inr ⟨w, .tail _ kept, isFirst⟩

/-- **Where only equal items are the same**, the order of the items does not matter for which are kept. -/
theorem firsts_perm {ys : List α} (refl : ∀ x ∈ xs, same x x = true)
    (tells : ∀ x ∈ xs, ∀ y ∈ xs, same x y = true → x = y) (perm : xs.Perm ys) :
    (firsts same [] xs).Perm (firsts same [] ys) := by
  have mem {zs : List α} (reflZ : ∀ x ∈ zs, same x x = true)
      (tellsZ : ∀ x ∈ zs, ∀ y ∈ zs, same x y = true → x = y) (x : α) : x ∈ firsts same [] zs ↔ x ∈ zs := by
    constructor
    · exact fun kept => (firsts_sublist same [] zs).subset kept
    · intro among
      rcases exists_first [] reflZ tellsZ among with ⟨y, none, -⟩ | ⟨y, kept, isSame⟩
      · cases none
      · exact tellsZ y ((firsts_sublist same [] zs).subset kept) x among isSame ▸ kept
  have refl' : ∀ y ∈ ys, same y y = true := fun y among => refl y (perm.mem_iff.mpr among)
  have tells' : ∀ x ∈ ys, ∀ y ∈ ys, same x y = true → x = y :=
    fun x here y there => tells x (perm.mem_iff.mpr here) y (perm.mem_iff.mpr there)
  rw [List.perm_ext_iff_of_nodup (nodup_firsts [] refl) (nodup_firsts [] refl')]
  intro x
  rw [mem refl tells, mem refl' tells', perm.mem_iff]

theorem firsts_concat (same : α → α → Bool) (earlier xs : List α) (x : α) :
    firsts same earlier (xs ++ [x]) = firsts same earlier xs ++
      if (xs.reverse ++ earlier).any fun y => same y x then [] else [x] := by
  induction xs generalizing earlier with
  | nil => simp [firsts]
  | cons z xs ih =>
    have moved : (z :: xs).reverse ++ earlier = xs.reverse ++ z :: earlier := by simp
    rw [List.cons_append, firsts, firsts, ih, moved]
    split <;> rfl

/-- Nothing is dropped exactly if nothing is the same as something before it. -/
theorem length_firsts_eq_iff :
    (firsts same earlier xs).length = xs.length ↔
      (∀ y ∈ earlier, ∀ x ∈ xs, same y x = false) ∧ xs.Pairwise fun y x => same y x = false := by
  induction xs generalizing earlier with
  | nil => simp [firsts]
  | cons x xs ih =>
    have shorter := (firsts_sublist same (x :: earlier) xs).length_le
    rw [firsts]
    cases known : earlier.any fun y => same y x with
    | true =>
      obtain ⟨y, member, isSame⟩ := List.any_eq_true.mp known
      simp only [if_true, List.length_cons]
      refine ⟨fun equal => by omega, fun apart => ?_⟩
      have differ := apart.1 y member x List.mem_cons_self
      rw [isSame] at differ
      cases differ
    | false =>
      have new : ∀ y ∈ earlier, same y x = false := fun y member => by
        by_contra isSame
        exact Bool.false_ne_true (known.symm.trans (List.any_eq_true.mpr ⟨y, member, by simpa using isSame⟩))
      simp only [Bool.false_eq_true, if_false, List.length_cons, Nat.add_right_cancel_iff, ih,
        List.forall_mem_cons, List.pairwise_cons]
      exact ⟨fun ⟨⟨here, later⟩, apart⟩ => ⟨fun y member => ⟨new y member, later y member⟩, here, apart⟩,
        fun ⟨before, here, apart⟩ => ⟨⟨here, fun y member => (before y member).2⟩, apart⟩⟩

/-- Two notions of sameness agree at each item on whether something before it is the same. -/
def SameDecisions (same same' : α → α → Bool) (earlier : List α) : List α → Prop
  | [] => True
  | x :: xs => (earlier.any fun y => same y x) = (earlier.any fun y => same' y x) ∧
      SameDecisions same same' (x :: earlier) xs

/-- The lists differ from the first item on that one keeps and the other does not: what is dropped
there is not kept later. -/
theorem firsts_eq_iff_sameDecisions {same' : α → α → Bool} :
    firsts same earlier xs = firsts same' earlier xs ↔ SameDecisions same same' earlier xs := by
  induction xs generalizing earlier with
  | nil => simp [firsts, SameDecisions]
  | cons x xs ih =>
    have still {s : α → α → Bool} (known : (earlier.any fun y => s y x) = true) :
        x ∉ firsts s (x :: earlier) xs := by
      refine not_mem_firsts ?_
      rw [List.any_cons, known, Bool.or_true]
    rw [firsts, firsts, SameDecisions, ← ih]
    cases left : earlier.any fun y => same y x <;> cases right : earlier.any fun y => same' y x
    · simp
    · simp only [Bool.false_eq_true, if_false, if_true, false_and, iff_false]
      exact fun equal => still right (equal ▸ (.head _))
    · simp only [Bool.false_eq_true, Bool.true_eq_false, if_false, if_true, false_and, iff_false]
      exact fun equal => still left (equal ▸ (.head _))
    · simp

theorem sameDecisions_iff {same' : α → α → Bool} :
    SameDecisions same same' earlier xs ↔ ∀ before x after, xs = before ++ x :: after →
      ((before.reverse ++ earlier).any fun y => same y x) =
        ((before.reverse ++ earlier).any fun y => same' y x) := by
  induction xs generalizing earlier with
  | nil => simp [SameDecisions]
  | cons z xs ih =>
    rw [SameDecisions, ih]
    constructor
    · rintro ⟨here, later⟩ before x after split
      cases before with
      | nil =>
        cases split
        exact here
      | cons b before =>
        cases split
        simpa using later before x after rfl
    · intro each
      refine ⟨each [] z xs rfl, fun before x after split => ?_⟩
      simpa using each (z :: before) x after (by rw [split]; rfl)

/-- **Two notions of sameness keep the same items** if and only if they agree, at each item, on
whether something before it is the same. -/
theorem firsts_eq_iff {same' : α → α → Bool} :
    firsts same [] xs = firsts same' [] xs ↔ ∀ before x after, xs = before ++ x :: after →
      ((∃ y ∈ before, same y x = true) ↔ ∃ y ∈ before, same' y x = true) := by
  have decided (s : α → α → Bool) (before : List α) (x : α) :
      ((before.reverse ++ []).any fun y => s y x) = true ↔ ∃ y ∈ before, s y x = true := by simp
  rw [firsts_eq_iff_sameDecisions, sameDecisions_iff]
  refine forall₃_congr fun before x after => imp_congr_right fun _ => ?_
  rw [Bool.eq_iff_iff, decided, decided]

/-! ## Looking for distinct items -/

/-- How many of the wanted items are among the first seen ones: as many as one looks for exactly if all that is
seen is wanted and there is enough of it, or all that is wanted is seen. -/
theorem length_filter_eq_min_iff [DecidableEq α] {seen wanted : List α} {limit : Nat} (once : seen.Nodup)
    (distinct : wanted.Nodup) (within : seen.length ≤ limit) :
    (seen.filter (· ∈ wanted)).length = min limit wanted.length ↔
      (seen.length = limit ∧ ∀ x ∈ seen, x ∈ wanted) ∨ ∀ x ∈ wanted, x ∈ seen := by
  have both : (seen.filter (· ∈ wanted)).Nodup := once.filter _
  have inWanted : seen.filter (· ∈ wanted) ⊆ wanted := fun x member => by simpa using (List.mem_filter.mp member).2
  have fewer : (seen.filter (· ∈ wanted)).length ≤ wanted.length := (both.subperm inWanted).length_le
  have short : (seen.filter (· ∈ wanted)).length ≤ seen.length := List.length_filter_le ..
  constructor
  · intro count
    rcases Nat.le_total limit wanted.length with few | many
    · left
      rw [Nat.min_eq_left few] at count
      have all : (seen.filter (· ∈ wanted)).length = seen.length := by omega
      refine ⟨by omega, fun x member => ?_⟩
      simpa using List.length_filter_eq_length_iff.mp all x member
    · right
      rw [Nat.min_eq_right many] at count
      intro x member
      have same := (both.subperm inWanted).perm_of_length_le (by omega)
      exact (List.mem_filter.mp (same.mem_iff.mpr member)).1
  · rintro (⟨full, all⟩ | all)
    · have kept : (seen.filter (· ∈ wanted)).length = seen.length :=
        List.length_filter_eq_length_iff.mpr (by simpa using all)
      omega
    · have more : wanted ⊆ seen.filter (· ∈ wanted) := fun x member =>
        List.mem_filter.mpr ⟨all x member, by simpa using member⟩
      have least := (distinct.subperm more).length_le
      omega

/-! ## By the keys of what was kept -/

/-- The items whose key is not among the ones seen. -/
def firstsByKey [BEq κ] (key : α → κ) (seen : List κ) : List α → List α
  | [] => []
  | x :: xs =>
    if seen.contains (key x) then firstsByKey key seen xs else x :: firstsByKey key (key x :: seen) xs

/-- It is enough to remember the keys of what was kept. -/
theorem firstsByKey_eq [BEq κ] [LawfulBEq κ] {key : α → κ} {seen : List κ}
    (remembered : ∀ k, k ∈ seen ↔ ∃ y ∈ earlier, key y = k) :
    firstsByKey key seen xs = firsts (fun y x => key y == key x) earlier xs := by
  induction xs generalizing seen earlier with
  | nil => rfl
  | cons x xs ih =>
    have decided : (earlier.any fun y => key y == key x) = seen.contains (key x) := by
      rw [Bool.eq_iff_iff, List.contains_iff_mem, remembered]
      simp
    rw [firstsByKey, firsts, decided]
    cases known : seen.contains (key x) with
    | true =>
      have inSeen : key x ∈ seen := List.contains_iff_mem.mp known
      refine ih fun k => ?_
      rw [remembered]
      constructor
      · exact fun ⟨y, member, same⟩ => ⟨y, .tail _ member, same⟩
      · rintro ⟨y, member, rfl⟩
        rcases List.mem_cons.mp member with rfl | member
        · exact (remembered _).mp inSeen
        · exact ⟨y, member, rfl⟩
    | false =>
      refine congrArg (x :: ·) (ih fun k => ?_)
      rw [List.mem_cons, remembered]
      simp [eq_comm]

namespace Pull

/-- What a source yields is determined. -/
theorem Yields.unique {next : Exec ε σ (Option α)} {s : σ} {xs ys : List α}
    (left : Yields next s xs) (right : Yields next s ys) : xs = ys := by
  induction xs generalizing s ys with
  | nil =>
    obtain ⟨s', last, -⟩ := left
    cases ys with
    | nil => rfl
    | cons y ys =>
      obtain ⟨s'', first, -⟩ := right
      rw [last] at first
      cases first
  | cons x xs ih =>
    obtain ⟨s', first, rest⟩ := left
    cases ys with
    | nil =>
      obtain ⟨s'', last, -⟩ := right
      rw [first] at last
      cases last
    | cons y ys =>
      obtain ⟨s'', first', rest'⟩ := right
      rw [first] at first'
      cases first'
      rw [ih rest rest']

/-! ## The loop -/

/-- The state of an input, and the keys of the rows handed out. -/
structure Seen (σ κ : Type) where
  input : σ
  seen : List κ

def Seen.onInput (x : Exec ε σ α) : Exec ε (Seen σ κ) α :=
  Exec.zoom Seen.input (fun s w => { w with input := s }) x

theorem Seen.onInput_of_ok {x : Exec ε σ α} {w : Seen σ κ} {a : α} {s' : σ}
    (step : x w.input = (.ok a, s')) : Seen.onInput x w = (.ok a, { w with input := s' }) := by
  rw [Seen.onInput, Exec.zoom_apply, step]

/-- One turn of the loop. -/
def distinctTurn [BEq κ] (next : Exec ε σ (Option α)) (key : α → κ) :
    Exec ε (Seen σ κ) (Option (Option α)) := do
  match ← Seen.onInput next with
  | none => pure (some none)
  | some x => do
      let w ← Exec.get
      if w.seen.contains (key x) then pure none
      else do
        Exec.modify fun w => { w with seen := key x :: w.seen }
        pure (some (some x))

def distinctNext [BEq κ] (next : Exec ε σ (Option α)) (key : α → κ) (turns : Nat) :
    Exec ε (Seen σ κ) (Option α) := Exec.loop (distinctTurn next key) turns

theorem distinct_yields [BEq κ] {next : Exec ε σ (Option α)} {key : α → κ} {w : Seen σ κ} {xs : List α}
    {turns : Nat} (yields : Yields next w.input xs) (enough : xs.length < turns) :
    Yields (distinctNext next key turns) w (firstsByKey key w.seen xs) := by
  refine yields_loop (I := fun n w ys => ∃ xs, Yields next w.input xs ∧ n = xs.length ∧
    ys = firstsByKey key w.seen xs) ?_ ⟨xs, yields, rfl, rfl⟩ enough
  rintro n w ys ⟨xs, yields, rfl, rfl⟩
  cases xs with
  | nil =>
    obtain ⟨s', last, ended⟩ := yields
    have step : distinctTurn next key w = (.ok (some none), { w with input := s' }) := by
      rw [distinctTurn, Exec.bind_of_ok (Seen.onInput_of_ok last)]
      rfl
    have stays : distinctTurn next key { w with input := s' } = (.ok (some none), { w with input := s' }) := by
      rw [distinctTurn, Exec.bind_of_ok (Seen.onInput_of_ok (w := { w with input := s' }) ended)]
      rfl
    exact .last step stays
  | cons x xs =>
    obtain ⟨s', first, rest⟩ := yields
    rw [firstsByKey]
    cases known : w.seen.contains (key x) with
    | true =>
      have step : distinctTurn next key w = (.ok none, { w with input := s' }) := by
        rw [distinctTurn, Exec.bind_of_ok (Seen.onInput_of_ok first)]
        simp only [Exec.get_bind, known]
        rfl
      exact .again step (Nat.lt_succ_self _) ⟨xs, rest, rfl, rfl⟩
    | false =>
      have step : distinctTurn next key w = (.ok (some (some x)), ⟨s', key x :: w.seen⟩) := by
        rw [distinctTurn, Exec.bind_of_ok (Seen.onInput_of_ok first)]
        simp only [Exec.get_bind, known]
        rfl
      exact .row step (Nat.lt_succ_self _) ⟨xs, rest, rfl, rfl⟩

end Pull

end NovaRuntime.Library
