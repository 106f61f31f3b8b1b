/-
# NovaRuntime.Object.Evolution — the steps of an evolution against its comparison

A type widens to another if it has no more layers of `Optional` and its core widens: to an equal
one, up a ladder of numbers, or to a text or binary of no smaller length, where a missing length
counts as larger and as smaller than any (`isTypeWidening_iff`). So steps that each widen can lose
a length on the way and end with a smaller one, which the comparison refuses (`Shrinks`); but for
that, widening is transitive (`Loosely.trans`).

What the steps leave of the registered fields is a function of the changes (`carry`). From it
`evolve_agrees_iff` says when the comparison passes what the steps let through.
-/
import NovaRuntime.Object.Registry

namespace NovaRuntime.Object

open NovaRuntime.Library

set_option autoImplicit false

/-! ## Widening -/

/-- How often the type is `Optional`. -/
def NovaType.layers : NovaType → Nat
  | .optional inner => inner.layers + 1
  | _ => 0

/-- What is optional. -/
def NovaType.core : NovaType → NovaType
  | .optional inner => inner.core
  | t => t

/-- The ladder that a type stands on, and its rung. -/
def NovaType.rung : NovaType → Option (Nat × Nat)
  | .int8 => some (0, 0)
  | .int16 => some (0, 1)
  | .int32 => some (0, 2)
  | .int64 => some (0, 3)
  | .uint8 => some (1, 0)
  | .uint16 => some (1, 1)
  | .uint32 => some (1, 2)
  | .uint64 => some (1, 3)
  | .float32 => some (2, 0)
  | .float64 => some (2, 1)
  | .string _ => some (3, 0)
  | .binary _ => some (4, 0)
  | _ => none

/-- The second type is not below the first on its ladder. -/
def Climbs (t u : NovaType) : Prop :=
  ∃ ladder low high, t.rung = some (ladder, low) ∧ u.rung = some (ladder, high) ∧ low ≤ high

/-- Texts, or binaries, of which the second has the smaller length. -/
inductive Shorter : NovaType → NovaType → Prop
  | string {n m : UInt32} (less : m < n) : Shorter (.string (some n)) (.string (some m))
  | binary {n m : UInt32} (less : m < n) : Shorter (.binary (some n)) (.binary (some m))

/-- The second type is wider but for the lengths. -/
structure Loosely (t u : NovaType) : Prop where
  layers : t.layers ≤ u.layers
  core : t.core.eq u.core = true ∨ Climbs t.core u.core

/-- **The second type has a smaller length than the first.** -/
def Shrinks (t u : NovaType) : Prop := Shorter t.core u.core

theorem rung_of_eq {a b : NovaType} (same : a.eq b = true) : a.rung = b.rung := by
  cases a
  all_goals
    unfold NovaType.eq at same
    split at same
    · rfl
    · contradiction

variable {change : FieldDef → Except ArgumentError FieldDef} {before fields old : List FieldDef}
variable {changes done : List SchemaChangeOp} {t u : NovaType} {op : SchemaChangeOp} {name : Text}

/-- **Widening is transitive but for the lengths.** -/
theorem Loosely.trans {w : NovaType} (first : Loosely t u) (second : Loosely u w) : Loosely t w where
  layers := first.layers.trans second.layers
  core := by
    rcases first.core with same | ⟨ladder, low, mid, left, here, below⟩
    · rcases second.core with same' | ⟨ladder, low, high, left, right, below⟩
      · exact .inl (NovaType.transAt _ same same')
      · exact .inr ⟨ladder, low, high, (rung_of_eq same).trans left, right, below⟩
    · rcases second.core with same' | ⟨ladder', mid', high, here', right, below'⟩
      · exact .inr ⟨ladder, low, mid, left, (rung_of_eq same').symm.trans here, below⟩
      · obtain ⟨rfl, rfl⟩ := Prod.mk.injEq .. ▸ Option.some.inj (here.symm.trans here')
        exact .inr ⟨ladder, low, high, left, right, below.trans below'⟩

theorem isTypeWidening_of_eq (same : t.eq u = true) : isTypeWidening t u = true := by
  unfold isTypeWidening
  rw [same, Bool.true_or]

theorem not_shorter_of_eq (same : t.eq u = true) : ¬ Shorter t u := by
  rintro (less | less)
  all_goals
    cases eq_of_beq same
    exact UInt32.lt_irrefl _ less

/-- Types that are not optional. -/
theorem isTypeWidening_core (left : t.layers = 0) (right : u.layers = 0) :
    isTypeWidening t u = true ↔ (t.eq u = true ∨ Climbs t u) ∧ ¬ Shorter t u := by
  constructor
  · intro widens
    by_cases same : t.eq u = true
    · exact ⟨.inl same, not_shorter_of_eq same⟩
    · unfold isTypeWidening at widens
      rw [Bool.eq_false_iff.mpr same, Bool.false_or] at widens
      split at widens
      case h_14 a b | h_15 a b =>
        refine ⟨.inr ⟨_, _, _, rfl, rfl, le_rfl⟩, ?_⟩
        rintro (less | less)
        exact absurd less (UInt32.not_lt.mpr (of_decide_eq_true widens))
      case h_16 => cases left
      case h_17 => cases right
      case h_18 => cases widens
      all_goals exact ⟨.inr ⟨_, _, _, rfl, rfl, by decide⟩, nofun⟩
  · rintro ⟨same | ⟨ladder, low, high, here, there, below⟩, long⟩
    · exact isTypeWidening_of_eq same
    · cases t <;> cases here <;> cases u <;> cases there
      case string.refl.string.refl a b =>
        refine Bool.or_eq_true_iff.mpr (.inr ?_)
        rcases a with _ | n <;> rcases b with _ | m
        case some.some => exact decide_eq_true (UInt32.not_lt.mp fun less => long (.string less))
        all_goals rfl
      case binary.refl.binary.refl a b =>
        refine Bool.or_eq_true_iff.mpr (.inr ?_)
        rcases a with _ | n <;> rcases b with _ | m
        case some.some => exact decide_eq_true (UInt32.not_lt.mp fun less => long (.binary less))
        all_goals rfl
      all_goals first
        | rfl
        | exact absurd below (by decide)

/-- The type without a layer. -/
def NovaType.inner : NovaType → NovaType
  | .optional inner => inner
  | t => t

theorem isTypeWidening_optional (t n : NovaType) :
    isTypeWidening t (.optional n) = (t.eq (.optional n) || isTypeWidening t.inner n) := by
  cases t <;> rfl

theorem core_of_flat (flat : t.layers = 0) : t.core = t := by
  cases t with
  | optional inner => cases flat
  | _ => rfl

/-- What is optional does not widen to what is not. -/
theorem isTypeWidening_flat {o : NovaType} (flat : u.layers = 0) : isTypeWidening (.optional o) u = false := by
  cases u with
  | optional n => cases flat
  | _ => rfl

theorem isTypeWidening_iff (t u : NovaType) : isTypeWidening t u = true ↔ Loosely t u ∧ ¬ Shrinks t u := by
  induction u using NovaType.parts_induction generalizing t with
  | step u ih =>
  cases layered : u.layers with
  | zero =>
    cases t with
    | optional o =>
      rw [isTypeWidening_flat layered]
      refine iff_of_false Bool.false_ne_true fun ⟨loose, _⟩ => ?_
      have := loose.layers
      rw [layered] at this
      exact absurd this (Nat.not_succ_le_zero _)
    | _ =>
      rw [isTypeWidening_core rfl layered, Shrinks, core_of_flat layered]
      refine and_congr_left fun _ => ⟨fun core => ⟨Nat.zero_le _, ?_⟩, fun loose => ?_⟩
      · rw [core_of_flat layered]
        exact core
      · have := loose.core
        rw [core_of_flat layered] at this
        exact this
  | succ k =>
    cases u with
    | optional n =>
      have inner := ih n (List.mem_singleton_self n) t.inner
      rw [isTypeWidening_optional]
      cases t with
      | optional o =>
        have absorbed : ((NovaType.optional o).eq (.optional n) || isTypeWidening o n) = isTypeWidening o n := by
          show (o.eq n || isTypeWidening o n) = _
          cases same : o.eq n with
          | true => rw [isTypeWidening_of_eq same, Bool.true_or]
          | false => rw [Bool.false_or]
        rw [NovaType.inner, absorbed]
        refine inner.trans (and_congr_left fun _ => ?_)
        exact ⟨fun loose => ⟨Nat.succ_le_succ loose.layers, loose.core⟩,
          fun loose => ⟨Nat.le_of_succ_le_succ loose.layers, loose.core⟩⟩
      | _ =>
        refine inner.trans (and_congr_left fun _ => ?_)
        exact ⟨fun loose => ⟨Nat.zero_le _, loose.core⟩, fun loose => ⟨Nat.zero_le _, loose.core⟩⟩
    | _ => cases layered

/-! ## What the changes make of a field -/

namespace SchemaChangeOp

/-- The type that the change widens the field to. -/
def widens (name : Text) : SchemaChangeOp → Option NovaType
  | .widenField field newType _ => if field = name then some newType else none
  | _ => none

/-- The change makes the field optional. -/
def relaxes (name : Text) : SchemaChangeOp → Bool
  | .makeOptional field _ => field == name
  | _ => false

end SchemaChangeOp

def lastWidening (name : Text) (changes : List SchemaChangeOp) : Option NovaType :=
  (changes.filterMap fun op => op.widens name).getLast?

/-- The first registered field of a name, after the changes. -/
def evolved (changes : List SchemaChangeOp) (f : FieldDef) : FieldDef :=
  { f with
    required := f.required && !changes.any fun op => op.relaxes f.name
    fieldType := (lastWidening f.name changes).getD f.fieldType }

/-- The registered fields after the changes: a field that has one of its name before it stays. -/
def carry (changes : List SchemaChangeOp) (before : List FieldDef) : List FieldDef → List FieldDef
  | [] => []
  | f :: fields =>
    (if before.any fun g => g.name == f.name then f else evolved changes f) ::
      carry changes (before ++ [f]) fields

theorem lastWidening_snoc (name : Text) (done : List SchemaChangeOp) (op : SchemaChangeOp) :
    lastWidening name (done ++ [op]) = (op.widens name).or (lastWidening name done) := by
  rw [lastWidening, List.filterMap_append, List.getLast?_append]
  cases widened : op.widens name <;> simp [widened, lastWidening]

/-- A change that is not about the field. -/
theorem evolved_snoc_other {f : FieldDef}
    (unwidened : op.widens f.name = none) (unrelaxed : op.relaxes f.name = false) :
    evolved (done ++ [op]) f = evolved done f := by
  simp only [evolved, lastWidening_snoc, unwidened, Option.none_or, List.any_append, List.any_cons, unrelaxed,
    List.any_nil, Bool.or_false]

/-- What is carried over depends on the first fields of a name alone. -/
theorem carry_congr {done' : List SchemaChangeOp}
    (firsts : ∀ f ∈ fields, (∀ g ∈ before, g.name ≠ f.name) → evolved done' f = evolved done f) :
    carry done' before fields = carry done before fields := by
  induction fields generalizing before with
  | nil => rfl
  | cons f fields ih =>
    have rest : carry done' (before ++ [f]) fields = carry done (before ++ [f]) fields := by
      refine ih fun g member fresh => firsts g (List.mem_cons_of_mem f member) fun h inBefore => ?_
      exact fresh h (List.mem_append_left _ inBefore)
    rw [carry, carry, rest]
    split
    · rfl
    next fresh =>
      rw [firsts f (.head _)]
      simpa using fresh

theorem carry_names (changes : List SchemaChangeOp) (before fields : List FieldDef) :
    (carry changes before fields).map FieldDef.name = fields.map FieldDef.name := by
  induction fields generalizing before with
  | nil => rfl
  | cons f fields ih =>
    rw [carry, List.map_cons, List.map_cons, ih]
    split <;> rfl

/-! ## One step -/

theorem map_eq_ok {ε α β : Type} {f : α → β} {x : Except ε α} {b : β} (mapped : x.map f = .ok b) :
    ∃ a, x = .ok a ∧ f a = b := by
  cases x with
  | error _ => cases mapped
  | ok a => exact ⟨a, rfl, Except.ok.inj mapped⟩

theorem updateField_keeps_names
    (names : ∀ f f', change f = .ok f' → f'.name = f.name) {fields' : List FieldDef}
    (updated : updateField name change fields = .ok fields') :
    fields'.map FieldDef.name = fields.map FieldDef.name := by
  induction fields generalizing fields' with
  | nil => cases updated
  | cons f fields ih =>
    rw [updateField] at updated
    split at updated
    · obtain ⟨f', changed, rfl⟩ := map_eq_ok updated
      rw [List.map_cons, List.map_cons, names f f' changed]
    · obtain ⟨rest, later, rfl⟩ := map_eq_ok updated
      rw [List.map_cons, List.map_cons, ih later]

/-- The field is found in the first part, or there is none and it is found in the second. -/
theorem updateField_append
    {xs ys zs : List FieldDef} (updated : updateField name change (xs ++ ys) = .ok zs) :
    (∃ xs', updateField name change xs = .ok xs' ∧ zs = xs' ++ ys) ∨
      (∀ f ∈ xs, f.name ≠ name) ∧ ∃ ys', updateField name change ys = .ok ys' ∧ zs = xs ++ ys' := by
  induction xs generalizing zs with
  | nil => exact .inr ⟨nofun, zs, updated, rfl⟩
  | cons f xs ih =>
    rw [List.cons_append, updateField] at updated
    split at updated
    next here =>
      obtain ⟨f', changed, rfl⟩ := map_eq_ok updated
      refine .inl ⟨f' :: xs, ?_, rfl⟩
      rw [updateField, if_pos here, changed]
      rfl
    next apart =>
      obtain ⟨rest, later, rfl⟩ := map_eq_ok updated
      rcases ih later with ⟨xs', found, rfl⟩ | ⟨absent, ys', found, rfl⟩
      · refine .inl ⟨f :: xs', ?_, rfl⟩
        rw [updateField, if_neg apart, found]
        rfl
      · exact .inr ⟨List.forall_mem_cons.mpr ⟨apart, absent⟩, ys', found, rfl⟩

/-- **The step changes the first registered field of the name** as the changes with it make it. -/
theorem updateField_carry
    {done' : List SchemaChangeOp} (others : ∀ f, f.name ≠ name → evolved done' f = evolved done f)
    (this : ∀ f f', f.name = name → change (evolved done f) = .ok f' → f' = evolved done' f)
    {rest : List FieldDef} (fresh : ∀ f ∈ before, f.name ≠ name)
    (updated : updateField name change (carry done before rest) = .ok fields) :
    fields = carry done' before rest ∧
      ∃ f, rest.find? (fun g => g.name == name) = some f ∧ ∃ f', change (evolved done f) = .ok f' := by
  induction rest generalizing before fields with
  | nil => cases updated
  | cons f rest ih =>
    by_cases here : f.name = name
    · have first : (before.any fun g => g.name == f.name) = false := by
        simpa [here] using fresh
      rw [carry, first, updateField, if_neg Bool.false_ne_true, if_pos (show (evolved done f).name = name from here)]
        at updated
      obtain ⟨f', changed, rfl⟩ := map_eq_ok updated
      have found : (f :: rest).find? (fun g => g.name == name) = some f :=
        List.find?_cons_of_pos (beq_iff_eq.mpr here)
      refine ⟨?_, f, found, f', changed⟩
      have later : carry done' (before ++ [f]) rest = carry done (before ++ [f]) rest :=
        carry_congr fun g _ fresh => others g fun same =>
          fresh f (List.mem_append_right before (List.mem_singleton_self f)) (here.trans same.symm)
      rw [carry, first, if_neg Bool.false_ne_true, later, ← this f f' here changed]
    · have head : (if before.any fun g => g.name == f.name then f else evolved done' f) =
          if before.any fun g => g.name == f.name then f else evolved done f := by
        rw [others f here]
      have apart : ¬ (if before.any fun g => g.name == f.name then f else evolved done f).name = name := by
        split <;> exact here
      rw [carry, updateField, if_neg apart] at updated
      obtain ⟨fields', later, rfl⟩ := map_eq_ok updated
      have fresh' : ∀ g ∈ before ++ [f], g.name ≠ name :=
        List.forall_mem_append.mpr ⟨fresh, List.forall_mem_singleton.mpr here⟩
      obtain ⟨rfl, g, found, changed⟩ := ih fresh' later
      refine ⟨?_, g, ?_, changed⟩
      · rw [carry, head]
      · rw [List.find?_cons_of_neg (by simpa using here)]
        exact found

/-- What the changes done so far have made of the registered fields: those carried over, and behind them
fields of other names. What a field was widened to is wider but for the lengths. -/
structure Evolved (old : List FieldDef) (done : List SchemaChangeOp) (fields : List FieldDef) : Prop where
  carried : ∃ added, fields = carry done [] old ++ added ∧ ∀ g ∈ added, g.name ∉ old.map FieldDef.name
  widened : ∀ name f t, old.find? (fun g => g.name == name) = some f → lastWidening name done = some t →
    Loosely f.fieldType t

theorem Evolved.start (old : List FieldDef) : Evolved old [] old where
  carried := by
    have same (before fields : List FieldDef) : carry [] before fields = fields := by
      induction fields generalizing before with
      | nil => rfl
      | cons f fields ih =>
        have untouched : evolved [] f = f := by
          cases f
          simp [evolved, lastWidening]
        rw [carry, ih, untouched, ite_self]
    exact ⟨[], by rw [same, List.append_nil], nofun⟩
  widened _ _ _ _ h := by cases h

theorem Evolved.names (e : Evolved old done fields) {f : FieldDef}
    (member : f ∈ old) : f.name ∈ fields.map FieldDef.name := by
  obtain ⟨added, rfl, -⟩ := e.carried
  rw [List.map_append, carry_names]
  exact List.mem_append_left _ (List.mem_map_of_mem member)

/-- A change that is about no registered field. -/
theorem Evolved.other (e : Evolved old done fields) (unwidened : ∀ f ∈ old, op.widens f.name = none)
    (unrelaxed : ∀ f ∈ old, op.relaxes f.name = false) {added : List FieldDef}
    (fresh : ∀ g ∈ added, g.name ∉ old.map FieldDef.name) :
    Evolved old (done ++ [op]) (carry done [] old ++ added) where
  carried := by
    refine ⟨added, ?_, fresh⟩
    rw [carry_congr fun f member _ => evolved_snoc_other (unwidened f member) (unrelaxed f member)]
  widened name f t found widening := by
    have here : f.name = name := by simpa using List.find?_some found
    rw [lastWidening_snoc, ← here, unwidened f (List.mem_of_find?_eq_some found), Option.none_or, here] at widening
    exact e.widened name f t found widening

/-- A change of the first field of a name, registered or added. -/
theorem Evolved.update {fields' : List FieldDef} (e : Evolved old done fields)
    (about : ∀ other, other ≠ name → op.widens other = none ∧ op.relaxes other = false)
    (names : ∀ f f', change f = .ok f' → f'.name = f.name)
    (this : ∀ f f', f.name = name → change (evolved done f) = .ok f' → f' = evolved (done ++ [op]) f)
    (wider : ∀ f f' t, f.name = name → change (evolved done f) = .ok f' → op.widens name = some t →
      Loosely (evolved done f).fieldType t)
    (updated : updateField name change fields = .ok fields') : Evolved old (done ++ [op]) fields' := by
  obtain ⟨added, rfl, fresh⟩ := e.carried
  rcases updateField_append updated with ⟨carried', found, rfl⟩ | ⟨absent, added', found, rfl⟩
  · have others (f : FieldDef) (apart : f.name ≠ name) : evolved (done ++ [op]) f = evolved done f :=
      evolved_snoc_other (about _ apart).1 (about _ apart).2
    obtain ⟨rfl, first, isFirst, f', changed⟩ := updateField_carry others this (List.forall_mem_nil _) found
    have firstName : first.name = name := by simpa using List.find?_some isFirst
    refine ⟨⟨added, rfl, fresh⟩, fun other f t found' widening => ?_⟩
    rw [lastWidening_snoc] at widening
    by_cases here : other = name
    · subst here
      cases Option.some.inj (isFirst.symm.trans found')
      cases widens : op.widens other with
      | none =>
        rw [widens, Option.none_or] at widening
        exact e.widened other first t found' widening
      | some u =>
        rw [widens, Option.some_or] at widening
        cases widening
        have last := wider first f' t firstName changed widens
        cases before : lastWidening other done with
        | none =>
          have same : (evolved done first).fieldType = first.fieldType := by
            simp [evolved, firstName, before]
          exact same ▸ last
        | some u =>
          have same : (evolved done first).fieldType = u := by simp [evolved, firstName, before]
          exact (e.widened other first u found' before).trans (same ▸ last)
    · rw [(about other here).1, Option.none_or] at widening
      exact e.widened other f t found' widening
  · have absent' : ∀ f ∈ old, f.name ≠ name := by
      intro f member same
      have : f.name ∈ (carry done [] old).map FieldDef.name := by
        rw [carry_names]
        exact List.mem_map_of_mem member
      obtain ⟨g, inCarried, sameName⟩ := List.mem_map.mp this
      exact absent g inCarried (sameName.trans same)
    refine e.other (fun f member => (about _ (absent' f member)).1) (fun f member => (about _ (absent' f member)).2) ?_
    intro g member
    have : g.name ∈ added.map FieldDef.name := updateField_keeps_names names found ▸ List.mem_map_of_mem member
    obtain ⟨h, inAdded, sameName⟩ := List.mem_map.mp this
    exact sameName ▸ fresh h inAdded

/-- **One step**: the fields after it are what the changes with it make of the registered ones. -/
theorem Evolved.step {schema schema' : CollectionSchema} (e : Evolved old done schema.fields)
    (applied : applySchemaChange schema op = .ok schema') : Evolved old (done ++ [op]) schema'.fields := by
  have still (silent : ∀ name, op.widens name = none ∧ op.relaxes name = false) :
      Evolved old (done ++ [op]) schema.fields := by
    obtain ⟨added, split, fresh⟩ := e.carried
    rw [split]
    exact e.other (fun f _ => (silent _).1) (fun f _ => (silent _).2) fresh
  cases op with
  | addField field reason =>
    simp only [applySchemaChange] at applied
    split at applied
    · cases applied
    next unknown =>
      cases applied
      obtain ⟨added, split, fresh⟩ := e.carried
      show Evolved old _ (schema.fields ++ [field])
      rw [split, List.append_assoc]
      refine e.other (fun _ _ => rfl) (fun _ _ => rfl) (List.forall_mem_append.mpr ⟨fresh, ?_⟩)
      refine List.forall_mem_singleton.mpr fun member => unknown ?_
      obtain ⟨f, inOld, sameName⟩ := List.mem_map.mp member
      obtain ⟨g, inFields, sameName'⟩ := List.mem_map.mp (e.names inOld)
      exact List.any_eq_true.mpr ⟨g, inFields, beq_iff_eq.mpr (sameName'.trans sameName)⟩
  | makeOptional name reason =>
    simp only [applySchemaChange] at applied
    obtain ⟨fields, updated, rfl⟩ := map_eq_ok applied
    refine e.update ?_ ?_ ?_ ?_ updated
    · exact fun other apart => ⟨rfl, beq_eq_false_iff_ne.mpr (Ne.symm apart)⟩
    · rintro f f' ⟨⟩
      rfl
    · rintro f f' rfl ⟨⟩
      simp [evolved, lastWidening_snoc, SchemaChangeOp.widens, SchemaChangeOp.relaxes]
    · rintro f f' t - - ⟨⟩
  | widenField name newType reason =>
    simp only [applySchemaChange] at applied
    obtain ⟨fields, updated, rfl⟩ := map_eq_ok applied
    have widened {f f' : FieldDef} (changed : widen name newType f = .ok f') :
        isTypeWidening f.fieldType newType = true ∧ f' = { f with fieldType := newType } := by
      rw [widen] at changed
      split at changed
      next wider => exact ⟨wider, (Except.ok.inj changed).symm⟩
      · cases changed
    refine e.update ?_ ?_ ?_ ?_ updated
    · exact fun other apart => ⟨if_neg (Ne.symm apart), rfl⟩
    · intro f f' changed
      rw [(widened changed).2]
    · rintro f f' rfl changed
      rw [(widened changed).2]
      simp [evolved, lastWidening_snoc, SchemaChangeOp.widens, SchemaChangeOp.relaxes]
    · intro f f' t here changed widens
      rw [SchemaChangeOp.widens, if_pos rfl] at widens
      cases widens
      exact ((isTypeWidening_iff _ _).mp (widened changed).1).1
  | addIndex index reason =>
    simp only [applySchemaChange] at applied
    split at applied
    · cases applied
    · cases applied
      exact still fun _ => ⟨rfl, rfl⟩
  | addDefault field default reason =>
    simp only [applySchemaChange] at applied
    split at applied
    · cases applied
      exact still fun _ => ⟨rfl, rfl⟩
    · cases applied
  | deprecateField | addEnumValue =>
    cases applied
    exact still fun _ => ⟨rfl, rfl⟩

/-- **A run of steps.** -/
theorem Evolved.run {schema schema' : CollectionSchema}
    (e : Evolved old done schema.fields) (applied : applyChanges schema changes = .ok schema') :
    Evolved old (done ++ changes) schema'.fields := by
  induction changes generalizing done schema with
  | nil =>
    cases applied
    rwa [List.append_nil]
  | cons op changes ih =>
    rw [applyChanges] at applied
    split at applied
    next schema'' step =>
      have := ih (e.step step) applied
      rwa [List.append_assoc] at this
    · cases applied

/-! ## The comparison -/

/-- What the comparison asks of a new field and the old one of its name. -/
structure Fits (old new : FieldDef) : Prop where
  required : old.required = true → new.required = true
  wider : isTypeWidening old.fieldType new.fieldType = true

theorem checkField_eq_ok (debug : NovaType → Text) {old new : FieldDef} :
    checkField debug old new = .ok () ↔ Fits old new := by
  rw [checkField]
  split
  next relaxed =>
    refine iff_of_false nofun fun fits => ?_
    simp only [Bool.and_eq_true, Bool.not_eq_true'] at relaxed
    exact absurd (fits.required relaxed.1) (by simp [relaxed.2])
  next kept =>
    have kept : old.required = true → new.required = true := by
      simpa only [Bool.and_eq_true, Bool.not_eq_true', not_and, Bool.not_eq_false] using kept
    split
    next narrowed =>
      refine iff_of_false nofun fun fits => ?_
      rw [fits.wider] at narrowed
      cases narrowed
    next wider =>
      exact iff_of_true rfl ⟨kept, by simpa using wider⟩

theorem checkNewFields_eq_ok (debug : NovaType → Text) {new : List FieldDef} :
    checkNewFields debug old new = .ok () ↔
      ∀ g ∈ new, ∀ f, old.find? (fun f => f.name == g.name) = some f → Fits f g := by
  induction new with
  | nil => exact iff_of_true rfl (List.forall_mem_nil _)
  | cons g new ih =>
    rw [List.forall_mem_cons, ← ih, checkNewFields]
    split
    next unknown => simp [unknown]
    next f found =>
      have fits : (∀ f, old.find? (fun f => f.name == g.name) = some f → Fits f g) ↔ Fits f g := by
        simp [found]
      rw [fits, ← checkField_eq_ok debug]
      split
      next passed => simp [passed]
      next e refused => simp [refused]

theorem checkOldFields_eq_ok {new : List FieldDef} :
    checkOldFields new old = .ok () ↔ ∀ f ∈ old, f.name ∈ new.map FieldDef.name := by
  induction old with
  | nil => exact iff_of_true rfl (List.forall_mem_nil _)
  | cons f old ih =>
    rw [List.forall_mem_cons, ← ih, checkOldFields]
    have known : (new.any fun g => g.name == f.name) = true ↔ f.name ∈ new.map FieldDef.name := by
      simp [List.any_eq_true, List.mem_map]
    rw [← known]
    split
    next there => simp [there]
    next gone => exact iff_of_false nofun fun h => gone h.1

theorem checkCompatibilityInternal_eq_ok {debug : NovaType → Text} {old new : CollectionSchema} :
    checkCompatibilityInternal debug old new = .ok () ↔
      (∀ g ∈ new.fields, ∀ f, old.fields.find? (fun f => f.name == g.name) = some f → Fits f g) ∧
        ∀ f ∈ old.fields, f.name ∈ new.fields.map FieldDef.name := by
  rw [checkCompatibilityInternal, ← checkNewFields_eq_ok debug, ← checkOldFields_eq_ok]
  split
  next passed => simp [passed]
  next e refused => simp [refused]

/-! ## When the comparison passes what the steps let through -/

/-- What the comparison asks of a registered field, where `first` is the one of its name before it. -/
def FieldPlain (changes : List SchemaChangeOp) (first : Option FieldDef) (g : FieldDef) : Prop :=
  match first with
  | some f => Fits f g
  | none =>
    ¬ (g.required = true ∧ ∃ op ∈ changes, op.relaxes g.name = true) ∧
      match lastWidening g.name changes with
      | some t => ¬ Shrinks g.fieldType t
      | none => isTypeWidening g.fieldType g.fieldType = true

/-- **No required registered field is made optional, none is widened to a smaller length in the end, a type
that is not widened equals itself, and a second field of a name fits the first.** -/
def PlainChanges (old : List FieldDef) (changes : List SchemaChangeOp) : Prop :=
  ∀ before g after, old = before ++ g :: after →
    FieldPlain changes (before.find? fun f => f.name == g.name) g

/-- The fields carried over, by where they stand. -/
theorem mem_carry {g : FieldDef} :
    g ∈ carry changes before fields ↔ ∃ mid h after, fields = mid ++ h :: after ∧
      g = if (before ++ mid).any (fun f => f.name == h.name) then h else evolved changes h := by
  induction fields generalizing before with
  | nil => exact iff_of_false (List.not_mem_nil) fun ⟨mid, _, _, split, _⟩ => by cases mid <;> cases split
  | cons f fields ih =>
    rw [carry, List.mem_cons, ih]
    constructor
    · rintro (rfl | ⟨mid, h, after, rfl, here⟩)
      · exact ⟨[], f, fields, rfl, by rw [List.append_nil]⟩
      · exact ⟨f :: mid, h, after, rfl, by rwa [List.append_assoc] at here⟩
    · rintro ⟨_ | ⟨f', mid⟩, h, after, split, here⟩
      · cases split
        rw [List.append_nil] at here
        exact .inl here
      · cases split
        exact .inr ⟨mid, h, after, rfl, by rwa [List.append_assoc]⟩

/-- A field by its place: the comparison on it asks what `FieldPlain` says. -/
theorem fits_iff {after : List FieldDef} {g : FieldDef}
    (widened : ∀ t, lastWidening g.name changes = some t →
      (before.find? fun f => f.name == g.name) = none → Loosely g.fieldType t) :
    (∀ f, (before ++ g :: after).find? (fun f => f.name == g.name) = some f →
      Fits f (if before.any (fun f => f.name == g.name) then g else evolved changes g)) ↔
    FieldPlain changes (before.find? fun f => f.name == g.name) g := by
  rw [List.find?_append]
  cases found : before.find? fun f => f.name == g.name with
  | some f =>
    have seen : (before.any fun f => f.name == g.name) = true :=
      List.any_eq_true.mpr ⟨f, List.mem_of_find?_eq_some found, by simpa using List.find?_some found⟩
    rw [if_pos seen, FieldPlain]
    simp
  | none =>
    have fresh : ¬ (before.any fun f => f.name == g.name) = true := by
      rw [List.any_eq_true]
      rintro ⟨f, member, same⟩
      exact List.find?_eq_none.mp found f member same
    have here : (g :: after).find? (fun f => f.name == g.name) = some g :=
      List.find?_cons_of_pos (beq_self_eq_true _)
    rw [if_neg fresh, FieldPlain, Option.none_or, here]
    have one : (∀ f, some g = some f → Fits f (evolved changes g)) ↔ Fits g (evolved changes g) := by simp
    rw [one]
    have required : (g.required = true → (evolved changes g).required = true) ↔
        ¬ (g.required = true ∧ ∃ op ∈ changes, op.relaxes g.name = true) := by
      simp only [evolved, Bool.and_eq_true, Bool.not_eq_true', not_and, ← List.any_eq_true, Bool.not_eq_true]
      exact ⟨fun h req => (h req).2, fun h req => ⟨req, h req⟩⟩
    have wider : isTypeWidening g.fieldType (evolved changes g).fieldType = true ↔
        match lastWidening g.name changes with
        | some t => ¬ Shrinks g.fieldType t
        | none => isTypeWidening g.fieldType g.fieldType = true := by
      simp only [evolved]
      cases last : lastWidening g.name changes with
      | none => exact Iff.rfl
      | some t => exact (isTypeWidening_iff _ _).trans (and_iff_right (widened t last found))
    exact ⟨fun fits => ⟨required.mp fits.required, wider.mp fits.wider⟩,
      fun plain => ⟨required.mpr plain.1, wider.mpr plain.2⟩⟩

/-- **What the steps let through the comparison passes if and only if the changes are plain.** -/
theorem check_evolved_iff (debug : NovaType → Text) {old new : CollectionSchema}
    (e : Evolved old.fields changes new.fields) :
    checkCompatibilityInternal debug old new = .ok () ↔ PlainChanges old.fields changes := by
  rw [checkCompatibilityInternal_eq_ok, and_iff_left fun f member => e.names member]
  obtain ⟨added, split, fresh⟩ := e.carried
  have behind : ∀ g ∈ added, ∀ f, old.fields.find? (fun f => f.name == g.name) = some f →
      Fits f g := by
    intro g member f found
    have same : f.name = g.name := by simpa using List.find?_some found
    exact absurd (same ▸ List.mem_map_of_mem (List.mem_of_find?_eq_some found)) (fresh g member)
  rw [split, List.forall_mem_append, and_iff_left behind]
  have place {before g after} (split : old.fields = before ++ g :: after) :=
    @fits_iff before changes after g fun t last first =>
      e.widened g.name g t (by
        rw [split, List.find?_append, first, Option.none_or]
        exact List.find?_cons_of_pos (beq_self_eq_true _)) last
  constructor
  · intro fits before g after here
    refine (place here).mp ?_
    have := fits _ (mem_carry.mpr ⟨before, g, after, here, rfl⟩)
    rw [List.nil_append, here] at this
    intro f found
    refine this f ?_
    split <;> exact found
  · intro plain g member
    obtain ⟨before, h, after, here, rfl⟩ := mem_carry.mp member
    have := (place here).mpr (plain before h after here)
    rw [List.nil_append, here]
    intro f found
    refine this f ?_
    split at found <;> exact found

/-- **The steps and the comparison agree on plain changes alone.** Where every step succeeds, the comparison
passes and `evolve` returns a schema if and only if the changes are plain; where a step fails, `evolve`
fails with its error and the registry is as before. -/
theorem evolve_agrees_iff (debug : NovaType → Text) (now timestamp : UInt64) {collection : Text}
    (changes : List SchemaChangeOp) (description author : Text) {schemas : SchemaRegistry} {old : CollectionSchema}
    (registered : schemas.lookup collection = some old) :
    (∀ new, applyChanges (old.next now) changes = .ok new →
      ((checkCompatibilityInternal debug old new = .ok () ∧ ∃ schema schemas',
          evolve debug now timestamp collection changes description author schemas = (.ok schema, schemas')) ↔
        PlainChanges old.fields changes)) ∧
    ∀ e, applyChanges (old.next now) changes = .error e →
      evolve debug now timestamp collection changes description author schemas = (.err e, schemas) := by
  constructor
  · intro new stepped
    have evolvedFields : Evolved old.fields changes new.fields :=
      @Evolved.run old.fields changes [] (old.next now) new (Evolved.start old.fields) stepped
    rw [← check_evolved_iff debug evolvedFields]
    refine and_iff_left_of_imp fun passed => ?_
    simp only [evolve, registered, stepped, passed]
    exact ⟨_, _, rfl⟩
  · intro e stepped
    simp only [evolve, registered, stepped]

/-- A schema with one field. -/
def people (field : FieldDef) : CollectionSchema where
  version := 1
  collection := "people".toList
  description := []
  mode := .typed
  fields := [field]
  computedFields := []
  indexes := []
  defaults := []
  validation := []
  maxDocumentSize := 0
  metadata := []
  changelog := []
  createdAt := 0
  updatedAt := 0

def fieldOf (name : Text) (fieldType : NovaType) : FieldDef where
  name
  fieldType
  required := true
  default := none
  computed := none
  description := []
  index := none
  unique := false
  sensitive := false
  validate := []

/-- An age that is widened twice. -/
theorem evolve_age_agrees :
    (∀ new, applyChanges ((people (fieldOf "age".toList .int8)).next 7)
        [.widenField "age".toList .int16 [], .widenField "age".toList .int64 []] = .ok new →
      ((checkCompatibilityInternal (fun _ => []) (people (fieldOf "age".toList .int8)) new = .ok () ∧
          ∃ schema schemas', evolve (fun _ => []) 7 8 "people".toList
            [.widenField "age".toList .int16 [], .widenField "age".toList .int64 []] [] []
            [("people".toList, people (fieldOf "age".toList .int8))] = (.ok schema, schemas')) ↔
        PlainChanges [fieldOf "age".toList .int8]
          [.widenField "age".toList .int16 [], .widenField "age".toList .int64 []])) ∧
    ∀ e, applyChanges ((people (fieldOf "age".toList .int8)).next 7)
        [.widenField "age".toList .int16 [], .widenField "age".toList .int64 []] = .error e →
      evolve (fun _ => []) 7 8 "people".toList
        [.widenField "age".toList .int16 [], .widenField "age".toList .int64 []] [] []
        [("people".toList, people (fieldOf "age".toList .int8))] =
          (.err e, [("people".toList, people (fieldOf "age".toList .int8))]) :=
  evolve_agrees_iff (fun _ => []) 7 8 _ [] [] rfl

/-- `MakeOptional` of a required field succeeds and is refused by the comparison; so is a text of ten bytes
that is widened to one of any length and then to one of five. -/
theorem steps_pass_comparison_refuses :
    (∃ new, applyChanges ((people (fieldOf "age".toList .int8)).next 7) [.makeOptional "age".toList []] = .ok new ∧
      checkCompatibilityInternal (fun _ => []) (people (fieldOf "age".toList .int8)) new ≠ .ok ()) ∧
    (∃ e, (evolve (fun _ => []) 7 8 "people".toList [.makeOptional "age".toList []] [] []
      [("people".toList, people (fieldOf "age".toList .int8))]).1 = .err e) ∧
    ∃ new, applyChanges ((people (fieldOf "name".toList (.string (some 10)))).next 7)
        [.widenField "name".toList (.string none) [], .widenField "name".toList (.string (some 5)) []] = .ok new ∧
      checkCompatibilityInternal (fun _ => []) (people (fieldOf "name".toList (.string (some 10)))) new ≠ .ok () :=
  ⟨⟨_, rfl, nofun⟩, ⟨_, rfl⟩, ⟨_, rfl, nofun⟩⟩

end NovaRuntime.Object
