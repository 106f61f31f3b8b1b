/-
# NovaRuntime.Object.Equality — the derived equality of values

`PartialEq` as `nova_object::types` derives it: variants are compared first, their contents in
turn, floats as floats, and maps by their number of entries and what each key of the one has in
the other. A value with a NaN in it equals nothing, not even itself; equality is transitive
(`Value.eq_trans`), by induction on what a value contains.
-/
import NovaRuntime.Library.Entries
import NovaRuntime.Object.Types

namespace NovaRuntime.Object

open NovaRuntime.Library

set_option autoImplicit false

namespace F32

/-- Exponent and fraction. -/
def magnitude (x : F32) : Nat := x.bits.toNat % 2 ^ 31

def isNaN (x : F32) : Bool := 0x7F800000 < x.magnitude

/-- Where a number stands in the numerical order. -/
def key (x : F32) : Int := if x.bits.toNat < 2 ^ 31 then x.magnitude else -(x.magnitude : Int)

def eq (a b : F32) : Bool := !a.isNaN && !b.isNaN && a.key == b.key

def partialCmp (a b : F32) : Option Ordering :=
  if a.isNaN || b.isNaN then none else some (compare a.key b.key)

theorem partialCmp_eq_some_eq {a b : F32} : partialCmp a b = some .eq ↔ a.eq b = true := by
  unfold partialCmp eq
  cases a.isNaN <;> cases b.isNaN <;> simp

end F32

/-! ## Transitivity at a value -/

/-- What the value equals equals nothing else. -/
def TransAt {α : Type} (eq : α → α → Bool) (a : α) : Prop :=
  ∀ ⦃b c⦄, eq a b = true → eq b c = true → eq a c = true

theorem F64.transAt (a : F64) : TransAt F64.eq a := fun _ _ => F64.eq_trans

theorem F32.transAt (a : F32) : TransAt F32.eq a := by
  intro b c first second
  simp only [F32.eq, Bool.and_eq_true, beq_iff_eq] at *
  exact ⟨⟨first.1.1, second.1.2⟩, first.2.trans second.2⟩

theorem transAt_isEqv {α : Type} {eq : α → α → Bool} {as : List α} (elements : ∀ a ∈ as, TransAt eq a) :
    TransAt (List.isEqv · · eq) as := by
  intro bs cs first second
  induction as generalizing bs cs with
  | nil =>
    cases bs with
    | nil => exact second
    | cons b bs => cases first
  | cons a as ih =>
    obtain ⟨head, rest⟩ := List.forall_mem_cons.mp elements
    cases bs with
    | nil => cases first
    | cons b bs =>
      cases cs with
      | nil => cases second
      | cons c cs =>
        simp only [List.isEqv, Bool.and_eq_true] at *
        exact ⟨head first.1 second.1, ih rest first.2 second.2⟩

theorem transAt_and {α β : Type} {eq : α → α → Bool} {eq' : β → β → Bool} {a : α} {b : β}
    (left : TransAt eq a) (right : TransAt eq' b) :
    TransAt (fun x y : α × β => eq x.1 y.1 && eq' x.2 y.2) (a, b) := by
  intro x y first second
  simp only [Bool.and_eq_true] at *
  exact ⟨left first.1 second.1, right first.2 second.2⟩

/-! ## Geometries -/

def Position.eq (a b : Position) : Bool := a.1.eq b.1 && a.2.eq b.2

theorem Position.transAt (a : Position) : TransAt Position.eq a := transAt_and (F64.transAt a.1) (F64.transAt a.2)

mutual

def GeoJsonGeometry.eq : GeoJsonGeometry → GeoJsonGeometry → Bool
  | .point p, b => match b with | .point q => Position.eq p q | _ => false
  | .multiPoint ps, b => match b with | .multiPoint qs => ps.isEqv qs Position.eq | _ => false
  | .lineString ps, b => match b with | .lineString qs => ps.isEqv qs Position.eq | _ => false
  | .multiLineString ps, b =>
    match b with
    | .multiLineString qs => ps.isEqv qs (List.isEqv · · Position.eq)
    | _ => false
  | .polygon ps, b =>
    match b with
    | .polygon qs => ps.isEqv qs (List.isEqv · · Position.eq)
    | _ => false
  | .multiPolygon ps, b =>
    match b with
    | .multiPolygon qs => ps.isEqv qs (List.isEqv · · (List.isEqv · · Position.eq))
    | _ => false
  | .geometryCollection gs, b => match b with | .geometryCollection hs => eqGeometries gs hs | _ => false
termination_by structural a => a

def eqGeometries : List GeoJsonGeometry → List GeoJsonGeometry → Bool
  | [], b => b.isEmpty
  | g :: gs, b => match b with | [] => false | h :: hs => g.eq h && eqGeometries gs hs
termination_by structural a => a

end

theorem eqGeometries_eq (as bs : List GeoJsonGeometry) :
    eqGeometries as bs = as.isEqv bs GeoJsonGeometry.eq := by
  induction as generalizing bs with
  | nil => cases bs <;> rfl
  | cons a as ih =>
    cases bs with
    | nil => rfl
    | cons b bs => simp only [eqGeometries, List.isEqv, ih]

/-- The geometries of a collection. -/
def GeoJsonGeometry.members : GeoJsonGeometry → List GeoJsonGeometry
  | .geometryCollection gs => gs
  | _ => []

theorem GeoJsonGeometry.transAt_of_members {a : GeoJsonGeometry}
    (members : ∀ g ∈ a.members, TransAt GeoJsonGeometry.eq g) : TransAt GeoJsonGeometry.eq a := by
  intro b c first second
  have points (ps : List Position) : TransAt (List.isEqv · · Position.eq) ps :=
    transAt_isEqv fun p _ => Position.transAt p
  have lines (ls : List (List Position)) : TransAt (List.isEqv · · (List.isEqv · · Position.eq)) ls :=
    transAt_isEqv fun ps _ => points ps
  cases a
  all_goals
    unfold GeoJsonGeometry.eq at first
    split at first
    · unfold GeoJsonGeometry.eq at second ⊢
      split at second
      · first
        | exact Position.transAt _ first second
        | exact points _ first second
        | exact lines _ first second
        | exact transAt_isEqv (fun ls _ => lines ls) first second
        | (simp only [eqGeometries_eq] at *; exact transAt_isEqv members first second)
      · cases second
    · cases first

theorem GeoJsonGeometry.sizeOf_member {a g : GeoJsonGeometry} (member : g ∈ a.members) :
    sizeOf g < sizeOf a := by
  cases a with
  | geometryCollection gs =>
    have : sizeOf g < sizeOf gs := List.sizeOf_lt_of_mem member
    simp only [GeoJsonGeometry.geometryCollection.sizeOf_spec]
    omega
  | _ => cases member

theorem GeoJsonGeometry.transAt (a : GeoJsonGeometry) : TransAt GeoJsonGeometry.eq a :=
  transAt_of_members fun g _ => g.transAt
termination_by a
decreasing_by exact GeoJsonGeometry.sizeOf_member ‹_›

/-! ## Values -/

mutual

def Value.eq : Value → Value → Bool
  | .null, b => match b with | .null => true | _ => false
  | .bool x, b => match b with | .bool y => x == y | _ => false
  | .int8 x, b => match b with | .int8 y => x == y | _ => false
  | .int16 x, b => match b with | .int16 y => x == y | _ => false
  | .int32 x, b => match b with | .int32 y => x == y | _ => false
  | .int64 x, b => match b with | .int64 y => x == y | _ => false
  | .uint8 x, b => match b with | .uint8 y => x == y | _ => false
  | .uint16 x, b => match b with | .uint16 y => x == y | _ => false
  | .uint32 x, b => match b with | .uint32 y => x == y | _ => false
  | .uint64 x, b => match b with | .uint64 y => x == y | _ => false
  | .float32 x, b => match b with | .float32 y => x.eq y | _ => false
  | .float64 x, b => match b with | .float64 y => x.eq y | _ => false
  | .string x, b => match b with | .string y => x == y | _ => false
  | .binary x, b => match b with | .binary y => x == y | _ => false
  | .date y m d, b => match b with | .date y' m' d' => (y, m, d) == (y', m', d') | _ => false
  | .time h m s n, b => match b with | .time h' m' s' n' => (h, m, s, n) == (h', m', s', n') | _ => false
  | .dateTime s n, b => match b with | .dateTime s' n' => (s, n) == (s', n') | _ => false
  | .duration x, b => match b with | .duration y => x == y | _ => false
  | .timestamp x, b => match b with | .timestamp y => x == y | _ => false
  | .decimal x p s, b => match b with | .decimal x' p' s' => (x, p, s) == (x', p', s') | _ => false
  | .array xs, b => match b with | .array ys => eqItems xs ys | _ => false
  | .object x, b => match b with | .object y => x.length == y.length && entriesIn x y | _ => false
  | .map x, b => match b with | .map y => x.length == y.length && entriesIn x y | _ => false
  | .reference c i, b => match b with | .reference c' i' => (c, i) == (c', i') | _ => false
  | .geoPoint lat lon, b => match b with | .geoPoint lat' lon' => lat.eq lat' && lon.eq lon' | _ => false
  | .geoShape x, b => match b with | .geoShape y => x.eq y | _ => false
  | .vector xs, b => match b with | .vector ys => xs.isEqv ys F32.eq | _ => false
termination_by structural a => a

def eqItems : List Value → List Value → Bool
  | [], b => b.isEmpty
  | x :: xs, b => match b with | [] => false | y :: ys => x.eq y && eqItems xs ys
termination_by structural a => a

/-- The map has the entry. -/
def entryIn : Text × Value → List (Text × Value) → Bool
  | (key, x), map => match map.lookup key with | none => false | some y => x.eq y
termination_by structural a => a

def entriesIn : List (Text × Value) → List (Text × Value) → Bool
  | [], _ => true
  | e :: entries, map => entryIn e map && entriesIn entries map
termination_by structural a => a

end

theorem eqItems_eq (as bs : List Value) : eqItems as bs = as.isEqv bs Value.eq := by
  induction as generalizing bs with
  | nil => cases bs <;> rfl
  | cons a as ih =>
    cases bs with
    | nil => rfl
    | cons b bs => simp only [eqItems, List.isEqv, ih]

/-- `HashMap::eq`. -/
def sameEntries (x y : List (Text × Value)) : Bool := x.length == y.length && entriesIn x y

theorem entriesIn_eq (entries map : List (Text × Value)) : entriesIn entries map = entries.all (entryIn · map) := by
  induction entries with
  | nil => rfl
  | cons e entries ih => rw [entriesIn, List.all_cons, ih]

/-- What a map has under a key is what another has that holds its entries. -/
theorem entryIn_eq_true {key : Text} {x : Value} {map : List (Text × Value)} :
    entryIn (key, x) map = true ↔ ∃ y, map.lookup key = some y ∧ x.eq y = true := by
  rw [entryIn]
  cases map.lookup key <;> simp

def Value.parts : Value → List Value
  | .array items => items
  | .object entries => entries.map Prod.snd
  | .map entries => entries.map Prod.snd
  | _ => []

theorem Value.sizeOf_part {a v : Value} (member : v ∈ a.parts) : sizeOf v < sizeOf a := by
  have entry {entries : List (Text × Value)} (member : v ∈ entries.map Prod.snd) :
      sizeOf v < sizeOf entries := by
    obtain ⟨⟨key, value⟩, inEntries, rfl⟩ := List.mem_map.mp member
    have := List.sizeOf_lt_of_mem inEntries
    simp only [Prod.mk.sizeOf_spec] at this ⊢
    omega
  cases a with
  | array items =>
    have : sizeOf v < sizeOf items := List.sizeOf_lt_of_mem member
    simp only [Value.array.sizeOf_spec]
    omega
  | object entries =>
    have := entry member
    simp only [Value.object.sizeOf_spec]
    omega
  | map entries =>
    have := entry member
    simp only [Value.map.sizeOf_spec]
    omega
  | _ => cases member

theorem mem_of_lookup {V : Type} {map : List (Text × V)} {key : Text} {v : V} (found : map.lookup key = some v) :
    (key, v) ∈ map := by
  obtain ⟨before, after, rfl, -⟩ := List.lookup_eq_some_iff.mp found
  exact List.mem_append_right before (.head _)

theorem transAt_entries {entries : List (Text × Value)}
    (values : ∀ v ∈ entries.map Prod.snd, TransAt Value.eq v) :
    TransAt sameEntries entries := by
  intro y z first second
  simp only [sameEntries, Bool.and_eq_true, beq_iff_eq, entriesIn_eq, List.all_eq_true] at *
  refine ⟨first.1.trans second.1, ?_⟩
  rintro ⟨key, x⟩ member
  obtain ⟨v, found, same⟩ := entryIn_eq_true.mp (first.2 _ member)
  obtain ⟨w, found', same'⟩ := entryIn_eq_true.mp (second.2 _ (mem_of_lookup found))
  exact entryIn_eq_true.mpr ⟨w, found', values x (List.mem_map_of_mem member) same same'⟩

/-- No float is in the value, and no part. -/
def Value.isExact : Value → Bool
  | .float32 _ | .float64 _ | .array _ | .object _ | .map _ | .geoPoint .. | .geoShape _ | .vector _ => false
  | _ => true

/-- Without floats and parts equality is identity. -/
theorem Value.eq_of_isExact {a b : Value} (exact : a.isExact = true) (same : a.eq b = true) : a = b := by
  cases a
  all_goals
    first
    | contradiction
    | (unfold Value.eq at same
       split at same
       · first
         | rfl
         | rw [eq_of_beq same]
         | (cases eq_of_beq same; rfl)
       · contradiction)

section Kinds

variable {b : Value}

theorem Value.eq_float32 {x : F32} (same : (Value.float32 x).eq b = true) :
    ∃ y, b = .float32 y ∧ x.eq y = true := by
  cases b with
  | float32 y => exact ⟨y, rfl, same⟩
  | _ => cases same

theorem Value.eq_float64 {x : F64} (same : (Value.float64 x).eq b = true) :
    ∃ y, b = .float64 y ∧ x.eq y = true := by
  cases b with
  | float64 y => exact ⟨y, rfl, same⟩
  | _ => cases same

theorem Value.eq_array {xs : List Value} (same : (Value.array xs).eq b = true) :
    ∃ ys, b = .array ys ∧ xs.isEqv ys Value.eq = true := by
  cases b with
  | array ys => exact ⟨ys, rfl, (eqItems_eq xs ys).symm.trans same⟩
  | _ => cases same

theorem Value.eq_object {x : List (Text × Value)} (same : (Value.object x).eq b = true) :
    ∃ y, b = .object y ∧ sameEntries x y = true := by
  cases b with
  | object y => exact ⟨y, rfl, same⟩
  | _ => cases same

theorem Value.eq_map {x : List (Text × Value)} (same : (Value.map x).eq b = true) :
    ∃ y, b = .map y ∧ sameEntries x y = true := by
  cases b with
  | map y => exact ⟨y, rfl, same⟩
  | _ => cases same

theorem Value.eq_geoPoint {lat lon : F64} (same : (Value.geoPoint lat lon).eq b = true) :
    ∃ lat' lon', b = .geoPoint lat' lon' ∧ Position.eq (lat, lon) (lat', lon') = true := by
  cases b with
  | geoPoint lat' lon' => exact ⟨lat', lon', rfl, same⟩
  | _ => cases same

theorem Value.eq_geoShape {x : GeoJsonGeometry} (same : (Value.geoShape x).eq b = true) :
    ∃ y, b = .geoShape y ∧ x.eq y = true := by
  cases b with
  | geoShape y => exact ⟨y, rfl, same⟩
  | _ => cases same

theorem Value.eq_vector {xs : List F32} (same : (Value.vector xs).eq b = true) :
    ∃ ys, b = .vector ys ∧ xs.isEqv ys F32.eq = true := by
  cases b with
  | vector ys => exact ⟨ys, rfl, same⟩
  | _ => cases same

end Kinds

theorem Value.transAt_of_parts {a : Value} (parts : ∀ v ∈ a.parts, TransAt Value.eq v) :
    TransAt Value.eq a := by
  intro b c first second
  cases exact : a.isExact with
  | true => rwa [Value.eq_of_isExact exact first]
  | false =>
    cases a with
    | float32 x =>
      obtain ⟨_, rfl, left⟩ := Value.eq_float32 first
      obtain ⟨_, rfl, right⟩ := Value.eq_float32 second
      exact F32.transAt x left right
    | float64 x =>
      obtain ⟨_, rfl, left⟩ := Value.eq_float64 first
      obtain ⟨_, rfl, right⟩ := Value.eq_float64 second
      exact F64.transAt x left right
    | array xs =>
      obtain ⟨_, rfl, left⟩ := Value.eq_array first
      obtain ⟨_, rfl, right⟩ := Value.eq_array second
      exact (eqItems_eq xs _).trans (transAt_isEqv parts left right)
    | object x =>
      obtain ⟨_, rfl, left⟩ := Value.eq_object first
      obtain ⟨_, rfl, right⟩ := Value.eq_object second
      exact transAt_entries parts left right
    | map x =>
      obtain ⟨_, rfl, left⟩ := Value.eq_map first
      obtain ⟨_, rfl, right⟩ := Value.eq_map second
      exact transAt_entries parts left right
    | geoPoint lat lon =>
      obtain ⟨lat', lon', rfl, left⟩ := Value.eq_geoPoint first
      obtain ⟨lat'', lon'', rfl, right⟩ := Value.eq_geoPoint second
      exact Position.transAt (lat, lon) (c := (lat'', lon'')) left right
    | geoShape x =>
      obtain ⟨_, rfl, left⟩ := Value.eq_geoShape first
      obtain ⟨_, rfl, right⟩ := Value.eq_geoShape second
      exact x.transAt left right
    | vector xs =>
      obtain ⟨_, rfl, left⟩ := Value.eq_vector first
      obtain ⟨_, rfl, right⟩ := Value.eq_vector second
      exact transAt_isEqv (fun x _ => F32.transAt x) left right
    | _ => cases exact

theorem Value.transAt (a : Value) : TransAt Value.eq a :=
  transAt_of_parts fun v _ => v.transAt
termination_by a
decreasing_by exact Value.sizeOf_part ‹_›

end NovaRuntime.Object
