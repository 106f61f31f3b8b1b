/-
# NovaRuntime.Blob.Quotas — what a namespace uses, and what its quota says

A quota is kept beside the store. `Metered` says how far it may be off: by the blobs whose
creations have stored them and not counted them yet, and by those whose deletions have to
count them still. In every run that meets `Billed` the counters are the usage of the
namespace whenever no such step is outstanding, and a creation that returns stays within
the limits. What `Billed` leaves out is

* a quota that is set on a namespace that has blobs, which starts at nothing
  (`late_quota`), and one that is set while a creation has checked the old one;
* the expiry of a blob in a namespace with a quota, which the collector does not count;
* two creations that check one quota before either has counted;
* a sum of bytes beyond 64 bits, which the check of the quota wraps;
* two deletions of one blob, or a deletion before the creation has counted: a counter that
  is at zero stays there.
-/
import NovaRuntime.Blob.Readable

namespace NovaRuntime.Blob

open NovaRuntime.Library

set_option autoImplicit false

/-! ## Usage -/

/-- The blobs of a namespace, each with a weight for its size: one, or the size itself. -/
def load (weigh : Nat → Nat) (ns : Text) (entries : List (Text × Nat)) : Nat :=
  ((entries.filter fun e => e.1 = ns).map fun e => weigh e.2).sum

section

variable {weigh : Nat → Nat} {ns : Text} {entries entries' : List (Text × Nat)}

theorem load_cons_self (size : Nat) : load weigh ns ((ns, size) :: entries) = weigh size + load weigh ns entries := by
  rw [load, List.filter_cons_of_pos (by simp), List.map_cons, List.sum_cons]
  rfl

theorem load_cons_ne {name : Text} (other : name ≠ ns) (size : Nat) :
    load weigh ns ((name, size) :: entries) = load weigh ns entries := by
  rw [load, List.filter_cons_of_neg (by simpa using other)]
  rfl

theorem load_append : load weigh ns (entries ++ entries') = load weigh ns entries + load weigh ns entries' := by
  rw [load, List.filter_append, List.map_append, List.sum_append]
  rfl

theorem load_cons (e : Text × Nat) : load weigh ns (e :: entries) = load weigh ns [e] + load weigh ns entries := by
  rw [← List.singleton_append, load_append]

theorem load_perm (same : entries.Perm entries') : load weigh ns entries = load weigh ns entries' :=
  ((same.filter _).map _).sum_nat

/-- What is there weighs no more than all that is there. -/
theorem weigh_le_load {size : Nat} (member : (ns, size) ∈ entries) : weigh size ≤ load weigh ns entries := by
  obtain ⟨front, behind, rfl⟩ := List.append_of_mem member
  rw [load_append, load_cons_self]
  omega

theorem load_eq_zero (absent : ns ∉ entries.map Prod.fst) : load weigh ns entries = 0 := by
  rw [load, List.filter_eq_nil_iff.mpr]
  · rfl
  · intro e member
    rw [decide_eq_true_eq]
    exact fun same => absent (same ▸ List.mem_map_of_mem member)

end

/-- A creation that has stored its blob, and not counted it. -/
def Task.owes : Task → List Draft
  | .counting draft => [draft]
  | _ => []

/-- A blob that is deleted, and not yet counted out. -/
def Task.freed : Task → List (Text × Nat)
  | .uncounting blob => [(blob.nameSpace, blob.size)]
  | _ => []

def Draft.entry (draft : Draft) : Text × Nat := (draft.nameSpace, draft.data.length)

def stored (s : Blobs) : List (Text × Nat) := s.store.metadata.map fun blob => (blob.nameSpace, blob.size)

def owed (tasks : List Task) : List (Text × Nat) := (tasks.flatMap Task.owes).map Draft.entry

/-- The creations in a namespace that have passed the check of the quota. -/
def charged (ns : Text) (tasks : List Task) : List Draft :=
  (tasks.flatMap fun task => task.charges.toList).filter fun draft => draft.nameSpace = ns

/-- A counter of the quotas, and what is outstanding. -/
def Balance (s : Blobs) (tasks : List Task) (weigh : Nat → Nat) (current : NamespaceQuota → Nat) : Prop :=
  ∀ ns quota, s.quotas ns = some quota →
    current quota + load weigh ns (owed tasks) = load weigh ns (stored s) + load weigh ns (tasks.flatMap Task.freed)

structure Metered (s : Blobs) (tasks : List Task) : Prop where
  blobs : Balance s tasks (fun _ => 1) NamespaceQuota.currentBlobs
  bytes : Balance s tasks id NamespaceQuota.currentBytes
  fits : ∀ ns quota, s.quotas ns = some quota →
    quota.maxBlobs < 18446744073709551616 ∧ quota.maxTotalBytes < 18446744073709551616
  sole : ∀ ns quota, s.quotas ns = some quota → (charged ns tasks).length ≤ 1
  room : ∀ ns quota, s.quotas ns = some quota → ∀ draft ∈ charged ns tasks,
    quota.currentBlobs + 1 ≤ quota.maxBlobs ∧ quota.currentBytes + draft.data.length ≤ quota.maxTotalBytes
  copies : ∀ task ∈ tasks, ∀ blob ∈ task.doomed, ∃ other ∈ s.store.metadata,
    other.id = blob.id ∧ (other.nameSpace, other.size) = (blob.nameSpace, blob.size)
  kept : ∀ draft ∈ tasks.flatMap Task.owes, draft.id ∉ tasks.flatMap Task.victim ∧
    ∃ blob ∈ s.store.metadata, blob.id = draft.id ∧ (blob.nameSpace, blob.size) = draft.entry

section

variable {X : Extern} {c : BlobConfig} {s s' : Blobs} {task : Task} {tasks tasks' rest next : List Task}
  {weigh : Nat → Nat} {ns : Text} {draft : Draft} {blob : BlobMetadata}
variable {quota : NamespaceQuota}

theorem charged_append : charged ns (tasks ++ tasks') = charged ns tasks ++ charged ns tasks' := by
  rw [charged, List.flatMap_append, List.filter_append]
  rfl

theorem charged_perm (same : tasks.Perm tasks') : (charged ns tasks).Perm (charged ns tasks') :=
  (same.flatMap_right _).filter _

theorem owed_perm (same : tasks.Perm tasks') : (owed tasks).Perm (owed tasks') :=
  (same.flatMap_right _).map _

theorem owes_sublist (tasks : List Task) :
    (tasks.flatMap Task.owes).Sublist (tasks.flatMap fun task => task.charges.toList) := by
  induction tasks with
  | nil => exact .refl _
  | cons task tasks ih =>
    rw [List.flatMap_cons, List.flatMap_cons]
    refine List.Sublist.append ?_ ih
    cases task <;> first | exact .refl _ | exact List.nil_sublist _

/-- Nothing is owed where no creation has passed the check. -/
theorem load_owed (alone : charged ns tasks = []) : load weigh ns (owed tasks) = 0 := by
  refine load_eq_zero fun inside => ?_
  obtain ⟨e, member, same⟩ := List.mem_map.mp inside
  obtain ⟨draft, owes, rfl⟩ := List.mem_map.mp member
  have charges : draft ∈ charged ns tasks :=
    List.mem_filter.mpr ⟨(owes_sublist tasks).mem owes, decide_eq_true same⟩
  rw [alone] at charges
  exact nomatch charges

theorem Metered.perm (metered : Metered s tasks) (same : tasks.Perm tasks') : Metered s tasks' where
  blobs ns quota found := by
    rw [← load_perm (owed_perm same), ← load_perm (same.flatMap_right _)]
    exact metered.blobs ns quota found
  bytes ns quota found := by
    rw [← load_perm (owed_perm same), ← load_perm (same.flatMap_right _)]
    exact metered.bytes ns quota found
  fits := metered.fits
  sole ns quota found := by
    rw [← (charged_perm same).length_eq]
    exact metered.sole ns quota found
  room ns quota found draft member := metered.room ns quota found draft ((charged_perm same).mem_iff.mpr member)
  copies task member := metered.copies task (same.mem_iff.mpr member)
  kept draft member := by
    obtain ⟨apart, there⟩ := metered.kept draft ((same.flatMap_right _).mem_iff.mpr member)
    exact ⟨fun victim => apart ((same.flatMap_right _).mem_iff.mpr victim), there⟩

/-- What is owed is stored. -/
theorem Metered.owed_le (metered : Metered s tasks) (weigh : Nat → Nat) (found : s.quotas ns = some quota) :
    load weigh ns (owed tasks) ≤ load weigh ns (stored s) := by
  have few : ((tasks.flatMap Task.owes).filter fun draft => draft.nameSpace = ns).length ≤ 1 :=
    Nat.le_trans ((owes_sublist tasks).filter _).length_le (metered.sole ns quota found)
  have loads : load weigh ns (owed tasks) =
      (((tasks.flatMap Task.owes).filter fun draft => draft.nameSpace = ns).map
        fun draft => weigh draft.data.length).sum := by
    rw [load, owed, List.filter_map, List.map_map]
    rfl
  rw [loads]
  cases here : (tasks.flatMap Task.owes).filter fun draft => draft.nameSpace = ns with
  | nil => exact Nat.zero_le _
  | cons draft others =>
    rw [here, List.length_cons] at few
    obtain rfl : others = [] := List.eq_nil_of_length_eq_zero (by omega)
    obtain ⟨member, same⟩ := List.mem_filter.mp (here ▸ List.mem_cons_self .. : draft ∈ _)
    obtain ⟨-, blob, inside, -, entry⟩ := metered.kept draft member
    rw [List.map_singleton, List.sum_singleton]
    refine weigh_le_load (List.mem_map.mpr ⟨blob, inside, ?_⟩)
    rw [entry, Draft.entry, of_decide_eq_true same]

/-! ## One step -/

theorem charged_cons : charged ns (task :: rest) = charged ns [task] ++ charged ns rest := by
  rw [← List.singleton_append, charged_append]

/-- A step that stores, deletes and counts nothing. -/
theorem Metered.turn (metered : Metered s (task :: rest)) (quotas : s'.quotas = s.quotas)
    (metadata : s'.store.metadata = s.store.metadata) (owes : next.flatMap Task.owes = task.owes)
    (freed : next.flatMap Task.freed = task.freed)
    (charges : ∀ ns quota, s.quotas ns = some quota → (charged ns next).Sublist (charged ns [task]) ∨
      charged ns rest = [] ∧ (charged ns next).length ≤ 1 ∧ ∀ draft ∈ charged ns next,
        quota.currentBlobs + 1 ≤ quota.maxBlobs ∧ quota.currentBytes + draft.data.length ≤ quota.maxTotalBytes)
    (doomed : ∀ t ∈ next, ∀ blob ∈ t.doomed, blob ∈ task.doomed ∨ blob ∈ s.store.metadata)
    (victims : ∀ draft ∈ (task :: rest).flatMap Task.owes, draft.id ∈ next.flatMap Task.victim →
      draft.id ∈ task.victim) : Metered s' (next ++ rest) := by
  have owes_eq : (next ++ rest).flatMap Task.owes = (task :: rest).flatMap Task.owes := by
    rw [List.flatMap_append, owes, List.flatMap_cons]
  have owed_eq : owed (next ++ rest) = owed (task :: rest) := congrArg (List.map Draft.entry) owes_eq
  have freed_eq : (next ++ rest).flatMap Task.freed = (task :: rest).flatMap Task.freed := by
    rw [List.flatMap_append, freed, List.flatMap_cons]
  have stored_eq : stored s' = stored s := by rw [stored, stored, metadata]
  constructor
  · intro ns quota found
    rw [owed_eq, freed_eq, stored_eq]
    exact metered.blobs ns quota (quotas ▸ found)
  · intro ns quota found
    rw [owed_eq, freed_eq, stored_eq]
    exact metered.bytes ns quota (quotas ▸ found)
  · rw [quotas]
    exact metered.fits
  · intro ns quota found
    rw [quotas] at found
    have before := metered.sole ns quota found
    rw [charged_cons, List.length_append] at before
    rw [charged_append, List.length_append]
    rcases charges ns quota found with fewer | ⟨alone, one, -⟩
    · have := fewer.length_le
      omega
    · rw [alone, List.length_nil]
      exact one
  · intro ns quota found draft member
    rw [quotas] at found
    have before := metered.room ns quota found
    rw [charged_cons] at before
    rw [charged_append, List.mem_append] at member
    rcases charges ns quota found with fewer | ⟨alone, -, room⟩
    · exact before draft (List.mem_append.mpr (member.imp_left fewer.mem))
    · rw [alone] at member
      exact room draft (member.resolve_right List.not_mem_nil)
  · intro t member blob dies
    rw [metadata]
    rcases List.mem_append.mp member with here | there
    · rcases doomed t here blob dies with was | inside
      · exact metered.copies task (.head _) blob was
      · exact ⟨blob, inside, rfl, rfl⟩
    · exact metered.copies t (.tail _ there) blob dies
  · intro draft member
    rw [owes_eq] at member
    obtain ⟨apart, there⟩ := metered.kept draft member
    rw [metadata]
    refine ⟨fun victim => apart ?_, there⟩
    rw [List.flatMap_append, List.mem_append] at victim
    rw [List.flatMap_cons, List.mem_append]
    exact victim.imp_left (victims draft member)

theorem victim_of_doomed (dies : blob ∈ task.doomed) : blob.id ∈ task.victim := by
  cases task <;> first | exact absurd dies List.not_mem_nil | exact List.mem_singleton.mpr (congrArg _ (List.mem_singleton.mp dies))

/-- What moves between the store and the tasks changes no counter. -/
theorem Balance.move {current : NamespaceQuota → Nat} (balance : Balance s tasks weigh current)
    (quotas : s'.quotas = s.quotas)
    (moves : ∀ ns quota, s.quotas ns = some quota → load weigh ns (owed tasks') +
      (load weigh ns (stored s) + load weigh ns (tasks.flatMap Task.freed)) =
        load weigh ns (owed tasks) + (load weigh ns (stored s') + load weigh ns (tasks'.flatMap Task.freed))) :
    Balance s' tasks' weigh current := by
  intro ns quota found
  have before := balance ns quota (quotas ▸ found)
  have moved := moves ns quota (quotas ▸ found)
  omega

/-- The identifier of a creation is not that of a stored blob. -/
theorem Ordered.not_stored (ordered : Ordered X c s (task :: rest)) {id : Text} (draws : task.draws = [id]) :
    id ∉ s.store.metadata.map BlobMetadata.id := by
  have distinct := ordered.distinct
  rw [ids, List.flatMap_cons, draws] at distinct
  exact fun inside => (List.nodup_cons.mp distinct).1 (List.mem_append_right _ (List.mem_append_right _ inside))

theorem Metered.store (metered : Metered s (.recording draft [] :: rest))
    (ordered : Ordered X c s (.recording draft [] :: rest)) :
    Metered { s with store := s.store.putMetadata (draft.metadata X c) } ([.counting draft] ++ rest) := by
  have metadata := ordered.putMetadata_eq (draft.metadata X c) rfl
  have new := ordered.not_stored rfl
  have stored_eq : stored { s with store := s.store.putMetadata (draft.metadata X c) } =
      stored s ++ [draft.entry] := by
    rw [stored, metadata, List.map_append]
    rfl
  have moves (weigh : Nat → Nat) (ns : Text) :
      load weigh ns (owed ([Task.counting draft] ++ rest)) + (load weigh ns (stored s) +
        load weigh ns ((Task.recording draft [] :: rest).flatMap Task.freed)) =
      load weigh ns (owed (.recording draft [] :: rest)) +
        (load weigh ns (stored { s with store := s.store.putMetadata (draft.metadata X c) }) +
          load weigh ns (([Task.counting draft] ++ rest).flatMap Task.freed)) := by
    have owes : owed ([Task.counting draft] ++ rest) = draft.entry :: owed rest := rfl
    have owed_ : owed (.recording draft [] :: rest) = owed rest := rfl
    have freed : ([Task.counting draft] ++ rest).flatMap Task.freed = rest.flatMap Task.freed := rfl
    have freed_ : (Task.recording draft [] :: rest).flatMap Task.freed = rest.flatMap Task.freed := rfl
    rw [owes, owed_, freed, freed_, stored_eq, load_cons, load_append]
    omega
  constructor
  · exact metered.blobs.move rfl fun ns _ _ => moves _ ns
  · exact metered.bytes.move rfl fun ns _ _ => moves _ ns
  · exact metered.fits
  · exact metered.sole
  · exact metered.room
  · intro t member blob dies
    have inside : blob ∈ t.doomed := dies
    rcases List.mem_cons.mp member with rfl | there
    · exact nomatch inside
    · obtain ⟨other, old, same⟩ := metered.copies t (.tail _ there) blob inside
      exact ⟨other, by rw [metadata]; exact List.mem_append_left _ old, same⟩
  · intro other member
    rcases List.mem_cons.mp member with rfl | there
    · refine ⟨fun victim => new (ordered.stored _ victim), other.metadata X c, ?_, rfl, rfl⟩
      rw [metadata]
      exact List.mem_append_right _ (.head _)
    · obtain ⟨apart, blob, old, same⟩ := metered.kept other there
      exact ⟨apart, blob, by rw [metadata]; exact List.mem_append_left _ old, same⟩

/-- What is left when a blob is deleted. -/
theorem stored_delete (ordered : Ordered X c s tasks) {other : BlobMetadata} (inside : other ∈ s.store.metadata)
    (same : other.id = blob.id) (entry : (other.nameSpace, other.size) = (blob.nameSpace, blob.size)) :
    (stored s).Perm ((blob.nameSpace, blob.size) :: stored { s with store := s.store.deleteMetadata blob.id }) := by
  have distinct : (s.store.metadata.map BlobMetadata.id).Nodup :=
    (List.nodup_append.mp (List.nodup_append.mp ordered.distinct).2.1).2.1
  have front := perm_filter_of_mem (p := fun _ => true) distinct inside rfl
  rw [List.filter_true] at front
  have moved := front.map fun b => (b.nameSpace, b.size)
  rw [List.map_cons, entry] at moved
  refine moved.trans (List.Perm.of_eq ?_)
  rw [stored, Store.deleteMetadata]
  congr 2
  refine List.filter_congr fun b _ => ?_
  rw [Bool.and_true, same, Bool.eq_iff_iff, decide_eq_true_eq, bne_iff_ne]

/-- A blob is deleted: its deletion has to count it out, or there is no quota. -/
theorem Metered.delete {by_ : Deleter} {t : Task} (metered : Metered s (.releasing blob [] by_ :: rest))
    (ordered : Ordered X c s (.releasing blob [] by_ :: rest)) (owes : t.owes = []) (charges : t.charges = none)
    (doomed : t.doomed = []) (victim : t.victim = [])
    (freed : t.freed = [(blob.nameSpace, blob.size)] ∨ t.freed = [] ∧ s.quotas blob.nameSpace = none) :
    Metered { s with store := s.store.deleteMetadata blob.id } ([t] ++ rest) := by
  obtain ⟨other, inside, same, entry⟩ :=
    metered.copies (.releasing blob [] by_) (.head _) blob (.head _)
  have gone := stored_delete ordered inside same entry
  have apart := ordered.apart
  rw [List.flatMap_cons] at apart
  have elsewhere : blob.id ∉ rest.flatMap Task.victim := (List.nodup_cons.mp apart).1
  have still {b : BlobMetadata} (there : b ∈ s.store.metadata) (ne : b.id ≠ blob.id) :
      b ∈ (s.store.deleteMetadata blob.id).metadata := List.mem_filter.mpr ⟨there, bne_iff_ne.mpr ne⟩
  have charges_eq (ns : Text) : charged ns ([t] ++ rest) = charged ns (.releasing blob [] by_ :: rest) := by
    rw [charged_append, charged_cons]
    rw [charged, List.flatMap_singleton, charges]
    rfl
  have owes_eq : ([t] ++ rest).flatMap Task.owes = (Task.releasing blob [] by_ :: rest).flatMap Task.owes := by
    rw [List.flatMap_append, List.flatMap_singleton, owes]
    rfl
  have owed_eq : owed ([t] ++ rest) = owed (.releasing blob [] by_ :: rest) :=
    congrArg (List.map Draft.entry) owes_eq
  have moves (weigh : Nat → Nat) (ns : Text) (quota : NamespaceQuota) (found : s.quotas ns = some quota) :
      load weigh ns (owed ([t] ++ rest)) + (load weigh ns (stored s) +
        load weigh ns ((Task.releasing blob [] by_ :: rest).flatMap Task.freed)) =
      load weigh ns (owed (.releasing blob [] by_ :: rest)) +
        (load weigh ns (stored { s with store := s.store.deleteMetadata blob.id }) +
          load weigh ns (([t] ++ rest).flatMap Task.freed)) := by
    have freed_ : (Task.releasing blob [] by_ :: rest).flatMap Task.freed = rest.flatMap Task.freed := rfl
    rw [owed_eq, load_perm gone, load_cons, freed_, List.flatMap_append, load_append, List.flatMap_singleton]
    rcases freed with freed | ⟨freed, unlimited⟩
    · rw [freed]
      omega
    · have ne : blob.nameSpace ≠ ns := by
        rintro rfl
        rw [unlimited] at found
        cases found
      rw [freed, load_cons_ne ne]
      omega
  constructor
  · exact metered.blobs.move rfl (moves _)
  · exact metered.bytes.move rfl (moves _)
  · exact metered.fits
  · intro ns quota found
    rw [charges_eq]
    exact metered.sole ns quota found
  · intro ns quota found
    rw [charges_eq]
    exact metered.room ns quota found
  · intro task member b dies
    rcases List.mem_cons.mp member with rfl | there
    · rw [doomed] at dies
      exact nomatch dies
    · obtain ⟨old, was, sameId, sameEntry⟩ := metered.copies task (.tail _ there) b dies
      refine ⟨old, still was fun here => elsewhere ?_, sameId, sameEntry⟩
      refine List.mem_flatMap.mpr ⟨task, there, ?_⟩
      rw [← here, sameId]
      exact victim_of_doomed dies
  · intro draft member
    rw [owes_eq] at member
    obtain ⟨notVictim, old, was, sameId, sameEntry⟩ := metered.kept draft member
    rw [List.flatMap_cons, List.mem_append, not_or] at notVictim
    refine ⟨?_, old, still was ?_, sameId, sameEntry⟩
    · rw [List.flatMap_append, List.flatMap_singleton, victim, List.nil_append]
      exact notVictim.2
    · rw [sameId]
      exact fun here => notVictim.1 (List.mem_singleton.mpr here)

theorem usage_cases {quotas : Quotas} {name : Text} {f : NamespaceQuota → NamespaceQuota}
    (found : (if ns = name then (quotas name).map f else quotas ns) = some quota) :
    ns ≠ name ∧ quotas ns = some quota ∨
      ns = name ∧ ∃ old, quotas ns = some old ∧ quota = f old := by
  split at found
  next here =>
    obtain ⟨old, was, rfl⟩ := Option.map_eq_some_iff.mp found
    exact .inr ⟨here, old, here ▸ was, rfl⟩
  next ne => exact .inl ⟨ne, found⟩

section

variable (metered : Metered s (.counting draft :: rest))

include metered

/-- A creation that is about to count is the only one of its namespace. -/
theorem Metered.sole_charged (found : s.quotas draft.nameSpace = some quota) : charged draft.nameSpace rest = [] := by
  have sole := metered.sole _ quota found
  have own : charged draft.nameSpace [.counting draft] = [draft] := List.filter_cons_of_pos (decide_eq_true rfl)
  rw [charged_cons, own, List.length_append, List.length_singleton] at sole
  exact List.eq_nil_of_length_eq_zero (by omega)

theorem Metered.sole_owes
    (found : s.quotas draft.nameSpace = some quota) : load weigh draft.nameSpace (owed rest) = 0 :=
  load_owed (metered.sole_charged found)

theorem Metered.count (quotas : s'.quotas = s.quotas.incrementUsage draft.nameSpace draft.data.length)
    (store : s'.store = s.store) : Metered s' rest := by
  have mine : draft ∈ charged draft.nameSpace (.counting draft :: rest) :=
    List.mem_filter.mpr ⟨.head _, decide_eq_true rfl⟩
  -- the counters stay below the limits, and so do not wrap
  have counters {old : NamespaceQuota} (was : s.quotas draft.nameSpace = some old) :
      wrap (old.currentBlobs + 1) = old.currentBlobs + 1 ∧
        wrap (old.currentBytes + draft.data.length) = old.currentBytes + draft.data.length ∧
        charged draft.nameSpace rest = [] := by
    have fits := metered.fits _ old was
    have room := metered.room _ old was draft mine
    exact ⟨Nat.mod_eq_of_lt (by omega), Nat.mod_eq_of_lt (by omega), metered.sole_charged was⟩
  have stored_eq : stored s' = stored s := by rw [stored, stored, store]
  have fewer (ns : Text) : (charged ns rest).Sublist (charged ns (.counting draft :: rest)) := by
    rw [charged_cons]
    exact List.sublist_append_right _ _
  have balance {weigh : Nat → Nat} {current : NamespaceQuota → Nat}
      (before : Balance s (.counting draft :: rest) weigh current)
      (counts : ∀ old : NamespaceQuota, s.quotas draft.nameSpace = some old →
        current { old with
          currentBlobs := wrap (old.currentBlobs + 1)
          currentBytes := wrap (old.currentBytes + draft.data.length) } = current old + weigh draft.data.length) :
      Balance s' rest weigh current := by
    intro ns quota found
    rw [quotas] at found
    rw [stored_eq]
    have owed_ : owed (.counting draft :: rest) = draft.entry :: owed rest := rfl
    rcases usage_cases found with ⟨ne, was⟩ | ⟨rfl, old, was, rfl⟩
    · have held := before ns quota was
      rw [owed_, Draft.entry, load_cons_ne (Ne.symm ne)] at held
      exact held
    · have held := before _ old was
      rw [owed_, Draft.entry, load_cons_self] at held
      rw [counts old was]
      have freed_ : (Task.counting draft :: rest).flatMap Task.freed = rest.flatMap Task.freed := rfl
      rw [freed_] at held
      omega
  constructor
  · exact balance metered.blobs fun old was => (counters was).1
  · exact balance metered.bytes fun old was => (counters was).2.1
  · intro ns quota found
    rw [quotas] at found
    rcases usage_cases found with ⟨-, was⟩ | ⟨rfl, old, was, rfl⟩
    · exact metered.fits ns quota was
    · exact metered.fits _ old was
  · intro ns quota found
    rw [quotas] at found
    rcases usage_cases found with ⟨-, was⟩ | ⟨rfl, old, was, rfl⟩
    · exact Nat.le_trans (fewer ns).length_le (metered.sole ns quota was)
    · exact Nat.le_trans (fewer _).length_le (metered.sole _ old was)
  · intro ns quota found other member
    rw [quotas] at found
    rcases usage_cases found with ⟨-, was⟩ | ⟨rfl, old, was, rfl⟩
    · exact metered.room ns quota was other ((fewer ns).mem member)
    · rw [(counters was).2.2] at member
      exact nomatch member
  · rw [store]
    exact fun t member => metered.copies t (.tail _ member)
  · rw [store]
    exact fun other member => metered.kept other (.tail _ member)

end

theorem Metered.uncount (metered : Metered s (.uncounting blob :: rest))
    (quotas : s'.quotas = s.quotas.decrementUsage blob.nameSpace blob.size)
    (store : s'.store = s.store) : Metered s' rest := by
  have stored_eq : stored s' = stored s := by rw [stored, stored, store]
  have balance {weigh : Nat → Nat} {current : NamespaceQuota → Nat}
      (before : Balance s (.uncounting blob :: rest) weigh current)
      (counts : ∀ old : NamespaceQuota,
        current { old with
          currentBlobs := old.currentBlobs - 1
          currentBytes := old.currentBytes - blob.size } = current old - weigh blob.size) :
      Balance s' rest weigh current := by
    intro ns quota found
    rw [quotas] at found
    rw [stored_eq]
    have freed_ : (Task.uncounting blob :: rest).flatMap Task.freed =
        (blob.nameSpace, blob.size) :: rest.flatMap Task.freed := rfl
    have owed_ : owed (.uncounting blob :: rest) = owed rest := rfl
    rcases usage_cases found with ⟨ne, was⟩ | ⟨rfl, old, was, rfl⟩
    · have held := before ns quota was
      rw [owed_, freed_, load_cons_ne (Ne.symm ne)] at held
      exact held
    · -- what is owed is stored, so that the counter covers the blob
      have held := before _ old was
      have covered := metered.owed_le weigh was
      rw [owed_] at covered
      rw [owed_, freed_, load_cons_self] at held
      rw [counts old]
      omega
  constructor
  · exact balance metered.blobs fun old => rfl
  · exact balance metered.bytes fun old => rfl
  · intro ns quota found
    rw [quotas] at found
    rcases usage_cases found with ⟨-, was⟩ | ⟨rfl, old, was, rfl⟩
    · exact metered.fits ns quota was
    · exact metered.fits _ old was
  · intro ns quota found
    rw [quotas] at found
    rcases usage_cases found with ⟨-, was⟩ | ⟨rfl, old, was, rfl⟩
    · exact metered.sole ns quota was
    · exact metered.sole _ old was
  · intro ns quota found other member
    rw [quotas] at found
    rcases usage_cases found with ⟨-, was⟩ | ⟨rfl, old, was, rfl⟩
    · exact metered.room ns quota was other member
    · have room := metered.room _ old was other member
      exact ⟨Nat.le_trans (Nat.add_le_add_right (Nat.sub_le _ _) _) room.1,
        Nat.le_trans (Nat.add_le_add_right (Nat.sub_le _ _) _) room.2⟩
  · rw [store]
    exact fun t member => metered.copies t (.tail _ member)
  · rw [store]
    exact fun other member => metered.kept other member

end

/-- When the quota of a namespace is checked, no other creation there has passed the check,
and its bytes with those of the new blob fit in 64 bits; and the collector deletes no blob
of a namespace with a quota. -/
def Task.Admitted (s : Blobs) (rest : List Task) : Task → Prop
  | .checking draft => s.quotas draft.nameSpace = none ∨ charged draft.nameSpace rest = [] ∧
      load id draft.nameSpace (stored s ++ rest.flatMap Task.freed) + draft.data.length < 18446744073709551616
  | .releasing blob [] (.sweep _) => s.quotas blob.nameSpace = none
  | _ => True

/-- A blob whose deletion begins has been counted. -/
def Task.Returned (s : Blobs) (rest : List Task) (task : Task) : Prop :=
  ∀ blob ∈ task.begins s, blob.id ∉ (rest.flatMap Task.owes).map Draft.id

section

variable {X : Extern} {c : BlobConfig} {s s' : Blobs} {task : Task} {rest next : List Task} {now : Int}

theorem owes_of_charges (charges : task.charges = none) : task.owes = [] := by
  cases task <;> first | rfl | cases charges

theorem freed_of_ne (other : ∀ blob, task ≠ .uncounting blob) : task.freed = [] := by
  cases task with
  | uncounting blob => exact absurd rfl (other blob)
  | _ => rfl

/-- **The check of the quota** leaves room for the blob. -/
theorem room_of_check {quota : NamespaceQuota} {draft : Draft} (found : s.quotas draft.nameSpace = some quota)
    (small : quota.currentBytes + draft.data.length < 18446744073709551616)
    (passed : s.quotas.checkQuota draft.nameSpace draft.data.length = .ok ()) :
    quota.currentBlobs + 1 ≤ quota.maxBlobs ∧ quota.currentBytes + draft.data.length ≤ quota.maxTotalBytes := by
  simp only [Quotas.checkQuota, found] at passed
  split at passed
  · cases passed
  · split at passed
    · cases passed
    next few little =>
      rw [wrap, Nat.mod_eq_of_lt small] at little
      omega

section

variable (metered : Metered s (task :: rest))

include metered

/-- The counter of the bytes is no more than the bytes that are there. -/
theorem Metered.bytes_le {ns : Text} {quota : NamespaceQuota}
    (found : s.quotas ns = some quota) (freed : task.freed = []) :
    quota.currentBytes ≤ load id ns (stored s ++ rest.flatMap Task.freed) := by
  have balance := metered.bytes ns quota found
  rw [List.flatMap_cons, freed, List.nil_append] at balance
  rw [load_append]
  omega

/-- A step that does nothing but pass the check of the quota. -/
theorem Metered.quiet (quiet : Quiet X c s task s' next)
    (single : next.length ≤ 1) (admitted : task.Admitted s rest) : Metered s' (next ++ rest) := by
  have nextOwes : next.flatMap Task.owes = [] := List.flatMap_eq_nil_iff.mpr fun t member => by
    cases t with
    | counting draft => exact absurd rfl ((quiet.plain _ member).1 draft)
    | _ => rfl
  have nextFreed : next.flatMap Task.freed = [] := List.flatMap_eq_nil_iff.mpr fun t member =>
    freed_of_ne (quiet.plain t member).2.2
  have checks {ns : Text} {draft : Draft} (member : draft ∈ charged ns next) :
      task = .checking draft ∧ draft.nameSpace = ns ∧
        s.quotas.checkQuota draft.nameSpace draft.data.length = .ok () := by
    obtain ⟨inside, same⟩ := List.mem_filter.mp member
    obtain ⟨t, there, charges⟩ := List.mem_flatMap.mp inside
    obtain ⟨checking, passed⟩ := (quiet.charges t there).2 draft (Option.mem_toList.mp charges)
    exact ⟨checking, of_decide_eq_true same, passed⟩
  refine metered.turn quiet.quotas quiet.metadata ?_ ?_ ?_ ?_ ?_
  · rw [nextOwes, owes_of_charges quiet.idle.1]
  · rw [nextFreed, freed_of_ne quiet.idle.2.2]
  · intro ns quota found
    cases passes : charged ns next with
    | nil => exact .inl (List.nil_sublist _)
    | cons draft others =>
      obtain ⟨checking, rfl, passed⟩ := checks (passes ▸ .head _ : draft ∈ charged ns next)
      rw [checking, Task.Admitted, found] at admitted
      obtain ⟨alone, small⟩ := admitted.resolve_left (Option.some_ne_none quota)
      refine .inr ⟨alone, ?_, fun other member => ?_⟩
      · rw [← passes]
        refine Nat.le_trans (List.filter_sublist.length_le) ?_
        obtain _ | ⟨t, _ | _⟩ := next
        · exact Nat.zero_le _
        · rw [List.flatMap_singleton]
          cases t.charges <;> simp
        · simp at single
      · rw [← passes] at member
        obtain ⟨same, -, -⟩ := checks member
        obtain rfl : draft = other := by
          rw [checking] at same
          exact Task.checking.inj same
        have covered := metered.bytes_le found (freed_of_ne quiet.idle.2.2)
        exact room_of_check found (by omega) passed
  · intro t member blob dies
    rw [(quiet.charges t member).1] at dies
    exact nomatch dies
  · intro draft _ member
    rwa [quiet.victim] at member

/-- A step to one task that deletes nothing new, and passes no check. -/
theorem Metered.still {t : Task} (quotas : s'.quotas = s.quotas)
    (metadata : s'.store.metadata = s.store.metadata) (owes : t.owes = task.owes) (freed : t.freed = task.freed)
    (charges : t.charges = task.charges) (doomed : t.doomed = task.doomed) (victim : t.victim = task.victim) :
    Metered s' ([t] ++ rest) := by
  refine metered.turn quotas metadata ?_ ?_ ?_ ?_ ?_
  · rw [List.flatMap_singleton, owes]
  · rw [List.flatMap_singleton, freed]
  · intro ns quota _
    have same : charged ns [t] = charged ns [task] := by
      rw [charged, charged, List.flatMap_singleton, List.flatMap_singleton, charges]
    exact .inl (same ▸ .refl _)
  · intro u member blob dies
    rw [List.mem_singleton.mp member, doomed] at dies
    exact .inl dies
  · intro draft _ member
    rwa [List.flatMap_singleton, victim] at member

end

/-- **A step** keeps the counters and what is outstanding in balance. -/
theorem metered_step (ordered : Ordered X c s (task :: rest)) (metered : Metered s (task :: rest))
    (admitted : task.Admitted s rest) (returned : task.Returned s rest) (now : Int) :
    Metered (s.taskStep X c now true task).1 ((s.taskStep X c now true task).2.toList ++ rest) := by
  have single : (s.taskStep X c now true task).2.toList.length ≤ 1 := by
    cases (s.taskStep X c now true task).2 <;> simp
  have effect := step_effect X c s now task
  revert effect single
  generalize (s.taskStep X c now true task).1 = s'
  generalize (s.taskStep X c now true task).2.toList = next
  intro single
  rintro (quiet | _ | _ | _ | ⟨draft⟩ | ⟨draft⟩ | ⟨blob, by_, _, begins, same⟩ | ⟨blob, hash, left, by_⟩ |
    ⟨hash, dies, victim, doomed, charges, -, -, -, plain, -⟩ |
    ⟨hash, dies, victim, doomed, charges, -, -, -, plain, -⟩ | ⟨blob⟩ | ⟨blob, sweep⟩ | ⟨blob⟩ | _)
  · exact metered.quiet quiet single admitted
  · exact metered.still rfl rfl rfl rfl rfl rfl rfl
  · exact metered.still rfl rfl rfl rfl rfl rfl rfl
  · exact metered.still rfl rfl rfl rfl rfl rfl rfl
  · exact metered.store ordered
  · exact metered.count rfl rfl
  · have shared : s'.quotas = s.quotas ∧ s'.store = s.store := by
      rcases same with ⟨rfl, -⟩ | ⟨rfl, -⟩ <;> exact ⟨rfl, rfl⟩
    have idle : task.owes = [] ∧ task.freed = [] := by
      cases task <;> first | exact ⟨rfl, rfl⟩ | cases begins
    refine metered.turn shared.1 (congrArg Store.metadata shared.2) idle.1.symm idle.2.symm ?_ ?_ ?_
    · exact fun ns quota _ => .inl (List.nil_sublist _)
    · intro t member other dies
      rw [List.mem_singleton.mp member] at dies
      rw [List.mem_singleton.mp dies]
      exact .inr (begins_stored begins)
    · intro draft member here
      rw [List.flatMap_cons, idle.1, List.nil_append] at member
      refine absurd (List.mem_map_of_mem (f := Draft.id) member) ?_
      rw [List.mem_singleton.mp here]
      exact returned blob begins
  · split <;> exact metered.still rfl rfl rfl rfl rfl rfl rfl
  iterate 2
    · have idle : task.charges = none ∧ task.freed = [] := by
        cases task <;> first | exact ⟨rfl, rfl⟩ | exact nomatch dies
      refine metered.still rfl rfl ?_ ?_ (charges.trans idle.1.symm) doomed victim
      · rw [owes_of_charges charges, owes_of_charges idle.1]
      · rw [freed_of_ne plain.2.2, idle.2]
  · exact metered.delete ordered rfl rfl rfl rfl (.inl rfl)
  · exact metered.delete ordered rfl rfl rfl rfl (.inr ⟨rfl, admitted⟩)
  · exact metered.uncount rfl rfl
  · exact metered.still rfl rfl rfl rfl rfl rfl rfl

end

/-! ## Calls -/

/-- The limits of a quota are of 64 bits. -/
def Call.Fits : Call → Prop
  | .setNamespaceQuota _ maxBlobs maxTotalBytes =>
    maxBlobs < 18446744073709551616 ∧ maxTotalBytes < 18446744073709551616
  | _ => True

/-- A quota is set when no creation has checked the one before, and the first one of a
namespace when it has no blobs. -/
def Call.Early (s : Blobs) (tasks : List Task) : Call → Prop
  | .setNamespaceQuota ns _ _ => charged ns tasks = [] ∧
      (s.quotas ns = none → ns ∉ (stored s ++ tasks.flatMap Task.freed).map Prod.fst)
  | _ => True

section

variable {X : Extern} {c : BlobConfig} {s s' : Blobs} {tasks next : List Task}

theorem Metered.called (metered : Metered s tasks) (called : Called X c s s' next)
    (quotas : s'.quotas = s.quotas) : Metered s' (next ++ tasks) := by
  have owes_eq : (next ++ tasks).flatMap Task.owes = tasks.flatMap Task.owes :=
    called.none_of fun t starts => owes_of_charges starts.charges
  have owed_eq : owed (next ++ tasks) = owed tasks := congrArg (List.map Draft.entry) owes_eq
  have freed_eq : (next ++ tasks).flatMap Task.freed = tasks.flatMap Task.freed :=
    called.none_of fun t starts => freed_of_ne starts.plain.2
  have victims_eq : (next ++ tasks).flatMap Task.victim = tasks.flatMap Task.victim :=
    called.none_of fun t starts => starts.victim
  have charged_eq (ns : Text) : charged ns (next ++ tasks) = charged ns tasks :=
    congrArg (List.filter _) (called.none_of fun t starts => by rw [starts.charges]; rfl)
  have pairs := congrArg (List.map fun p : Text × Text × Nat × Hash × List Hash => (p.1, p.2.1, p.2.2.1))
    called.metadata
  rw [List.map_map, List.map_map] at pairs
  have stored_eq : stored s' = stored s := by
    have entries := congrArg (List.map Prod.snd) pairs
    rw [List.map_map, List.map_map] at entries
    exact entries
  have still {id : Text} {entry : Text × Nat}
      (there : ∃ blob ∈ s.store.metadata, blob.id = id ∧ (blob.nameSpace, blob.size) = entry) :
      ∃ blob ∈ s'.store.metadata, blob.id = id ∧ (blob.nameSpace, blob.size) = entry := by
    obtain ⟨blob, inside, rfl, rfl⟩ := there
    have member := List.mem_map_of_mem (f := fun b : BlobMetadata => (b.id, b.nameSpace, b.size)) inside
    obtain ⟨other, now, same⟩ := List.mem_map.mp ((show _ = _ from pairs) ▸ member)
    exact ⟨other, now, congrArg Prod.fst same, congrArg Prod.snd same⟩
  constructor
  · refine metered.blobs.move quotas fun ns _ _ => ?_
    rw [owed_eq, freed_eq, stored_eq]
  · refine metered.bytes.move quotas fun ns _ _ => ?_
    rw [owed_eq, freed_eq, stored_eq]
  · rw [quotas]
    exact metered.fits
  · intro ns quota found
    rw [charged_eq]
    exact metered.sole ns quota (quotas ▸ found)
  · intro ns quota found
    rw [charged_eq]
    exact metered.room ns quota (quotas ▸ found)
  · intro t member blob dies
    rcases List.mem_append.mp member with here | there
    · have none := (called.starts t here).victim
      exact nomatch (none ▸ victim_of_doomed dies)
    · exact still (metered.copies t there blob dies)
  · intro draft member
    rw [owes_eq] at member
    rw [victims_eq]
    exact (metered.kept draft member).imp_right still

theorem setQuota_cases {quotas : Quotas} {name ns : Text} {maxBlobs maxTotalBytes : Nat} {quota : NamespaceQuota}
    (found : quotas.setQuota ns maxBlobs maxTotalBytes name = some quota) :
    name ≠ ns ∧ quotas name = some quota ∨
      name = ns ∧ ((∃ old, quotas ns = some old ∧ quota = { old with maxBlobs, maxTotalBytes }) ∨
        quotas ns = none ∧ quota = ⟨maxBlobs, maxTotalBytes, 0, 0⟩) := by
  rw [Quotas.setQuota] at found
  split at found
  next here =>
    cases before : quotas ns with
    | none =>
      rw [before] at found
      cases found
      exact .inr ⟨here, .inr ⟨rfl, rfl⟩⟩
    | some old =>
      rw [before] at found
      cases found
      exact .inr ⟨here, .inl ⟨old, rfl, rfl⟩⟩
  next ne => exact .inl ⟨ne, found⟩

theorem Metered.setQuota (metered : Metered s tasks) {ns : Text} {maxBlobs maxTotalBytes : Nat}
    (fits : maxBlobs < 18446744073709551616 ∧ maxTotalBytes < 18446744073709551616)
    (alone : charged ns tasks = [])
    (early : s.quotas ns = none → ns ∉ (stored s ++ tasks.flatMap Task.freed).map Prod.fst) :
    Metered { s with quotas := s.quotas.setQuota ns maxBlobs maxTotalBytes } tasks := by
  have balance {weigh : Nat → Nat} {current : NamespaceQuota → Nat} (before : Balance s tasks weigh current)
      (same : ∀ old : NamespaceQuota, current { old with maxBlobs, maxTotalBytes } = current old)
      (zero : current ⟨maxBlobs, maxTotalBytes, 0, 0⟩ = 0) :
      Balance { s with quotas := s.quotas.setQuota ns maxBlobs maxTotalBytes } tasks weigh current := by
    intro name quota found
    rcases setQuota_cases found with ⟨-, was⟩ | ⟨rfl, ⟨old, was, rfl⟩ | ⟨new, rfl⟩⟩
    · exact before name quota was
    · rw [same]
      exact before name old was
    · have nothing : load weigh name (stored s ++ tasks.flatMap Task.freed) = 0 := load_eq_zero (early new)
      rw [load_append] at nothing
      have same : stored { s with quotas := s.quotas.setQuota name maxBlobs maxTotalBytes } = stored s := rfl
      rw [zero, load_owed alone, same]
      omega
  constructor
  · exact balance metered.blobs (fun _ => rfl) rfl
  · exact balance metered.bytes (fun _ => rfl) rfl
  · intro name quota found
    rcases setQuota_cases found with ⟨-, was⟩ | ⟨rfl, ⟨old, was, rfl⟩ | ⟨new, rfl⟩⟩
    · exact metered.fits name quota was
    · exact fits
    · exact fits
  · intro name quota found
    rcases setQuota_cases found with ⟨-, was⟩ | ⟨rfl, -⟩
    · exact metered.sole name quota was
    · rw [alone]
      exact Nat.zero_le _
  · intro name quota found draft member
    rcases setQuota_cases found with ⟨-, was⟩ | ⟨rfl, -⟩
    · exact metered.room name quota was draft member
    · rw [alone] at member
      exact nomatch member
  · exact metered.copies
  · exact metered.kept

/-- **A call** keeps the counters and what is outstanding in balance. -/
theorem metered_call (metered : Metered s tasks) {call : Call} (fits : call.Fits) (early : call.Early s tasks) :
    Metered (s.call X c call).1 ((s.call X c call).2.toList ++ tasks) := by
  have calls := called (X := X) (c := c) s call
  cases call with
  | setNamespaceQuota ns maxBlobs maxTotalBytes => exact metered.setQuota fits early.1 early.2
  | uploadPart uploadId data =>
    refine metered.called calls ?_
    simp only [Blobs.call, Blobs.uploadPart]
    cases s.session uploadId with
    | none => rfl
    | some session =>
      simp only []
      split
      · rfl
      · split <;> rfl
  | completeUpload uploadId =>
    refine metered.called calls ?_
    simp only [Blobs.call, Blobs.complete]
    cases s.session uploadId with
    | none => rfl
    | some session =>
      simp only []
      split
      · rfl
      · split
        · rfl
        · cases split c.chunkSize session.uploadedParts.flatten <;> rfl
  | _ => exact metered.called calls rfl

end

/-! ## Runs -/

namespace BlobManager

/-- An event of any interleaving of calls; the calls of the store succeed. -/
def Charged (m : BlobManager) : Event → Prop
  | .call call => call.Fresh m.shared ∧ call.Fits
  | .advance _ _ ok => ok = true
  | .restart => False

/-- Quotas are set early, checked one creation after the other, and not under the blobs that
expire; and a blob is deleted once, when it has been counted. -/
def Billed (m : BlobManager) : Event → Prop
  | .call call => call.Early m.shared m.tasks
  | .advance i _ _ => ∀ task ∈ m.tasks[i]?, task.Alone m.shared (m.others i) ∧
      task.Admitted m.shared (m.others i) ∧ task.Returned m.shared (m.others i)
  | .restart => True

end BlobManager

/-- The blobs of a namespace. -/
def inNamespace (s : Blobs) (ns : Text) : List BlobMetadata := s.store.metadata.filter fun m => m.nameSpace = ns

/-- The counters are the usage, for the namespaces in which nothing is outstanding. -/
def Honest (s : Blobs) (tasks : List Task) : Prop :=
  ∀ ns quota, s.quotas ns = some quota → ns ∉ (owed tasks ++ tasks.flatMap Task.freed).map Prod.fst →
    quota.currentBlobs = (inNamespace s ns).length ∧
      quota.currentBytes = ((inNamespace s ns).map BlobMetadata.size).sum

/-- The check of the quota does not wrap, and a creation that returns leaves its namespace
within the limits. -/
def Task.Within (s : Blobs) : Task → Prop
  | .checking draft => ∀ quota, s.quotas draft.nameSpace = some quota →
      quota.currentBytes + draft.data.length < 18446744073709551616
  | .counting draft => ∀ quota, s.quotas draft.nameSpace = some quota →
      (inNamespace s draft.nameSpace).length ≤ quota.maxBlobs ∧
        ((inNamespace s draft.nameSpace).map BlobMetadata.size).sum ≤ quota.maxTotalBytes
  | _ => True

section

variable {X : Extern} {c : BlobConfig} {s : Blobs} {task : Task} {tasks rest : List Task}

theorem load_one (ns : Text) : load (fun _ => 1) ns (stored s) = (inNamespace s ns).length := by
  rw [load, stored, List.filter_map, List.map_map, inNamespace]
  simp [Function.comp_def]

theorem load_size (ns : Text) : load id ns (stored s) = ((inNamespace s ns).map BlobMetadata.size).sum := by
  rw [load, stored, List.filter_map, List.map_map, inNamespace]
  rfl

theorem Metered.honest (metered : Metered s tasks) : Honest s tasks := by
  intro ns quota found settled
  rw [List.map_append, List.mem_append, not_or] at settled
  have blobs := metered.blobs ns quota found
  have bytes := metered.bytes ns quota found
  rw [load_eq_zero settled.1, load_eq_zero settled.2, load_one] at blobs
  rw [load_eq_zero settled.1, load_eq_zero settled.2, load_size] at bytes
  exact ⟨blobs, bytes⟩

theorem Metered.within (metered : Metered s (task :: rest)) (admitted : task.Admitted s rest) : task.Within s := by
  cases task with
  | checking draft =>
    intro quota found
    rw [Task.Admitted, found] at admitted
    have small := (admitted.resolve_left (Option.some_ne_none quota)).2
    have covered := metered.bytes_le found rfl
    omega
  | counting draft =>
    intro quota found
    have mine : draft ∈ charged draft.nameSpace (.counting draft :: rest) :=
      List.mem_filter.mpr ⟨.head _, decide_eq_true rfl⟩
    have room := metered.room _ quota found draft mine
    have blobs := metered.blobs _ quota found
    have bytes := metered.bytes _ quota found
    have owed_ : owed (.counting draft :: rest) = draft.entry :: owed rest := rfl
    rw [owed_, Draft.entry, load_cons_self, metered.sole_owes found] at blobs bytes
    rw [load_one] at blobs
    rw [load_size] at bytes
    simp only [id_eq] at bytes
    omega
  | _ => trivial

end

namespace BlobManager

/-- What the next step checks or returns stays within the limits. -/
def Within (m : BlobManager) : Event → Prop
  | .advance i _ _ => ∀ task ∈ m.tasks[i]?, task.Within m.shared
  | _ => True

section

variable {X : Extern} {c : BlobConfig} {m : BlobManager} {event : Event}

theorem metered_fresh : Metered fresh.shared fresh.tasks := by
  have none {ns : Text} {quota : NamespaceQuota} (found : fresh.shared.quotas ns = some quota) : False := by
    cases found
  exact ⟨fun _ _ found => (none found).elim, fun _ _ found => (none found).elim, fun _ _ found => (none found).elim,
    fun _ _ found => (none found).elim, fun _ _ found => (none found).elim, by simp [fresh], by simp [fresh]⟩

/-- **An event** keeps the counters and what is outstanding in balance. -/
theorem metered_event (ordered : Ordered X c m.shared m.tasks) (metered : Metered m.shared m.tasks)
    (charged : m.Charged event) (billed : m.Billed event) :
    Ordered X c (m.step X c event).shared (m.step X c event).tasks ∧
      Metered (m.step X c event).shared (m.step X c event).tasks := by
  cases event with
  | call call => exact ⟨ordered_call ordered charged.1, metered_call metered charged.2 billed⟩
  | advance i now ok =>
    cases charged
    rw [step]
    cases here : m.tasks[i]? with
    | none => exact ⟨ordered, metered⟩
    | some task =>
      obtain ⟨alone, admitted, returned⟩ := billed task here
      have same := Run.perm_of_turn here
      exact ⟨ordered_step (ordered.perm same) alone now true,
        metered_step (ordered.perm same) (metered.perm same) admitted returned now⟩
  | restart => exact charged.elim

/-- **Quotas are what is used:** in every run that is billed, the counters of a namespace are
the number and the bytes of its blobs whenever no step of an operation on it is outstanding,
no check wraps, and every creation that returns leaves its namespace within the limits. -/
theorem honest_billed {events : List Event}
    (each : Run.Each (step X c) (fun m event => m.Charged event ∧ m.Billed event) fresh events) :
    Run.Always (step X c) (fun m => Honest m.shared m.tasks) fresh events ∧
      Run.Each (step X c) Within fresh events := by
  have keeps (m : BlobManager) (event : Event) (held : Ordered X c m.shared m.tasks ∧ Metered m.shared m.tasks)
      (meets : m.Charged event ∧ m.Billed event) :=
    metered_event held.1 held.2 meets.1 meets.2
  have start : Ordered X c fresh.shared fresh.tasks ∧ Metered fresh.shared fresh.tasks :=
    ⟨steady_fresh.ordered, metered_fresh⟩
  refine ⟨fun m member => (each.invariant keeps start m member).2.honest, ?_⟩
  refine each.imp keeps ?_ start
  rintro m event ⟨-, metered⟩ ⟨-, billed⟩
  cases event with
  | advance i now ok =>
    intro task here
    exact (metered.perm (Run.perm_of_turn here)).within (billed task here).2.1
  | _ => trivial

end

/-! ### A quota on a namespace with a blob -/

instance : (call : Call) → Decidable call.Fits
  | .setNamespaceQuota .. => inferInstanceAs (Decidable (_ ∧ _))
  | .createBlob .. | .deleteBlob .. | .runGc | .initiateUpload .. | .uploadPart .. | .completeUpload ..
  | .abortUpload .. | .rewrite .. | .saveDedupState => .isTrue trivial

instance (s : Blobs) (tasks : List Task) : (call : Call) → Decidable (call.Early s tasks)
  | .setNamespaceQuota .. => inferInstanceAs (Decidable (_ = _ ∧ (_ = _ → _ ∉ _)))
  | .createBlob .. | .deleteBlob .. | .runGc | .initiateUpload .. | .uploadPart .. | .completeUpload ..
  | .abortUpload .. | .rewrite .. | .saveDedupState => .isTrue trivial

instance (s : Blobs) (rest : List Task) (task : Task) : Decidable (task.Admitted s rest) := by
  unfold Task.Admitted
  split <;> infer_instance

instance (s : Blobs) (rest : List Task) (task : Task) : Decidable (task.Returned s rest) :=
  Option.decidableForallMem (task.begins s)

instance (m : BlobManager) : (event : Event) → Decidable (m.Charged event)
  | .call _ => inferInstanceAs (Decidable (_ ∧ _))
  | .advance _ _ ok => inferInstanceAs (Decidable (ok = true))
  | .restart => .isFalse not_false

instance (m : BlobManager) : (event : Event) → Decidable (m.Billed event)
  | .call call => inferInstanceAs (Decidable (call.Early m.shared m.tasks))
  | .advance i _ _ => Option.decidableForallMem m.tasks[i]?
  | .restart => .isTrue trivial

/-- A quota, and then two blobs, of which the first is deleted. -/
def billedRun : List Event :=
  .call (.setNamespaceQuota ['n'] 5 100) :: .call (.createBlob ['1'] ['n'] [97]) :: advances 7 ++
    .call (.createBlob ['2'] ['n'] [97]) :: advances 5 ++ .call (.deleteBlob ['1']) :: advances 4

/-- A blob, and then a quota. -/
def lateRun : List Event :=
  .call (.createBlob ['1'] ['n'] [97]) :: advances 7 ++ [.call (.setNamespaceQuota ['n'] 5 100)]

theorem honest_billed_sample :
    Run.Always (step sampleExtern sampleConfig) (fun m => Honest m.shared m.tasks) fresh billedRun ∧
      Run.Each (step sampleExtern sampleConfig) Within fresh billedRun :=
  honest_billed (by decide +kernel)

/-- The counter says that the namespace is empty. -/
theorem late_quota : Run.Each (step sampleExtern sampleConfig) Charged fresh lateRun ∧
    ¬ Run.Always (step sampleExtern sampleConfig) (fun m => Honest m.shared m.tasks) fresh lateRun := by
  refine ⟨by decide +kernel, fun always => ?_⟩
  have honest := always _ (Run.foldl_mem_states _ _) ['n'] ⟨5, 100, 0, 0⟩ (by decide +kernel) (by decide +kernel)
  exact absurd honest.1 (by decide +kernel)

end BlobManager

end NovaRuntime.Blob
