/-
# NovaRuntime.Storage.PageCache — `PageCache` of `page_cache.rs`

The cache keeps dirty pages in a hash map and clean ones in a bounded
least-recently-used cache, and reads the dirty map first. The `lru` package is
the parameter `C`; the order in which the hash map is drained and the answers of
the writeback callback come from outside with each flush.

What a read should give is kept apart from the cache, in a `Ledger`: for every
page identifier the page inserted last, until it is removed, evicted while clean,
or written back while dirty. The two maps can disagree about an identifier, so a
read is not always what the ledger says; `faithful_iff_careful` says exactly
which calls keep it so.
-/
import NovaRuntime.Library.BoundedCache
import NovaRuntime.Library.Outcome
import NovaRuntime.Storage.Page
import NovaRuntime.Library.Runs
import Mathlib.Data.List.TakeWhile

namespace NovaRuntime.Storage

open NovaRuntime.Library

set_option autoImplicit false

structure PageCache (C : Type) where
  clean : C
  dirty : Std.TreeMap PageId Page := ∅
  capacity : Nat
  /-- Whether a writeback callback is set. -/
  hasWriteback : Bool := false

namespace PageCache

variable {C : Type} [BoundedCache C PageId Page]

def new (capacity : Nat) : PageCache C :=
  let cap := if capacity = 0 then 1024 else capacity
  { clean := BoundedCache.new cap (by simp only [cap]; split <;> omega), capacity := cap }

def setWriteback : Method (PageCache C) Unit :=
  Exec.modify fun cache => { cache with hasWriteback := true }

def get (id : PageId) : Method (PageCache C) (Option Page) := do
  let inner ← Exec.get
  match inner.dirty[id]? with
  | some page => pure (some page)
  | none =>
    let (page, clean) := BoundedCache.get inner.clean id
    Exec.modify fun inner => { inner with clean }
    pure page

def insert (page : Page) : Method (PageCache C) Unit :=
  if page.isDirty then Exec.modify fun inner => { inner with dirty := inner.dirty.insert page.id page }
  else Exec.modify fun inner => { inner with clean := BoundedCache.put inner.clean page.id page }

def remove (id : PageId) : Method (PageCache C) (Option Page) := do
  let inner ← Exec.get
  match inner.dirty[id]? with
  | some page =>
    Exec.modify fun inner => { inner with dirty := inner.dirty.erase id }
    pure (some page)
  | none =>
    let (page, clean) := BoundedCache.pop inner.clean id
    Exec.modify fun inner => { inner with clean }
    pure page

/-- What a flush meets outside the cache: the order in which the hash map hands
its pages out, and the answer of the callback for each page. -/
structure Outside where
  order : List Page → List Page
  perm : ∀ pages, (order pages).Perm pages
  writeback : Page → Except RuntimeError Unit

/-- The pages of the dirty map, in the order they are drained. -/
def drain (outside : Outside) (inner : PageCache C) : List Page :=
  outside.order (inner.dirty.toList.map Prod.snd)

/-- The loop of `flush`: the first page whose callback fails ends it. -/
def writebackAll (outside : Outside) : List Page → Result Unit
  | [] => .ok ()
  | page :: pages =>
    match outside.writeback page.clearDirty with
    | .ok () => writebackAll outside pages
    | .error error => .err error

/-- Write the dirty pages back. Without a callback this is a no-op; with one the
dirty map is drained before the callback runs. -/
def flush (outside : Outside) : Method (PageCache C) Nat := do
  let inner ← Exec.get
  if ¬ inner.hasWriteback then pure inner.dirty.size
  else
    let dirtyPages := inner.drain outside
    Exec.modify fun inner => { inner with dirty := ∅ }
    Exec.lift (writebackAll outside dirtyPages)
    pure dirtyPages.length

/-! ## What the cache serves -/

/-- The page a read of `id` gives. -/
def served (cache : PageCache C) (id : PageId) : Option Page :=
  match cache.dirty[id]? with
  | some page => some page
  | none => BoundedCache.peek cache.clean id

/-! ## The ledger -/

/-- What became of the page inserted last under an identifier. -/
inductive Fate where
  | gone
  | clean (page : Page)
  | dirty (page : Page)

def Fate.page : Fate → Option Page
  | .gone => none
  | .clean page => some page
  | .dirty page => some page

/-- The fate of every page. -/
abbrev Ledger := PageId → Fate

inductive Call where
  | setWriteback
  | get (id : PageId)
  | insert (page : Page)
  | remove (id : PageId)
  | flush (outside : Outside)

/-- The cache a call leaves behind. -/
def perform (cache : PageCache C) : Call → PageCache C
  | .setWriteback => (setWriteback cache).2
  | .get id => (get id cache).2
  | .insert page => (insert page cache).2
  | .remove id => (remove id cache).2
  | .flush outside => (flush outside cache).2

/-- The identifiers of the pages whose callback has succeeded when the flush ends. -/
def writtenBack (outside : Outside) (pages : List Page) : List PageId :=
  (pages.takeWhile fun page => (outside.writeback page.clearDirty).isOk).map Page.id

/-- What a call means for the pages, whatever the cache does with it. -/
def Ledger.record (ledger : Ledger) (cache : PageCache C) : Call → Ledger
  | .setWriteback | .get _ => ledger
  | .insert page => fun id =>
    if id = page.id then (if page.isDirty then .dirty page else .clean page)
    else match ledger id with
      | .clean old =>
        if page.isDirty = false ∧ BoundedCache.Evicts cache.clean page.id page id then .gone
        else .clean old
      | fate => fate
  | .remove removed => fun id => if id = removed then .gone else ledger id
  | .flush outside => fun id =>
    match ledger id with
    | .dirty page =>
      if cache.hasWriteback = true ∧ id ∈ writtenBack outside (cache.drain outside) then .gone
      else .dirty page
    | fate => fate

/-- A cache and the ledger of the calls made since it was created. -/
structure Traced (C : Type) where
  cache : PageCache C
  ledger : Ledger

namespace Traced

def start (capacity : Nat) : Traced C := { cache := PageCache.new capacity, ledger := fun _ => .gone }

def step (s : Traced C) (call : Call) : Traced C :=
  { cache := s.cache.perform call, ledger := s.ledger.record s.cache call }

/-- A read of any page gives what the ledger says. -/
def Faithful (s : Traced C) : Prop := ∀ id, (PageCache.get id s.cache).1 = .ok (s.ledger id).page

end Traced

/-- The calls after which the two maps still agree with the ledger: a clean page
is inserted only under an identifier that is not dirty, a page is removed only
when one of the maps holds it, and a flush writes back only pages that are not
also in the clean cache, all of them successfully. -/
def Safe (cache : PageCache C) : Call → Prop
  | .setWriteback | .get _ => True
  | .insert page => page.isDirty = true ∨ cache.dirty[page.id]? = none
  | .remove id => cache.dirty[id]? = none ∨ BoundedCache.peek cache.clean id = none
  | .flush outside => cache.hasWriteback = true → ∀ id (page : Page), cache.dirty[id]? = some page →
      (outside.writeback page.clearDirty).isOk = true ∧ BoundedCache.peek cache.clean id = none

/-! ## What the calls do to the two maps -/

section Effects

variable [LawfulBoundedCache C]

set_option linter.unusedSectionVars false

section

variable (id : PageId) (cache : PageCache C)

include id cache

theorem get_fst : (get id cache).1 = .ok (cache.served id) := by
  simp only [get, Exec.get_bind, served]
  cases cache.dirty[id]? with
  | some page => rfl
  | none => simp [LawfulBoundedCache.get_fst]

theorem dirty_get : (get id cache).2.dirty = cache.dirty := by
  simp only [get, Exec.get_bind]
  cases cache.dirty[id]? <;> rfl

theorem peek_get (k : PageId) : BoundedCache.peek (get id cache).2.clean k = BoundedCache.peek cache.clean k := by
  simp only [get, Exec.get_bind]
  cases cache.dirty[id]? with
  | some page => rfl
  | none => simp [LawfulBoundedCache.peek_get]

end

theorem insert_of_dirty {page : Page} (dirty : page.isDirty = true) (cache : PageCache C) :
    (insert page cache).2 = { cache with dirty := cache.dirty.insert page.id page } := by
  simp [insert, dirty]

theorem insert_of_clean {page : Page} (clean : page.isDirty = false) (cache : PageCache C) :
    (insert page cache).2 = { cache with clean := BoundedCache.put cache.clean page.id page } := by
  simp [insert, clean]

theorem dirty_remove (id : PageId) (cache : PageCache C) (k : PageId) :
    (remove id cache).2.dirty[k]? = if id = k then none else cache.dirty[k]? := by
  simp only [remove, Exec.get_bind]
  cases found : cache.dirty[id]? with
  | some page => simp [Std.TreeMap.getElem?_erase]
  | none =>
    by_cases same : id = k
    · subst same; simp [found]
    · simp [same]

/-- Only a page that is not dirty is removed from the clean cache. -/
theorem peek_remove (id : PageId) (cache : PageCache C) (k : PageId) :
    BoundedCache.peek (remove id cache).2.clean k =
      if k = id ∧ cache.dirty[id]? = none then none else BoundedCache.peek cache.clean k := by
  simp only [remove, Exec.get_bind]
  cases found : cache.dirty[id]? with
  | some page => simp
  | none => simp [LawfulBoundedCache.peek_pop]

theorem flush_snd (outside : Outside) (cache : PageCache C) :
    (flush outside cache).2 = if cache.hasWriteback then { cache with dirty := ∅ } else cache := by
  simp only [flush, Exec.get_bind]
  by_cases set : cache.hasWriteback = true
  · rw [if_neg (by simpa using set), if_pos set, Exec.modify_bind, Exec.bind_apply, Exec.lift_apply]
    cases writebackAll outside (drain outside cache) <;> rfl
  · rw [if_pos set, if_neg set]
    rfl

end Effects

/-! ## Pages stay in the map their flag says -/

/-- The dirty map holds dirty pages under their own identifiers, the clean cache
holds clean pages, and the ledger knows which is which. -/
structure Consistent (s : Traced C) : Prop where
  dirtyPage : ∀ id (page : Page), s.cache.dirty[id]? = some page → page.id = id ∧ page.isDirty = true
  cleanPage : ∀ id (page : Page), BoundedCache.peek s.cache.clean id = some page → page.isDirty = false
  cleanFate : ∀ id page, s.ledger id = .clean page → page.isDirty = false
  dirtyFate : ∀ id page, s.ledger id = .dirty page → page.isDirty = true

/-- The two clauses about the ledger survive every call. -/
theorem Consistent.record {s : Traced C} (ok : Consistent s) (call : Call) (id : PageId) (page : Page) :
    (s.ledger.record s.cache call id = .clean page → page.isDirty = false) ∧
      (s.ledger.record s.cache call id = .dirty page → page.isDirty = true) := by
  have old : (s.ledger id = .clean page → page.isDirty = false) ∧
      (s.ledger id = .dirty page → page.isDirty = true) := ⟨ok.cleanFate id page, ok.dirtyFate id page⟩
  cases call with
  | setWriteback | get other => exact old
  | insert new =>
    simp only [Ledger.record]
    by_cases same : id = new.id
    · cases dirty : new.isDirty with
      | true => simp only [if_pos same, if_true]; refine ⟨by simp, fun h => ?_⟩; cases h; exact dirty
      | false => simp [if_pos same]; rintro rfl; exact dirty
    · rw [if_neg same]
      cases fate : s.ledger id with
      | gone => simp
      | dirty other => simpa [fate] using old
      | clean other =>
        simp only
        split
        · simp
        · simpa [fate] using old
  | remove removed =>
    simp only [Ledger.record]
    split
    · simp
    · exact old
  | flush outside =>
    simp only [Ledger.record]
    cases fate : s.ledger id with
    | gone => simp
    | clean other => simpa [fate] using old
    | dirty other =>
      simp only
      split
      · simp
      · simpa [fate] using old

theorem Consistent.step [LawfulBoundedCache C] {s : Traced C} (ok : Consistent s) (call : Call) :
    Consistent (s.step call) where
  cleanFate id page := (ok.record call id page).1
  dirtyFate id page := (ok.record call id page).2
  dirtyPage id page found := by
    cases call with
    | setWriteback => exact ok.dirtyPage id page found
    | get other =>
      simp only [Traced.step, perform, dirty_get] at found
      exact ok.dirtyPage id page found
    | insert new =>
      cases dirty : new.isDirty with
      | true =>
        simp only [Traced.step, perform, insert_of_dirty dirty, Std.TreeMap.getElem?_insert,
          Std.LawfulEqCmp.compare_eq_iff_eq] at found
        split at found
        · rename_i same
          cases found
          exact ⟨same, dirty⟩
        · exact ok.dirtyPage id page found
      | false =>
        simp only [Traced.step, perform, insert_of_clean dirty] at found
        exact ok.dirtyPage id page found
    | remove removed =>
      simp only [Traced.step, perform, dirty_remove] at found
      split at found
      · cases found
      · exact ok.dirtyPage id page found
    | flush outside =>
      simp only [Traced.step, perform, flush_snd] at found
      split at found
      · simp at found
      · exact ok.dirtyPage id page found
  cleanPage id page found := by
    cases call with
    | setWriteback => exact ok.cleanPage id page found
    | get other =>
      simp only [Traced.step, perform, peek_get] at found
      exact ok.cleanPage id page found
    | insert new =>
      cases dirty : new.isDirty with
      | true =>
        simp only [Traced.step, perform, insert_of_dirty dirty] at found
        exact ok.cleanPage id page found
      | false =>
        simp only [Traced.step, perform, insert_of_clean dirty] at found
        by_cases same : id = new.id
        · rw [same, LawfulBoundedCache.peek_put_self] at found
          cases found
          exact dirty
        · rcases LawfulBoundedCache.peek_put_of_ne s.cache.clean new.id new id same with
            evicted | kept
          · rw [evicted] at found
            cases found
          · exact ok.cleanPage id page (kept ▸ found)
    | remove removed =>
      simp only [Traced.step, perform, peek_remove] at found
      split at found
      · cases found
      · exact ok.cleanPage id page found
    | flush outside =>
      simp only [Traced.step, perform, flush_snd] at found
      split at found <;> exact ok.cleanPage id page found

/-! ## Faithful exactly when careful -/

section Reads

variable [LawfulBoundedCache C]

set_option linter.unusedSectionVars false
variable {page : Page} {id : PageId} {s : Traced C}

theorem Traced.faithful_iff (s : Traced C) :
    s.Faithful ↔ ∀ id, s.cache.served id = (s.ledger id).page := by
  simp only [Traced.Faithful, get_fst, Outcome.ok.injEq]

theorem served_of_dirty {cache : PageCache C}
    (found : cache.dirty[id]? = some page) : cache.served id = some page := by
  simp [served, found]

theorem served_of_not_dirty {cache : PageCache C} (absent : cache.dirty[id]? = none) :
    cache.served id = BoundedCache.peek cache.clean id := by
  simp [served, absent]

section

variable (ok : Consistent s) (faithful : s.Faithful)

include ok faithful

/-- A page in the dirty map has a dirty fate, if reads are faithful. -/
theorem fate_of_dirty (found : s.cache.dirty[id]? = some page) : s.ledger id = .dirty page := by
  have same := s.faithful_iff.mp faithful id
  rw [served_of_dirty found] at same
  cases fate : s.ledger id with
  | gone => simp [fate, Fate.page] at same
  | clean other =>
    simp only [fate, Fate.page, Option.some.injEq] at same
    subst same
    simpa [ok.cleanFate id page fate] using (ok.dirtyPage id page found).2
  | dirty other => simpa [fate, Fate.page, eq_comm] using same

/-- Outside the dirty map, a page has a clean fate or none. -/
theorem fate_of_not_dirty (absent : s.cache.dirty[id]? = none) :
    s.ledger id = match BoundedCache.peek s.cache.clean id with
      | some page => .clean page
      | none => .gone := by
  have same := s.faithful_iff.mp faithful id
  rw [served_of_not_dirty absent] at same
  rw [same]
  cases fate : s.ledger id with
  | gone => rfl
  | clean other => rfl
  | dirty other =>
    rw [fate, Fate.page] at same
    simpa [ok.cleanPage id other same] using ok.dirtyFate id other fate

theorem faithful_insert_iff (page : Page) : (s.step (.insert page)).Faithful ↔ Safe s.cache (.insert page) := by
  rw [Traced.faithful_iff]
  cases dirty : page.isDirty with
  | true =>
    simp only [Safe, dirty, true_or, iff_true]
    intro id
    simp only [Traced.step, perform, insert_of_dirty dirty, served, Std.TreeMap.getElem?_insert,
      Std.LawfulEqCmp.compare_eq_iff_eq, Ledger.record, dirty]
    by_cases same : id = page.id
    · simp [same, Fate.page]
    · have old := s.faithful_iff.mp faithful id
      simp only [if_neg same, if_neg (Ne.symm same), Bool.true_eq_false, false_and, if_false]
      cases fate : s.ledger id <;> simpa [fate, served] using old
  | false =>
    simp only [Safe, dirty, Bool.false_eq_true, false_or]
    simp only [Traced.step, perform, insert_of_clean dirty, Ledger.record, dirty]
    constructor
    · intro after
      -- a dirty page under the same identifier hides the clean one
      cases found : s.cache.dirty[page.id]? with
      | none => rfl
      | some old =>
        have hidden := after page.id
        simp only [served, found, if_true, Bool.false_eq_true, if_false, Fate.page,
          Option.some.injEq] at hidden
        have := (ok.dirtyPage _ _ found).2
        simp [hidden, dirty] at this
    · intro free id
      by_cases same : id = page.id
      · subst same
        simp [served, free, LawfulBoundedCache.peek_put_self, Fate.page]
      · rw [if_neg same]
        cases found : s.cache.dirty[id]? with
        | some old => simp [served, found, fate_of_dirty ok faithful found, Fate.page]
        | none =>
          rw [fate_of_not_dirty ok faithful found]
          simp only [served, found]
          rcases LawfulBoundedCache.peek_put_of_ne s.cache.clean page.id page id same with
            evicted | kept
          · cases peek : BoundedCache.peek s.cache.clean id with
            | none => simp [evicted, Fate.page]
            | some old => simp [evicted, BoundedCache.Evicts, peek, Fate.page]
          · cases peek : BoundedCache.peek s.cache.clean id with
            | none => simp [kept, peek, Fate.page]
            | some old => simp [kept, BoundedCache.Evicts, peek, Fate.page]

end

theorem faithful_remove_iff (faithful : s.Faithful) (removed : PageId) :
    (s.step (.remove removed)).Faithful ↔ Safe s.cache (.remove removed) := by
  rw [Traced.faithful_iff]
  have effect : ∀ id, (s.step (.remove removed)).cache.served id =
      if id = removed then
        (if s.cache.dirty[removed]? = none then none else BoundedCache.peek s.cache.clean removed)
      else s.cache.served id := by
    intro id
    simp only [Traced.step, perform, served, dirty_remove, peek_remove]
    by_cases same : id = removed
    · simp [same]
    · simp [same, Ne.symm same]
  have gone : ∀ id, (s.step (.remove removed)).ledger id =
      if id = removed then .gone else s.ledger id := fun id => rfl
  simp only [effect, gone, Safe]
  constructor
  · intro after
    have here := after removed
    simp only [if_true, Fate.page] at here
    split at here
    · exact .inl ‹_›
    · exact .inr here
  · intro safe id
    by_cases same : id = removed
    · simp only [if_pos same, Fate.page]
      split
      · rfl
      · exact safe.resolve_left ‹_›
    · simpa only [if_neg same] using s.faithful_iff.mp faithful id

theorem mem_drain {outside : Outside} {cache : PageCache C} :
    page ∈ cache.drain outside ↔ ∃ id : PageId, cache.dirty[id]? = some page := by
  rw [drain, (outside.perm _).mem_iff, List.mem_map]
  constructor
  · rintro ⟨⟨id, page⟩, member, rfl⟩
    exact ⟨id, Std.TreeMap.mem_toList_iff_getElem?_eq_some.mp member⟩
  · rintro ⟨id, found⟩
    exact ⟨(id, page), Std.TreeMap.mem_toList_iff_getElem?_eq_some.mpr found, rfl⟩

/-- A page whose identifier was written back has had its callback succeed. -/
theorem isOk_of_mem_writtenBack (ok : Consistent s) {outside : Outside}
    (found : s.cache.dirty[id]? = some page)
    (written : id ∈ writtenBack outside (s.cache.drain outside)) :
    (outside.writeback page.clearDirty).isOk = true := by
  obtain ⟨other, inFront, sameId⟩ := List.mem_map.mp written
  obtain ⟨otherId, otherFound⟩ := mem_drain.mp ((List.takeWhile_sublist _).subset inFront)
  have : otherId = id := (ok.dirtyPage _ _ otherFound).1.symm.trans sameId
  subst this
  rw [found] at otherFound
  cases otherFound
  exact List.mem_takeWhile_imp (p := fun page : Page => (outside.writeback page.clearDirty).isOk) inFront

/-- If every callback succeeds, every dirty page is written back. -/
theorem mem_writtenBack_of_forall (ok : Consistent s) {outside : Outside}
    (succeeds : ∀ (id : PageId) (page : Page), s.cache.dirty[id]? = some page →
      (outside.writeback page.clearDirty).isOk = true) (found : s.cache.dirty[id]? = some page) :
    id ∈ writtenBack outside (s.cache.drain outside) := by
  have whole : (s.cache.drain outside).takeWhile
      (fun page => (outside.writeback page.clearDirty).isOk) = s.cache.drain outside := by
    rw [List.takeWhile_eq_self_iff]
    intro other member
    obtain ⟨otherId, otherFound⟩ := mem_drain.mp member
    exact succeeds otherId other otherFound
  rw [writtenBack, whole, List.mem_map]
  exact ⟨page, mem_drain.mpr ⟨id, found⟩, (ok.dirtyPage id page found).1⟩

theorem faithful_flush_iff (ok : Consistent s) (faithful : s.Faithful)
    (outside : Outside) : (s.step (.flush outside)).Faithful ↔ Safe s.cache (.flush outside) := by
  by_cases set : s.cache.hasWriteback = true
  · have effect : ∀ id, (s.step (.flush outside)).cache.served id =
        BoundedCache.peek s.cache.clean id := by
      intro id
      simp [Traced.step, perform, flush_snd, set, served]
    rw [Traced.faithful_iff]
    simp only [effect, Safe, set, true_implies]
    simp only [Traced.step, Ledger.record, set, true_and]
    constructor
    · intro after id page found
      have here := after id
      rw [fate_of_dirty ok faithful found] at here
      by_cases written : id ∈ writtenBack outside (s.cache.drain outside)
      · simp only [if_pos written, Fate.page] at here
        exact ⟨isOk_of_mem_writtenBack ok found written, here⟩
      · -- the page is in neither map any more, nor was it written
        simp only [if_neg written, Fate.page] at here
        simpa [ok.cleanPage id page here] using (ok.dirtyPage id page found).2
    · intro safe id
      cases found : s.cache.dirty[id]? with
      | none =>
        rw [fate_of_not_dirty ok faithful found]
        cases BoundedCache.peek s.cache.clean id <;> rfl
      | some page =>
        have written := mem_writtenBack_of_forall ok (fun id page h => (safe id page h).1) found
        simp [fate_of_dirty ok faithful found, written, (safe id page found).2, Fate.page]
  · have unchanged : s.step (.flush outside) = s := by
      have same : s.ledger.record s.cache (.flush outside) = s.ledger := by
        funext id
        simp only [Ledger.record, set]
        cases s.ledger id <;> rfl
      simp only [Traced.step, perform, flush_snd, if_neg set, same]
    simp [unchanged, faithful, Safe, set]

/-- **Step.** A call keeps reads faithful exactly when it is safe. -/
theorem faithful_step_iff (ok : Consistent s) (faithful : s.Faithful) (call : Call) :
    (s.step call).Faithful ↔ Safe s.cache call := by
  cases call with
  | setWriteback =>
    exact iff_of_true ((Traced.faithful_iff _).mpr (s.faithful_iff.mp faithful)) trivial
  | get other =>
    refine iff_of_true ((Traced.faithful_iff _).mpr fun id => ?_) trivial
    have same : (s.step (.get other)).cache.served id = s.cache.served id := by
      simp only [Traced.step, perform, served, dirty_get, peek_get]
    rw [same]
    exact s.faithful_iff.mp faithful id
  | insert page => exact faithful_insert_iff ok faithful page
  | remove removed => exact faithful_remove_iff faithful removed
  | flush outside => exact faithful_flush_iff ok faithful outside

theorem consistent_start (capacity : Nat) : Consistent (Traced.start capacity : Traced C) where
  dirtyPage id page found := by simp [Traced.start, new] at found
  cleanPage id page found := by simp [Traced.start, new, LawfulBoundedCache.peek_new] at found
  cleanFate id page fate := by simp [Traced.start] at fate
  dirtyFate id page fate := by simp [Traced.start] at fate

theorem faithful_start (capacity : Nat) : (Traced.start capacity : Traced C).Faithful := by
  rw [Traced.faithful_iff]
  intro id
  simp [Traced.start, new, served, LawfulBoundedCache.peek_new, Fate.page]

end Reads

/-- **A cache serves every page faithfully exactly in its careful runs**: in every
state of the run a read gives the page inserted last, unless it was removed,
evicted while clean, or written back while dirty. -/
theorem faithful_iff_careful [LawfulBoundedCache C] (capacity : Nat) (calls : List Call) :
    (∀ t ∈ Run.states Traced.step (Traced.start capacity : Traced C) calls, t.Faithful) ↔
      Run.Each Traced.step (fun t call => Safe t.cache call) (Traced.start capacity : Traced C) calls :=
  Run.forall_states_iff (fun _ call ok => Consistent.step ok call)
    (fun _ call ok faithful => faithful_step_iff ok faithful call) (consistent_start capacity)
    (faithful_start capacity)

/-- A careful run: a dirty page, a clean one under another identifier, and a flush
whose callback succeeds. -/
theorem faithful_careful_run :
    Run.Always Traced.step Traced.Faithful (Traced.start 2 : Traced (RecencyCache PageId Page))
      [.setWriteback, .insert (Page.new 1).markDirty, .insert (Page.new 2), .get 1, .remove 2,
        .flush ⟨id, fun _ => .refl _, fun _ => .ok ()⟩] := by
  refine (faithful_iff_careful 2 _).mpr ⟨trivial, .inl (by decide), .inr (by decide), trivial,
    .inl (by decide), fun _ id page found => ⟨rfl, ?_⟩, trivial⟩
  rfl

/-- A clean page inserted under an identifier that is dirty is not served: the
read still gives the dirty page. -/
theorem stale_dirty_page :
    ¬ ∀ t ∈ Run.states Traced.step (Traced.start 2 : Traced (RecencyCache PageId Page))
      [.insert (Page.new 1).markDirty, .insert (Page.new 1)], t.Faithful := by
  intro faithful
  have read := faithful _ (Run.foldl_mem_states _ _) 1
  have same : some (Page.new 1).markDirty = some (Page.new 1) := Outcome.ok.inj read
  have flags := congrArg Page.flags (Option.some.inj same)
  revert flags
  decide

end PageCache

end NovaRuntime.Storage
