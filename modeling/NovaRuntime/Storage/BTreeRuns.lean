/-
# NovaRuntime.Storage.BTreeRuns — runs on one tree whose pages have room

A run inserts, deletes, gets and scans on one tree. `areas` are the stretches of a page that
belong to an entry, as the entry itself names them: its place in the entry array, its key and,
on a leaf, its value. `LaidOut` asks that all of them lie inside the page and that no two have a
byte in common.

In a run whose insertions only lay out pages that have room (`Fits`), every insertion succeeds
and every page stays laid out (`layout_safe`). A value that no page has room for makes the very
first insertion panic (`insert_panics`), and separators of different lengths overlap.
-/
import Mathlib.Data.List.Nodup
import NovaRuntime.Library.Runs
import NovaRuntime.Storage.BTreeLayout

namespace NovaRuntime.Storage

open NovaRuntime.Library

set_option autoImplicit false

namespace BTree

/-! ## Areas of a page -/

/-- The stretches of a page that belong to entry `i`. -/
def areas (data : PageData) (i : Nat) : Result (List (Nat × Nat)) :=
  if isLeaf data then do
    let e ← readLeafEntry data i
    if e.valOff < e.keyLen then .panic else
    .ok [(leafEntriesOff + i * leafEntrySize, leafEntrySize), (e.valOff - e.keyLen, e.keyLen), (e.valOff, e.valLen)]
  else do
    let e ← readIntEntry data i
    .ok [(intEntriesOff + i * intEntrySize, intEntrySize), (e.keyOff, e.keyLen)]

/-- Every entry lies inside the page, and no two of its areas and no two entries overlap. -/
structure LaidOut (data : PageData) : Prop where
  inside : ∀ i, i < count data → ∃ own, areas data i = .ok own ∧ (∀ a ∈ own, a.1 + a.2 ≤ pageSize) ∧
    own.Pairwise fun a b => Apart a.1 a.2 b.1 b.2
  apart : ∀ i j own other, i < j → j < count data → areas data i = .ok own → areas data j = .ok other →
    ∀ a ∈ own, ∀ b ∈ other, Apart a.1 a.2 b.1 b.2

section Areas

variable {X : Extern} {data : PageData}

theorem LeafPage.areas {es : List LeafItem} (page : LeafPage X data es) {i : Nat} {e : LeafItem} (here : es[i]? = some e) :
    BTree.areas data i = .ok [(leafEntriesOff + i * leafEntrySize, leafEntrySize), (leafOff es i, e.1.length),
      (leafOff es i + e.1.length, e.2.1.length)] := by
  rw [BTree.areas, if_pos page.leaf, (page.items i e here).entry, Outcome.ok_bind]
  dsimp only
  rw [if_neg (by omega), Nat.add_sub_cancel]

theorem IntPage.areas {es : List IntItem} (page : IntPage data es) {i : Nat} {e : IntItem} (here : es[i]? = some e) :
    BTree.areas data i = .ok [(intEntriesOff + i * intEntrySize, intEntrySize), (intOff i e.2.2, e.2.2.length)] := by
  rw [BTree.areas, if_neg (by rw [page.internal]; decide), (page.items i e here).entry, Outcome.ok_bind]

theorem LeafPage.laidOut {es : List LeafItem} (page : LeafPage X data es) : LaidOut data where
  inside i low := by
    rw [page.count] at low
    have here : es[i]? = some es[i] := List.getElem?_eq_getElem low
    refine ⟨_, page.areas here, ?_⟩
    have bound := page.bound here
    have above := page.room.above i
    have row : (i + 1) * leafEntrySize ≤ es.length * leafEntrySize := Nat.mul_le_mul_right _ low
    have next := Nat.add_one_mul i leafEntrySize
    unfold LeafItem.size at bound
    simp only [List.forall_mem_cons, List.pairwise_cons, Apart]
    refine ⟨⟨by omega, by omega, by omega, nofun⟩, ⟨by omega, by omega, nofun⟩, ⟨by omega, nofun⟩, nofun, .nil⟩
  apart i j own other less low ownAreas otherAreas := by
    rw [page.count] at low
    have hereI : es[i]? = some es[i] := List.getElem?_eq_getElem (by omega)
    have hereJ : es[j]? = some es[j] := List.getElem?_eq_getElem low
    cases ownAreas.symm.trans (page.areas hereI)
    cases otherAreas.symm.trans (page.areas hereJ)
    have aboveI := page.room.above i
    have aboveJ := page.room.above j
    have rowI : (i + 1) * leafEntrySize ≤ j * leafEntrySize := Nat.mul_le_mul_right _ less
    have rowJ : (j + 1) * leafEntrySize ≤ es.length * leafEntrySize := Nat.mul_le_mul_right _ low
    have nextI := Nat.add_one_mul i leafEntrySize
    have nextJ := Nat.add_one_mul j leafEntrySize
    have below := page.below hereJ less
    unfold LeafItem.size at below
    simp only [List.forall_mem_cons, Apart]
    exact ⟨⟨by omega, by omega, by omega, nofun⟩, ⟨by omega, by omega, by omega, nofun⟩,
      ⟨by omega, by omega, by omega, nofun⟩, nofun⟩

theorem IntPage.laidOut {es : List IntItem} (page : IntPage data es) : LaidOut data where
  inside i low := by
    rw [page.count] at low
    have here : es[i]? = some es[i] := List.getElem?_eq_getElem low
    refine ⟨_, page.areas here, ?_⟩
    have inside := page.room.inside i _ (getElem?_keysOf here)
    have above := page.room.above i _ (getElem?_keysOf here)
    have entries := page.room.entries
    rw [length_keysOf] at above entries
    have row : (i + 1) * intEntrySize ≤ es.length * intEntrySize := Nat.mul_le_mul_right _ low
    have next := Nat.add_one_mul i intEntrySize
    have bound : intOff i es[i].2.2 + es[i].2.2.length ≤ pageSize := by
      unfold intOff
      omega
    simp only [List.forall_mem_cons, List.pairwise_cons, Apart]
    exact ⟨⟨by omega, by omega, nofun⟩, ⟨by omega, nofun⟩, nofun, .nil⟩
  apart i j own other less low ownAreas otherAreas := by
    rw [page.count] at low
    have hereI : es[i]? = some es[i] := List.getElem?_eq_getElem (by omega)
    have hereJ : es[j]? = some es[j] := List.getElem?_eq_getElem low
    cases ownAreas.symm.trans (page.areas hereI)
    cases otherAreas.symm.trans (page.areas hereJ)
    have aboveI := page.room.above i _ (getElem?_keysOf hereI)
    have aboveJ := page.room.above j _ (getElem?_keysOf hereJ)
    have apart := page.room.apart i j _ _ less (getElem?_keysOf hereI) (getElem?_keysOf hereJ)
    rw [length_keysOf] at aboveI aboveJ
    have rowI : (i + 1) * intEntrySize ≤ j * intEntrySize := Nat.mul_le_mul_right _ less
    have rowJ : (j + 1) * intEntrySize ≤ es.length * intEntrySize := Nat.mul_le_mul_right _ low
    have nextI := Nat.add_one_mul i intEntrySize
    have nextJ := Nat.add_one_mul j intEntrySize
    simp only [List.forall_mem_cons]
    refine ⟨⟨?_, ?_, nofun⟩, ⟨?_, apart, nofun⟩, nofun⟩
    · unfold Apart
      omega
    · unfold Apart
      omega
    · unfold Apart
      omega

theorem Represents.laidOut {node : Node} (held : Represents X data node) : LaidOut data := by
  cases node with
  | leaf next items => exact held.1.laidOut
  | internal items => exact IntPage.laidOut held

end Areas

/-! ## The tree between calls -/

variable {C : Type} [BoundedCache C PageId Page] {X : Extern}

/-- The pages are nodes of a tree with a root of some level, or there are none yet. -/
structure Sound (X : Extern) (s : Tree C) (v : View) : Prop where
  stored : Stored X s.cache v.nodes
  typed : Typed v
  fresh : Fresh s.btree v
  order : 0 < s.btree.order
  nextId : 1000 ≤ s.btree.nextId.toNat
  root : s.btree.rootId = 0 ∧ (∀ id, v.nodes id = none) ∨ s.btree.rootId ≠ 0 ∧ ∃ h, v.level s.btree.rootId = some h

/-- Below a page of level `h` there is a page of every lower level. -/
theorem Typed.chain {v : View} (typed : Typed v) {id : PageId} {h : Nat} (level : v.level id = some h) :
    ∃ ids : List PageId, ids.length = h + 1 ∧ ids.Nodup ∧ ∀ i ∈ ids, ∃ l, v.level i = some l ∧ l ≤ h := by
  induction h generalizing id with
  | zero =>
    refine ⟨[id], rfl, List.nodup_singleton id, fun i member => ?_⟩
    rw [List.mem_singleton.mp member]
    exact ⟨0, level, le_rfl⟩
  | succ h ih =>
    obtain ⟨items, -, some', below⟩ := typed.internal level
    obtain ⟨e, rest, rfl⟩ := List.exists_cons_of_ne_nil some'
    obtain ⟨ids, length, nodup, levels⟩ := ih (below e (.head _))
    refine ⟨id :: ids, by rw [List.length_cons, length], List.nodup_cons.mpr ⟨fun member => ?_, nodup⟩, ?_⟩
    · obtain ⟨l, level', low⟩ := levels id member
      cases level.symm.trans level'
      omega
    · intro i member
      rcases List.mem_cons.mp member with rfl | below
      · exact ⟨h + 1, level, le_rfl⟩
      · obtain ⟨l, level', low⟩ := levels i below
        exact ⟨l, level', by omega⟩

/-- **A tree is lower than its pages are many**, so that a descent ends. -/
theorem Sound.lower {s : Tree C} {v : View} (sound : Sound X s v) {id : PageId} {h : Nat} (level : v.level id = some h) :
    h < fuel s.cache := by
  obtain ⟨ids, length, nodup, levels⟩ := sound.typed.chain level
  have inside : ids ⊆ s.cache.dirty.keys := by
    intro i member
    obtain ⟨l, level', -⟩ := levels i member
    obtain ⟨node, found⟩ := sound.typed.known i l level'
    obtain ⟨page, here, -⟩ := sound.stored.held i node found
    exact Std.TreeMap.mem_keys.mpr (Std.TreeMap.mem_iff_isSome_getElem?.mpr (by rw [here]; rfl))
  have few := (List.subperm_of_subset nodup inside).length_le
  rw [length, Std.TreeMap.length_keys] at few
  unfold fuel
  omega

theorem Sound.laidOut {s : Tree C} {v : View} (sound : Sound X s v) {id : PageId} {page : Page}
    (served : s.cache.served id = some page) : LaidOut page.data := by
  rw [PageCache.served] at served
  cases here : s.cache.dirty[id]? with
  | none =>
    rw [here, sound.stored.clean] at served
    cases served
  | some page' =>
    rw [here] at served
    cases served
    obtain ⟨node, known⟩ := sound.stored.known id page here
    obtain ⟨page', here', -, held⟩ := sound.stored.held id node known
    cases here.symm.trans here'
    exact held.laidOut

/-! ## Insertion -/

section Inserting

variable {t : BTree} {cache : PageCache C} {v : View}

/-- **A new root** over the old one and its sibling. -/
theorem growRoot_spec (stored : Stored X cache v.nodes) (typed : Typed v) (fresh : Fresh t v) {h : Nat}
    {oldRoot newChild : PageId} (oldLevel : v.level oldRoot = some h) (newLevel : v.level newChild = some h)
    {sepKey : Key} (room : IntRoom [sepKey, sepKey]) (counter : t.nextId.toNat + 1 < 2 ^ 64) :
    ∃ v', Gives X (growRoot X oldRoot sepKey newChild) ⟨t, cache⟩ ()
        { t with rootId := t.nextId, nextId := t.nextId + 1 } v'.nodes ∧
      Grown (h + 1) 1 t v { t with nextId := t.nextId + 1 } v' ∧ v'.level t.nextId = some (h + 1) := by
  let items : List IntItem := [(X.xxh3_64 sepKey, oldRoot, sepKey), (X.xxh3_64 sepKey, newChild, sepKey)]
  obtain ⟨data, filled, -, page⟩ := fillInternal_spec items room PageId.invalid 2
  have held : Represents X data (.internal items) := page rfl
  have children : ∀ e ∈ items, v.level e.2.1 = some h := by
    intro e member
    simp only [items, List.mem_cons, List.not_mem_nil, or_false] at member
    rcases member with rfl | rfl
    · exact oldLevel
    · exact newLevel
  have grown := Grown.add typed fresh counter (h + 1) (.internal items)
    ⟨List.cons_ne_nil _ _, fun e member => View.keeps_add fresh.new _ _ _ _ (children e member)⟩
  obtain ⟨oldNode, oldFound⟩ := grown.typed.known _ _ (grown.keeps _ _ oldLevel)
  obtain ⟨newNode, newFound⟩ := grown.typed.known _ _ (grown.keeps _ _ newLevel)
  refine ⟨_, ?_, grown, View.level_add_self ..⟩
  have wrote := put_spec (t := { t with nextId := t.nextId + 1 }) stored (newPage t.nextId data)
    (Page.isDirty_markDirty _) held
  rw [growRoot]
  refine Gives.lift filled ?_
  refine Gives.bind wrote fun _ stored₁ => ?_
  refine Gives.bind (relink_spec stored₁ oldFound (.inl rfl) t.nextId) fun _ stored₂ => ?_
  refine Gives.bind (relink_spec stored₂ newFound (.inl rfl) t.nextId) fun cache₃ stored₃ => ?_
  exact ⟨cache₃, rfl, stored₃⟩

/-- The first insertion makes a root. -/
theorem ensureRoot_spec (stored : Stored X cache v.nodes) (none' : t.rootId = 0) :
    Gives X ensureRoot ⟨t, cache⟩ 1 { t with rootId := 1 } (v.add 1 0 (.leaf PageId.invalid [])).nodes := by
  have empty := emptyLeaf_spec X PageId.invalid PageId.invalid PageId.invalid
  have held : Represents X (emptyLeaf PageId.invalid PageId.invalid PageId.invalid) (.leaf PageId.invalid []) := empty
  obtain ⟨cache', ran, stored'⟩ := put_spec (t := t) stored
    (newPage 1 (emptyLeaf PageId.invalid PageId.invalid PageId.invalid)) (Page.isDirty_markDirty _) held
  refine ⟨cache', ?_, stored'⟩
  rw [ensureRoot, Exec.get_bind, getRoot, if_pos none']
  exact Exec.bind_of_ok ran _

/-- What a tree with a root looks like after it has grown. -/
theorem Grown.sound {t' : BTree} {cache' : PageCache C} {v' : View} {h l n : Nat} (grown : Grown h n t v t' v')
    (stored' : Stored X cache' v'.nodes) (order : 0 < t.order) (nextId : 1000 ≤ t.nextId.toNat)
    (some' : t.rootId ≠ 0) (level : v.level t.rootId = some l) : Sound X ⟨t', cache'⟩ v' where
  stored := stored'
  typed := grown.typed
  fresh := grown.fresh
  order := by
    show 0 < t'.order
    rw [grown.order]
    exact order
  nextId := le_trans nextId grown.grows
  root := .inr ⟨by rw [grown.root]; exact some', l, by rw [grown.root]; exact grown.keeps _ _ level⟩

/-- What the tree does with the separator of its root. -/
def takeUpRoot (X : Extern) (rootId : PageId) : Option (Key × PageId) → Method (Tree C) Unit
  | some (sepKey, newChildId) => growRoot X rootId sepKey newChildId
  | none => pure ()

/-- Insertion into a tree with a root. -/
theorem insert_of_root {id : PageId} {key : Key} {value : Value} {h : Nat} (stored : Stored X cache v.nodes)
    (typed : Typed v) (fresh : Fresh t v) (order : 0 < t.order) (nextId : 1000 ≤ t.nextId.toNat) (isRoot : t.rootId = id)
    (some' : id ≠ 0) (level : v.level id = some h) {n : Nat} (enough : h ≤ n) (counter : t.nextId.toNat + (h + 2) < 2 ^ 64)
    (room : ∀ l ∈ (plan X t.order key value v.nodes n id).layouts, l.Room)
    (rootRoom : ∀ sepKey, (plan X t.order key value v.nodes n id).separator = some sepKey → IntRoom [sepKey, sepKey]) :
    ∃ s' v', (insertInto X key value n id >>= takeUpRoot X id) (⟨t, cache⟩ : Tree C) = (.ok (), s') ∧
      Sound X s' v' := by
  subst isRoot
  obtain ⟨result, t', v', ⟨cache', ran, stored'⟩, grown, handed⟩ :=
    insertInto_spec enough level stored typed fresh order (by omega) room
  have atMost := grown.atMost
  rw [Exec.bind_of_ok ran]
  cases separator : (plan X t.order key value v.nodes n t.rootId).separator with
  | none =>
    rw [separator] at handed
    have noSplit : result = none := handed
    subst noSplit
    exact ⟨_, v', rfl, grown.sound stored' order nextId some' level⟩
  | some sepKey =>
    rw [separator] at handed
    obtain ⟨newChild, rfl, newLevel⟩ := handed
    obtain ⟨v'', ⟨cache'', ran', stored''⟩, grown', rootLevel⟩ := growRoot_spec stored' grown.typed grown.fresh
      (grown.keeps _ _ level) newLevel (rootRoom sepKey separator) (by omega)
    have grows := grown.grows
    refine ⟨_, v'', ran', stored'', grown'.typed, grown'.fresh, ?_, ?_, .inr ⟨?_, h + 1, rootLevel⟩⟩
    · show 0 < t'.order
      rw [grown.order]
      exact order
    · exact le_trans (le_trans nextId grows) grown'.grows
    · intro zero
      have number : t'.nextId.toNat = 0 := congrArg UInt64.toNat zero
      omega

/-- **An insertion that lays out pages with room only** succeeds. -/
theorem insert_spec {s : Tree C} (sound : Sound X s v) {key : Key} {value : Value}
    (room : ∀ l ∈ insertPlan X key value s, l.Room) (counter : s.btree.nextId.toNat + fuel s.cache + 2 < 2 ^ 64) :
    ∃ s' v', insert X key value s = (.ok (), s') ∧ Sound X s' v' := by
  rw [insertPlan, sound.stored.nodesOf_eq, getRoot] at room
  rcases sound.root with ⟨zero, none'⟩ | ⟨some', h, level⟩
  · rw [if_pos zero] at room
    have few : 0 < s.btree.order * 2 := by
      have := sound.order
      omega
    have unused : ∀ id, v.level id = none := by
      intro id
      cases level : v.level id with
      | none => rfl
      | some l =>
        obtain ⟨node, found⟩ := sound.typed.known id l level
        cases (none' id).symm.trans found
    have typed := sound.typed.add (unused 1) 0 (.leaf PageId.invalid []) (.inl rfl)
    obtain ⟨cache', ran, stored'⟩ := ensureRoot_spec sound.stored zero
    have planned : ∀ n, plan X s.btree.order key value (v.add 1 0 (.leaf PageId.invalid [])).nodes n 1 =
        leafPlan s.btree.order key value [] := by
      intro n
      unfold plan
      rw [View.nodes_add_self]
    have noSplit : (leafPlan s.btree.order key value []).separator = none := by
      rw [leafPlan]
      simp only [overwrite, List.findIdx?_nil, Option.bind_none, List.length_nil, if_pos few]
    have counter' : s.btree.nextId.toNat + (0 + 2) < 2 ^ 64 := by omega
    rw [insert, Exec.bind_of_ok ran, Exec.get_bind]
    have isRoot : ({ s.btree with rootId := 1 } : BTree).rootId = 1 := rfl
    refine insert_of_root (t := { s.btree with rootId := 1 }) stored' typed (fun id l known => ?_) sound.order
      sound.nextId isRoot (by decide) (View.level_add_self ..) (Nat.zero_le _) counter' (by rw [planned]; exact room) ?_
    · by_cases same : id = 1
      · rw [same]
        exact lt_of_lt_of_le (by decide) sound.nextId
      · rw [View.level_add_of_ne v same, unused] at known
        cases known
    · rw [planned, noSplit]
      intro sep split
      cases split
  · rw [if_neg some'] at room
    have lower := sound.lower level
    have ran : (ensureRoot : Method (Tree C) PageId) s = (.ok s.btree.rootId, s) := by
      rw [ensureRoot, Exec.get_bind, getRoot, if_neg some']
      rfl
    rw [insert, Exec.bind_of_ok ran, Exec.get_bind]
    refine insert_of_root (t := s.btree) sound.stored sound.typed sound.fresh sound.order sound.nextId rfl some' level
      (by omega) (by omega) (fun l member => ?_) fun sepKey separator => ?_
    · cases separator : (plan X s.btree.order key value v.nodes (fuel s.cache) s.btree.rootId).separator with
      | none =>
        simp only [separator] at room
        exact room l member
      | some sepKey =>
        simp only [separator] at room
        exact room l (List.mem_append_left _ member)
    · simp only [separator] at room
      exact room (.internal [sepKey, sepKey]) (List.mem_append_right _ (List.mem_singleton.mpr rfl))

end Inserting

/-! ## Deletion and reads -/

section Others

variable {v : View}

theorem deleteFrom_spec {s : Tree C} (sound : Sound X s v) {key : Key} {n : Nat} {id : PageId} {h : Nat} (enough : h ≤ n)
    (level : v.level id = some h) : ∃ found s' v', deleteFrom key n id s = (.ok found, s') ∧ Sound X s' v' := by
  obtain ⟨t, cache⟩ := s
  induction h generalizing n id with
  | zero =>
    obtain ⟨next, items, found, neighbour⟩ := sound.typed.leaf level
    obtain ⟨page, read, rfl, held⟩ := fetch_spec (t := t) sound.stored found "BTree page not found"
    have searched := held.1.deleteLoop key
    unfold deleteFrom
    rw [Exec.bind_of_ok read, if_pos held.1.leaf]
    rcases searched with absent | ⟨i, e, data', here, isKey, marked, page', header⟩
    · rw [absent]
      exact ⟨false, _, v, rfl, sound⟩
    · have link : readU64 data' nextLeafOff = next := by
        rw [← held.2, readU64, readU64, bytes_congr fun j _ high => header j (lt_trans high (by decide))]
      have deleted : Represents X data' (.leaf next (items.set i (key, e.2.1, 1))) := ⟨page', link⟩
      have grown := Grown.set sound.typed sound.fresh level (.leaf next (items.set i (key, e.2.1, 1))) neighbour
      obtain ⟨cache', ran, stored'⟩ := put_spec (t := t) sound.stored { page with data := data' }.markDirty
        (Page.isDirty_markDirty _) deleted
      rw [marked, Exec.bind_of_ok (Exec.lift_apply ..)]
      refine ⟨true, _, _, (Exec.bind_of_ok ran _).trans rfl, stored', grown.typed, grown.fresh, sound.order, sound.nextId, ?_⟩
      refine sound.root.imp (fun empty => ?_) fun root => root
      cases (empty.2 page.id).symm.trans found
  | succ h ih =>
    obtain ⟨n, rfl⟩ : ∃ m, n = m + 1 := ⟨n - 1, by omega⟩
    obtain ⟨items, found, some', below⟩ := sound.typed.internal level
    obtain ⟨page, read, rfl, held⟩ := fetch_spec (t := t) sound.stored found "BTree page not found"
    have held : IntPage page.data items := held
    obtain ⟨e, here, sent⟩ := held.childFor some' key
    obtain ⟨found', s', v', ran, sound'⟩ := ih (n := n) (by omega) (below e (List.mem_of_getElem? here))
    refine ⟨found', s', v', ?_, sound'⟩
    rw [deleteFrom, Exec.bind_of_ok read, held.internal, if_neg Bool.false_ne_true, sent]
    exact ran

theorem delete_spec {s : Tree C} (sound : Sound X s v) (key : Key) :
    ∃ found s' v', delete key s = (.ok found, s') ∧ Sound X s' v' := by
  rw [delete, Exec.get_bind, getRoot]
  rcases sound.root with ⟨zero, -⟩ | ⟨some', h, level⟩
  · rw [if_pos zero]
    exact ⟨false, s, v, rfl, sound⟩
  · rw [if_neg some']
    exact deleteFrom_spec sound (sound.lower level).le level

variable [LawfulBoundedCache C]

/-- A read finds its page among the dirty ones or nowhere. -/
theorem fetch_keeps (id : PageId) (missing : String) :
    Exec.Keeps (fun s : Tree C => Sound X s v) (fetch id missing) := by
  refine Exec.Keeps.bind (fun s sound => ?_) fun page => ?_
  · have dirty := PageCache.dirty_get id s.cache
    have clean := PageCache.peek_get id s.cache
    refine { sound with stored := ⟨fun id' node found => ?_, fun id' page found => ?_, fun id' => ?_⟩ }
    · obtain ⟨page, here, held⟩ := sound.stored.held id' node found
      exact ⟨page, (congrArg (fun d => d[id']?) dirty).trans here, held⟩
    · exact sound.stored.known id' page ((congrArg (fun d => d[id']?) dirty).symm.trans found)
    · exact (clean id').trans (sound.stored.clean id')
  · cases page with
    | none => exact Exec.keeps_lift _ _
    | some page => exact Exec.keeps_pure _ _

theorem getFromPage_keeps (key : Key) (n : Nat) (data : PageData) :
    Exec.Keeps (fun s : Tree C => Sound X s v) (getFromPage X key n data) := by
  induction n generalizing data with
  | zero =>
    rw [getFromPage]
    split <;> exact Exec.keeps_lift _ _
  | succ n ih =>
    rw [getFromPage]
    split
    · exact Exec.keeps_lift _ _
    · exact (Exec.keeps_lift _ _).bind fun childId => (fetch_keeps _ _).bind fun page => ih page.data

theorem get_keeps (key : Key) : Exec.Keeps (fun s : Tree C => Sound X s v) (get X key) := by
  refine Exec.keeps_get_bind fun s => ?_
  cases s.btree.getRoot with
  | none => exact Exec.keeps_pure _ _
  | some rootId => exact (fetch_keeps _ _).bind fun page => getFromPage_keeps key _ page.data

theorem findStartLeaf_keeps (key : Key) (n : Nat) (id : PageId) :
    Exec.Keeps (fun s : Tree C => Sound X s v) (findStartLeaf key n id) := by
  induction n generalizing id with
  | zero =>
    unfold findStartLeaf
    refine (fetch_keeps _ _).bind fun page => ?_
    split
    · exact Exec.keeps_pure _ _
    · exact Exec.keeps_lift _ _
  | succ n ih =>
    rw [findStartLeaf]
    refine (fetch_keeps _ _).bind fun page => ?_
    split
    · exact Exec.keeps_pure _ _
    · exact (Exec.keeps_lift _ _).bind fun childId => ih childId

theorem scanLeaves_keeps (first stop : Key) (n : Nat) (id : PageId) (results : List (Key × Value)) :
    Exec.Keeps (fun s : Tree C => Sound X s v) (scanLeaves first stop n id results) := by
  induction n generalizing id results with
  | zero => exact Exec.keeps_lift _ _
  | succ n ih =>
    rw [scanLeaves]
    refine (fetch_keeps _ _).bind fun page => (Exec.keeps_lift _ _).bind fun found => ?_
    dsimp only
    split
    · exact Exec.keeps_pure _ _
    · split
      · exact Exec.keeps_pure _ _
      · exact ih _ _

theorem scan_keeps (first stop : Key) : Exec.Keeps (fun s : Tree C => Sound X s v) (scan first stop) := by
  refine Exec.keeps_get_bind fun s => ?_
  cases s.btree.getRoot with
  | none => exact Exec.keeps_pure _ _
  | some rootId => exact (findStartLeaf_keeps _ _ _).bind fun id => scanLeaves_keeps _ _ _ _ _

end Others

/-! ## Runs -/

inductive Call where
  | insert (key : Key) (value : Value)
  | delete (key : Key)
  | get (key : Key)
  | scan (first stop : Key)

def perform (X : Extern) (s : Tree C) : Call → Tree C
  | .insert key value => (insert X key value s).2
  | .delete key => (delete key s).2
  | .get key => (get X key s).2
  | .scan first stop => (scan first stop s).2

/-- A new tree on a new page cache. -/
def start (order capacity : Nat) : Tree C := { btree := BTree.new order, cache := PageCache.new capacity }

/-- Every page that the cache serves is laid out. -/
def Laid (s : Tree C) : Prop := ∀ id page, s.cache.served id = some page → LaidOut page.data

/-- An insertion succeeds, or fails and changes nothing; pages stay laid out. -/
def Safe (X : Extern) (s : Tree C) : Call → Prop
  | .insert key value =>
    ((insert X key value s).1 = .ok () ∨ ∃ error, insert X key value s = (.err error, s)) ∧
      Laid (insert X key value s).2
  | call => Laid (perform X s call)

/-- The pages that an insertion lays out have room, and the page numbers have not run out. -/
def Fits (X : Extern) (s : Tree C) : Call → Prop
  | .insert key value => (∀ l ∈ insertPlan X key value s, l.Room) ∧ s.btree.nextId.toNat + fuel s.cache + 2 < 2 ^ 64
  | _ => True

section

variable [LawfulBoundedCache C]

theorem sound_start (X : Extern) (order capacity : Nat) :
    Sound X (start order capacity : Tree C) { nodes := fun _ => none, level := fun _ => none } where
  stored := ⟨nofun, fun id page found => by simp [start, PageCache.new] at found,
    fun id => LawfulBoundedCache.peek_new _ _ id⟩
  typed := ⟨nofun, nofun⟩
  fresh := nofun
  order := by
    show 0 < if order < 4 then 128 else order
    split <;> omega
  nextId := show 1000 ≤ UInt64.toNat 1000 by decide
  root := .inl ⟨rfl, fun _ => rfl⟩

/-- **What a call leaves** where an insertion has room. -/
theorem Sound.step {s : Tree C} (held : ∃ v, Sound X s v) {call : Call} (fits : Fits X s call) :
    ∃ v, Sound X (perform X s call) v := by
  obtain ⟨v, sound⟩ := held
  cases call with
  | insert key value =>
    obtain ⟨s', v', ran, sound'⟩ := insert_spec sound fits.1 fits.2
    exact ⟨v', by rwa [perform, ran]⟩
  | delete key =>
    obtain ⟨found, s', v', ran, sound'⟩ := delete_spec sound key
    exact ⟨v', by rwa [perform, ran]⟩
  | get key => exact ⟨v, get_keeps key s sound⟩
  | scan first stop => exact ⟨v, scan_keeps first stop s sound⟩

theorem Sound.safe {s : Tree C} (held : ∃ v, Sound X s v) {call : Call} (fits : Fits X s call) : Safe X s call := by
  obtain ⟨v', sound'⟩ := Sound.step held fits
  have laid : Laid (perform X s call) := fun id page served => sound'.laidOut served
  obtain ⟨v, sound⟩ := held
  cases call with
  | insert key value =>
    obtain ⟨s', v', ran, -⟩ := insert_spec sound fits.1 fits.2
    exact ⟨.inl (by rw [ran]), laid⟩
  | delete key | get key | scan first stop => exact laid

end

/-- **In a run whose insertions lay out pages that have room** every insertion succeeds, and every
page is laid out all the time. -/
theorem layout_safe [LawfulBoundedCache C] (X : Extern) (order capacity : Nat) (calls : List Call)
    (fits : Run.Each (perform X) (Fits X) (start order capacity : Tree C) calls) :
    Run.Each (perform X) (Safe X) (start order capacity : Tree C) calls :=
  fits.imp (I := fun s => ∃ v, Sound X s v) (fun _ _ held fits => Sound.step held fits)
    (fun _ _ held fits => Sound.safe held fits) ⟨_, sound_start X order capacity⟩

theorem layout_safe_sample : Run.Each (perform .literal) (Safe .literal)
    (start 4 16 : Tree (RecencyCache PageId Page)) [.insert [107] [118]] := by
  refine layout_safe .literal 4 16 [.insert [107] [118]] ⟨⟨fun l member => ?_, by decide⟩, trivial⟩
  rw [List.mem_singleton.mp member]
  show LeafRoom (List.mergeSort [([107], [118], 0)] _)
  rw [List.mergeSort_singleton]
  decide

/-- No page takes a value that is larger than it. -/
theorem fillLeaf_panics {X : Extern} {key : Key} {value : Value} (large : pageSize < value.length) (flags : UInt8)
    (parent next prev : PageId) : fillLeaf X (emptyLeaf parent next prev) 0 [(key, value, flags)] = .panic := by
  have none : readU16 (emptyLeaf parent next prev) countOff = 0 := (emptyLeaf_spec X parent next prev).1.count
  rw [fillLeaf, insertLeafEntry, none, usedBytes, Outcome.ok_bind, if_pos (by omega)]
  rfl

theorem insert_panics [LawfulBoundedCache C] {X : Extern} {key : Key} {value : Value} (large : pageSize < value.length)
    (order capacity : Nat) : (insert X key value (start order capacity : Tree C)).1 = .panic := by
  have sound := sound_start (C := C) X order capacity
  obtain ⟨cache, ran, stored⟩ := ensureRoot_spec (t := BTree.new order) sound.stored rfl
  obtain ⟨page, read, -, leaf, -⟩ := fetch_spec (t := { BTree.new order with rootId := 1 }) stored
    (View.nodes_add_self _ 1 0 (.leaf PageId.invalid [])) "BTree page not found"
  have none : count page.data = 0 := leaf.count
  have few : 0 < (BTree.new order).order * 2 := by
    have positive : 0 < (BTree.new order).order := sound.order
    omega
  have adds : (addToLeaf X page key value : Method (Tree C) Unit) ⟨{ BTree.new order with rootId := 1 }, cache⟩ =
      (.panic, ⟨{ BTree.new order with rootId := 1 }, cache⟩) := by
    rw [addToLeaf, leaf.readLeaf, Exec.bind_of_ok (Exec.lift_apply ..), byKey, List.nil_append, List.mergeSort_singleton,
      fillLeaf_panics large]
    rfl
  have leafPanics : (insertIntoLeaf X page key value : Method (Tree C) _) ⟨{ BTree.new order with rootId := 1 }, cache⟩ =
      (.panic, ⟨{ BTree.new order with rootId := 1 }, cache⟩) := by
    rw [insertIntoLeaf, Exec.get_bind, none]
    refine (Exec.bind_of_ok (Exec.lift_apply ..) _).trans ?_
    dsimp only
    rw [if_pos few, Exec.bind_apply, adds]
  have treePanics : ∀ n, (insertInto X key value n 1 : Method (Tree C) _) ⟨{ BTree.new order with rootId := 1 }, cache⟩ =
      (.panic, ⟨{ BTree.new order with rootId := 1 }, cache⟩) := by
    intro n
    unfold insertInto
    rw [Exec.bind_of_ok read, if_pos leaf.leaf]
    exact leafPanics
  rw [insert, Exec.bind_of_ok (s := start order capacity) ran, Exec.get_bind, Exec.bind_apply, treePanics]

/-- Such a value is neither stored nor refused. -/
theorem value_panics : ¬ ∀ (X : Extern) (order capacity : Nat) (calls : List Call), 4 ≤ order →
    Run.Each (perform X) (Safe X) (start order capacity : Tree (RecencyCache PageId Page)) calls := by
  intro always
  have safe := (always .literal 128 16 [.insert [107] (List.replicate 5000 0)] (by decide)).1
  have panics : (insert .literal [107] (List.replicate 5000 0) (start 128 16 : Tree (RecencyCache PageId Page))).1 =
      .panic := insert_panics (by rw [List.length_replicate]; decide) 128 16
  rcases safe.1 with ok | ⟨error, refused⟩
  · rw [panics] at ok
    cases ok
  · rw [refused] at panics
    cases panics

end BTree

end NovaRuntime.Storage
