/-
# NovaRuntime.Storage.BTreeLayout — insertions that stay inside their pages

Nothing checks that a page has room for the entries that are written to it. `insertPlan` lists
the pages that an insertion lays out anew, with their entries: the leaf that gets the key, or its
two halves, and the internal pages that get a separator. As long as these have room, no
insertion fails, reads or writes outside a page, or lets two entries of a page overlap
(`layout_safe`).

A run inserts and deletes on one tree. Every page of the tree has a level, its distance from the
leaves (`Typed`), which an insertion never changes; so the descent ends before the fuel does.
-/
import Mathlib.Logic.Function.Basic
import NovaRuntime.Storage.BTreePage

namespace NovaRuntime.Storage

open NovaRuntime.Library

set_option autoImplicit false

namespace BTree

/-! ## Nodes -/

/-- What a page of the tree holds. -/
inductive Node where
  | leaf (next : PageId) (items : List LeafItem)
  | internal (items : List IntItem)

def Represents (X : Extern) (data : PageData) : Node → Prop
  | .leaf next items => LeafPage X data items ∧ readU64 data nextLeafOff = next
  | .internal items => IntPage data items

/-- The entries of a page as the tree reads them. -/
def readNode (data : PageData) : Option Node :=
  if isLeaf data then (readLeaf data (count data) 0).elim (fun items => some (.leaf (readU64 data nextLeafOff) items)) none
  else (readInternal data (count data) 0).elim (fun items => some (.internal items)) none

theorem readNode_eq {X : Extern} {data : PageData} {node : Node} (held : Represents X data node) :
    readNode data = some node := by
  cases node with
  | leaf next items =>
    obtain ⟨page, link⟩ := held
    rw [readNode, if_pos page.leaf, page.readLeaf, link]
    rfl
  | internal items =>
    have page : IntPage data items := held
    rw [readNode, if_neg (by rw [page.internal]; decide), page.readInternal]
    rfl

/-! ## The pages an insertion lays out -/

/-- The first entry of a key is given a value of the same length. -/
def overwrite (key : Key) (value : Value) (items : List LeafItem) : Option (List LeafItem) :=
  (items.findIdx? fun e => decide (e.1 = key)).bind fun i => (items[i]?).bind fun e =>
    if e.2.1.length = value.length then some (items.set i (key, value, 0)) else none

/-- The first entry of a key gets a tombstone. -/
def entomb (key : Key) (items : List LeafItem) : List LeafItem :=
  ((items.findIdx? fun e => decide (e.1 = key)).bind fun i => (items[i]?).map fun e =>
    items.set i (key, e.2.1, 1)).getD items

/-- The entries of a page that is laid out anew. -/
inductive Layout where
  | leaf (items : List LeafItem)
  | internal (keys : List Key)

def Layout.Room : Layout → Prop
  | .leaf items => LeafRoom items
  | .internal keys => IntRoom keys

/-- What an insertion lays out, and the separator that it hands up. -/
structure Plan where
  layouts : List Layout
  separator : Option Key

def leafPlan (order : Nat) (key : Key) (value : Value) (items : List LeafItem) : Plan :=
  match overwrite key value items with
  | some _ => { layouts := [], separator := none }
  | none =>
    if items.length < order * 2 then
      { layouts := [.leaf (byKey (fun e => e.1) (entomb key items ++ [(key, value, 0)]))], separator := none }
    else
      let entries := insertSorted key value (entomb key items)
      { layouts := [.leaf (entries.take order), .leaf (entries.drop order)]
        separator := (entries[order]?).map fun e => e.1 }

/-- The plan of an internal page, for the separator that is handed up to it. -/
def internalPlan (X : Extern) (order : Nat) (items : List IntItem) (sepKey : Key) : Plan :=
  let keys := keysOf (withChild X sepKey 0 items)
  if items.length < order * 2 then { layouts := [.internal keys], separator := none }
  else { layouts := [.internal (keys.drop (order + 1))], separator := keys[order]? }

/-- The plan below a page. -/
def plan (X : Extern) (order : Nat) (key : Key) (value : Value) (nodes : PageId → Option Node) : Nat → PageId → Plan
  | fuel, id =>
    match nodes id with
    | some (.leaf _ items) => leafPlan order key value items
    | some (.internal items) =>
      match fuel with
      | 0 => { layouts := [], separator := none }
      | fuel + 1 =>
        match items[childIndex key items]? with
        | none => { layouts := [], separator := none }
        | some e =>
          let below := plan X order key value nodes fuel e.2.1
          match below.separator with
          | none => below
          | some sepKey =>
            let here := internalPlan X order items sepKey
            { here with layouts := below.layouts ++ here.layouts }
    | none => { layouts := [], separator := none }

variable {C : Type}

def nodesOf (cache : PageCache C) (id : PageId) : Option Node := (cache.dirty[id]?).bind fun page => readNode page.data

/-! ## The first entry of a key -/

theorem findIdx?_key {key : Key} {items : List LeafItem} {i : Nat} {e : LeafItem} (here : items[i]? = some e)
    (isKey : e.1 = key) (before : ∀ f ∈ items.take i, f.1 ≠ key) :
    items.findIdx? (fun e => decide (e.1 = key)) = some i := by
  obtain ⟨inside, rfl⟩ := List.getElem?_eq_some_iff.mp here
  refine List.findIdx?_eq_some_iff_getElem.mpr ⟨inside, by simpa using isKey, fun j less => ?_⟩
  have member : items[j] ∈ items.take i := List.mem_take_iff_getElem.mpr ⟨j, by omega, rfl⟩
  simpa using before _ member

/-- The search writes no links. -/
theorem LeafPage.header_existingAt {X : Extern} {data data' : PageData} {es : List LeafItem} (page : LeafPage X data es)
    {key : Key} {value : Value} {i : Nat} {e : LeafItem}
    (wrote : BTree.existingAt data es key value i e = .replaced data' ∨ BTree.existingAt data es key value i e = .marked data') :
    ∀ j, j < leafEntriesOff → data' j = data j := by
  intro j low
  have above := page.room.above i
  have flag : j < flagOff i := by
    unfold flagOff
    omega
  rw [BTree.existingAt] at wrote
  split at wrote
  · rcases wrote with replaced | marked
    · cases replaced
      rw [setBytes_outside (.inl flag), setBytes_outside (.inl (by omega))]
    · cases marked
  · rcases wrote with replaced | marked
    · cases replaced
    · cases marked
      rw [setBytes_outside (.inl flag)]

/-- **The search for a key, and what it leaves.** -/
theorem LeafPage.existing {X : Extern} {data : PageData} {es : List LeafItem} (page : LeafPage X data es) (key : Key)
    (value : Value) :
    (∃ data' es', BTree.existingLoop data key value (BTree.count data) 0 = .ok (.replaced data') ∧
      overwrite key value es = some es' ∧ LeafPage X data' es' ∧ ∀ j, j < leafEntriesOff → data' j = data j) ∨
    (overwrite key value es = none ∧ entomb key es = es ∧
      BTree.existingLoop data key value (BTree.count data) 0 = .ok .absent) ∨
    ∃ data', BTree.existingLoop data key value (BTree.count data) 0 = .ok (.marked data') ∧
      overwrite key value es = none ∧ LeafPage X data' (entomb key es) ∧
      ∀ j, j < leafEntriesOff → data' j = data j := by
  rcases page.existingLoop key value with ⟨searched, absent⟩ | ⟨i, e, here, isKey, before, searched⟩
  · have none : es.findIdx? (fun e => decide (e.1 = key)) = none :=
      List.findIdx?_eq_none_iff.mpr fun e member => by simpa using absent e member
    exact .inr (.inl ⟨by rw [overwrite, none]; rfl, by rw [entomb, none]; rfl, searched⟩)
  · have index := findIdx?_key here isKey before
    rcases page.existingAt value here isKey with ⟨data', replaced, same, page'⟩ | ⟨data', marked, differ, page'⟩
    · refine .inl ⟨data', _, by rw [searched, replaced], ?_, page', page.header_existingAt (.inl replaced)⟩
      rw [overwrite, index, Option.bind_some, here, Option.bind_some, if_pos same]
    · refine .inr (.inr ⟨data', by rw [searched, marked], ?_, ?_, page.header_existingAt (.inr marked)⟩)
      · rw [overwrite, index, Option.bind_some, here, Option.bind_some, if_neg differ]
      · rwa [entomb, index, Option.bind_some, here]

/-! ## Pages in the cache -/

variable [BoundedCache C PageId Page]

/-- The dirty pages are the nodes, and there are no others. -/
structure Stored (X : Extern) (cache : PageCache C) (nodes : PageId → Option Node) : Prop where
  held : ∀ id node, nodes id = some node →
    ∃ page, cache.dirty[id]? = some page ∧ page.id = id ∧ Represents X page.data node
  known : ∀ (id : PageId) (page : Page), cache.dirty[id]? = some page → ∃ node, nodes id = some node
  clean : ∀ id, BoundedCache.peek cache.clean id = none

theorem Stored.nodesOf_eq {X : Extern} {cache : PageCache C} {nodes : PageId → Option Node}
    (stored : Stored X cache nodes) : nodesOf cache = nodes := by
  funext id
  cases found : nodes id with
  | some node =>
    obtain ⟨page, here, -, held⟩ := stored.held id node found
    rw [nodesOf, here, Option.bind_some, readNode_eq held]
  | none =>
    cases here : cache.dirty[id]? with
    | none => rw [nodesOf, here, Option.bind_none]
    | some page =>
      obtain ⟨node, known⟩ := stored.known id page here
      cases found.symm.trans known

/-- A call returns a value and leaves a tree and its nodes. -/
def Gives (X : Extern) {α : Type} (x : Method (Tree C) α) (s : Tree C) (a : α) (t : BTree)
    (nodes : PageId → Option Node) : Prop := ∃ cache, x s = (.ok a, ⟨t, cache⟩) ∧ Stored X cache nodes

variable {X : Extern} {α β : Type} {t t' : BTree} {cache : PageCache C} {nodes nodes' : PageId → Option Node}

theorem Gives.bind {x : Method (Tree C) α} {f : α → Method (Tree C) β} {s : Tree C} {a : α} {b : β}
    (first : Gives X x s a t nodes) (next : ∀ cache, Stored X cache nodes → Gives X (f a) ⟨t, cache⟩ b t' nodes') :
    Gives X (x >>= f) s b t' nodes' := by
  obtain ⟨cache, ran, stored⟩ := first
  obtain ⟨cache', ran', stored'⟩ := next cache stored
  exact ⟨cache', by rw [Exec.bind_of_ok ran, ran'], stored'⟩

theorem Gives.pure (stored : Stored X cache nodes) (a : α) : Gives X (pure a) ⟨t, cache⟩ a t nodes :=
  ⟨cache, rfl, stored⟩

/-- What has been read or reckoned is handed on. -/
theorem Gives.lift {o : Result α} {a : α} {f : α → Method (Tree C) β} {s : Tree C} {b : β} (result : o = .ok a)
    (next : Gives X (f a) s b t' nodes') : Gives X (Exec.lift o >>= f) s b t' nodes' := by
  subst result
  exact next

variable {l : Nat} {id : PageId}

theorem get_dirty (stored : Stored X cache nodes) {node : Node} (here : nodes id = some node) :
    ∃ page, onCache (PageCache.get id) ⟨t, cache⟩ = (.ok (some page), ⟨t, cache⟩) ∧ page.id = id ∧
      Represents X page.data node := by
  obtain ⟨page, found, isId, held⟩ := stored.held id node here
  refine ⟨page, ?_, isId, held⟩
  have read : PageCache.get id cache = (.ok (some page), cache) := by
    rw [PageCache.get, Exec.get_bind, found]
    rfl
  rw [onCache, read]

theorem fetch_spec (stored : Stored X cache nodes) {node : Node} (here : nodes id = some node)
    (missing : String) : ∃ page, fetch id missing ⟨t, cache⟩ = (.ok page, ⟨t, cache⟩) ∧ page.id = id ∧
      Represents X page.data node := by
  obtain ⟨page, read, isId, held⟩ := get_dirty (t := t) stored here
  exact ⟨page, by rw [fetch, Exec.bind_of_ok read]; rfl, isId, held⟩

theorem put_spec (stored : Stored X cache nodes) (page : Page) {node : Node} (dirty : page.isDirty = true)
    (held : Represents X page.data node) :
    Gives X (onCache (PageCache.insert page)) ⟨t, cache⟩ () t (Function.update nodes page.id (some node)) := by
  have wrote : onCache (PageCache.insert page) (⟨t, cache⟩ : Tree C) =
      (.ok (), ⟨t, { cache with dirty := cache.dirty.insert page.id page }⟩) := by
    rw [onCache, PageCache.insert, if_pos dirty]
    rfl
  refine ⟨_, wrote, fun id node' found => ?_, fun id page' found => ?_, stored.clean⟩
  · simp only [Std.TreeMap.getElem?_insert, Std.LawfulEqCmp.compare_eq_iff_eq]
    by_cases same : page.id = id
    · subst same
      rw [Function.update_self] at found
      cases found
      exact ⟨page, if_pos rfl, rfl, held⟩
    · rw [Function.update_of_ne (Ne.symm same)] at found
      simp only [if_neg same]
      exact stored.held id node' found
  · simp only [Std.TreeMap.getElem?_insert, Std.LawfulEqCmp.compare_eq_iff_eq] at found
    by_cases same : page.id = id
    · exact ⟨node, by rw [← same, Function.update_self]⟩
    · rw [if_neg same] at found
      obtain ⟨node', known⟩ := stored.known id page' found
      exact ⟨node', by rw [Function.update_of_ne (Ne.symm same), known]⟩

/-- The links that may be written to a page: its parent, and on a leaf the leaf before. -/
def LinkOf (node : Node) (off : Nat) : Prop :=
  off = parentOff ∨ off = prevLeafOff ∧ ∃ next items, node = .leaf next items

/-- **A link is no part of a node.** -/
theorem Represents.relinked {data : PageData} {node : Node} (held : Represents X data node) {off : Nat}
    (link : LinkOf node off) (target : PageId) : Represents X (writeU64 data off target) node := by
  have outside : ∀ j, (j < off ∨ off + 8 ≤ j) → data j = writeU64 data off target j := fun j far =>
    (setBytes_outside (by rwa [length_le])).symm
  have parent : parentOff = 4 := rfl
  have prev : prevLeafOff = 20 := rfl
  have next' : nextLeafOff = 12 := rfl
  have leaves : leafEntriesOff = 28 := rfl
  have internals : intEntriesOff = 12 := rfl
  cases node with
  | leaf next items =>
    have place : off = 4 ∨ off = 20 := link.imp id fun both => both.1
    refine ⟨held.1.congr (fun j low => outside j (by omega)) fun j low => outside j (by omega), ?_⟩
    rw [writeU64, readU64_apart data (by rw [length_le]; omega)]
    exact held.2
  | internal items =>
    have place : off = 4 := by
      rcases link with isParent | ⟨-, _, _, isLeaf⟩
      · exact isParent
      · cases isLeaf
    exact IntPage.congr held (fun j low => outside j (by omega)) fun j low => outside j (by omega)

theorem put_relinked (stored : Stored X cache nodes) {page : Page} {node : Node} (here : nodes page.id = some node)
    (held : Represents X page.data node) {off : Nat} (link : LinkOf node off) (target : PageId) :
    Gives X (onCache (PageCache.insert { page with data := writeU64 page.data off target }.markDirty)) ⟨t, cache⟩ () t
      nodes := by
  have wrote := put_spec (t := t) stored { page with data := writeU64 page.data off target }.markDirty
    (Page.isDirty_markDirty _) (held.relinked link target)
  have still : Function.update nodes page.id (some node) = nodes := by
    rw [← here, Function.update_eq_self]
  exact still ▸ wrote

theorem relink_spec (stored : Stored X cache nodes) {node : Node} (here : nodes id = some node)
    {off : Nat} (link : LinkOf node off) (target : PageId) : Gives X (relink id off target) ⟨t, cache⟩ () t nodes := by
  obtain ⟨page, read, rfl, held⟩ := get_dirty (t := t) stored here
  obtain ⟨cache', ran, stored'⟩ := put_relinked (t := t) stored here held link target
  refine ⟨cache', ?_, stored'⟩
  rw [relink, Exec.bind_of_ok read]
  exact ran

theorem relinkAll_spec (target : PageId) {ids : List PageId} (here : ∀ id ∈ ids, ∃ node, nodes id = some node)
    (stored : Stored X cache nodes) : Gives X (relinkAll parentOff target ids) ⟨t, cache⟩ () t nodes := by
  induction ids generalizing cache with
  | nil => exact Gives.pure stored ()
  | cons id ids ih =>
    obtain ⟨node, found⟩ := here id (.head _)
    exact (relink_spec stored found (.inl rfl) target).bind fun _ stored' =>
      ih (fun id member => here id (.tail _ member)) stored'

/-! ## The plan of an insertion -/

/-- What an insertion lays out in the whole tree: a root that is split gets one above it, with
the separator twice. -/
def insertPlan (X : Extern) (key : Key) (value : Value) (s : Tree C) : List Layout :=
  match s.btree.getRoot with
  | none => (leafPlan s.btree.order key value []).layouts
  | some rootId =>
    let below := plan X s.btree.order key value (nodesOf s.cache) (fuel s.cache) rootId
    match below.separator with
    | none => below.layouts
    | some sepKey => below.layouts ++ [.internal [sepKey, sepKey]]

/-! ## Levels -/

/-- The nodes of a tree, and how far each is from the leaves. -/
structure View where
  nodes : PageId → Option Node
  level : PageId → Option Nat

def View.set (v : View) (id : PageId) (node : Node) : View :=
  { v with nodes := Function.update v.nodes id (some node) }

def View.add (v : View) (id : PageId) (l : Nat) (node : Node) : View :=
  { nodes := Function.update v.nodes id (some node), level := Function.update v.level id (some l) }

@[simp] theorem View.nodes_set_self (v : View) (id : PageId) (node : Node) : (v.set id node).nodes id = some node :=
  Function.update_self ..

@[simp] theorem View.nodes_add_self (v : View) (id : PageId) (l : Nat) (node : Node) :
    (v.add id l node).nodes id = some node := Function.update_self ..

@[simp] theorem View.level_add_self (v : View) (id : PageId) (l : Nat) (node : Node) :
    (v.add id l node).level id = some l := Function.update_self ..

theorem View.nodes_set_of_ne (v : View) {id' : PageId} (differ : id' ≠ id) (node : Node) :
    (v.set id node).nodes id' = v.nodes id' := Function.update_of_ne differ ..

theorem View.nodes_add_of_ne (v : View) {id' : PageId} (differ : id' ≠ id) (l : Nat) (node : Node) :
    (v.add id l node).nodes id' = v.nodes id' := Function.update_of_ne differ ..

theorem View.level_add_of_ne (v : View) {id' : PageId} (differ : id' ≠ id) (l : Nat) (node : Node) :
    (v.add id l node).level id' = v.level id' := Function.update_of_ne differ ..

/-- The children of an internal page are one level below it, and there are some; the next leaf is
a leaf. -/
def Shape (level : PageId → Option Nat) : Nat → Node → Prop
  | 0, .leaf next _ => next = PageId.invalid ∨ level next = some 0
  | h + 1, .internal items => items ≠ [] ∧ ∀ e ∈ items, level e.2.1 = some h
  | _, _ => False

structure Typed (v : View) : Prop where
  shape : ∀ id node, v.nodes id = some node → ∃ l, v.level id = some l ∧ Shape v.level l node
  known : ∀ id l, v.level id = some l → ∃ node, v.nodes id = some node

/-- The page numbers from `nextId` on are not in use. -/
def Fresh (t : BTree) (v : View) : Prop := ∀ id l, v.level id = some l → id.toNat < t.nextId.toNat

theorem Shape.mono {level level' : PageId → Option Nat} (keeps : ∀ id l, level id = some l → level' id = some l)
    {node : Node} (shape : Shape level l node) : Shape level' l node := by
  cases l with
  | zero =>
    cases node with
    | leaf next items => exact Or.imp id (keeps next 0) shape
    | internal items => exact shape
  | succ h =>
    cases node with
    | leaf next items => exact shape
    | internal items => exact ⟨shape.1, fun e member => keeps _ _ (shape.2 e member)⟩

variable {v : View}

/-- What a page of a level holds. -/
theorem Typed.node (typed : Typed v) (level : v.level id = some l) :
    ∃ node, v.nodes id = some node ∧ Shape v.level l node := by
  obtain ⟨node, found⟩ := typed.known id l level
  obtain ⟨l', level', shape⟩ := typed.shape id node found
  cases level.symm.trans level'
  exact ⟨node, found, shape⟩

theorem Typed.leaf (typed : Typed v) (level : v.level id = some 0) :
    ∃ next items, v.nodes id = some (.leaf next items) ∧ (next = PageId.invalid ∨ v.level next = some 0) := by
  obtain ⟨node, found, shape⟩ := typed.node level
  cases node with
  | leaf next items => exact ⟨next, items, found, shape⟩
  | internal items => exact shape.elim

theorem Typed.internal (typed : Typed v) {h : Nat} (level : v.level id = some (h + 1)) :
    ∃ items, v.nodes id = some (.internal items) ∧ items ≠ [] ∧ ∀ e ∈ items, v.level e.2.1 = some h := by
  obtain ⟨node, found, shape⟩ := typed.node level
  cases node with
  | leaf next items => exact shape.elim
  | internal items => exact ⟨items, found, shape⟩

/-- A page is rewritten with a node of its level. -/
theorem Typed.set (typed : Typed v) (level : v.level id = some l) (node : Node)
    (shape : Shape v.level l node) : Typed (v.set id node) where
  shape id' node' found := by
    by_cases same : id' = id
    · subst same
      have here : some node = some node' := by rwa [View.nodes_set_self] at found
      cases here
      exact ⟨l, level, shape⟩
    · rw [View.nodes_set_of_ne v same] at found
      exact typed.shape id' node' found
  known id' l' known := by
    by_cases same : id' = id
    · exact ⟨node, by rw [same, View.nodes_set_self]⟩
    · obtain ⟨node', found⟩ := typed.known id' l' known
      exact ⟨node', by rw [View.nodes_set_of_ne v same, found]⟩

/-- A new page keeps the levels of the others. -/
theorem View.keeps_add (new : v.level id = none) (l : Nat) (node : Node) :
    ∀ id' l', v.level id' = some l' → (v.add id l node).level id' = some l' := by
  intro id' l' level
  have differ : id' ≠ id := by
    rintro rfl
    cases new.symm.trans level
  rw [View.level_add_of_ne v differ, level]

theorem Typed.add (typed : Typed v) (new : v.level id = none) (l : Nat) (node : Node)
    (shape : Shape (v.add id l node).level l node) : Typed (v.add id l node) where
  shape id' node' found := by
    by_cases same : id' = id
    · subst same
      have here : some node = some node' := by rwa [View.nodes_add_self] at found
      cases here
      exact ⟨l, View.level_add_self .., shape⟩
    · rw [View.nodes_add_of_ne v same] at found
      obtain ⟨l', level, shape'⟩ := typed.shape id' node' found
      exact ⟨l', View.keeps_add new l node _ _ level, shape'.mono (View.keeps_add new l node)⟩
  known id' l' known := by
    by_cases same : id' = id
    · exact ⟨node, by rw [same, View.nodes_add_self]⟩
    · rw [View.level_add_of_ne v same] at known
      obtain ⟨node', found⟩ := typed.known id' l' known
      exact ⟨node', by rw [View.nodes_add_of_ne v same, found]⟩

theorem Fresh.new {t : BTree} (fresh : Fresh t v) : v.level t.nextId = none := by
  cases level : v.level t.nextId with
  | none => rfl
  | some l => exact absurd (fresh _ l level) (Nat.lt_irrefl _)

/-- **What an insertion below a page leaves**, in a tree whose pages above level `h` stay as they
are, with at most `n` new pages. -/
structure Grown (h n : Nat) (t : BTree) (v : View) (t' : BTree) (v' : View) : Prop where
  typed : Typed v'
  fresh : Fresh t' v'
  keeps : ∀ id l, v.level id = some l → v'.level id = some l
  above : ∀ id l, v.level id = some l → h < l → v'.nodes id = v.nodes id
  root : t'.rootId = t.rootId
  order : t'.order = t.order
  grows : t.nextId.toNat ≤ t'.nextId.toNat
  atMost : t'.nextId.toNat ≤ t.nextId.toNat + n

theorem Grown.mono {h h' n n' : Nat} {t t' : BTree} {v' : View} (grown : Grown h n t v t' v') (up : h ≤ h')
    (more : n ≤ n') : Grown h' n' t v t' v' :=
  { grown with
    above := fun id l level higher => grown.above id l level (by omega)
    atMost := le_trans grown.atMost (by omega) }

theorem Grown.trans {h n n' : Nat} {t t' t'' : BTree} {v' v'' : View} (first : Grown h n t v t' v')
    (second : Grown h n' t' v' t'' v'') : Grown h (n + n') t v t'' v'' where
  typed := second.typed
  fresh := second.fresh
  keeps id l level := second.keeps id l (first.keeps id l level)
  above id l level higher :=
    (second.above id l (first.keeps id l level) higher).trans (first.above id l level higher)
  root := second.root.trans first.root
  order := second.order.trans first.order
  grows := le_trans first.grows second.grows
  atMost := by
    have := first.atMost
    have := second.atMost
    omega

/-- A page is rewritten. -/
theorem Grown.set {t : BTree} (typed : Typed v) (fresh : Fresh t v)
    (level : v.level id = some l) (node : Node) (shape : Shape v.level l node) : Grown l 0 t v t (v.set id node) where
  typed := typed.set level node shape
  fresh := fresh
  keeps _ _ known := known
  above id' l' known higher := by
    have differ : id' ≠ id := by
      rintro rfl
      cases level.symm.trans known
      omega
    exact Function.update_of_ne differ ..
  root := rfl
  order := rfl
  grows := le_rfl
  atMost := le_rfl

theorem toNat_succ {n : UInt64} (room : n.toNat + 1 < 2 ^ 64) : (n + 1).toNat = n.toNat + 1 := by
  rw [UInt64.toNat_add]
  exact Nat.mod_eq_of_lt room

/-- **A new page** takes the next number. -/
theorem Grown.add {t : BTree} (typed : Typed v) (fresh : Fresh t v) (room : t.nextId.toNat + 1 < 2 ^ 64)
    (l : Nat) (node : Node) (shape : Shape (v.add t.nextId l node).level l node) :
    Grown l 1 t v { t with nextId := t.nextId + 1 } (v.add t.nextId l node) where
  typed := typed.add fresh.new l node shape
  fresh id' l' known := by
    show id'.toNat < (t.nextId + 1).toNat
    rw [toNat_succ room]
    by_cases same : id' = t.nextId
    · rw [same]
      exact Nat.lt_succ_self _
    · rw [View.level_add_of_ne v same] at known
      exact Nat.lt_succ_of_lt (fresh id' l' known)
  keeps := View.keeps_add fresh.new l node
  above id' l' known _ := by
    have differ : id' ≠ t.nextId := by
      rintro rfl
      cases fresh.new.symm.trans known
    exact Function.update_of_ne differ ..
  root := rfl
  order := rfl
  grows := le_trans (Nat.le_succ _) (le_of_eq (toNat_succ room).symm)
  atMost := le_of_eq (toNat_succ room)

/-! ## Insertion into a leaf -/

section Leaf

variable {key : Key} {value : Value} {items : List LeafItem}

/-- The flags of a leaf say only whether an entry has a tombstone. -/
def Flagged (items : List LeafItem) : Prop := ∀ e ∈ items, e.2.2 = 0 ∨ e.2.2 = 1

theorem fillNewLeaf (room : LeafRoom items) (flagged : Flagged items) (parent next prev : PageId) :
    ∃ data, fillLeaf X (emptyLeaf parent next prev) 0 items = .ok data ∧ Represents X data (.leaf next items) := by
  obtain ⟨empty, link⟩ := emptyLeaf_spec X parent next prev
  obtain ⟨data, filled, page, header⟩ := fillLeaf_spec empty (show LeafRoom ([] ++ items) from room) flagged
  refine ⟨data, filled, page, ?_⟩
  rw [← link, readU64, readU64, bytes_congr fun j low high => header j (le_trans (by decide) low) (lt_trans high (by decide))]

theorem flagged_byKey (flagged : Flagged items) : Flagged (byKey (fun e => e.1) (items ++ [(key, value, 0)])) := by
  intro e member
  rcases List.mem_append.mp (List.mem_mergeSort.mp member) with old | new
  · exact flagged e old
  · rw [List.mem_singleton.mp new]
    exact .inl rfl

theorem insertSorted_pos (key : Key) (items : List LeafItem) :
    ((byKey (fun e => e.1) items).findIdx? fun e => decide (key ≤ e.1)).getD (byKey (fun e => e.1) items).length ≤
      (byKey (fun e => e.1) items).length := by
  cases found : (byKey (fun e => e.1) items).findIdx? fun e => decide (key ≤ e.1) with
  | none => exact le_rfl
  | some i => exact le_of_lt (List.findIdx?_eq_some_iff_getElem.mp found).1

theorem length_insertSorted (key : Key) (value : Value) (items : List LeafItem) :
    (insertSorted key value items).length = items.length + 1 := by
  rw [insertSorted, List.length_insertIdx_of_le_length (insertSorted_pos key items), byKey, List.length_mergeSort]

theorem flagged_insertSorted (flagged : Flagged items) : Flagged (insertSorted key value items) := by
  intro e member
  rcases (List.mem_insertIdx (insertSorted_pos key items)).mp member with rfl | old
  · exact .inl rfl
  · exact flagged e (List.mem_mergeSort.mp old)

theorem length_entomb (key : Key) (items : List LeafItem) : (entomb key items).length = items.length := by
  rw [entomb]
  cases items.findIdx? fun e => decide (e.1 = key) with
  | none => rfl
  | some i =>
    cases here : items[i]? with
    | none =>
      rw [Option.bind_some, here]
      rfl
    | some e =>
      rw [Option.bind_some, here]
      exact List.length_set

variable {next : PageId}

theorem addToLeaf_spec (stored : Stored X cache nodes) {page : Page} (held : LeafPage X page.data items)
    (link : readU64 page.data nextLeafOff = next)
    (room : LeafRoom (byKey (fun e => e.1) (items ++ [(key, value, 0)]))) :
    Gives X (addToLeaf X page key value) ⟨t, cache⟩ () t (Function.update nodes page.id
      (some (.leaf next (byKey (fun e => e.1) (items ++ [(key, value, 0)]))))) := by
  obtain ⟨data, filled, page'⟩ := fillNewLeaf (X := X) room (flagged_byKey held.flags) (readU64 page.data parentOff) next
    (readU64 page.data prevLeafOff)
  rw [addToLeaf]
  refine Gives.lift held.readLeaf ?_
  dsimp only
  rw [link]
  exact Gives.lift filled (put_spec stored (newPage page.id data) (Page.isDirty_markDirty _) page')

/-- A leaf that is rewritten stays a leaf. -/
theorem leaf_update {id : PageId} (leaf : ∃ next items, nodes id = some (.leaf next items)) (id' next' : PageId)
    (items' : List LeafItem) :
    ∃ next items, Function.update nodes id' (some (.leaf next' items')) id = some (.leaf next items) := by
  by_cases same : id = id'
  · exact ⟨next', items', by rw [same, Function.update_self]⟩
  · rwa [Function.update_of_ne same]

/-- **The two halves of a leaf**, and the link of the leaf after them. -/
theorem splitLeaf_spec (stored : Stored X cache nodes) {page : Page} (held : LeafPage X page.data items)
    (link : readU64 page.data nextLeafOff = next)
    (neighbour : next = PageId.invalid ∨ ∃ next' items', nodes next = some (.leaf next' items'))
    {middle : LeafItem} (isMiddle : (insertSorted key value items)[t.order]? = some middle)
    (left : LeafRoom ((insertSorted key value items).take t.order))
    (right : LeafRoom ((insertSorted key value items).drop t.order)) :
    Gives X (splitLeaf X page key value) ⟨t, cache⟩ (middle.1, t.nextId) { t with nextId := t.nextId + 1 }
      (Function.update (Function.update nodes page.id
        (some (.leaf t.nextId ((insertSorted key value items).take t.order)))) t.nextId
        (some (.leaf next ((insertSorted key value items).drop t.order)))) := by
  have flagged : Flagged (insertSorted key value items) := flagged_insertSorted held.flags
  obtain ⟨leftData, leftFilled, leftPage⟩ := fillNewLeaf (X := X) left (fun e member => flagged e (List.mem_of_mem_take member))
    (readU64 page.data parentOff) t.nextId (readU64 page.data prevLeafOff)
  obtain ⟨rightData, rightFilled, rightPage⟩ := fillNewLeaf (X := X) right
    (fun e member => flagged e (List.mem_of_mem_drop member)) (readU64 page.data parentOff) next page.id
  rw [splitLeaf]
  refine Gives.lift held.readLeaf ?_
  dsimp only
  rw [isMiddle, link]
  dsimp only
  refine Gives.lift leftFilled (Gives.lift rightFilled ?_)
  refine (put_spec stored (newPage page.id leftData) (Page.isDirty_markDirty _) leftPage).bind fun _ stored₁ => ?_
  refine (put_spec stored₁ (newPage t.nextId rightData) (Page.isDirty_markDirty _) rightPage).bind
    fun _ stored₂ => ?_
  -- the leaf after the two gets a link back to the right one
  by_cases last : next = PageId.invalid
  · rw [if_neg (by simpa using last)]
    exact Gives.pure stored₂ _
  · rw [if_pos last]
    obtain ⟨next', items', found⟩ := leaf_update (leaf_update (neighbour.resolve_left last) page.id t.nextId _)
      t.nextId next _
    obtain ⟨nextPage, read, rfl, heldNext⟩ := get_dirty (t := { t with nextId := t.nextId + 1 }) stored₂ found
    refine Gives.bind ⟨_, read, stored₂⟩ fun _ stored₃ => ?_
    dsimp only
    rw [if_pos last]
    exact (put_relinked stored₃ found heldNext (.inr ⟨rfl, _, _, rfl⟩) t.nextId).bind fun _ stored₄ =>
      Gives.pure stored₄ _

/-- What is handed up: the planned separator, with a page of this level. -/
def Handed (v : View) (h : Nat) : Option Key → Option (Key × PageId) → Prop
  | none, result => result = none
  | some sepKey, result => ∃ id, result = some (sepKey, id) ∧ v.level id = some h

/-- **A leaf that is split** hands a new leaf up. -/
theorem split_leaf {v : View} (typed : Typed v) (fresh : Fresh t v) (counter : t.nextId.toNat + 1 < 2 ^ 64)
    {id : PageId} (level : v.level id = some 0) (neighbour : next = PageId.invalid ∨ v.level next = some 0)
    (left right : List LeafItem) :
    ∃ v', v'.nodes = Function.update (Function.update v.nodes id (some (.leaf t.nextId left))) t.nextId
        (some (.leaf next right)) ∧
      Grown 0 1 t v { t with nextId := t.nextId + 1 } v' ∧ v'.level t.nextId = some 0 := by
  have added := Grown.add typed fresh counter 0 (.leaf next right)
    (neighbour.imp (fun last => last) fun level => View.keeps_add fresh.new 0 _ _ _ level)
  have both := Grown.set added.typed added.fresh (added.keeps _ _ level) (.leaf t.nextId left)
    (.inr (View.level_add_self ..))
  have differ : t.nextId ≠ id := by
    rintro rfl
    cases fresh.new.symm.trans level
  exact ⟨_, Function.update_comm differ _ _ _, added.trans both, both.keeps _ _ (View.level_add_self ..)⟩

/-- An entry is added to a leaf, or to one of the halves. -/
def place (X : Extern) (page : Page) (key : Key) (value : Value) (n order : Nat) :
    Method (Tree C) (Option (Key × PageId)) :=
  if n < order * 2 then do
    addToLeaf X page key value
    pure none
  else do
    let split ← splitLeaf X page key value
    pure (some split)

theorem place_spec {v : View} (page : Page) (stored : Stored X cache v.nodes) (typed : Typed v) (fresh : Fresh t v)
    (level : v.level page.id = some 0)
    (neighbour : next = PageId.invalid ∨ v.level next = some 0) (held : LeafPage X page.data (entomb key items))
    (link : readU64 page.data nextLeafOff = next) (order : 0 < t.order) (counter : t.nextId.toNat + 1 < 2 ^ 64)
    (new : overwrite key value items = none) (room : ∀ l ∈ (leafPlan t.order key value items).layouts, l.Room) :
    ∃ result t' v', Gives X (place X page key value items.length t.order) ⟨t, cache⟩ result t' v'.nodes ∧
      Grown 0 1 t v t' v' ∧ Handed v' 0 (leafPlan t.order key value items).separator result := by
  rw [leafPlan, new] at room ⊢
  dsimp only at room ⊢
  rw [place]
  by_cases few : items.length < t.order * 2
  · rw [if_pos few] at room ⊢
    rw [if_pos few]
    have grown := Grown.set typed fresh level
      (.leaf next (byKey (fun e => e.1) (entomb key items ++ [(key, value, 0)]))) neighbour
    refine ⟨none, t, _, ?_, grown.mono (le_rfl) (Nat.zero_le 1), rfl⟩
    exact (addToLeaf_spec stored held link (room _ (List.mem_singleton.mpr rfl))).bind
      fun _ stored' => Gives.pure stored' none
  · rw [if_neg few] at room ⊢
    rw [if_neg few]
    have long : t.order < (insertSorted key value (entomb key items)).length := by
      rw [length_insertSorted, length_entomb]
      omega
    have isMiddle := List.getElem?_eq_getElem long
    have split := splitLeaf_spec stored held link
      (neighbour.imp (fun last => last) fun level => (typed.leaf level).imp fun _ found => found.imp fun _ both => both.1) isMiddle
      (room _ (.head _)) (room _ (.tail _ (List.mem_singleton.mpr rfl)))
    obtain ⟨v', nodes, grown, newLevel⟩ := split_leaf typed fresh counter level neighbour
      ((insertSorted key value (entomb key items)).take t.order) ((insertSorted key value (entomb key items)).drop t.order)
    refine ⟨some ((insertSorted key value (entomb key items))[t.order].1, t.nextId), _, v', ?_, grown, ?_⟩
    · exact split.bind fun _ stored' => Gives.pure (nodes ▸ stored') _
    · rw [isMiddle]
      exact ⟨_, rfl, newLevel⟩

/-- **An insertion into a leaf** whose planned pages have room. -/
theorem insertIntoLeaf_spec {v : View} (stored : Stored X cache v.nodes) (typed : Typed v) (fresh : Fresh t v)
    {page : Page} (level : v.level page.id = some 0) (found : v.nodes page.id = some (.leaf next items))
    (held : Represents X page.data (.leaf next items)) (order : 0 < t.order) (counter : t.nextId.toNat + 1 < 2 ^ 64)
    (room : ∀ l ∈ (leafPlan t.order key value items).layouts, l.Room) :
    ∃ result t' v', Gives X (insertIntoLeaf X page key value) ⟨t, cache⟩ result t' v'.nodes ∧
      Grown 0 1 t v t' v' ∧ Handed v' 0 (leafPlan t.order key value items).separator result := by
  obtain ⟨leaf, link⟩ := held
  have neighbour : next = PageId.invalid ∨ v.level next = some 0 := by
    obtain ⟨next', items', found', shape⟩ := typed.leaf level
    cases found.symm.trans found'
    exact shape
  have goes : ∀ {existing : Existing} {page' : Page}, existingLoop page.data key value (BTree.count page.data) 0 = .ok existing →
      (existing = .absent ∧ page' = page ∨ ∃ data, existing = .marked data ∧ page' = { page with data }) →
      (insertIntoLeaf X page key value : Method (Tree C) _) ⟨t, cache⟩ =
        place X page' key value items.length t.order ⟨t, cache⟩ := by
    intro existing page' searched kind
    rw [insertIntoLeaf, Exec.get_bind]
    dsimp only
    rw [searched, Exec.bind_of_ok (Exec.lift_apply ..), leaf.count]
    rcases kind with ⟨rfl, rfl⟩ | ⟨data, rfl, rfl⟩
    · rfl
    · rfl
  have linked : ∀ {data : PageData}, (∀ j, j < leafEntriesOff → data j = page.data j) →
      readU64 data nextLeafOff = next := by
    intro data header
    rw [← link, readU64, readU64, bytes_congr fun j _ high => header j (lt_trans high (by decide))]
  rcases leaf.existing key value with ⟨data, es, searched, overwritten, leaf', header⟩ | ⟨new, same, searched⟩ |
    ⟨data, searched, new, leaf', header⟩
  · have overwrites : Represents X data (.leaf next es) := ⟨leaf', linked header⟩
    have grown := Grown.set typed fresh level (.leaf next es) neighbour
    refine ⟨none, t, _, ?_, grown.mono (le_rfl) (Nat.zero_le 1), ?_⟩
    · obtain ⟨cache', ran, stored'⟩ := put_spec (t := t) stored { page with data }.markDirty (Page.isDirty_markDirty _)
        overwrites
      refine ⟨cache', ?_, stored'⟩
      rw [insertIntoLeaf, Exec.get_bind]
      dsimp only
      rw [searched, Exec.bind_of_ok (Exec.lift_apply ..)]
      exact (Exec.bind_of_ok ran _).trans rfl
    · rw [leafPlan, overwritten]
      rfl
  · obtain ⟨result, t', v', placed, rest⟩ := place_spec page stored typed fresh level neighbour (by rwa [same]) link order
      counter new room
    exact ⟨result, t', v', by rwa [Gives, goes searched (.inl ⟨rfl, rfl⟩)], rest⟩
  · obtain ⟨result, t', v', placed, rest⟩ := place_spec { page with data } stored typed fresh level neighbour
      leaf' (linked header) order counter new room
    exact ⟨result, t', v', by rwa [Gives, goes searched (.inr ⟨data, rfl, rfl⟩)], rest⟩

end Leaf

/-! ## Insertion into an internal page -/

section Internal

variable {sepKey : Key} {items : List IntItem}

/-- Where a new key goes depends on the keys alone. -/
theorem keysOf_withChild (X : Extern) (sepKey : Key) (child : PageId) (items : List IntItem) :
    keysOf (withChild X sepKey child items) = byKey (fun k => k) (keysOf items ++ [sepKey]) := by
  rw [keysOf, withChild, byKey, List.map_mergeSort (s := fun a b => decide (a ≤ b)) (f := fun e : IntItem => e.2.2)
    fun _ _ _ _ => rfl, List.map_append]
  rfl

theorem length_withChild (X : Extern) (sepKey : Key) (child : PageId) (items : List IntItem) :
    (withChild X sepKey child items).length = items.length + 1 := by
  rw [withChild, byKey, List.length_mergeSort, List.length_append, List.length_singleton]

theorem withChild_level (X : Extern) (sepKey : Key) {level : PageId → Option Nat} {h : Nat} {child : PageId}
    (items' : ∀ e ∈ items, level e.2.1 = some h) (child' : level child = some h) :
    ∀ e ∈ withChild X sepKey child items, level e.2.1 = some h := by
  intro e member
  rcases List.mem_append.mp (List.mem_mergeSort.mp member) with old | new
  · exact items' e old
  · rw [List.mem_singleton.mp new]
    exact child'

theorem fillNewInternal {es : List IntItem} (room : IntRoom (keysOf es)) (parent : PageId) :
    ∃ data, fillInternal (emptyInternal parent 0) 0 es = .ok data ∧ IntPage (writeU16 data countOff es.length) es := by
  obtain ⟨data, filled, page, -⟩ := fillInternal_spec es room parent 0
  exact ⟨data, filled, page⟩

/-- **An internal page that is split** keeps its first entries and hands the others up. -/
theorem split_internal {v : View} (typed : Typed v) (fresh : Fresh t v) (counter : t.nextId.toNat + 1 < 2 ^ 64)
    {id : PageId} {h : Nat} (level : v.level id = some (h + 1)) (left right : List IntItem)
    (someLeft : left ≠ []) (someRight : right ≠ []) (leftLevel : ∀ e ∈ left, v.level e.2.1 = some h)
    (rightLevel : ∀ e ∈ right, v.level e.2.1 = some h) :
    ∃ v', v'.nodes = Function.update (Function.update v.nodes id (some (.internal left))) t.nextId
        (some (.internal right)) ∧
      Grown (h + 1) 1 t v { t with nextId := t.nextId + 1 } v' ∧ v'.level t.nextId = some (h + 1) ∧
      ∀ e ∈ right, ∃ node, v'.nodes e.2.1 = some node := by
  have added := Grown.add typed fresh counter (h + 1) (.internal right)
    ⟨someRight, fun e member => View.keeps_add fresh.new _ _ _ _ (rightLevel e member)⟩
  have both := Grown.set added.typed added.fresh (added.keeps _ _ level) (.internal left)
    ⟨someLeft, fun e member => added.keeps _ _ (leftLevel e member)⟩
  have differ : t.nextId ≠ id := by
    rintro rfl
    cases fresh.new.symm.trans level
  exact ⟨_, Function.update_comm differ _ _ _, added.trans both, both.keeps _ _ (View.level_add_self ..),
    fun e member => both.typed.known _ _ (both.keeps _ _ (added.keeps _ _ (rightLevel e member)))⟩

/-- **An insertion into an internal page** whose planned page has room. -/
theorem insertIntoInternal_spec {v : View} (sepKey : Key) (stored : Stored X cache v.nodes) (typed : Typed v) (fresh : Fresh t v)
    {page : Page} {h : Nat} {child : PageId} (level : v.level page.id = some (h + 1))
    (found : v.nodes page.id = some (.internal items)) (held : IntPage page.data items)
    (childLevel : v.level child = some h) (order : 0 < t.order) (counter : t.nextId.toNat + 1 < 2 ^ 64)
    (room : ∀ l ∈ (internalPlan X t.order items sepKey).layouts, l.Room) :
    ∃ result t' v', Gives X (insertIntoInternal X page sepKey child) ⟨t, cache⟩ result t' v'.nodes ∧
      Grown (h + 1) 1 t v t' v' ∧ Handed v' (h + 1) (internalPlan X t.order items sepKey).separator result := by
  obtain ⟨items', found', some', below⟩ := typed.internal level
  cases found.symm.trans found'
  have levels := withChild_level X sepKey below childLevel
  have total := length_withChild X sepKey child items
  have keys : keysOf (withChild X sepKey 0 items) = keysOf (withChild X sepKey child items) := by
    rw [keysOf_withChild, keysOf_withChild]
  rw [internalPlan, keys] at room ⊢
  rw [insertIntoInternal]
  by_cases few : items.length < t.order * 2
  · rw [if_pos few] at room ⊢
    have roomHere : IntRoom (keysOf (withChild X sepKey child items)) := room _ (List.mem_singleton.mpr rfl)
    obtain ⟨data, filled, page'⟩ := fillNewInternal roomHere (readU64 page.data parentOff)
    have grown := Grown.set typed fresh level (.internal (withChild X sepKey child items))
      ⟨List.ne_nil_of_length_pos (by omega), levels⟩
    refine ⟨none, t, _, ?_, grown.mono (le_rfl) (Nat.zero_le 1), rfl⟩
    refine Gives.lift held.readInternal ?_
    dsimp only
    rw [held.count, if_pos few]
    refine Gives.lift filled ?_
    have rewritten : Represents X (writeU16 data countOff (withChild X sepKey child items).length)
      (.internal (withChild X sepKey child items)) := page'
    refine (put_spec stored (newPage page.id (writeU16 data countOff (withChild X sepKey child items).length))
      (Page.isDirty_markDirty _) rewritten).bind ?_
    exact fun _ stored' => Gives.pure stored' none
  · rw [if_neg few] at room ⊢
    have roomHere : IntRoom (keysOf ((withChild X sepKey child items).drop (t.order + 1))) := by
      have moved := room _ (List.mem_singleton.mpr rfl)
      rwa [keysOf, List.map_drop]
    obtain ⟨data, filled, page'⟩ := fillNewInternal roomHere (readU64 page.data parentOff)
    have small : items.length < 2 ^ 16 := by
      have := held.room.length_lt
      rwa [length_keysOf] at this
    have isMiddle := List.getElem?_eq_getElem (show t.order < (withChild X sepKey child items).length by omega)
    obtain ⟨v', nodes, grown, newLevel, known⟩ := split_internal typed fresh counter level
      (items.take t.order) ((withChild X sepKey child items).drop (t.order + 1))
      (List.ne_nil_of_length_pos (by rw [List.length_take]; omega))
      (List.ne_nil_of_length_pos (by rw [List.length_drop]; omega))
      (fun e member => below e (List.mem_of_mem_take member)) fun e member => levels e (List.mem_of_mem_drop member)
    refine ⟨some ((withChild X sepKey child items)[t.order].2.2, t.nextId), _, v', ?_, grown, ?_⟩
    · refine Gives.lift held.readInternal ?_
      dsimp only
      rw [held.count, if_neg few, isMiddle]
      dsimp only
      refine Gives.lift filled (Gives.lift page'.readChildIds ?_)
      change Gives X _ (⟨{ t with nextId := t.nextId + 1 }, cache⟩ : Tree C) _ _ _
      have truncated : Represents X (writeU16 page.data countOff t.order) (.internal (items.take t.order)) :=
        held.take (by omega) small
      have moved : Represents X (writeU16 data countOff ((withChild X sepKey child items).drop (t.order + 1)).length)
        (.internal ((withChild X sepKey child items).drop (t.order + 1))) := page'
      have first := put_spec (t := { t with nextId := t.nextId + 1 }) stored
        { page with data := writeU16 page.data countOff t.order }.markDirty (Page.isDirty_markDirty _) truncated
      refine Gives.bind first fun _ stored₁ => ?_
      have second := put_spec (t := { t with nextId := t.nextId + 1 }) stored₁
        (newPage t.nextId (writeU16 data countOff ((withChild X sepKey child items).drop (t.order + 1)).length))
        (Page.isDirty_markDirty _) moved
      refine Gives.bind second fun _ stored₂ => ?_
      have stored₃ : Stored X _ v'.nodes := nodes ▸ stored₂
      refine (relinkAll_spec t.nextId (fun id member => ?_) stored₃).bind fun _ stored₄ => Gives.pure stored₄ _
      obtain ⟨e, inMoved, rfl⟩ := List.mem_map.mp member
      exact known e inMoved
    · rw [keysOf, List.getElem?_map, isMiddle]
      exact ⟨_, rfl, newLevel⟩

end Internal

/-! ## Insertion into the tree -/

section Insertion

variable {key : Key} {value : Value}

/-- What a page does with the separator of its child. -/
def takeUp (X : Extern) (id : PageId) : Option (Key × PageId) → Method (Tree C) (Option (Key × PageId))
  | some (sepKey, newChildId) => do
      let updated ← fetch id "BTree page gone"
      insertIntoInternal X updated sepKey newChildId
  | none => pure none

/-- **An insertion below a page.** The pages above it are left alone, and the levels of all. -/
theorem insertInto_spec {h fuel : Nat} {id : PageId} {v : View} (enough : h ≤ fuel) (level : v.level id = some h)
    (stored : Stored X cache v.nodes) (typed : Typed v) (fresh : Fresh t v) (order : 0 < t.order)
    (counter : t.nextId.toNat + (h + 1) < 2 ^ 64)
    (room : ∀ l ∈ (plan X t.order key value v.nodes fuel id).layouts, l.Room) :
    ∃ result t' v', Gives X (insertInto X key value fuel id) ⟨t, cache⟩ result t' v'.nodes ∧
      Grown h (h + 1) t v t' v' ∧ Handed v' h (plan X t.order key value v.nodes fuel id).separator result := by
  induction h generalizing fuel id with
  | zero =>
    obtain ⟨next, items, found, -⟩ := typed.leaf level
    obtain ⟨page, read, rfl, held⟩ := fetch_spec (t := t) stored found "BTree page not found"
    have planned : plan X t.order key value v.nodes fuel page.id = leafPlan t.order key value items := by
      unfold plan
      rw [found]
    rw [planned] at room ⊢
    obtain ⟨result, t', v', inserted, rest⟩ := insertIntoLeaf_spec stored typed fresh level found held order counter room
    refine ⟨result, t', v', ?_, rest⟩
    unfold insertInto
    rw [Gives, Exec.bind_of_ok read, if_pos held.1.leaf]
    exact inserted
  | succ h ih =>
    obtain ⟨fuel, rfl⟩ : ∃ n, fuel = n + 1 := ⟨fuel - 1, by omega⟩
    obtain ⟨items, found, some', below⟩ := typed.internal level
    obtain ⟨page, read, rfl, held⟩ := fetch_spec (t := t) stored found "BTree page not found"
    have held : IntPage page.data items := held
    obtain ⟨e, here, sent⟩ := held.childFor some' key
    have childLevel := below e (List.mem_of_getElem? here)
    have descends : insertInto X key value (fuel + 1) page.id (⟨t, cache⟩ : Tree C) =
        (insertInto X key value fuel e.2.1 >>= takeUp X page.id) ⟨t, cache⟩ := by
      rw [insertInto, Exec.bind_of_ok read, held.internal, if_neg Bool.false_ne_true, sent]
      rfl
    cases separator : (plan X t.order key value v.nodes fuel e.2.1).separator with
    | none =>
      have planned : plan X t.order key value v.nodes (fuel + 1) page.id =
          plan X t.order key value v.nodes fuel e.2.1 := by
        rw [plan, found]
        dsimp only
        rw [here]
        dsimp only
        rw [separator]
      rw [planned] at room ⊢
      obtain ⟨result, t', v', inserted, grown, handed⟩ := ih (by omega) childLevel (by omega) room
      rw [separator] at handed
      have noSplit : result = none := handed
      subst noSplit
      refine ⟨none, t', v', ?_, grown.mono (by omega) (by omega), by rw [separator]; rfl⟩
      rw [Gives, descends]
      exact inserted.bind fun _ stored' => Gives.pure stored' none
    | some sepKey =>
      have planned : plan X t.order key value v.nodes (fuel + 1) page.id =
          { internalPlan X t.order items sepKey with
            layouts := (plan X t.order key value v.nodes fuel e.2.1).layouts ++
              (internalPlan X t.order items sepKey).layouts } := by
        rw [plan, found]
        dsimp only
        rw [here]
        dsimp only
        rw [separator]
      rw [planned] at room ⊢
      obtain ⟨result, t', v', inserted, grown, handed⟩ := ih (by omega) childLevel (by omega)
        fun l member => room l (List.mem_append_left _ member)
      rw [separator] at handed
      obtain ⟨newChild, rfl, newLevel⟩ := handed
      have found' : v'.nodes page.id = some (.internal items) :=
        (grown.above _ _ level (Nat.lt_succ_self _)).trans found
      have atMost := grown.atMost
      obtain ⟨cache', ran, stored'⟩ := inserted
      obtain ⟨updated, read', isId, held'⟩ := fetch_spec (t := t') stored' found' "BTree page gone"
      rw [← isId] at found' level
      obtain ⟨result, t'', v'', inserted', grown', handed'⟩ := insertIntoInternal_spec sepKey stored' grown.typed grown.fresh
        (grown.keeps _ _ level) found' held' newLevel (by rw [grown.order]; exact order) (by omega)
        (by rw [grown.order]; exact fun l member => room l (List.mem_append_right _ member))
      rw [grown.order] at handed'
      refine ⟨result, t'', v'', ?_, ((grown.mono (by omega) (le_rfl)).trans grown').mono (le_rfl) (by omega), ?_⟩
      · rw [Gives, descends, Exec.bind_of_ok ran]
        rw [takeUp, Exec.bind_of_ok read']
        exact inserted'
      · exact handed'

end Insertion

end BTree

end NovaRuntime.Storage
