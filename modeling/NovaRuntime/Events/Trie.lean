/-
# NovaRuntime.Events.Trie — `SubscriptionTrie` of `trie.rs`

A node has a child for each literal segment, one for `+` and one for `*`, and the subscriptions
whose pattern ends in it. `at'` are the subscriptions at the end of a path. An insertion adds to
one path (`at_insert`); a visit, which is how a subscription is removed or switched on and off,
changes the first list that its step applies to and no other (`visit_spec`).

The order in which a hash map hands its children out is that of the list here. It decides
nothing as long as no two subscriptions have one id.
-/
import NovaRuntime.Events.Types
import NovaRuntime.Library.Entries

namespace NovaRuntime.Events

open NovaRuntime.Library

set_option autoImplicit false

inductive TrieNode where
  | mk (literalChildren : List (Text × TrieNode)) (singleWildcard multiWildcard : Option TrieNode)
      (subscriptions : List Subscription)

namespace TrieNode

def empty : TrieNode := .mk [] none none []

def literalChildren : TrieNode → List (Text × TrieNode)
  | .mk literals _ _ _ => literals

def singleWildcard : TrieNode → Option TrieNode
  | .mk _ single _ _ => single

def multiWildcard : TrieNode → Option TrieNode
  | .mk _ _ multi _ => multi

def subscriptions : TrieNode → List Subscription
  | .mk _ _ _ subs => subs

/-! ## The operations -/

/-- `children.entry(lit)`, with a new value for the child. -/
def setChild (lit : Text) (child : TrieNode) : List (Text × TrieNode) → List (Text × TrieNode)
  | [] => [(lit, child)]
  | e :: children => if e.1 = lit then (lit, child) :: children else e :: setChild lit child children

def insert (sub : Subscription) : List PatternSegment → TrieNode → TrieNode
  | [], .mk literals single multi subs => .mk literals single multi (subs ++ [sub])
  | .literal lit :: rest, .mk literals single multi subs =>
    .mk (setChild lit (insert sub rest ((literals.lookup lit).getD empty)) literals) single multi subs
  | .singleWildcard :: rest, .mk literals single multi subs =>
    .mk literals (some (insert sub rest (single.getD empty))) multi subs
  | .multiWildcard :: rest, .mk literals single multi subs =>
    .mk literals single (some (insert sub rest (multi.getD empty))) subs

mutual

/-- The walk of `remove_recursive` and `set_active_recursive`: the first list that the step
applies to is changed. -/
def visit (step : List Subscription → Option (List Subscription)) : TrieNode → Option TrieNode
  | .mk literals single multi subs =>
    match step subs with
    | some subs => some (.mk literals single multi subs)
    | none =>
      match visitLiterals step literals with
      | some literals => some (.mk literals single multi subs)
      | none =>
        match visitChild step single with
        | some single => some (.mk literals (some single) multi subs)
        | none =>
          match visitChild step multi with
          | some multi => some (.mk literals single (some multi) subs)
          | none => none

def visitLiterals (step : List Subscription → Option (List Subscription)) :
    List (Text × TrieNode) → Option (List (Text × TrieNode))
  | [] => none
  | (lit, child) :: children =>
    match visit step child with
    | some child => some ((lit, child) :: children)
    | none =>
      match visitLiterals step children with
      | some children => some ((lit, child) :: children)
      | none => none

def visitChild (step : List Subscription → Option (List Subscription)) : Option TrieNode → Option TrieNode
  | none => none
  | some child => visit step child

end

/-- The first subscription with the id is taken out. -/
def dropId (id : Uuid) (subs : List Subscription) : Option (List Subscription) :=
  (subs.findIdx? fun s => decide (s.id = id)).map fun pos => subs.eraseIdx pos

/-- The first subscription with the id is switched. -/
def switch (id : Uuid) (active : Bool) (subs : List Subscription) : Option (List Subscription) :=
  (subs.findIdx? fun s => decide (s.id = id)).map fun pos => subs.modify pos fun s => { s with active }

def lookupRecursive : List Text → TrieNode → List Subscription
  | [], node => node.subscriptions ++ (node.multiWildcard.map subscriptions).getD []
  | first :: rest, node =>
    (node.multiWildcard.map subscriptions).getD [] ++
      ((node.literalChildren.lookup first).map (lookupRecursive rest)).getD [] ++
      (node.singleWildcard.map (lookupRecursive rest)).getD []

mutual

def collect : TrieNode → List Subscription
  | .mk literals single multi subs => subs ++ collectLiterals literals ++ collectChild single ++ collectChild multi

def collectLiterals : List (Text × TrieNode) → List Subscription
  | [] => []
  | (_, child) :: children => collect child ++ collectLiterals children

def collectChild : Option TrieNode → List Subscription
  | none => []
  | some child => collect child

end

end TrieNode

structure SubscriptionTrie where
  root : TrieNode

namespace SubscriptionTrie

def new : SubscriptionTrie := { root := .empty }

def insert (trie : SubscriptionTrie) (pattern : TopicPattern) (sub : Subscription) : SubscriptionTrie :=
  { root := trie.root.insert sub pattern.segments }

/-- A visit that finds nothing changes nothing. -/
def visited (trie : SubscriptionTrie) (step : List Subscription → Option (List Subscription)) : Bool × SubscriptionTrie :=
  match trie.root.visit step with
  | some root => (true, { root })
  | none => (false, trie)

def remove (trie : SubscriptionTrie) (id : Uuid) : Bool × SubscriptionTrie := trie.visited (TrieNode.dropId id)

def setActive (trie : SubscriptionTrie) (id : Uuid) (active : Bool) : Bool × SubscriptionTrie :=
  trie.visited (TrieNode.switch id active)

def lookup (trie : SubscriptionTrie) (eventType : EventType) : List Subscription :=
  trie.root.lookupRecursive eventType.segments

def allSubscriptions (trie : SubscriptionTrie) : List Subscription := trie.root.collect

end SubscriptionTrie

namespace TrieNode

/-! ## The end of a path -/

/-- The subscriptions at the end of a path. -/
def at' : List PatternSegment → TrieNode → List Subscription
  | [], node => node.subscriptions
  | .literal lit :: rest, node => ((node.literalChildren.lookup lit).map (at' rest)).getD []
  | .singleWildcard :: rest, node => (node.singleWildcard.map (at' rest)).getD []
  | .multiWildcard :: rest, node => (node.multiWildcard.map (at' rest)).getD []

theorem at_empty (path : List PatternSegment) : at' path empty = [] := by
  rcases path with _ | ⟨segment, rest⟩
  · rfl
  · cases segment <;> rfl

theorem lookup_setChild (lit lit' : Text) (child : TrieNode) (children : List (Text × TrieNode)) :
    (setChild lit child children).lookup lit' = if lit' = lit then some child else children.lookup lit' := by
  induction children with
  | nil =>
    rw [setChild, lookup_cons_ite]
    simp only [beq_iff_eq]
  | cons e children ih =>
    obtain ⟨key, old⟩ := e
    rw [setChild]
    by_cases here : key = lit
    · subst here
      rw [if_pos rfl, lookup_cons_ite, lookup_cons_ite]
      by_cases same : lit' = key
      · simp only [beq_iff_eq, if_pos same]
      · simp only [beq_iff_eq, if_neg same]
    · rw [if_neg here, lookup_cons_ite, lookup_cons_ite, ih]
      by_cases same : lit' = key
      · subst same
        simp only [beq_self_eq_true, if_true, if_neg here]
      · simp only [beq_iff_eq, if_neg same]

/-- What a path finds in a child that may not be there yet. -/
theorem at_getD (path : List PatternSegment) (child : Option TrieNode) :
    at' path (child.getD empty) = (child.map (at' path)).getD [] := by
  cases child with
  | none => exact at_empty path
  | some child => rfl

/-- **An insertion** adds at the end of one path. -/
theorem at_insert (sub : Subscription) (path : List PatternSegment) (node : TrieNode) (path' : List PatternSegment) :
    at' path' (insert sub path node) = if path' = path then at' path node ++ [sub] else at' path' node := by
  induction path generalizing node path' with
  | nil =>
    obtain ⟨literals, single, multi, subs⟩ := node
    rcases path' with _ | ⟨segment, rest⟩
    · rfl
    · rw [if_neg (List.cons_ne_nil _ _)]
      cases segment <;> rfl
  | cons segment path ih =>
    obtain ⟨literals, single, multi, subs⟩ := node
    rcases path' with _ | ⟨segment', rest⟩
    · rw [if_neg (List.cons_ne_nil _ _).symm]
      cases segment <;> rfl
    · simp only [List.cons.injEq]
      cases segment with
      | literal lit =>
        cases segment' with
        | literal lit' =>
          simp only [insert, at', literalChildren, lookup_setChild, PatternSegment.literal.injEq]
          by_cases same : lit' = lit
          · subst same
            simp only [if_true, true_and, Option.map_some, Option.getD_some, ih, at_getD]
          · simp only [same, false_and, if_false]
        | singleWildcard | multiWildcard => exact (if_neg (by simp)).symm
      | singleWildcard =>
        cases segment' with
        | literal lit' => exact (if_neg (by simp)).symm
        | singleWildcard =>
          simp only [insert, at', TrieNode.singleWildcard, true_and, Option.map_some, Option.getD_some, ih, at_getD]
        | multiWildcard => exact (if_neg (by simp)).symm
      | multiWildcard =>
        cases segment' with
        | literal lit' | singleWildcard => exact (if_neg (by simp)).symm
        | multiWildcard =>
          simp only [insert, at', TrieNode.multiWildcard, true_and, Option.map_some, Option.getD_some, ih, at_getD]

/-! ## Every child has its own name -/

mutual

def Proper : TrieNode → Prop
  | .mk literals single multi _ =>
    (literals.map Prod.fst).Nodup ∧ ProperLiterals literals ∧ ProperChild single ∧ ProperChild multi

def ProperLiterals : List (Text × TrieNode) → Prop
  | [] => True
  | (_, child) :: children => Proper child ∧ ProperLiterals children

def ProperChild : Option TrieNode → Prop
  | none => True
  | some child => Proper child

end

theorem proper_empty : Proper empty := by
  rw [empty, Proper]
  exact ⟨List.nodup_nil, by rw [ProperLiterals]; trivial, by rw [ProperChild]; trivial, by rw [ProperChild]; trivial⟩

theorem ProperChild.getD {child : Option TrieNode} (proper : ProperChild child) : Proper (child.getD empty) := by
  cases child with
  | none => exact proper_empty
  | some child => rwa [ProperChild] at proper

theorem ProperLiterals.lookup {children : List (Text × TrieNode)} (proper : ProperLiterals children) (lit : Text) :
    ProperChild (children.lookup lit) := by
  induction children with
  | nil => exact proper
  | cons e children ih =>
    obtain ⟨key, child⟩ := e
    rw [ProperLiterals] at proper
    rw [lookup_cons_ite]
    split
    · rw [ProperChild]
      exact proper.1
    · exact ih proper.2

theorem ProperLiterals.setChild {lit : Text} {child : TrieNode} (proper' : Proper child)
    {children : List (Text × TrieNode)} (proper : ProperLiterals children) :
    ProperLiterals (setChild lit child children) := by
  induction children with
  | nil =>
    rw [TrieNode.setChild, ProperLiterals]
    exact ⟨proper', proper⟩
  | cons e children ih =>
    obtain ⟨key, old⟩ := e
    rw [ProperLiterals] at proper
    rw [TrieNode.setChild]
    split
    · rw [ProperLiterals]
      exact ⟨proper', proper.2⟩
    · rw [ProperLiterals]
      exact ⟨proper.1, ih proper.2⟩

theorem names_setChild (lit : Text) (child : TrieNode) (children : List (Text × TrieNode)) :
    (setChild lit child children).map Prod.fst =
      if lit ∈ children.map Prod.fst then children.map Prod.fst else children.map Prod.fst ++ [lit] := by
  induction children with
  | nil => rfl
  | cons e children ih =>
    rw [setChild]
    by_cases here : e.1 = lit
    · rw [if_pos here, List.map_cons, List.map_cons, if_pos (by rw [here]; exact .head _), here]
    · rw [if_neg here, List.map_cons, ih, List.map_cons]
      by_cases member : lit ∈ children.map Prod.fst
      · rw [if_pos member, if_pos (.tail _ member)]
      · rw [if_neg member, if_neg (by simp [Ne.symm here, member]), List.cons_append]

theorem proper_insert (sub : Subscription) (path : List PatternSegment) {node : TrieNode} (proper : Proper node) :
    Proper (insert sub path node) := by
  induction path generalizing node with
  | nil =>
    obtain ⟨literals, single, multi, subs⟩ := node
    rw [Proper] at proper
    rw [insert, Proper]
    exact proper
  | cons segment path ih =>
    obtain ⟨literals, single, multi, subs⟩ := node
    rw [Proper] at proper
    obtain ⟨nodup, properLiterals, properSingle, properMulti⟩ := proper
    cases segment with
    | literal lit =>
      rw [insert, Proper]
      refine ⟨?_, properLiterals.setChild (ih (properLiterals.lookup lit).getD), properSingle, properMulti⟩
      rw [names_setChild]
      split
      · exact nodup
      · next new =>
        refine List.nodup_append.mpr ⟨nodup, List.pairwise_singleton _ _, fun a member b last same => new ?_⟩
        rwa [← List.mem_singleton.mp last, ← same]
    | singleWildcard =>
      rw [insert, Proper]
      exact ⟨nodup, properLiterals, by rw [ProperChild]; exact ih properSingle.getD, properMulti⟩
    | multiWildcard =>
      rw [insert, Proper]
      exact ⟨nodup, properLiterals, properSingle, by rw [ProperChild]; exact ih properMulti.getD⟩

/-! ## A visit -/

variable {step : List Subscription → Option (List Subscription)}

/-- A visit has changed the list at the end of one path. -/
structure Visited (step : List Subscription → Option (List Subscription)) (node node' : TrieNode)
    (path : List PatternSegment) (subs : List Subscription) : Prop where
  proper : Proper node'
  found : step (at' path node) = some subs
  others : ∀ q, at' q node' = if q = path then subs else at' q node

/-- A visit of one child of a kind, seen from the node above. -/
theorem Visited.lift {child child' : TrieNode} {path : List PatternSegment} {subs : List Subscription}
    (visited : Visited step child child' path subs) {node node' : TrieNode} (segment : PatternSegment)
    (proper : Proper node') (here : ∀ q, at' (segment :: q) node = at' q child)
    (here' : ∀ q, at' (segment :: q) node' = at' q child') (top : node'.subscriptions = node.subscriptions)
    (beside : ∀ segment', segment' ≠ segment → ∀ q, at' (segment' :: q) node' = at' (segment' :: q) node) :
    Visited step node node' (segment :: path) subs where
  proper := proper
  found := by rw [here, visited.found]
  others q := by
    rcases q with _ | ⟨segment', q⟩
    · rw [if_neg (List.cons_ne_nil _ _).symm]
      exact top
    · by_cases same : segment' = segment
      · subst same
        rw [here', visited.others, here]
        by_cases rest : q = path
        · rw [if_pos rest, if_pos (by rw [rest])]
        · rw [if_neg rest, if_neg fun whole => rest (List.cons.inj whole).2]
      · rw [if_neg fun whole => same (List.cons.inj whole).1, beside segment' same]

mutual

/-- **A visit finds nothing, or changes one list.** -/
theorem visit_spec (nothing : step [] = none) : ∀ {node : TrieNode}, Proper node →
    (visit step node = none ∧ ∀ q, step (at' q node) = none) ∨
      ∃ node' path subs, visit step node = some node' ∧ Visited step node node' path subs
  | .mk literals single multi subs, proper => by
      rw [Proper] at proper
      obtain ⟨nodup, properLiterals, properSingle, properMulti⟩ := proper
      rw [visit]
      cases top : step subs with
      | some subs' =>
        refine .inr ⟨_, [], subs', rfl, ?_, top, fun q => ?_⟩
        · rw [Proper]
          exact ⟨nodup, properLiterals, properSingle, properMulti⟩
        · rcases q with _ | ⟨segment, q⟩
          · rfl
          · rw [if_neg (List.cons_ne_nil _ _)]
            cases segment <;> rfl
      | none =>
        rcases visitLiterals_spec nothing nodup properLiterals with ⟨literal, noLiteral⟩ |
          ⟨literals', lit, child, child', path, subs', visited, names, proper', here, changed, others⟩
        · rcases visitChild_spec nothing properSingle with ⟨singleNone, noSingle⟩ |
            ⟨child, child', path, subs', rfl, visited, changed⟩
          · rcases visitChild_spec nothing properMulti with ⟨multiNone, noMulti⟩ |
              ⟨child, child', path, subs', rfl, visited, changed⟩
            · rw [literal, singleNone, multiNone]
              refine .inl ⟨rfl, fun q => ?_⟩
              rcases q with _ | ⟨segment, q⟩
              · exact top
              · cases segment with
                | literal lit =>
                  rw [at', literalChildren]
                  cases found : literals.lookup lit with
                  | none => exact nothing
                  | some child => exact noLiteral lit child found q
                | singleWildcard =>
                  cases single with
                  | none => exact nothing
                  | some child => exact noSingle child rfl q
                | multiWildcard =>
                  cases multi with
                  | none => exact nothing
                  | some child => exact noMulti child rfl q
            · rw [literal, singleNone, visited]
              refine .inr ⟨_, _, _, rfl, changed.lift .multiWildcard ?_ (fun _ => rfl) (fun _ => rfl) rfl ?_⟩
              · rw [Proper]
                exact ⟨nodup, properLiterals, properSingle, by rw [ProperChild]; exact changed.proper⟩
              · intro segment differ q
                cases segment with
                | literal lit | singleWildcard => rfl
                | multiWildcard => exact absurd rfl differ
          · rw [literal, visited]
            refine .inr ⟨_, _, _, rfl, changed.lift .singleWildcard ?_ (fun _ => rfl) (fun _ => rfl) rfl ?_⟩
            · rw [Proper]
              exact ⟨nodup, properLiterals, by rw [ProperChild]; exact changed.proper, properMulti⟩
            · intro segment differ q
              cases segment with
              | literal lit => rfl
              | singleWildcard => exact absurd rfl differ
              | multiWildcard => rfl
        · rw [visited]
          refine .inr ⟨_, _, _, rfl, changed.lift (.literal lit) ?_ (fun q => ?_) (fun q => ?_) rfl ?_⟩
          · rw [Proper]
            exact ⟨by rw [names]; exact nodup, proper', properSingle, properMulti⟩
          · rw [at', literalChildren, here]
            rfl
          · rw [at', literalChildren, others, if_pos rfl]
            rfl
          · intro segment differ q
            cases segment with
            | literal lit' =>
              have other : lit' ≠ lit := fun same => differ (by rw [same])
              rw [at', at', literalChildren, literalChildren, others, if_neg other]
            | singleWildcard | multiWildcard => rfl

theorem visitLiterals_spec (nothing : step [] = none) : ∀ {children : List (Text × TrieNode)},
    (children.map Prod.fst).Nodup → ProperLiterals children →
    (visitLiterals step children = none ∧
      ∀ lit child, children.lookup lit = some child → ∀ q, step (at' q child) = none) ∨
    ∃ children' lit child child' path subs, visitLiterals step children = some children' ∧
      children'.map Prod.fst = children.map Prod.fst ∧ ProperLiterals children' ∧
      children.lookup lit = some child ∧ Visited step child child' path subs ∧
      ∀ lit', children'.lookup lit' = if lit' = lit then some child' else children.lookup lit'
  | [], _, _ => .inl ⟨by rw [visitLiterals], nofun⟩
  | (lit, child) :: children, nodup, proper => by
      rw [ProperLiterals] at proper
      rw [List.map_cons, List.nodup_cons] at nodup
      rw [visitLiterals]
      rcases visit_spec nothing proper.1 with ⟨visited, noChild⟩ | ⟨child', path, subs, visited, changed⟩
      · rw [visited]
        rcases visitLiterals_spec nothing nodup.2 proper.2 with ⟨rest, noRest⟩ |
          ⟨children', lit', old, new, path, subs, rest, names, proper', here, changed, others⟩
        · rw [rest]
          refine .inl ⟨rfl, fun lit' found known q => ?_⟩
          rw [lookup_cons_ite] at known
          split at known
          · cases known
            exact noChild q
          · exact noRest lit' found known q
        · rw [rest]
          have differ : lit' ≠ lit := by
            rintro rfl
            obtain ⟨before, after, split, -⟩ := List.lookup_eq_some_iff.mp here
            refine nodup.1 (List.mem_map.mpr ⟨(lit', old), ?_, rfl⟩)
            rw [split]
            exact List.mem_append_right _ (.head _)
          refine .inr ⟨_, lit', old, new, path, subs, rfl, ?_, ?_, ?_, changed, fun lit'' => ?_⟩
          · rw [List.map_cons, List.map_cons, names]
          · rw [ProperLiterals]
            exact ⟨proper.1, proper'⟩
          · rw [lookup_cons_ite, if_neg (by simpa using differ), here]
          · rw [lookup_cons_ite, lookup_cons_ite, others]
            by_cases isNew : lit'' = lit'
            · subst isNew
              rw [if_neg (by simpa using differ), if_pos rfl, if_pos rfl]
            · rw [if_neg isNew, if_neg isNew]
      · rw [visited]
        refine .inr ⟨_, lit, child, child', path, subs, rfl, rfl, ?_, ?_, changed, fun lit' => ?_⟩
        · rw [ProperLiterals]
          exact ⟨changed.proper, proper.2⟩
        · rw [lookup_cons_ite, if_pos (by simp)]
        · rw [lookup_cons_ite, lookup_cons_ite]
          by_cases same : lit' = lit
          · rw [if_pos (by simpa using same), if_pos same]
          · rw [if_neg (by simpa using same), if_neg same, if_neg (by simpa using same)]

theorem visitChild_spec (nothing : step [] = none) : ∀ {child : Option TrieNode}, ProperChild child →
    (visitChild step child = none ∧ ∀ node, child = some node → ∀ q, step (at' q node) = none) ∨
    ∃ node node' path subs, child = some node ∧ visitChild step child = some node' ∧
      Visited step node node' path subs
  | none, _ => .inl ⟨by rw [visitChild], nofun⟩
  | some child, proper => by
      rw [ProperChild] at proper
      rw [visitChild]
      rcases visit_spec nothing proper with ⟨visited, noChild⟩ | ⟨child', path, subs, visited, changed⟩
      · exact .inl ⟨visited, by rintro _ ⟨⟩; exact noChild⟩
      · exact .inr ⟨child, child', path, subs, rfl, visited, changed⟩

end

end TrieNode

end NovaRuntime.Events
