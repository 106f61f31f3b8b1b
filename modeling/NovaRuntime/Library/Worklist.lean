/-
# NovaRuntime.Library.Worklist — a depth-first search with a set of visited nodes

`search goal` takes nodes from a stack until it meets the goal or the stack is empty; a node it has
not met before puts its successors on the stack. A node may be on the stack before it has any
successors, and a successor may be no node of the graph at all: then it has none.

`search_settles`: where all nodes with successors are in a finite list, the search ends, within the
length of the stack and the successors of the nodes that are not yet visited. `search_exact`: it
finds the goal exactly when a path leads there from the stack.
-/
import Mathlib.Algebra.BigOperators.Group.List.Lemmas
import Mathlib.Algebra.GroupWithZero.Nat
import Mathlib.Logic.Relation

namespace NovaRuntime.Library.Worklist

set_option autoImplicit false

section Graph

variable {α : Type} (next : α → List α) (goal : α)

/-! ## The graph -/

/-- An edge of the graph. -/
def Edge (a b : α) : Prop := b ∈ next a

/-- A path from a node of the list leads to the goal. -/
def Leads (stack : List α) : Prop := ∃ a ∈ stack, Relation.ReflTransGen (Edge next) a goal

/-- No visited node is the goal, and its successors are visited or still to come. -/
def Closed (visited stack : List α) : Prop :=
  ∀ a ∈ visited, a ≠ goal ∧ ∀ b ∈ next a, b ∈ visited ∨ b ∈ stack

variable {next goal}

theorem closed_nil (stack : List α) : Closed next goal [] stack := by
  intro a member
  cases member

/-- A visited node that comes up again is passed over. -/
theorem Closed.pass {visited stack : List α} {a : α} (closed : Closed next goal visited (a :: stack))
    (seen : a ∈ visited) : Closed next goal visited stack := by
  intro b member
  refine ⟨(closed b member).1, fun c successor => ?_⟩
  rcases (closed b member).2 c successor with inVisited | inStack
  · exact .inl inVisited
  · rcases List.mem_cons.mp inStack with rfl | later
    · exact .inl seen
    · exact .inr later

/-- A fresh node is visited, and its successors come up. -/
theorem Closed.visit {visited stack : List α} {a : α} (closed : Closed next goal visited (a :: stack))
    (other : a ≠ goal) : Closed next goal (a :: visited) (next a ++ stack) := by
  intro b member
  rcases List.mem_cons.mp member with rfl | before
  · exact ⟨other, fun c successor => .inr (List.mem_append_left _ successor)⟩
  · refine ⟨(closed b before).1, fun c successor => ?_⟩
    rcases (closed b before).2 c successor with inVisited | inStack
    · exact .inl (.tail _ inVisited)
    · rcases List.mem_cons.mp inStack with rfl | later
      · exact .inl (.head _)
      · exact .inr (List.mem_append_right _ later)

/-- With an empty stack nothing beyond the visited nodes is reached. -/
theorem Closed.stays {visited : List α} (closed : Closed next goal visited []) {a : α}
    (seen : a ∈ visited) : ¬ Relation.ReflTransGen (Edge next) a goal := by
  intro path
  induction path using Relation.ReflTransGen.head_induction_on with
  | refl => exact (closed goal seen).1 rfl
  | head edge _ ih =>
    rcases (closed _ seen).2 _ edge with inVisited | inStack
    · exact ih inVisited
    · cases inStack

/-! ## The search -/

section Search

variable [DecidableEq α]

variable (next goal) in
/-- The search with so many turns: whether it meets the goal, or nothing where the turns end first. -/
def search : Nat → List α → List α → Option Bool
  | 0, _, _ => none
  | _ + 1, _, [] => some false
  | turns + 1, visited, a :: stack =>
    if a = goal then some true
    else if a ∈ visited then search turns visited stack
    else search turns (a :: visited) (next a ++ stack)

variable (next) in
/-- The successors of the nodes that are not visited. -/
def ahead (nodes visited : List α) : Nat :=
  ((nodes.filter (· ∉ visited)).map fun a => (next a).length).sum

variable {stack visited : List α} {turns : Nat}

theorem ahead_cons {nodes : List α} (unique : nodes.Nodup) {a : α} (fresh : a ∉ visited)
    (known : next a ≠ [] → a ∈ nodes) :
    ahead next nodes (a :: visited) + (next a).length = ahead next nodes visited := by
  by_cases member : a ∈ nodes
  · have apart : nodes.filter (· ∉ a :: visited) = (nodes.filter (· ∉ visited)).erase a := by
      rw [(unique.filter _).erase_eq_filter, List.filter_filter]
      refine List.filter_congr fun b _ => ?_
      by_cases same : b = a <;> simp [same]
    have inside : a ∈ nodes.filter (· ∉ visited) := List.mem_filter.mpr ⟨member, by simpa using fresh⟩
    rw [ahead, ahead, apart, Nat.add_comm]
    exact List.sum_map_erase (fun a => (next a).length) inside
  · have none : next a = [] := by
      by_contra some
      exact member (known some)
    have same : nodes.filter (· ∉ a :: visited) = nodes.filter (· ∉ visited) := by
      refine List.filter_congr fun b inNodes => ?_
      have other : b ≠ a := fun is => member (is ▸ inNodes)
      simp [other]
    rw [ahead, ahead, same, none, List.length_nil, Nat.add_zero]

/-- **The search ends.** -/
theorem search_settles {nodes : List α} (unique : nodes.Nodup) (known : ∀ a, next a ≠ [] → a ∈ nodes)
    (turns : Nat) (visited stack : List α) (enough : stack.length + ahead next nodes visited < turns) :
    search next goal turns visited stack ≠ none := by
  induction turns generalizing visited stack with
  | zero => omega
  | succ turns ih =>
    cases stack with
    | nil => simp [search]
    | cons a stack =>
      rw [List.length_cons] at enough
      rw [search]
      split
      · simp
      · split
        · exact ih visited stack (by omega)
        · next fresh =>
            have less := ahead_cons unique fresh (known a)
            refine ih (a :: visited) (next a ++ stack) ?_
            rw [List.length_append]
            omega

/-- More turns change nothing of a search that has ended. -/
theorem search_le {more : Nat} (le : turns ≤ more) {found : Bool}
    (settled : search next goal turns visited stack = some found) :
    search next goal more visited stack = some found := by
  induction turns generalizing more visited stack with
  | zero => cases settled
  | succ turns ih =>
    obtain ⟨more, rfl⟩ : ∃ k, more = k + 1 := ⟨more - 1, by omega⟩
    cases stack with
    | nil => exact settled
    | cons a stack =>
      rw [search] at settled ⊢
      split
      · next isGoal => rwa [if_pos isGoal] at settled
      · next other =>
          rw [if_neg other] at settled
          split
          · next seen =>
              rw [if_pos seen] at settled
              exact ih (by omega) settled
          · next fresh =>
              rw [if_neg fresh] at settled
              exact ih (by omega) settled

theorem search_found
    (found : search next goal turns visited stack = some true) : Leads next goal stack := by
  induction turns generalizing visited stack with
  | zero => cases found
  | succ turns ih =>
    cases stack with
    | nil => cases found
    | cons a stack =>
      rw [search] at found
      split at found
      · next isGoal => exact ⟨a, .head _, isGoal ▸ .refl⟩
      · split at found
        · obtain ⟨b, member, path⟩ := ih found
          exact ⟨b, .tail _ member, path⟩
        · obtain ⟨b, member, path⟩ := ih found
          rcases List.mem_append.mp member with successor | later
          · exact ⟨a, .head _, .head successor path⟩
          · exact ⟨b, .tail _ later, path⟩

theorem search_missed (closed : Closed next goal visited stack)
    (missed : search next goal turns visited stack = some false) :
    ∀ a, a ∈ visited ∨ a ∈ stack → ¬ Relation.ReflTransGen (Edge next) a goal := by
  induction turns generalizing visited stack with
  | zero => cases missed
  | succ turns ih =>
    cases stack with
    | nil =>
      intro a member
      exact closed.stays (member.resolve_right List.not_mem_nil)
    | cons a stack =>
      rw [search] at missed
      split at missed
      · cases missed
      · next other =>
          split at missed
          · next seen =>
              intro b member
              refine ih (closed.pass seen) missed b ?_
              rcases member with inVisited | inStack
              · exact .inl inVisited
              · rcases List.mem_cons.mp inStack with rfl | later
                · exact .inl seen
                · exact .inr later
          · intro b member
            refine ih (closed.visit other) missed b ?_
            rcases member with inVisited | inStack
            · exact .inl (.tail _ inVisited)
            · rcases List.mem_cons.mp inStack with rfl | later
              · exact .inl (.head _)
              · exact .inr (List.mem_append_right _ later)

/-- **The search finds the goal exactly when a path leads there.** -/
theorem search_exact {found : Bool}
    (settled : search next goal turns [] stack = some found) : found = true ↔ Leads next goal stack := by
  cases found with
  | true => exact iff_of_true rfl (search_found settled)
  | false =>
    refine iff_of_false (by decide) ?_
    rintro ⟨a, member, path⟩
    exact search_missed (closed_nil stack) settled a (.inr member) path

end Search

end Graph

/-! ## Cycles -/

section Cycles

variable {α : Type} {edge edge' : α → α → Prop} {a : α}

/-- No path leads from a node back to it. -/
def Acyclic (edge : α → α → Prop) : Prop := ∀ a, ¬ Relation.TransGen edge a a

/-- Where two graphs differ in the edges out of one node only, the paths that lead there are the
same. -/
theorem leads_of_others (others : ∀ b c, b ≠ a → edge b c → edge' b c) {b : α}
    (path : Relation.ReflTransGen edge b a) : Relation.ReflTransGen edge' b a := by
  induction path using Relation.ReflTransGen.head_induction_on with
  | refl => exact .refl
  | @head b c first _ ih =>
    by_cases here : b = a
    · rw [here]
    · exact .head (others b c here first) ih

/-- A path has no edge out of the node, or passes it. -/
theorem path_around (others : ∀ b c, b ≠ a → edge' b c → edge b c) {b c : α}
    (path : Relation.TransGen edge' b c) :
    Relation.TransGen edge b c ∨ Relation.ReflTransGen edge' b a ∧ Relation.TransGen edge' a c := by
  induction path with
  | single first =>
    by_cases here : b = a
    · subst here
      exact .inr ⟨.refl, .single first⟩
    · exact .inl (.single (others b _ here first))
  | @tail c d before last ih =>
    rcases ih with around | ⟨arrives, leaves⟩
    · by_cases here : c = a
      · subst here
        exact .inr ⟨before.to_reflTransGen, .single last⟩
      · exact .inl (around.tail (others c d here last))
    · exact .inr ⟨arrives, leaves.tail last⟩

/-- **New edges out of one node close a cycle exactly through that node**: where one of them leads
to where a path led back. -/
theorem acyclic_iff_of_others (acyclic : Acyclic edge) (others : ∀ b c, b ≠ a → (edge' b c ↔ edge b c)) :
    Acyclic edge' ↔ ¬ Relation.TransGen edge' a a := by
  refine ⟨fun free => free a, fun none b cycle => ?_⟩
  rcases path_around (fun b c other => (others b c other).mp) cycle with around | ⟨arrives, leaves⟩
  · exact acyclic b around
  · exact none (leaves.trans_left arrives)

/-- A cycle through the node is a new edge and an old path. -/
theorem cycle_iff_of_others (others : ∀ b c, b ≠ a → (edge' b c ↔ edge b c)) :
    Relation.TransGen edge' a a ↔ ∃ b, edge' a b ∧ Relation.ReflTransGen edge b a := by
  constructor
  · intro cycle
    obtain ⟨b, first, path⟩ := Relation.TransGen.head'_iff.mp cycle
    exact ⟨b, first, leads_of_others (fun b c other => (others b c other).mp) path⟩
  · rintro ⟨b, first, path⟩
    exact .head' first (leads_of_others (fun b c other => (others b c other).mpr) path)

end Cycles

end NovaRuntime.Library.Worklist
