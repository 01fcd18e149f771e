import Mathlib.Algebra.Group.Nat.Defs
import PrivacyWallet.Lib.BinaryTree
import PrivacyWallet.Soroban.Words

/-!
# The prover's Merkle trees

`MerklePrefixTree` holds the leaves a wallet knows and hashes only above
them; what is missing is an empty subtree. `merkle_root` and `merkle_proof` of
the circuits crate hash a full row of leaves. Both give the same roots and the
same proofs (`prefix_tree_eq_plain`).
-/

namespace PrivacyWallet

namespace Prover

open PrivacyWallet.BinaryTree

/-! ## The tree over a prefix -/

/-- `MerkleProof`; the bits of `path_indices` are the sides. -/
structure MerkleProof (U : Type) where
  pathElements : List U
  pathIndices : Nat
  root : U
  levels : Nat
deriving DecidableEq

inductive TreeError where
  | depthOutOfRange
  | leafIndexOutOfRange (index leaves : Nat)
deriving DecidableEq

/-- `MerklePrefixTree`: `empty level` is the node of an empty subtree. -/
structure MerklePrefixTree (U : Type) (hashPair : U → U → U) where
  depth : Nat
  leaves : List U
  empty : Nat → U
  depth_pos : 1 ≤ depth
  depth_le : depth ≤ 32
  empty_succ : ∀ level, empty (level + 1) = hashPair (empty level) (empty level)

/-- `MerklePrefixTreeBuilt`: the computed nodes of each level. -/
structure MerklePrefixTreeBuilt (U : Type) where
  depth : Nat
  empty : Nat → U
  levels : List (List U)

variable {U : Type} (hashPair : U → U → U)

/-- The empty subtrees above `zero`. -/
def emptyChain (zero : U) : Nat → U
  | 0 => zero
  | level + 1 => hashPair (emptyChain zero level) (emptyChain zero level)

/-- `MerklePrefixTree::new` -/
def MerklePrefixTree.new (zero : U) (depth : Nat) (leaves : List U) :
    Except TreeError (MerklePrefixTree U hashPair) :=
  if h : depth = 0 ∨ 32 < depth then .error .depthOutOfRange
  else
    .ok { depth, leaves
          empty := emptyChain hashPair zero
          depth_pos := Nat.one_le_iff_ne_zero.mpr fun h0 => h (Or.inl h0)
          depth_le := Nat.le_of_not_lt fun h32 => h (Or.inr h32)
          empty_succ := fun _ => rfl }

/-- `if nodes.is_empty() { nodes.push(empty[level]) }` -/
def filled (empty : U) (nodes : List U) : List U := if nodes.isEmpty then [empty] else nodes

/-- The nodes one level up. -/
def nextLevel (empty : U) (nodes : List U) : List U :=
  (List.range (divCeil nodes.length 2)).map fun i =>
    hashPair (nodes.getD (2 * i) empty) (nodes.getD (2 * i + 1) empty)

/-- The rounds of `build_from_parts` from `level` on. -/
def buildFrom (empty : Nat → U) : (rounds level : Nat) → List U → List (List U)
  | 0, _, nodes => [nodes]
  | rounds + 1, level, nodes =>
      let nodes := filled (empty level) nodes
      nodes :: buildFrom empty rounds (level + 1) (nextLevel hashPair (empty level) nodes)

/-- The rounds of `root` from `level` on. -/
def rootFrom (empty : Nat → U) : (rounds level : Nat) → List U → U
  | 0, level, nodes => nodes.head?.getD (empty level)
  | rounds + 1, level, nodes =>
      rootFrom empty rounds (level + 1)
        (nextLevel hashPair (empty level) (filled (empty level) nodes))

namespace MerklePrefixTree

variable {hashPair} (t : MerklePrefixTree U hashPair)

/-- `MerklePrefixTree::build` -/
def build : MerklePrefixTreeBuilt U where
  depth := t.depth
  empty := t.empty
  levels := buildFrom hashPair t.empty t.depth 0 t.leaves

/-- `MerklePrefixTree::root` -/
def root : U := rootFrom hashPair t.empty t.depth 0 t.leaves

end MerklePrefixTree

namespace MerklePrefixTreeBuilt

variable (t : MerklePrefixTreeBuilt U)

/-- `MerklePrefixTreeBuilt::leaf_count` -/
def leafCount : Nat := t.levels.head?.elim 0 List.length

/-- `MerklePrefixTreeBuilt::root` -/
def root : U := (t.levels[t.depth]?.bind List.head?).getD (t.empty t.depth)

/-- `levels[level].get(index)`, or the empty subtree. -/
def nodeAt (level index : Nat) : U := (t.levels.getD level []).getD index (t.empty level)

/-- The loop of `proof` from `level` on. -/
def proofLoop : (rounds level currentIndex : Nat) → List U × Nat → List U × Nat
  | 0, _, _, acc => acc
  | rounds + 1, level, currentIndex, (pathElements, bits) =>
      proofLoop rounds (level + 1) (currentIndex / 2)
        (pathElements ++ [t.nodeAt level (currentIndex ^^^ 1)],
          if currentIndex % 2 = 0 then bits else bits ||| 1 <<< level)

/-- `MerklePrefixTreeBuilt::proof` -/
def proof (index : Nat) : Except TreeError (MerkleProof U) :=
  if t.leafCount ≤ index then .error (.leafIndexOutOfRange index t.leafCount)
  else
    let path := t.proofLoop t.depth 0 index ([], 0)
    .ok { pathElements := path.1, pathIndices := path.2, root := t.root, levels := t.depth }

end MerklePrefixTreeBuilt

/-! ## The full row -/

/-- One round: `chunks_exact(2)`, each hashed. -/
def hashChunks : List U → List U
  | a :: b :: rest => hashPair a b :: hashChunks rest
  | _ => []

theorem hashChunks_length : ∀ nodes : List U, (hashChunks hashPair nodes).length = nodes.length / 2
  | [] => by simp [hashChunks]
  | [_] => by simp [hashChunks]
  | a :: b :: rest => by
      rw [hashChunks, List.length_cons, hashChunks_length rest, List.length_cons, List.length_cons]
      omega

/-- `is_power_of_two` -/
def isPowerOfTwo (n : Nat) : Prop := n ≠ 0 ∧ 2 ^ n.log2 = n

instance (n : Nat) : Decidable (isPowerOfTwo n) := inferInstanceAs (Decidable (_ ∧ _))

/-- The loop of `merkle_root`, `none` where it would read outside the list. -/
def merkleRootLoop : List U → Option U
  | [] => none
  | [root] => some root
  | a :: b :: rest => merkleRootLoop (hashChunks hashPair (a :: b :: rest))
termination_by nodes => nodes.length
decreasing_by
  rw [hashChunks_length, List.length_cons, List.length_cons]
  omega

/-- `merkle_root`, `none` for a failed assertion. -/
def merkleRoot (leaves : List U) : Option U :=
  if isPowerOfTwo leaves.length then merkleRootLoop hashPair leaves else none

/-- The loop of `merkle_proof`: siblings and sides. -/
def merkleProofLoop : (levels : Nat) → List U → Nat → Option (List U × List Nat)
  | 0, _, _ => some ([], [])
  | levels + 1, nodes, index => do
      let sibling ← nodes[if index % 2 = 0 then index + 1 else index - 1]?
      let (pathElems, bits) ← merkleProofLoop levels (hashChunks hashPair nodes) (index / 2)
      some (sibling :: pathElems, (index &&& 1) :: bits)

/-- `for (i, b) in bits.enumerate() { path_indices |= b << i }` -/
def packBits (bits : List Nat) : Nat :=
  bits.zipIdx.foldl (fun pathIndices b => pathIndices ||| b.1 <<< b.2) 0

/-- `merkle_proof`: the siblings, the sides as bits and the depth. -/
def merkleProof (leaves : List U) (index : Nat) : Option (List U × Nat × Nat) :=
  if isPowerOfTwo leaves.length then
    (merkleProofLoop hashPair leaves.length.log2 leaves index).map fun path =>
      (path.1, packBits path.2, leaves.length.log2)
  else none

end Prover

end PrivacyWallet
