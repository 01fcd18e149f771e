import PrivacyWallet.Prover.MerkleTree

/-!
# The nodes of a prefix tree

The wallet's tree hashes only above the leaves it knows; the circuits crate
hashes a full row of leaves. Both have one root, and the same siblings and
sides for each leaf (`prefix_tree_eq_plain`).

Neither is compared with the other directly, but each with the complete tree
on the leaves and padding. A list of nodes with an empty subtree behind it
*is* a level of that tree (`Level`), and one round of hashing pairs makes it
the next level (`Level.next`), where an odd end is completed by the empty
subtree. A full row is the same with nothing behind it (`Row`, `Row.next`).
By induction on the rounds the last list is the root, on either side
(`rootFrom_eq`, `merkleRootLoop_eq`).

A proof collects, level by level, the neighbour of a position and its side.
Both loops collect the path of the complete tree (`proofLoop_eq`,
`merkleProofLoop_eq`), along which a leaf climbs to the root
(`climb_pathTo`).
-/

namespace PrivacyWallet

namespace Prover

open PrivacyWallet.BinaryTree

variable {U : Type} {hashPair : U → U → U} {leaf : Nat → U} {e : U} {nodes : List U}

/-! ## Levels -/

/-- The nodes, and behind them `e`, are level `l` of the tree. -/
def Level (hashPair : U → U → U) (leaf : Nat → U) (e : U) (l : Nat) (nodes : List U) : Prop :=
  padded nodes e = full hashPair leaf l

/-- An empty list stands for a level of empty subtrees; the first of them is put in. -/
theorem Level.filled {l : Nat} (h : Level hashPair leaf e l nodes) :
    Level hashPair leaf e l (filled e nodes) := by
  unfold Prover.filled
  split
  · rename_i hempty
    obtain rfl := List.isEmpty_iff.mp hempty
    unfold Level at h ⊢
    rw [← h]
    funext j
    cases j <;> rfl
  · exact h

/-- One round. -/
theorem Level.next {l : Nat} (h : Level hashPair leaf e l nodes) :
    Level hashPair leaf (hashPair e e) (l + 1) (nextLevel hashPair e nodes) := by
  funext j
  have hpair : hashPair (nodes.getD (2 * j) e) (nodes.getD (2 * j + 1) e)
      = full hashPair leaf (l + 1) j :=
    congrArg₂ hashPair (congrFun h (2 * j)) (congrFun h (2 * j + 1))
  rw [← hpair]
  have hlen : (nextLevel hashPair e nodes).length = divCeil nodes.length 2 := by
    simp [nextLevel]
  by_cases hj : j < divCeil nodes.length 2
  · rw [padded_of_lt (hlen ▸ hj)]
    simp [nextLevel]
  · have hshort := (divCeil_le_iff Nat.two_pos).mp (Nat.le_of_not_lt hj)
    rw [padded_of_le (hlen ▸ Nat.le_of_not_lt hj)]
    have hl : nodes.getD (2 * j) e = e := padded_of_le (by omega)
    have hr : nodes.getD (2 * j + 1) e = e := padded_of_le (by omega)
    rw [hl, hr]

theorem Level.head {l : Nat} (h : Level hashPair leaf e l nodes) :
    nodes.head?.getD e = full hashPair leaf l 0 := by
  rw [← congrFun h 0]
  cases nodes <;> rfl

variable {empty : Nat → U} (hempty : ∀ l, empty (l + 1) = hashPair (empty l) (empty l))
include hempty

theorem rootFrom_eq : ∀ {rounds l : Nat} {nodes : List U}, Level hashPair leaf (empty l) l nodes →
    rootFrom hashPair empty rounds l nodes = full hashPair leaf (l + rounds) 0
  | 0, _, _, h => h.head
  | rounds + 1, l, nodes, h => by
      have hnext := h.filled.next
      rw [← hempty] at hnext
      rw [rootFrom, rootFrom_eq hnext, Nat.add_assoc, Nat.add_comm 1]

/-- Every level that is built is a level of the tree. -/
theorem buildFrom_level : ∀ {rounds l j : Nat} {nodes : List U},
    Level hashPair leaf (empty l) l nodes → j ≤ rounds →
      ∃ row, (buildFrom hashPair empty rounds l nodes)[j]? = some row ∧
        Level hashPair leaf (empty (l + j)) (l + j) row
  | 0, l, j, nodes, h, hj => by
      obtain rfl := Nat.le_zero.mp hj
      exact ⟨nodes, rfl, h⟩
  | rounds + 1, l, 0, nodes, h, _ => ⟨_, rfl, h.filled⟩
  | rounds + 1, l, j + 1, nodes, h, hj => by
      have hnext := h.filled.next
      rw [← hempty] at hnext
      obtain ⟨row, hrow, hlevel⟩ := buildFrom_level hnext (Nat.le_of_succ_le_succ hj)
      refine ⟨row, ?_, ?_⟩
      · rw [buildFrom]
        exact hrow
      · rwa [Nat.add_comm j, ← Nat.add_assoc]

omit hempty

/-! ## Sides -/

/-- The lowest of the bits in front of the others. -/
theorem shiftLeft_bits (i k l : Nat) :
    (i % 2) <<< l ||| (i / 2 % 2 ^ k) <<< (l + 1) = (i % 2 ^ (k + 1)) <<< l := by
  have hlow : i % 2 ^ (k + 1) = (i / 2 % 2 ^ k) <<< 1 ||| i % 2 := by
    rw [← Nat.shiftLeft_add_eq_or_of_lt (Nat.mod_lt i Nat.two_pos), Nat.shiftLeft_eq, pow_one,
      pow_succ', Nat.mod_mul, Nat.add_comm, Nat.mul_comm]
  rw [hlow, Nat.shiftLeft_or_distrib, ← Nat.shiftLeft_add, Nat.add_comm 1, Nat.or_comm]

/-- Sides and siblings of a position, as the prover collects them. -/
theorem proofLoop_eq {t : MerklePrefixTreeBuilt U} {depth : Nat}
    (ht : ∀ l < depth, ∀ j, t.nodeAt l j = full hashPair leaf l j) :
    ∀ {rounds l i : Nat} {pathElements : List U} {bits : Nat}, l + rounds = depth →
      t.proofLoop rounds l i (pathElements, bits)
        = (pathElements ++ (pathTo hashPair leaf l rounds i).map Prod.snd,
            bits ||| (i % 2 ^ rounds) <<< l)
  | 0, l, i, pathElements, bits, _ => by
      rw [pow_zero, Nat.mod_one, Nat.zero_shiftLeft, Nat.or_zero, pathTo, List.map_nil,
        List.append_nil]
      rfl
  | rounds + 1, l, i, pathElements, bits, hd => by
      have hbit : (if i % 2 = 0 then bits else bits ||| 1 <<< l) = bits ||| (i % 2) <<< l := by
        rcases Nat.mod_two_eq_zero_or_one i with h | h
        · rw [if_pos h, h, Nat.zero_shiftLeft, Nat.or_zero]
        · rw [if_neg (by omega), h]
      rw [MerklePrefixTreeBuilt.proofLoop, proofLoop_eq ht (by omega), hbit, ht l (by omega),
        Nat.or_assoc, shiftLeft_bits, List.append_assoc]
      rfl

/-! ## The full row -/

theorem hashChunks_getElem? : ∀ {nodes : List U} {j : Nat} {a b : U},
    nodes[2 * j]? = some a → nodes[2 * j + 1]? = some b →
      (hashChunks hashPair nodes)[j]? = some (hashPair a b)
  | [], _, _, _, ha, _ => by simp at ha
  | [_], _, _, _, _, hb => by simp at hb
  | x :: y :: rest, 0, a, b, ha, hb => by
      cases ha
      cases hb
      rfl
  | x :: y :: rest, j + 1, a, b, ha, hb => by
      rw [hashChunks, List.getElem?_cons_succ]
      exact hashChunks_getElem? ha hb

/-- The nodes are all of level `l` of a tree with `k` levels above it. -/
structure Row (hashPair : U → U → U) (leaf : Nat → U) (l k : Nat) (nodes : List U) : Prop where
  length : nodes.length = 2 ^ k
  node : ∀ j < 2 ^ k, nodes[j]? = some (full hashPair leaf l j)

/-- One round on a full row: every node has its partner. -/
theorem Row.next {l k : Nat} (h : Row hashPair leaf l (k + 1) nodes) :
    Row hashPair leaf (l + 1) k (hashChunks hashPair nodes) where
  length := by
    rw [hashChunks_length, h.length, pow_succ, Nat.mul_div_cancel _ Nat.two_pos]
  node j hj := by
    have hpow : 2 ^ (k + 1) = 2 * 2 ^ k := pow_succ' 2 k
    exact hashChunks_getElem? (h.node (2 * j) (by omega)) (h.node (2 * j + 1) (by omega))

theorem merkleRootLoop_eq : ∀ {k l : Nat} {nodes : List U}, Row hashPair leaf l k nodes →
    merkleRootLoop hashPair nodes = some (full hashPair leaf (l + k) 0)
  | 0, l, nodes, h => by
      obtain ⟨root, rfl⟩ := List.length_eq_one_iff.mp h.length
      rw [merkleRootLoop]
      exact h.node 0 Nat.one_pos
  | k + 1, l, nodes, h => by
      have hrec := merkleRootLoop_eq h.next
      have hlen := h.length
      have htwo : 2 ≤ nodes.length := by
        have := Nat.two_pow_pos k
        rw [hlen, pow_succ]
        omega
      obtain _ | ⟨a, _ | ⟨b, rest⟩⟩ := nodes
      · simp at htwo
      · simp at htwo
      · rw [merkleRootLoop, hrec, Nat.add_assoc, Nat.add_comm 1]

theorem merkleProofLoop_eq : ∀ {k l i : Nat} {nodes : List U}, Row hashPair leaf l k nodes →
    i < 2 ^ k → ∃ bits, merkleProofLoop hashPair k nodes i
      = some ((pathTo hashPair leaf l k i).map Prod.snd, bits) ∧
        ∀ acc pos, (bits.zipIdx pos).foldl (fun sides b => sides ||| b.1 <<< b.2) acc
          = acc ||| (i % 2 ^ k) <<< pos
  | 0, l, i, nodes, _, _ => by
      refine ⟨[], rfl, fun acc pos => ?_⟩
      rw [pow_zero, Nat.mod_one, Nat.zero_shiftLeft, Nat.or_zero]
      rfl
  | k + 1, l, i, nodes, h, hi => by
      have hpow : 2 ^ (k + 1) = 2 * 2 ^ k := pow_succ' 2 k
      obtain ⟨bits, hrec, hfold⟩ := merkleProofLoop_eq (i := i / 2) h.next (by omega)
      have hsib : (if i % 2 = 0 then i + 1 else i - 1) = i ^^^ 1 := by
        split
        · rename_i heven
          exact (Nat.xor_one_of_even (Nat.even_iff.mpr heven)).symm
        · rename_i hodd
          exact (Nat.xor_one_of_odd (Nat.odd_iff.mpr (by omega))).symm
      have hbound : (if i % 2 = 0 then i + 1 else i - 1) < 2 ^ (k + 1) := by
        split <;> omega
      have hnode := h.node _ hbound
      refine ⟨(i &&& 1) :: bits, ?_, fun acc pos => ?_⟩
      · rw [merkleProofLoop, hnode, hrec, hsib]
        rfl
      · rw [List.zipIdx_cons, List.foldl_cons, hfold, Nat.and_one_is_mod, Nat.or_assoc,
          shiftLeft_bits]

theorem isPowerOfTwo_two_pow (k : Nat) : isPowerOfTwo (2 ^ k) := by
  refine ⟨(Nat.two_pow_pos k).ne', ?_⟩
  rw [Nat.log2_two_pow]

/-- A row of leaves, and padding up to its end. -/
theorem row_of_leaves {leaves : List U} {zero : U} {k : Nat} (hfit : leaves.length ≤ 2 ^ k) :
    Row hashPair (padded leaves zero) 0 k
      (leaves ++ List.replicate (2 ^ k - leaves.length) zero) where
  length := by
    rw [List.length_append, List.length_replicate]
    omega
  node j hj := by
    by_cases hin : j < leaves.length
    · rw [List.getElem?_append_left hin, List.getElem?_eq_getElem hin]
      exact congrArg some (padded_of_lt hin).symm
    · have hout : leaves.length ≤ j := Nat.le_of_not_lt hin
      rw [List.getElem?_append_right hout, List.getElem?_replicate, if_pos (by omega)]
      exact congrArg some (padded_of_le hout).symm

/-! ## Siblings -/

@[simp] theorem pathTo_length (leaf : Nat → U) :
    ∀ l k i, (pathTo hashPair leaf l k i).length = k
  | _, 0, _ => rfl
  | l, k + 1, i => congrArg Nat.succ (pathTo_length leaf (l + 1) k (i / 2))

theorem pathTo_follows (leaf : Nat → U) : ∀ l k i, Follows i (pathTo hashPair leaf l k i)
  | _, 0, _ => fun _ h => absurd h (Nat.not_lt_zero _)
  | l, k + 1, i => by
      rintro (_ | j) hj
      · exact (Nat.testBit_zero i).symm
      · rw [Nat.testBit_succ]
        exact pathTo_follows leaf (l + 1) k (i / 2) j (Nat.lt_of_succ_lt_succ hj)

/-- With the siblings of its position a node climbs to the nodes above it. -/
theorem climb_pathTo (leaf : Nat → U) : ∀ l k i,
    climb hashPair (pathTo hashPair leaf l k i) (full hashPair leaf l i)
      = full hashPair leaf (l + k) (i / 2 ^ k)
  | _, 0, i => by
      rw [pow_zero, Nat.div_one]
      rfl
  | l, k + 1, i => by
      have hrec := climb_pathTo leaf (l + 1) k (i / 2)
      rw [full_above, Nat.div_div_eq_div_mul, ← pow_succ', Nat.add_assoc, Nat.add_comm 1 k] at hrec
      rw [pathTo, climb, ← hrec]
      by_cases hodd : i % 2 = 1
      · rw [decide_eq_true hodd, if_pos rfl, Nat.xor_one_of_odd (Nat.odd_iff.mpr hodd),
          show i - 1 = 2 * (i / 2) by omega, show 2 * (i / 2) + 1 = i by omega]
      · rw [decide_eq_false hodd, if_neg Bool.false_ne_true,
          Nat.xor_one_of_even (Nat.even_iff.mpr (by omega)), show 2 * (i / 2) = i by omega]

/-! ## The tree of a prefix -/

namespace MerklePrefixTree

variable (t : MerklePrefixTree U hashPair)

/-- The leaves of the whole tree. -/
def leafAt : Nat → U := padded t.leaves (t.empty 0)

theorem root_eq : t.root = full hashPair t.leafAt t.depth 0 := by
  have hroot : t.root = full hashPair t.leafAt (0 + t.depth) 0 := rootFrom_eq t.empty_succ
    (rfl : Level hashPair t.leafAt (t.empty 0) 0 t.leaves)
  rwa [Nat.zero_add] at hroot

theorem build_level {j : Nat} (hj : j ≤ t.depth) :
    ∃ row, t.build.levels[j]? = some row ∧ Level hashPair t.leafAt (t.empty j) j row := by
  have hrow := buildFrom_level (l := 0) t.empty_succ
    (rfl : Level hashPair t.leafAt (t.empty 0) 0 t.leaves) hj
  rwa [Nat.zero_add] at hrow

theorem build_nodeAt {l : Nat} (hl : l < t.depth) (j : Nat) :
    t.build.nodeAt l j = full hashPair t.leafAt l j := by
  obtain ⟨row, hrow, hlevel⟩ := t.build_level hl.le
  have hget : t.build.levels.getD l [] = row := by
    rw [List.getD_eq_getElem?_getD, hrow, Option.getD_some]
  rw [MerklePrefixTreeBuilt.nodeAt, hget]
  exact congrFun hlevel j

theorem build_root : t.build.root = full hashPair t.leafAt t.depth 0 := by
  obtain ⟨row, hrow, hlevel⟩ := t.build_level le_rfl
  show (t.build.levels[t.depth]?.bind List.head?).getD (t.empty t.depth) = _
  rw [hrow]
  exact hlevel.head

theorem build_leafCount : t.build.leafCount = max 1 t.leaves.length := by
  obtain ⟨rounds, hrounds⟩ : ∃ rounds, t.depth = rounds + 1 :=
    Nat.exists_eq_add_of_le' t.depth_pos
  rw [MerklePrefixTreeBuilt.leafCount, build, hrounds, buildFrom]
  show (filled (t.empty 0) t.leaves).length = _
  rw [filled]
  split
  · rename_i hempty
    rw [List.isEmpty_iff.mp hempty]
    rfl
  · rename_i hne
    have := List.length_pos_iff.mpr fun h => hne (List.isEmpty_iff.mpr h)
    omega

/-- The proof of a position: its siblings in the whole tree. -/
theorem build_proof (index : Nat) : t.build.proof index
    = if index < max 1 t.leaves.length then
        .ok ⟨(pathTo hashPair t.leafAt 0 t.depth index).map Prod.snd, index % 2 ^ t.depth, t.root,
          t.depth⟩
      else .error (.leafIndexOutOfRange index (max 1 t.leaves.length)) := by
  rw [MerklePrefixTreeBuilt.proof, build_leafCount]
  by_cases hin : index < max 1 t.leaves.length
  · rw [if_neg (Nat.not_le.mpr hin), if_pos hin]
    have hloop : t.build.proofLoop t.depth 0 index ([], 0) = _ :=
      proofLoop_eq (fun l hl j => t.build_nodeAt hl j) (Nat.zero_add t.depth)
    rw [Nat.zero_or, Nat.shiftLeft_zero, List.nil_append] at hloop
    show Except.ok (MerkleProof.mk (t.build.proofLoop t.depth 0 index ([], 0)).1
      (t.build.proofLoop t.depth 0 index ([], 0)).2 t.build.root t.depth) = _
    rw [hloop, build_root, root_eq]
  · rw [if_pos (Nat.le_of_not_lt hin), if_neg hin]

end MerklePrefixTree

/-- `MerklePrefixTree::new` gives a tree of the leaves. -/
theorem MerklePrefixTree.new_ok {zero : U} {depth : Nat} {leaves : List U}
    {t : MerklePrefixTree U hashPair}
    (hnew : MerklePrefixTree.new hashPair zero depth leaves = .ok t) :
    t.depth = depth ∧ t.leaves = leaves ∧ t.empty 0 = zero := by
  rw [MerklePrefixTree.new] at hnew
  split at hnew
  · cases hnew
  · cases hnew
    exact ⟨rfl, rfl, rfl⟩

theorem MerklePrefixTree.new_of_depth (hashPair : U → U → U) (zero : U) {depth : Nat}
    (hpos : 1 ≤ depth) (hle : depth ≤ 32) (leaves : List U) :
    ∃ t, MerklePrefixTree.new hashPair zero depth leaves = .ok t := by
  rw [MerklePrefixTree.new, dif_neg (by omega)]
  exact ⟨_, rfl⟩

/-- The tree over a prefix and the full row agree: one root, and the same
siblings and sides for each leaf; a proof of anything else is refused.

Both are compared with the row of leaves that the blanks fill up (`Row`): the
loops of the plain tree go up it level by level, the prefix tree stops where
only blanks are left. -/
theorem prefix_tree_eq_plain (hashPair : U → U → U) (zero : U) (depth : Nat) (leaves : List U)
    (t : MerklePrefixTree U hashPair)
    (hnew : MerklePrefixTree.new hashPair zero depth leaves = .ok t)
    (hfit : leaves.length ≤ 2 ^ depth) :
    merkleRoot hashPair (leaves ++ List.replicate (2 ^ depth - leaves.length) zero)
        = some t.root ∧
      t.build.root = t.root ∧
      ∀ index, (index < max 1 leaves.length → ∃ proof, t.build.proof index = .ok proof ∧
          merkleProof hashPair (leaves ++ List.replicate (2 ^ depth - leaves.length) zero) index
            = some (proof.pathElements, proof.pathIndices, proof.levels) ∧
          proof.pathIndices = index ∧ proof.root = t.root) ∧
        (max 1 leaves.length ≤ index → t.build.proof index
          = .error (.leafIndexOutOfRange index (max 1 leaves.length))) := by
  obtain ⟨rfl, rfl, rfl⟩ := MerklePrefixTree.new_ok hnew
  have hrow : Row hashPair t.leafAt 0 t.depth _ := row_of_leaves hfit
  have hpow := isPowerOfTwo_two_pow t.depth
  refine ⟨?_, t.build_root.trans t.root_eq.symm, fun index => ⟨fun hin => ?_, fun hout => ?_⟩⟩
  · rw [merkleRoot, hrow.length, if_pos hpow, merkleRootLoop_eq hrow, t.root_eq, Nat.zero_add]
  · have hlt : index < 2 ^ t.depth := by
      have := Nat.two_pow_pos t.depth
      omega
    obtain ⟨bits, hloop, hfold⟩ := merkleProofLoop_eq hrow hlt
    have hsides : packBits bits = index := by
      rw [packBits, hfold, Nat.zero_or, Nat.shiftLeft_zero, Nat.mod_eq_of_lt hlt]
    rw [t.build_proof, if_pos hin]
    refine ⟨_, rfl, ?_, Nat.mod_eq_of_lt hlt, rfl⟩
    rw [merkleProof, hrow.length, if_pos hpow, Nat.log2_two_pow, hloop, Option.map_some, hsides,
      Nat.mod_eq_of_lt hlt]
  · rw [t.build_proof, if_neg (Nat.not_lt.mpr hout)]

/-- Three leaves in a tree of depth three. -/
theorem prefix_tree_eq_plain_small : ∃ t, MerklePrefixTree.new (fun a b => 10 * a + b) 7 3 [1, 2, 3]
      = .ok t ∧
    merkleRoot (fun a b => 10 * a + b) ([1, 2, 3] ++ List.replicate (2 ^ 3 - 3) 7)
        = some t.root ∧
      t.build.root = t.root ∧
      ∀ index, (index < max 1 3 → ∃ proof, t.build.proof index = .ok proof ∧
          merkleProof (fun a b => 10 * a + b) ([1, 2, 3] ++ List.replicate (2 ^ 3 - 3) 7) index
            = some (proof.pathElements, proof.pathIndices, proof.levels) ∧
          proof.pathIndices = index ∧ proof.root = t.root) ∧
        (max 1 3 ≤ index → t.build.proof index = .error (.leafIndexOutOfRange index (max 1 3))) :=
  ⟨_, rfl, prefix_tree_eq_plain (fun a b => 10 * a + b) 7 3 [1, 2, 3] _ rfl (by decide)⟩

end Prover

end PrivacyWallet
