import PrivacyWallet.Circuits.PolicyTransaction

/-!
# What the circuits accept

With gates that accept what they are documented to accept (`Complete`), the
templates are equivalences, one on top of the other: a Merkle proof is a climb
along the bits of its position (`MerkleProof.iff_climb`), and the transaction is
satisfied exactly if its statement holds (`PolicyTransaction.iff_statement`).
The sparse tree's verifier has its equivalence beside it
(`SMTVerifier.iff_showsAbsent`).
-/

namespace PrivacyWallet

namespace Circuits

open PrivacyWallet.BinaryTree

variable {C : Circomlib} {P : Permutation}

/-! ## Merkle proofs -/

theorem MerkleChain.of_climb (hC : C.Complete) : ∀ (path : List (Bool × Fr)) (cur : Fr),
    MerkleChain C P cur (path.map fun q => (bitSignal q.1, q.2))
      (BinaryTree.climb P.compress path cur)
  | [], _ => rfl
  | (b, sib) :: path, cur => by
      refine ⟨_, _, hC.switcher b cur sib, ?_⟩
      have hrec := MerkleChain.of_climb hC path
        (if b then P.compress sib cur else P.compress cur sib)
      cases b with
      | false => exact hrec
      | true => exact hrec

/-- A Merkle proof is a position in range and a climb to the root. -/
theorem MerkleProof.iff_climb (hC : C.Documented) (hC' : C.Complete) {levels : Nat}
    (hlevels : levels ≤ 253) {leaf pathIndices root : Fr} {pathElements : Fin levels → Fr} :
    MerkleProof C P levels leaf pathElements pathIndices root ↔ pathIndices.val < 2 ^ levels ∧
      root = BinaryTree.climb P.compress (pathOf pathIndices.val pathElements) leaf := by
  refine ⟨fun h => h.climb hC hlevels, ?_⟩
  rintro ⟨hlt, rfl⟩
  refine ⟨_, hC'.num2Bits hlt, ?_⟩
  have hchain := MerkleChain.of_climb (P := P) hC' (pathOf pathIndices.val pathElements) leaf
  rw [pathOf, List.map_ofFn] at hchain
  exact hchain

/-- Signals from a list, as many as there are levels. -/
def elementsOf (levels : Nat) (elements : List Fr) : Fin levels → Fr := fun k => elements.getD k 0

/-! ## Transactions -/

variable {nIns nOuts levels : Nat}

/-- What a transaction states: the inputs with an amount are leaves of the
tree, the nullifiers are theirs and differ, the outputs are in range, and the
amounts balance. -/
structure Statement (P : Permutation) (w : TransactionSignals nIns nOuts levels) : Prop where
  nullifiers : ∀ tx, w.inNullifier P tx = w.inputNullifier tx
  positions : ∀ tx, (w.inPathIndices tx).val < 2 ^ levels
  opens : ∀ tx, w.inAmount tx ≠ 0 →
    climb P.compress (pathOf (w.inPathIndices tx).val (w.inPathElements tx)) (w.inCommitment P tx)
      = w.root
  outputs : ∀ tx, w.outCommitment P tx = w.outputCommitment tx
  ranges : ∀ tx, (w.outAmount tx).val < 2 ^ 248
  distinct : ∀ i j, i < j → w.inputNullifier i ≠ w.inputNullifier j
  balance : Bn254Fr.sum (.ofFn w.inAmount) + w.publicAmount = Bn254Fr.sum (.ofFn w.outAmount)

theorem PolicyTransaction.iff_statement (hC : C.Documented) (hC' : C.Complete)
    (hlevels : levels ≤ 253) {w : TransactionSignals nIns nOuts levels} :
    PolicyTransaction C P w ↔ Statement P w := by
  constructor
  · intro h
    refine ⟨h.nullifiers, fun tx => ?_, fun tx hne => ?_, h.outputs, fun tx => ?_,
      fun i j hij heq => ?_, h.balance⟩
    · obtain ⟨root, hproof, -⟩ := h.trees tx
      exact ((MerkleProof.iff_climb hC hC' hlevels).mp hproof).1
    · obtain ⟨root, hproof, hforce⟩ := h.trees tx
      rw [hC.forceEqualIfEnabled hforce hne]
      exact ((MerkleProof.iff_climb hC hC' hlevels).mp hproof).2.symm
    · obtain ⟨out, hbits⟩ := h.ranges tx
      exact (hC.num2Bits (by omega) hbits).1
    · have hout := hC.isEqual (h.sameNullifiers i j hij)
      rw [if_pos heq] at hout
      exact Bn254Fr.zero_ne_one hout
  · intro h
    refine ⟨h.nullifiers, fun tx => ?_, h.outputs, fun tx => ⟨_, hC'.num2Bits (h.ranges tx)⟩,
      fun i j hij => ?_, h.balance⟩
    · exact ⟨_, (MerkleProof.iff_climb hC hC' hlevels).mpr ⟨h.positions tx, rfl⟩,
        hC'.forceEqualIfEnabled fun hne => (h.opens tx hne).symm⟩
    · have hgate := hC'.isEqual (w.inputNullifier i) (w.inputNullifier j)
      rwa [if_neg (h.distinct i j hij)] at hgate

end Circuits

end PrivacyWallet
