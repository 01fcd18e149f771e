import Mathlib.Data.List.FinRange
import PrivacyWallet.Circuits.SparseVerifier

/-!
# The policy transaction

`PolicyTransaction` with the allowlist and the blocklist module around it, as
relations on the signals of the circuit. The number of inputs and outputs and
the depths of the trees are parameters, as they are of the templates. The four
entry points are one relation, `PolicyCircuit`: each module is there if the
signals have its part.

What the transaction proves is read off template by template:

- **amounts** (`outAmount_lt`, `balance_val`): outputs are in range, and the
  amounts balance modulo the field;
- **nullifiers** (`nullifiers_nodup`): no two inputs have the same;
- **notes** (`leaf_eq`): an input with an amount is the leaf at its position of
  any tree with the root, if nothing that the tree and the path hash collides.
-/

namespace PrivacyWallet

namespace Circuits

open PrivacyWallet.BinaryTree

variable {nIns nOuts levels smtLevels : Nat}

/-- The input signals of `PolicyTransaction(nIns, nOuts, levels)`. -/
structure TransactionSignals (nIns nOuts levels : Nat) where
  root : Fr
  publicAmount : Fr
  extDataHash : Fr
  inputNullifier : Fin nIns → Fr
  outputCommitment : Fin nOuts → Fr
  inAmount : Fin nIns → Fr
  inPrivateKey : Fin nIns → Fr
  inBlinding : Fin nIns → Fr
  inPathIndices : Fin nIns → Fr
  inPathElements : Fin nIns → Fin levels → Fr
  outAmount : Fin nOuts → Fr
  outPubkey : Fin nOuts → Fr
  outBlinding : Fin nOuts → Fr

namespace TransactionSignals

variable (P : Permutation) (w : TransactionSignals nIns nOuts levels)

/-- The output signal `inPublicKey`. -/
def inPublicKey (tx : Fin nIns) : Fr := P.keypair (w.inPrivateKey tx)

/-- `inCommitmentHasher[tx].out` -/
def inCommitment (tx : Fin nIns) : Fr :=
  P.commitment (w.inAmount tx) (w.inPublicKey P tx) (w.inBlinding tx)

/-- `inNullifierHasher[tx].out` -/
def inNullifier (tx : Fin nIns) : Fr :=
  P.nullifier (w.inPrivateKey tx) (w.inCommitment P tx) (w.inPathIndices tx)

/-- `outCommitmentHasher[tx].out` -/
def outCommitment (tx : Fin nOuts) : Fr :=
  P.commitment (w.outAmount tx) (w.outPubkey tx) (w.outBlinding tx)

/-- The pairs that the tree of an input hashes. -/
def treeInputs (tx : Fin nIns) : List (Fr × Fr) :=
  climbInputs P.compress (pathOf (w.inPathIndices tx).val (w.inPathElements tx))
    (w.inCommitment P tx)

end TransactionSignals

/-- The constraints of `PolicyTransaction(nIns, nOuts, levels)`. -/
structure PolicyTransaction (C : Circomlib) (P : Permutation)
    (w : TransactionSignals nIns nOuts levels) : Prop where
  nullifiers : ∀ tx, w.inNullifier P tx = w.inputNullifier tx
  /-- the root is checked only for an input with an amount -/
  trees : ∀ tx, ∃ root,
    MerkleProof C P levels (w.inCommitment P tx) (w.inPathElements tx) (w.inPathIndices tx)
      root ∧ C.ForceEqualIfEnabled (w.inAmount tx) w.root root
  outputs : ∀ tx, w.outCommitment P tx = w.outputCommitment tx
  ranges : ∀ tx, ∃ out, C.Num2Bits 248 (w.outAmount tx) out
  sameNullifiers : ∀ i j, i < j → C.IsEqual (w.inputNullifier i) (w.inputNullifier j) 0
  balance : Bn254Fr.sum (.ofFn w.inAmount) + w.publicAmount = Bn254Fr.sum (.ofFn w.outAmount)

/-- The input signals of `AspMembership(nIns, nMembershipProofs, levels)`
but the public keys. -/
structure MembershipSignals (nIns nMembershipProofs levels : Nat) where
  roots : Fin nIns → Fin nMembershipProofs → Fr
  leaf : Fin nIns → Fin nMembershipProofs → Fr
  blinding : Fin nIns → Fin nMembershipProofs → Fr
  pathElements : Fin nIns → Fin nMembershipProofs → Fin levels → Fr
  pathIndices : Fin nIns → Fin nMembershipProofs → Fr

/-- A leaf of the allowlist. -/
def Permutation.membershipLeaf (P : Permutation) (publicKey blinding : Fr) : Fr :=
  P.hash2 publicKey blinding (.ofNat 0x01)

/-- The constraints of `AspMembership(nIns, nMembershipProofs, levels)`. -/
structure AspMembership {nMembershipProofs : Nat} (C : Circomlib) (P : Permutation)
    (inPublicKey : Fin nIns → Fr) (m : MembershipSignals nIns nMembershipProofs levels) :
    Prop where
  leaves : ∀ tx i, m.leaf tx i = P.membershipLeaf (inPublicKey tx) (m.blinding tx i)
  proofs : ∀ tx i,
    MerkleProof C P levels (m.leaf tx i) (m.pathElements tx i) (m.pathIndices tx i)
      (m.roots tx i)

/-! ## The entry points -/

/-- The signals of an entry point: the transaction with two outputs, and for
each input one proof for the allowlist and one for the blocklist, where the
policy asks for them. -/
structure PolicySignals (nIns levels smtLevels : Nat) where
  core : TransactionSignals nIns 2 levels
  membership : Option (MembershipSignals nIns 1 levels)
  nonMembership : Option (NonMembershipSignals nIns 1 smtLevels)

/-- `PolicyTransactionOpen`, `PolicyTransactionAllowlist`,
`PolicyTransactionBlocklist` and `PolicyTransactionBoth`. -/
structure PolicyCircuit (C : Circomlib) (P : Permutation)
    (w : PolicySignals nIns levels smtLevels) : Prop where
  transaction : PolicyTransaction C P w.core
  membership : ∀ m ∈ w.membership, AspMembership C P (w.core.inPublicKey P) m
  nonMembership : ∀ m ∈ w.nonMembership, AspNonMembership C P (w.core.inPublicKey P) m

/-- The public signals, in the order of the declarations in the template. -/
def PolicySignals.publicSignals (w : PolicySignals nIns levels smtLevels) : List Fr :=
  [w.core.root, w.core.publicAmount, w.core.extDataHash]
    ++ List.ofFn w.core.inputNullifier
    ++ List.ofFn w.core.outputCommitment
    ++ w.membership.elim [] (fun m => List.ofFn fun tx => m.roots tx 0)
    ++ w.nonMembership.elim [] (fun m => List.ofFn fun tx => m.roots tx 0)

/-! ## What the transaction proves -/

namespace PolicyTransaction

variable {C : Circomlib} {P : Permutation} {w : TransactionSignals nIns nOuts levels}

theorem outAmount_lt (hC : C.Documented) (h : PolicyTransaction C P w) (tx : Fin nOuts) :
    (w.outAmount tx).val < 2 ^ 248 := by
  obtain ⟨out, hbits⟩ := h.ranges tx
  exact (hC.num2Bits (by omega) hbits).1

theorem nullifiers_nodup (hC : C.Documented) (h : PolicyTransaction C P w) :
    (List.ofFn w.inputNullifier).Nodup := by
  have hlt : ∀ i j, i < j → w.inputNullifier i ≠ w.inputNullifier j := by
    intro i j hij heq
    have hout := hC.isEqual (h.sameNullifiers i j hij)
    rw [if_pos heq] at hout
    exact Bn254Fr.zero_ne_one hout
  rw [List.nodup_ofFn]
  intro i j heq
  rcases Nat.lt_trichotomy i j with hij | hij | hij
  · exact absurd heq (hlt i j hij)
  · exact Fin.ext hij
  · exact absurd heq.symm (hlt j i hij)

/-- An input with an amount is a leaf of the tree. -/
theorem leaf_eq (hC : C.Documented) (hlevels : levels ≤ 253) (h : PolicyTransaction C P w)
    {leaves : Nat → Fr} {S : Set (Fr × Fr)}
    (hinj : Set.InjOn (fun q : Fr × Fr => P.compress q.1 q.2) S)
    (htree : fullInputs P.compress leaves levels ⊆ S) {tx : Fin nIns}
    (hpath : ∀ q ∈ w.treeInputs P tx, q ∈ S) (hroot : w.root = full P.compress leaves levels 0)
    (hne : w.inAmount tx ≠ 0) : w.inCommitment P tx = leaves (w.inPathIndices tx).val := by
  obtain ⟨root, hproof, heq⟩ := h.trees tx
  rw [← hC.forceEqualIfEnabled heq hne, hroot] at hproof
  exact hproof.leaf_eq hC hlevels hinj htree hpath

/-- The equation on the numbers behind the signals. -/
theorem balance_val (h : PolicyTransaction C P w) :
    ((List.ofFn fun tx => (w.inAmount tx).val).sum + w.publicAmount.val) % bn256Modulus.val
      = (List.ofFn fun tx => (w.outAmount tx).val).sum % bn256Modulus.val := by
  have hval := congrArg Bn254Fr.val h.balance
  rw [Bn254Fr.val_add, Bn254Fr.sum_val, Bn254Fr.sum_val, Nat.mod_add_mod, List.map_ofFn,
    List.map_ofFn] at hval
  exact hval

end PolicyTransaction

end Circuits

end PrivacyWallet
