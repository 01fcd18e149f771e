import PrivacyWallet.Circuits.PolicyTransaction
import PrivacyWallet.Lib.Table
import PrivacyWallet.Pool.Conservation

/-!
# The notes behind the circuit's signals

`Pool.PolicyTransaction` is what the balance of all notes rests on: a
relation between a statement and the leaves of a tree. Here it is derived
from the constraints of the circuit.

The circuit speaks of one transaction at a time, and its signals say what is
behind a commitment only for that transaction. A `NoteScheme` has to say it
once for a whole run. It is read off the signals: the first opening of a
commitment and the first private key of an owner make the scheme
(`scheme`). If the hashes of a run do not collide (`CollisionFree`) the
first opening is the only one, so the scheme has every input and output of
every transaction as the circuit has it (`CollisionFree.amount_in`,
`CollisionFree.amount_out`, `CollisionFree.nullifier_in`), and notes have
nullifiers of their own (`CollisionFree.nullifier_injOn`).

A statement whose signals satisfy the circuit then opens over the tree of its
root (`opens_of_circuit`): an input with an amount climbs to the root, and a
climb that hashes nothing but what the tree hashes ends at a leaf
(`CollisionFree.member`).
-/

namespace PrivacyWallet

namespace Pool

open Circuits Notes PrivacyWallet.BinaryTree

variable {nIns levels : Nat} (P : Permutation)

/-! ## Openings and keys -/

/-- What a commitment is made of. -/
structure Opening where
  amount : Fr
  publicKey : Fr
  blinding : Fr
deriving DecidableEq

def Opening.commitment (o : Opening) : Fr := P.commitment o.amount o.publicKey o.blinding

/-- The signals of a transaction with two outputs. -/
abbrev Signals (nIns levels : Nat) : Type := TransactionSignals nIns 2 levels

namespace Signals

variable (w : Signals nIns levels)

def inOpening (tx : Fin nIns) : Opening := ⟨w.inAmount tx, w.inPublicKey P tx, w.inBlinding tx⟩

def outOpening (tx : Fin 2) : Opening := ⟨w.outAmount tx, w.outPubkey tx, w.outBlinding tx⟩

def openings : List Opening := List.ofFn (inOpening P w) ++ List.ofFn (outOpening w)

/-- The commitment of an input, at the position it is spent from. -/
def inNote (tx : Fin nIns) : Note := (w.inCommitment P tx, (w.inPathIndices tx).val)

def inNotes : List Note := List.ofFn (inNote P w)

end Signals

variable (ws : List (Signals nIns levels))

/-- All openings that the transactions use. -/
def openings : List Opening := ws.flatMap (Signals.openings P)

/-- All private keys that they use. -/
def privateKeys : List Fr := ws.flatMap fun w => List.ofFn w.inPrivateKey

def openingOf (c : Fr) : Option Opening :=
  (openings P ws).find? fun o => o.commitment P = c

/-- The private key of an owner, 0 for one who never spends. -/
def ownerKey (publicKey : Fr) : Fr :=
  ((privateKeys ws).find? fun sk => P.keypair sk = publicKey).getD 0

/-- The private key that the nullifiers of a commitment are made with. -/
def keyOf (c : Fr) : Fr := ownerKey P ws ((openingOf P ws c).elim 0 Opening.publicKey)

/-- The notes as the transactions open them. -/
def scheme : NoteScheme where
  amount c := (openingOf P ws c).elim 0 fun o => o.amount.val
  nullifier k := P.nullifier (keyOf P ws k.1) k.1 (.ofNat k.2)

/-! ## Hashes that do not collide -/

/-- The inputs of the wide permutation: commitments, and the nullifiers of
`notes`. -/
def hashed4 (notes : List Note) : List (Fr × Fr × Fr × Fr) :=
  (openings P ws).map (fun o => (o.amount, o.publicKey, o.blinding, .ofNat 0x01))
    ++ notes.map fun k =>
      (k.1, .ofNat k.2, P.signature (keyOf P ws k.1) k.1 (.ofNat k.2), .ofNat 0x02)

/-- The pairs that are hashed in the trees of `leaves` and its prefixes,
and in the proofs of the transactions. -/
def hashedPairs (leaves : List Fr) (zero : Fr) : Set (Fr × Fr) :=
  {q | (∃ l, l <+: leaves ∧ q ∈ fullInputs P.compress (padded l zero) levels) ∨
    ∃ w ∈ ws, ∃ tx, q ∈ w.treeInputs P tx}

/-- No collision in what the transactions and the trees of a run hash, and
the padding leaf is no commitment. -/
structure CollisionFree (leaves : List Fr) (zero : Fr) (notes : List Note) : Prop where
  t4 : Set.InjOn (fun q : Fr × Fr × Fr × Fr => P.t4 q.1 q.2.1 q.2.2.1 q.2.2.2)
    {q | q ∈ hashed4 P ws notes}
  keys : Set.InjOn P.keypair {sk | sk ∈ privateKeys ws}
  pairs : Set.InjOn (fun q : Fr × Fr => P.compress q.1 q.2) (hashedPairs P ws leaves zero)
  blank : ∀ o ∈ openings P ws, o.commitment P ≠ zero

variable {P ws} {leaves : List Fr} {zero : Fr} {notes : List Note}

/-- The opening of a commitment that the scheme finds is the one that the transaction
used. -/
theorem CollisionFree.openingOf (hf : CollisionFree P ws leaves zero notes) {o : Opening}
    (ho : o ∈ openings P ws) : openingOf P ws (o.commitment P) = some o := by
  refine Table.find?_eq_of_unique ho (by simp) fun o' ho' heq => ?_
  have hmem : ∀ o ∈ openings P ws,
      (o.amount, o.publicKey, o.blinding, Bn254Fr.ofNat 0x01) ∈ hashed4 P ws notes :=
    fun o ho => List.mem_append_left _ (List.mem_map_of_mem ho)
  have hsame : o'.commitment P = o.commitment P := of_decide_eq_true heq
  have hinj := hf.t4 (hmem o' ho') (hmem o ho) hsame
  rw [Prod.mk.injEq, Prod.mk.injEq, Prod.mk.injEq] at hinj
  cases o
  cases o'
  obtain ⟨rfl, rfl, rfl, -⟩ := hinj
  rfl

/-- Likewise for the private key of a public key. -/
theorem CollisionFree.ownerKey (hf : CollisionFree P ws leaves zero notes) {sk : Fr}
    (hsk : sk ∈ privateKeys ws) : ownerKey P ws (P.keypair sk) = sk := by
  have hfind : (privateKeys ws).find? (fun sk' => P.keypair sk' = P.keypair sk) = some sk :=
    Table.find?_eq_of_unique hsk (by simp) fun sk' hsk' heq =>
      hf.keys hsk' hsk (of_decide_eq_true heq)
  rw [Pool.ownerKey, hfind, Option.getD_some]

/-! ## The scheme of a transaction -/

section Transaction

variable {w : Signals nIns levels}

theorem inOpening_mem (hw : w ∈ ws) (tx : Fin nIns) : Signals.inOpening P w tx ∈ openings P ws :=
  List.mem_flatMap.mpr ⟨w, hw, List.mem_append_left _ (List.mem_ofFn.mpr ⟨tx, rfl⟩)⟩

theorem outOpening_mem (hw : w ∈ ws) (tx : Fin 2) : Signals.outOpening w tx ∈ openings P ws :=
  List.mem_flatMap.mpr ⟨w, hw, List.mem_append_right _ (List.mem_ofFn.mpr ⟨tx, rfl⟩)⟩

/-- An input is worth to the scheme what the circuit has for it. -/
theorem CollisionFree.amount_in (hf : CollisionFree P ws leaves zero notes) (hw : w ∈ ws)
    (tx : Fin nIns) : (scheme P ws).amount (w.inCommitment P tx) = (w.inAmount tx).val := by
  have hopen := hf.openingOf (inOpening_mem hw tx)
  show ((Pool.openingOf P ws _).elim 0 _) = _
  rw [show w.inCommitment P tx = (Signals.inOpening P w tx).commitment P from rfl, hopen]
  rfl

/-- So is an output. -/
theorem CollisionFree.amount_out (hf : CollisionFree P ws leaves zero notes) (hw : w ∈ ws)
    (tx : Fin 2) : (scheme P ws).amount (w.outCommitment P tx) = (w.outAmount tx).val := by
  have hopen := hf.openingOf (outOpening_mem hw tx)
  show ((Pool.openingOf P ws _).elim 0 _) = _
  rw [show w.outCommitment P tx = (Signals.outOpening w tx).commitment P from rfl, hopen]
  rfl

/-- The nullifier of an input is the nullifier of its note. -/
theorem CollisionFree.nullifier_in (hf : CollisionFree P ws leaves zero notes) (hw : w ∈ ws)
    (tx : Fin nIns) : (scheme P ws).nullifier (Signals.inNote P w tx) = w.inNullifier P tx := by
  have hopen := hf.openingOf (inOpening_mem hw tx)
  have hsk : w.inPrivateKey tx ∈ privateKeys ws :=
    List.mem_flatMap.mpr ⟨w, hw, List.mem_ofFn.mpr ⟨tx, rfl⟩⟩
  have hkey : keyOf P ws (w.inCommitment P tx) = w.inPrivateKey tx := by
    rw [keyOf, show w.inCommitment P tx = (Signals.inOpening P w tx).commitment P from rfl, hopen]
    exact hf.ownerKey hsk
  show P.nullifier (keyOf P ws (w.inCommitment P tx)) _ (.ofNat (w.inPathIndices tx).val) = _
  rw [hkey, Bn254Fr.ofNat_val]
  rfl

/-- Notes at positions below the modulus have their own nullifiers. -/
theorem CollisionFree.nullifier_injOn (hf : CollisionFree P ws leaves zero notes)
    (hsmall : ∀ k ∈ notes, k.2 < bn256Modulus.val) :
    Set.InjOn (scheme P ws).nullifier {k | k ∈ notes} := by
  intro k hk j hj heq
  have hmem : ∀ k ∈ notes, (k.1, Bn254Fr.ofNat k.2,
      P.signature (keyOf P ws k.1) k.1 (.ofNat k.2), Bn254Fr.ofNat 0x02) ∈ hashed4 P ws notes :=
    fun k hk => List.mem_append_right _ (List.mem_map_of_mem hk)
  have hinj := hf.t4 (hmem k hk) (hmem j hj) heq
  rw [Prod.mk.injEq, Prod.mk.injEq] at hinj
  have hidx := congrArg Bn254Fr.val hinj.2.1
  rw [Bn254Fr.val_ofNat, Bn254Fr.val_ofNat, Nat.mod_eq_of_lt (hsmall k hk),
    Nat.mod_eq_of_lt (hsmall j hj)] at hidx
  exact Prod.ext hinj.1 hidx

/-! ## The statement of a transaction -/

/-- The signals are those of the statement that the contract verifies. -/
structure States (w : Signals nIns levels) (proof : Proof) : Prop where
  root : w.root = .fromBytes proof.root
  publicAmount : w.publicAmount = .fromBytes proof.publicAmount
  nullifiers : List.ofFn w.inputNullifier = proof.inputNullifiers.map .fromBytes
  output0 : w.outputCommitment 0 = .fromBytes proof.outputCommitment0
  output1 : w.outputCommitment 1 = .fromBytes proof.outputCommitment1

theorem CollisionFree.total_in (hf : CollisionFree P ws leaves zero notes) (hw : w ∈ ws) :
    total (scheme P ws).amt (Signals.inNotes P w)
      = (List.ofFn fun tx => (w.inAmount tx).val).sum := by
  rw [total, Signals.inNotes, List.map_ofFn]
  exact congrArg (fun f => (List.ofFn f).sum) (funext fun tx => hf.amount_in hw tx)

variable {C : Circomlib} {proof : Proof}

theorem CollisionFree.amount_states (hf : CollisionFree P ws leaves zero notes) (hw : w ∈ ws)
    (hcirc : Circuits.PolicyTransaction C P w) (hs : States w proof) :
    (scheme P ws).amount (.fromBytes proof.outputCommitment0) = (w.outAmount 0).val ∧
      (scheme P ws).amount (.fromBytes proof.outputCommitment1) = (w.outAmount 1).val := by
  rw [← hs.output0, ← hs.output1, ← hcirc.outputs, ← hcirc.outputs]
  exact ⟨hf.amount_out hw 0, hf.amount_out hw 1⟩

/-- An input with an amount is the leaf at its position. -/
theorem CollisionFree.member (hC : C.Documented) (hlevels : levels ≤ 253)
    (hf : CollisionFree P ws leaves zero notes) (hw : w ∈ ws)
    (hcirc : Circuits.PolicyTransaction C P w) {l : List Fr} (hl : l <+: leaves)
    (hroot : w.root = full P.compress (padded l zero) levels 0) (tx : Fin nIns)
    (hne : (w.inAmount tx).val ≠ 0) :
    l[(w.inPathIndices tx).val]? = some (w.inCommitment P tx) := by
  have hleaf := hcirc.leaf_eq hC hlevels hf.pairs (fun q hq => Or.inl ⟨l, hl, hq⟩)
    (fun q hq => Or.inr ⟨w, hw, tx, hq⟩) hroot fun hz => hne (congrArg Bn254Fr.val hz)
  by_cases hlt : (w.inPathIndices tx).val < l.length
  · rw [padded_of_lt hlt] at hleaf
    rw [List.getElem?_eq_getElem hlt, hleaf]
  · rw [padded_of_le (Nat.le_of_not_lt hlt)] at hleaf
    exact absurd hleaf (hf.blank _ (inOpening_mem hw tx))

/-- A statement whose signals satisfy the circuit opens over the tree that
has its root. -/
theorem opens_of_circuit (hC : C.Documented) (hlevels : levels ≤ 253) (hn : nIns ≤ 16)
    (hf : CollisionFree P ws leaves zero notes) (hw : w ∈ ws)
    (hcirc : Circuits.PolicyTransaction C P w) (hs : States w proof) {l : List Fr}
    (hl : l <+: leaves) (hroot : w.root = full P.compress (padded l zero) levels 0)
    (hnotes : ∀ k ∈ Signals.inNotes P w, k ∈ notes) :
    Opens (scheme P ws) {k | k ∈ notes} l proof (Signals.inNotes P w) := by
  obtain ⟨h0, h1⟩ := hf.amount_states hw hcirc hs
  have hnul : (Signals.inNotes P w).map (scheme P ws).nullifier = List.ofFn w.inputNullifier := by
    rw [Signals.inNotes, List.map_ofFn]
    refine congrArg List.ofFn (funext fun tx => ?_)
    exact (hf.nullifier_in hw tx).trans (hcirc.nullifiers tx)
  refine
    { length_le := by rw [Signals.inNotes, List.length_ofFn]; exact hn
      nullifiers := by rw [hnul, hs.nullifiers]
      distinct := by rw [hnul]; exact hcirc.nullifiers_nodup hC
      notes := hnotes
      member := fun k hk hne => ?_
      output0 := by rw [h0]; exact hcirc.outAmount_lt hC 0
      output1 := by rw [h1]; exact hcirc.outAmount_lt hC 1
      balance := ?_ }
  · obtain ⟨tx, rfl⟩ := List.mem_ofFn.mp hk
    refine hf.member hC hlevels hw hcirc hl hroot tx ?_
    rw [← hf.amount_in hw tx]
    exact hne
  · have hbal := hcirc.balance_val
    have hpub : w.publicAmount.val = proof.publicAmount.val % bn256Modulus.val :=
      congrArg Bn254Fr.val hs.publicAmount
    rw [hpub, Nat.add_mod_mod] at hbal
    rw [hf.total_in hw, hbal, h0, h1, List.ofFn_succ, List.ofFn_succ, List.ofFn_zero]
    rfl

end Transaction

end Pool

end PrivacyWallet
