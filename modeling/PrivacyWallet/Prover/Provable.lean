import Mathlib.Algebra.GroupWithZero.Nat
import PrivacyWallet.Prover.Flows

/-!
# What the prover can prove

A transaction that `transact` built satisfies the circuit exactly if the paths
of its notes lead to the root, the proofs for the allowlist and the blocklist
are such, and its two nullifiers differ (`transact_provable`). Everything else
the circuit asks for is what `transact` checks or computes.

First the run of `transact` is taken apart, once (`transact_built`): what was
checked, which slots are dummies, and what the signals are made of. Then each
part of the circuit is compared with what is known of it:

- **transaction** (`Built.statement_iff`): its keys, nullifiers, commitments and
  ranges hold by construction, the amounts balance because the checked sums do
  (`Built.sum_eq`), a dummy asks for nothing; the paths and the two nullifiers
  remain;
- **allowlist** (`Built.membership_iff`): the proof is there if the policy asks
  for it, and what remains is that it is a path from the leaf of the key;
- **blocklist** (`Built.nonMembership_iff`): likewise, that it shows the
  sender's key absent;
- **public signals** (`Built.publicSignals`): the vector of the contract.
-/

namespace PrivacyWallet

namespace Prover

open Checks Circuits Planner PrivacyWallet.BinaryTree

/-! ## The witness -/

section Pairs

variable {α : Type} (p : α × α)

/-- The signal of a slot. -/
def pick (i : Fin 2) : α := if i.val = 0 then p.1 else p.2

theorem forall_pick {Q : Fin 2 → Prop} (h0 : Q ⟨0, Nat.two_pos⟩) (h1 : Q ⟨1, Nat.one_lt_two⟩) :
    ∀ i, Q i
  | ⟨0, _⟩ => h0
  | ⟨1, _⟩ => h1

@[simp] theorem ofFn_pick : List.ofFn (pick p) = [p.1, p.2] := rfl

end Pairs

namespace CircuitInputs

variable (ci : CircuitInputs)

/-- `to_field_element` of the witness calculator takes only numbers below the
modulus. -/
def Canonical : Prop :=
  ci.extDataHash < bn256Modulus ∧ (ci.inPrivateKey.1 < bn256Modulus ∧
    ci.inPrivateKey.2 < bn256Modulus) ∧ ci.outPubkey.1 < bn256Modulus ∧
      ci.outPubkey.2 < bn256Modulus

instance : Decidable ci.Canonical := inferInstanceAs (Decidable (_ ∧ _))

/-- The signals with the names that are set; nested arrays are row by row. -/
def signals (levels smtLevels : Nat) : PolicySignals 2 levels smtLevels where
  core :=
    { root := ci.root
      publicAmount := ci.publicAmount
      extDataHash := .fromBytes ci.extDataHash
      inputNullifier := pick ci.inputNullifier
      outputCommitment := pick ci.outputCommitment
      inAmount := pick ci.inAmount
      inPrivateKey := fun tx => bytesToScalar (pick ci.inPrivateKey tx)
      inBlinding := pick ci.inBlinding
      inPathIndices := pick ci.inPathIndices
      inPathElements := fun tx => elementsOf levels (pick ci.inPathElements tx)
      outAmount := pick ci.outAmount
      outPubkey := fun tx => bytesToScalar (pick ci.outPubkey tx)
      outBlinding := pick ci.outBlinding }
  membership := ci.membershipProofs.bind fun proofs => ci.membershipRoots.map fun roots =>
    { roots := fun tx _ => pick roots tx
      leaf := fun tx _ => (pick proofs tx).leaf
      blinding := fun tx _ => (pick proofs tx).blinding
      pathElements := fun tx _ => elementsOf levels (pick proofs tx).pathElements
      pathIndices := fun tx _ => (pick proofs tx).pathIndices }
  nonMembership := ci.nonMembershipProofs.bind fun proofs => ci.nonMembershipRoots.map fun roots =>
    { roots := fun tx _ => pick roots tx
      key := fun tx _ => (pick proofs tx).key
      siblings := fun tx _ => elementsOf smtLevels (pick proofs tx).siblings
      oldKey := fun tx _ => (pick proofs tx).oldKey
      oldValue := fun tx _ => (pick proofs tx).oldValue
      isOld0 := fun tx _ => bitSignal (pick proofs tx).isOld0 }

/-- The witness, if the inputs are taken. -/
def witness (levels smtLevels : Nat) : Option (PolicySignals 2 levels smtLevels) :=
  if ci.Canonical then some (ci.signals levels smtLevels) else none

theorem witness_eq_some {levels smtLevels : Nat} {w : PolicySignals 2 levels smtLevels}
    (h : ci.witness levels smtLevels = some w) :
    ci.Canonical ∧ w = ci.signals levels smtLevels := by
  unfold witness at h
  split at h
  · rename_i hc
    exact ⟨hc, (Option.some.inj h).symm⟩
  · cases h

end CircuitInputs

/-- The proof as the contract is sent it. -/
def PreparedTx.toProof (p : PreparedTx) (proof : Pool.Groth16Proof) : Pool.Proof where
  proof
  root := p.poolRoot.toU256
  inputNullifiers := [p.inputNullifiers.1.toU256, p.inputNullifiers.2.toU256]
  outputCommitment0 := p.outputCommitments.1.toU256
  outputCommitment1 := p.outputCommitments.2.toU256
  publicAmount := p.publicAmountField.toU256
  extDataHash := p.extDataHashBe
  aspMembershipRoot := p.aspMembershipRoot.toU256
  aspNonMembershipRoot := p.aspNonMembershipRoot.toU256

/-! ## What `transact` checked -/

variable {A E : Type} {env : FlowEnv A E} {P : Permutation} {params : TransactParams A E}
  {a : TransactArtifacts A}

theorem sumNoteAmounts_ok {e : FlowError} : ∀ {amounts : List NoteAmount} {acc sum : NoteAmount},
    amounts.foldlM (fun sum amount => orError e (sum.checkedAdd amount)) acc = .ok sum →
      sum.val = acc.val + (amounts.map NoteAmount.val).sum
  | [], acc, sum, h => by
      cases h
      rfl
  | x :: amounts, acc, sum, h => by
      rw [List.foldlM_cons] at h
      obtain ⟨acc', hadd, h⟩ := bind_ok.mp h
      have hacc := NoteAmount.checkedAdd_eq_some.mp (orError_ok.mp hadd)
      rw [sumNoteAmounts_ok h, hacc, List.map_cons, List.sum_cons, Nat.add_assoc]

theorem balanced_ok {i o : NoteAmount} {ext : I128} (h : balanced i o ext = .ok true) :
    (i.val : Int) + ext.val = o.val := by
  unfold balanced at h
  split at h
  · obtain ⟨note, hnote, h⟩ := bind_ok.mp h
    obtain ⟨lhs, hlhs, h⟩ := bind_ok.mp h
    have heq : lhs = o := of_decide_eq_true (Except.ok.inj h)
    have hval := noteOfExt_eq_some (orError_ok.mp hnote)
    have hsum := NoteAmount.checkedAdd_eq_some.mp (orError_ok.mp hlhs)
    rw [heq] at hsum
    omega
  · obtain ⟨neg, hneg, h⟩ := bind_ok.mp h
    obtain ⟨note, hnote, h⟩ := bind_ok.mp h
    obtain ⟨rhs, hrhs, h⟩ := bind_ok.mp h
    have heq : i = rhs := of_decide_eq_true (Except.ok.inj h)
    have hnegated := Signed.ofInt?_eq_some.mp (orError_ok.mp hneg)
    have hval := noteOfExt_eq_some (orError_ok.mp hnote)
    have hsum := NoteAmount.checkedAdd_eq_some.mp (orError_ok.mp hrhs)
    rw [← heq] at hsum
    omega

theorem checkProof_ok {α : Type} {required : Bool} {depth : Nat} {length : α → Nat}
    {missing notAllowed : FlowError} {wrongLength : Nat → Nat → FlowError} {proof r : Option α}
    (h : checkProof required depth length missing notAllowed wrongLength proof = .ok r) :
    proof.isSome = required ∧ ∀ p ∈ proof, length p = depth := by
  cases proof with
  | none =>
      cases required with
      | true => cases h
      | false => exact ⟨rfl, nofun⟩
  | some p =>
      cases required with
      | false => cases h
      | true =>
          rw [checkProof, if_neg nofun] at h
          split at h
          · cases h
          · rename_i hlen
            refine ⟨rfl, fun q hq => ?_⟩
            cases hq
            exact not_not.mp hlen

/-- A slot that spends nothing. -/
def IsDummy (input : TransactInputNote) : Prop :=
  input.amount = .zero ∧ input.merklePathIndices = 0

theorem dummyInput_ok {depth k : Nat} {input : TransactInputNote}
    (h : dummyInput env depth k = .ok input) : IsDummy input := by
  obtain ⟨blinding, -, h⟩ := bind_ok.mp h
  cases h
  exact ⟨rfl, rfl⟩

theorem padInputs_ok {depth drawn : Nat} {inputs : List TransactInputNote}
    {slots : TransactInputNote × TransactInputNote}
    (h : padInputs env depth inputs = .ok (slots, drawn)) :
    ∃ dummies, [slots.1, slots.2] = inputs ++ dummies ∧ ∀ d ∈ dummies, IsDummy d := by
  match inputs, h with
  | [], h =>
      obtain ⟨x, hx, h⟩ := bind_ok.mp h
      obtain ⟨y, hy, h⟩ := bind_ok.mp h
      cases h
      exact ⟨[x, y], rfl, List.forall_mem_cons.mpr
        ⟨dummyInput_ok hx, List.forall_mem_singleton.mpr (dummyInput_ok hy)⟩⟩
  | [x], h =>
      obtain ⟨y, hy, h⟩ := bind_ok.mp h
      cases h
      exact ⟨[y], rfl, List.forall_mem_singleton.mpr (dummyInput_ok hy)⟩
  | [x, y], h =>
      cases h
      exact ⟨[], rfl, fun _ hd => absurd hd List.not_mem_nil⟩
  | _ :: _ :: _ :: _, h => cases h

theorem dummyOutput_ok {k : Nat} {output : TransactOutput E}
    (h : dummyOutput env k = .ok output) : output.amount = .zero := by
  obtain ⟨blinding, -, h⟩ := bind_ok.mp h
  cases h
  rfl

theorem padOutputs_ok {k : Nat} {outputs : List (TransactOutput E)}
    {slots : TransactOutput E × TransactOutput E} (hlen : ¬ 2 < outputs.length)
    (h : padOutputs env k outputs = .ok slots) :
    ∃ dummies, [slots.1, slots.2] = outputs ++ dummies ∧ ∀ d ∈ dummies, d.amount = .zero := by
  match outputs, hlen, h with
  | [], _, h =>
      obtain ⟨x, hx, h⟩ := bind_ok.mp h
      obtain ⟨y, hy, h⟩ := bind_ok.mp h
      cases h
      exact ⟨[x, y], rfl, List.forall_mem_cons.mpr
        ⟨dummyOutput_ok hx, List.forall_mem_singleton.mpr (dummyOutput_ok hy)⟩⟩
  | [x], _, h =>
      obtain ⟨y, hy, h⟩ := bind_ok.mp h
      cases h
      exact ⟨[y], rfl, List.forall_mem_singleton.mpr (dummyOutput_ok hy)⟩
  | [x, y], _, h =>
      cases h
      exact ⟨[], rfl, fun _ hd => absurd hd List.not_mem_nil⟩
  | _ :: _ :: _ :: _, hlen, _ =>
      simp at hlen

/-- What a run of `transact` was made of. -/
structure Built (env : FlowEnv A E) (P : Permutation) (params : TransactParams A E)
    (a : TransactArtifacts A) (inputs : TransactInputNote × TransactInputNote)
    (outputs : TransactOutput E × TransactOutput E) : Prop where
  depth_pos : params.treeDepth ≠ 0
  membership : params.membershipProof.isSome
    = Pool.Policy.requiresMembershipProofs params.policyFlags
  nonMembership : params.nonMembershipProof.isSome
    = Pool.Policy.requiresNonMembershipProofs params.policyFlags
  siblings : ∀ proof ∈ params.nonMembershipProof, proof.siblings.length = params.smtDepth
  inputSlots : ∃ dummies, [inputs.1, inputs.2] = params.inputs ++ dummies ∧
    ∀ d ∈ dummies, IsDummy d
  outputSlots : ∃ dummies, [outputs.1, outputs.2] = params.outputs ++ dummies ∧
    ∀ d ∈ dummies, d.amount = .zero
  balance : (((params.inputs.map fun input => input.amount.val).sum : Nat) : Int)
    + params.extAmount.val = ((params.outputs.map fun output => output.amount.val).sum : Nat)
  publicAmount : fieldOfExt params.extAmount = some a.prepared.publicAmountField
  extHash : env.hashExtData a.extData = .ok a.prepared.extDataHashBe
  ext : a.extData.recipient = params.extRecipient ∧ a.extData.extAmount = params.extAmount
  circuit : a.circuitInputs
    = circuitInputs P params inputs outputs a.prepared.publicAmountField a.prepared.extDataHashBe
  prepared : a.prepared =
    { poolRoot := params.poolRoot
      inputNullifiers := both (inputNullifier P params.privKey) inputs
      outputCommitments := both (outputCommitment P params.privKey) outputs
      publicAmountField := a.prepared.publicAmountField
      extDataHashBe := a.prepared.extDataHashBe
      aspMembershipRoot := params.membershipProof.elim 0 AspMembershipProof.root
      aspNonMembershipRoot := params.nonMembershipProof.elim 0 AspNonMembershipProof.root }

theorem transact_built (h : transact env P params = .ok a) :
    ∃ inputs outputs, Built env P params a inputs outputs := by
  obtain ⟨hdepth, h⟩ := failIf_bind.mp h
  obtain ⟨-, h⟩ := failIf_bind.mp h
  obtain ⟨_, hmem, h⟩ := bind_ok.mp h
  obtain ⟨_, hnon, h⟩ := bind_ok.mp h
  obtain ⟨houts, h⟩ := failIf_bind.mp h
  obtain ⟨inputsSum, hin, h⟩ := bind_ok.mp h
  obtain ⟨outputsSum, hout, h⟩ := bind_ok.mp h
  obtain ⟨ok, hbal, h⟩ := bind_ok.mp h
  obtain ⟨hok, h⟩ := failIf_bind.mp h
  obtain ⟨⟨inputs, drawn⟩, hpad, h⟩ := bind_ok.mp h
  obtain ⟨_, -, h⟩ := bind_ok.mp h
  obtain ⟨_, -, h⟩ := bind_ok.mp h
  obtain ⟨outputs, hpad', h⟩ := bind_ok.mp h
  obtain ⟨_, -, h⟩ := bind_ok.mp h
  obtain ⟨_, -, h⟩ := bind_ok.mp h
  obtain ⟨publicAmount, hpublic, h⟩ := bind_ok.mp h
  obtain ⟨enc0, -, h⟩ := bind_ok.mp h
  obtain ⟨enc1, -, h⟩ := bind_ok.mp h
  obtain ⟨hash, hhash, h⟩ := bind_ok.mp h
  cases h
  refine ⟨inputs, outputs, hdepth, (checkProof_ok hmem).1, (checkProof_ok hnon).1,
    (checkProof_ok hnon).2, padInputs_ok hpad, padOutputs_ok houts hpad', ?_,
    orError_ok.mp hpublic, hhash, ⟨rfl, rfl⟩, rfl, rfl⟩
  have htrue : ok = true := by simpa using hok
  have heq := balanced_ok (htrue ▸ hbal)
  have hinputs := sumNoteAmounts_ok hin
  have houtputs := sumNoteAmounts_ok hout
  rw [List.map_map] at hinputs houtputs
  rw [hinputs, houtputs] at heq
  have hzero : NoteAmount.zero.val = 0 := rfl
  rw [hzero, Nat.zero_add, Nat.zero_add] at heq
  exact heq

/-! ## What the circuit still asks for -/

variable {inputs : TransactInputNote × TransactInputNote}
  {outputs : TransactOutput E × TransactOutput E}

/-- What slots and dummies have in common the inputs have. -/
theorem slots_iff {α : Type} {slots : α × α} {items dummies : List α} {Q : α → Prop}
    (h : [slots.1, slots.2] = items ++ dummies) (hdummies : ∀ d ∈ dummies, Q d) :
    (Q slots.1 ∧ Q slots.2) ↔ ∀ item ∈ items, Q item := by
  have hboth : (Q slots.1 ∧ Q slots.2) ↔ ∀ item ∈ [slots.1, slots.2], Q item := by simp
  rw [hboth, h, List.forall_mem_append]
  exact ⟨And.left, fun hitems => ⟨hitems, hdummies⟩⟩

theorem slots_sum {α : Type} {slots : α × α} {items dummies : List α} {f : α → Nat}
    (h : [slots.1, slots.2] = items ++ dummies) (hdummies : ∀ d ∈ dummies, f d = 0) :
    f slots.1 + f slots.2 = (items.map f).sum := by
  have hmap := congrArg (fun l => (l.map f).sum) h
  have hzero : (dummies.map f).sum = 0 :=
    List.sum_eq_zero fun x hx => by
      obtain ⟨d, hd, rfl⟩ := List.mem_map.mp hx
      exact hdummies d hd
  simpa [hzero] using hmap

/-- A path of the circuit from a list of siblings. -/
def leadsTo (P : Permutation) (depth : Nat) (leaf pathIndices : Fr) (pathElements : List Fr)
    (root : Fr) : Prop :=
  climb P.compress (pathOf pathIndices.val (elementsOf depth pathElements)) leaf = root

/-- What `transact` leaves to its caller: positions are positions in the tree,
the paths of notes with an amount lead to the root, the proof for the allowlist
has a leaf of the sender's key, and the one for the blocklist shows that key
absent. -/
structure Provable (P : Permutation) (params : TransactParams A E) : Prop where
  paths : ∀ input ∈ params.inputs, input.merklePathIndices.val < 2 ^ params.treeDepth ∧
    (fieldOfNote input.amount ≠ 0 → leadsTo P params.treeDepth
      (inputCommitment P params.privKey input) input.merklePathIndices
      input.merklePathElements params.poolRoot)
  membership : ∀ proof ∈ params.membershipProof,
    proof.leaf = P.membershipLeaf (derivePublicKey P params.privKey) proof.blinding ∧
      proof.pathIndices.val < 2 ^ params.treeDepth ∧
      leadsTo P params.treeDepth proof.leaf proof.pathIndices proof.pathElements proof.root
  nonMembership : ∀ proof ∈ params.nonMembershipProof,
    proof.key = derivePublicKey P params.privKey ∧
      ShowsAbsent P proof.root proof.siblings proof.oldKey proof.oldValue proof.isOld0 proof.key

theorem Built.sum_eq (h : Built env P params a inputs outputs) :
    Bn254Fr.sum [fieldOfNote inputs.1.amount, fieldOfNote inputs.2.amount]
        + a.prepared.publicAmountField
      = Bn254Fr.sum [fieldOfNote outputs.1.amount, fieldOfNote outputs.2.amount] := by
  obtain ⟨dummies, hslots, hdummies⟩ := h.inputSlots
  obtain ⟨dummies', hslots', hdummies'⟩ := h.outputSlots
  have hin := slots_sum (f := fun input => input.amount.val) hslots fun d hd => by
    rw [(hdummies d hd).1]
    rfl
  have hout := slots_sum (f := fun output => output.amount.val) hslots' fun d hd => by
    rw [hdummies' d hd]
    rfl
  have hpublic := fieldOfExt_eq_some h.publicAmount
  have hbal := h.balance
  rw [← hin, ← hout] at hbal
  refine Bn254Fr.ext_val (Int.ofNat_inj.mp ?_)
  rw [Bn254Fr.val_add, Bn254Fr.sum_val, Bn254Fr.sum_val]
  simp only [List.map_cons, List.map_nil, List.sum_cons, List.sum_nil, Nat.add_zero,
    fieldOfNote_val]
  push_cast at hbal ⊢
  rw [hpublic, Int.emod_add_emod, Int.add_emod_emod, hbal]

theorem Built.statement_iff (h : Built env P params a inputs outputs) :
    Statement P (a.circuitInputs.signals params.treeDepth params.smtDepth).core ↔
      (∀ input ∈ params.inputs, input.merklePathIndices.val < 2 ^ params.treeDepth ∧
        (fieldOfNote input.amount ≠ 0 → leadsTo P params.treeDepth
          (inputCommitment P params.privKey input) input.merklePathIndices
          input.merklePathElements params.poolRoot)) ∧
      a.prepared.inputNullifiers.1 ≠ a.prepared.inputNullifiers.2 := by
  obtain ⟨dummies, hslots, hdummies⟩ := h.inputSlots
  rw [← slots_iff hslots fun d hd => ?_, h.circuit, h.prepared]
  · constructor
    · intro hs
      refine ⟨⟨⟨hs.positions ⟨0, Nat.two_pos⟩, hs.opens ⟨0, Nat.two_pos⟩⟩,
        hs.positions ⟨1, Nat.one_lt_two⟩, hs.opens ⟨1, Nat.one_lt_two⟩⟩, ?_⟩
      exact hs.distinct ⟨0, Nat.two_pos⟩ ⟨1, Nat.one_lt_two⟩ Nat.one_pos
    · rintro ⟨⟨h0, h1⟩, hne⟩
      refine ⟨forall_pick rfl rfl, forall_pick h0.1 h1.1, forall_pick h0.2 h1.2,
        forall_pick rfl rfl, ?_, ?_, h.sum_eq⟩
      · refine forall_pick ?_ ?_
        · show (fieldOfNote outputs.1.amount).val < 2 ^ 248
          rw [fieldOfNote_val]
          exact outputs.1.amount.lt.trans (by norm_num)
        · show (fieldOfNote outputs.2.amount).val < 2 ^ 248
          rw [fieldOfNote_val]
          exact outputs.2.amount.lt.trans (by norm_num)
      · rintro ⟨i, hi⟩ ⟨j, hj⟩ hij
        have hlt : i < j := hij
        obtain rfl : i = 0 := by omega
        obtain rfl : j = 1 := by omega
        exact hne
  · obtain ⟨hamount, hindex⟩ := hdummies d hd
    rw [hamount, hindex]
    exact ⟨Nat.two_pow_pos _, fun hne => absurd rfl hne⟩

theorem Built.membership_iff {C : Circomlib} (hC : C.Documented) (hC' : C.Complete)
    (hlevels : params.treeDepth ≤ 253) (h : Built env P params a inputs outputs) :
    (∀ m ∈ (a.circuitInputs.signals params.treeDepth params.smtDepth).membership,
        AspMembership C P
          ((a.circuitInputs.signals params.treeDepth params.smtDepth).core.inPublicKey P) m) ↔
      ∀ proof ∈ params.membershipProof,
        proof.leaf = P.membershipLeaf (derivePublicKey P params.privKey) proof.blinding ∧
          proof.pathIndices.val < 2 ^ params.treeDepth ∧
          leadsTo P params.treeDepth proof.leaf proof.pathIndices proof.pathElements
            proof.root := by
  rw [h.circuit]
  cases hproof : params.membershipProof with
  | none =>
      have hnone : ((circuitInputs P params inputs outputs a.prepared.publicAmountField
          a.prepared.extDataHashBe).signals params.treeDepth params.smtDepth).membership
          = none := by
        simp [CircuitInputs.signals, circuitInputs, hproof]
      rw [hnone]
      exact ⟨fun _ => nofun, fun _ => nofun⟩
  | some proof =>
      have hsome : ((circuitInputs P params inputs outputs a.prepared.publicAmountField
          a.prepared.extDataHashBe).signals params.treeDepth params.smtDepth).membership
          = some
            { roots := fun tx _ => pick (proof.root, proof.root) tx
              leaf := fun tx _ => (pick (proof, proof) tx).leaf
              blinding := fun tx _ => (pick (proof, proof) tx).blinding
              pathElements := fun tx _ =>
                elementsOf params.treeDepth (pick (proof, proof) tx).pathElements
              pathIndices := fun tx _ => (pick (proof, proof) tx).pathIndices } := by
        simp [CircuitInputs.signals, circuitInputs, hproof]
      rw [hsome]
      constructor
      · intro hall p hp
        cases hp
        have hm := hall _ rfl
        have hpath := (MerkleProof.iff_climb hC hC' hlevels).mp (hm.proofs ⟨0, Nat.two_pos⟩ 0)
        exact ⟨hm.leaves ⟨0, Nat.two_pos⟩ 0, hpath.1, hpath.2.symm⟩
      · intro hall m hm
        cases hm
        obtain ⟨hleaf, hindex, hpath⟩ := hall proof rfl
        have hclimb := (MerkleProof.iff_climb hC hC' hlevels).mpr ⟨hindex, hpath.symm⟩
        exact ⟨forall_pick (fun _ => hleaf) fun _ => hleaf,
          forall_pick (fun _ => hclimb) fun _ => hclimb⟩

/-- Signals made of a list are the list, if there are as many. -/
theorem ofFn_elementsOf {levels : Nat} {elements : List Fr} (h : elements.length = levels) :
    List.ofFn (elementsOf levels elements) = elements := by
  refine List.ext_getElem ?_ fun i hi hi' => ?_
  · rw [List.length_ofFn, h]
  · rw [List.getElem_ofFn, elementsOf, List.getD_eq_getElem _ _ hi']

/-- The bit that `Num2Bits(1)` makes of a bit is the bit. -/
theorem num2Bits_bitSignal {C : Circomlib} (hC : C.Documented) {b : Bool} {out : Fin 1 → Fr}
    (h : C.Num2Bits 1 (bitSignal b) out) : out 0 = bitSignal b := by
  rw [(hC.num2Bits (by decide) h).2 0]
  cases b with
  | false => rfl
  | true => decide

/-- A condition on the bit of a bit is one on the bit. -/
theorem exists_num2Bits_bitSignal {C : Circomlib} (hC : C.Documented) (hC' : C.Complete) {b : Bool}
    {Q : Fr → Prop} :
    (∃ n2b : Fin 1 → Fr, C.Num2Bits 1 (bitSignal b) n2b ∧ Q (n2b 0)) ↔ Q (bitSignal b) := by
  constructor
  · rintro ⟨n2b, hbits, hq⟩
    rwa [num2Bits_bitSignal hC hbits] at hq
  · intro hq
    have hbits : C.Num2Bits 1 (bitSignal b) _ := hC'.num2Bits (by
      cases b with
      | false => decide
      | true => decide)
    refine ⟨_, hbits, ?_⟩
    rwa [num2Bits_bitSignal hC hbits]

/-- The blocklist's part of the circuit asks for one proof, handed to both
inputs: the key is the sender's and the verifier accepts, which it does for the
siblings of an absent key. -/
theorem Built.nonMembership_iff {C : Circomlib} (hC : C.Documented) (hC' : C.Complete)
    (hS : C.SmtDocumented) (hS' : C.SmtComplete) (hsmtLevels : params.smtDepth ≤ 254)
    (h : Built env P params a inputs outputs) :
    (∀ m ∈ (a.circuitInputs.signals params.treeDepth params.smtDepth).nonMembership,
        AspNonMembership C P
          ((a.circuitInputs.signals params.treeDepth params.smtDepth).core.inPublicKey P) m) ↔
      ∀ proof ∈ params.nonMembershipProof,
        proof.key = derivePublicKey P params.privKey ∧
          ShowsAbsent P proof.root proof.siblings proof.oldKey proof.oldValue proof.isOld0
            proof.key := by
  have hsiblings := h.siblings
  rw [h.circuit]
  cases hproof : params.nonMembershipProof with
  | none =>
      have hnone : ((circuitInputs P params inputs outputs a.prepared.publicAmountField
          a.prepared.extDataHashBe).signals params.treeDepth params.smtDepth).nonMembership
            = none := by
        simp [CircuitInputs.signals, circuitInputs, hproof]
      rw [hnone]
      exact ⟨fun _ => nofun, fun _ => nofun⟩
  | some proof =>
      have hsome : ((circuitInputs P params inputs outputs a.prepared.publicAmountField
          a.prepared.extDataHashBe).signals params.treeDepth params.smtDepth).nonMembership
          = some
            { roots := fun tx _ => pick (proof.root, proof.root) tx
              key := fun tx _ => (pick (proof, proof) tx).key
              siblings := fun tx _ => elementsOf params.smtDepth (pick (proof, proof) tx).siblings
              oldKey := fun tx _ => (pick (proof, proof) tx).oldKey
              oldValue := fun tx _ => (pick (proof, proof) tx).oldValue
              isOld0 := fun tx _ => bitSignal (pick (proof, proof) tx).isOld0 } := by
        simp [CircuitInputs.signals, circuitInputs, hproof]
      have hverifier : (∃ n2b : Fin 1 → Fr, C.Num2Bits 1 (bitSignal proof.isOld0) n2b ∧
          SMTVerifier C P params.smtDepth 1 proof.root
            (elementsOf params.smtDepth proof.siblings) proof.oldKey proof.oldValue (n2b 0)
              proof.key proof.key 1) ↔
          ShowsAbsent P proof.root proof.siblings proof.oldKey proof.oldValue proof.isOld0
            proof.key := by
        rw [exists_num2Bits_bitSignal hC hC' (Q := fun bit => SMTVerifier C P params.smtDepth 1
            proof.root (elementsOf params.smtDepth proof.siblings) proof.oldKey proof.oldValue bit
              proof.key proof.key 1),
          SMTVerifier.iff_showsAbsent hC hC' hS hS' hsmtLevels,
          ofFn_elementsOf (hsiblings proof hproof)]
      rw [hsome]
      constructor
      · intro hall p hp
        cases hp
        have hm := hall _ rfl
        exact ⟨hm.keys ⟨0, Nat.two_pos⟩ 0, hverifier.mp (hm.verifiers ⟨0, Nat.two_pos⟩ 0)⟩
      · intro hall m hm
        cases hm
        obtain ⟨hkey, habsent⟩ := hall proof rfl
        have haccepts := hverifier.mpr habsent
        exact ⟨forall_pick (fun _ => hkey) fun _ => hkey,
          forall_pick (fun _ => haccepts) fun _ => haccepts⟩

/-- The signals that are public are the statement that the contract puts to
the verifier. -/
theorem Built.publicSignals (h : Built env P params a inputs outputs) (g : Pool.Groth16Proof) :
    (a.circuitInputs.signals params.treeDepth params.smtDepth).publicSignals
      = Pool.publicInputs (a.prepared.toProof g) params.policyFlags := by
  have hmembership := h.membership
  have hnonMembership := h.nonMembership
  have hroots : ((circuitInputs P params inputs outputs a.prepared.publicAmountField
      a.prepared.extDataHashBe).signals params.treeDepth params.smtDepth).membership.elim []
        (fun m => List.ofFn fun tx => m.roots tx 0)
      = if Pool.Policy.requiresMembershipProofs params.policyFlags = true then
          [params.membershipProof.elim 0 AspMembershipProof.root,
            params.membershipProof.elim 0 AspMembershipProof.root] else [] := by
    rw [← hmembership]
    cases hproof : params.membershipProof <;>
      simp [CircuitInputs.signals, circuitInputs, hproof, pick]
  have hroots' : ((circuitInputs P params inputs outputs a.prepared.publicAmountField
      a.prepared.extDataHashBe).signals params.treeDepth params.smtDepth).nonMembership.elim []
        (fun m => List.ofFn fun tx => m.roots tx 0)
      = if Pool.Policy.requiresNonMembershipProofs params.policyFlags = true then
          [params.nonMembershipProof.elim 0 AspNonMembershipProof.root,
            params.nonMembershipProof.elim 0 AspNonMembershipProof.root] else [] := by
    rw [← hnonMembership]
    cases hproof : params.nonMembershipProof <;>
      simp [CircuitInputs.signals, circuitInputs, hproof, pick]
  rw [h.circuit, PolicySignals.publicSignals, hroots, hroots', h.prepared, Pool.publicInputs]
  simp only [PreparedTx.toProof, Bn254Fr.fromBytes_toU256, List.map_cons, List.map_nil,
    List.length_cons, List.length_nil, List.replicate]
  rfl

theorem Built.circuit_iff {C : Circomlib} (hC : C.Documented) (hC' : C.Complete)
    (hS : C.SmtDocumented) (hS' : C.SmtComplete) (hlevels : params.treeDepth ≤ 253)
    (hsmtLevels : params.smtDepth ≤ 254) (h : Built env P params a inputs outputs) :
    PolicyCircuit C P (a.circuitInputs.signals params.treeDepth params.smtDepth) ↔
      Provable P params ∧ a.prepared.inputNullifiers.1 ≠ a.prepared.inputNullifiers.2 := by
  have hcore := (PolicyTransaction.iff_statement hC hC' hlevels).trans h.statement_iff
  have hmembership := h.membership_iff hC hC' hlevels
  have hnonMembership := h.nonMembership_iff hC hC' hS hS' hsmtLevels
  constructor
  · intro hc
    obtain ⟨hpaths, hne⟩ := hcore.mp hc.transaction
    exact ⟨⟨hpaths, hmembership.mp hc.membership, hnonMembership.mp hc.nonMembership⟩, hne⟩
  · rintro ⟨hp, hne⟩
    exact ⟨hcore.mpr ⟨hp.paths, hne⟩, hmembership.mpr hp.membership,
      hnonMembership.mpr hp.nonMembership⟩

/-- A transaction that was built, and whose inputs the witness calculator
takes, satisfies the circuit exactly if its proofs are such for its notes and
its key and its nullifiers differ; and what is public of it is what the contract
has the verifier check.

The inputs of the circuit are what was built (`transact_built`), so each of its
templates is satisfied by the way its signals were computed, except those about
the caller's proofs and nullifiers (`circuit_iff`). -/
theorem transact_provable (C : Circomlib) (hC : C.Documented) (hC' : C.Complete)
    (hS : C.SmtDocumented) (hS' : C.SmtComplete) (env : FlowEnv A E) (P : Permutation)
    (params : TransactParams A E) (hlevels : params.treeDepth ≤ 253)
    (hsmtLevels : params.smtDepth ≤ 254) (a : TransactArtifacts A)
    (hrun : transact env P params = .ok a)
    (w : PolicySignals 2 params.treeDepth params.smtDepth)
    (hw : a.circuitInputs.witness params.treeDepth params.smtDepth = some w)
    (g : Pool.Groth16Proof) :
    (PolicyCircuit C P w ↔ Provable P params ∧
        a.prepared.inputNullifiers.1 ≠ a.prepared.inputNullifiers.2) ∧
      w.publicSignals = Pool.publicInputs (a.prepared.toProof g) params.policyFlags := by
  obtain ⟨inputs, outputs, h⟩ := transact_built hrun
  obtain ⟨-, rfl⟩ := a.circuitInputs.witness_eq_some hw
  exact ⟨h.circuit_iff hC hC' hS hS' hlevels hsmtLevels, h.publicSignals g⟩

/-! ## A deposit next to a note -/

def linearPermutation : Permutation where
  t2 a b := a + b
  t3 a b c := .ofNat (3 * a.val + 5 * b.val + c.val)
  t4 a b c d := .ofNat (7 * a.val + 11 * b.val + 13 * c.val + 17 * d.val)

def smallEnv : FlowEnv Nat Nat where
  randomBlinding k := .ok (.ofNat (100 + k))
  encryptOutputNote _ _ blinding := .ok [UInt8.ofNat blinding.val]
  hashExtData _ := .ok (U256.fromParts 0 0 0 9)

def smallKey : U256 := U256.fromParts 0 0 0 6

theorem smallAmount_lt : 5 < 2 ^ 128 := by norm_num

theorem smallSum_lt : 7 < 2 ^ 128 := by norm_num

def smallNote : TransactInputNote where
  amount := ⟨5, smallAmount_lt⟩
  blinding := .ofNat 8
  merklePathElements := [.ofNat 1]
  merklePathIndices := .ofNat 1

def smallMembership : AspMembershipProof where
  leaf := linearPermutation.membershipLeaf (derivePublicKey linearPermutation smallKey) (.ofNat 4)
  blinding := .ofNat 4
  pathElements := [.ofNat 2]
  pathIndices := .ofNat 1
  root := climb linearPermutation.compress [(true, .ofNat 2)]
    (linearPermutation.membershipLeaf (derivePublicKey linearPermutation smallKey) (.ofNat 4))

/-- In the sparse tree, another key is alone where the path of the key ends. -/
def smallNonMembership : AspNonMembershipProof where
  key := derivePublicKey linearPermutation smallKey
  oldKey := .ofNat 33
  oldValue := .ofNat 1
  isOld0 := false
  siblings := [.ofNat 5, 0]
  root := linearPermutation.smtDigests.climb frKeying (derivePublicKey linearPermutation smallKey) 0
    [.ofNat 5] (linearPermutation.smtHash1 (.ofNat 33) (.ofNat 1))

/-- A note of `5` and a deposit of `2` make a note of `7`, in a pool with both
lists. -/
def smallParams : TransactParams Nat Nat where
  privKey := smallKey
  encryptionPubkey := 11
  poolRoot := .ofNat 389
  extRecipient := 12
  extAmount := .ofU128 2
  inputs := [smallNote]
  outputs := [⟨⟨7, smallSum_lt⟩, .ofNat 21, none, none⟩]
  membershipProof := some smallMembership
  nonMembershipProof := some smallNonMembership
  treeDepth := 1
  smtDepth := 2
  policyFlags := 3

theorem smallParams_provable : Provable linearPermutation smallParams where
  paths input hinput := by
    cases List.mem_singleton.mp hinput
    refine ⟨by decide, fun _ => ?_⟩
    unfold leadsTo
    decide +kernel
  membership proof hproof := by
    cases hproof
    refine ⟨rfl, by decide, ?_⟩
    unfold leadsTo
    decide +kernel
  nonMembership proof hproof := by
    cases hproof
    exact ⟨rfl, { last := by decide, other := fun _ => by decide, leads := by decide +kernel }⟩

theorem smallParams_built : ∃ a w, transact smallEnv linearPermutation smallParams = .ok a ∧
    a.circuitInputs.witness 1 2 = some w ∧
      a.prepared.inputNullifiers.1 ≠ a.prepared.inputNullifiers.2 := by
  obtain ⟨a, ha, hc, hne⟩ : ∃ a, transact smallEnv linearPermutation smallParams = .ok a ∧
      a.circuitInputs.Canonical ∧
        a.prepared.inputNullifiers.1 ≠ a.prepared.inputNullifiers.2 :=
    ⟨_, rfl, by decide +kernel, by decide +kernel⟩
  exact ⟨a, _, ha, if_pos hc, hne⟩

theorem transact_provable_small : ∃ a w, transact smallEnv linearPermutation smallParams = .ok a ∧
    a.circuitInputs.witness 1 2 = some w ∧ PolicyCircuit .plain linearPermutation w := by
  obtain ⟨a, w, ha, hw, hne⟩ := smallParams_built
  have h := transact_provable .plain Circomlib.plain_documented Circomlib.plain_complete
    Circomlib.plain_smtDocumented Circomlib.plain_smtComplete smallEnv linearPermutation
    smallParams (by decide) (by decide) a ha w hw
    ⟨Vector.replicate 64 0, Vector.replicate 128 0, Vector.replicate 64 0⟩
  exact ⟨a, w, ha, hw, h.1.mpr ⟨smallParams_provable, hne⟩⟩

end Prover

end PrivacyWallet
