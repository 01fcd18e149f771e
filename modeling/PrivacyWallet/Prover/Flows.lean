import PrivacyWallet.Circuits.Completeness
import PrivacyWallet.Lib.Checks
import PrivacyWallet.Pool.Contract
import PrivacyWallet.Prover.Notes

/-!
# Building a transaction

`transact` of the prover crate: the checks on the request, dummy inputs and
outputs up to two of each, the signals of the circuit, and what the contract is
sent. The random blindings, the encryption of the outputs and the hash of the
external data come from outside.
-/

namespace PrivacyWallet

namespace Prover

open Checks Circuits Planner

/-! ## Requests -/

structure TransactInputNote where
  amount : NoteAmount
  blinding : Fr
  merklePathElements : List Fr
  merklePathIndices : Fr
deriving DecidableEq

/-- `E` are encryption keys. -/
structure TransactOutput (E : Type) where
  amount : NoteAmount
  blinding : Fr
  recipientNotePubkey : Option U256
  recipientEncryptionPubkey : Option E
deriving DecidableEq

structure AspMembershipProof where
  leaf : Fr
  blinding : Fr
  pathElements : List Fr
  pathIndices : Fr
  root : Fr
deriving DecidableEq

structure AspNonMembershipProof where
  key : Fr
  oldKey : Fr
  oldValue : Fr
  isOld0 : Bool
  siblings : List Fr
  root : Fr
deriving DecidableEq

/-- `A` are addresses. -/
structure TransactParams (A E : Type) where
  privKey : U256
  encryptionPubkey : E
  poolRoot : Fr
  extRecipient : A
  extAmount : I128
  inputs : List TransactInputNote
  outputs : List (TransactOutput E)
  membershipProof : Option AspMembershipProof
  nonMembershipProof : Option AspNonMembershipProof
  treeDepth : Nat
  smtDepth : Nat
  policyFlags : UInt32
deriving DecidableEq

structure ExtData (A : Type) where
  recipient : A
  extAmount : I128
  encryptedOutput0 : List UInt8
  encryptedOutput1 : List UInt8
deriving DecidableEq

inductive FlowError where
  | treeDepthZero
  | smtDepthZero
  | membershipProofRequired (flags : UInt32)
  | membershipProofNotAllowed (flags : UInt32)
  | membershipPathLength (expected got : Nat)
  | nonMembershipProofRequired (flags : UInt32)
  | nonMembershipProofNotAllowed (flags : UInt32)
  | nonMembershipSiblingsLength (expected got : Nat)
  | tooManyOutputs (got : Nat)
  | overflowInputs
  | overflowOutputs
  | amountOutOfRange (amount : I128)
  | negationOverflow
  | overflowLhs
  | overflowRhs
  | notBalanced (inputs : NoteAmount) (extAmount : I128) (outputs : NoteAmount)
  | tooManyInputs (got : Nat)
  | inputPathLength (index expected got : Nat)
  | recipientKeys (index : Nat)
  | extAmountOutOfField
  | random
  | encryption
  | hash
deriving DecidableEq

/-- What comes from outside: the blinding of the `k`-th call of
`generate_random_blinding`, `encrypt_output_note` and `hash_ext_data`. -/
structure FlowEnv (A E : Type) where
  randomBlinding : Nat → Except FlowError Fr
  encryptOutputNote : E → NoteAmount → Fr → Except FlowError (List UInt8)
  hashExtData : ExtData A → Except FlowError U256

/-! ## Checks -/

/-- The proof that the policy asks for, of the depth of the tree. -/
def checkProof {α : Type} (required : Bool) (depth : Nat) (length : α → Nat)
    (missing notAllowed : FlowError) (wrongLength : Nat → Nat → FlowError) :
    Option α → Except FlowError (Option α)
  | none => if required then .error missing else .ok none
  | some proof =>
      if required = false then .error notAllowed
      else if length proof ≠ depth then .error (wrongLength depth (length proof))
      else .ok (some proof)

/-- `sum_note_amounts_inputs` and `sum_note_amounts_outputs` -/
def sumNoteAmounts (e : FlowError) (amounts : List NoteAmount) : Except FlowError NoteAmount :=
  amounts.foldlM (fun sum amount => orError e (sum.checkedAdd amount)) .zero

/-- `inputs + ext_amount == outputs`, on amounts without a sign. -/
def balanced (inputsSum outputsSum : NoteAmount) (extAmount : I128) : Except FlowError Bool :=
  if 0 ≤ extAmount.val then do
    let publicNote ← orError (.amountOutOfRange extAmount) (noteOfExt extAmount)
    let lhs ← orError .overflowLhs (inputsSum.checkedAdd publicNote)
    .ok (decide (lhs = outputsSum))
  else do
    let negated ← orError .negationOverflow (ExtAmount.checkedNeg extAmount)
    let publicNote ← orError (.amountOutOfRange negated) (noteOfExt negated)
    let rhs ← orError .overflowRhs (outputsSum.checkedAdd publicNote)
    .ok (decide (inputsSum = rhs))

/-! ## Two inputs and two outputs -/

variable {A E : Type} (env : FlowEnv A E)

/-- `dummy_input` -/
def dummyInput (treeDepth k : Nat) : Except FlowError TransactInputNote := do
  let blinding ← env.randomBlinding k
  .ok { amount := .zero, blinding
        merklePathElements := List.replicate treeDepth 0
        merklePathIndices := 0 }

/-- The inputs with dummies up to two, and how many blindings were drawn. -/
def padInputs (treeDepth : Nat) : List TransactInputNote →
    Except FlowError ((TransactInputNote × TransactInputNote) × Nat)
  | [] => do
      let a ← dummyInput env treeDepth 0
      let b ← dummyInput env treeDepth 1
      .ok ((a, b), 2)
  | [a] => do
      let b ← dummyInput env treeDepth 0
      .ok ((a, b), 1)
  | [a, b] => .ok ((a, b), 0)
  | inputs => .error (.tooManyInputs inputs.length)

def checkPathLength (treeDepth index : Nat) (input : TransactInputNote) :
    Except FlowError Unit :=
  failIf (input.merklePathElements.length ≠ treeDepth)
    (.inputPathLength index treeDepth input.merklePathElements.length)

def dummyOutput (k : Nat) : Except FlowError (TransactOutput E) := do
  let blinding ← env.randomBlinding k
  .ok { amount := .zero, blinding, recipientNotePubkey := none
        recipientEncryptionPubkey := none }

/-- The outputs with dummies up to two. -/
def padOutputs (k : Nat) : List (TransactOutput E) →
    Except FlowError (TransactOutput E × TransactOutput E)
  | [] => do
      let a ← dummyOutput env k
      let b ← dummyOutput env (k + 1)
      .ok (a, b)
  | [a] => do
      let b ← dummyOutput env k
      .ok (a, b)
  | a :: b :: _ => .ok (a, b)

def checkRecipient (index : Nat) (output : TransactOutput E) : Except FlowError Unit :=
  failIf (output.recipientNotePubkey.isSome ≠ output.recipientEncryptionPubkey.isSome)
    (.recipientKeys index)

/-! ## Signals -/

/-- One field for each name that is set. Keys and the hash are numbers of 32
bytes, as they are written. -/
structure CircuitInputs where
  root : Fr
  publicAmount : Fr
  extDataHash : U256
  inputNullifier : Fr × Fr
  outputCommitment : Fr × Fr
  inAmount : Fr × Fr
  inPrivateKey : U256 × U256
  inBlinding : Fr × Fr
  inPathIndices : Fr × Fr
  inPathElements : List Fr × List Fr
  outAmount : Fr × Fr
  outPubkey : U256 × U256
  outBlinding : Fr × Fr
  membershipRoots : Option (Fr × Fr)
  nonMembershipRoots : Option (Fr × Fr)
  membershipProofs : Option (AspMembershipProof × AspMembershipProof)
  nonMembershipProofs : Option (AspNonMembershipProof × AspNonMembershipProof)
deriving DecidableEq

structure PreparedTx where
  poolRoot : Fr
  inputNullifiers : Fr × Fr
  outputCommitments : Fr × Fr
  publicAmountField : Fr
  extDataHashBe : U256
  aspMembershipRoot : Fr
  aspNonMembershipRoot : Fr
deriving DecidableEq

structure TransactArtifacts (A : Type) where
  circuitInputs : CircuitInputs
  extData : ExtData A
  prepared : PreparedTx
deriving DecidableEq

/-- One computation for both slots. -/
def both {α β : Type} (f : α → β) (p : α × α) : β × β := (f p.1, f p.2)

variable (P : Permutation)

/-- The commitment of an input of the sender. -/
def inputCommitment (privKey : U256) (input : TransactInputNote) : Fr :=
  computeCommitment P (fieldOfNote input.amount) (derivePublicKey P privKey) input.blinding

def inputNullifier (privKey : U256) (input : TransactInputNote) : Fr :=
  noteNullifier P privKey (inputCommitment P privKey input) input.merklePathIndices

/-- The key of the recipient, or that of the sender. -/
def outputPubkey (privKey : U256) (output : TransactOutput E) : U256 :=
  output.recipientNotePubkey.getD (derivePublicKey P privKey).toU256

def outputCommitment (privKey : U256) (output : TransactOutput E) : Fr :=
  computeCommitment P (fieldOfNote output.amount) (bytesToScalar (outputPubkey P privKey output))
    output.blinding

def encryptOutput (encryptionPubkey : E) (output : TransactOutput E) :
    Except FlowError (List UInt8) :=
  env.encryptOutputNote (output.recipientEncryptionPubkey.getD encryptionPubkey) output.amount
    output.blinding

/-- The circuit inputs of two inputs and two outputs. -/
def circuitInputs (params : TransactParams A E)
    (inputs : TransactInputNote × TransactInputNote)
    (outputs : TransactOutput E × TransactOutput E) (publicAmount : Fr) (extDataHash : U256) :
    CircuitInputs where
  root := params.poolRoot
  publicAmount
  extDataHash
  inputNullifier := both (inputNullifier P params.privKey) inputs
  outputCommitment := both (outputCommitment P params.privKey) outputs
  inAmount := both (fun input => fieldOfNote input.amount) inputs
  inPrivateKey := (params.privKey, params.privKey)
  inBlinding := both TransactInputNote.blinding inputs
  inPathIndices := both TransactInputNote.merklePathIndices inputs
  inPathElements := both TransactInputNote.merklePathElements inputs
  outAmount := both (fun output => fieldOfNote output.amount) outputs
  outPubkey := both (outputPubkey P params.privKey) outputs
  outBlinding := both TransactOutput.blinding outputs
  membershipRoots := params.membershipProof.map fun proof => (proof.root, proof.root)
  nonMembershipRoots := params.nonMembershipProof.map fun proof => (proof.root, proof.root)
  membershipProofs := params.membershipProof.map fun proof => (proof, proof)
  nonMembershipProofs := params.nonMembershipProof.map fun proof => (proof, proof)

/-! ## The flow -/

/-- `transact` -/
def transact (params : TransactParams A E) : Except FlowError (TransactArtifacts A) := do
  failIf (params.treeDepth = 0) .treeDepthZero
  failIf (params.smtDepth = 0) .smtDepthZero
  let _ ← checkProof (Pool.Policy.requiresMembershipProofs params.policyFlags) params.treeDepth
    (fun proof : AspMembershipProof => proof.pathElements.length)
    (.membershipProofRequired params.policyFlags) (.membershipProofNotAllowed params.policyFlags)
    .membershipPathLength params.membershipProof
  let _ ← checkProof (Pool.Policy.requiresNonMembershipProofs params.policyFlags) params.smtDepth
    (fun proof : AspNonMembershipProof => proof.siblings.length)
    (.nonMembershipProofRequired params.policyFlags)
    (.nonMembershipProofNotAllowed params.policyFlags) .nonMembershipSiblingsLength
    params.nonMembershipProof
  failIf (2 < params.outputs.length) (.tooManyOutputs params.outputs.length)
  let inputsSum ← sumNoteAmounts .overflowInputs (params.inputs.map TransactInputNote.amount)
  let outputsSum ← sumNoteAmounts .overflowOutputs (params.outputs.map TransactOutput.amount)
  let ok ← balanced inputsSum outputsSum params.extAmount
  failIf (ok = false) (.notBalanced inputsSum params.extAmount outputsSum)
  let (inputs, drawn) ← padInputs env params.treeDepth params.inputs
  checkPathLength params.treeDepth 0 inputs.1
  checkPathLength params.treeDepth 1 inputs.2
  let outputs ← padOutputs env drawn params.outputs
  checkRecipient 0 outputs.1
  checkRecipient 1 outputs.2
  let publicAmount ← orError .extAmountOutOfField (fieldOfExt params.extAmount)
  let encryptedOutput0 ← encryptOutput env params.encryptionPubkey outputs.1
  let encryptedOutput1 ← encryptOutput env params.encryptionPubkey outputs.2
  let extData : ExtData A :=
    { recipient := params.extRecipient, extAmount := params.extAmount
      encryptedOutput0, encryptedOutput1 }
  let extDataHashBe ← env.hashExtData extData
  .ok { circuitInputs := circuitInputs P params inputs outputs publicAmount extDataHashBe
        extData
        prepared :=
          { poolRoot := params.poolRoot
            inputNullifiers := both (inputNullifier P params.privKey) inputs
            outputCommitments := both (outputCommitment P params.privKey) outputs
            publicAmountField := publicAmount
            extDataHashBe
            aspMembershipRoot := params.membershipProof.elim 0 AspMembershipProof.root
            aspNonMembershipRoot :=
              params.nonMembershipProof.elim 0 AspNonMembershipProof.root } }

end Prover

end PrivacyWallet
