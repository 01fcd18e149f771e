import PrivacyWallet.Lib.Checks
import PrivacyWallet.Planner.Plan
import PrivacyWallet.Soroban.Words

/-!
# Sessions

`SpendSession` steps through a plan: it makes a transaction of each step, and
after each it takes the spent notes out of its copy of the wallet and puts the
merged note in. `execute` is the loop of the client around it.
-/

namespace PrivacyWallet

namespace Planner

open Checks

/-- `K` are note keys, `E` encryption keys. -/
inductive SpendTarget (K E : Type) where
  | transfer (recipientNote : K) (recipientEnc : E)
  | withdraw (recipient : String)
deriving DecidableEq

/-- One call of the pool's `transact`. -/
structure Transact (F K E : Type) where
  inputCommitments : List F
  outputAmounts : NoteAmount × NoteAmount
  extAmount : I128
  extRecipient : String
  outRecipientNotePubkeys : Option K × Option K
  outRecipientEncryptionPubkeys : Option E × Option E
deriving DecidableEq

inductive SpendSessionError (F : Type) where
  | plan (e : PlanError F)
  | complete
  | extAmountOverflow
  | missingWithdrawRecipient
deriving DecidableEq

structure SpendSession (F K E : Type) where
  steps : List (PlannedStep F)
  wallet : List (SpendableNote F)
  poolAddress : String
  target : SpendTarget K E
  stepIndex : Nat
deriving DecidableEq

variable {F K E : Type}

/-- `?` on an error of the planner. -/
def fromPlan {α : Type} : Except (PlanError F) α → Except (SpendSessionError F) α
  | .ok a => .ok a
  | .error e => .error (.plan e)

/-- `validate_target` -/
def validateTarget : SpendTarget K E → Except (SpendSessionError F) Unit
  | .withdraw recipient =>
      if recipient.isEmpty = true then .error .missingWithdrawRecipient else .ok ()
  | .transfer _ _ => .ok ()

/-- `ExtAmount::try_from` -/
def ExtAmount.tryFrom (amount : NoteAmount) : Option I128 := Signed.ofInt? amount.val

/-- `ExtAmount::checked_neg` -/
def ExtAmount.checkedNeg (ext : I128) : Option I128 := Signed.ofInt? (-ext.val)

/-- What leaves the pool when the amount is withdrawn. -/
def withdrawnAmount (amount : NoteAmount) : Except (SpendSessionError F) I128 := do
  let extAmount ← orError .extAmountOverflow (ExtAmount.tryFrom amount)
  orError .extAmountOverflow (ExtAmount.checkedNeg extAmount)

/-- `materialize_step` -/
def materializeStep (step : PlannedStep F) (poolAddress : String) (target : SpendTarget K E)
    (resolvedInputs : List (SpendableNote F)) :
    Except (SpendSessionError F) (Transact F K E) :=
  let inputCommitments := resolvedInputs.map SpendableNote.commitment
  match step.action, target with
  | .consolidate output, _ =>
      .ok { inputCommitments
            outputAmounts := (output, .zero)
            extAmount := 0
            extRecipient := poolAddress
            outRecipientNotePubkeys := (none, none)
            outRecipientEncryptionPubkeys := (none, none) }
  | .final outputs, .transfer recipientNote recipientEnc =>
      -- without change both outputs go to the recipient
      .ok { inputCommitments
            outputAmounts := (outputs.1, outputs.2.getD .zero)
            extAmount := 0
            extRecipient := poolAddress
            outRecipientNotePubkeys :=
              (some recipientNote, if outputs.2.isSome then none else some recipientNote)
            outRecipientEncryptionPubkeys :=
              (some recipientEnc, if outputs.2.isSome then none else some recipientEnc) }
  | .final outputs, .withdraw recipient => do
      let extAmount ← withdrawnAmount outputs.1
      .ok { inputCommitments
            outputAmounts := (outputs.2.getD .zero, .zero)
            extAmount
            extRecipient := recipient
            outRecipientNotePubkeys := (none, none)
            outRecipientEncryptionPubkeys := (none, none) }

variable [DecidableEq F]

/-- `remove_spent` -/
def removeSpent (wallet spent : List (SpendableNote F)) : List (SpendableNote F) :=
  spent.foldl (fun wallet note =>
    wallet.filter fun n => decide (n.commitment ≠ note.commitment)) wallet

namespace SpendSession

/-- `SpendSession::setup` -/
def setup (sort : UnstableSort) (wallet : List (SpendableNote F)) (amount : NoteAmount)
    (poolAddress : String) (target : SpendTarget K E) :
    Except (SpendSessionError F) (SpendSession F K E) := do
  validateTarget target
  let txPlan ← fromPlan (plan sort amount wallet)
  .ok { steps := txPlan.steps, wallet, poolAddress, target, stepIndex := 0 }

variable (s : SpendSession F K E)

/-- `SpendSession::is_done` -/
def isDone : Bool := decide (s.steps.length ≤ s.stepIndex)

/-- `SpendSession::step` -/
def step : Except (SpendSessionError F) (Option (Transact F K E)) :=
  match s.steps[s.stepIndex]? with
  | none => .ok none
  | some step => do
      let resolved ← fromPlan (step.resolve s.wallet)
      let tx ← materializeStep step s.poolAddress s.target resolved
      .ok (some tx)

/-- The session after a step that spent `spent`. -/
def completed (step : PlannedStep F) (spent : List (SpendableNote F))
    (outputCommitments : F × F) : SpendSession F K E :=
  { s with
    wallet := match step.action with
      | .consolidate output => removeSpent s.wallet spent ++ [⟨outputCommitments.1, output⟩]
      | .final _ => removeSpent s.wallet spent
    stepIndex := s.stepIndex + 1 }

/-- `SpendSession::complete_step` -/
def completeStep (outputCommitments : F × F) :
    Except (SpendSessionError F) (SpendSession F K E) :=
  match s.steps[s.stepIndex]? with
  | none => .error .complete
  | some step => do
      let spent ← fromPlan (step.resolve s.wallet)
      .ok (s.completed step spent outputCommitments)

/-- The loop of `PrivatePool::execute` until the plan is complete, for
transactions that all go through; each is proved with its two output
commitments. -/
def execute : SpendSession F K E → List (F × F) →
    Except (SpendSessionError F) (List (Transact F K E) × SpendSession F K E)
  | s, [] => .ok ([], s)
  | s, outputCommitments :: later => do
      match ← s.step with
      | none => .ok ([], s)
      | some tx => do
          let s ← s.completeStep outputCommitments
          let (txs, s) ← execute s later
          .ok (tx :: txs, s)

end SpendSession

end Planner

end PrivacyWallet
