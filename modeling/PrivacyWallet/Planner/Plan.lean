import PrivacyWallet.Planner.Combination

/-!
# Plans

`plan` turns the chosen notes into a chain of transactions with at most two
inputs each: every transaction but the last merges what was gathered so far
with the next note, and the last one spends. `PlannedStep::resolve` finds the
inputs of a step in the wallet, a merged note by its amount.
-/

namespace PrivacyWallet

namespace Planner

/-- `F` is the type of field elements. -/
structure SpendableNote (F : Type) where
  commitment : F
  amount : NoteAmount
deriving DecidableEq

/-- Without a commitment if the note does not exist at the time of planning. -/
structure StepNote (F : Type) where
  commitment : Option F
  amount : NoteAmount
deriving DecidableEq

inductive StepAction where
  | consolidate (output : NoteAmount)
  | final (outputs : NoteAmount × Option NoteAmount)
deriving DecidableEq

structure PlannedStep (F : Type) where
  inputs : StepNote F × Option (StepNote F)
  action : StepAction
deriving DecidableEq

variable {F : Type}

/-- The step is the last of a plan. -/
def PlannedStep.IsFinal (step : PlannedStep F) : Prop := ∃ outputs, step.action = .final outputs

instance (step : PlannedStep F) : Decidable step.IsFinal :=
  match h : step.action with
  | .final outputs => .isTrue ⟨outputs, h⟩
  | .consolidate _ => .isFalse fun ⟨_, h'⟩ => by simp [h] at h'

/-- A plan ends with a final step. -/
structure TransactionPlan (F : Type) where
  steps : List (PlannedStep F)
  final : ∃ step, steps.getLast? = some step ∧ step.IsFinal

/-- `TransactionPlan::assemble` -/
def TransactionPlan.assemble (steps : List (PlannedStep F)) : Option (TransactionPlan F) :=
  match h : steps.getLast? with
  | some step => if hf : step.IsFinal then some ⟨steps, step, h, hf⟩ else none
  | none => none

def StepNote.fromSpendable (note : SpendableNote F) : StepNote F :=
  ⟨some note.commitment, note.amount⟩

def StepNote.fromAmount (amount : NoteAmount) : StepNote F := ⟨none, amount⟩

/-- The loop of `plan` over the notes after the first; `sum` is what
`prevNote` is worth. -/
def mergeSteps (prevNote : StepNote F) (sum : NoteAmount) :
    List (SpendableNote F) → Except (PlanError F) (List (PlannedStep F))
  | [] => .ok []
  | currentNote :: rest =>
      match sum.checkedAdd currentNote.amount with
      | none => .error .inputAmountOverflow
      | some sum => do
          let steps ← mergeSteps (.fromAmount sum) sum rest
          .ok (⟨(prevNote, some (.fromSpendable currentNote)), .consolidate sum⟩ :: steps)

/-- `steps.last_mut()` is made final. -/
def finishSteps (outputs : NoteAmount × Option NoteAmount) :
    List (PlannedStep F) → List (PlannedStep F)
  | [] => []
  | [step] => [{ step with action := .final outputs }]
  | step :: next :: steps => step :: finishSteps outputs (next :: steps)

/-- The steps for the chosen notes. Without a note there is none to begin
with, which `plan` does not come to. -/
def planSteps (amount : NoteAmount) (change : Option NoteAmount) :
    List (SpendableNote F) → Except (PlanError F) (List (PlannedStep F))
  | [] => .ok []
  | [note] => .ok [⟨(.fromSpendable note, none), .final (amount, change)⟩]
  | note :: next :: rest => do
      let steps ← mergeSteps (.fromSpendable note) note.amount (next :: rest)
      .ok (finishSteps (amount, change) steps)

/-- `plan` -/
def plan (sort : UnstableSort) (amount : NoteAmount) (notes : List (SpendableNote F)) :
    Except (PlanError F) (TransactionPlan F) :=
  if notes.isEmpty = true then .error .noSpendableNotes
  else do
    let combo ← findCombination sort (notes.map SpendableNote.amount) amount
    match combo.selection with
    | none => .error .noCombination
    | some (indices, change) =>
        if transactionLimit < indices.length then
          .error (.tooManyNotes indices.length transactionLimit)
        else
          match indices.find? fun index => decide (notes.length ≤ index) with
          | some index => .error (.noteIndexOutOfRange index)
          | none => do
              let steps ← planSteps amount change (indices.filterMap fun i => notes[i]?)
              match TransactionPlan.assemble steps with
              | some plan => .ok plan
              | none => .error .invalidPlan

/-! ## Finding the inputs -/

variable [DecidableEq F]

/-- `resolve_input_note` -/
def resolveInputNote (input : StepNote F) (notes : List (SpendableNote F))
    (sibling : Option (StepNote F)) : Except (PlanError F) (SpendableNote F) :=
  match input.commitment with
  | some commitment =>
      match notes.find? fun note => decide (note.commitment = commitment) with
      | none => .error (.commitmentNotFound commitment)
      | some note =>
          if note.amount ≠ input.amount then
            .error (.noteAmountMismatch commitment note.amount input.amount)
          else .ok note
  | none =>
      let excluded := sibling.bind StepNote.commitment
      let found := (notes.filter fun note => decide (note.amount = input.amount)).filter
        fun note => decide (excluded ≠ some note.commitment)
      match found with
      | [] => .error (.noNoteForAmount input.amount)
      | [note] => .ok note
      | _ :: _ :: _ => .error (.ambiguousNoteForAmount input.amount)

/-- `PlannedStep::resolve` -/
def PlannedStep.resolve (step : PlannedStep F) (notes : List (SpendableNote F)) :
    Except (PlanError F) (List (SpendableNote F)) := do
  let first ← resolveInputNote step.inputs.1 notes step.inputs.2
  match step.inputs.2 with
  | none => .ok [first]
  | some input => do
      let second ← resolveInputNote input notes (some step.inputs.1)
      .ok [first, second]

end Planner

end PrivacyWallet
