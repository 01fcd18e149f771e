import PrivacyWallet.Planner.Fewest
import PrivacyWallet.Planner.Plan

/-!
# What a plan says

A plan spends the chosen notes, each once, in a chain of transactions that
each balance (`plan_chain`); and with amounts that can be added up there is one
if and only if the limit allows notes enough to reach the amount (`plan_iff`).

- **the choice** (`pickedNotes_of_answers`): `find_combination` works on
  positions with amounts. Positions that were enumerated lead back to their
  notes (`lookup_entries`), and every choice of notes is one of positions
  (`exists_entries`), so what it answers about the fewest entries holds of the
  fewest notes;
- **the chain** (`Gathers`, `Spends`): the steps are described by the recursion
  that makes them - each gathers one more note onto what was merged before, the
  last one pays. Lengths, inputs, balances and the final payment are read off by
  induction on that relation (`Spends.chained`);
- **the existence** (`plan_outcome`): if the amounts of the wallet can be added
  up, no sum on the way overflows (`planSteps_total`), so planning ends in one
  of three ways (`PlanOutcome`): too little in all, too many notes, or a plan.
  The fewest notes decide between the last two.
-/

namespace PrivacyWallet

namespace Planner

open Checks Selection

variable {F : Type} {sort : UnstableSort} {amount : NoteAmount} {notes : List (SpendableNote F)}

/-- What the notes are worth together. -/
abbrev worth (notes : List (SpendableNote F)) : Nat :=
  weight (fun note : SpendableNote F => note.amount.val) notes

/-! ## From positions to notes -/

/-- The entry of a note at a position. -/
def entryOf (p : SpendableNote F × Nat) : Entry := (p.2, p.1.amount)

theorem enumerate_amounts (notes : List (SpendableNote F)) :
    enumerate (notes.map SpendableNote.amount) = notes.zipIdx.map entryOf := by
  rw [enumerate, List.zipIdx_map, List.map_map]
  rfl

theorem total_entries (z : List (SpendableNote F × Nat)) :
    total (z.map entryOf) = worth (z.map Prod.fst) := by
  rw [total, worth, weight, weight, List.map_map, List.map_map]
  rfl

theorem lookup_entry {p : SpendableNote F × Nat} (hp : p ∈ notes.zipIdx) :
    notes[(entryOf p).1]? = some p.1 :=
  List.mem_zipIdx_iff_getElem?.mp hp

/-- Positions that were enumerated lead back to their notes. -/
theorem lookup_entries : ∀ {z : List (SpendableNote F × Nat)}, (∀ p ∈ z, p ∈ notes.zipIdx) →
    ((z.map entryOf).map Prod.fst).filterMap (fun i => notes[i]?) = z.map Prod.fst
  | [], _ => rfl
  | p :: z, h => by
      have hp := lookup_entry (h p (List.mem_cons_self ..))
      have hz := lookup_entries fun q hq => h q (List.mem_cons_of_mem _ hq)
      rw [List.map_cons, List.map_cons, List.filterMap_cons_some hp, hz, List.map_cons]

/-- Entries chosen from the enumeration are those of notes with their
positions. -/
theorem exists_positions {picked : List Entry}
    (h : picked.Subperm (enumerate (notes.map SpendableNote.amount))) :
    ∃ z : List (SpendableNote F × Nat), picked = z.map entryOf ∧ z.Subperm notes.zipIdx := by
  rw [enumerate_amounts] at h
  obtain ⟨s, hperm, hsub⟩ := h
  obtain ⟨z, hz, rfl⟩ := List.sublist_map_iff.mp hsub
  have hcomp : Relation.Comp (fun u b => u = List.map entryOf b) List.Perm picked z := by
    rw [List.eq_map_comp_perm]
    exact hperm.symm
  obtain ⟨z', hpicked, hz'⟩ := hcomp
  exact ⟨z', hpicked, hz'.subperm.trans hz.subperm⟩

/-- And each choice of notes is one of entries. -/
theorem exists_entries {other : List (SpendableNote F)} (h : other.Subperm notes) :
    ∃ es : List Entry, es.Subperm (enumerate (notes.map SpendableNote.amount)) ∧
      total es = worth other ∧ es.length = other.length := by
  obtain ⟨s, hperm, hsub⟩ := h
  rw [← List.zipIdx_map_fst 0 notes] at hsub
  obtain ⟨z, hz, rfl⟩ := List.sublist_map_iff.mp hsub
  refine ⟨z.map entryOf, ?_, ?_, ?_⟩
  · rw [enumerate_amounts]
    exact (hz.map entryOf).subperm
  · rw [total_entries, worth, weight_perm _ hperm]
  · rw [← hperm.length_eq, List.length_map, List.length_map]

/-! ## The chosen notes -/

/-- The notes that a plan spends. -/
structure PickedNotes (notes : List (SpendableNote F)) (amount : NoteAmount)
    (picked : List (SpendableNote F)) (change : Option NoteAmount) : Prop where
  nonempty : picked ≠ []
  subperm : picked.Subperm notes
  worth_eq : worth picked = amount.val + change.elim 0 NoteAmount.val
  fewest : ∀ other : List (SpendableNote F), other ≠ [] → other.Subperm notes →
    amount.val ≤ worth other → picked.length ≤ max 2 other.length
  closest : picked.length = 2 → ∀ other : List (SpendableNote F), other.length = 2 →
    other.Subperm notes → amount.val ≤ worth other → worth picked ≤ worth other
  descending : 3 ≤ picked.length →
    Descending (fun note : SpendableNote F => note.amount.val) picked

/-- What `find_combination` answers, as notes. -/
theorem pickedNotes_of_answers {indices : List Nat} {change : Option NoteAmount}
    (h : Answers (notes.map SpendableNote.amount) amount (some (indices, change))) :
    ∃ picked, PickedNotes notes amount picked change ∧ picked.length = indices.length ∧
      indices.filterMap (fun i => notes[i]?) = picked ∧ ∀ i ∈ indices, i < notes.length := by
  obtain ⟨entries, hchosen, rfl, htotal⟩ := h
  obtain ⟨z, rfl, hz⟩ := exists_positions hchosen.subperm
  have hmem : ∀ p ∈ z, p ∈ notes.zipIdx := fun p hp => hz.subset hp
  have hworth : worth (z.map Prod.fst) = amount.val + change.elim 0 NoteAmount.val := by
    rw [← total_entries, htotal]
  refine ⟨z.map Prod.fst, ⟨?_, ?_, hworth, fun other hne hother hreach => ?_,
    fun htwo other hlen hother hreach => ?_, fun hthree => ?_⟩, by simp, lookup_entries hmem,
    fun i hi => ?_⟩
  · intro hnil
    exact hchosen.nonempty (by simpa using hnil)
  · obtain ⟨s, hperm, hsub⟩ := hz
    rw [← List.zipIdx_map_fst 0 notes]
    exact ⟨s.map Prod.fst, hperm.map _, hsub.map _⟩
  · obtain ⟨es, hes, hsum, hlen⟩ := exists_entries hother
    have hle := hchosen.fewest es (fun hnil => hne (by simpa [hnil] using hlen.symm)) hes
      (hsum ▸ hreach)
    rw [hlen, List.length_map] at hle
    rwa [List.length_map]
  · obtain ⟨es, hes, hsum, hlen'⟩ := exists_entries hother
    have hle := hchosen.closest (by simpa using htwo) es (hlen'.trans hlen) hes (hsum ▸ hreach)
    rwa [total_entries, hsum] at hle
  · have hdesc := hchosen.descending (by simpa using hthree)
    exact List.pairwise_map.mpr (List.pairwise_map.mp hdesc)
  · obtain ⟨e, he, rfl⟩ := List.mem_map.mp hi
    obtain ⟨p, hp, rfl⟩ := List.mem_map.mp he
    exact (List.getElem?_eq_some_iff.mp (lookup_entry (hmem p hp))).1

theorem plan_ok {p : TransactionPlan F} (hrun : plan sort amount notes = .ok p) :
    ∃ picked change, PickedNotes notes amount picked change ∧
      picked.length ≤ transactionLimit ∧ planSteps amount change picked = .ok p.steps := by
  unfold plan at hrun
  split at hrun
  · cases hrun
  obtain ⟨combo, hcombo, hrun⟩ := bind_ok.mp hrun
  have hanswers := findCombination_answers hcombo
  cases hselection : combo.selection with
  | none =>
      rw [hselection] at hrun
      cases hrun
  | some selection =>
      obtain ⟨indices, change⟩ := selection
      rw [hselection] at hrun hanswers
      obtain ⟨picked, hpicked, hlen, hlookup, -⟩ := pickedNotes_of_answers hanswers
      dsimp only at hrun
      split at hrun
      · cases hrun
      rename_i hlimit
      split at hrun
      · cases hrun
      obtain ⟨steps, hsteps, hrun⟩ := bind_ok.mp hrun
      rw [hlookup] at hsteps
      unfold TransactionPlan.assemble at hrun
      split at hrun
      · rename_i plan hassemble
        cases hrun
        refine ⟨picked, change, hpicked, by omega, hsteps.trans ?_⟩
        split at hassemble
        · split at hassemble
          · cases hassemble
            rfl
          · cases hassemble
        · cases hassemble
      · cases hrun

/-! ## The chain of steps -/

/-- The steps that gather `rest` onto `prev` and spend at the end. -/
inductive Gathers (outputs : NoteAmount × Option NoteAmount) :
    StepNote F → List (SpendableNote F) → List (PlannedStep F) → Prop where
  | last {prev : StepNote F} {note : SpendableNote F} :
      Gathers outputs prev [note] [⟨(prev, some (.fromSpendable note)), .final outputs⟩]
  | merge {prev : StepNote F} {note : SpendableNote F} {rest : List (SpendableNote F)}
      {steps : List (PlannedStep F)} {sum : NoteAmount} (hne : rest ≠ [])
      (hsum : sum.val = prev.amount.val + note.amount.val)
      (h : Gathers outputs (.fromAmount sum) rest steps) :
      Gathers outputs prev (note :: rest)
        (⟨(prev, some (.fromSpendable note)), .consolidate sum⟩ :: steps)

theorem gathers_of_merge {outputs : NoteAmount × Option NoteAmount} :
    ∀ {rest : List (SpendableNote F)} {prev : StepNote F} {steps : List (PlannedStep F)},
      rest ≠ [] → mergeSteps prev prev.amount rest = .ok steps →
        Gathers outputs prev rest (finishSteps outputs steps)
  | [], _, _, hne, _ => absurd rfl hne
  | note :: rest, prev, steps, _, hrun => by
      rw [mergeSteps] at hrun
      split at hrun
      · cases hrun
      rename_i sum hadd
      obtain ⟨later, hlater, hrun⟩ := bind_ok.mp hrun
      cases hrun
      cases rest with
      | nil =>
          cases hlater
          exact .last
      | cons next rest =>
          have hrec : Gathers outputs _ (next :: rest) (finishSteps outputs later) :=
            gathers_of_merge (List.cons_ne_nil next rest) hlater
          cases later with
          | nil => cases hrec
          | cons step later =>
              exact .merge (List.cons_ne_nil next rest)
                (NoteAmount.checkedAdd_eq_some.mp hadd) hrec

/-- The steps that spend the notes. -/
inductive Spends (outputs : NoteAmount × Option NoteAmount) :
    List (SpendableNote F) → List (PlannedStep F) → Prop where
  | single {note : SpendableNote F} :
      Spends outputs [note] [⟨(.fromSpendable note, none), .final outputs⟩]
  | chain {note : SpendableNote F} {rest : List (SpendableNote F)}
      {steps : List (PlannedStep F)} (h : Gathers outputs (.fromSpendable note) rest steps) :
      Spends outputs (note :: rest) steps

theorem spends_of_planSteps {change : Option NoteAmount} {picked : List (SpendableNote F)}
    {steps : List (PlannedStep F)} (hne : picked ≠ [])
    (hrun : planSteps amount change picked = .ok steps) : Spends (amount, change) picked steps := by
  match picked, hne, hrun with
  | [], hne, _ => exact absurd rfl hne
  | [note], _, hrun =>
      cases hrun
      exact .single
  | note :: next :: rest, _, hrun =>
      obtain ⟨merged, hmerge, hrun⟩ := bind_ok.mp hrun
      cases hrun
      exact .chain (gathers_of_merge (List.cons_ne_nil next rest) hmerge)

/-- What goes into a step and what comes out of it. -/
def PlannedStep.inputTotal (step : PlannedStep F) : Nat :=
  step.inputs.1.amount.val + step.inputs.2.elim 0 fun note => note.amount.val

def StepAction.outputTotal : StepAction → Nat
  | .consolidate output => output.val
  | .final outputs => outputs.1.val + outputs.2.elim 0 NoteAmount.val

/-- The inputs of a step that exist when the plan is made. -/
def PlannedStep.known (step : PlannedStep F) : List F :=
  step.inputs.1.commitment.toList ++ step.inputs.2.elim [] fun note => note.commitment.toList

/-- The second step takes in what the first one merged. -/
def PlannedStep.Feeds (a b : PlannedStep F) : Prop :=
  ∃ output, a.action = .consolidate output ∧ b.inputs.1 = .fromAmount output

/-- A chain that spends the notes: each is spent in one step, a step takes in
what the one before it merged, every step balances, and the last one pays. -/
structure Chained (outputs : NoteAmount × Option NoteAmount) (picked : List (SpendableNote F))
    (steps : List (PlannedStep F)) : Prop where
  length : steps.length = max 1 (picked.length - 1)
  spent : steps.flatMap PlannedStep.known = picked.map SpendableNote.commitment
  feeds : steps.IsChain PlannedStep.Feeds
  balanced : ∀ step ∈ steps, step.inputTotal = step.action.outputTotal
  pays : ∃ step, steps.getLast? = some step ∧ step.action = .final outputs

variable {outputs : NoteAmount × Option NoteAmount} {prev : StepNote F}
  {rest : List (SpendableNote F)} {steps : List (PlannedStep F)}

theorem Gathers.length_eq (h : Gathers outputs prev rest steps) : steps.length = rest.length := by
  induction h with
  | last => rfl
  | merge _ _ _ ih => rw [List.length_cons, List.length_cons, ih]

theorem Gathers.known_eq (h : Gathers outputs prev rest steps) :
    steps.flatMap PlannedStep.known
      = prev.commitment.toList ++ rest.map SpendableNote.commitment := by
  induction h with
  | last =>
      rw [List.flatMap_singleton]
      rfl
  | merge _ _ _ ih =>
      rw [List.flatMap_cons, ih]
      simp [PlannedStep.known, StepNote.fromSpendable, StepNote.fromAmount]

theorem Gathers.head (h : Gathers outputs prev rest steps) :
    ∃ step later, steps = step :: later ∧ step.inputs.1 = prev := by
  cases h with
  | last => exact ⟨_, _, rfl, rfl⟩
  | merge => exact ⟨_, _, rfl, rfl⟩

theorem Gathers.feeds (h : Gathers outputs prev rest steps) :
    steps.IsChain PlannedStep.Feeds := by
  induction h with
  | last => exact .singleton _
  | @merge prev note rest steps sum _ _ h ih =>
      obtain ⟨step, later, rfl, hfirst⟩ := h.head
      exact .cons_cons ⟨sum, rfl, hfirst⟩ ih

theorem Gathers.balanced (h : Gathers outputs prev rest steps)
    (hworth : prev.amount.val + worth rest = (StepAction.final outputs).outputTotal) :
    ∀ step ∈ steps, step.inputTotal = step.action.outputTotal := by
  induction h with
  | @last prev note =>
      intro step hstep
      obtain rfl := List.mem_singleton.mp hstep
      have hone : worth [note] = note.amount.val := by simp
      rw [hone] at hworth
      exact hworth
  | @merge prev note rest steps sum _ hsum _ ih =>
      intro step hstep
      rcases List.mem_cons.mp hstep with rfl | hstep
      · exact hsum.symm
      · refine ih ?_ step hstep
        have hcons : worth (note :: rest) = note.amount.val + worth rest := by simp
        rw [hcons] at hworth
        show sum.val + worth rest = _
        omega

theorem Gathers.pays (h : Gathers outputs prev rest steps) :
    ∃ step, steps.getLast? = some step ∧ step.action = .final outputs := by
  induction h with
  | last => exact ⟨_, rfl, rfl⟩
  | merge _ _ h ih =>
      obtain ⟨step, hstep, hpays⟩ := ih
      obtain ⟨_, later, rfl, -⟩ := h.head
      exact ⟨step, (List.getLast?_cons_cons ..).trans hstep, hpays⟩

theorem Spends.chained {picked : List (SpendableNote F)} (h : Spends outputs picked steps)
    (hworth : worth picked = (StepAction.final outputs).outputTotal) :
    Chained outputs picked steps := by
  cases h with
  | @single note =>
      refine ⟨rfl, rfl, .singleton _, fun step hstep => ?_, _, rfl, rfl⟩
      obtain rfl := List.mem_singleton.mp hstep
      have hone : worth [note] = note.amount.val := by simp
      rw [hone] at hworth
      exact hworth
  | @chain note rest steps h =>
      have hlen := h.length_eq
      obtain ⟨_, later, rfl, -⟩ := h.head
      rw [List.length_cons] at hlen
      refine ⟨?_, h.known_eq, h.feeds, h.balanced ?_, h.pays⟩
      · rw [List.length_cons, List.length_cons, hlen]
        omega
      · have hcons : worth (note :: rest) = note.amount.val + worth rest := by simp
        rw [← hworth, hcons]
        rfl

/-- A plan spends at most ten notes of the wallet, as few as can be, in a
chain of transactions that each balance and of which the last one pays.

The choice of `findCombination` is one of fewest notes (`plan_ok`), and its
steps are those of `Spends`, from which the chain is read off
(`Spends.chained`). -/
theorem plan_chain (sort : UnstableSort) (amount : NoteAmount) (notes : List (SpendableNote F))
    (p : TransactionPlan F) (hrun : plan sort amount notes = .ok p) :
    ∃ picked change, PickedNotes notes amount picked change ∧
      picked.length ≤ transactionLimit ∧ Chained (amount, change) picked p.steps := by
  obtain ⟨picked, change, hpicked, hlimit, hsteps⟩ := plan_ok hrun
  exact ⟨picked, change, hpicked, hlimit,
    (spends_of_planSteps hpicked.nonempty hsteps).chained hpicked.worth_eq⟩

/-- Three notes worth `2`, `3` and `5`. -/
def smallWallet : List (SpendableNote Nat) :=
  [⟨101, ⟨2, by decide⟩⟩, ⟨102, ⟨3, by decide⟩⟩, ⟨103, ⟨5, by decide⟩⟩]

def ten : NoteAmount := ⟨10, by decide⟩

/-- All three, in two transactions. -/
theorem plan_chain_small : ∃ p picked change, plan insertionSort ten smallWallet = .ok p ∧
    p.steps.length = 2 ∧ PickedNotes smallWallet ten picked change ∧
      picked.length ≤ transactionLimit ∧ Chained (ten, change) picked p.steps := by
  obtain ⟨p, hp⟩ : ∃ p, plan insertionSort ten smallWallet = .ok p := ⟨_, rfl⟩
  obtain ⟨picked, change, h⟩ := plan_chain insertionSort ten smallWallet p hp
  refine ⟨p, picked, change, hp, ?_, h⟩
  cases hp
  rfl

/-! ## When there is a plan -/

theorem mergeSteps_total : ∀ {rest : List (SpendableNote F)} (prev : StepNote F)
    (sum : NoteAmount), sum.val + worth rest < 2 ^ 128 →
      ∃ steps, mergeSteps prev sum rest = .ok steps
  | [], _, _, _ => ⟨[], rfl⟩
  | note :: rest, prev, sum, hfit => by
      have hcons : worth (note :: rest) = note.amount.val + worth rest := by simp
      rw [hcons] at hfit
      rw [mergeSteps]
      split
      · rename_i hadd
        have hfull := NoteAmount.checkedAdd_eq_none.mp hadd
        omega
      · rename_i sum' hadd
        have hsum := NoteAmount.checkedAdd_eq_some.mp hadd
        obtain ⟨later, hlater⟩ : ∃ later, mergeSteps (.fromAmount sum') sum' rest = .ok later :=
          mergeSteps_total (.fromAmount sum') sum' (by omega)
        rw [hlater]
        exact ⟨_, rfl⟩

theorem planSteps_total {change : Option NoteAmount} :
    ∀ {picked : List (SpendableNote F)}, worth picked < 2 ^ 128 →
      ∃ steps, planSteps amount change picked = .ok steps
  | [], _ => ⟨_, rfl⟩
  | [_], _ => ⟨_, rfl⟩
  | note :: next :: rest, hfit => by
      have hcons : worth (note :: next :: rest) = note.amount.val + worth (next :: rest) := by simp
      rw [hcons] at hfit
      obtain ⟨steps, hsteps⟩ := mergeSteps_total (.fromSpendable note) note.amount hfit
      rw [planSteps, hsteps]
      exact ⟨_, rfl⟩

theorem Chained.assemble {picked : List (SpendableNote F)} (h : Chained outputs picked steps) :
    ∃ p, TransactionPlan.assemble steps = some p := by
  obtain ⟨step, hlast, hpays⟩ := h.pays
  have hfinal : step.IsFinal := ⟨outputs, hpays⟩
  unfold TransactionPlan.assemble
  split
  · rename_i step' hlast'
    obtain rfl := Option.some.inj (hlast'.symm.trans hlast)
    rw [dif_pos hfinal]
    exact ⟨_, rfl⟩
  · rename_i hnone
    rw [hnone] at hlast
    cases hlast

/-- How planning ends when the amounts of the wallet can be added up. -/
inductive PlanOutcome (notes : List (SpendableNote F)) (amount : NoteAmount) :
    Except (PlanError F) (TransactionPlan F) → Prop where
  | noCombination (hlow : worth notes < amount.val) :
      PlanOutcome notes amount (.error .noCombination)
  | tooManyNotes {picked : List (SpendableNote F)} {change : Option NoteAmount}
      (hpicked : PickedNotes notes amount picked change)
      (hlimit : transactionLimit < picked.length) :
      PlanOutcome notes amount (.error (.tooManyNotes picked.length transactionLimit))
  | plan {picked : List (SpendableNote F)} {change : Option NoteAmount} {p : TransactionPlan F}
      (hpicked : PickedNotes notes amount picked change)
      (hlimit : picked.length ≤ transactionLimit) : PlanOutcome notes amount (.ok p)

theorem worth_le_of_subperm {l m : List (SpendableNote F)} (h : l.Subperm m) :
    worth l ≤ worth m := weight_le_of_subperm h

/-- If the amounts can be added up, planning ends in one of three ways. The
search has an answer, of fewest notes; its indices are in range, so looking
them up never fails, and no sum of a part of the wallet overflows. -/
theorem plan_outcome (hne : notes ≠ []) (hfit : worth notes < 2 ^ 128) :
    PlanOutcome notes amount (plan sort amount notes) := by
  have hfits : total (enumerate (notes.map SpendableNote.amount)) < 2 ^ 128 := by
    rw [enumerate_amounts, total_entries, List.zipIdx_map_fst]
    exact hfit
  obtain ⟨combo, hcombo⟩ : ∃ r, findCombination (F := F) sort _ amount = .ok r :=
    findCombination_total hfits
  have hanswers := findCombination_answers hcombo
  rw [plan, if_neg (by simpa using hne), hcombo, ok_bind]
  cases hselection : combo.selection with
  | none =>
      rw [hselection] at hanswers
      rcases hanswers with hlow | hnil
      · refine .noCombination ?_
        rwa [enumerate_amounts, total_entries, List.zipIdx_map_fst] at hlow
      · exact absurd (List.map_eq_nil_iff.mp hnil) hne
  | some selection =>
      obtain ⟨indices, change⟩ := selection
      rw [hselection] at hanswers
      obtain ⟨picked, hpicked, hlen, hlookup, hrange⟩ := pickedNotes_of_answers hanswers
      dsimp only
      rw [← hlen, hlookup]
      split
      · rename_i hlimit
        exact .tooManyNotes hpicked hlimit
      rename_i hlimit
      have hfound : indices.find? (fun index => decide (notes.length ≤ index)) = none := by
        rw [List.find?_eq_none]
        intro i hi
        simpa using hrange i hi
      have hsum := (worth_le_of_subperm hpicked.subperm).trans_lt hfit
      obtain ⟨steps, hsteps⟩ : ∃ steps, planSteps amount change picked = .ok steps :=
        planSteps_total hsum
      obtain ⟨p, hp⟩ := ((spends_of_planSteps hpicked.nonempty hsteps).chained
        hpicked.worth_eq).assemble
      rw [hfound, hsteps, ok_bind, hp]
      exact .plan hpicked (by omega)

/-- If the amounts of the wallet can be added up, there is a plan exactly if
some ten notes reach the amount; without a plan the wallet is empty, worth
too little, or cut into notes too small: the number that is reported is of
notes that reach the amount, and no fewer of them do.

`plan_outcome` has the three ways in which planning ends; each settles whether
some ten notes reach the amount. -/
theorem plan_iff (sort : UnstableSort) (amount : NoteAmount) (notes : List (SpendableNote F))
    (hfit : worth notes < 2 ^ 128) :
    ((∃ p, plan sort amount notes = .ok p) ↔ ∃ other : List (SpendableNote F), other ≠ [] ∧
        other.Subperm notes ∧ other.length ≤ transactionLimit ∧ amount.val ≤ worth other) ∧
      ∀ e, plan sort amount notes = .error e →
        (e = .noSpendableNotes ∧ notes = []) ∨ (e = .noCombination ∧ worth notes < amount.val) ∨
        ∃ picked change, PickedNotes notes amount picked change ∧
          e = .tooManyNotes picked.length transactionLimit ∧ transactionLimit < picked.length := by
  by_cases hempty : notes = []
  · subst hempty
    have hplan : plan sort amount ([] : List (SpendableNote F)) = .error .noSpendableNotes := rfl
    rw [hplan]
    refine ⟨⟨nofun, ?_⟩, fun e he => ?_⟩
    · rintro ⟨other, hne, hsub, -⟩
      exact absurd (List.subperm_nil.mp hsub) hne
    · cases he
      exact Or.inl ⟨rfl, rfl⟩
  have houtcome : PlanOutcome notes amount (plan sort amount notes) := plan_outcome hempty hfit
  generalize plan sort amount notes = result at houtcome ⊢
  cases houtcome with
  | noCombination hlow =>
      refine ⟨⟨nofun, ?_⟩, fun e he => ?_⟩
      · rintro ⟨other, -, hsub, -, hreach⟩
        have hle := worth_le_of_subperm hsub
        omega
      · cases he
        exact Or.inr (Or.inl ⟨rfl, hlow⟩)
  | tooManyNotes hpicked hlimit =>
      refine ⟨⟨nofun, ?_⟩, fun e he => ?_⟩
      · rintro ⟨other, hne, hsub, hlen, hreach⟩
        have hfewest := hpicked.fewest other hne hsub hreach
        unfold transactionLimit at hlimit hlen
        omega
      · cases he
        exact Or.inr (Or.inr ⟨_, _, hpicked, rfl, hlimit⟩)
  | @plan picked change p hpicked hlimit =>
      refine ⟨⟨fun _ => ⟨picked, hpicked.nonempty, hpicked.subperm, hlimit, ?_⟩,
        fun _ => ⟨p, rfl⟩⟩, nofun⟩
      have hworth := hpicked.worth_eq
      omega

theorem plan_iff_small :
    ((∃ p, plan insertionSort ten smallWallet = .ok p) ↔
        ∃ other : List (SpendableNote Nat), other ≠ [] ∧ other.Subperm smallWallet ∧
          other.length ≤ transactionLimit ∧ ten.val ≤ worth other) ∧
      ∀ e, plan insertionSort ten smallWallet = .error e →
        (e = .noSpendableNotes ∧ smallWallet = []) ∨
        (e = .noCombination ∧ worth smallWallet < ten.val) ∨
        ∃ picked change, PickedNotes smallWallet ten picked change ∧
          e = .tooManyNotes picked.length transactionLimit ∧ transactionLimit < picked.length :=
  plan_iff insertionSort ten smallWallet (by decide)

end Planner

end PrivacyWallet
