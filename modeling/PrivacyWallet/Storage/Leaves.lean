import PrivacyWallet.Storage.Settling

/-!
# The leaves for the trees

A transaction is proved against trees that the wallet rebuilds from its tables:
`get_pool_commitment_leaves_ordered` and `get_all_asp_membership_leaves_ordered`
read the leaves of a contract in the order of their indices, and refuse a gap.
Where processing came to its end, the leaves are those that the events of the
contract name, each at the index that its event gives it (`leavesOrdered_iff`).

Both readers sort the rows of a contract by index and count along
(`orderedLeaves`), so one lemma serves both: the leaves are found exactly if the
rows, in any order, are the leaves paired with their positions
(`orderedLeaves_iff`). The loop takes rows that are numbered without a gap and
nothing else (`collectLeaves_ok`), and a sorted list of such pairs is determined
by the leaves.

Which rows there are is the part of processing: a settled table has, of each
contract, a permutation of what the events of the contract say (`rows_perm`).
-/

namespace PrivacyWallet

namespace Storage

open Circuits InvokeM Planner Prover Watermark

variable {V E : Type} {sdk : ScValSdk V} {derive : DeriveNoteFn E} {t t' : Tables E}

/-! ## The rows in order -/

/-- The loop over the rows: `expected` counts the leaves. -/
def collectLeaves (table : String) :
    List (Fr × Nat) → Nat → List Fr → Except StorageError (List Fr)
  | [], _, leaves => .ok leaves
  | (leaf, index) :: rows, expected, leaves =>
      if index ≠ expected then .error (.gap table expected index)
      else if 2 ^ 32 ≤ expected + 1 then .error (.indexOverflow table)
      else collectLeaves table rows (expected + 1) (leaves ++ [leaf])

/-- `ORDER BY leaf_index ASC` -/
def byIndex (rows : List (Fr × Nat)) : List (Fr × Nat) :=
  rows.mergeSort fun a b => decide (a.2 ≤ b.2)

def orderedLeaves (table : String) (rows : List (Fr × Nat)) : Except StorageError (List Fr) :=
  collectLeaves table (byIndex rows) 0 []

/-- `get_pool_commitment_leaves_ordered` -/
def getPoolCommitmentLeavesOrdered (t : Tables E) (pool : String) :
    Except StorageError (List Fr) :=
  orderedLeaves "pool_commitments"
    ((t.poolCommitments.filter (ofPool t pool)).map fun row => (row.commitment, row.index))

/-- The leaves of an allowlist. -/
def ofAsp (t : Tables E) (asp : String) (row : LeafAddedEvent) : Bool :=
  contractOf t row.id = some asp

/-- `get_all_asp_membership_leaves_ordered` -/
def getAllAspMembershipLeavesOrdered (t : Tables E) (asp : String) :
    Except StorageError (List Fr) :=
  orderedLeaves "asp_membership_leaves"
    ((t.aspMembershipLeaves.filter (ofAsp t asp)).map fun row => (row.leaf, row.index))

/-- The loop takes rows that are numbered without a gap, and nothing else. By
induction on the rows: each must have the number of leaves before it. -/
theorem collectLeaves_ok {table : String} {rows : List (Fr × Nat)} {expected : Nat}
    {leaves result : List Fr} (hexpected : expected < 2 ^ 32) :
    collectLeaves table rows expected leaves = .ok result ↔ ∃ new, result = leaves ++ new ∧
      rows = new.zipIdx expected ∧ expected + new.length < 2 ^ 32 := by
  induction rows generalizing expected leaves with
  | nil =>
      constructor
      · intro h
        cases h
        exact ⟨[], (List.append_nil _).symm, rfl, hexpected⟩
      · rintro ⟨new, rfl, hnew, -⟩
        obtain rfl := List.zipIdx_eq_nil_iff.mp hnew.symm
        rw [List.append_nil, collectLeaves]
  | cons row rows ih =>
      obtain ⟨leaf, index⟩ := row
      rw [collectLeaves]
      split
      · rename_i hgap
        refine ⟨nofun, ?_⟩
        rintro ⟨_ | ⟨leaf', new⟩, -, hnew, -⟩
        · cases hnew
        · rw [List.zipIdx_cons] at hnew
          cases hnew
          exact absurd rfl hgap
      · rename_i hindex
        obtain rfl := not_not.mp hindex
        split
        · rename_i hfull
          refine ⟨nofun, ?_⟩
          rintro ⟨_ | ⟨leaf', new⟩, -, hnew, hlen⟩
          · cases hnew
          · rw [List.length_cons] at hlen
            omega
        · rename_i hroom
          rw [ih (not_le.mp hroom)]
          constructor
          · rintro ⟨new, rfl, rfl, hlen⟩
            refine ⟨leaf :: new, by rw [List.append_assoc, List.singleton_append],
              (List.zipIdx_cons ..).symm, ?_⟩
            rw [List.length_cons]
            omega
          · rintro ⟨_ | ⟨leaf', new⟩, rfl, hnew, hlen⟩
            · cases hnew
            · rw [List.zipIdx_cons] at hnew
              cases hnew
              rw [List.length_cons] at hlen
              refine ⟨new, by rw [List.append_assoc, List.singleton_append], rfl, ?_⟩
              omega

theorem zipIdx_pairwise (leaves : List Fr) :
    leaves.zipIdx.Pairwise fun a b => a.2 < b.2 := by
  rw [List.pairwise_iff_getElem]
  intro i j hi hj hij
  simpa [List.getElem_zipIdx] using hij

/-- The leaves are found exactly if the rows are the leaves with their
indices, in any order. -/
theorem orderedLeaves_iff {table : String} {rows : List (Fr × Nat)} {leaves : List Fr} :
    orderedLeaves table rows = .ok leaves ↔
      rows.Perm leaves.zipIdx ∧ leaves.length < 2 ^ 32 := by
  have hsorted : (byIndex rows).Perm rows := List.mergeSort_perm ..
  rw [orderedLeaves, collectLeaves_ok (by decide)]
  constructor
  · rintro ⟨new, rfl, hrows, hlen⟩
    exact ⟨hrows ▸ hsorted.symm, by omega⟩
  · rintro ⟨hperm, hlen⟩
    refine ⟨leaves, rfl, ?_, by omega⟩
    have hpair : (byIndex rows).Pairwise fun a b => decide (a.2 ≤ b.2) = true := by
      refine List.pairwise_mergeSort (fun a b c hab hbc => ?_) (fun a b => ?_) rows
      · rw [decide_eq_true_eq] at hab hbc ⊢
        exact hab.trans hbc
      · rw [Bool.or_eq_true, decide_eq_true_eq, decide_eq_true_eq]
        exact Nat.le_total a.2 b.2
    refine List.Perm.eq_of_pairwise (fun a b ha hb hab hba => ?_) hpair
      ((zipIdx_pairwise leaves).imp fun hlt => decide_eq_true hlt.le) (hsorted.trans hperm)
    -- both are the leaf at their common index
    rw [decide_eq_true_eq] at hab hba
    obtain ⟨leaf, i⟩ := a
    obtain ⟨leaf', j⟩ := b
    obtain rfl : i = j := Nat.le_antisymm hab hba
    have hi := List.mem_zipIdx_iff_getElem?.mp ((hsorted.trans hperm).mem_iff.mp ha)
    have hj := List.mem_zipIdx_iff_getElem?.mp hb
    have hsame : leaf = leaf' := Option.some.inj (hi.symm.trans hj)
    rw [hsame]

/-! ## The rows of a contract -/

section Rows

variable {ρ κ : Type} {k : Kind ρ κ} {table : List ρ}

/-- What the events of a contract say. -/
def emittedRows (sdk : ScValSdk V) (k : Kind ρ κ) (raw : List ContractEvent) (contract : String) :
    List ρ :=
  ((raw.filter fun event => event.contractId = contract).filterMap (parseEvent sdk)).filterMap k.of

theorem mem_emittedRows {raw : List ContractEvent} {contract : String} {row : ρ} :
    row ∈ emittedRows sdk k raw contract ↔
      ∃ event ∈ raw, event.contractId = contract ∧ Reads sdk k event row := by
  simp only [emittedRows, List.mem_filterMap, List.mem_filter, decide_eq_true_eq]
  constructor
  · rintro ⟨ev, ⟨event, ⟨hevent, hcontract⟩, hparse⟩, hof⟩
    exact ⟨event, hevent, hcontract, ev, hparse, hof⟩
  · rintro ⟨event, hevent, hcontract, ev, hparse, hof⟩
    exact ⟨ev, ⟨event, ⟨hevent, hcontract⟩, hparse⟩, hof⟩

/-- A table that has every row that the events say has, of each contract,
what its events say. -/
theorem rows_perm (h : Stored sdk t) (ht : FromEvents sdk k t.rawEvents table)
    (hall : ∀ event ∈ t.rawEvents, ∀ row, Reads sdk k event row → row ∈ table)
    (contract : String) :
    (table.filter fun row => decide (contractOf t (k.eventId row) = some contract)).Perm
      (emittedRows sdk k t.rawEvents contract) := by
  have hnew : ((emittedRows sdk k t.rawEvents contract).map k.eventId).Nodup :=
    h.ids.sublist (pageRows_eventIds.trans (List.filter_sublist.map _))
  refine (List.perm_ext_iff_of_nodup ((List.Nodup.of_map _ ht.ids).filter _)
    (List.Nodup.of_map _ hnew)).mpr fun row => ?_
  rw [List.mem_filter, mem_emittedRows, decide_eq_true_eq, contractOf_eq_some h.ids rfl]
  constructor
  · rintro ⟨hrow, event, he, hid, hcontract⟩
    exact ⟨event, he, hcontract, source_of_id h ht he hrow hid.symm⟩
  · rintro ⟨event, he, hcontract, hreads⟩
    exact ⟨hall event he row hreads, event, he, hreads.eventId.symm, hcontract⟩

end Rows

/-! ## The result -/

/-- Where processing came to its end, the leaves of a pool and those of an
allowlist are read exactly if the events of the contract number them without a
gap, and they are what the events say.

At the end of processing the table has a row for each event, so its rows are a
permutation of what the events say; what is left is the reader's check of the
numbers (`orderedLeaves_iff`). -/
theorem leavesOrdered_iff (sdk : ScValSdk V) (derive : DeriveNoteFn E) (steps : List (Step E))
    (fuel : Nat) (t' : Tables E)
    (hrun : processLocalState sdk derive fuel (runs sdk derive steps) = (.ok (), t'))
    (contract : String) (leaves : List Fr) :
    (getPoolCommitmentLeavesOrdered t' contract = .ok leaves ↔
      ((emittedRows sdk commitmentKind (runs sdk derive steps).rawEvents contract).map
        fun row => (row.commitment, row.index)).Perm leaves.zipIdx ∧ leaves.length < 2 ^ 32) ∧
    (getAllAspMembershipLeavesOrdered t' contract = .ok leaves ↔
      ((emittedRows sdk leafKind (runs sdk derive steps).rawEvents contract).map
        fun row => (row.leaf, row.index)).Perm leaves.zipIdx ∧ leaves.length < 2 ^ 32) := by
  obtain ⟨h, hsame, hs⟩ := processLocalState_ok (Inv.run steps) hrun
  rw [← hsame.rawEvents, getPoolCommitmentLeavesOrdered, getAllAspMembershipLeavesOrdered,
    orderedLeaves_iff, orderedLeaves_iff]
  have hcommitments := rows_perm h.stored h.stored.commitments
    (fun _ he _ => hs.commitment_mem h.stored he) contract
  have hleaves := rows_perm h.stored h.stored.leaves
    (fun _ he _ => hs.leaf_mem h.stored he) contract
  exact ⟨and_congr_left fun _ => (hcommitments.map _).congr_left _,
    and_congr_left fun _ => (hleaves.map _).congr_left _⟩

theorem leavesOrdered_iff_small : ∃ fuel t',
    processLocalState smallSdk smallDerive fuel
        (runs smallSdk smallDerive (smallSteps smallCommitment)) = (.ok (), t') ∧
      getPoolCommitmentLeavesOrdered t' "pool" = .ok [0] := by
  obtain ⟨fuel, t', hrun⟩ := small_digestible.settles (Inv.run _) (small_differ _)
  refine ⟨fuel, t', hrun, ?_⟩
  refine (leavesOrdered_iff smallSdk smallDerive (smallSteps smallCommitment) fuel t' hrun "pool"
    [0]).1.mpr ⟨?_, by decide⟩
  have hrows : emittedRows smallSdk commitmentKind [smallCommitment] "pool"
      = [⟨"1", 0, 0, []⟩] := by
    decide +kernel
  rw [small_rawEvents, hrows]
  rfl

end Storage

end PrivacyWallet
