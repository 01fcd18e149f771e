import PrivacyWallet.Pool.CircuitSoundness
import PrivacyWallet.Prover.PrefixTree
import PrivacyWallet.Prover.Provable
import PrivacyWallet.Storage.Leaves

/-!
# The pool's tree in the wallet

`build_validated_pool_tree` puts the leaves of the tables into a tree, and
compares it with what the pool says of its own: the number of leaves, and the
root. Where the stored events name what the pool inserted, the comparison
succeeds, and the paths that the wallet takes from its tree lead to the newest
root of the pool (`validated_pool_tree`).

The contract and the wallet each compute a tree, and the statement joins the
results about the two:

- **the pool**: its newest root is the root of the complete tree on the
  commitments of its accepted transactions (`Pool.Constructed.newestRoot`);
- **the tables**: the leaves that are read are those commitments, in their
  order (`leavesOrdered_iff`);
- **the prover**: the tree over those leaves has the root of the complete tree,
  and the siblings of each position (`leadsTo_of_new`).

That contract and prover hash alike is assumed once (`Pool.SameHash`).
-/

namespace PrivacyWallet

namespace Storage

open Circuits InvokeM Prover PrivacyWallet.BinaryTree

variable {V E : Type}

/-! ## The tree -/

/-- The errors of `build_validated_pool_tree`. -/
inductive PoolTreeError where
  | storage (e : StorageError)
  | tree (e : TreeError)
  /-- the root of the leaves is not the root of the pool -/
  | rootMismatch

/-- `build_validated_pool_tree`: `none` asks for a sync. -/
def buildValidatedPoolTree (P : Permutation) (zero : Fr) (t : Tables E) (poolAddress : String)
    (poolNextIndex treeDepth : Nat) (expectedPoolRoot : Fr) :
    Except PoolTreeError (Option (MerklePrefixTreeBuilt Fr)) :=
  match getPoolCommitmentLeavesOrdered t poolAddress with
  | .error e => .error (.storage e)
  | .ok leaves =>
      if leaves.length ≠ poolNextIndex then .ok none
      else
        match MerklePrefixTree.new P.compress zero treeDepth leaves with
        | .error e => .error (.tree e)
        | .ok tree =>
            if tree.build.root ≠ expectedPoolRoot then .error .rootMismatch
            else .ok (some tree.build)

variable {P : Permutation} {zero : Fr} {t : Tables E} {depth : Nat} {leaves : List Fr}

theorem buildValidatedPoolTree_of_leaves {poolAddress : String}
    (hleaves : getPoolCommitmentLeavesOrdered t poolAddress = .ok leaves)
    {tree : MerklePrefixTree Fr P.compress}
    (hnew : MerklePrefixTree.new P.compress zero depth leaves = .ok tree) :
    buildValidatedPoolTree P zero t poolAddress leaves.length depth tree.root
      = .ok (some tree.build) := by
  have hroot : tree.build.root = tree.root := tree.build_root.trans tree.root_eq.symm
  rw [buildValidatedPoolTree, hleaves]
  simp only [ne_eq, not_true_eq_false, if_false, hnew, hroot]

/-- The proof of a position has the siblings, in the order of the circuit. -/
theorem pathOf_pathTo {hash : Fr → Fr → Fr} {leaf : Nat → Fr} (levels i : Nat) :
    pathOf i (elementsOf levels ((pathTo hash leaf 0 levels i).map Prod.snd))
      = pathTo hash leaf 0 levels i := by
  refine List.ext_getElem (by simp) fun k hk hk' => ?_
  have hside : (pathTo hash leaf 0 levels i)[k].1 = i.testBit k :=
    pathTo_follows leaf 0 levels i k hk'
  simp only [pathOf, List.getElem_ofFn, elementsOf]
  rw [← hside, List.getD_eq_getElem?_getD, List.getElem?_map, List.getElem?_eq_getElem hk']
  rfl

/-- The proof of a leaf leads the circuit to the root. -/
theorem leadsTo_of_new {tree : MerklePrefixTree Fr P.compress}
    (hnew : MerklePrefixTree.new P.compress zero depth leaves = .ok tree)
    (hfit : leaves.length ≤ 2 ^ depth) {i : Nat} {leaf : Fr} (hleaf : leaves[i]? = some leaf) :
    ∃ proof, tree.build.proof i = .ok proof ∧ proof.pathIndices = i ∧
      leadsTo P depth leaf (.ofNat i) proof.pathElements tree.root := by
  obtain ⟨rfl, rfl, -⟩ := MerklePrefixTree.new_ok hnew
  obtain ⟨hin, rfl⟩ := List.getElem?_eq_some_iff.mp hleaf
  have hlt : i < 2 ^ tree.depth := hin.trans_le hfit
  have hcap : 2 ^ tree.depth ≤ 2 ^ 32 := Nat.pow_le_pow_right Nat.two_pos tree.depth_le
  have hfield : (Bn254Fr.ofNat i).val = i := by
    rw [Bn254Fr.val_ofNat]
    exact Nat.mod_eq_of_lt ((hlt.trans_le hcap).trans (by decide))
  refine ⟨_, (tree.build_proof i).trans (if_pos (lt_max_of_lt_right hin)),
    Nat.mod_eq_of_lt hlt, ?_⟩
  have hbottom : tree.leaves[i] = full P.compress tree.leafAt 0 i := (padded_of_lt hin).symm
  rw [leadsTo, hfield, pathOf_pathTo, tree.root_eq, hbottom, climb_pathTo, Nat.zero_add,
    Nat.div_eq_of_lt hlt]

/-! ## The result -/

/-- Where processing came to its end, and the events of the pool number what
the pool inserted, the wallet validates its tree against the newest root, and
every leaf has a path to that root.

The leaves that the wallet reads are those that the contract inserted
(`leavesOrdered_iff`), and either tree is the full tree on them: the wallet's
by `root_eq`, the contract's by `newestRoot`. -/
theorem validated_pool_tree {A L X : Type} [DecidableEq A] (h : Pool.Host A L X)
    (c : Pool.Config A) (w₀ : Pool.World A L X) (hc : Pool.Constructed h c w₀) (P : Permutation)
    (zero : Fr) (hs : Pool.SameHash h P zero) (pre : List (Pool.Step A L X))
    (sdk : ScValSdk V) (derive : DeriveNoteFn E) (steps : List (Step E)) (fuel : Nat)
    (t' : Tables E)
    (hrun : processLocalState sdk derive fuel (runs sdk derive steps) = (.ok (), t'))
    (poolAddress : String)
    (hevents : ((emittedRows sdk commitmentKind (runs sdk derive steps).rawEvents poolAddress).map
      fun row => (row.commitment, row.index)).Perm
        (Pool.insertedLeaves (Pool.accepted h w₀ pre)).zipIdx)
    (hnext : (Pool.insertedLeaves (Pool.accepted h w₀ pre)).length < 2 ^ 32) :
    ∃ root tree, Pool.NewestRoot h w₀ pre root.toU256 ∧
      buildValidatedPoolTree P zero t' poolAddress
          (Pool.insertedLeaves (Pool.accepted h w₀ pre)).length c.levels root = .ok (some tree) ∧
      ∀ i leaf, (Pool.insertedLeaves (Pool.accepted h w₀ pre))[i]? = some leaf →
        ∃ proof, tree.proof i = .ok proof ∧ proof.pathIndices = i ∧
          leadsTo P c.levels leaf (.ofNat i) proof.pathElements root := by
  have hleaves := (leavesOrdered_iff sdk derive steps fuel t' hrun poolAddress _).1.mpr
    ⟨hevents, hnext⟩
  obtain ⟨tree, hnew⟩ := MerklePrefixTree.new_of_depth P.compress zero hc.levels_pos hc.levels_le
    (Pool.insertedLeaves (Pool.accepted h w₀ pre))
  have hroot : tree.root = full P.compress
      (padded (Pool.insertedLeaves (Pool.accepted h w₀ pre)) zero) c.levels 0 := by
    obtain ⟨hdepth, htreeLeaves, hempty⟩ := MerklePrefixTree.new_ok hnew
    rw [tree.root_eq, MerklePrefixTree.leafAt, hdepth, htreeLeaves, hempty]
  refine ⟨tree.root, tree.build, hroot ▸ hc.newestRoot hs pre,
    buildValidatedPoolTree_of_leaves hleaves hnew, fun i leaf hleaf => ?_⟩
  exact leadsTo_of_new hnew (hc.leaves_fit hs pre) hleaf

/-! ## A deposit that the wallet read -/

/-- Two commitments, each with its index. -/
def pairSdk : ScValSdk String :=
  { smallSdk with
    map := fun v =>
      if v = "first" then some [("index", "0"), ("encrypted_output", "")]
      else if v = "second" then some [("index", "1"), ("encrypted_output", "")]
      else none
    toU256 := fun v => some (if v = "150" then (Bn254Fr.ofNat 150).toU256 else 0)
    toU32 := fun v => some (if v = "1" then 1 else 0) }

def pairFirst : ContractEvent := ⟨"1", 7, "pool", ["new_commitment_event", "150"], "first"⟩

def pairSecond : ContractEvent := ⟨"2", 7, "pool", ["new_commitment_event", "0"], "second"⟩

/-- The second arrives first. -/
def pairSteps : List (Step Unit) := [.saveEvents [pairSecond, pairFirst]]

theorem pair_rawEvents :
    (runs pairSdk smallDerive pairSteps).rawEvents = [pairSecond, pairFirst] := rfl

theorem pair_reads {event : ContractEvent}
    (he : event ∈ (runs pairSdk smallDerive pairSteps).rawEvents) :
    event = pairSecond ∧ parseEvent pairSdk event = some (.commitment ⟨"2", 0, 1, []⟩) ∨
      event = pairFirst ∧
        parseEvent pairSdk event = some (.commitment ⟨"1", .ofNat 150, 0, []⟩) := by
  rw [pair_rawEvents, List.mem_cons, List.mem_singleton] at he
  rcases he with rfl | rfl
  · exact Or.inl ⟨rfl, by decide +kernel⟩
  · exact Or.inr ⟨rfl, by decide +kernel⟩

/-- A kind that has no row of a commitment. -/
theorem pair_unrepeated {ρ κ : Type} {k : Kind ρ κ} (hnone : ∀ row, k.of (.commitment row) = none) :
    Unrepeated pairSdk k (runs pairSdk smallDerive pairSteps).rawEvents := by
  rintro event he _ _ _ _ ⟨ev, hparse, hof⟩ _ _
  rcases pair_reads he with ⟨-, hread⟩ | ⟨-, hread⟩
  · cases hparse.symm.trans hread
    cases (hnone _).symm.trans hof
  · cases hparse.symm.trans hread
    cases (hnone _).symm.trans hof

theorem pair_digestible : Digestible pairSdk smallDerive (runs pairSdk smallDerive pairSteps) where
  storable event he := by
    rcases pair_reads he with ⟨-, hparse⟩ | ⟨-, hparse⟩
    · exact ⟨_, hparse, nofun⟩
    · exact ⟨_, hparse, nofun⟩
  nullifiers := pair_unrepeated fun _ => rfl
  commitments := by
    rintro event he event' he' row row' ⟨ev, hparse, hof⟩ ⟨ev', hparse', hof'⟩ hkey
    rcases pair_reads he with ⟨rfl, hread⟩ | ⟨rfl, hread⟩ <;>
      rcases pair_reads he' with ⟨rfl, hread'⟩ | ⟨rfl, hread'⟩
    · rfl
    · cases hparse.symm.trans hread
      cases hparse'.symm.trans hread'
      cases hof
      cases hof'
      exact absurd hkey (by decide +kernel)
    · cases hparse.symm.trans hread
      cases hparse'.symm.trans hread'
      cases hof
      cases hof'
      exact absurd hkey (by decide +kernel)
    · rfl
  leaves := pair_unrepeated fun _ => rfl
  readable _ _ _ _ _ _ := ⟨_, rfl⟩

/-- No account has keys. -/
theorem pair_differ : NullifiersDiffer pairSdk smallDerive (runs pairSdk smallDerive pairSteps) :=
  fun _ _ _ _ _ _ _ _ _ ha => absurd ha List.not_mem_nil

theorem validated_pool_tree_small : ∃ fuel t',
    processLocalState pairSdk smallDerive fuel (runs pairSdk smallDerive pairSteps)
        = (.ok (), t') ∧
      ∃ root tree, Pool.NewestRoot Pool.smallHost Pool.smallWorld [Pool.smallDeposit]
          root.toU256 ∧
        buildValidatedPoolTree Pool.smallPermutation Pool.smallZero t' "pool" 2 1 root
          = .ok (some tree) := by
  obtain ⟨fuel, t', hrun⟩ := pair_digestible.settles (Inv.run _) pair_differ
  have hinserted : Pool.insertedLeaves
      (Pool.accepted Pool.smallHost Pool.smallWorld [Pool.smallDeposit]) = [.ofNat 150, 0] := by
    rw [Pool.smallDeposit_accepted]
    decide +kernel
  have hrows : emittedRows pairSdk commitmentKind [pairSecond, pairFirst] "pool"
      = [⟨"2", 0, 1, []⟩, ⟨"1", .ofNat 150, 0, []⟩] := by
    decide +kernel
  obtain ⟨root, tree, hnewest, htree, -⟩ := validated_pool_tree Pool.smallHost Pool.smallConfig
    Pool.smallWorld Pool.smallWorld_constructed Pool.smallPermutation Pool.smallZero
    Pool.smallHost_sameHash [Pool.smallDeposit] pairSdk smallDerive pairSteps fuel t' hrun "pool"
    (by rw [hinserted, pair_rawEvents, hrows]; exact List.Perm.swap ..)
    (by rw [hinserted]; decide)
  rw [hinserted] at htree
  exact ⟨fuel, t', hrun, root, tree, hnewest, htree⟩

end Storage

end PrivacyWallet
