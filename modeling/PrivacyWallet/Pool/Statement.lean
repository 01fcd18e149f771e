import PrivacyWallet.Pool.Runs

/-!
# A proof is bound to what the transaction uses

The vector handed to the verifier has no length tag: two groups of three and
two values stand around the nullifiers, and each association root that the
policy requires is repeated once for each nullifier. So it has to be shown
that two statements with one vector are the same statement.

- **the length** (`verifiedValues_length`): with the flags it determines the
  number of nullifiers, and with that where each group stands;
- **the values** (`verifiedValues_injective`): the vector can then be cut at
  the same places on both sides, and its groups compared one by one
  (`group_injective`);
- **the residues** (`publicInputs_injective`): the verifier sees residues, and
  the contract accepts only canonical encodings (`CanonicalStatement`), of
  which each residue has one.

That the values are those the transaction acts on is read off its steps
(`transact_bound`): the root was known, the public amount was recomputed,
the hash of the external data was recomputed and reduced (`hashExtData_lt`),
the association roots are the sets' own (`aspRoot_checked`), and the
nullifiers and commitments are the ones that were marked and inserted.
-/

namespace PrivacyWallet

namespace Pool

open InvokeM

variable {A L X : Type} {flags : UInt32} {p p' : Proof}

/-! ## The layout -/

/-- The values that the vector of public inputs stands for. -/
def verifiedValues (proof : Proof) (flags : UInt32) : List U256 :=
  [proof.root, proof.publicAmount, proof.extDataHash]
    ++ proof.inputNullifiers
    ++ [proof.outputCommitment0, proof.outputCommitment1]
    ++ (if Policy.requiresMembershipProofs flags = true then
          List.replicate proof.inputNullifiers.length proof.aspMembershipRoot
        else [])
    ++ (if Policy.requiresNonMembershipProofs flags = true then
          List.replicate proof.inputNullifiers.length proof.aspNonMembershipRoot
        else [])

/-- Two statements agree on everything that the vector carries. -/
structure SameStatement (flags : UInt32) (p p' : Proof) : Prop where
  root : p.root = p'.root
  publicAmount : p.publicAmount = p'.publicAmount
  extDataHash : p.extDataHash = p'.extDataHash
  inputNullifiers : p.inputNullifiers = p'.inputNullifiers
  outputCommitment0 : p.outputCommitment0 = p'.outputCommitment0
  outputCommitment1 : p.outputCommitment1 = p'.outputCommitment1
  aspMembershipRoot : p.inputNullifiers ≠ [] → Policy.requiresMembershipProofs flags = true →
    p.aspMembershipRoot = p'.aspMembershipRoot
  aspNonMembershipRoot : p.inputNullifiers ≠ [] →
    Policy.requiresNonMembershipProofs flags = true →
    p.aspNonMembershipRoot = p'.aspNonMembershipRoot

/-- A group of repeated roots, present or not. -/
theorem length_group (c : Prop) [Decidable c] (n : Nat) (r : U256) :
    (if c then List.replicate n r else []).length = if c then n else 0 := by
  split
  · exact List.length_replicate
  · rfl

theorem group_injective {c : Prop} [Decidable c] {n : Nat} {r r' : U256}
    (heq : (if c then List.replicate n r else []) = if c then List.replicate n r' else [])
    (hn : n ≠ 0) (hc : c) : r = r' := by
  rw [if_pos hc, if_pos hc] at heq
  exact (List.replicate_inj.mp heq).2.resolve_left hn

theorem verifiedValues_length (proof : Proof) (flags : UInt32) :
    (verifiedValues proof flags).length
      = 5 + proof.inputNullifiers.length
        + (if Policy.requiresMembershipProofs flags = true then proof.inputNullifiers.length
            else 0)
        + (if Policy.requiresNonMembershipProofs flags = true then
            proof.inputNullifiers.length else 0) := by
  simp only [verifiedValues, List.length_append, length_group, List.length_cons,
    List.length_nil]
  omega

/-- The length tells the number of nullifiers, and with it where each group
stands. -/
theorem verifiedValues_injective (heq : verifiedValues p flags = verifiedValues p' flags) :
    SameStatement flags p p' := by
  have hlen : p.inputNullifiers.length = p'.inputNullifiers.length := by
    have hlength := congrArg List.length heq
    rw [verifiedValues_length, verifiedValues_length] at hlength
    split_ifs at hlength <;> omega
  simp only [verifiedValues] at heq
  obtain ⟨heq, hnonMembership⟩ := List.append_inj' heq (by
    rw [length_group, length_group, hlen])
  obtain ⟨heq, hmembership⟩ := List.append_inj' heq (by
    rw [length_group, length_group, hlen])
  obtain ⟨heq, hcommitments⟩ := List.append_inj' heq rfl
  obtain ⟨hhead, hnullifiers⟩ := List.append_inj heq rfl
  simp only [List.cons.injEq, and_true] at hhead hcommitments
  rw [← hlen] at hmembership hnonMembership
  have hne : p.inputNullifiers ≠ [] → p.inputNullifiers.length ≠ 0 := by simp
  exact ⟨hhead.1, hhead.2.1, hhead.2.2, hnullifiers, hcommitments.1, hcommitments.2,
    fun h hc => group_injective hmembership (hne h) hc,
    fun h hc => group_injective hnonMembership (hne h) hc⟩

/-! ## The encoding -/

/-- Every value of the vector is the canonical encoding of its residue. -/
structure CanonicalStatement (flags : UInt32) (proof : Proof) : Prop where
  canonical : Canonical proof
  extDataHash : proof.extDataHash < bn256Modulus
  roots : CanonicalRoots proof flags

theorem CanonicalStatement.toU256 (hc : CanonicalStatement flags p) :
    (publicInputs p flags).map Bn254Fr.toU256 = verifiedValues p flags := by
  have hnull : (p.inputNullifiers.map Bn254Fr.fromBytes).map Bn254Fr.toU256
      = p.inputNullifiers := by
    rw [List.map_map]
    exact (List.map_congr_left fun n hn =>
      Bn254Fr.toU256_fromBytes (hc.canonical.nullifiers n hn)).trans (List.map_id _)
  have hgroup : ∀ (c : Prop) [Decidable c] (r : U256), (c → r < bn256Modulus) →
      (if c then List.replicate p.inputNullifiers.length (Bn254Fr.fromBytes r) else []).map
          Bn254Fr.toU256
        = if c then List.replicate p.inputNullifiers.length r else [] := by
    intro c _ r hr
    split
    · rename_i h
      rw [List.map_replicate, Bn254Fr.toU256_fromBytes (hr h)]
    · rfl
  simp only [publicInputs, verifiedValues, List.map_append, List.map_cons, List.map_nil, hnull]
  rw [hgroup _ _ hc.roots.membership, hgroup _ _ hc.roots.nonMembership,
    Bn254Fr.toU256_fromBytes hc.canonical.root, Bn254Fr.toU256_fromBytes hc.canonical.publicAmount,
    Bn254Fr.toU256_fromBytes hc.extDataHash, Bn254Fr.toU256_fromBytes hc.canonical.commitment0,
    Bn254Fr.toU256_fromBytes hc.canonical.commitment1]

/-- So the vector of residues determines the values. -/
theorem publicInputs_injective (hc : CanonicalStatement flags p)
    (hc' : CanonicalStatement flags p') (heq : publicInputs p flags = publicInputs p' flags) :
    SameStatement flags p p' :=
  verifiedValues_injective (by rw [← hc.toU256, ← hc'.toU256, heq])

/-! ## Accepted transactions -/

variable [DecidableEq A] {h : Host A L X} {auth : List A} {w w' : World A L X} {u : Unit}
  {proof : Proof} {extData : ExtData A} {sender : A}

/-- The hash of the external data is reduced before it is compared. -/
theorem hashExtData_lt (h : Host A L X) (extData : ExtData A) :
    hashExtData h extData < bn256Modulus :=
  U256.lt_def.mpr (Nat.mod_lt _ bn256Modulus_pos)

/-- The verifier accepted the public inputs of `proof`, each of which is the
canonical encoding of what the transaction from `w` to `w'` acted on. -/
structure Bound (h : Host A L X) (proof : Proof) (extData : ExtData A) (w w' : World A L X)
    (flags : UInt32) : Prop where
  policyFlags : w.storage.policyFlags = some flags
  verified : ∃ verifier o, w.storage.verifier = some verifier ∧
    h.verify verifier proof.proof (publicInputs proof flags) o = .value true ∧
    (Policy.requiresMembershipProofs flags = true → ∃ asp,
      w.storage.aspMembership = some asp ∧
        h.aspGetRoot asp o = .value proof.aspMembershipRoot) ∧
    (Policy.requiresNonMembershipProofs flags = true → ∃ asp,
      w.storage.aspNonMembership = some asp ∧
        h.aspGetRoot asp o = .value proof.aspNonMembershipRoot)
  encoded : (publicInputs proof flags).map Bn254Fr.toU256 = verifiedValues proof flags
  canonical : CanonicalStatement flags proof
  root : Merkle.isKnownRoot proof.root w.storage.merkle = (.ok true, w.storage.merkle)
  publicAmount : (proof.publicAmount.val : Int) = extData.extAmount.val % bn256Modulus.val
  extDataHash : hashExtData h extData = proof.extDataHash
  nullifiers : w'.storage.nullifier
    = fun n => w.storage.nullifier n || decide (n ∈ proof.inputNullifiers)
  commitments : ∃ index, Merkle.insertTwoLeaves h.poseidon2Compress proof.outputCommitment0
    proof.outputCommitment1 w.storage.merkle = (.ok index, w'.storage.merkle)

/-- An association root that was required was the set's own. -/
theorem aspRoot_checked {c : Prop} [Decidable c] {field : Storage A → Option A} {r : U256}
    (hok : when c (do
      let root ← (load field >>= fun a => callView (h.aspGetRoot a) : PoolM A L X U256)
      rejectIf (root ≠ r) .invalidProof) w = (.ok u, w')) (hc : c) :
    ∃ asp, field w.storage = some asp ∧ h.aspGetRoot asp w.outside = .value r := by
  rw [when_run_of hc] at hok
  obtain ⟨root, w₁, h1, hok⟩ := bind_eq_ok.mp hok
  obtain ⟨asp, w₂, h2, h1⟩ := bind_eq_ok.mp h1
  obtain ⟨hasp, rfl⟩ := load_eq_ok.mp h2
  obtain ⟨hroot, rfl⟩ := callView_eq_ok.mp h1
  obtain ⟨hr, -⟩ := rejectIf_eq_ok.mp hok
  rw [not_not] at hr
  exact ⟨asp, hasp, hr ▸ hroot⟩

theorem transact_bound (hok : transact h auth proof extData sender w = (.ok u, w')) :
    ∃ flags, Bound h proof extData w w' flags := by
  obtain ⟨-, w₁, w₂, w₃, h1, h2, -⟩ := transact_steps hok
  have hstorage := (takeDeposit_ok h1).storage
  obtain ⟨v₁, v₂, v₃, ht⟩ := transact_ok hok
  obtain ⟨index, t, hins, hs⟩ := ht.storage
  obtain ⟨-, hknown, -, hhash, hamount, ⟨flags, hflags, hnon, hmem⟩, hverify⟩ :=
    checkStatement_steps h2
  obtain ⟨-, hcanon, flags', verifier, hflags', hverifier, hroots, hverify⟩ :=
    verifyProof_steps hverify
  obtain rfl : flags' = flags := Option.some.inj (hflags'.symm.trans hflags)
  have hmember := aspRoot_checked hmem
  have hnonMember := aspRoot_checked hnon
  rw [hstorage] at hknown hflags hverifier hmember hnonMember
  have hc : CanonicalStatement flags' proof :=
    ⟨hcanon, hhash ▸ hashExtData_lt h extData, hroots⟩
  have hnullifier := congrArg Storage.nullifier hs
  have hmerkle := congrArg Storage.merkle hs
  refine ⟨flags', hflags, ⟨verifier, w₁.outside, hverifier, hverify, hmember, hnonMember⟩,
    hc.toU256, hc, hknown, (calculatePublicAmount_ok hamount).2.2.2, hhash, hnullifier,
    index, ?_⟩
  rw [hins]
  exact congrArg (Prod.mk _) hmerkle.symm

/-- A proof is bound to everything the transaction uses. An accepted
transaction's vector of public inputs was accepted by the verifier, and it
encodes the values acted on; the vector determines those values; and two
accepted transactions with one vector spend the same nullifiers, insert the
same commitments and hash their external data alike.

The checks of an accepted transaction make every entry of the vector canonical
(`transact_bound`), and on canonical values the encoding is injective
(`publicInputs_injective`); the length of the vector gives the number of
nullifiers. -/
theorem proof_is_bound (h : Host A L X) :
    (∀ auth proof extData sender (w w' : World A L X) u,
        transact h auth proof extData sender w = (.ok u, w') →
        ∃ flags, Bound h proof extData w w' flags) ∧
      (∀ flags p p', CanonicalStatement flags p → CanonicalStatement flags p' →
        publicInputs p flags = publicInputs p' flags → SameStatement flags p p') ∧
      ∀ auth₁ auth₂ p₁ p₂ ext₁ ext₂ sender₁ sender₂ (w₁ w₂ w₁' w₂' : World A L X) u₁ u₂ flags,
        transact h auth₁ p₁ ext₁ sender₁ w₁ = (.ok u₁, w₁') →
        transact h auth₂ p₂ ext₂ sender₂ w₂ = (.ok u₂, w₂') →
        w₁.storage.policyFlags = some flags → w₂.storage.policyFlags = some flags →
        publicInputs p₁ flags = publicInputs p₂ flags →
        p₁.inputNullifiers = p₂.inputNullifiers ∧
          p₁.outputCommitment0 = p₂.outputCommitment0 ∧
          p₁.outputCommitment1 = p₂.outputCommitment1 ∧
          hashExtData h ext₁ = hashExtData h ext₂ := by
  refine ⟨fun _ _ _ _ _ _ _ hok => transact_bound hok,
    fun _ _ _ hc hc' heq => publicInputs_injective hc hc' heq, ?_⟩
  intro auth₁ auth₂ p₁ p₂ ext₁ ext₂ sender₁ sender₂ w₁ w₂ w₁' w₂' u₁ u₂ flags hok₁ hok₂
    hflags₁ hflags₂ heq
  obtain ⟨flags₁, hb₁⟩ := transact_bound hok₁
  obtain ⟨flags₂, hb₂⟩ := transact_bound hok₂
  obtain rfl : flags₁ = flags := Option.some.inj (hb₁.policyFlags.symm.trans hflags₁)
  obtain rfl : flags₂ = flags₁ := Option.some.inj (hb₂.policyFlags.symm.trans hflags₂)
  have hsame := publicInputs_injective hb₁.canonical hb₂.canonical heq
  exact ⟨hsame.inputNullifiers, hsame.outputCommitment0, hsame.outputCommitment1,
    hb₁.extDataHash.trans (hsame.extDataHash.trans hb₂.extDataHash.symm)⟩

end Pool

end PrivacyWallet
