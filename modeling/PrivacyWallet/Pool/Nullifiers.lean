import PrivacyWallet.Pool.Runs

/-!
# No nullifier is spent twice

The contract looks nullifiers up as raw 256-bit words, the verifier sees
them as residues, and the marks are set only after the proof was checked.
`SpentInv` ties the three together over a run: the marks are exactly the
nullifiers of the accepted transactions, all of them are canonical, and no
two of them are the same residue.

Each field of the invariant needs one check of the contract:

- **unmarked** (`Transacted.unspent`) - no nullifier of an accepted
  transaction was marked before;
- **canonical** - its words are below the modulus, so a word with the residue
  of a mark *is* that mark (`SpentInv.marked_of_residue`), and being unmarked
  as a word means being unspent as a residue;
- **verified** (`Transacted.verified`) - within one transaction the marks are
  not consulted, and the verifier has to tell the inputs apart: that it does
  is the one thing that is assumed of it (`RejectsEqualNullifiers`).

`SpentInv.exec` puts them together for one step; the other calls leave marks
and accepted transactions alone.
-/

namespace PrivacyWallet

namespace Pool

open InvokeM

variable {A L X : Type} [DecidableEq A] {h : Host A L X} {w : World A L X}

/-- The nullifiers of the transactions, in order. -/
def nullifiersOf (txs : List (Tx A)) : List U256 :=
  txs.flatMap fun tx => tx.proof.inputNullifiers

omit [DecidableEq A] in
@[simp] theorem nullifiersOf_append (l m : List (Tx A)) :
    nullifiersOf (l ++ m) = nullifiersOf l ++ nullifiersOf m := by
  simp [nullifiersOf]

omit [DecidableEq A] in
theorem mem_nullifiersOf {txs : List (Tx A)} {n : U256} :
    n ∈ nullifiersOf txs ↔ ∃ tx ∈ txs, n ∈ tx.proof.inputNullifiers :=
  List.mem_flatMap

/-- The verifier accepts no public inputs with two equal nullifiers. -/
def RejectsEqualNullifiers (h : Host A L X) (c : Config A) : Prop :=
  ∀ p proof o, h.verify c.verifier p (publicInputs proof c.policyFlags) o = .value true →
    (proof.inputNullifiers.map Bn254Fr.fromBytes).Nodup

/-- What the marks in the storage mean after the accepted transactions. -/
structure SpentInv (c : Config A) (w : World A L X) (txs : List (Tx A)) : Prop where
  configured : Configured c w.storage
  marked : ∀ n, w.storage.nullifier n = true ↔ n ∈ nullifiersOf txs
  canonical : ∀ n ∈ nullifiersOf txs, n < bn256Modulus
  nodup : ((nullifiersOf txs).map Bn254Fr.fromBytes).Nodup

omit [DecidableEq A] in
/-- A canonical word that has the residue of a mark is that mark. -/
theorem SpentInv.marked_of_residue {c : Config A} {txs : List (Tx A)}
    (hs : SpentInv c w txs) {n m : U256} (hn : n < bn256Modulus)
    (hm : m ∈ nullifiersOf txs)
    (heq : Bn254Fr.fromBytes n = Bn254Fr.fromBytes m) : w.storage.nullifier n = true := by
  obtain rfl := Bn254Fr.fromBytes_injOn hn (hs.canonical m hm) heq
  exact (hs.marked n).mpr hm

/-- An accepted transaction marks its nullifiers, in order, and no others. -/
theorem Transacted.nullifiers {auth : List A} {proof : Proof} {extData : ExtData A}
    {sender : A} {w₁ w₂ w₃ w' : World A L X}
    (ht : Transacted h auth proof extData sender w w₁ w₂ w₃ w') :
    w'.storage.nullifier
        = fun n => w.storage.nullifier n || decide (n ∈ proof.inputNullifiers) := by
  obtain ⟨index, t, -, hs⟩ := ht.storage
  exact congrArg Storage.nullifier hs

/-- Each nullifier was looked up before it was marked, and was not there. -/
theorem Transacted.unspent {auth : List A} {proof : Proof} {extData : ExtData A}
    {sender : A} {w₁ w₂ w₃ w' : World A L X}
    (ht : Transacted h auth proof extData sender w w₁ w₂ w₃ w') {n : U256}
    (hn : n ∈ proof.inputNullifiers) : w.storage.nullifier n = false := by
  rw [← ht.taken.storage]
  exact ht.checked.unspent n hn

/-- The verifier's answer on an accepted transaction, under the contracts of
the construction. -/
theorem Transacted.verified {c : Config A} {auth : List A} {proof : Proof}
    {extData : ExtData A} {sender : A} {w₁ w₂ w₃ w' : World A L X}
    (ht : Transacted h auth proof extData sender w w₁ w₂ w₃ w')
    (hc : Configured c w.storage) :
    ∃ o, h.verify c.verifier proof.proof (publicInputs proof c.policyFlags) o
      = .value true := by
  obtain ⟨flags, verifier, hflags, hverifier, hok⟩ := ht.checked.verified
  rw [ht.taken.storage] at hflags hverifier
  obtain rfl : flags = c.policyFlags := Option.some.inj (hflags.symm.trans hc.policyFlags)
  obtain rfl : verifier = c.verifier := Option.some.inj (hverifier.symm.trans hc.verifier)
  exact ⟨w₁.outside, hok⟩

/-- New marks differ from the old ones by the lookup and from one another by the
verifier; being canonical carries both from words to residues. -/
theorem SpentInv.transact {c : Config A} {txs : List (Tx A)} {auth : List A}
    {proof : Proof} {extData : ExtData A} {sender : A} {w₁ w₂ w₃ w' : World A L X}
    (hv : RejectsEqualNullifiers h c) (hs : SpentInv c w txs)
    (hc' : Configured c w'.storage)
    (ht : Transacted h auth proof extData sender w w₁ w₂ w₃ w') :
    SpentInv c w' (txs ++ [⟨proof, extData⟩]) := by
  have hnew : nullifiersOf ([⟨proof, extData⟩] : List (Tx A)) = proof.inputNullifiers := by
    simp [nullifiersOf]
  have hcanon := ht.checked.canonical.nullifiers
  refine ⟨hc', fun n => ?_, fun n hn => ?_, ?_⟩
  · rw [ht.nullifiers, nullifiersOf_append, hnew, List.mem_append, ← hs.marked n]
    simp
  · rw [nullifiersOf_append, hnew, List.mem_append] at hn
    rcases hn with hold | hnew
    · exact hs.canonical n hold
    · exact hcanon n hnew
  · rw [nullifiersOf_append, hnew, List.map_append, List.nodup_append]
    obtain ⟨o, hverify⟩ := ht.verified hs.configured
    refine ⟨hs.nodup, hv _ proof o hverify, fun r hr r' hr' heq => ?_⟩
    obtain ⟨m, hm, rfl⟩ := List.mem_map.mp hr
    obtain ⟨n, hn, rfl⟩ := List.mem_map.mp hr'
    -- the new word would already be marked
    have hmarked := hs.marked_of_residue (hcanon n hn) hm heq.symm
    rw [ht.unspent hn] at hmarked
    cases hmarked

theorem SpentInv.exec {c : Config A} {txs : List (Tx A)}
    (hv : RejectsEqualNullifiers h c) (hs : SpentInv c w txs) (s : Step A L X) :
    SpentInv c (exec h w s) (txs ++ acceptedBy h w s) := by
  have hcases := step_cases (h := h) w s
  have hc' := hs.configured.exec (h := h) s
  generalize Pool.exec h w s = w' at hcases hc' ⊢
  generalize acceptedBy h w s = new at hcases ⊢
  cases hcases with
  | transact ht => exact hs.transact hv hc' ht
  | nothing => simpa using hs
  | collectYield hy =>
      rw [List.append_nil]
      exact ⟨hc', by rw [hy.storage]; exact hs.marked, hs.canonical, hs.nodup⟩
  | administer ha =>
      rw [List.append_nil]
      exact ⟨hc', by rw [ha.nullifier]; exact hs.marked, hs.canonical, hs.nodup⟩
  | outside =>
      rw [List.append_nil]
      exact ⟨hc', hs.marked, hs.canonical, hs.nodup⟩

theorem Constructed.spentInv {c : Config A} {w₀ : World A L X}
    (hc : Constructed h c w₀) (hv : RejectsEqualNullifiers h c)
    (steps : List (Step A L X)) :
    SpentInv c (runs h w₀ steps) (accepted h w₀ steps) := by
  have h0 : SpentInv c w₀ [] := by
    obtain ⟨-, -, -, -, -, hnull, -⟩ := constructed_ok hc
    refine ⟨hc.configured [], fun n => ?_, fun n hn => ?_, List.nodup_nil⟩
    · rw [hnull]
      simp [nullifiersOf]
    · cases hn
  exact Run.prefix_invariant h0 fun _ s _ hs => hs.exec hv s

/-- Over a whole run no residue is spent twice; no encoding of a spent
nullifier is accepted again; and the marks are exactly the nullifiers of
the accepted transactions.

The marks are the nullifiers of the accepted transactions at every moment of a
run (`spentInv`). A further transaction checks that its own are canonical and
not marked; two canonical encodings of one residue are equal, so no encoding of
a marked one passes. -/
theorem nullifiers_spent_once (h : Host A L X) (c : Config A) (w₀ : World A L X)
    (hc : Constructed h c w₀) (hv : RejectsEqualNullifiers h c)
    (steps : List (Step A L X)) :
    ((nullifiersOf (accepted h w₀ steps)).map Bn254Fr.fromBytes).Nodup ∧
    (∀ auth proof extData sender n m, n ∈ proof.inputNullifiers →
      isSpent m (runs h w₀ steps) = (.ok true, runs h w₀ steps) →
      Bn254Fr.fromBytes n = Bn254Fr.fromBytes m →
        (transact h auth proof extData sender (runs h w₀ steps)).1 ≠ .ok ()) ∧
    ∀ n, isSpent n (runs h w₀ steps) = (.ok true, runs h w₀ steps) ↔
      ∃ tx ∈ accepted h w₀ steps, n ∈ tx.proof.inputNullifiers := by
  have hs := hc.spentInv hv steps
  have hspent : ∀ n, isSpent n (runs h w₀ steps) = (.ok true, runs h w₀ steps) ↔
      n ∈ nullifiersOf (accepted h w₀ steps) := by
    intro n
    rw [← hs.marked n, isSpent, read_bind, pure_eq_ok, and_iff_left rfl]
  refine ⟨hs.nodup, fun auth proof extData sender n m hn hm heq hok => ?_, fun n => ?_⟩
  · have hrun : transact h auth proof extData sender (runs h w₀ steps)
        = (.ok (), (transact h auth proof extData sender (runs h w₀ steps)).2) :=
      Prod.ext hok rfl
    obtain ⟨w₁, w₂, w₃, ht⟩ := transact_ok hrun
    have hmarked := hs.marked_of_residue (ht.checked.canonical.nullifiers n hn)
      ((hspent m).mp hm) heq
    rw [ht.unspent hn] at hmarked
    cases hmarked
  · rw [hspent n, mem_nullifiersOf]

/-- The nullifiers of a vector are the residues of the proof's own. -/
theorem nullifierInputs_publicInputs (proof : Proof) :
    nullifierInputs (publicInputs proof 0)
      = proof.inputNullifiers.map Bn254Fr.fromBytes := by
  have hm : Policy.requiresMembershipProofs 0 = false := by decide
  have hn : Policy.requiresNonMembershipProofs 0 = false := by decide
  simp only [publicInputs, hm, hn, nullifierInputs, Bool.false_eq_true, if_false,
    List.append_nil, List.cons_append, List.nil_append, List.drop_succ_cons, List.drop_zero]
  rw [List.dropLast_append_of_ne_nil (by simp), List.dropLast_cons_cons,
    List.dropLast_singleton, List.dropLast_concat]

theorem tableHost_rejectsEqualNullifiers :
    RejectsEqualNullifiers tableHost tableConfig := by
  intro p proof o hverify
  have hnodup : (nullifierInputs (publicInputs proof 0)).Nodup := by
    simpa [tableHost, tableConfig] using hverify
  rwa [nullifierInputs_publicInputs] at hnodup

/-- After the deposit its nullifiers are spent, and submitting it again
fails. -/
theorem nullifiers_spent_once_table :
    (transact tableHost [7] tableProof tableExt 7
      (runs tableHost tableWorld [tableDeposit])).1 ≠ .ok () := by
  have hs := (nullifiers_spent_once tableHost tableConfig tableWorld
    tableWorld_constructed tableHost_rejectsEqualNullifiers [tableDeposit]).2
  have hmem : (⟨11, by norm_num⟩ : U256) ∈ tableProof.inputNullifiers := by decide
  refine hs.1 [7] tableProof tableExt 7 _ _ hmem ((hs.2 _).mpr ?_) rfl
  rw [tableDeposit_accepted]
  exact ⟨_, List.mem_singleton_self _, hmem⟩

end Pool

end PrivacyWallet
