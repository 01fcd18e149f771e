import Mathlib.Algebra.Group.Action.Defs
import PrivacyWallet.Lib.Notes
import PrivacyWallet.Pool.Liabilities
import PrivacyWallet.Pool.Nullifiers
import PrivacyWallet.Pool.RootHistory

/-!
# No value is created inside the pool

The circuit proves an equation between amounts modulo the scalar field.
This module carries it to the integers and to whole runs. What the circuit
guarantees for an accepted statement is `PolicyTransaction`, relative to
the leaves of the tree its root belongs to; that the verifier accepts only
such statements is `VerifierSound`. The contract contributes the bound on
the external amount, the root history, the canonical encodings and the
nullifier marks.

The argument has four steps:

- **which tree** (`Constructed.known_root_of_prefix`): a root that the
  contract knows was the newest root after some prefix of the run, so an
  accepted statement opens over leaves that the pool really had
  (`Transacted.opens`). Leaves keep their positions, so it opens over the
  present ones too;
- **which integers** (`Opens.integer`): the amounts are range-checked and the
  external amount is bounded, so both sides of the equation are below half
  the modulus and the equation holds without it;
- **which notes** (`Transacted.nullifier_eq`): a note is a commitment at a
  position, and the scheme gives each its own nullifier. The marks after a
  transaction are the marks before and those of its inputs, so exactly the
  inputs leave the unspent notes (`Transacted.inputs_spent`) and exactly the
  outputs join them (`Conserved.outputs_unspent`);
- **the sum** (`Conserved.transact`): the accounting of `Lib.Notes` turns
  the three into the balance of all unspent notes.

`Conserved` is the invariant that is carried along the run: every note with
an amount has an opening, what is spent had been inserted, and the unspent
notes are worth the deposits minus the withdrawals. `notes_balance` reads it
off at every prefix, together with the equation of each transaction.
-/

namespace PrivacyWallet

namespace Pool

open InvokeM Notes

variable {A L X : Type} [DecidableEq A] {h : Host A L X} {w : World A L X}

/-! ## The tree along a run -/

/-- The leaves that the transactions inserted, as residues. -/
def insertedLeaves (txs : List (Tx A)) : List Bn254Fr :=
  txs.flatMap fun tx =>
    [.fromBytes tx.proof.outputCommitment0, .fromBytes tx.proof.outputCommitment1]

omit [DecidableEq A] in
@[simp] theorem insertedLeaves_append (l m : List (Tx A)) :
    insertedLeaves (l ++ m) = insertedLeaves l ++ insertedLeaves m := by
  simp [insertedLeaves]

omit [DecidableEq A] in
/-- Leaves keep their positions. -/
theorem insertedLeaves_mono {l m : List (Tx A)} (hlm : l <+: m) {i : Nat} {x : Bn254Fr}
    (hx : (insertedLeaves l)[i]? = some x) : (insertedLeaves m)[i]? = some x := by
  obtain ⟨k, rfl⟩ := hlm
  rw [insertedLeaves_append, List.getElem?_append_left (List.getElem?_eq_some_iff.mp hx).1]
  exact hx

/-- `r` was the newest root after `q`. -/
def NewestRoot (h : Host A L X) (w₀ : World A L X) (q : List (Step A L X)) (r : U256) :
    Prop :=
  (Merkle.getLastRoot (runs h w₀ q).storage.merkle).1 = .ok r

/-- A step inserts a pair for the transaction it accepts, or leaves the tree
alone. -/
theorem exec_merkle (w : World A L X) (s : Step A L X) :
    (exec h w s).storage.merkle = w.storage.merkle ∨
      ∃ a b index, Merkle.insertTwoLeaves h.poseidon2Compress a b w.storage.merkle
        = (.ok index, (exec h w s).storage.merkle) := by
  have hcases := step_cases (h := h) w s
  generalize Pool.exec h w s = w' at hcases ⊢
  generalize acceptedBy h w s = new at hcases
  cases hcases with
  | nothing => exact Or.inl rfl
  | transact ht =>
      obtain ⟨index, t, hins, hs⟩ := ht.storage
      have hmerkle : w'.storage.merkle = t := congrArg Storage.merkle hs
      rw [hmerkle]
      exact Or.inr ⟨_, _, index, hins⟩
  | collectYield hy =>
      rw [hy.storage]
      exact Or.inl rfl
  | administer ha => exact Or.inl ha.merkle
  | outside => exact Or.inl rfl

/-- All roots of a run's ring were the newest root at some point. -/
def RootsOf (h : Host A L X) (w₀ : World A L X) (levels : Nat)
    (pre : List (Step A L X)) : Prop :=
  ∃ roots, Merkle.HistoryInv levels roots (runs h w₀ pre).storage.merkle ∧
    ∀ r ∈ roots, ∃ q, q <+: pre ∧ NewestRoot h w₀ q r

/-- By induction on the run: a transaction writes one slot of the ring, with the root
that is newest from then on. -/
theorem Constructed.rootsOf {c : Config A} {w₀ : World A L X} (hc : Constructed h c w₀)
    (pre : List (Step A L X)) : RootsOf h w₀ c.levels pre := by
  induction pre using List.reverseRecOn with
  | nil =>
      obtain ⟨-, -, -, -, -, -, -, -, -, -, hinit⟩ := constructed_ok hc
      obtain ⟨-, ⟨root0, hr, -⟩, -⟩ := Merkle.init_ok hinit
      have hgrown : Merkle.Grown h.poseidon2Compress h.getZeroes c.levels [root0]
          w₀.storage.merkle := .init hinit hr
      refine ⟨[root0], hgrown.inv, fun r hmem => ⟨[], List.prefix_refl _, ?_⟩⟩
      obtain ⟨r', hr', hlast⟩ := Merkle.getLastRoot_run hgrown.inv
      obtain rfl := List.mem_singleton.mp hmem
      obtain rfl : r = r' := by simpa using hr'
      exact congrArg Prod.fst hlast
  | append_singleton pre s ih =>
      obtain ⟨roots, hinv, hnewest⟩ := ih
      have hold : ∀ r ∈ roots, ∃ q, q <+: pre ++ [s] ∧ NewestRoot h w₀ q r := by
        intro r hr
        obtain ⟨q, hq, hroot⟩ := hnewest r hr
        exact ⟨q, hq.trans (List.prefix_append pre [s]), hroot⟩
      rcases exec_merkle (h := h) (runs h w₀ pre) s with hsame | ⟨a, b, index, hins⟩
      · refine ⟨roots, ?_, hold⟩
        rw [runs_snoc, hsame]
        exact hinv
      · obtain ⟨hash, hinv', hlast⟩ := hinv.grow hins
        refine ⟨roots ++ [hash], ?_, fun r hr => ?_⟩
        · rw [runs_snoc]
          exact hinv'
        · rcases List.mem_append.mp hr with hr | hr
          · exact hold r hr
          · obtain rfl := List.mem_singleton.mp hr
            refine ⟨pre ++ [s], List.prefix_refl _, ?_⟩
            rw [NewestRoot, runs_snoc]
            exact congrArg Prod.fst hlast

/-- A root that the contract knows was the newest root earlier in the run. -/
theorem Constructed.known_root_of_prefix {c : Config A} {w₀ : World A L X}
    (hc : Constructed h c w₀) {pre : List (Step A L X)} {r : U256}
    (hknown : Merkle.isKnownRoot r (runs h w₀ pre).storage.merkle
      = (.ok true, (runs h w₀ pre).storage.merkle)) :
    ∃ q, q <+: pre ∧ NewestRoot h w₀ q r := by
  obtain ⟨roots, hinv, hnewest⟩ := hc.rootsOf pre
  obtain ⟨known, hrun, hiff⟩ := Merkle.isKnownRoot_run hinv r
  rw [hknown] at hrun
  obtain rfl : true = known := by simpa using hrun
  exact hnewest r (List.mem_of_mem_drop (hiff.mp rfl).2)

/-! ## What the circuit guarantees -/

/-- A note: a commitment at a leaf position. -/
abbrev Note : Type := Bn254Fr × Nat

/-- What is behind commitments: the amount each commits to, and the
nullifier of each note. -/
structure NoteScheme where
  amount : Bn254Fr → Nat
  nullifier : Note → Bn254Fr

namespace NoteScheme

variable (S : NoteScheme)

/-- The amount of a note. -/
def amt (k : Note) : Nat := S.amount k.1

/-- The nullifier of a note, as the contract stores it. -/
def nul (k : Note) : U256 := (S.nullifier k).toU256

variable {S}

theorem nul_injOn {N : Set Note} (hinj : Set.InjOn S.nullifier N) :
    Set.InjOn S.nul N :=
  fun _ hk _ hj heq => hinj hk hj (Bn254Fr.toU256_injective heq)

end NoteScheme

/-- `inputs` open the statement of `proof` over a tree with the leaves
`leaves`: the relation of the transaction circuit. `N` are the notes that
anyone knows an opening of. -/
structure Opens (S : NoteScheme) (N : Set Note) (leaves : List Bn254Fr) (proof : Proof)
    (inputs : List Note) : Prop where
  length_le : inputs.length ≤ 16
  nullifiers : proof.inputNullifiers.map .fromBytes = inputs.map S.nullifier
  distinct : (inputs.map S.nullifier).Nodup
  notes : ∀ k ∈ inputs, k ∈ N
  member : ∀ k ∈ inputs, S.amt k ≠ 0 → leaves[k.2]? = some k.1
  output0 : S.amount (.fromBytes proof.outputCommitment0) < 2 ^ 248
  output1 : S.amount (.fromBytes proof.outputCommitment1) < 2 ^ 248
  balance : (total S.amt inputs + proof.publicAmount.val) % bn256Modulus.val
    = (S.amount (.fromBytes proof.outputCommitment0)
        + S.amount (.fromBytes proof.outputCommitment1)) % bn256Modulus.val

/-- The statement of `proof` satisfies the circuit's relation. -/
def PolicyTransaction (S : NoteScheme) (N : Set Note) (leaves : List Bn254Fr)
    (proof : Proof) : Prop :=
  ∃ inputs, Opens S N leaves proof inputs

/-- The verifier accepts only statements that satisfy the relation over the
tree, among those of the run, that has the statement's root. -/
def VerifierSound (h : Host A L X) (c : Config A) (w₀ : World A L X)
    (steps : List (Step A L X)) (S : NoteScheme) (N : Set Note) : Prop :=
  ∀ q, q <+: steps → ∀ p proof o,
    h.verify c.verifier p (publicInputs proof c.policyFlags) o = .value true →
    NewestRoot h w₀ q proof.root →
      PolicyTransaction S N (insertedLeaves (accepted h w₀ q)) proof

namespace Opens

variable {S : NoteScheme} {N : Set Note} {leaves : List Bn254Fr} {proof : Proof}
  {inputs : List Note}

/-- The nullifiers of a canonical statement are those of its inputs. -/
theorem nullifiers_eq (ho : Opens S N leaves proof inputs)
    (hcanon : ∀ n ∈ proof.inputNullifiers, n < bn256Modulus) :
    proof.inputNullifiers = inputs.map S.nul := by
  calc proof.inputNullifiers
      = (proof.inputNullifiers.map Bn254Fr.fromBytes).map Bn254Fr.toU256 := by
        rw [List.map_map]
        refine (List.map_id _).symm.trans (List.map_congr_left fun n hn => ?_)
        exact (Bn254Fr.toU256_fromBytes (hcanon n hn)).symm
    _ = (inputs.map S.nullifier).map Bn254Fr.toU256 := by rw [ho.nullifiers]
    _ = inputs.map S.nul := by
        rw [List.map_map]
        rfl

theorem total_lt (ho : Opens S N leaves proof inputs)
    (hamounts : ∀ x ∈ leaves, S.amount x < 2 ^ 248) :
    total S.amt inputs ≤ 16 * 2 ^ 248 := by
  have hle : ∀ x ∈ inputs.map S.amt, x ≤ 2 ^ 248 := by
    intro x hx
    obtain ⟨k, hk, rfl⟩ := List.mem_map.mp hx
    by_cases hz : S.amt k = 0
    · rw [hz]
      exact Nat.zero_le _
    · exact (hamounts k.1 (List.mem_of_getElem? (ho.member k hk hz))).le
  calc total S.amt inputs ≤ (inputs.map S.amt).length • 2 ^ 248 :=
        List.sum_le_card_nsmul _ _ hle
    _ ≤ 16 * 2 ^ 248 := by
        rw [List.length_map, smul_eq_mul]
        exact Nat.mul_le_mul_right _ ho.length_le

/-- The equation of the circuit holds over the integers, with the external
amount in place of its residue. -/
theorem integer (ho : Opens S N leaves proof inputs) {v : Int}
    (hamounts : ∀ x ∈ leaves, S.amount x < 2 ^ 248) (hgt : -2 ^ 248 < v)
    (hlt : v < 2 ^ 248)
    (hpub : (proof.publicAmount.val : Int) = v % bn256Modulus.val) :
    (total S.amt inputs : Int) + v
      = S.amount (.fromBytes proof.outputCommitment0)
        + S.amount (.fromBytes proof.outputCommitment1) := by
  have htotal := ho.total_lt hamounts
  have hout0 := ho.output0
  have hout1 := ho.output1
  have hmod := two_pow_253_lt_modulus
  -- both sides agree modulo the field, and both are far smaller than it
  have hcongr : ((total S.amt inputs : Int) + v) % bn256Modulus.val
      = ((S.amount (.fromBytes proof.outputCommitment0) : Int)
        + S.amount (.fromBytes proof.outputCommitment1)) % bn256Modulus.val := by
    have hbal := congrArg (fun n : Nat => (n : Int)) ho.balance
    simp only [Int.natCast_emod, Int.natCast_add] at hbal
    rw [← hbal, hpub, Int.add_emod_emod]
  have hdvd : (bn256Modulus.val : Int)
      ∣ ((total S.amt inputs : Int) + v)
        - (S.amount (.fromBytes proof.outputCommitment0)
          + S.amount (.fromBytes proof.outputCommitment1)) :=
    Int.dvd_of_emod_eq_zero (Int.emod_eq_emod_iff_emod_sub_eq_zero.mp hcongr)
  have hzero := Int.eq_zero_of_abs_lt_dvd hdvd (by
    rw [abs_lt]
    constructor <;> omega)
  omega

end Opens

/-! ## The balance of all notes -/

/-- The notes that the transactions inserted. -/
def insertedNotes (txs : List (Tx A)) : List Note := (insertedLeaves txs).zipIdx

/-- What holds of the accepted transactions and the storage after them. -/
structure Conserved (c : Config A) (S : NoteScheme) (N : Set Note) (w : World A L X)
    (txs : List (Tx A)) : Prop where
  configured : Configured c w.storage
  amounts : ∀ x ∈ insertedLeaves txs, S.amount x < 2 ^ 248
  /-- A spent nullifier is that of a note, and of one in the tree if it has
  an amount. -/
  spent : ∀ n, w.storage.nullifier n = true →
    ∃ k ∈ N, S.nul k = n ∧ (S.amt k ≠ 0 → k.2 < (insertedLeaves txs).length)
  balance : (unspentTotal S.nul S.amt w.storage.nullifier (insertedNotes txs) : Int)
    = deposited txs - withdrawn txs

omit [DecidableEq A] in
/-- Positions tell the inserted notes apart, whatever the commitments are. -/
theorem insertedNotes_nodup (txs : List (Tx A)) : (insertedNotes txs).Nodup := by
  refine List.Nodup.of_map Prod.snd ?_
  rw [insertedNotes, List.zipIdx_map_snd]
  exact List.nodup_range'

/-- The notes that a transaction with the statement `proof` inserts after
`txs`. -/
def outputNotes (txs : List (Tx A)) (proof : Proof) : List Note :=
  [(.fromBytes proof.outputCommitment0, (insertedLeaves txs).length),
    (.fromBytes proof.outputCommitment1, (insertedLeaves txs).length + 1)]

omit [DecidableEq A] in
theorem insertedNotes_snoc (txs : List (Tx A)) (tx : Tx A) :
    insertedNotes (txs ++ [tx]) = insertedNotes txs ++ outputNotes txs tx.proof := by
  rw [insertedNotes, insertedLeaves_append, List.zipIdx_append, Nat.zero_add]
  rfl

omit [DecidableEq A] in
theorem insertedLeaves_length_snoc (txs : List (Tx A)) (tx : Tx A) :
    (insertedLeaves (txs ++ [tx])).length = (insertedLeaves txs).length + 2 := by
  simp [insertedLeaves]

omit [DecidableEq A] in
theorem total_outputNotes (S : NoteScheme) (txs : List (Tx A)) (proof : Proof) :
    total S.amt (outputNotes txs proof) = S.amount (.fromBytes proof.outputCommitment0)
      + S.amount (.fromBytes proof.outputCommitment1) := by
  simp [outputNotes, total, NoteScheme.amt]

omit [DecidableEq A] in
theorem le_index_of_mem_outputNotes {txs : List (Tx A)} {proof : Proof} {k : Note}
    (hk : k ∈ outputNotes txs proof) : (insertedLeaves txs).length ≤ k.2 := by
  simp only [outputNotes, List.mem_cons, List.not_mem_nil, or_false] at hk
  rcases hk with rfl | rfl
  · exact le_refl _
  · exact Nat.le_succ _

/-! ### One accepted transaction -/

section Transact

variable {c : Config A} {S : NoteScheme} {N : Set Note} {txs : List (Tx A)}
  {auth : List A} {proof : Proof} {extData : ExtData A} {sender : A}
  {w₁ w₂ w₃ w' : World A L X} {leaves : List Bn254Fr} {inputs : List Note}

omit [DecidableEq A] in
/-- An input with an amount is a note of the tree. -/
theorem Opens.inserted (ho : Opens S N leaves proof inputs)
    (hleaves : ∀ {i : Nat} {x : Bn254Fr}, leaves[i]? = some x →
      (insertedLeaves txs)[i]? = some x) :
    ∀ k ∈ inputs, S.amt k ≠ 0 → k ∈ insertedNotes txs ∧ k.2 < (insertedLeaves txs).length := by
  intro k hk hne
  have hleaf := hleaves (ho.member k hk hne)
  exact ⟨List.mem_zipIdx_iff_getElem?.mpr hleaf, (List.getElem?_eq_some_iff.mp hleaf).1⟩

omit [DecidableEq A] in
/-- The statement lists different nullifiers, so its inputs are different notes. -/
theorem Opens.distinct_nul (ho : Opens S N leaves proof inputs) :
    (inputs.map S.nul).Nodup := by
  have hmapped := ho.distinct.map Bn254Fr.toU256_injective
  rw [List.map_map] at hmapped
  exact hmapped

/-- The nullifiers that are spent afterwards are those that were, and those
of the inputs. -/
theorem Transacted.nullifier_eq (ht : Transacted h auth proof extData sender w w₁ w₂ w₃ w')
    (ho : Opens S N leaves proof inputs) :
    w'.storage.nullifier
      = fun n => w.storage.nullifier n || decide (n ∈ inputs.map S.nul) := by
  rw [ht.nullifiers, ho.nullifiers_eq ht.checked.canonical.nullifiers]

omit [DecidableEq A] in
/-- The outputs have openings, by the circuit; all other notes had theirs before. -/
theorem Conserved.amounts_after (hcons : Conserved c S N w txs)
    (ho : Opens S N leaves proof inputs) :
    ∀ x ∈ insertedLeaves (txs ++ [⟨proof, extData⟩]), S.amount x < 2 ^ 248 := by
  intro x hx
  rw [insertedLeaves_append, List.mem_append] at hx
  rcases hx with hold | hnew
  · exact hcons.amounts x hold
  · simp only [insertedLeaves, List.flatMap_cons, List.flatMap_nil, List.append_nil,
      List.mem_cons, List.not_mem_nil, or_false] at hnew
    rcases hnew with rfl | rfl
    · exact ho.output0
    · exact ho.output1

/-- What is spent afterwards had been inserted before, where it has an
amount. -/
theorem Conserved.spent_after (hcons : Conserved c S N w txs)
    (ht : Transacted h auth proof extData sender w w₁ w₂ w₃ w')
    (hleaves : ∀ {i : Nat} {x : Bn254Fr}, leaves[i]? = some x →
      (insertedLeaves txs)[i]? = some x)
    (ho : Opens S N leaves proof inputs) :
    ∀ n, w'.storage.nullifier n = true →
      ∃ k ∈ N, S.nul k = n ∧ (S.amt k ≠ 0 → k.2 < (insertedLeaves txs).length) := by
  intro n hn
  rw [ht.nullifier_eq ho] at hn
  rcases Bool.or_eq_true_iff.mp hn with hold | hnew
  · exact hcons.spent n hold
  · obtain ⟨k, hk, rfl⟩ := List.mem_map.mp (of_decide_eq_true hnew)
    exact ⟨k, ho.notes k hk, rfl, fun hne => (ho.inserted hleaves k hk hne).2⟩

/-- The new notes are unspent: only notes inserted before can be spent. -/
theorem Conserved.outputs_unspent (hcons : Conserved c S N w txs)
    (hinj : Set.InjOn S.nullifier N)
    (hN : ∀ k ∈ insertedNotes (txs ++ [⟨proof, extData⟩]), k ∈ N)
    (ht : Transacted h auth proof extData sender w w₁ w₂ w₃ w')
    (hleaves : ∀ {i : Nat} {x : Bn254Fr}, leaves[i]? = some x →
      (insertedLeaves txs)[i]? = some x)
    (ho : Opens S N leaves proof inputs) :
    ∀ k ∈ outputNotes txs proof, S.amt k ≠ 0 →
      w'.storage.nullifier (S.nul k) = false := by
  intro k hk hne
  rw [← Bool.not_eq_true]
  intro hsp
  obtain ⟨j, hj, heqj, hlt⟩ := hcons.spent_after ht hleaves ho _ hsp
  have hkN : k ∈ N := by
    refine hN k ?_
    rw [insertedNotes_snoc]
    exact List.mem_append_right _ hk
  obtain rfl : j = k := NoteScheme.nul_injOn hinj hj hkN heqj
  have hlt := hlt hne
  have hle := le_index_of_mem_outputNotes hk
  omega

/-- The inputs leave the unspent notes with their amounts. -/
theorem Transacted.inputs_spent
    (ht : Transacted h auth proof extData sender w w₁ w₂ w₃ w')
    (hinj : Set.InjOn S.nullifier N)
    (hN : ∀ k ∈ insertedNotes (txs ++ [⟨proof, extData⟩]), k ∈ N)
    (hleaves : ∀ {i : Nat} {x : Bn254Fr}, leaves[i]? = some x →
      (insertedLeaves txs)[i]? = some x)
    (ho : Opens S N leaves proof inputs) :
    unspentTotal S.nul S.amt w'.storage.nullifier (insertedNotes txs) + total S.amt inputs
      = unspentTotal S.nul S.amt w.storage.nullifier (insertedNotes txs) := by
  have hNold : ∀ k ∈ insertedNotes txs, k ∈ N := by
    intro k hk
    refine hN k ?_
    rw [insertedNotes_snoc]
    exact List.mem_append_left _ hk
  have hfresh : ∀ k ∈ inputs, w.storage.nullifier (S.nul k) = false := by
    intro k hk
    refine ht.unspent ?_
    rw [ho.nullifiers_eq ht.checked.canonical.nullifiers]
    exact List.mem_map_of_mem hk
  rw [ht.nullifier_eq ho]
  exact unspentTotal_spend (NoteScheme.nul_injOn hinj) hNold (insertedNotes_nodup txs)
    inputs w.storage.nullifier ho.notes ho.distinct_nul hfresh
    fun k hk hne => (ho.inserted hleaves k hk hne).1

/-- An accepted transaction: the inputs leave the unspent notes, the outputs join
them, and the equation says by how much the total moves. -/
theorem Conserved.transact (hinj : Set.InjOn S.nullifier N) (hcons : Conserved c S N w txs)
    (hc' : Configured c w'.storage)
    (hN : ∀ k ∈ insertedNotes (txs ++ [⟨proof, extData⟩]), k ∈ N)
    (ht : Transacted h auth proof extData sender w w₁ w₂ w₃ w')
    (hleaves : ∀ {i : Nat} {x : Bn254Fr}, leaves[i]? = some x →
      (insertedLeaves txs)[i]? = some x)
    (ho : Opens S N leaves proof inputs)
    (heq : (total S.amt inputs : Int) + extData.extAmount.val
      = S.amount (.fromBytes proof.outputCommitment0)
        + S.amount (.fromBytes proof.outputCommitment1)) :
    Conserved c S N w' (txs ++ [⟨proof, extData⟩]) where
  configured := hc'
  amounts := hcons.amounts_after ho
  spent := by
    intro n hn
    obtain ⟨k, hk, hkn, hlt⟩ := hcons.spent_after ht hleaves ho n hn
    refine ⟨k, hk, hkn, fun hne => ?_⟩
    rw [insertedLeaves_length_snoc]
    exact (hlt hne).trans (by omega)
  balance := by
    have hspend := ht.inputs_spent hinj hN hleaves ho
    have hone := deposited_sub_withdrawn_single ⟨proof, extData⟩
    have hbal := hcons.balance
    rw [insertedNotes_snoc,
      unspentTotal_append (hcons.outputs_unspent hinj hN ht hleaves ho), total_outputNotes,
      deposited_append, withdrawn_append]
    dsimp only at hone
    omega

end Transact

/-! ## Along runs -/

/-- An accepted transaction has an opening over a tree that the pool was in
before. -/
theorem Transacted.opens {c : Config A} {S : NoteScheme} {N : Set Note}
    {w₀ : World A L X} {steps pre : List (Step A L X)} {auth : List A} {proof : Proof}
    {extData : ExtData A} {sender : A} {w₁ w₂ w₃ w' : World A L X}
    (hc : Constructed h c w₀) (hsound : VerifierSound h c w₀ steps S N)
    (hpre : pre <+: steps)
    (ht : Transacted h auth proof extData sender (runs h w₀ pre) w₁ w₂ w₃ w') :
    ∃ q inputs, q <+: pre ∧ NewestRoot h w₀ q proof.root ∧
      Opens S N (insertedLeaves (accepted h w₀ q)) proof inputs := by
  have hknown := ht.checked.known
  rw [ht.taken.storage] at hknown
  obtain ⟨q, hq, hroot⟩ := hc.known_root_of_prefix hknown
  obtain ⟨o, hverify⟩ := ht.verified (hc.configured pre)
  obtain ⟨inputs, ho⟩ := hsound q (hq.trans hpre) proof.proof proof o hverify hroot
  exact ⟨q, inputs, hq, hroot, ho⟩

omit [DecidableEq A] in
theorem insertedNotes_mono {l m : List (Tx A)} (hlm : l <+: m) {k : Note}
    (hk : k ∈ insertedNotes l) : k ∈ insertedNotes m :=
  List.mem_zipIdx_iff_getElem?.mpr
    (insertedLeaves_mono hlm (List.mem_zipIdx_iff_getElem?.mp hk))

/-- The equation of an accepted transaction, over the integers. -/
theorem Conserved.integer {c : Config A} {S : NoteScheme} {N : Set Note}
    {txs : List (Tx A)} {auth : List A} {proof : Proof} {extData : ExtData A} {sender : A}
    {w₁ w₂ w₃ w' : World A L X} {leaves : List Bn254Fr} {inputs : List Note}
    (hcons : Conserved c S N w txs)
    (ht : Transacted h auth proof extData sender w w₁ w₂ w₃ w')
    (hleaves : ∀ {i : Nat} {x : Bn254Fr}, leaves[i]? = some x →
      (insertedLeaves txs)[i]? = some x)
    (ho : Opens S N leaves proof inputs) :
    (total S.amt inputs : Int) + extData.extAmount.val
      = S.amount (.fromBytes proof.outputCommitment0)
        + S.amount (.fromBytes proof.outputCommitment1) := by
  refine ho.integer (fun x hx => ?_) ht.checked.amount_gt ht.checked.amount_lt
    ht.checked.publicAmount
  obtain ⟨i, hi⟩ := List.mem_iff_getElem?.mp hx
  exact hcons.amounts x (List.mem_of_getElem? (hleaves hi))

/-- One step. Only a transaction moves notes or amounts; the other calls leave tree,
marks and transactions as they were. -/
theorem Conserved.exec {c : Config A} {S : NoteScheme} {N : Set Note} {w₀ : World A L X}
    {steps pre : List (Step A L X)} {s : Step A L X} (hc : Constructed h c w₀)
    (hinj : Set.InjOn S.nullifier N)
    (hN : ∀ k ∈ insertedNotes (accepted h w₀ steps), k ∈ N)
    (hsound : VerifierSound h c w₀ steps S N) (hpre : pre ++ [s] <+: steps)
    (hcons : Conserved c S N (runs h w₀ pre) (accepted h w₀ pre)) :
    Conserved c S N (exec h (runs h w₀ pre) s)
      (accepted h w₀ pre ++ acceptedBy h (runs h w₀ pre) s) := by
  have hc' := hcons.configured.exec (h := h) s
  have hpre' : pre <+: steps := (List.prefix_append pre [s]).trans hpre
  have hcases := step_cases (h := h) (runs h w₀ pre) s
  have hN' : ∀ k ∈ insertedNotes (accepted h w₀ pre ++ acceptedBy h (runs h w₀ pre) s),
      k ∈ N := by
    intro k hk
    rw [← accepted_snoc] at hk
    exact hN k (insertedNotes_mono ( accepted_prefix w₀ hpre) hk)
  generalize Pool.exec h (runs h w₀ pre) s = w' at hc' hcases ⊢
  generalize acceptedBy h (runs h w₀ pre) s = new at hcases hN' ⊢
  cases hcases with
  | nothing => simpa using hcons
  | transact ht =>
      obtain ⟨q, inputs, hq, -, ho⟩ := ht.opens hc hsound hpre'
      have hleaves : ∀ {i : Nat} {x : Bn254Fr},
          (insertedLeaves (accepted h w₀ q))[i]? = some x →
            (insertedLeaves (accepted h w₀ pre))[i]? = some x :=
        fun hx => insertedLeaves_mono ( accepted_prefix w₀ hq) hx
      exact hcons.transact hinj hc' hN' ht hleaves ho (hcons.integer ht hleaves ho)
  | collectYield hy =>
      rw [List.append_nil]
      exact ⟨hc', hcons.amounts, by rw [hy.storage]; exact hcons.spent,
        by rw [hy.storage]; exact hcons.balance⟩
  | administer ha =>
      rw [List.append_nil]
      exact ⟨hc', hcons.amounts, by rw [ha.nullifier]; exact hcons.spent,
        by rw [ha.nullifier]; exact hcons.balance⟩
  | outside =>
      rw [List.append_nil]
      exact ⟨hc', hcons.amounts, hcons.spent, hcons.balance⟩

/-- By induction on the run, from an empty tree without marks. -/
theorem Constructed.conserved {c : Config A} {S : NoteScheme} {N : Set Note}
    {w₀ : World A L X} (hc : Constructed h c w₀) (hinj : Set.InjOn S.nullifier N)
    {steps : List (Step A L X)}
    (hN : ∀ k ∈ insertedNotes (accepted h w₀ steps), k ∈ N)
    (hsound : VerifierSound h c w₀ steps S N) :
    Conserved c S N (runs h w₀ steps) (accepted h w₀ steps) := by
  have h0 : Conserved c S N w₀ ([] : List (Tx A)) := by
    obtain ⟨-, -, -, -, -, hnull, -⟩ := constructed_ok hc
    refine ⟨hc.configured [], fun x hx => ?_, fun n hn => ?_, rfl⟩
    · cases hx
    · rw [hnull] at hn
      cases hn
  exact Run.prefix_invariant h0 fun _ _ hpre hcons => hcons.exec hc hinj hN hsound hpre

/-- Under a sound verifier, every accepted transaction balances over the
integers, and in every state the unspent notes are worth exactly what was
deposited and not withdrawn.

The invariant `Conserved` is carried over the run, and an accepted step is
looked at in the state before it: the notes that its proof opens were inserted
and are unspent there, which turns the balance in the field into one of integers
(`Conserved.integer`). -/
theorem notes_balance (h : Host A L X) (c : Config A) (w₀ : World A L X)
    (hc : Constructed h c w₀) (steps : List (Step A L X)) (S : NoteScheme)
    (N : Set Note) (hinj : Set.InjOn S.nullifier N)
    (hN : ∀ k ∈ insertedNotes (accepted h w₀ steps), k ∈ N)
    (hsound : VerifierSound h c w₀ steps S N) :
    (∀ pre s, pre ++ [s] <+: steps → ∀ tx ∈ acceptedBy h (runs h w₀ pre) s,
      ∃ q inputs, q <+: pre ∧ NewestRoot h w₀ q tx.proof.root ∧
        Opens S N (insertedLeaves (accepted h w₀ q)) tx.proof inputs ∧
        (total S.amt inputs : Int) + tx.extData.extAmount.val
          = S.amount (.fromBytes tx.proof.outputCommitment0)
            + S.amount (.fromBytes tx.proof.outputCommitment1)) ∧
    ∀ pre, pre <+: steps →
      (unspentTotal S.nul S.amt (runs h w₀ pre).storage.nullifier
          (insertedNotes (accepted h w₀ pre)) : Int)
        = deposited (accepted h w₀ pre) - withdrawn (accepted h w₀ pre) ∧
      0 ≤ deposited (accepted h w₀ pre) - withdrawn (accepted h w₀ pre) := by
  have hall : ∀ pre, pre <+: steps →
      Conserved c S N (runs h w₀ pre) (accepted h w₀ pre) := by
    intro pre hpre
    refine hc.conserved hinj (fun k hk => ?_) fun q hq => hsound q (hq.trans hpre)
    exact hN k (insertedNotes_mono ( accepted_prefix w₀ hpre) hk)
  refine ⟨fun pre s hpre tx htx => ?_, fun pre hpre => ?_⟩
  · have hpre' : pre <+: steps := (List.prefix_append pre [s]).trans hpre
    have hcases := step_cases (h := h) (runs h w₀ pre) s
    generalize Pool.exec h (runs h w₀ pre) s = w' at hcases
    generalize acceptedBy h (runs h w₀ pre) s = new at hcases htx
    cases hcases with
    | transact ht =>
        obtain rfl := List.mem_singleton.mp htx
        obtain ⟨q, inputs, hq, hroot, ho⟩ := ht.opens hc hsound hpre'
        exact ⟨q, inputs, hq, hroot, ho, (hall pre hpre').integer ht
          (fun hx => insertedLeaves_mono ( accepted_prefix w₀ hq) hx) ho⟩
    | nothing => cases htx
    | collectYield => cases htx
    | administer => cases htx
    | outside => cases htx
  · have hbal := (hall pre hpre).balance
    refine ⟨hbal, ?_⟩
    rw [← hbal]
    exact Int.natCast_nonneg _

/-! ## The deposit of the small instance -/

/-- Commitments that are their amount, and nullifiers that are the position. -/
def tableScheme : NoteScheme where
  amount c := c.val
  nullifier k := ⟨k.2 % bn256Modulus.val, Nat.mod_lt _ bn256Modulus_pos⟩

/-- The two notes of the deposit, and the two empty notes it names as inputs. -/
def tableNotes : List Note :=
  [(.fromBytes ⟨150, deposited_fits⟩, 0), (.fromBytes 0, 1), (.fromBytes 0, 11),
    (.fromBytes 0, 12)]

/-- The small instance with a verifier that accepts the deposit only. -/
def depositHost : Host Nat (Nat → Nat → Nat) Nat :=
  { tableHost with
    verify := fun _ _ inputs _ => .value (decide (inputs = publicInputs tableProof 0)) }

theorem depositHost_constructed : Constructed depositHost tableConfig tableWorld :=
  ⟨fun _ _ => 500, 0, Prod.ext (by rfl) rfl⟩

theorem depositHost_accepted :
    accepted depositHost tableWorld [tableDeposit] = [⟨tableProof, tableExt⟩] := by
  rfl

theorem tableScheme_injOn : Set.InjOn tableScheme.nullifier {k | k ∈ tableNotes} := by
  intro k hk j hj heq
  have hmem : ∀ k, k ∈ tableNotes → k = (.fromBytes ⟨150, by norm_num⟩, 0)
      ∨ k = (.fromBytes 0, 1) ∨ k = (.fromBytes 0, 11) ∨ k = (.fromBytes 0, 12) := by
    intro k hk
    simpa [tableNotes] using hk
  rcases hmem k hk with rfl | rfl | rfl | rfl <;>
    rcases hmem j hj with rfl | rfl | rfl | rfl <;>
    first
      | rfl
      | exact absurd heq (by decide)

/-- Whatever has the public inputs of the deposit is a deposit of `150`. -/
theorem tableProof_policyTransaction (leaves : List Bn254Fr) {proof : Proof}
    (hpub : publicInputs proof 0 = publicInputs tableProof 0) :
    PolicyTransaction tableScheme {k | k ∈ tableNotes} leaves proof := by
  have hnull : proof.inputNullifiers.map Bn254Fr.fromBytes
      = [.fromBytes ⟨11, by norm_num⟩, .fromBytes ⟨12, by norm_num⟩] := by
    rw [← nullifierInputs_publicInputs, hpub, nullifierInputs_publicInputs]
    rfl
  have hrest : Bn254Fr.fromBytes proof.publicAmount = .fromBytes ⟨150, by norm_num⟩ ∧
      Bn254Fr.fromBytes proof.outputCommitment0 = .fromBytes ⟨150, by norm_num⟩ ∧
      Bn254Fr.fromBytes proof.outputCommitment1 = .fromBytes 0 := by
    have hm : Policy.requiresMembershipProofs 0 = false := by decide
    have hn : Policy.requiresNonMembershipProofs 0 = false := by decide
    simp only [publicInputs, hm, hn, hnull, Bool.false_eq_true, if_false, List.append_nil,
      List.cons_append, List.nil_append, tableProof, List.map_cons, List.map_nil,
      List.cons.injEq, and_true, true_and] at hpub
    exact ⟨hpub.2.1, hpub.2.2.2⟩
  obtain ⟨hamount, h0, h1⟩ := hrest
  refine ⟨[(.fromBytes 0, 11), (.fromBytes 0, 12)], ?_⟩
  refine { length_le := by decide, nullifiers := hnull, distinct := by decide,
           notes := by decide, member := fun k hk hne => ?_, output0 := ?_,
           output1 := ?_, balance := ?_ }
  · refine absurd ?_ hne
    simp only [List.mem_cons, List.not_mem_nil, or_false] at hk
    rcases hk with rfl | rfl <;> rfl
  · rw [h0]
    decide
  · rw [h1]
    decide
  · rw [h0, h1]
    have := congrArg Bn254Fr.val hamount
    simp only [Bn254Fr.fromBytes] at this
    have hzero : total tableScheme.amt [(.fromBytes 0, 11), (.fromBytes 0, 12)] = 0 := by
      decide
    rw [hzero, Nat.zero_add, this]
    decide

/-- After the deposit the unspent notes are worth `150`. -/
theorem notes_balance_table :
    (unspentTotal tableScheme.nul tableScheme.amt
        (runs depositHost tableWorld [tableDeposit]).storage.nullifier
        (insertedNotes (accepted depositHost tableWorld [tableDeposit])) : Int) = 150 := by
  have hbal := ((notes_balance depositHost tableConfig tableWorld depositHost_constructed
    [tableDeposit] tableScheme {k | k ∈ tableNotes} tableScheme_injOn (by
      rw [depositHost_accepted]
      decide)
    (fun q _ p proof o hverify _ => by
      refine tableProof_policyTransaction _ ?_
      simpa [depositHost, tableConfig] using hverify)).2 _ (List.prefix_refl _)).1
  rw [hbal, depositHost_accepted]
  decide

end Pool

end PrivacyWallet
