import Mathlib.Data.Nat.Pairing
import PrivacyWallet.Circuits.Completeness
import PrivacyWallet.Pool.CircuitNotes

/-!
# From the circuit to the pool

The pool, the verifier and the circuit together. What is assumed of the
verifier is that an accepted proof has signals that satisfy the circuit
(`Extracts`), of the hash function that nothing a run hashed collides
(`TxsCollisionFree`). Then the accepted transactions of any run spend notes
of the tree, each at most once, with the amounts they were made with; so no
run pays out more than was paid in (`balance_of_circuit`).

The balance itself is the one of `Pool.Conservation`. What is added here is
where its openings come from:

- **the tree** (`Constructed.holdsTree`, `Constructed.root_eq_full`): contract
  and circuit hash alike, so the newest root of the pool is the root of the
  circuit's tree on the commitments so far;
- **the statement** (`publicSignals_eq`): the vector that was verified has the
  statement's values in it, part by part, so the signals are those of the
  statement that the contract acted on;
- **the opening** (`Constructed.signalsOpen`): the root of a transaction was
  newest after some prefix, and there the climb of the circuit ends at a leaf
  of the tree (`opens_of_circuit`);
- **the run** (`Constructed.conserved_of_open`): `Conserved` is carried as
  before, with these openings in the place of a sound verifier.

One scheme of notes has to serve the whole run: it is read off the signals
of all its transactions, and the absence of collisions makes it the one that
each of them used. The last section runs a deposit and a withdrawal from it.
-/

namespace PrivacyWallet

namespace Pool

open InvokeM Notes Circuits PrivacyWallet.BinaryTree

variable {A L X : Type} [DecidableEq A] {h : Host A L X} {w : World A L X}
variable {c : Config A} {w₀ : World A L X} {steps pre : List (Step A L X)}

/-! ## The tree holds the commitments of the run -/

/-- The contract hashes as the circuit does, and pads with `zero`. -/
structure SameHash (h : Host A L X) (P : Permutation) (zero : Fr) : Prop where
  compress : ∀ a b : Fr,
    h.poseidon2Compress a.toU256 b.toU256 = some (P.compress a b).toU256
  zeros : Merkle.ZerosOk h.poseidon2Compress h.getZeroes
  zero : h.getZeroes[0]? = some zero.toU256

/-- The storage holds the tree on the leaves. -/
def HoldsTree (h : Host A L X) (c : Config A) (zero : Fr) (leaves : List Fr)
    (s : Merkle.MerkleStorage U256) : Prop :=
  ∃ current, Merkle.TreeInv h.poseidon2Compress (fun i => h.getZeroes.getD i zero.toU256)
    c.levels current (leaves.map Bn254Fr.toU256) s

/-- The padding hashes of the contract are those of the constructed depth. -/
theorem Constructed.isPadding (hc : Constructed h c w₀) {P : Permutation} {zero : Fr}
    (hs : SameHash h P zero) :
    IsPadding h.poseidon2Compress (fun i => h.getZeroes.getD i zero.toU256) c.levels := by
  obtain ⟨-, -, -, -, -, -, -, -, -, -, hinit⟩ := constructed_ok hc
  obtain ⟨-, -, -, hzero⟩ := Merkle.init_ok hinit
  exact hs.zeros.isPadding fun i hi => (hzero i hi).2

/-- A transaction adds its two commitments. -/
theorem HoldsTree.transact {zero : Fr} {leaves : List Fr}
    (hpad : IsPadding h.poseidon2Compress (fun i => h.getZeroes.getD i zero.toU256) c.levels)
    (htree : HoldsTree h c zero leaves w.storage.merkle)
    {auth : List A} {proof : Proof} {extData : ExtData A} {sender : A}
    {w₁ w₂ w₃ w' : World A L X}
    (ht : Transacted h auth proof extData sender w w₁ w₂ w₃ w') :
    HoldsTree h c zero (leaves ++ insertedLeaves [⟨proof, extData⟩]) w'.storage.merkle := by
  obtain ⟨current, hinv⟩ := htree
  obtain ⟨index, t, hins, hstorage⟩ := ht.storage
  have hmerkle : w'.storage.merkle = t := congrArg Storage.merkle hstorage
  obtain ⟨rfl, hroom, -⟩ := Merkle.insertTwoLeaves_ok hinv.toCounters hins
  have hcanon := ht.checked.canonical
  have hleaves : (leaves ++ insertedLeaves [⟨proof, extData⟩]).map Bn254Fr.toU256
      = leaves.map Bn254Fr.toU256 ++ [proof.outputCommitment0, proof.outputCommitment1] := by
    simp [insertedLeaves, Bn254Fr.toU256_fromBytes hcanon.commitment0,
      Bn254Fr.toU256_fromBytes hcanon.commitment1]
  rcases Merkle.insertTwoLeaves_inv hinv hpad hroom proof.outputCommitment0
    proof.outputCommitment1 with ⟨s', hok, hinv'⟩ | ⟨x, y, s', -, htrap⟩
  · rw [hins, Prod.mk.injEq] at hok
    rw [hmerkle, hok.2]
    exact ⟨_, hleaves ▸ hinv'⟩
  · rw [hins] at htrap
    cases htrap

/-- Along a run the tree holds the commitments of the accepted
transactions. -/
theorem Constructed.holdsTree (hc : Constructed h c w₀) {P : Permutation} {zero : Fr}
    (hs : SameHash h P zero) (pre : List (Step A L X)) :
    HoldsTree h c zero (insertedLeaves (accepted h w₀ pre)) (runs h w₀ pre).storage.merkle := by
  have hpad := hc.isPadding hs
  induction pre using List.reverseRecOn with
  | nil =>
      obtain ⟨-, -, -, -, -, -, -, -, -, -, hinit⟩ := constructed_ok hc
      exact ⟨0, Merkle.init_inv hinit hpad⟩
  | append_singleton pre s ih =>
      rw [runs_snoc, accepted_snoc, insertedLeaves_append]
      have hcases := step_cases (h := h) (runs h w₀ pre) s
      generalize Pool.exec h (runs h w₀ pre) s = w' at hcases ⊢
      generalize acceptedBy h (runs h w₀ pre) s = new at hcases ⊢
      cases hcases with
      | nothing => exact (List.append_nil _).symm ▸ ih
      | transact ht => exact ih.transact hpad ht
      | collectYield hy =>
          rw [hy.storage]
          exact (List.append_nil _).symm ▸ ih
      | administer ha =>
          rw [ha.merkle]
          exact (List.append_nil _).symm ▸ ih
      | outside => exact (List.append_nil _).symm ▸ ih

/-- The newest root is the root of the tree on the commitments so far. -/
theorem Constructed.newestRoot (hc : Constructed h c w₀) {P : Permutation} {zero : Fr}
    (hs : SameHash h P zero) (pre : List (Step A L X)) :
    NewestRoot h w₀ pre
      (full P.compress (padded (insertedLeaves (accepted h w₀ pre)) zero) c.levels 0).toU256 := by
  obtain ⟨current, hinv⟩ := hc.holdsTree hs pre
  obtain ⟨r, hslot, hroot⟩ := hinv.root_eq
  have hlast : (Merkle.getLastRoot (runs h w₀ pre).storage.merkle).1 = .ok r := by
    rw [Merkle.getLastRoot, read_bind, hinv.current_eq, okOr_some_bind, hslot]
    rfl
  have hzero : h.getZeroes.getD 0 zero.toU256 = zero.toU256 := by
    rw [List.getD_eq_getElem?_getD, hs.zero, Option.getD_some]
  rw [hzero, padded_map, BinaryTree.root, node_eq_full hs.compress, Option.some.injEq] at hroot
  rw [NewestRoot, hroot, hlast]

/-- A root that was newest after `pre` is the root of the tree on the commitments that
`pre` inserted. -/
theorem Constructed.root_eq_full (hc : Constructed h c w₀) {P : Permutation} {zero : Fr}
    (hs : SameHash h P zero) {r : U256} (hnew : NewestRoot h w₀ pre r) :
    r = (full P.compress (padded (insertedLeaves (accepted h w₀ pre)) zero) c.levels 0).toU256 := by
  have hboth := hnew.symm.trans (hc.newestRoot hs pre)
  simpa using hboth

theorem Constructed.leaves_fit (hc : Constructed h c w₀) {P : Permutation} {zero : Fr}
    (hs : SameHash h P zero) (pre : List (Step A L X)) :
    (insertedLeaves (accepted h w₀ pre)).length ≤ 2 ^ c.levels := by
  obtain ⟨current, hinv⟩ := hc.holdsTree hs pre
  have hle := hinv.toCounters.le
  rwa [List.length_map] at hle

theorem Constructed.leaves_length_le (hc : Constructed h c w₀) {P : Permutation} {zero : Fr}
    (hs : SameHash h P zero) (pre : List (Step A L X)) :
    (insertedLeaves (accepted h w₀ pre)).length ≤ 2 ^ 32 := by
  obtain ⟨current, hinv⟩ := hc.holdsTree hs pre
  have hle := hinv.toCounters.le_capacity
  rw [List.length_map] at hle
  exact hle

/-! ## Runs whose statements open -/

/-- Every transaction that the steps accept opens over a tree that the pool
was in before. -/
def StatementsOpen (h : Host A L X) (w₀ : World A L X) (steps : List (Step A L X))
    (S : NoteScheme) (N : Set Note) : Prop :=
  ∀ pre s, pre ++ [s] <+: steps → ∀ tx ∈ acceptedBy h (runs h w₀ pre) s,
    ∃ q inputs, q <+: pre ∧ Opens S N (insertedLeaves (accepted h w₀ q)) tx.proof inputs

/-- One step of the run. Only an accepted transaction moves notes, and it opens over an
earlier tree, whose leaves have kept their positions. -/
theorem Conserved.exec_of_open {S : NoteScheme} {N : Set Note} {s : Step A L X}
    (hinj : Set.InjOn S.nullifier N) (hN : ∀ k ∈ insertedNotes (accepted h w₀ steps), k ∈ N)
    (hopen : StatementsOpen h w₀ steps S N) (hpre : pre ++ [s] <+: steps)
    (hcons : Conserved c S N (runs h w₀ pre) (accepted h w₀ pre)) :
    Conserved c S N (Pool.exec h (runs h w₀ pre) s)
      (accepted h w₀ pre ++ acceptedBy h (runs h w₀ pre) s) := by
  have hc' := hcons.configured.exec (h := h) s
  have hcases := step_cases (h := h) (runs h w₀ pre) s
  have hopens := hopen pre s hpre
  have hN' : ∀ k ∈ insertedNotes (accepted h w₀ pre ++ acceptedBy h (runs h w₀ pre) s),
      k ∈ N := by
    intro k hk
    rw [← accepted_snoc] at hk
    exact hN k (insertedNotes_mono ( accepted_prefix w₀ hpre) hk)
  generalize Pool.exec h (runs h w₀ pre) s = w' at hc' hcases ⊢
  generalize acceptedBy h (runs h w₀ pre) s = new at hcases hN' hopens ⊢
  cases hcases with
  | nothing => simpa using hcons
  | transact ht =>
      obtain ⟨q, inputs, hq, ho⟩ := hopens _ (List.mem_singleton.mpr rfl)
      have hleaves : ∀ {i : Nat} {x : Bn254Fr},
          (insertedLeaves (accepted h w₀ q))[i]? = some x →
            (insertedLeaves (accepted h w₀ pre))[i]? = some x :=
        fun hx => insertedLeaves_mono ( accepted_prefix w₀ hq) hx
      exact hcons.transact hinj hc' hN' ht hleaves ho (hcons.integer ht hleaves ho)
  | collectYield hy =>
      rw [List.append_nil]
      exact ⟨hc', hcons.amounts, by rw [hy.storage]; exact hcons.spent,
        by rw [hy.storage]; exact hcons.balance⟩
  | administer ha =>
      rw [List.append_nil]
      exact ⟨hc', hcons.amounts, by rw [ha.nullifier]; exact hcons.spent,
        by rw [ha.nullifier]; exact hcons.balance⟩
  | outside =>
      rw [List.append_nil]
      exact ⟨hc', hcons.amounts, hcons.spent, hcons.balance⟩

/-- The balance along a run all of whose transactions open. -/
theorem Constructed.conserved_of_open {S : NoteScheme} {N : Set Note}
    (hc : Constructed h c w₀) (hinj : Set.InjOn S.nullifier N)
    (hN : ∀ k ∈ insertedNotes (accepted h w₀ steps), k ∈ N)
    (hopen : StatementsOpen h w₀ steps S N) :
    Conserved c S N (runs h w₀ steps) (accepted h w₀ steps) := by
  have h0 : Conserved c S N w₀ ([] : List (Tx A)) := by
    obtain ⟨-, -, -, -, -, hnull, -⟩ := constructed_ok hc
    refine ⟨hc.configured [], fun x hx => ?_, fun n hn => ?_, rfl⟩
    · cases hx
    · rw [hnull] at hn
      cases hn
  exact Run.prefix_invariant h0 fun _ _ hpre hcons => hcons.exec_of_open hinj hN hopen hpre

/-! ## What the verifier accepts -/

variable {nIns smtLevels : Nat} {C : Circomlib} {P : Permutation} {zero : Fr}

/-- The signals have the parts that the policy asks for. -/
structure Fits {levels : Nat} (flags : UInt32) (s : PolicySignals nIns levels smtLevels) :
    Prop where
  membership : s.membership.isSome = Policy.requiresMembershipProofs flags
  nonMembership : s.nonMembership.isSome = Policy.requiresNonMembershipProofs flags

/-- An accepted proof has signals that satisfy the circuit of the pool's
policy, with the public inputs of the statement. -/
def Extracts (C : Circomlib) (P : Permutation) (h : Host A L X) (c : Config A)
    (extract : Proof → PolicySignals nIns c.levels smtLevels) : Prop :=
  ∀ proof o, h.verify c.verifier proof.proof (publicInputs proof c.policyFlags) o
    = .value true →
      PolicyCircuit C P (extract proof) ∧ Fits c.policyFlags (extract proof) ∧
        (extract proof).publicSignals = publicInputs proof c.policyFlags

/-- Equal vectors are equal part by part, if the parts before the last have
the same lengths. -/
theorem parts_eq {a a' x x' o o' m m' n n' : List Fr}
    (heq : a ++ x ++ o ++ m ++ n = a' ++ x' ++ o' ++ m' ++ n') (ha : a.length = a'.length)
    (hx : x.length = x'.length) (ho : o.length = o'.length) (hm : m.length = m'.length) :
    a = a' ∧ x = x' ∧ o = o' ∧ m = m' := by
  obtain ⟨h4, -⟩ := List.append_inj heq (by simp [ha, hx, ho, hm])
  obtain ⟨h3, hm'⟩ := List.append_inj h4 (by simp [ha, hx, ho])
  obtain ⟨h2, ho'⟩ := List.append_inj h3 (by simp [ha, hx])
  obtain ⟨h1, hx'⟩ := List.append_inj h2 ha
  exact ⟨h1, hx', ho', hm'⟩

/-- Signals with the public inputs of a statement are those of the
statement. -/
theorem publicSignals_eq {levels : Nat} {s : PolicySignals nIns levels smtLevels} {proof : Proof}
    {flags : UInt32} (hfit : Fits flags s) (heq : s.publicSignals = publicInputs proof flags) :
    States s.core proof ∧ ∀ m ∈ s.membership, ∀ tx,
      m.roots tx 0 = .fromBytes proof.aspMembershipRoot := by
  have hM : (s.membership.elim [] fun m => List.ofFn fun tx => m.roots tx 0).length
      = if Policy.requiresMembershipProofs flags = true then nIns else 0 := by
    rw [← hfit.membership]
    cases s.membership with
    | none => rfl
    | some m => exact List.length_ofFn
  have hN : (s.nonMembership.elim [] fun m => List.ofFn fun tx => m.roots tx 0).length
      = if Policy.requiresNonMembershipProofs flags = true then nIns else 0 := by
    rw [← hfit.nonMembership]
    cases s.nonMembership with
    | none => rfl
    | some m => exact List.length_ofFn
  have hM' : (if Policy.requiresMembershipProofs flags = true then
      List.replicate proof.inputNullifiers.length (Bn254Fr.fromBytes proof.aspMembershipRoot)
      else []).length
      = if Policy.requiresMembershipProofs flags = true then proof.inputNullifiers.length
        else 0 := by
    split <;> simp
  have hN' : (if Policy.requiresNonMembershipProofs flags = true then
      List.replicate proof.inputNullifiers.length (Bn254Fr.fromBytes proof.aspNonMembershipRoot)
      else []).length
      = if Policy.requiresNonMembershipProofs flags = true then proof.inputNullifiers.length
        else 0 := by
    split <;> simp
  -- the length of the whole vector gives the number of nullifiers
  have hlen : nIns = proof.inputNullifiers.length := by
    have hall := congrArg List.length heq
    rw [PolicySignals.publicSignals, publicInputs, List.length_append, List.length_append,
      List.length_append, List.length_append, List.length_append, List.length_append,
      List.length_append, List.length_append, hM, hN, hM', hN', List.length_ofFn,
      List.length_ofFn, List.length_map] at hall
    simp only [List.length_cons, List.length_nil] at hall
    split_ifs at hall <;> omega
  obtain ⟨hhead, hnul, hout, hroots⟩ := parts_eq heq rfl (by simp [hlen]) (by simp)
    (by rw [hM, hM', hlen])
  simp only [List.cons.injEq, and_true] at hhead
  refine ⟨⟨hhead.1, hhead.2.1, hnul, ?_, ?_⟩, fun m hm tx => ?_⟩
  · exact (List.cons.inj hout).1
  · exact (List.cons.inj (List.cons.inj hout).2).1
  · have hreq : Policy.requiresMembershipProofs flags = true := by
      rw [← hfit.membership, Option.mem_def.mp hm]
      rfl
    rw [Option.mem_def.mp hm, if_pos hreq] at hroots
    refine List.eq_of_mem_replicate (n := proof.inputNullifiers.length) ?_
    rw [← hroots]
    exact List.mem_ofFn.mpr ⟨tx, rfl⟩

/-! ## Whole runs -/

variable {extract : Proof → PolicySignals nIns c.levels smtLevels}

/-- The signals of the transactions. -/
def signalsOf {levels : Nat} (extract : Proof → PolicySignals nIns levels smtLevels)
    (txs : List (Tx A)) : List (Signals nIns levels) :=
  txs.map fun tx => (extract tx.proof).core

/-- The notes that the transactions insert or spend. -/
def notesOf {levels : Nat} (P : Permutation) (extract : Proof → PolicySignals nIns levels smtLevels)
    (txs : List (Tx A)) : List Note :=
  insertedNotes txs ++ (signalsOf extract txs).flatMap (Signals.inNotes P)

/-- Nothing that the transactions and their trees hash collides. -/
def TxsCollisionFree {levels : Nat} (P : Permutation)
    (extract : Proof → PolicySignals nIns levels smtLevels) (zero : Fr) (txs : List (Tx A)) :
    Prop :=
  CollisionFree P (signalsOf extract txs) (insertedLeaves txs) zero (notesOf P extract txs)

theorem Constructed.levels_pos (hc : Constructed h c w₀) : 1 ≤ c.levels := by
  obtain ⟨-, -, -, -, -, -, -, -, -, -, hinit⟩ := constructed_ok hc
  exact (Merkle.init_ok hinit).1.levels_pos

theorem Constructed.levels_le (hc : Constructed h c w₀) : c.levels ≤ 32 := by
  obtain ⟨-, -, -, -, -, -, -, -, -, -, hinit⟩ := constructed_ok hc
  exact (Merkle.init_ok hinit).1.levels_le

/-- What the verifier accepted in the run satisfies the circuit. -/
theorem Transacted.circuit (hc : Constructed h c w₀) (hext : Extracts C P h c extract)
    {auth : List A} {proof : Proof} {extData : ExtData A} {sender : A}
    {w₁ w₂ w₃ w' : World A L X}
    (ht : Transacted h auth proof extData sender (runs h w₀ pre) w₁ w₂ w₃ w') :
    PolicyCircuit C P (extract proof) ∧ States (extract proof).core proof ∧
      ∀ m ∈ (extract proof).membership, ∀ tx,
        m.roots tx 0 = .fromBytes proof.aspMembershipRoot := by
  obtain ⟨o, hverify⟩ := ht.verified (hc.configured pre)
  obtain ⟨hcirc, hfit, hsig⟩ := hext proof o hverify
  exact ⟨hcirc, publicSignals_eq hfit hsig⟩

/-- The notes of an accepted transaction, as its signals have them. -/
structure SignalsOpen (P : Permutation) (h : Host A L X) (w₀ : World A L X)
    (pre : List (Step A L X)) (S : NoteScheme) (N : Set Note) {levels : Nat}
    (w : Signals nIns levels) (proof : Proof) : Prop where
  inAmount : ∀ i, S.amount (w.inCommitment P i) = (w.inAmount i).val
  outAmount : S.amount (.fromBytes proof.outputCommitment0) = (w.outAmount 0).val ∧
    S.amount (.fromBytes proof.outputCommitment1) = (w.outAmount 1).val
  opens : ∃ q, q <+: pre ∧
    Opens S N (insertedLeaves (accepted h w₀ q)) proof (Signals.inNotes P w)

/-- The signals of an accepted transaction open its statement: their root was newest
after a prefix of the run, and their amounts are those of the scheme. -/
theorem Constructed.signalsOpen (hc : Constructed h c w₀) (hC : C.Documented)
    (hs : SameHash h P zero) (hn : nIns ≤ 16) (hext : Extracts C P h c extract)
    (hf : TxsCollisionFree P extract zero (accepted h w₀ steps)) {s : Step A L X}
    (hpre : pre ++ [s] <+: steps) {tx : Tx A} (htx : tx ∈ acceptedBy h (runs h w₀ pre) s) :
    SignalsOpen P h w₀ pre (scheme P (signalsOf extract (accepted h w₀ steps)))
      {k | k ∈ notesOf P extract (accepted h w₀ steps)} (extract tx.proof).core tx.proof := by
  have hmem : tx ∈ accepted h w₀ steps := by
    refine ( accepted_prefix w₀ hpre).subset ?_
    rw [accepted_snoc]
    exact List.mem_append_right _ htx
  have hcases := step_cases (h := h) (runs h w₀ pre) s
  generalize Pool.exec h (runs h w₀ pre) s = w' at hcases
  generalize acceptedBy h (runs h w₀ pre) s = new at hcases htx
  cases hcases with
  | nothing => cases htx
  | collectYield => cases htx
  | administer => cases htx
  | outside => cases htx
  | transact ht =>
      obtain rfl := List.mem_singleton.mp htx
      obtain ⟨hcirc, hstates, -⟩ := ht.circuit hc hext
      have hknown := ht.checked.known
      rw [ht.taken.storage] at hknown
      obtain ⟨q, hq, hnew⟩ := hc.known_root_of_prefix hknown
      have hroot := hstates.root
      rw [hc.root_eq_full hs hnew, Bn254Fr.fromBytes_toU256] at hroot
      have hw : (extract _).core ∈ signalsOf extract (accepted h w₀ steps) :=
        List.mem_map_of_mem hmem
      refine ⟨fun i => hf.amount_in hw i, hf.amount_states hw hcirc.transaction hstates, q, hq,
        opens_of_circuit hC (hc.levels_le.trans (by omega)) hn hf hw
          hcirc.transaction hstates ?_ hroot fun k hk => ?_⟩
      · have hlater : q <+: steps := hq.trans ((List.prefix_append pre _).trans hpre)
        obtain ⟨rest, hrest⟩ := accepted_prefix (h := h) w₀ hlater
        rw [← hrest, insertedLeaves_append]
        exact List.prefix_append _ _
      · exact List.mem_append_right _ (List.mem_flatMap.mpr ⟨_, hw, hk⟩)

/-- Positions in a tree and in a proof are far below the modulus. -/
theorem Constructed.notes_small (hc : Constructed h c w₀) (hs : SameHash h P zero)
    (extract : Proof → PolicySignals nIns c.levels smtLevels) :
    ∀ k ∈ notesOf P extract (accepted h w₀ steps), k.2 < bn256Modulus.val := by
  intro k hk
  rcases List.mem_append.mp hk with hk | hk
  · have hlt := (List.getElem?_eq_some_iff.mp (List.mem_zipIdx_iff_getElem?.mp hk)).1
    have hle := hc.leaves_length_le hs steps
    have hmod := two_pow_253_lt_modulus
    omega
  · obtain ⟨w, -, hk⟩ := List.mem_flatMap.mp hk
    obtain ⟨tx, rfl⟩ := List.mem_ofFn.mp hk
    exact (w.inPathIndices tx).lt

/-- If the verifier accepts only what has signals that satisfy the circuit,
and nothing that a run hashed collides, then the signals of each accepted
transaction open notes of the tree with the amounts they were made with,
and in every state the unspent notes are worth what was deposited and not
withdrawn: no run pays out more than was paid in.

The notes of the abstract scheme are read off the signals, so what the verifier
was assumed to know in `notes_balance` is proved here of each accepted
transaction (`signalsOpen`), and the invariant of that module applies. -/
theorem balance_of_circuit (C : Circomlib) (hC : C.Documented) (P : Permutation)
    (h : Host A L X) (c : Config A) (w₀ : World A L X) (hc : Constructed h c w₀) (zero : Fr)
    (hs : SameHash h P zero) (hn : nIns ≤ 16)
    (extract : Proof → PolicySignals nIns c.levels smtLevels)
    (hext : Extracts C P h c extract) (steps : List (Step A L X))
    (hf : TxsCollisionFree P extract zero (accepted h w₀ steps)) :
    ∃ S N, Set.InjOn S.nullifier N ∧
      (∀ k ∈ insertedNotes (accepted h w₀ steps), k ∈ N) ∧
      (∀ pre s, pre ++ [s] <+: steps → ∀ tx ∈ acceptedBy h (runs h w₀ pre) s,
        SignalsOpen P h w₀ pre S N (extract tx.proof).core tx.proof) ∧
      ∀ pre, pre <+: steps →
        (unspentTotal S.nul S.amt (runs h w₀ pre).storage.nullifier
            (insertedNotes (accepted h w₀ pre)) : Int)
          = deposited (accepted h w₀ pre) - withdrawn (accepted h w₀ pre) ∧
        withdrawn (accepted h w₀ pre) ≤ deposited (accepted h w₀ pre) := by
  have hinj := hf.nullifier_injOn (hc.notes_small hs extract)
  have hN : ∀ k ∈ insertedNotes (accepted h w₀ steps),
      k ∈ notesOf P extract (accepted h w₀ steps) := fun k hk => List.mem_append_left _ hk
  refine ⟨_, {k | k ∈ notesOf P extract (accepted h w₀ steps)}, hinj, hN,
    fun pre s hpre tx htx => hc.signalsOpen hC hs hn hext hf hpre htx, fun pre hpre => ?_⟩
  have hopen : StatementsOpen h w₀ pre (scheme P (signalsOf extract (accepted h w₀ steps)))
      {k | k ∈ notesOf P extract (accepted h w₀ steps)} := by
    intro pre' s hpre' tx htx
    obtain ⟨q, hq, ho⟩ := (hc.signalsOpen hC hs hn hext hf (hpre'.trans hpre) htx).opens
    exact ⟨q, _, hq, ho⟩
  have hcons := hc.conserved_of_open hinj
    (fun k hk => hN k (insertedNotes_mono ( accepted_prefix w₀ hpre) hk)) hopen
  have hbal := hcons.balance
  refine ⟨hbal, ?_⟩
  have hpos := Int.natCast_nonneg (unspentTotal
    (scheme P (signalsOf extract (accepted h w₀ steps))).nul
    (scheme P (signalsOf extract (accepted h w₀ steps))).amt
    (runs h w₀ pre).storage.nullifier (insertedNotes (accepted h w₀ pre)))
  omega

/-! ## A deposit with its signals -/

/-- Commitments that are their amount, and nullifiers that tell the notes of
one small tree apart. -/
def smallPermutation : Permutation where
  t2 a b := .ofNat (a.val * (2 ^ 100 - 1) + b.val)
  t3 a _ _ := a
  t4 a b _ sep := if sep = .ofNat 0x01 then a else .ofNat (1000 + b.val + 10 * a.val)

/-- The padding leaf. -/
def smallZero : Fr := .ofNat 7

def smallRoot : Fr := smallPermutation.compress smallZero smallZero

/-- The deposit of `150`, in a tree with two leaves. -/
def smallProof : Proof :=
  { tableProof with
    root := smallRoot.toU256
    inputNullifiers := [(Bn254Fr.ofNat 1000).toU256, (Bn254Fr.ofNat 1001).toU256] }

def smallSignals : PolicySignals 2 1 1 where
  core :=
    { root := smallRoot
      publicAmount := .ofNat 150
      extDataHash := 0
      inputNullifier := fun i => .ofNat (1000 + i.val)
      outputCommitment := fun i => .ofNat (if i.val = 0 then 150 else 0)
      inAmount := fun _ => 0
      inPrivateKey := fun _ => 0
      inBlinding := fun _ => 0
      inPathIndices := fun i => .ofNat i.val
      inPathElements := fun _ _ => 0
      outAmount := fun i => .ofNat (if i.val = 0 then 150 else 0)
      outPubkey := fun _ => 0
      outBlinding := fun _ => 0 }
  membership := none
  nonMembership := none

def smallHost : Host Nat (Nat → Nat → Nat) Nat :=
  { tableHost with
    verify := fun _ _ inputs _ => .value (decide (inputs = smallSignals.publicSignals))
    poseidon2Compress := fun a b =>
      some (smallPermutation.compress (.fromBytes a) (.fromBytes b)).toU256
    getZeroes := [smallZero.toU256, smallRoot.toU256] }

def smallConfig : Config Nat := { tableConfig with levels := 1 }

def smallWorld : World Nat (Nat → Nat → Nat) Nat :=
  (constructor smallHost smallConfig (.deploy (fun _ _ => 500) 0)).2

def smallDeposit : Step Nat (Nat → Nat → Nat) Nat :=
  .call [7] (.transact smallProof tableExt 7)

theorem smallWorld_constructed : Constructed smallHost smallConfig smallWorld :=
  ⟨fun _ _ => 500, 0, Prod.ext (by rfl) rfl⟩

theorem smallDeposit_accepted :
    accepted smallHost smallWorld [smallDeposit] = [⟨smallProof, tableExt⟩] := by
  rfl

theorem smallHost_sameHash : SameHash smallHost smallPermutation smallZero where
  compress a b := by
    show some (smallPermutation.compress (.fromBytes a.toU256) (.fromBytes b.toU256)).toU256 = _
    rw [Bn254Fr.fromBytes_toU256, Bn254Fr.fromBytes_toU256]
  zeros := by
    intro i z z' hz hz'
    rcases i with _ | i
    · cases hz
      cases hz'
      decide
    · simp [smallHost] at hz'
  zero := rfl

/-- Signals without proofs of association satisfy the circuit if they make
their statement. -/
theorem policyCircuit_of_statement {P : Permutation} {levels : Nat} (hlevels : levels ≤ 253)
    {w : TransactionSignals 2 2 levels} (h : Statement P w) :
    PolicyCircuit Circomlib.plain P (⟨w, none, none⟩ : PolicySignals 2 levels 1) where
  transaction := (PolicyTransaction.iff_statement Circomlib.plain_documented
    Circomlib.plain_complete hlevels).mpr h
  membership m hm := by cases hm
  nonMembership m hm := by cases hm

theorem smallSignals_circuit :
    PolicyCircuit Circomlib.plain smallPermutation smallSignals :=
  policyCircuit_of_statement (by decide)
    { nullifiers := by decide
      positions := by decide
      opens := fun tx hne => absurd rfl hne
      outputs := by decide
      ranges := by decide
      distinct := by decide
      balance := by decide }

/-- On small numbers the compression is a pairing. -/
theorem smallPermutation_compress_injOn :
    Set.InjOn (fun q : Fr × Fr => smallPermutation.compress q.1 q.2)
      {q | q.1.val < 2 ^ 100 ∧ q.2.val < 2 ^ 100} := by
  have hval : ∀ a b : Fr, a.val < 2 ^ 100 → b.val < 2 ^ 100 →
      (smallPermutation.compress a b).val = a.val * 2 ^ 100 + b.val := by
    intro a b ha hb
    have hmod := two_pow_253_lt_modulus
    show ((a.val * (2 ^ 100 - 1) + b.val) % bn256Modulus.val + a.val) % bn256Modulus.val = _
    rw [Nat.mod_add_mod, Nat.mod_eq_of_lt (by omega)]
    omega
  rintro ⟨a, b⟩ ⟨ha, hb⟩ ⟨a', b'⟩ ⟨ha', hb'⟩ heq
  have hnum := congrArg Bn254Fr.val heq
  dsimp only at ha hb ha' hb' hnum
  rw [hval a b ha hb, hval a' b' ha' hb'] at hnum
  have hfst : a.val = a'.val := by omega
  have hsnd : b.val = b'.val := by omega
  exact Prod.ext (Bn254Fr.ext_val hfst) (Bn254Fr.ext_val hsnd)

/-! ## A deposit and a withdrawal from it -/

/-- The same commitments and nullifiers, in trees of any depth: the compression
pairs the numbers. -/
def pairPermutation : Permutation :=
  { smallPermutation with
    t2 := fun a b => .ofNat (Nat.pair a.val b.val + (bn256Modulus.val - a.val)) }

/-- The roots of the empty tree with two leaves, and with four. -/
def pairZero1 : Fr := pairPermutation.compress smallZero smallZero

def pairZero2 : Fr := pairPermutation.compress pairZero1 pairZero1

/-- The deposit of `150`, in a tree with four leaves. -/
def pairDeposit : PolicySignals 2 2 1 where
  core :=
    { root := pairZero2
      publicAmount := .ofNat 150
      extDataHash := 0
      inputNullifier := fun i => .ofNat (1000 + i.val)
      outputCommitment := fun i => .ofNat (if i.val = 0 then 150 else 0)
      inAmount := fun _ => 0
      inPrivateKey := fun _ => 0
      inBlinding := fun _ => 0
      inPathIndices := fun i => .ofNat i.val
      inPathElements := fun _ _ => 0
      outAmount := fun i => .ofNat (if i.val = 0 then 150 else 0)
      outPubkey := fun _ => 0
      outBlinding := fun _ => 0 }
  membership := none
  nonMembership := none

/-- The withdrawal of `100`, which spends the note of `150` at position 0 and
leaves one of `50`. -/
def pairWithdrawal : PolicySignals 2 2 1 where
  core :=
    { root := pairPermutation.compress (pairPermutation.compress (.ofNat 150) 0) pairZero1
      publicAmount := .ofNat (bn256Modulus.val - 100)
      extDataHash := 0
      inputNullifier := fun i => .ofNat (if i.val = 0 then 2500 else 1002)
      outputCommitment := fun i => .ofNat (if i.val = 0 then 50 else 0)
      inAmount := fun i => .ofNat (if i.val = 0 then 150 else 0)
      inPrivateKey := fun _ => 0
      inBlinding := fun _ => 0
      inPathIndices := fun i => .ofNat (2 * i.val)
      inPathElements := fun _ k => if k.val = 0 then 0 else pairZero1
      outAmount := fun i => .ofNat (if i.val = 0 then 50 else 0)
      outPubkey := fun _ => 0
      outBlinding := fun _ => 0 }
  membership := none
  nonMembership := none

/-- The proof that states the signals. -/
def proofOf (s : PolicySignals 2 2 1) : Proof :=
  { tableProof with
    root := s.core.root.toU256
    inputNullifiers := List.ofFn fun tx => (s.core.inputNullifier tx).toU256
    outputCommitment0 := (s.core.outputCommitment ⟨0, Nat.two_pos⟩).toU256
    outputCommitment1 := (s.core.outputCommitment ⟨1, Nat.one_lt_two⟩).toU256
    publicAmount := s.core.publicAmount.toU256 }

def pairExtract (proof : Proof) : PolicySignals 2 2 1 :=
  if publicInputs proof tableConfig.policyFlags = pairDeposit.publicSignals then pairDeposit
  else pairWithdrawal

def pairHost : Host Nat (Nat → Nat → Nat) Nat :=
  { tableHost with
    verify := fun _ _ inputs _ =>
      .value (decide (inputs ∈ [pairDeposit.publicSignals, pairWithdrawal.publicSignals]))
    poseidon2Compress := fun a b =>
      some (pairPermutation.compress (.fromBytes a) (.fromBytes b)).toU256
    getZeroes := [smallZero.toU256, pairZero1.toU256, pairZero2.toU256] }

def pairWorld : World Nat (Nat → Nat → Nat) Nat :=
  (constructor pairHost tableConfig (.deploy (fun _ _ => 500) 0)).2

def pairDepositStep : Step Nat (Nat → Nat → Nat) Nat :=
  .call [7] (.transact (proofOf pairDeposit) tableExt 7)

def pairWithdrawalStep : Step Nat (Nat → Nat → Nat) Nat :=
  .call [7] (.transact (proofOf pairWithdrawal) tableWithdrawalExt 7)

def pairTxs : List (Tx Nat) :=
  [⟨proofOf pairDeposit, tableExt⟩, ⟨proofOf pairWithdrawal, tableWithdrawalExt⟩]

theorem pairTxs_accepted :
    accepted pairHost pairWorld ([pairDepositStep] ++ [pairWithdrawalStep]) = pairTxs := by
  have hdeposit : (transact pairHost [7] (proofOf pairDeposit) tableExt 7
      (runs pairHost pairWorld [])).1 = .ok () := by decide +kernel
  have hwithdrawal : (transact pairHost [7] (proofOf pairWithdrawal) tableWithdrawalExt 7
      (runs pairHost pairWorld [pairDepositStep])).1 = .ok () := by decide +kernel
  have hfirst : acceptedBy pairHost (runs pairHost pairWorld []) pairDepositStep
      = [⟨proofOf pairDeposit, tableExt⟩] := by
    rw [pairDepositStep, acceptedBy, hdeposit]
  have hsecond : acceptedBy pairHost (runs pairHost pairWorld [pairDepositStep])
      pairWithdrawalStep = [⟨proofOf pairWithdrawal, tableWithdrawalExt⟩] := by
    rw [pairWithdrawalStep, acceptedBy, hwithdrawal]
  rw [accepted_snoc, hsecond, ← List.nil_append [pairDepositStep], accepted_snoc, hfirst]
  rfl

theorem pairHost_sameHash : SameHash pairHost pairPermutation smallZero where
  compress a b := by
    show some (pairPermutation.compress (.fromBytes a.toU256) (.fromBytes b.toU256)).toU256 = _
    rw [Bn254Fr.fromBytes_toU256, Bn254Fr.fromBytes_toU256]
  zeros := by
    intro i z z' hz hz'
    rcases i with _ | _ | i
    · cases hz
      cases hz'
      decide
    · cases hz
      cases hz'
      decide
    · simp [pairHost] at hz'
  zero := rfl

theorem pairDeposit_circuit : PolicyCircuit Circomlib.plain pairPermutation pairDeposit :=
  policyCircuit_of_statement (by decide)
    { nullifiers := by decide
      positions := by decide
      opens := fun tx hne => absurd rfl hne
      outputs := by decide
      ranges := by decide
      distinct := by decide
      balance := by decide }

theorem pairWithdrawal_circuit : PolicyCircuit Circomlib.plain pairPermutation pairWithdrawal :=
  policyCircuit_of_statement (by decide)
    { nullifiers := by decide
      positions := by decide
      opens := by decide
      outputs := by decide
      ranges := by decide
      distinct := by decide
      balance := by decide }

theorem pairHost_extracts :
    Extracts Circomlib.plain pairPermutation pairHost tableConfig pairExtract := by
  intro proof o hverify
  have hmem : publicInputs proof tableConfig.policyFlags
      ∈ [pairDeposit.publicSignals, pairWithdrawal.publicSignals] := by
    simpa [pairHost] using hverify
  unfold pairExtract
  split
  next hdeposit => exact ⟨pairDeposit_circuit, ⟨rfl, rfl⟩, hdeposit.symm⟩
  next hother =>
    have hwithdrawal := List.mem_singleton.mp ((List.mem_cons.mp hmem).resolve_left hother)
    exact ⟨pairWithdrawal_circuit, ⟨rfl, rfl⟩, hwithdrawal.symm⟩

theorem pairPermutation_compress_val {a b : Fr} (ha : a.val < 2 ^ 100) (hb : b.val < 2 ^ 100) :
    (pairPermutation.compress a b).val = Nat.pair a.val b.val := by
  have hmod := two_pow_253_lt_modulus
  have hlt : Nat.pair a.val b.val < 2 ^ 200 := by
    calc Nat.pair a.val b.val < (max a.val b.val + 1) ^ 2 := Nat.pair_lt_max_add_one_sq ..
      _ ≤ (2 ^ 100) ^ 2 := Nat.pow_le_pow_left (Nat.succ_le_of_lt (max_lt ha hb)) 2
      _ = 2 ^ 200 := by norm_num
  show ((Nat.pair a.val b.val + (bn256Modulus.val - a.val)) % bn256Modulus.val + a.val)
    % bn256Modulus.val = _
  rw [Nat.mod_add_mod, Nat.add_assoc, Nat.sub_add_cancel (by omega), Nat.add_mod_right,
    Nat.mod_eq_of_lt (by omega)]

theorem pairPermutation_compress_injOn :
    Set.InjOn (fun q : Fr × Fr => pairPermutation.compress q.1 q.2)
      {q | q.1.val < 2 ^ 100 ∧ q.2.val < 2 ^ 100} := by
  rintro ⟨a, b⟩ ⟨ha, hb⟩ ⟨a', b'⟩ ⟨ha', hb'⟩ heq
  have hnum := congrArg Bn254Fr.val heq
  dsimp only at ha hb ha' hb' hnum
  rw [pairPermutation_compress_val ha hb, pairPermutation_compress_val ha' hb',
    Nat.pair_eq_pair] at hnum
  exact Prod.ext (Bn254Fr.ext_val hnum.1) (Bn254Fr.ext_val hnum.2)

/-- The trees of two levels on small leaves hash only small numbers. -/
theorem pairTxs_pairs_small {q : Fr × Fr}
    (hq : q ∈ hashedPairs pairPermutation (signalsOf pairExtract pairTxs)
      (insertedLeaves pairTxs) smallZero) :
    q.1.val < 2 ^ 100 ∧ q.2.val < 2 ^ 100 := by
  rcases hq with ⟨l, hl, d, hd, i, rfl⟩ | ⟨w, hw, tx, hq⟩
  · have hleaf : ∀ j, (padded l smallZero j).val < 2 ^ 20 := by
      intro j
      by_cases hj : j < l.length
      · rw [padded_of_lt hj]
        have hall : ∀ x ∈ insertedLeaves pairTxs, x.val < 2 ^ 20 := by decide +kernel
        exact hall _ (hl.subset (List.getElem_mem hj))
      · rw [padded_of_le (Nat.le_of_not_lt hj)]
        decide
    have hsmall : ∀ j, (full pairPermutation.compress (padded l smallZero) d j).val < 2 ^ 100 := by
      intro j
      rcases d with _ | d
      · exact (hleaf j).trans (by norm_num)
      · obtain rfl : d = 0 := by omega
        have hj := hleaf (2 * j)
        have hj' := hleaf (2 * j + 1)
        show (pairPermutation.compress (padded l smallZero (2 * j))
          (padded l smallZero (2 * j + 1))).val < _
        rw [pairPermutation_compress_val (hj.trans (by norm_num)) (hj'.trans (by norm_num))]
        calc Nat.pair _ _ < (max _ _ + 1) ^ 2 := Nat.pair_lt_max_add_one_sq ..
          _ ≤ (2 ^ 20) ^ 2 := Nat.pow_le_pow_left (Nat.succ_le_of_lt (max_lt hj hj')) 2
          _ < 2 ^ 100 := by norm_num
    exact ⟨hsmall _, hsmall _⟩
  · have hall : ∀ w ∈ signalsOf pairExtract pairTxs, ∀ tx : Fin 2,
        ∀ q ∈ w.treeInputs pairPermutation tx, q.1.val < 2 ^ 100 ∧ q.2.val < 2 ^ 100 := by
      decide +kernel
    exact hall w hw tx q hq

theorem pairTxs_collisionFree :
    TxsCollisionFree pairPermutation pairExtract smallZero pairTxs where
  t4 := by
    have hlist : ∀ q ∈ hashed4 pairPermutation (signalsOf pairExtract pairTxs)
        (notesOf pairPermutation pairExtract pairTxs),
      ∀ q' ∈ hashed4 pairPermutation (signalsOf pairExtract pairTxs)
        (notesOf pairPermutation pairExtract pairTxs),
      pairPermutation.t4 q.1 q.2.1 q.2.2.1 q.2.2.2
        = pairPermutation.t4 q'.1 q'.2.1 q'.2.2.1 q'.2.2.2 → q = q' := by decide +kernel
    exact fun q hq q' hq' heq => hlist q hq q' hq' heq
  keys := by
    intro sk _ sk' _ heq
    exact heq
  pairs := pairPermutation_compress_injOn.mono fun _ hq => pairTxs_pairs_small hq
  blank := by decide +kernel

/-- Both are accepted, and the notes that are left are worth `50`. -/
theorem balance_of_circuit_pair :
    accepted pairHost pairWorld ([pairDepositStep] ++ [pairWithdrawalStep]) = pairTxs ∧
      ∃ (S : NoteScheme) (N : Set Note), Set.InjOn S.nullifier N ∧
        unspentTotal S.nul S.amt (runs pairHost pairWorld
          ([pairDepositStep] ++ [pairWithdrawalStep])).storage.nullifier
          (insertedNotes pairTxs) = 50 := by
  obtain ⟨S, N, hinj, -, -, hall⟩ := balance_of_circuit Circomlib.plain Circomlib.plain_documented
    pairPermutation pairHost tableConfig pairWorld ⟨fun _ _ => 500, 0, Prod.ext (by rfl) rfl⟩
    smallZero pairHost_sameHash (by decide) pairExtract pairHost_extracts
    ([pairDepositStep] ++ [pairWithdrawalStep]) (pairTxs_accepted ▸ pairTxs_collisionFree)
  obtain ⟨hbalance, -⟩ := hall _ (List.prefix_refl _)
  rw [pairTxs_accepted] at hbalance
  have htotal : deposited pairTxs - withdrawn pairTxs = 50 := by decide
  exact ⟨pairTxs_accepted, S, N, hinj, Int.natCast_inj.mp (hbalance.trans htotal)⟩

end Pool

end PrivacyWallet
