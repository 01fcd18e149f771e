import PrivacyWallet.Asp.Allowlist
import PrivacyWallet.Pool.CircuitSoundness
import PrivacyWallet.Pool.Statement

/-!
# Whoever spends is on the list

The pool, the contract of the allowlist and the circuit together. The pool
compares the root in the proof with the root that the contract has at that
moment, the circuit opens that root at a leaf made for the key of each input,
and the contract's root is that of the leaves inserted so far. So the keys
behind an accepted transaction are on the list as it stands
(`inputs_allowed`).

The chain has one link for each of the three parties:

- **the contract of the list** (`AnswersList.root_eq_full`): whatever calls it
  has had, the root that it answers is the root of the complete tree on the
  leaves that were inserted (`run_allowlist`), here in the circuit's numbers;
- **the circuit** (`leaf_listed`): a climb to that root from a leaf which is
  not the padding ends at an inserted leaf, as nothing that was hashed
  collides;
- **the pool** (`inputs_allowed`): the root that was compared is the root the
  contract answered in the world of the transaction. The state of the other
  contracts is unchanged up to there: only the deposit has moved tokens
  (`DepositTaken.others`).
-/

namespace PrivacyWallet

namespace Pool

open InvokeM Circuits PrivacyWallet.BinaryTree

variable {A L X : Type} [DecidableEq A] {h : Host A L X} {w w' : World A L X}
variable {c : Config A} {w₀ : World A L X}

theorem DepositTaken.others {extData : ExtData A} {sender : A}
    (hd : DepositTaken h extData sender w w') : w'.others = w.others := by
  cases hd with
  | none => rfl
  | taken _ _ _ ht =>
      obtain ⟨l, -, rfl⟩ := ht
      rfl

/-! ## The contract of the list -/

/-- How the contract of the list is set up: its administrator, its depth, the
table of padding hashes and the hash. -/
structure ListSetup (A : Type) where
  p : Poseidon2
  zeros : List U256
  admin : A
  levels : Nat

/-- At `asp` stands the contract of the list; `calls` are those that it has
had in a state of the other contracts. -/
def AnswersList (h : Host A L X) (m : ListSetup A) (asp : A)
    (calls : X → List (List A × Asp.Membership.Call A)) : Prop :=
  ∃ s₀, Asp.Membership.constructor m.zeros m.admin m.levels .empty = (.ok (), s₀) ∧
    ∀ l x root, h.aspGetRoot asp (l, x) = .value root →
      Asp.Membership.getRoot (Run.run (Asp.Membership.step m.p) s₀ (calls x)) = .ok root

/-- The list hashes as the circuit does, and pads with `zero`. -/
structure ListHash (m : ListSetup A) (P : Permutation) (zero : Fr) : Prop where
  compressed : ∀ a b : Fr, m.p.compressed a.toU256 b.toU256 = (P.compress a b).toU256
  zeros : Merkle.ZerosOk m.p.compress m.zeros
  zero : m.zeros[0]? = some zero.toU256

/-- The leaves of the list after the calls, as field elements. -/
def listed (m : ListSetup A) (calls : List (List A × Asp.Membership.Call A)) : List Fr :=
  (Asp.Membership.Allowlist.run m.levels m.admin calls).leaves.map .fromBytes

theorem listed_toU256 (m : ListSetup A) (calls : List (List A × Asp.Membership.Call A)) :
    (listed m calls).map Bn254Fr.toU256
      = (Asp.Membership.Allowlist.run m.levels m.admin calls).leaves := by
  rw [listed, List.map_map]
  refine (List.map_congr_left fun leaf hleaf => ?_).trans (List.map_id _)
  exact Bn254Fr.toU256_fromBytes (Asp.Membership.Allowlist.run_lt m.levels m.admin calls leaf hleaf)

/-- The root that the contract answers is that of the complete tree on the
leaves. -/
theorem AnswersList.root_eq_full {m : ListSetup A} {asp : A}
    {calls : X → List (List A × Asp.Membership.Call A)} (hasp : AnswersList h m asp calls)
    {P : Permutation} {zero : Fr} (hm : ListHash m P zero) (hpos : 1 ≤ m.levels)
    (hle : m.levels ≤ 32) (hlen : m.levels < m.zeros.length) {l : L} {x : X} {root : U256}
    (hroot : h.aspGetRoot asp (l, x) = .value root) :
    root = (full P.compress (padded (listed m (calls x)) zero) m.levels 0).toU256 := by
  obtain ⟨s₀, hinit, hget⟩ := hasp
  obtain ⟨s₀', hinit', hrep⟩ := Asp.Membership.constructor_represents m.admin hpos hle hlen
    hm.zeros
  obtain rfl : s₀' = s₀ := congrArg Prod.snd (hinit'.symm.trans hinit)
  have hpad := Asp.Membership.zeros_isPadding hpos hlen hm.zeros
  obtain ⟨r, hr, htree⟩ := (hrep.run hpad (calls x)).1.tree.root_eq
  have hanswer := hget l x root hroot
  rw [Asp.Membership.getRoot, hr] at hanswer
  have hzero : m.zeros.getD 0 0 = zero.toU256 := by
    rw [List.getD_eq_getElem?_getD, hm.zero, Option.getD_some]
  have hcompress : ∀ a b : Fr, Asp.Membership.compress m.p a.toU256 b.toU256
      = some (P.compress a b).toU256 := fun a b => congrArg some (hm.compressed a b)
  rw [hzero, ← listed_toU256 m, padded_map, BinaryTree.root, node_eq_full hcompress,
    Option.some.injEq] at htree
  rw [← Except.ok.inj hanswer, htree]

/-! ## The keys of the inputs -/

variable {nIns smtLevels : Nat} {C : Circomlib} {P : Permutation}

/-- Nothing that the list and the paths of a proof hash collides, and no
leaf of the proof is the padding. -/
structure ListCollisionFree {levels : Nat} (P : Permutation) (leaves : List Fr) (zero : Fr)
    (m : MembershipSignals nIns 1 levels) : Prop where
  pairs : Set.InjOn (fun q : Fr × Fr => P.compress q.1 q.2)
    {q | q ∈ fullInputs P.compress (padded leaves zero) levels ∨
      ∃ tx, q ∈ climbInputs P.compress
        (pathOf (m.pathIndices tx 0).val (m.pathElements tx 0)) (m.leaf tx 0)}
  blank : ∀ tx, m.leaf tx 0 ≠ zero

/-- A leaf that the circuit opens under the root of the list is one of the
list. -/
theorem leaf_listed (hC : C.Documented) {levels : Nat} (hlevels : levels ≤ 253)
    {keys : Fin nIns → Fr} {m : MembershipSignals nIns 1 levels} (h : AspMembership C P keys m)
    {leaves : List Fr} {zero : Fr} (hf : ListCollisionFree P leaves zero m) {tx : Fin nIns}
    (hroot : m.roots tx 0 = full P.compress (padded leaves zero) levels 0) :
    m.leaf tx 0 ∈ leaves := by
  have hproof := h.proofs tx 0
  rw [hroot] at hproof
  have hleaf := hproof.leaf_eq hC hlevels hf.pairs (fun _ hq => Or.inl hq)
    fun q hq => Or.inr ⟨tx, hq⟩
  by_cases hin : (m.pathIndices tx 0).val < leaves.length
  · rw [hleaf, padded_of_lt hin]
    exact List.getElem_mem hin
  · rw [padded_of_le (Nat.le_of_not_lt hin)] at hleaf
    exact absurd hleaf (hf.blank tx)

/-- In a pool whose policy asks for membership proofs, an accepted
transaction spends with keys that have a leaf on the list, as the list stands
when the transaction is executed.

The root that the transaction was checked against is the list's own at that
moment, which is the root of the full tree on its leaves; the circuit's path
from the leaf of a key to this root makes it one of them (`leaf_listed`). -/
theorem inputs_allowed (C : Circomlib) (hC : C.Documented) (P : Permutation) (h : Host A L X)
    (c : Config A) (w₀ : World A L X) (hc : Constructed h c w₀)
    (hpolicy : Policy.requiresMembershipProofs c.policyFlags = true)
    (extract : Proof → PolicySignals nIns c.levels smtLevels) (hext : Extracts C P h c extract)
    (m : ListSetup A) (zero : Fr) (hm : ListHash m P zero) (hlevels : m.levels = c.levels)
    (hlen : m.levels < m.zeros.length) (calls : X → List (List A × Asp.Membership.Call A))
    (steps : List (Step A L X)) (auth : List A) (proof : Proof) (extData : ExtData A) (sender : A)
    (w' : World A L X)
    (hasp : ∀ asp, (runs h w₀ steps).storage.aspMembership = some asp →
      AnswersList h m asp calls)
    (hf : ∀ s ∈ (extract proof).membership,
      ListCollisionFree P (listed m (calls (runs h w₀ steps).others)) zero s)
    (hok : transact h auth proof extData sender (runs h w₀ steps) = (.ok (), w')) :
    ∀ tx, ∃ blinding, P.membershipLeaf ((extract proof).core.inPublicKey P tx) blinding
      ∈ listed m (calls (runs h w₀ steps).others) := by
  obtain ⟨-, w₁, -, -, h1, h2, -⟩ := transact_steps hok
  have hd := takeDeposit_ok h1
  obtain ⟨-, -, -, -, -, ⟨flags, hflags, -, hmem⟩, hverify⟩ := checkStatement_steps h2
  obtain ⟨-, -, flags', verifier, hflags', hverifier, -, hverify⟩ := verifyProof_steps hverify
  have hconf := hc.configured (h := h) steps
  rw [hd.storage, hconf.policyFlags, Option.some.injEq] at hflags hflags'
  rw [hd.storage, hconf.verifier, Option.some.injEq] at hverifier
  subst hflags hflags' hverifier
  obtain ⟨hcirc, hfit, hsig⟩ := hext proof _ hverify
  obtain ⟨asp, hstored, hroot⟩ := aspRoot_checked hmem hpolicy
  rw [hd.storage] at hstored
  obtain ⟨s, hs⟩ : ∃ s, (extract proof).membership = some s := by
    rw [← Option.isSome_iff_exists, hfit.membership, hpolicy]
  have hfull := (hasp asp hstored).root_eq_full hm (hlevels ▸ hc.levels_pos)
    (hlevels ▸ hc.levels_le) hlen hroot
  rw [hd.others, hlevels] at hfull
  intro tx
  have hasp := hcirc.membership s hs
  refine ⟨s.blinding tx 0, ?_⟩
  rw [← hasp.leaves tx 0]
  refine leaf_listed hC (hc.levels_le.trans (by omega)) hasp (hf s hs) ?_
  rw [(publicSignals_eq hfit hsig).2 s hs tx, hfull, Bn254Fr.fromBytes_toU256]

/-! ## A deposit by a listed key -/

/-- The list of one leaf, in a tree of two. -/
def smallSetup : ListSetup Nat where
  p :=
    { permuteT2 := fun a b => (smallPermutation.t2 (.fromBytes a) (.fromBytes b)).toU256
      permuteT3 := fun _ _ _ => 0
      permuteT2_lt := fun _ _ => U256.lt_def.mpr (Bn254Fr.lt _)
      permuteT3_lt := fun _ _ _ => U256.lt_def.mpr bn256Modulus_pos }
  zeros := [smallZero.toU256, smallRoot.toU256]
  admin := 1
  levels := 1

def smallInsertions : List (List Nat × Asp.Membership.Call Nat) := [([1], .insertLeaf 0)]

def listRoot : Fr := smallPermutation.compress 0 smallZero

/-- The deposit of `150` once more, in a pool with an allowlist. -/
def listProof : Proof := { smallProof with aspMembershipRoot := listRoot.toU256 }

def listMembership : MembershipSignals 2 1 1 where
  roots _ _ := listRoot
  leaf _ _ := 0
  blinding _ _ := 0
  pathElements _ _ _ := smallZero
  pathIndices _ _ := 0

def listSignals : PolicySignals 2 1 1 := { smallSignals with membership := some listMembership }

def listHost : Host Nat (Nat → Nat → Nat) Nat :=
  { smallHost with
    verify := fun _ _ inputs _ => .value (decide (inputs = listSignals.publicSignals))
    aspGetRoot := fun _ _ => .value listRoot.toU256 }

def listConfig : Config Nat := { smallConfig with policyFlags := 1 }

def listWorld : World Nat (Nat → Nat → Nat) Nat :=
  (constructor listHost listConfig (.deploy (fun _ _ => 500) 0)).2

theorem listWorld_constructed : Constructed listHost listConfig listWorld :=
  ⟨fun _ _ => 500, 0, Prod.ext (by rfl) rfl⟩

theorem smallSetup_listHash : ListHash smallSetup smallPermutation smallZero where
  compressed a b := by
    refine U256.ext_val ?_
    show ((smallPermutation.t2 (.fromBytes a.toU256) (.fromBytes b.toU256)).val + a.val)
      % bn256Modulus.val = _
    rw [Bn254Fr.fromBytes_toU256, Bn254Fr.fromBytes_toU256]
    rfl
  zeros := by
    intro i z z' hz hz'
    rcases i with _ | i
    · cases hz
      cases hz'
      decide
    · simp [smallSetup] at hz'
  zero := rfl

theorem listSignals_circuit : PolicyCircuit Circomlib.plain smallPermutation listSignals where
  transaction := smallSignals_circuit.transaction
  membership := by
    rintro m hm
    obtain rfl := Option.some.inj hm
    refine ⟨by decide, fun tx i => ⟨fun _ => 0, ⟨?_, ?_⟩, 0, smallZero, ⟨?_, ?_⟩, rfl⟩⟩
    all_goals
      revert tx i
      decide
  nonMembership m hm := by cases hm

theorem listHost_extracts :
    Extracts Circomlib.plain smallPermutation listHost listConfig fun _ => listSignals := by
  intro proof o hverify
  have heq : publicInputs proof listConfig.policyFlags = listSignals.publicSignals := by
    simpa [listHost] using hverify
  exact ⟨listSignals_circuit, ⟨rfl, rfl⟩, heq.symm⟩

theorem listHost_answers (asp : Nat) :
    AnswersList listHost smallSetup asp fun _ => smallInsertions := by
  refine ⟨_, Prod.ext (by rfl) rfl, fun l x root hroot => ?_⟩
  obtain rfl : listRoot.toU256 = root := by simpa [listHost] using hroot
  rfl

theorem listHost_collisionFree : ∀ s ∈ listSignals.membership,
    ListCollisionFree smallPermutation (listed smallSetup smallInsertions) smallZero s := by
  intro s hs
  obtain rfl := Option.some.inj hs
  have hone : listed smallSetup smallInsertions = [0] := by decide
  rw [hone]
  refine ⟨smallPermutation_compress_injOn.mono fun q hq => ?_, by decide⟩
  rcases hq with ⟨d, hd, i, rfl⟩ | ⟨tx, hq⟩
  · obtain rfl : d = 0 := by omega
    have hsmall : ∀ j, (padded [(0 : Fr)] smallZero j).val < 2 ^ 100 := by
      intro j
      cases j with
      | zero => decide
      | succ j =>
          rw [padded_of_le (by simp)]
          decide
    exact ⟨hsmall _, hsmall _⟩
  · have hall : ∀ tx, ∀ q ∈ climbInputs smallPermutation.compress
        (pathOf (listMembership.pathIndices tx 0).val (listMembership.pathElements tx 0))
        (listMembership.leaf tx 0), q.1.val < 2 ^ 100 ∧ q.2.val < 2 ^ 100 := by decide
    exact hall tx q hq

theorem listDeposit_accepted : ∃ w', transact listHost [7] listProof tableExt 7
    (runs listHost listWorld []) = (.ok (), w') :=
  ⟨_, Prod.ext (by rfl) rfl⟩

/-- The key `0` of the first input has its leaf on the list. -/
theorem inputs_allowed_small :
    ∃ blinding, smallPermutation.membershipLeaf
      (listSignals.core.inPublicKey smallPermutation 0) blinding
        ∈ listed smallSetup smallInsertions := by
  obtain ⟨w', hok⟩ := listDeposit_accepted
  exact inputs_allowed Circomlib.plain Circomlib.plain_documented smallPermutation listHost
    listConfig listWorld listWorld_constructed (by decide) (fun _ => listSignals)
    listHost_extracts smallSetup smallZero smallSetup_listHash rfl (by decide)
    (fun _ => smallInsertions) [] [7] listProof tableExt 7 w' (fun asp _ => listHost_answers asp)
    listHost_collisionFree hok 0

end Pool

end PrivacyWallet
