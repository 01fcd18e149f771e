import PrivacyWallet.Pool.Contract

/-!
# What a successful call did

One inversion lemma for each function of the pool: from a run that ended
in a value, the guards that held and the world it left. Later modules use
these and do not unfold the functions again.

The longer functions are described by what can have moved: `ensureIdle`
and `maybeInvest` leave the world alone or add one vault interaction
(`VaultMove`), a transaction is the chain of its steps (`transact_ok`).
-/

namespace PrivacyWallet

namespace Pool

open InvokeM

variable {A L X : Type} {w w' : World A L X} {u : Unit}

/-! ## The host interface -/

section Host

variable {β : Type} {b : β}

@[simp] theorem load_eq_ok {field : Storage A → Option β} :
    load field w = (.ok b, w') ↔ field w.storage = some b ∧ w = w' := by
  rw [load, read_bind, okOr_eq_ok]

@[simp] theorem store_eq_ok {f : Storage A → Storage A} :
    store f w = (.ok u, w') ↔ w.store f = w' := update_eq_ok

@[simp] theorem publish_eq_ok {e : Event} :
    publish e w = (.ok u, w') ↔ { w with events := w.events ++ [e] } = w' :=
  update_eq_ok

theorem onMerkle_eq_ok {m : Merkle.MerkleM U256 β} :
    onMerkle m w = (.ok b, w') ↔
      ∃ t, m w.storage.merkle = (.ok b, t) ∧
        (w.store fun s => { s with merkle := t }) = w' := zoom_eq_ok

@[simp] theorem callView_eq_ok {view : L × X → Outcome β} :
    callView view w = (.ok b, w') ↔ view w.outside = .value b ∧ w = w' := by
  rw [callView, read_bind]
  cases view w.outside <;> simp

end Host

variable [DecidableEq A] {h : Host A L X} {auth : List A}

@[simp] theorem requireAuth_eq_ok {a : A} :
    requireAuth h auth a w = (.ok u, w') ↔ (a ∈ auth ∧ a ≠ h.this) ∧ w = w' := by
  unfold requireAuth
  split
  · rename_i ha
    simp [ha]
  · rename_i ha
    simp [ha]

@[simp] theorem tokenBalance_eq_ok {token id : A} {b : I128} :
    tokenBalance h token id w = (.ok b, w') ↔
      h.token.balance token id w.ledger = b ∧ w = w' := by
  rw [tokenBalance, read_bind, pure_eq_ok]

theorem tokenTransfer_eq_ok {t : Transfer A} :
    tokenTransfer h t w = (.ok u, w') ↔
      ∃ l, h.token.transfer t w.ledger = some l ∧
        w.moved (.transfer t) (l, w.others) = w' := by
  rw [tokenTransfer, read_bind]
  cases h.token.transfer t w.ledger with
  | none => simp
  | some l => simp

/-- `w'` is `w` after at most one interaction with the vault. -/
def VaultMove (w w' : World A L X) : Prop :=
  w' = w ∨ ∃ o, w' = w.moved .vault o

omit [DecidableEq A] in
theorem VaultMove.storage (hm : VaultMove w w') : w'.storage = w.storage := by
  rcases hm with rfl | ⟨o, rfl⟩ <;> rfl

omit [DecidableEq A] in
theorem VaultMove.events (hm : VaultMove w w') : w'.events = w.events := by
  rcases hm with rfl | ⟨o, rfl⟩ <;> rfl

theorem tryVault_ok {β : Type} {granted : List (Transfer A)}
    {call : L × X → Outcome (X × List (Transfer A) × β)} {b : Option β}
    (hok : tryVault h granted call w = (.ok b, w')) : VaultMove w w' := by
  rw [tryVault, read_bind] at hok
  rcases hcall : call w.outside with ⟨x, ts, b'⟩ | _ | _ <;> rw [hcall] at hok <;>
    dsimp only at hok
  · rw [update_bind, pure_eq_ok] at hok
    exact Or.inr ⟨_, hok.2.symm⟩
  · exact Or.inl (pure_eq_ok.mp hok).2.symm
  · exact Or.inl (pure_eq_ok.mp hok).2.symm

/-! ## Amounts -/

omit [DecidableEq A] in
@[simp] theorem i256ToI128Nonneg_eq_ok {v : I256} {a : I128} :
    (i256ToI128Nonneg v : PoolM A L X I128) w = (.ok a, w') ↔
      (0 ≤ v.val ∧ a.val = v.val) ∧ w = w' := by
  rw [i256ToI128Nonneg, bind_eq_ok]
  constructor
  · rintro ⟨_, w₁, h1, h2⟩
    obtain ⟨hneg, rfl⟩ := rejectIf_eq_ok.mp h1
    obtain ⟨ha, rfl⟩ := okOr_eq_ok.mp h2
    simp only [Signed.lt_def, Signed.val_zero, not_lt] at hneg
    exact ⟨⟨hneg, Signed.toI128_eq_some.mp ha⟩, rfl⟩
  · rintro ⟨⟨hneg, ha⟩, rfl⟩
    refine ⟨(), w, rejectIf_eq_ok.mpr ⟨?_, rfl⟩, okOr_eq_ok.mpr ⟨?_, rfl⟩⟩
    · simpa using hneg
    · exact Signed.toI128_eq_some.mpr ha

omit [DecidableEq A] in
@[simp] theorem negI256_eq_ok {v n : I256} :
    (negI256 v : PoolM A L X I256) w = (.ok n, w') ↔ n.val = -v.val ∧ w = w' := by
  rw [negI256, orTrap_eq_ok, Signed.checkedSub_eq_some, Signed.val_zero, zero_sub]

theorem maxExtAmount_val : maxExtAmount.val = 2 ^ 248 := by decide

omit [DecidableEq A] in
/-- An accepted external amount is below 2^248 in absolute value, and its
public amount is its residue. -/
theorem calculatePublicAmount_ok {v : I256} {p : U256}
    (hok : (calculatePublicAmount v : PoolM A L X U256) w = (.ok p, w')) :
    w = w' ∧ -2 ^ 248 < v.val ∧ v.val < 2 ^ 248 ∧
      (p.val : Int) = v.val % bn256Modulus.val := by
  obtain ⟨abs, w₁, habs, hrest⟩ := bind_eq_ok.mp hok
  obtain ⟨_, w₂, hrej, hamount⟩ := bind_eq_ok.mp hrest
  obtain ⟨hlt, rfl⟩ := rejectIf_eq_ok.mp hrej
  rw [U256.le_def, maxExtAmount_val, not_le] at hlt
  have hmod := two_pow_253_lt_modulus
  obtain ⟨m, w₃, hm, habs⟩ := bind_eq_ok.mp habs
  obtain ⟨rfl, rfl⟩ := pure_eq_ok.mp habs
  rcases ite_eq_ok.mp hm with ⟨hv, hm⟩ | ⟨hv, hm⟩
  · obtain ⟨rfl, rfl⟩ := pure_eq_ok.mp hm
    rw [if_pos hv] at hamount
    obtain ⟨rfl, rfl⟩ := pure_eq_ok.mp hamount
    have hv0 : 0 ≤ v.val := hv
    have hval := Signed.toU256_val hv0
    refine ⟨rfl, by omega, by omega, ?_⟩
    rw [hval, Int.emod_eq_of_lt hv0 (by omega)]
  · obtain ⟨hmv, rfl⟩ := negI256_eq_ok.mp hm
    rw [if_neg hv] at hamount
    have hv0 : v.val < 0 := not_le.mp hv
    obtain ⟨n, w₄, hn, hamount⟩ := bind_eq_ok.mp hamount
    obtain ⟨hnv, rfl⟩ := negI256_eq_ok.mp hn
    obtain ⟨hsub, rfl⟩ := orTrap_eq_ok.mp hamount
    obtain ⟨hle, hp⟩ := U256.checkedSub_eq_some.mp hsub
    have hmval := Signed.toU256_val (v := m) (by omega)
    have hnval := Signed.toU256_val (v := n) (by omega)
    refine ⟨rfl, by omega, by omega, ?_⟩
    have hres : (p.val : Int) = v.val + bn256Modulus.val := by omega
    rw [hres, ← Int.add_emod_right v.val, Int.emod_eq_of_lt (by omega) (by omega)]

/-! ## Liabilities -/

/-- The liabilities counter. -/
def Storage.liabilities (s : Storage A) : I128 := s.totalLiabilities.getD 0

/-- Set the liabilities counter. -/
def Storage.setLiabilities (s : Storage A) (v : I128) : Storage A :=
  { s with totalLiabilities := some v }

omit [DecidableEq A] in
@[simp] theorem Storage.setLiabilities_liabilities (s : Storage A) (v : I128) :
    (s.setLiabilities v).liabilities = v := rfl

omit [DecidableEq A] in
@[simp] theorem getLiabilities_eq_ok {v : I128} :
    getLiabilities w = (.ok v, w') ↔ w.storage.liabilities = v ∧ w = w' := by
  rw [getLiabilities, read_bind, pure_eq_ok]
  rfl

omit [DecidableEq A] in
theorem addLiabilities_eq_ok {a : I128} :
    addLiabilities a w = (.ok u, w') ↔
      ∃ next : I128, next.val = w.storage.liabilities.val + a.val ∧
        w.store (fun s => s.setLiabilities next) = w' := by
  rw [addLiabilities, bind_eq_ok]
  constructor
  · rintro ⟨cur, w₁, h1, h2⟩
    obtain ⟨rfl, rfl⟩ := getLiabilities_eq_ok.mp h1
    obtain ⟨next, w₂, h3, h4⟩ := bind_eq_ok.mp h2
    obtain ⟨hn, rfl⟩ := okOr_eq_ok.mp h3
    exact ⟨next, Signed.checkedAdd_eq_some.mp hn, store_eq_ok.mp h4⟩
  · rintro ⟨next, hn, rfl⟩
    refine ⟨_, w, getLiabilities_eq_ok.mpr ⟨rfl, rfl⟩, ?_⟩
    exact bind_eq_ok.mpr ⟨next, w, okOr_eq_ok.mpr
      ⟨Signed.checkedAdd_eq_some.mpr hn, rfl⟩, store_eq_ok.mpr rfl⟩

omit [DecidableEq A] in
theorem subLiabilities_ok {a : I128} (hok : subLiabilities a w = (.ok u, w')) :
    ∃ next : I128, next.val = max (w.storage.liabilities.val - a.val) 0 ∧
      w' = w.store fun s => s.setLiabilities next := by
  obtain ⟨cur, w₁, h1, hok⟩ := bind_eq_ok.mp hok
  obtain ⟨rfl, rfl⟩ := getLiabilities_eq_ok.mp h1
  obtain ⟨next, w₂, h2, hok⟩ := bind_eq_ok.mp hok
  obtain ⟨hn, rfl⟩ := orTrap_eq_ok.mp h2
  refine ⟨max next 0, ?_, (store_eq_ok.mp hok).symm⟩
  rw [Signed.val_max, Signed.checkedSub_eq_some.mp hn, Signed.val_zero]

/-! ## The vault -/

/-- The pool's idle balance. -/
def idle (h : Host A L X) (token : A) (l : L) : Int :=
  (h.token.balance token h.this l).val

theorem idle_nonneg (h : Host A L X) (token : A) (l : L) : 0 ≤ idle h token l :=
  h.token.balance_nonneg token h.this l

theorem ensureIdle_ok {required : I128}
    (hok : ensureIdle h required w = (.ok u, w')) :
    ∃ token, w.storage.token = some token ∧ VaultMove w w' ∧
      required.val ≤ idle h token w'.ledger := by
  obtain ⟨token, w₁, h1, hok⟩ := bind_eq_ok.mp hok
  obtain ⟨htoken, rfl⟩ := load_eq_ok.mp h1
  obtain ⟨bal, w₂, h2, hok⟩ := bind_eq_ok.mp hok
  obtain ⟨rfl, rfl⟩ := tokenBalance_eq_ok.mp h2
  refine ⟨token, htoken, ?_⟩
  rcases ite_eq_ok.mp hok with ⟨hle, hok⟩ | ⟨-, hok⟩
  · obtain ⟨-, rfl⟩ := pure_eq_ok.mp hok
    exact ⟨Or.inl rfl, hle⟩
  -- past the reads and the arithmetic, only the divest writes
  obtain ⟨vault, w₃, h3, hok⟩ := bind_eq_ok.mp hok
  obtain ⟨hvault, rfl⟩ := load_eq_ok.mp h3
  obtain ⟨⟨threshold, buffer⟩, w₄, h4, hok⟩ := bind_eq_ok.mp hok
  obtain ⟨_, w₅, h5, h4⟩ := bind_eq_ok.mp h4
  obtain ⟨_, rfl⟩ := load_eq_ok.mp h5
  obtain ⟨_, w₆, h6, h4⟩ := bind_eq_ok.mp h4
  obtain ⟨_, rfl⟩ := load_eq_ok.mp h6
  obtain ⟨-, rfl⟩ := pure_eq_ok.mp h4
  obtain ⟨shares, w₇, h7, hok⟩ := bind_eq_ok.mp hok
  obtain ⟨-, rfl⟩ := callView_eq_ok.mp h7
  obtain ⟨_, w₈, h8, hok⟩ := bind_eq_ok.mp hok
  obtain ⟨-, rfl⟩ := rejectIf_eq_ok.mp h8
  obtain ⟨quote, w₉, h9, hok⟩ := bind_eq_ok.mp hok
  obtain ⟨-, rfl⟩ := callView_eq_ok.mp h9
  obtain ⟨perProbe, v₁, g1, hok⟩ := bind_eq_ok.mp hok
  obtain ⟨-, rfl⟩ := okOr_eq_ok.mp g1
  obtain ⟨_, v₂, g2, hok⟩ := bind_eq_ok.mp hok
  obtain ⟨-, rfl⟩ := rejectIf_eq_ok.mp g2
  obtain ⟨deficit, v₃, g3, hok⟩ := bind_eq_ok.mp hok
  obtain ⟨-, rfl⟩ := orTrap_eq_ok.mp g3
  obtain ⟨desired, v₄, g4, hok⟩ := bind_eq_ok.mp hok
  obtain ⟨-, rfl⟩ := okOr_eq_ok.mp g4
  obtain ⟨numerator, v₅, g5, hok⟩ := bind_eq_ok.mp hok
  obtain ⟨-, rfl⟩ := okOr_eq_ok.mp g5
  obtain ⟨out, v₆, g6, hok⟩ := bind_eq_ok.mp hok
  have hmove := tryVault_ok g6
  obtain ⟨answer, v₇, g7, hok⟩ := bind_eq_ok.mp hok
  obtain ⟨-, rfl⟩ := okOr_eq_ok.mp g7
  obtain ⟨_, v₈, g8, hok⟩ := bind_eq_ok.mp hok
  obtain ⟨-, rfl⟩ := okOr_eq_ok.mp g8
  obtain ⟨after, v₉, g9, hok⟩ := bind_eq_ok.mp hok
  obtain ⟨rfl, rfl⟩ := tokenBalance_eq_ok.mp g9
  obtain ⟨hcovered, rfl⟩ := rejectIf_eq_ok.mp hok
  exact ⟨hmove, not_lt.mp hcovered⟩

theorem investIdle_ok {token vault : A} {threshold buffer : I128}
    (hok : investIdle h token vault threshold buffer w = (.ok u, w')) :
    VaultMove w w' := by
  obtain ⟨bal, w₁, h1, hok⟩ := bind_eq_ok.mp hok
  obtain ⟨rfl, rfl⟩ := tokenBalance_eq_ok.mp h1
  rcases ite_eq_ok.mp hok with ⟨-, hok⟩ | ⟨-, hok⟩
  · exact Or.inl (pure_eq_ok.mp hok).2.symm
  obtain ⟨amount, w₂, h2, hok⟩ := bind_eq_ok.mp hok
  obtain ⟨-, rfl⟩ := orTrap_eq_ok.mp h2
  rcases ite_eq_ok.mp hok with ⟨-, hok⟩ | ⟨-, hok⟩
  · exact Or.inl (pure_eq_ok.mp hok).2.symm
  obtain ⟨out, w₃, h3, hok⟩ := bind_eq_ok.mp hok
  obtain ⟨-, rfl⟩ := pure_eq_ok.mp hok
  exact tryVault_ok h3

theorem maybeInvest_ok (hok : maybeInvest h w = (.ok u, w')) : VaultMove w w' := by
  rw [maybeInvest, read_bind] at hok
  rcases hs : w.storage.investSetup with _ | ⟨token, vault, threshold, buffer⟩ <;>
    rw [hs] at hok
  · exact Or.inl (pure_eq_ok.mp hok).2.symm
  · exact investIdle_ok hok

/-! ## The steps of a transaction -/

theorem searchRound_frame (r : U256) (current i : Nat) :
    Frame id (Merkle.searchRound r current i) :=
  Frame.read.bind fun _ => Frame.ite (Frame.pure _)
    ((Frame.okOr ..).bind fun _ => Frame.ite (Frame.pure _) (Frame.pure _))

theorem merkleIsKnownRoot_frame (r : U256) :
    Frame id (Merkle.isKnownRoot r : Merkle.MerkleM U256 Bool) :=
  Frame.ite (Frame.pure _) (Frame.read.bind fun _ => (Frame.okOr ..).bind fun _ =>
    Frame.loop (searchRound_frame r _) _ _)

omit [DecidableEq A] in
theorem isKnownRoot_ok {r : U256} {known : Bool}
    (hok : isKnownRoot r w = (.ok known, w')) :
    w = w' ∧ Merkle.isKnownRoot r w.storage.merkle = (.ok known, w.storage.merkle) := by
  obtain ⟨t, ht, rfl⟩ := onMerkle_eq_ok.mp hok
  have hframe : t = w.storage.merkle := (merkleIsKnownRoot_frame r).eq_of_ok ht
  subst hframe
  exact ⟨rfl, ht⟩

omit [DecidableEq A] in
@[simp] theorem validateBn256PublicInput_eq_ok {v : U256} :
    validateBn256PublicInput v w = (.ok u, w') ↔ v < bn256Modulus ∧ w = w' := by
  rw [validateBn256PublicInput, rejectIf_eq_ok, not_le]

/-- The statement's values are canonical residues. -/
structure Canonical (proof : Proof) : Prop where
  root : proof.root < bn256Modulus
  publicAmount : proof.publicAmount < bn256Modulus
  nullifiers : ∀ n ∈ proof.inputNullifiers, n < bn256Modulus
  commitment0 : proof.outputCommitment0 < bn256Modulus
  commitment1 : proof.outputCommitment1 < bn256Modulus

/-- The association roots that the policy requires are canonical residues. -/
structure CanonicalRoots (proof : Proof) (flags : UInt32) : Prop where
  membership : Policy.requiresMembershipProofs flags = true →
    proof.aspMembershipRoot < bn256Modulus
  nonMembership : Policy.requiresNonMembershipProofs flags = true →
    proof.aspNonMembershipRoot < bn256Modulus

omit [DecidableEq A] in
theorem validateWhen_ok {c : Prop} [Decidable c] {v : U256}
    (hok : when c (validateBn256PublicInput v) w = (.ok u, w')) :
    w = w' ∧ (c → v < bn256Modulus) := by
  rcases when_eq_ok.mp hok with ⟨-, h⟩ | ⟨hc, rfl⟩
  · obtain ⟨hv, rfl⟩ := validateBn256PublicInput_eq_ok.mp h
    exact ⟨rfl, fun _ => hv⟩
  · exact ⟨rfl, fun h => absurd h hc⟩

omit [DecidableEq A] in
theorem validateBn256PublicInputs_ok {proof : Proof} {flags : UInt32}
    (hok : validateBn256PublicInputs proof flags w = (.ok u, w')) :
    w = w' ∧ Canonical proof ∧ CanonicalRoots proof flags := by
  obtain ⟨_, w₁, h1, hok⟩ := bind_eq_ok.mp hok
  obtain ⟨hroot, rfl⟩ := validateBn256PublicInput_eq_ok.mp h1
  obtain ⟨_, w₂, h2, hok⟩ := bind_eq_ok.mp hok
  obtain ⟨hamount, rfl⟩ := validateBn256PublicInput_eq_ok.mp h2
  obtain ⟨_, w₃, h3, hok⟩ := bind_eq_ok.mp hok
  obtain ⟨hnull, rfl⟩ :=
    (forEach_check fun _ _ _ => validateBn256PublicInput_eq_ok).mp h3
  obtain ⟨_, w₄, h4, hok⟩ := bind_eq_ok.mp hok
  obtain ⟨hcom0, rfl⟩ := validateBn256PublicInput_eq_ok.mp h4
  obtain ⟨_, w₅, h5, hok⟩ := bind_eq_ok.mp hok
  obtain ⟨hcom1, rfl⟩ := validateBn256PublicInput_eq_ok.mp h5
  obtain ⟨_, w₆, h6, hok⟩ := bind_eq_ok.mp hok
  obtain ⟨rfl, hmember⟩ := validateWhen_ok h6
  obtain ⟨rfl, hnonMember⟩ := validateWhen_ok hok
  exact ⟨rfl, ⟨hroot, hamount, hnull, hcom0, hcom1⟩, hmember, hnonMember⟩

/-- The verifier accepts the proof for its public inputs. -/
def Verified (h : Host A L X) (proof : Proof) (w : World A L X) : Prop :=
  ∃ flags verifier, w.storage.policyFlags = some flags ∧
    w.storage.verifier = some verifier ∧
    h.verify verifier proof.proof (publicInputs proof flags) w.outside = .value true

/-- An accepted proof: its public inputs are canonical, and the verifier
accepted them. -/
theorem verifyProof_steps {proof : Proof}
    (hok : verifyProof h proof w = (.ok true, w')) :
    w = w' ∧ Canonical proof ∧ ∃ flags verifier, w.storage.policyFlags = some flags ∧
      w.storage.verifier = some verifier ∧ CanonicalRoots proof flags ∧
      h.verify verifier proof.proof (publicInputs proof flags) w.outside = .value true := by
  obtain ⟨_, w₁, h1, hok⟩ := bind_eq_ok.mp hok
  obtain ⟨-, rfl⟩ := rejectIf_eq_ok.mp h1
  obtain ⟨flags, w₂, h2, hok⟩ := bind_eq_ok.mp hok
  obtain ⟨hflags, rfl⟩ := load_eq_ok.mp h2
  obtain ⟨verifier, w₃, h3, hok⟩ := bind_eq_ok.mp hok
  obtain ⟨hverifier, rfl⟩ := load_eq_ok.mp h3
  obtain ⟨_, w₄, h4, hok⟩ := bind_eq_ok.mp hok
  obtain ⟨rfl, hcanon, hroots⟩ := validateBn256PublicInputs_ok h4
  obtain ⟨hverify, rfl⟩ := callView_eq_ok.mp hok
  exact ⟨rfl, hcanon, flags, verifier, hflags, hverifier, hroots, hverify⟩

theorem verifyProof_ok {proof : Proof}
    (hok : verifyProof h proof w = (.ok true, w')) :
    w = w' ∧ Canonical proof ∧ Verified h proof w := by
  obtain ⟨hw, hcanon, flags, verifier, hflags, hverifier, -, hverify⟩ := verifyProof_steps hok
  exact ⟨hw, hcanon, flags, verifier, hflags, hverifier, hverify⟩

/-- What the checks on a statement establish. -/
structure Checked (h : Host A L X) (proof : Proof) (extData : ExtData A)
    (w : World A L X) : Prop where
  known : Merkle.isKnownRoot proof.root w.storage.merkle
    = (.ok true, w.storage.merkle)
  unspent : ∀ n ∈ proof.inputNullifiers, w.storage.nullifier n = false
  hash : hashExtData h extData = proof.extDataHash
  amount_gt : -2 ^ 248 < extData.extAmount.val
  amount_lt : extData.extAmount.val < 2 ^ 248
  publicAmount : (proof.publicAmount.val : Int) = extData.extAmount.val % bn256Modulus.val
  canonical : Canonical proof
  verified : Verified h proof w

omit [DecidableEq A] in
/-- A check of an association set's root only reads. -/
theorem aspCheck_ok {c : Prop} [Decidable c] {m : PoolM A L X U256} {r : U256}
    {e : Error} (hm : Frame id m)
    (hok : when c (do
      let root ← m
      rejectIf (root ≠ r) e) w = (.ok u, w')) : w = w' := by
  have hframe : Frame id (when c (do
      let root ← m
      rejectIf (root ≠ r) e) : PoolM A L X Unit) :=
    Frame.when c (hm.bind fun _ => Frame.rejectIf ..)
  exact (hframe.eq_of_ok hok).symm

omit [DecidableEq A] in
theorem callView_frame {β : Type} (view : L × X → Outcome β) :
    Frame id (callView view : PoolM A L X β) := by
  refine Frame.read.bind fun w => ?_
  cases view w.outside with
  | value b => exact Frame.pure b
  | error => exact Frame.trap
  | trap => exact Frame.trap

theorem aspRoot_frame (asp : PoolM A L X A) (hasp : Frame id asp) :
    Frame id (asp >>= fun a => callView (h.aspGetRoot a) : PoolM A L X U256) :=
  hasp.bind fun _ => callView_frame _

omit [DecidableEq A] in
theorem load_frame {β : Type} (field : Storage A → Option β) :
    Frame id (load field : PoolM A L X β) :=
  Frame.read.bind fun _ => Frame.okOr ..

omit [DecidableEq A] in
theorem isUnspent_eq_ok (n : U256) (w w' : World A L X) :
    (do
      let spent ← isSpent n
      rejectIf (spent = true) .alreadySpentNullifier : PoolM A L X Unit) w
        = (.ok (), w') ↔ w.storage.nullifier n = false ∧ w = w' := by
  rw [isSpent, bind_eq_ok]
  simp

/-- The runs of the checks of an accepted statement. -/
theorem checkStatement_steps {proof : Proof} {extData : ExtData A}
    (hok : checkStatement h proof extData w = (.ok u, w')) :
    w = w' ∧
      Merkle.isKnownRoot proof.root w.storage.merkle = (.ok true, w.storage.merkle) ∧
      (∀ n ∈ proof.inputNullifiers, w.storage.nullifier n = false) ∧
      hashExtData h extData = proof.extDataHash ∧
      calculatePublicAmount extData.extAmount w = (.ok proof.publicAmount, w) ∧
      (∃ flags, w.storage.policyFlags = some flags ∧
        when (Policy.requiresNonMembershipProofs flags = true) (do
          let root ← getAspNonMembershipRoot h
          rejectIf (root ≠ proof.aspNonMembershipRoot) .invalidProof) w = (.ok (), w) ∧
        when (Policy.requiresMembershipProofs flags = true) (do
          let root ← getAspMembershipRoot h
          rejectIf (root ≠ proof.aspMembershipRoot) .invalidProof) w = (.ok (), w)) ∧
      verifyProof h proof w = (.ok true, w) := by
  obtain ⟨known, w₁, h1, hok⟩ := bind_eq_ok.mp hok
  obtain ⟨rfl, hknown⟩ := isKnownRoot_ok h1
  obtain ⟨_, w₂, h2, hok⟩ := bind_eq_ok.mp hok
  obtain ⟨hk, rfl⟩ := rejectIf_eq_ok.mp h2
  rw [Bool.not_eq_false] at hk
  rw [hk] at hknown
  obtain ⟨_, w₃, h3, hok⟩ := bind_eq_ok.mp hok
  obtain ⟨hunspent, rfl⟩ := (forEach_check isUnspent_eq_ok).mp h3
  obtain ⟨_, w₄, h4, hok⟩ := bind_eq_ok.mp hok
  obtain ⟨hhash, rfl⟩ := rejectIf_eq_ok.mp h4
  obtain ⟨expected, w₅, h5, hok⟩ := bind_eq_ok.mp hok
  obtain ⟨rfl, -⟩ := calculatePublicAmount_ok h5
  obtain ⟨_, w₆, h6, hok⟩ := bind_eq_ok.mp hok
  obtain ⟨hpub, rfl⟩ := rejectIf_eq_ok.mp h6
  obtain ⟨flags, w₇, h7, hok⟩ := bind_eq_ok.mp hok
  obtain ⟨hflags, rfl⟩ := load_eq_ok.mp h7
  obtain ⟨_, w₈, h8, hok⟩ := bind_eq_ok.mp hok
  obtain rfl := aspCheck_ok (aspRoot_frame _ (load_frame _)) h8
  obtain ⟨_, w₉, h9, hok⟩ := bind_eq_ok.mp hok
  obtain rfl := aspCheck_ok (aspRoot_frame _ (load_frame _)) h9
  obtain ⟨valid, v₁, g1, hok⟩ := bind_eq_ok.mp hok
  obtain ⟨hvalid, rfl⟩ := rejectIf_eq_ok.mp hok
  rw [Bool.not_eq_false] at hvalid
  rw [hvalid] at g1
  obtain rfl := (verifyProof_ok g1).1
  rw [not_not] at hhash hpub
  rw [← hpub] at h5
  exact ⟨rfl, hknown, hunspent, hhash, h5, ⟨flags, hflags, h8, h9⟩, g1⟩

theorem checkStatement_ok {proof : Proof} {extData : ExtData A}
    (hok : checkStatement h proof extData w = (.ok u, w')) :
    w = w' ∧ Checked h proof extData w := by
  obtain ⟨hw, hknown, hunspent, hhash, hamount, -, hverify⟩ := checkStatement_steps hok
  obtain ⟨-, hgt, hlt, hres⟩ := calculatePublicAmount_ok hamount
  obtain ⟨-, hcanon, hverified⟩ := verifyProof_ok hverify
  exact ⟨hw, hknown, hunspent, hhash, hgt, hlt, hres, hcanon, hverified⟩

/-- The storage with nullifiers marked as spent. -/
def Storage.spend (s : Storage A) (ns : List U256) : Storage A :=
  { s with nullifier := fun n => s.nullifier n || decide (n ∈ ns) }

/-- One round of step 6. -/
def World.spendOne (w : World A L X) (n : U256) : World A L X :=
  { w with
    storage := { w.storage with nullifier := Function.update w.storage.nullifier n true }
    events := w.events ++ [.newNullifier n] }

/-- The world after step 6. -/
def World.spend (w : World A L X) (ns : List U256) : World A L X :=
  { w with
    storage := w.storage.spend ns
    events := w.events ++ ns.map .newNullifier }

omit [DecidableEq A] in
theorem World.foldl_spendOne : ∀ (ns : List U256) (w : World A L X),
    ns.foldl World.spendOne w = w.spend ns
  | [], w => by simp [World.spend, Storage.spend]
  | n :: ns, w => by
      rw [List.foldl_cons, World.foldl_spendOne ns]
      simp only [World.spend, World.spendOne, Storage.spend, List.map_cons,
        List.append_assoc, List.singleton_append]
      congr 2
      funext m
      by_cases hm : m = n
      · simp [hm]
      · simp [hm]

omit [DecidableEq A] in
theorem spendNullifiers_run (proof : Proof) (w : World A L X) :
    spendNullifiers proof w = (.ok (), w.spend proof.inputNullifiers) := by
  have hround : ∀ (n : U256) (w : World A L X),
      (markSpent n >>= fun _ => publish (.newNullifier n)) w = (.ok (), w.spendOne n) :=
    fun _ _ => rfl
  rw [← World.foldl_spendOne]
  exact forEach_write hround _ w

end Pool

end PrivacyWallet
