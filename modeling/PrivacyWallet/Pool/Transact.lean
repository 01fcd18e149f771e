import PrivacyWallet.Pool.Specs

/-!
# A successful transaction, step by step

`transact_ok` cuts an accepted transaction into its steps; the lemmas
before it say what each step moves. A deposit takes the amount from the
sender first and raises the liabilities last, a withdrawal makes the
amount idle, pays it and lowers the liabilities, and a transfer inside the
pool moves nothing. `collectYield_ok` does the same for a payout of yield.
-/

namespace PrivacyWallet

namespace Pool

open InvokeM

variable {A L X : Type} [DecidableEq A] {h : Host A L X} {auth : List A}
  {w w' : World A L X} {u : Unit} {proof : Proof} {extData : ExtData A} {sender : A}

/-- `w'` is `w` after the transfer `t`. -/
def Transferred (h : Host A L X) (t : Transfer A) (w w' : World A L X) : Prop :=
  ∃ l, h.token.transfer t w.ledger = some l ∧ w.moved (.transfer t) (l, w.others) = w'

theorem Transferred.storage {t : Transfer A} (ht : Transferred h t w w') :
    w'.storage = w.storage := by
  obtain ⟨l, -, rfl⟩ := ht
  rfl

theorem Transferred.amount_nonneg {t : Transfer A} (ht : Transferred h t w w') :
    0 ≤ t.amount.val := by
  obtain ⟨l, hl, -⟩ := ht
  exact h.token.transfer_nonneg hl

/-- How a transfer moves the pool's idle balance. -/
theorem Transferred.idle_eq {t : Transfer A} (ht : Transferred h t w w') (c : A) :
    idle h c w'.ledger = idle h c w.ledger + t.delta c h.this := by
  obtain ⟨l, hl, rfl⟩ := ht
  exact h.token.balance_transfer hl c h.this

/-- The deposit that a transaction takes. -/
inductive DepositTaken (h : Host A L X) (extData : ExtData A) (sender : A)
    (w : World A L X) : World A L X → Prop where
  | none (hext : extData.extAmount.val ≤ 0) : DepositTaken h extData sender w w
  | taken {token : A} {a : I128} {w' : World A L X} (hext : 0 < extData.extAmount.val)
      (htoken : w.storage.token = some token) (ha : a.val = extData.extAmount.val)
      (ht : Transferred h ⟨token, sender, h.this, a⟩ w w') :
      DepositTaken h extData sender w w'

theorem takeDeposit_ok (hok : takeDeposit h extData sender w = (.ok u, w')) :
    DepositTaken h extData sender w w' := by
  obtain ⟨token, w₁, h1, hok⟩ := bind_eq_ok.mp hok
  obtain ⟨htoken, rfl⟩ := load_eq_ok.mp h1
  rcases when_eq_ok.mp hok with ⟨hext, hok⟩ | ⟨hext, rfl⟩
  · obtain ⟨limit, w₂, h2, hok⟩ := bind_eq_ok.mp hok
    obtain ⟨-, rfl⟩ := load_eq_ok.mp h2
    obtain ⟨_, w₃, h3, hok⟩ := bind_eq_ok.mp hok
    obtain ⟨-, rfl⟩ := rejectIf_eq_ok.mp h3
    obtain ⟨a, w₄, h4, hok⟩ := bind_eq_ok.mp hok
    obtain ⟨⟨-, ha⟩, rfl⟩ := i256ToI128Nonneg_eq_ok.mp h4
    exact .taken hext htoken ha (tokenTransfer_eq_ok.mp hok)
  · exact .none (not_lt.mp hext)

/-- What a transaction pays out. -/
inductive WithdrawalPaid (h : Host A L X) (extData : ExtData A) (w : World A L X) :
    World A L X → Prop where
  | none (hext : 0 ≤ extData.extAmount.val) : WithdrawalPaid h extData w w
  | paid {token : A} {a next : I128} {w₁ w₂ : World A L X}
      (hext : extData.extAmount.val < 0) (htoken : w.storage.token = some token)
      (ha : a.val = -extData.extAmount.val) (hmove : VaultMove w w₁)
      (hidle : a.val ≤ idle h token w₁.ledger)
      (ht : Transferred h ⟨token, h.this, extData.recipient, a⟩ w₁ w₂)
      (hnext : next.val = max (w.storage.liabilities.val - a.val) 0) :
      WithdrawalPaid h extData w (w₂.store fun s => s.setLiabilities next)

theorem payWithdrawal_ok (hok : payWithdrawal h extData w = (.ok u, w')) :
    WithdrawalPaid h extData w w' := by
  obtain ⟨token, w₁, h1, hok⟩ := bind_eq_ok.mp hok
  obtain ⟨htoken, rfl⟩ := load_eq_ok.mp h1
  rcases when_eq_ok.mp hok with ⟨hext, hok⟩ | ⟨hext, rfl⟩
  · obtain ⟨abs, w₂, h2, hok⟩ := bind_eq_ok.mp hok
    obtain ⟨habs, rfl⟩ := negI256_eq_ok.mp h2
    obtain ⟨a, w₃, h3, hok⟩ := bind_eq_ok.mp hok
    obtain ⟨⟨-, ha⟩, rfl⟩ := i256ToI128Nonneg_eq_ok.mp h3
    obtain ⟨_, w₄, h4, hok⟩ := bind_eq_ok.mp hok
    obtain ⟨token', htoken', hmove, hidle⟩ := ensureIdle_ok h4
    have heq : token' = token := Option.some.inj (htoken'.symm.trans htoken)
    subst heq
    obtain ⟨_, w₅, h5, hok⟩ := bind_eq_ok.mp hok
    have ht : Transferred h _ w₄ w₅ := tokenTransfer_eq_ok.mp h5
    obtain ⟨next, hnext, rfl⟩ := subLiabilities_ok hok
    rw [ht.storage, hmove.storage] at hnext
    exact .paid hext htoken (ha.trans habs) hmove hidle ht hnext
  · exact .none (not_lt.mp hext)

/-- The tree insertion of a transaction. -/
def Inserted (h : Host A L X) (proof : Proof) (w w' : World A L X) : Prop :=
  ∃ index t es,
    Merkle.insertTwoLeaves h.poseidon2Compress proof.outputCommitment0
      proof.outputCommitment1 w.storage.merkle = (.ok index, t) ∧
    w' = { w with
      storage := { w.storage with merkle := t }
      events := w.events ++ es }

/-- The announcement of the new commitments, at the positions `index`. -/
def announcements (proof : Proof) (extData : ExtData A) (index : Nat × Nat) : List Event :=
  [.newCommitment proof.outputCommitment0 index.1 extData.encryptedOutput0,
    .newCommitment proof.outputCommitment1 index.2 extData.encryptedOutput1]

theorem insertCommitments_eq_ok :
    insertCommitments h proof extData w = (.ok u, w') ↔
      ∃ index t, Merkle.insertTwoLeaves h.poseidon2Compress proof.outputCommitment0
          proof.outputCommitment1 w.storage.merkle = (.ok index, t) ∧
        w' = { w with
          storage := { w.storage with merkle := t }
          events := w.events ++ announcements proof extData index } := by
  rw [insertCommitments, bind_eq_ok]
  constructor
  · rintro ⟨⟨idx0, idx1⟩, w₁, h1, hok⟩
    obtain ⟨t, ht, rfl⟩ := onMerkle_eq_ok.mp h1
    obtain ⟨_, w₂, h2, hok⟩ := bind_eq_ok.mp hok
    obtain rfl := publish_eq_ok.mp h2
    obtain rfl := publish_eq_ok.mp hok
    exact ⟨(idx0, idx1), t, ht, by simp [World.store, announcements]⟩
  · rintro ⟨⟨idx0, idx1⟩, t, ht, rfl⟩
    refine ⟨(idx0, idx1), _, onMerkle_eq_ok.mpr ⟨t, ht, rfl⟩,
      bind_eq_ok.mpr ⟨(), _, publish_eq_ok.mpr rfl, publish_eq_ok.mpr ?_⟩⟩
    simp [World.store, announcements]

theorem insertCommitments_ok (hok : insertCommitments h proof extData w = (.ok u, w')) :
    Inserted h proof w w' := by
  obtain ⟨index, t, ht, rfl⟩ := insertCommitments_eq_ok.mp hok
  exact ⟨index, t, announcements proof extData index, ht, rfl⟩

/-- The end of a deposit: the liabilities rise, then the vault may be
called. -/
inductive DepositSettled (h : Host A L X) (extData : ExtData A) (w : World A L X) :
    World A L X → Prop where
  | none (hext : extData.extAmount.val ≤ 0) : DepositSettled h extData w w
  | settled {a next : I128} {w' : World A L X} (hext : 0 < extData.extAmount.val)
      (ha : a.val = extData.extAmount.val)
      (hnext : next.val = w.storage.liabilities.val + a.val)
      (hmove : VaultMove (w.store fun s => s.setLiabilities next) w') :
      DepositSettled h extData w w'

theorem settleDeposit_ok (hok : settleDeposit h extData w = (.ok u, w')) :
    DepositSettled h extData w w' := by
  rcases when_eq_ok.mp hok with ⟨hext, hok⟩ | ⟨hext, rfl⟩
  · obtain ⟨a, w₁, h1, hok⟩ := bind_eq_ok.mp hok
    obtain ⟨⟨-, ha⟩, rfl⟩ := i256ToI128Nonneg_eq_ok.mp h1
    obtain ⟨_, w₂, h2, hok⟩ := bind_eq_ok.mp hok
    obtain ⟨next, hnext, rfl⟩ := addLiabilities_eq_ok.mp h2
    exact .settled hext ha hnext (maybeInvest_ok hok)
  · exact .none (not_lt.mp hext)

/-- An accepted transaction, cut into its steps. -/
structure Transacted (h : Host A L X) (auth : List A) (proof : Proof)
    (extData : ExtData A) (sender : A) (w w₁ w₂ w₃ w' : World A L X) : Prop where
  sender_mem : sender ∈ auth
  sender_ne : sender ≠ h.this
  taken : DepositTaken h extData sender w w₁
  checked : Checked h proof extData w₁
  paid : WithdrawalPaid h extData (w₁.spend proof.inputNullifiers) w₂
  inserted : Inserted h proof w₂ w₃
  settled : DepositSettled h extData w₃ w'

/-- The runs of the steps of an accepted transaction. -/
theorem transact_steps (hok : transact h auth proof extData sender w = (.ok u, w')) :
    (sender ∈ auth ∧ sender ≠ h.this) ∧ ∃ w₁ w₂ w₃,
      takeDeposit h extData sender w = (.ok (), w₁) ∧
      checkStatement h proof extData w₁ = (.ok (), w₁) ∧
      payWithdrawal h extData (w₁.spend proof.inputNullifiers) = (.ok (), w₂) ∧
      insertCommitments h proof extData w₂ = (.ok (), w₃) ∧
      settleDeposit h extData w₃ = (.ok (), w') := by
  obtain ⟨_, v, h1, hok⟩ := bind_eq_ok.mp hok
  obtain ⟨hauth, rfl⟩ := requireAuth_eq_ok.mp h1
  obtain ⟨_, w₁, h2, hok⟩ := bind_eq_ok.mp hok
  obtain ⟨_, v₂, h3, hok⟩ := bind_eq_ok.mp hok
  obtain ⟨rfl, -⟩ := checkStatement_ok h3
  obtain ⟨_, v₃, h4, hok⟩ := bind_eq_ok.mp hok
  rw [spendNullifiers_run, Prod.mk.injEq] at h4
  obtain ⟨-, rfl⟩ := h4
  obtain ⟨_, w₂, h5, hok⟩ := bind_eq_ok.mp hok
  obtain ⟨_, w₃, h6, hok⟩ := bind_eq_ok.mp hok
  exact ⟨hauth, w₁, w₂, w₃, h2, h3, h5, h6, hok⟩

theorem transact_ok (hok : transact h auth proof extData sender w = (.ok u, w')) :
    ∃ w₁ w₂ w₃, Transacted h auth proof extData sender w w₁ w₂ w₃ w' := by
  obtain ⟨⟨hmem, hne⟩, w₁, w₂, w₃, h1, h2, h3, h4, h5⟩ := transact_steps hok
  exact ⟨w₁, w₂, w₃, hmem, hne, takeDeposit_ok h1, (checkStatement_ok h2).2,
    payWithdrawal_ok h3, insertCommitments_ok h4, settleDeposit_ok h5⟩

/-! ### What a transaction does to the storage -/

/-- The storage apart from the liabilities counter. -/
def Storage.withoutLiabilities (s : Storage A) : Storage A :=
  { s with totalLiabilities := none }

theorem DepositTaken.storage (hd : DepositTaken h extData sender w w') :
    w'.storage = w.storage := by
  cases hd with
  | none => rfl
  | taken _ _ _ ht => exact ht.storage

theorem WithdrawalPaid.storage (hp : WithdrawalPaid h extData w w') :
    w'.storage.withoutLiabilities = w.storage.withoutLiabilities := by
  cases hp with
  | none => rfl
  | @paid token a next w₁ w₂ _ _ _ hmove _ ht _ =>
      rw [World.store_storage, ht.storage, hmove.storage]
      rfl

theorem DepositSettled.storage (hs : DepositSettled h extData w w') :
    w'.storage.withoutLiabilities = w.storage.withoutLiabilities := by
  cases hs with
  | none => rfl
  | settled _ _ _ hmove =>
      rw [hmove.storage]
      rfl

/-- Apart from the liabilities, a transaction spends its nullifiers and
inserts its commitments. -/
theorem Transacted.storage {w₁ w₂ w₃ : World A L X}
    (ht : Transacted h auth proof extData sender w w₁ w₂ w₃ w') :
    ∃ index t, Merkle.insertTwoLeaves h.poseidon2Compress proof.outputCommitment0
        proof.outputCommitment1 w.storage.merkle = (.ok index, t) ∧
      w'.storage.withoutLiabilities
        = { (w.storage.spend proof.inputNullifiers).withoutLiabilities with
            merkle := t } := by
  obtain ⟨index, t, es, hins, rfl⟩ := ht.inserted
  have hpaid := ht.paid.storage
  have htaken := ht.taken.storage
  have hmerkle : w₂.storage.merkle = w.storage.merkle := by
    have := congrArg Storage.merkle hpaid
    rw [← htaken]
    exact this
  refine ⟨index, t, hmerkle ▸ hins, ht.settled.storage.trans ?_⟩
  have hspend : w₂.storage.withoutLiabilities
      = (w.storage.spend proof.inputNullifiers).withoutLiabilities := by
    rw [hpaid, ← htaken]
    rfl
  calc ({ w₂.storage with merkle := t } : Storage A).withoutLiabilities
      = { w₂.storage.withoutLiabilities with merkle := t } := rfl
    _ = _ := by rw [hspend]

/-! ## Yield -/

/-- `v` is what the vault answers for the pool's position: the quote for
its shares, `0` without shares or without a first amount. -/
def PositionValue (h : Host A L X) (vault : A) (o : L × X) (v : I128) : Prop :=
  ∃ shares : I128, h.vault.balance vault h.this o = .value shares ∧
    ((shares.val ≤ 0 ∧ v = 0) ∨
      (0 < shares.val ∧ ∃ amounts,
        h.vault.getAssetAmountsPerShares vault shares o = .value amounts ∧
        v = amounts[0]?.getD 0))

theorem vaultPositionValue_eq_ok {v : I128} :
    vaultPositionValue h w = (.ok v, w') ↔
      (∃ vault, w.storage.vault = some vault ∧
        PositionValue h vault w.outside v) ∧ w = w' := by
  rw [vaultPositionValue, bind_eq_ok]
  constructor
  · rintro ⟨vault, w₁, h1, hok⟩
    obtain ⟨hvault, rfl⟩ := load_eq_ok.mp h1
    obtain ⟨shares, w₂, h2, hok⟩ := bind_eq_ok.mp hok
    obtain ⟨hshares, rfl⟩ := callView_eq_ok.mp h2
    rcases ite_eq_ok.mp hok with ⟨hle, hok⟩ | ⟨hlt, hok⟩
    · obtain ⟨rfl, rfl⟩ := pure_eq_ok.mp hok
      exact ⟨⟨vault, hvault, shares, hshares, Or.inl ⟨hle, rfl⟩⟩, rfl⟩
    · obtain ⟨amounts, w₃, h3, hok⟩ := bind_eq_ok.mp hok
      obtain ⟨hamounts, rfl⟩ := callView_eq_ok.mp h3
      obtain ⟨rfl, rfl⟩ := pure_eq_ok.mp hok
      exact ⟨⟨vault, hvault, shares, hshares,
        Or.inr ⟨not_le.mp hlt, amounts, hamounts, rfl⟩⟩, rfl⟩
  · rintro ⟨⟨vault, hvault, shares, hshares, hv⟩, rfl⟩
    refine ⟨vault, w, load_eq_ok.mpr ⟨hvault, rfl⟩,
      bind_eq_ok.mpr ⟨shares, w, callView_eq_ok.mpr ⟨hshares, rfl⟩, ?_⟩⟩
    rcases hv with ⟨hle, hv⟩ | ⟨hlt, amounts, hamounts, hv⟩
    · refine ite_eq_ok.mpr (Or.inl ⟨hle, pure_eq_ok.mpr ⟨hv.symm, rfl⟩⟩)
    · refine ite_eq_ok.mpr (Or.inr ⟨not_le.mpr hlt, bind_eq_ok.mpr
        ⟨amounts, w, callView_eq_ok.mpr ⟨hamounts, rfl⟩, pure_eq_ok.mpr ⟨hv.symm, rfl⟩⟩⟩)

theorem getSurplus_ok {v : I128} (hok : getSurplus h w = (.ok v, w')) :
    w = w' ∧ ∃ token vault position, w.storage.token = some token ∧
      w.storage.vault = some vault ∧ PositionValue h vault w.outside position ∧
      idle h token w.ledger + position.val < 2 ^ 127 ∧
      v.val = max (idle h token w.ledger + position.val - w.storage.liabilities.val) 0 := by
  obtain ⟨token, w₁, h1, hok⟩ := bind_eq_ok.mp hok
  obtain ⟨htoken, rfl⟩ := load_eq_ok.mp h1
  obtain ⟨bal, w₂, h2, hok⟩ := bind_eq_ok.mp hok
  obtain ⟨rfl, rfl⟩ := tokenBalance_eq_ok.mp h2
  obtain ⟨position, w₃, h3, hok⟩ := bind_eq_ok.mp hok
  obtain ⟨⟨vault, hvault, hpos⟩, rfl⟩ := vaultPositionValue_eq_ok.mp h3
  obtain ⟨assets, w₄, h4, hok⟩ := bind_eq_ok.mp hok
  obtain ⟨hassets, rfl⟩ := okOr_eq_ok.mp h4
  obtain ⟨liab, w₅, h5, hok⟩ := bind_eq_ok.mp hok
  obtain ⟨rfl, rfl⟩ := getLiabilities_eq_ok.mp h5
  obtain ⟨surplus, w₆, h6, hok⟩ := bind_eq_ok.mp hok
  obtain ⟨hsurplus, rfl⟩ := orTrap_eq_ok.mp h6
  obtain ⟨rfl, rfl⟩ := pure_eq_ok.mp hok
  have hassets := Signed.checkedAdd_eq_some.mp hassets
  have hhi : assets.val < 2 ^ 127 := assets.hi
  refine ⟨rfl, token, vault, position, htoken, hvault, hpos, hassets ▸ hhi, ?_⟩
  rw [Signed.val_max, Signed.val_zero, Signed.checkedSub_eq_some.mp hsurplus, hassets]
  rfl

/-- What a collection of yield did: nothing, or at most one move of the
vault and then a payout that the surplus after it covers. -/
inductive YieldPaid (h : Host A L X) (dst : A) (w : World A L X) :
    I128 → World A L X → Prop where
  | none {pay : I128} {w' : World A L X} (hpay : pay.val ≤ 0) (hmove : VaultMove w w') :
      YieldPaid h dst w pay w'
  | paid {token vault : A} {pay position : I128} {w₁ w' : World A L X}
      (hpay : 0 < pay.val) (hmove : VaultMove w w₁)
      (htoken : w.storage.token = some token) (hvault : w.storage.vault = some vault)
      (hpos : PositionValue h vault w₁.outside position)
      (hsurplus : pay.val
        ≤ idle h token w₁.ledger + position.val - w.storage.liabilities.val)
      (ht : Transferred h ⟨token, h.this, dst, pay⟩ w₁ w') :
      YieldPaid h dst w pay w'

theorem YieldPaid.storage {dst : A} {pay : I128} (hy : YieldPaid h dst w pay w') :
    w'.storage = w.storage := by
  cases hy with
  | none _ hmove => exact hmove.storage
  | paid _ hmove _ _ _ _ ht => exact ht.storage.trans hmove.storage

theorem collectYield_ok {dst : A} {pay : I128}
    (hok : collectYield h auth dst w = (.ok pay, w')) : YieldPaid h dst w pay w' := by
  obtain ⟨admin, v₁, h1, hok⟩ := bind_eq_ok.mp hok
  obtain ⟨-, rfl⟩ := load_eq_ok.mp h1
  obtain ⟨_, v₂, h2, hok⟩ := bind_eq_ok.mp hok
  obtain ⟨-, rfl⟩ := requireAuth_eq_ok.mp h2
  obtain ⟨surplus, v₃, h3, hok⟩ := bind_eq_ok.mp hok
  obtain ⟨rfl, -⟩ := getSurplus_ok h3
  rcases ite_eq_ok.mp hok with ⟨-, hok⟩ | ⟨-, hok⟩
  · obtain ⟨rfl, rfl⟩ := pure_eq_ok.mp hok
    exact .none (le_refl _) (Or.inl rfl)
  obtain ⟨_, w₁, h4, hok⟩ := bind_eq_ok.mp hok
  obtain ⟨token, htoken, hmove, -⟩ := ensureIdle_ok h4
  obtain ⟨token', v₄, h5, hok⟩ := bind_eq_ok.mp hok
  obtain ⟨htoken', rfl⟩ := load_eq_ok.mp h5
  rw [hmove.storage, htoken] at htoken'
  obtain ⟨surplus', v₅, h6, hok⟩ := bind_eq_ok.mp hok
  obtain ⟨rfl, token'', vault, position, htoken'', hvault, hpos, -, hval⟩ := getSurplus_ok h6
  rw [hmove.storage] at htoken'' hvault hval
  rw [htoken] at htoken''
  have htt' : token = token' := Option.some.inj htoken'
  have htt'' : token = token'' := Option.some.inj htoken''
  subst htt' htt''
  obtain ⟨bal, v₆, h7, hok⟩ := bind_eq_ok.mp hok
  obtain ⟨rfl, rfl⟩ := tokenBalance_eq_ok.mp h7
  obtain ⟨_, v₇, h8, hok⟩ := bind_eq_ok.mp hok
  obtain ⟨rfl, rfl⟩ := pure_eq_ok.mp hok
  rcases when_eq_ok.mp h8 with ⟨hpay, h8⟩ | ⟨hpay, rfl⟩
  · have hle : (min surplus' (h.token.balance token h.this w₁.ledger)).val
        ≤ surplus'.val := by
      rw [Signed.val_min]
      exact min_le_left _ _
    have hpos0 : 0 < (min surplus' (h.token.balance token h.this w₁.ledger)).val := hpay
    exact .paid hpos0 hmove htoken hvault hpos (by omega) (tokenTransfer_eq_ok.mp h8)
  · exact .none (not_lt.mp hpay) hmove

end Pool

end PrivacyWallet
