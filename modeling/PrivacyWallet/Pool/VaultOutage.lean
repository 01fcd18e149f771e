import PrivacyWallet.Pool.Runs

/-!
# A vault outage does not reach a transaction that needs no vault

Two runs of one transaction, from one world, that differ only in how the
vault behaves (`Host.withVault`). A deposit, a transfer inside the pool, and
a withdrawal that the idle balance covers are to have the same result, and
the same effects but for what the vault pulls.

The proof splits `transact` at the one call of the vault that such a
transaction reaches, the invest step at its end (`transact_eq`):

- **before it** the host with either vault computes the same
  (`upToInvest_congr`): `ensure_idle` takes its early exit
  (`ensureIdle_of_le`), and everything else does not read the vault;
- **at it** the answer is the same with every vault, because the result of
  the vault's call is thrown away (`maybeInvest_result`);
- **after it** the world differs from the one before by nothing but the
  vault's own transfers under the one authorization (`Invested`, with its
  frame lemmas), and these leave the liquidity buffer
  (`Invested.keeps_buffer`) and the balances of everyone they do not name
  (`Invested.balance_eq`).

`vault_outage_contained` puts the two ends next to each other.
-/

namespace PrivacyWallet

namespace Pool

open InvokeM

variable {A L X : Type} [DecidableEq A]

/-- The host with another vault in it. -/
def Host.withVault (h : Host A L X) (v : Vault A L X) : Host A L X :=
  { h with vault := v }

/-- The first half of `settleDeposit`. -/
def raiseLiabilities (extData : ExtData A) : PoolM A L X Unit :=
  when (0 < extData.extAmount) do
    let amount ← i256ToI128Nonneg extData.extAmount
    addLiabilities amount

/-- A transaction up to the step that may call the vault. -/
def upToInvest (h : Host A L X) (auth : List A) (proof : Proof) (extData : ExtData A)
    (sender : A) : PoolM A L X Unit := do
  requireAuth h auth sender
  takeDeposit h extData sender
  checkStatement h proof extData
  spendNullifiers proof
  payWithdrawal h extData
  insertCommitments h proof extData
  raiseLiabilities extData

variable {h : Host A L X} {v₁ v₂ : Vault A L X} {w w' : World A L X} {auth : List A}
  {proof : Proof} {extData : ExtData A} {sender : A}

theorem settleDeposit_eq (h : Host A L X) (extData : ExtData A) :
    settleDeposit h extData
      = raiseLiabilities extData >>= fun _ => when (0 < extData.extAmount) (maybeInvest h) := by
  unfold settleDeposit raiseLiabilities
  by_cases hext : 0 < extData.extAmount
  · simp only [when_run_of hext, bind_assoc]
  · simp only [when_run_of_not hext, pure_bind]

theorem transact_eq (h : Host A L X) (auth : List A) (proof : Proof) (extData : ExtData A)
    (sender : A) :
    transact h auth proof extData sender
      = upToInvest h auth proof extData sender
        >>= fun _ => when (0 < extData.extAmount) (maybeInvest h) := by
  simp only [transact, internalTransact, upToInvest, settleDeposit_eq, bind_assoc]

/-! ## Before the invest step -/

/-- The early exit: enough is idle, and the vault is not asked. -/
theorem ensureIdle_of_le {token : A} {required : I128}
    (htoken : w.storage.token = some token)
    (hle : required.val ≤ idle h token w.ledger) :
    ensureIdle h required w = (.ok (), w) := by
  have hget : (getToken : PoolM A L X A) w = (.ok token, w) := load_eq_ok.mpr ⟨htoken, rfl⟩
  have hbal : tokenBalance h token h.this w
      = (.ok (h.token.balance token h.this w.ledger), w) := rfl
  rw [ensureIdle, bind_of_ok hget, bind_of_ok hbal]
  exact congrFun (if_pos hle) w

/-- A withdrawal that the idle balance covers takes the early exit with either vault. -/
theorem payWithdrawal_congr
    (hidle : extData.extAmount.val < 0 → ∀ token, w.storage.token = some token →
      -extData.extAmount.val ≤ idle h token w.ledger) :
    payWithdrawal (h.withVault v₁) extData w = payWithdrawal (h.withVault v₂) extData w := by
  unfold payWithdrawal
  refine bind_congr rfl fun token w₁ h1 => ?_
  obtain ⟨htoken, rfl⟩ := load_eq_ok.mp h1
  by_cases hext : extData.extAmount < 0
  · rw [when_run_of hext, when_run_of hext]
    refine bind_congr rfl fun abs w₂ h2 => ?_
    obtain ⟨habs, rfl⟩ := negI256_eq_ok.mp h2
    refine bind_congr rfl fun a w₃ h3 => ?_
    obtain ⟨⟨-, ha⟩, rfl⟩ := i256ToI128Nonneg_eq_ok.mp h3
    have hle : a.val ≤ idle h token w.ledger := by
      have := hidle hext token htoken
      omega
    have h₁ : ensureIdle (h.withVault v₁) a w = (.ok (), w) := ensureIdle_of_le htoken hle
    have h₂ : ensureIdle (h.withVault v₂) a w = (.ok (), w) := ensureIdle_of_le htoken hle
    rw [bind_of_ok h₁, bind_of_ok h₂]
    rfl
  · rw [when_run_of_not hext, when_run_of_not hext]

/-- Up to the invest step the vault does not matter. -/
theorem upToInvest_congr
    (hneed : 0 ≤ extData.extAmount.val ∨ ∀ token, w.storage.token = some token →
      -extData.extAmount.val ≤ idle h token w.ledger) :
    upToInvest (h.withVault v₁) auth proof extData sender w
      = upToInvest (h.withVault v₂) auth proof extData sender w := by
  refine bind_congr rfl fun _ w₁ h1 => ?_
  obtain ⟨-, rfl⟩ := requireAuth_eq_ok.mp h1
  refine bind_congr rfl fun _ w₂ h2 => ?_
  have htaken := takeDeposit_ok h2
  refine bind_congr rfl fun _ w₃ h3 => ?_
  obtain ⟨rfl, -⟩ := checkStatement_ok h3
  refine bind_congr rfl fun _ w₄ h4 => ?_
  rw [spendNullifiers_run, Prod.mk.injEq] at h4
  obtain ⟨-, rfl⟩ := h4
  refine bind_congr (payWithdrawal_congr fun hext token htoken => ?_) fun _ _ _ => rfl
  -- a withdrawal has taken no deposit, so the idle balance is still the same
  cases htaken with
  | none => exact (hneed.resolve_left (not_le.mpr hext)) token htoken
  | taken hpos => exact absurd hext (not_lt.mpr hpos.le)

/-! ## The invest step -/

/-- The call of the vault is a `try_` call whose result is dropped, so the step
succeeds whether it does or not. -/
theorem invest_result (token vault : A) (amount : I128) :
    (invest h token vault amount w).1 = .ok () := by
  rw [invest]
  rcases hcall : tryVault h (authorizeVaultPull h token vault amount)
    (h.vault.deposit vault [amount] [amount] h.this true) w with ⟨e | b, w₁⟩
  · rw [tryVault, read_bind] at hcall
    rcases hout : h.vault.deposit vault [amount] [amount] h.this true w.outside
      with ⟨x, ts, b⟩ | _ | _ <;> rw [hout] at hcall <;> cases hcall
  · rw [bind_of_ok hcall]
    rfl

/-- The invest step answers the same with every vault. -/
theorem maybeInvest_result :
    (maybeInvest (h.withVault v₁) w).1 = (maybeInvest (h.withVault v₂) w).1 := by
  rw [maybeInvest, maybeInvest, read_bind, read_bind]
  rcases w.storage.investSetup with _ | ⟨token, vault, threshold, buffer⟩
  · rfl
  have hbal : ∀ v, tokenBalance (h.withVault v) token (h.withVault v).this w
      = (.ok (h.token.balance token h.this w.ledger), w) := fun _ => rfl
  dsimp only
  rw [investIdle, investIdle, bind_of_ok (hbal v₁), bind_of_ok (hbal v₂)]
  by_cases hlow : h.token.balance token h.this w.ledger < threshold
  · rw [if_pos hlow, if_pos hlow]
  rw [if_neg hlow, if_neg hlow]
  cases hsub : Signed.checkedSub (h.token.balance token h.this w.ledger) buffer with
  | none => rfl
  | some amount =>
      rw [orTrap_some_bind, orTrap_some_bind]
      by_cases hzero : amount ≤ 0
      · rw [if_pos hzero, if_pos hzero]
      · rw [if_neg hzero, if_neg hzero, invest_result, invest_result]

/-- How `mid` ends after the invest step: nothing moved, or the vault's call
succeeded and its transfers `ts` ran under the one authorization. -/
inductive Invested (h : Host A L X) (mid : World A L X) :
    List (Transfer A) → World A L X → Prop where
  | untouched : Invested h mid [] mid
  | pulled {token vault : A} {threshold buffer amount : I128} {x : X}
      {ts : List (Transfer A)}
      (hsetup : mid.storage.investSetup = some (token, vault, threshold, buffer))
      (hpos : 0 < amount.val)
      (hamount : amount.val = idle h token mid.ledger - buffer.val)
      (hcall : h.vault.deposit vault [amount] [amount] h.this true mid.outside
        = .value (x, ts, ())) :
      Invested h mid ts (mid.moved .vault
        (h.token.runTransfers h.this (authorizeVaultPull h token vault amount) ts
          mid.ledger, x))

/-- The invest step ends in one of the ways of `Invested`, with any vault. -/
theorem maybeInvest_ends {u : Unit} (hok : maybeInvest h w = (.ok u, w')) :
    ∃ ts, Invested h w ts w' := by
  rw [maybeInvest, read_bind] at hok
  rcases hs : w.storage.investSetup with _ | ⟨token, vault, threshold, buffer⟩ <;>
    rw [hs] at hok
  · obtain ⟨-, rfl⟩ := pure_eq_ok.mp hok
    exact ⟨[], .untouched⟩
  obtain ⟨bal, w₁, h1, hok⟩ := bind_eq_ok.mp hok
  obtain ⟨rfl, rfl⟩ := tokenBalance_eq_ok.mp h1
  rcases ite_eq_ok.mp hok with ⟨-, hok⟩ | ⟨-, hok⟩
  · obtain ⟨-, rfl⟩ := pure_eq_ok.mp hok
    exact ⟨[], .untouched⟩
  obtain ⟨amount, w₂, h2, hok⟩ := bind_eq_ok.mp hok
  obtain ⟨hsub, rfl⟩ := orTrap_eq_ok.mp h2
  rcases ite_eq_ok.mp hok with ⟨-, hok⟩ | ⟨hpos, hok⟩
  · obtain ⟨-, rfl⟩ := pure_eq_ok.mp hok
    exact ⟨[], .untouched⟩
  obtain ⟨out, w₃, h3, hok⟩ := bind_eq_ok.mp hok
  obtain ⟨-, rfl⟩ := pure_eq_ok.mp hok
  rw [tryVault, read_bind] at h3
  rcases hcall : h.vault.deposit vault [amount] [amount] h.this true w.outside
    with ⟨x, ts, b⟩ | _ | _ <;> rw [hcall] at h3 <;> dsimp only at h3
  · rw [update_bind, pure_eq_ok] at h3
    obtain ⟨-, rfl⟩ := h3
    exact ⟨ts, .pulled hs (not_le.mp hpos) (Signed.checkedSub_eq_some.mp hsub) hcall⟩
  · obtain ⟨-, rfl⟩ := pure_eq_ok.mp h3
    exact ⟨[], .untouched⟩
  · obtain ⟨-, rfl⟩ := pure_eq_ok.mp h3
    exact ⟨[], .untouched⟩

/-- The pool's own transfers, with the ledgers around them. -/
def World.ownTransfers (w : World A L X) : List (Interaction A L X) :=
  w.log.filter fun i => match i.cause with
    | .transfer _ => true
    | .vault => false
    | .outside => false

namespace Invested

variable {mid : World A L X} {ts : List (Transfer A)}

theorem storage (hi : Invested h mid ts w') : w'.storage = mid.storage := by
  cases hi <;> rfl

theorem events (hi : Invested h mid ts w') : w'.events = mid.events := by
  cases hi <;> rfl

theorem ownTransfers (hi : Invested h mid ts w') :
    w'.ownTransfers = mid.ownTransfers := by
  cases hi with
  | untouched => rfl
  | pulled => simp [World.ownTransfers]

/-- The vault does not take the idle balance below the buffer. -/
theorem keeps_buffer (hi : Invested h mid ts w') {token : A} {buffer : I128}
    (htoken : mid.storage.token = some token)
    (hbuffer : mid.storage.liquidityBuffer = some buffer) :
    min buffer.val (idle h token mid.ledger) ≤ idle h token w'.ledger := by
  cases hi with
  | untouched => exact min_le_right _ _
  | @pulled token' vault threshold buffer' amount x _ hsetup hpos hamount hcall =>
      simp only [Storage.investSetup, htoken, hbuffer, Option.bind_eq_bind,
        Option.bind_eq_some_iff, Option.pure_def, Option.some.injEq, Prod.mk.injEq] at hsetup
      obtain ⟨_, rfl, _, -, _, -, _, rfl, rfl, -, -, rfl⟩ := hsetup
      have hauth : Token.authorized (authorizeVaultPull h token vault amount)
          = amount.val := by
        simp [Token.authorized, authorizeVaultPull, hpos.le]
      have htake := @Token.balance_runTransfers A L _ h.token h.this token ts
        (authorizeVaultPull h token vault amount) mid.ledger
      rw [hauth] at htake
      refine (min_le_left _ _).trans ?_
      simp only [idle, World.moved] at hamount htake ⊢
      omega

/-- Whom the vault's transfers do not name keeps its balances. -/
theorem balance_eq (hi : Invested h mid ts w') (c a : A)
    (hts : ∀ t ∈ ts, t.src ≠ a ∧ t.dst ≠ a) :
    (h.token.balance c a w'.ledger).val = (h.token.balance c a mid.ledger).val := by
  cases hi with
  | untouched => rfl
  | pulled => exact Token.balance_runTransfers_of_not_named h.this c a hts _ _

end Invested

/-! ## Both runs -/

/-- Two vaults, one transaction that does not need the vault: the answer is
the same, and an accepted transaction leaves the same storage, the same
events and the same transfers of the pool's own. What differs is one
interaction with the vault after a common world `mid`; it leaves the
liquidity buffer, and the balances of everyone its transfers do not name.

Up to the invest step the two runs are one (`upToInvest_congr`), with `mid` as
its end. The invest step succeeds whatever the vault does
(`maybeInvest_result`), so the answers agree, and what it may change is said by
`Invested`. -/
theorem vault_outage_contained (h : Host A L X) (v₁ v₂ : Vault A L X)
    (w : World A L X) (auth : List A) (proof : Proof) (extData : ExtData A) (sender : A)
    (hneed : 0 ≤ extData.extAmount.val ∨ ∀ token, w.storage.token = some token →
      -extData.extAmount.val ≤ idle h token w.ledger) :
    (transact (h.withVault v₁) auth proof extData sender w).1
        = (transact (h.withVault v₂) auth proof extData sender w).1 ∧
      ∀ u₁ u₂ w₁ w₂,
        transact (h.withVault v₁) auth proof extData sender w = (.ok u₁, w₁) →
        transact (h.withVault v₂) auth proof extData sender w = (.ok u₂, w₂) →
        w₁.storage = w₂.storage ∧ w₁.events = w₂.events ∧
          w₁.ownTransfers = w₂.ownTransfers ∧
          ∃ mid ts₁ ts₂, Invested (h.withVault v₁) mid ts₁ w₁ ∧
            Invested (h.withVault v₂) mid ts₂ w₂ ∧
            (∀ token buffer, w₁.storage.token = some token →
              w₁.storage.liquidityBuffer = some buffer →
              min buffer.val (idle h token mid.ledger) ≤ idle h token w₁.ledger ∧
                min buffer.val (idle h token mid.ledger) ≤ idle h token w₂.ledger) ∧
            (∀ c a, (∀ t ∈ ts₁ ++ ts₂, t.src ≠ a ∧ t.dst ≠ a) →
              (h.token.balance c a w₁.ledger).val
                = (h.token.balance c a w₂.ledger).val) := by
  have hcommon : upToInvest (h.withVault v₁) auth proof extData sender w
      = upToInvest (h.withVault v₂) auth proof extData sender w := upToInvest_congr hneed
  rw [transact_eq, transact_eq]
  rcases hup : upToInvest (h.withVault v₁) auth proof extData sender w with ⟨e | u, mid⟩
  · -- both runs fail before the invest step
    have hup' := hcommon.symm.trans hup
    rw [bind_of_error hup, bind_of_error hup']
    refine ⟨rfl, fun u₁ u₂ w₁ w₂ hok => ?_⟩
    cases hok
  have hup' := hcommon.symm.trans hup
  rw [bind_of_ok hup, bind_of_ok hup']
  refine ⟨?_, fun u₁ u₂ w₁ w₂ hok₁ hok₂ => ?_⟩
  · by_cases hext : 0 < extData.extAmount
    · rw [when_run_of hext, when_run_of hext, maybeInvest_result]
    · rw [when_run_of_not hext, when_run_of_not hext]
  · have hend : ∀ {v : Vault A L X} {u : Unit} {w' : World A L X},
        when (0 < extData.extAmount) (maybeInvest (h.withVault v)) mid = (.ok u, w') →
        ∃ ts, Invested (h.withVault v) mid ts w' := by
      intro v u w' hok
      rcases when_eq_ok.mp hok with ⟨-, hok⟩ | ⟨-, rfl⟩
      · exact maybeInvest_ends hok
      · exact ⟨[], .untouched⟩
    obtain ⟨ts₁, hi₁⟩ := hend hok₁
    obtain ⟨ts₂, hi₂⟩ := hend hok₂
    refine ⟨hi₁.storage.trans hi₂.storage.symm, hi₁.events.trans hi₂.events.symm,
      hi₁.ownTransfers.trans hi₂.ownTransfers.symm, mid, ts₁, ts₂, hi₁, hi₂, ?_, ?_⟩
    · intro token buffer htoken hbuffer
      rw [hi₁.storage] at htoken hbuffer
      exact ⟨hi₁.keeps_buffer htoken hbuffer, hi₂.keeps_buffer htoken hbuffer⟩
    · intro c a hts
      have hb₁ := hi₁.balance_eq c a fun t ht => hts t (List.mem_append_left _ ht)
      have hb₂ := hi₂.balance_eq c a fun t ht => hts t (List.mem_append_right _ ht)
      exact hb₁.trans hb₂.symm

/-- A vault every call of which traps. -/
def trappedVault : Vault Nat (Nat → Nat → Nat) Nat where
  balance _ _ _ := .trap
  getAssetAmountsPerShares _ _ _ := .trap
  deposit _ _ _ _ _ _ := .trap
  withdraw _ _ _ _ _ := .trap

/-- The deposit that invests at par is accepted with a trapped vault too. -/
theorem vault_outage_contained_table :
    (transact (tableHost.withVault trappedVault) [7] tableProof tableExt 7 tableWorld).1
      = .ok () :=
  (vault_outage_contained tableHost trappedVault (parVault 1) tableWorld [7] tableProof
    tableExt 7 (Or.inl (by decide))).1.trans (by rfl)

end Pool

end PrivacyWallet
