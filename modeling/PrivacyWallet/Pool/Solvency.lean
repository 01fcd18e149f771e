import Mathlib
import PrivacyWallet.Pool.Runs

/-!
# The pool stays solvent, up to what the vault loses

The assets of the pool are its idle balance and the value the vault quotes
for its shares (`assetsAt`). They are compared with the liabilities along
whole runs. Nothing is assumed of the vault but that it quotes no negative
amounts, so it can lose value in every call and between calls; `loss` adds
up by how much.

The proof carries one number, `backing`: the assets and all losses so far.
It is chosen so that the vault drops out of the argument - what the vault
takes from the assets it adds to the losses, so no call of the vault and no
change outside lowers the backing (`VaultMove.backing_le`,
`outside_backing_le`). Only the pool's own transfers do, each by what it
moves (`Transferred.backing_le`).

The invariant (`Backed`) is that the backing covers the liabilities. Inside
a transaction it is carried with a margin, the deposit that was taken in but
not yet booked (`pending`):

- **deposit** (`Backed.deposit`): the transfer raises the backing by the
  margin;
- **withdrawal** (`Backed.withdraw`): the payout lowers the backing by the
  amount the liabilities drop by, and where they are clamped at zero the
  backing is not negative anyway;
- **booking** (`Backed.settle`): the liabilities rise by the margin;
- **yield** (`Backed.yield`): the payout is at most the surplus, computed
  after the divest on the very assets that pay it.

`Backed.exec` collects them to one step and `Run.invariant` to a run. That a
collection of yield leaves the liabilities covered needs no history at all:
it is the bound of the payout, at the moment of the payout
(`YieldPaid.covered`).
-/

namespace PrivacyWallet

namespace Pool

open InvokeM

variable {A L X : Type} [DecidableEq A]

/-! ## Assets and losses -/

/-- What the vault quotes for the pool's shares, `0` if it cannot be asked. -/
def positionAt (h : Host A L X) (vault : A) (o : L × X) : Int :=
  match h.vault.balance vault h.this o with
  | .value shares =>
      if shares ≤ 0 then 0
      else
        match h.vault.getAssetAmountsPerShares vault shares o with
        | .value amounts => (amounts[0]?.getD 0).val
        | .error => 0
        | .trap => 0
  | .error => 0
  | .trap => 0

/-- Idle balance and vault position together. -/
def assetsAt (h : Host A L X) (token vault : A) (o : L × X) : Int :=
  idle h token o.1 + positionAt h vault o

/-- By how much an interaction lowered the assets through the vault: for a
transfer, by how much it lowered the quote. -/
def lossOf (h : Host A L X) (token vault : A) (i : Interaction A L X) : Int :=
  match i.cause with
  | .transfer _ => max 0 (positionAt h vault i.before - positionAt h vault i.after)
  | .vault => max 0 (assetsAt h token vault i.before - assetsAt h token vault i.after)
  | .outside => max 0 (assetsAt h token vault i.before - assetsAt h token vault i.after)

/-- The sum of all losses so far. -/
def loss (h : Host A L X) (token vault : A) (w : World A L X) : Int :=
  (w.log.map (lossOf h token vault)).sum

/-- The vault quotes no negative amounts. -/
def QuotesNonneg (h : Host A L X) : Prop :=
  ∀ vault shares o amounts, 0 < shares.val →
    h.vault.getAssetAmountsPerShares vault shares o = .value amounts →
      ∀ a ∈ amounts, 0 ≤ a.val

variable {h : Host A L X} {token vault : A} {w w' : World A L X}

theorem positionAt_of_value {o : L × X} {v : I128} (hv : PositionValue h vault o v) :
    positionAt h vault o = v.val := by
  obtain ⟨shares, hshares, ⟨hle, rfl⟩ | ⟨hlt, amounts, hamounts, rfl⟩⟩ := hv
  · rw [positionAt, hshares]
    exact if_pos hle
  · rw [positionAt, hshares]
    have hne : ¬shares ≤ 0 := not_le.mpr hlt
    dsimp only
    rw [if_neg hne, hamounts]

theorem positionAt_nonneg (hq : QuotesNonneg h) (o : L × X) :
    0 ≤ positionAt h vault o := by
  rw [positionAt]
  cases h.vault.balance vault h.this o with
  | error => exact le_refl _
  | trap => exact le_refl _
  | value shares =>
      dsimp only
      split
      · exact le_refl _
      · rename_i hpos
        rcases hquote : h.vault.getAssetAmountsPerShares vault shares o
          with amounts | _ | _
        · dsimp only
          rcases hfirst : amounts[0]? with _ | a
          · exact le_refl _
          · exact hq vault shares o amounts (not_le.mp hpos) hquote a
              (List.mem_of_getElem? hfirst)
        · exact le_refl _
        · exact le_refl _

theorem lossOf_nonneg (i : Interaction A L X) : 0 ≤ lossOf h token vault i := by
  rw [lossOf]
  cases i.cause with
  | transfer t => exact le_max_left _ _
  | vault => exact le_max_left _ _
  | outside => exact le_max_left _ _

theorem loss_nonneg (w : World A L X) : 0 ≤ loss h token vault w := by
  refine List.sum_nonneg fun x hx => ?_
  obtain ⟨i, -, rfl⟩ := List.mem_map.mp hx
  exact lossOf_nonneg i

theorem loss_moved (w : World A L X) (cause : Cause A) (o : L × X) :
    loss h token vault (w.moved cause o)
      = loss h token vault w + lossOf h token vault ⟨cause, w.outside, o⟩ := by
  simp [loss]

/-! ## Assets plus losses -/

/-- Assets and losses together: what a loss takes from the one it adds to
the other. -/
def backing (h : Host A L X) (token vault : A) (w : World A L X) : Int :=
  assetsAt h token vault w.outside + loss h token vault w

theorem backing_nonneg (hq : QuotesNonneg h) (w : World A L X) :
    0 ≤ backing h token vault w := by
  have hidle := idle_nonneg h token w.ledger
  have hpos : 0 ≤ positionAt h vault w.outside := positionAt_nonneg hq _
  have hloss : 0 ≤ loss h token vault w := loss_nonneg w
  simp only [backing, assetsAt, World.outside] at *
  omega

/-- Only the outside state and the log matter. -/
theorem backing_congr (ho : w'.outside = w.outside) (hl : w'.log = w.log) :
    backing h token vault w' = backing h token vault w := by
  rw [backing, backing, loss, loss, ho, hl]

/-- What the vault does to the assets is in the losses: a call of it does not lower
the backing. -/
theorem VaultMove.backing_le (hm : VaultMove w w') :
    backing h token vault w ≤ backing h token vault w' := by
  rcases hm with rfl | ⟨o, rfl⟩
  · exact le_refl _
  · rw [backing, backing, loss_moved, World.moved_outside]
    have := le_max_right 0 (assetsAt h token vault w.outside - assetsAt h token vault o)
    simp only [lossOf]
    omega

/-- Nor does what happens outside: a drop of the quote between two calls is a loss
like any other. -/
theorem outside_backing_le (o : L × X) :
    backing h token vault w ≤ backing h token vault (w.moved .outside o) := by
  rw [backing, backing, loss_moved, World.moved_outside]
  have := le_max_right 0 (assetsAt h token vault w.outside - assetsAt h token vault o)
  simp only [lossOf]
  omega

/-- A transfer moves the assets by what it moves the idle balance, and by
no more than the quote drop it causes. -/
theorem Transferred.backing_le {t : Transfer A} (ht : Transferred h t w w')
    (token vault : A) :
    backing h token vault w + t.delta token h.this ≤ backing h token vault w' := by
  have hidle := ht.idle_eq token
  obtain ⟨l, -, rfl⟩ := ht
  have := le_max_right 0
    (positionAt h vault w.outside - positionAt h vault (l, w.others))
  rw [backing, backing, loss_moved, World.moved_outside]
  simp only [lossOf, assetsAt, World.outside, World.moved] at *
  omega

theorem delta_deposit {sender : A} (hne : sender ≠ h.this) (a : I128) :
    (⟨token, sender, h.this, a⟩ : Transfer A).delta token h.this = a.val := by
  simp [Transfer.delta, hne.symm]

/-- A payout takes at most its amount from the idle balance; one to the pool itself
takes nothing. -/
theorem delta_payout_ge (h : Host A L X) (token dst : A) {a : I128} (ha : 0 ≤ a.val) :
    -a.val ≤ (⟨token, h.this, dst, a⟩ : Transfer A).delta token h.this :=
  Token.delta_ge_neg_amount ha

/-! ## Yield never touches the liabilities -/

/-- Paying `dst` from the pool does not change what the vault answers. -/
def PayoutQuiet (h : Host A L X) (token vault dst : A) : Prop :=
  ∀ a l l' x, h.token.transfer ⟨token, h.this, dst, a⟩ l = some l' →
    h.vault.balance vault h.this (l', x) = h.vault.balance vault h.this (l, x) ∧
    ∀ shares, h.vault.getAssetAmountsPerShares vault shares (l', x)
      = h.vault.getAssetAmountsPerShares vault shares (l, x)

theorem PositionValue.of_quiet {dst : A} (hquiet : PayoutQuiet h token vault dst)
    {a : I128} {w₁ : World A L X} (ht : Transferred h ⟨token, h.this, dst, a⟩ w₁ w')
    {v : I128} (hv : PositionValue h vault w₁.outside v) :
    PositionValue h vault w'.outside v := by
  obtain ⟨l, hl, rfl⟩ := ht
  obtain ⟨hbal, hquote⟩ := hquiet a w₁.ledger l w₁.others hl
  obtain ⟨shares, hshares, hcases⟩ := hv
  refine ⟨shares, hbal.trans hshares, ?_⟩
  rcases hcases with hzero | ⟨hlt, amounts, hamounts, hval⟩
  · exact Or.inl hzero
  · exact Or.inr ⟨hlt, amounts, (hquote shares).trans hamounts, hval⟩

/-- A positive payout leaves the liabilities covered. -/
theorem YieldPaid.covered {c : Config A} {dst : A} {pay : I128}
    (hy : YieldPaid h dst w pay w') (hc : Configured c w.storage) (hpay : 0 < pay.val)
    (hne : dst ≠ h.this) (hquiet : PayoutQuiet h c.token c.vault dst) :
    ∃ v, vaultPositionValue h w' = (.ok v, w') ∧
      w'.storage.liabilities.val ≤ idle h c.token w'.ledger + v.val := by
  have hstore := hy.storage
  cases hy with
  | none hle => exact absurd hpay (not_lt.mpr hle)
  | @paid token vault _ position w₁ _ _ hmove htoken hvault hpos hsurplus ht =>
      obtain rfl : token = c.token := Option.some.inj (htoken.symm.trans hc.token)
      obtain rfl : vault = c.vault := Option.some.inj (hvault.symm.trans hc.vault)
      have hidle := ht.idle_eq c.token
      have hdelta : (⟨c.token, h.this, dst, pay⟩ : Transfer A).delta c.token h.this
          = -pay.val := by
        simp [Transfer.delta, hne.symm]
      refine ⟨position, ?_, ?_⟩
      · refine vaultPositionValue_eq_ok.mpr ⟨⟨c.vault, ?_, hpos.of_quiet hquiet ht⟩, rfl⟩
        rw [hstore]
        exact hvault
      · rw [hstore]
        omega

/-- In every run, a collection of yield that pays something leaves the
liabilities as they were and covered by the idle balance and the vault's
quote. -/
theorem collectYield_leaves_liabilities_covered (h : Host A L X) (c : Config A)
    (w₀ : World A L X) (hc : Constructed h c w₀) (pre : List (Step A L X))
    (auth : List A) (dst : A) (pay : I128) (w' : World A L X)
    (hok : collectYield h auth dst (runs h w₀ pre) = (.ok pay, w'))
    (hpay : 0 < pay.val) (hne : dst ≠ h.this)
    (hquiet : PayoutQuiet h c.token c.vault dst) :
    runs h w₀ (pre ++ [.call auth (.collectYield dst)]) = w' ∧
      w'.storage.totalLiabilities = (runs h w₀ pre).storage.totalLiabilities ∧
      ∃ v, vaultPositionValue h w' = (.ok v, w') ∧
        w'.storage.liabilities.val ≤ idle h c.token w'.ledger + v.val := by
  have hbody : callBody h auth (.collectYield dst) (runs h w₀ pre) = (.ok (), w') := by
    rw [callBody, bind_of_ok hok]
    rfl
  have hy := collectYield_ok hok
  refine ⟨?_, ?_, hy.covered (hc.configured pre) hpay hne hquiet⟩
  · rw [runs_snoc, exec, revert_of_ok hbody]
  · rw [hy.storage]

theorem tableHost_payoutQuiet (token vault dst : Nat) :
    PayoutQuiet tableHost token vault dst :=
  fun _ _ _ _ _ => ⟨rfl, fun _ => rfl⟩

/-- The deposit of the small instance leaves `20` idle and `630` at the vault
against liabilities of `150`. The admin collects the `500` between, most of
which the vault has to pay. -/
theorem collectYield_leaves_liabilities_covered_table :
    (runs tableHost tableWorld [tableDeposit]).storage.liabilities.val = 150 ∧
      idle tableHost 1 (runs tableHost tableWorld [tableDeposit]).ledger = 20 ∧
      ∃ w', collectYield tableHost [6] 7 (runs tableHost tableWorld [tableDeposit])
          = (.ok ⟨500, by norm_num, by norm_num⟩, w') ∧
        ∃ v, vaultPositionValue tableHost w' = (.ok v, w') ∧
          w'.storage.liabilities.val ≤ idle tableHost 1 w'.ledger + v.val := by
  have hpaid : (collectYield tableHost [6] 7 (runs tableHost tableWorld [tableDeposit])).1
      = .ok ⟨500, by norm_num, by norm_num⟩ := by decide +kernel
  rcases hrun : collectYield tableHost [6] 7 (runs tableHost tableWorld [tableDeposit])
    with ⟨r, w'⟩
  rw [hrun] at hpaid
  obtain rfl : r = .ok ⟨500, by norm_num, by norm_num⟩ := hpaid
  refine ⟨by decide +kernel, by decide +kernel, w', rfl, ?_⟩
  exact (collectYield_leaves_liabilities_covered tableHost tableConfig tableWorld
    tableWorld_constructed [tableDeposit] [6] 7 _ w' hrun (by decide) (by decide)
    (tableHost_payoutQuiet 1 3 7)).2.2

/-! ## Solvency along runs -/

/-- The configured contracts are stored, and assets plus losses cover the
liabilities and `k` more. -/
structure Backed (h : Host A L X) (token vault : A) (k : Int) (w : World A L X) :
    Prop where
  token_eq : w.storage.token = some token
  vault_eq : w.storage.vault = some vault
  covered : w.storage.liabilities.val + k ≤ backing h token vault w

/-- What a transaction has taken in before it raises the liabilities. -/
def pending (extData : ExtData A) : Int := max extData.extAmount.val 0

/-- The vault moves within the losses, and writes nothing of the storage. -/
theorem Backed.vaultMove {k : Int} (hb : Backed h token vault k w)
    (hm : VaultMove w w') : Backed h token vault k w' where
  token_eq := by rw [hm.storage]; exact hb.token_eq
  vault_eq := by rw [hm.storage]; exact hb.vault_eq
  covered := by
    rw [hm.storage]
    exact hb.covered.trans hm.backing_le

/-- The tokens come in before they are booked: until then they are a margin of the
backing over the liabilities. -/
theorem Backed.deposit {extData : ExtData A} {sender : A} (hne : sender ≠ h.this)
    (hb : Backed h token vault 0 w) (hd : DepositTaken h extData sender w w') :
    Backed h token vault (pending extData) w' := by
  cases hd with
  | none hext =>
      rw [pending, max_eq_right hext]
      exact hb
  | @taken token' a _ hext htoken ha ht =>
      obtain rfl : token' = token := Option.some.inj (htoken.symm.trans hb.token_eq)
      have hcov := hb.covered
      have hle := ht.backing_le token' vault
      rw [delta_deposit hne, ha] at hle
      refine ⟨?_, ?_, ?_⟩
      · rw [ht.storage]
        exact hb.token_eq
      · rw [ht.storage]
        exact hb.vault_eq
      · rw [ht.storage, pending, max_eq_left hext.le]
        omega

/-- The liabilities drop by what is paid. Where the counter is clamped at zero, the
backing covers it because it is no negative number. -/
theorem Backed.withdraw {extData : ExtData A} (hq : QuotesNonneg h)
    (hb : Backed h token vault (pending extData) w) (hp : WithdrawalPaid h extData w w') :
    Backed h token vault (pending extData) w' := by
  cases hp with
  | none hext => exact hb
  | @paid token' a next w₁ w₂ hext htoken ha hmove hidle ht hnext =>
      obtain rfl : token' = token := Option.some.inj (htoken.symm.trans hb.token_eq)
      have hb₁ := hb.vaultMove hmove
      have hcov := hb₁.covered
      rw [hmove.storage] at hcov
      have hle := ht.backing_le token' vault
      have hdelta := delta_payout_ge h token' extData.recipient ht.amount_nonneg
      have hback : backing h token' vault (w₂.store fun s => s.setLiabilities next)
          = backing h token' vault w₂ := backing_congr rfl rfl
      have hnonneg : 0 ≤ backing h token' vault w₂ := backing_nonneg hq w₂
      refine ⟨?_, ?_, ?_⟩
      · show w₂.storage.token = some token'
        rw [ht.storage]
        exact hb₁.token_eq
      · show w₂.storage.vault = some vault
        rw [ht.storage]
        exact hb₁.vault_eq
      · rw [hback, World.store_storage, Storage.setLiabilities_liabilities, hnext]
        rw [pending, max_eq_right hext.le] at hcov ⊢
        -- either the counter drops by the amount paid, or it is clamped at zero
        rcases max_cases (w.storage.liabilities.val - a.val) 0 with ⟨hmax, -⟩ | ⟨hmax, -⟩
        · rw [hmax]
          dsimp only at hdelta
          omega
        · rw [hmax]
          omega

/-- Booking the deposit uses up the margin; the invest step after it moves tokens to
the vault under the eyes of the losses. -/
theorem Backed.settle {extData : ExtData A} (hb : Backed h token vault (pending extData) w)
    (hs : DepositSettled h extData w w') : Backed h token vault 0 w' := by
  cases hs with
  | none hext =>
      rw [pending, max_eq_right hext] at hb
      exact hb
  | @settled a next _ hext ha hnext hmove =>
      have hcov := hb.covered
      rw [pending, max_eq_left hext.le] at hcov
      have hback : backing h token vault (w.store fun s => s.setLiabilities next)
          = backing h token vault w := backing_congr rfl rfl
      have hstored : Backed h token vault 0 (w.store fun s => s.setLiabilities next) := by
        refine ⟨hb.token_eq, hb.vault_eq, ?_⟩
        rw [hback, World.store_storage, Storage.setLiabilities_liabilities, hnext]
        omega
      exact hstored.vaultMove hmove

/-- The four parts of a transaction, one after the other. Marking nullifiers and
inserting commitments touch neither side. -/
theorem Backed.transact {auth : List A} {proof : Proof} {extData : ExtData A}
    {sender : A} {w₁ w₂ w₃ : World A L X} (hq : QuotesNonneg h)
    (hb : Backed h token vault 0 w)
    (ht : Transacted h auth proof extData sender w w₁ w₂ w₃ w') :
    Backed h token vault 0 w' := by
  have hb₁ := hb.deposit ht.sender_ne ht.taken
  have hspent : Backed h token vault (pending extData)
      (w₁.spend proof.inputNullifiers) := ⟨hb₁.token_eq, hb₁.vault_eq, hb₁.covered⟩
  have hb₂ := hspent.withdraw hq ht.paid
  obtain ⟨index, t, es, -, hw₃⟩ := ht.inserted
  have hb₃ : Backed h token vault (pending extData) w₃ := by
    subst hw₃
    exact ⟨hb₂.token_eq, hb₂.vault_eq, hb₂.covered⟩
  exact hb₃.settle ht.settled

/-- The surplus was computed on the assets after the divest, so paying it leaves the
liabilities covered. -/
theorem Backed.yield {dst : A} {pay : I128} (hb : Backed h token vault 0 w)
    (hy : YieldPaid h dst w pay w') : Backed h token vault 0 w' := by
  cases hy with
  | none _ hmove => exact hb.vaultMove hmove
  | @paid token' vault' _ position w₁ _ hpay hmove htoken hvault hpos hsurplus ht =>
      obtain rfl : token' = token := Option.some.inj (htoken.symm.trans hb.token_eq)
      obtain rfl : vault' = vault := Option.some.inj (hvault.symm.trans hb.vault_eq)
      have hb₁ := hb.vaultMove hmove
      have hle := ht.backing_le token' vault'
      have hdelta := delta_payout_ge h token' dst ht.amount_nonneg
      have hassets : backing h token' vault' w₁
          = idle h token' w₁.ledger + position.val + loss h token' vault' w₁ := by
        rw [backing, assetsAt, positionAt_of_value hpos]
        rfl
      have hloss : 0 ≤ loss h token' vault' w₁ := loss_nonneg w₁
      refine ⟨?_, ?_, ?_⟩
      · rw [ht.storage]
        exact hb₁.token_eq
      · rw [ht.storage]
        exact hb₁.vault_eq
      · rw [ht.storage, hmove.storage]
        dsimp only at hdelta
        omega

/-- Every step of a run keeps the liabilities backed. -/
theorem Backed.exec (hq : QuotesNonneg h) (hb : Backed h token vault 0 w)
    (s : Step A L X) : Backed h token vault 0 (exec h w s) := by
  have hcases := step_cases (h := h) w s
  generalize Pool.exec h w s = w' at hcases ⊢
  generalize acceptedBy h w s = txs at hcases
  cases hcases with
  | nothing => exact hb
  | transact ht => exact hb.transact hq ht
  | collectYield hy => exact hb.yield hy
  | administer ha =>
      refine ⟨ha.token.trans hb.token_eq, ha.vault.trans hb.vault_eq, ?_⟩
      rw [backing_congr ha.outside ha.log, Storage.liabilities, ha.totalLiabilities]
      exact hb.covered
  | outside => exact ⟨hb.token_eq, hb.vault_eq, hb.covered.trans (outside_backing_le _)⟩

theorem Constructed.backed {c : Config A} (hq : QuotesNonneg h)
    (hc : Constructed h c w) : Backed h c.token c.vault 0 w := by
  obtain ⟨htoken, hvault, -, -, hliab, -⟩ := constructed_ok hc
  refine ⟨htoken, hvault, ?_⟩
  have hnonneg : 0 ≤ backing h c.token c.vault w := backing_nonneg hq w
  rw [Storage.liabilities, hliab]
  simpa using hnonneg

/-- In every state of every run, idle balance and vault position cover the
liabilities up to what was lost through the vault; with a vault that never
loses value they cover them.

The invariant `Backed` without a margin, from the constructor on. A vault that
never loses value has no losses to add. -/
theorem solvent_up_to_losses (h : Host A L X) (hq : QuotesNonneg h) (c : Config A)
    (w₀ : World A L X) (hc : Constructed h c w₀) (steps : List (Step A L X)) :
    let w := runs h w₀ steps
    w.storage.liabilities.val - loss h c.token c.vault w
        ≤ idle h c.token w.ledger + positionAt h c.vault w.outside ∧
      (∀ v w', vaultPositionValue h w = (.ok v, w') →
        positionAt h c.vault w.outside = v.val) ∧
      ((∀ i ∈ w.log, lossOf h c.token c.vault i = 0) →
        w.storage.liabilities.val
          ≤ idle h c.token w.ledger + positionAt h c.vault w.outside) := by
  intro w
  have hb : Backed h c.token c.vault 0 w :=
    Run.invariant (hc.backed hq) fun w s hb => hb.exec hq s
  have hcov : w.storage.liabilities.val - loss h c.token c.vault w
      ≤ idle h c.token w.ledger + positionAt h c.vault w.outside := by
    have := hb.covered
    rw [backing, assetsAt] at this
    show _ ≤ idle h c.token w.outside.1 + _
    omega
  refine ⟨hcov, fun v w' hv => ?_, fun hzero => ?_⟩
  · obtain ⟨⟨vault, hvault, hpos⟩, -⟩ := vaultPositionValue_eq_ok.mp hv
    obtain rfl : vault = c.vault := Option.some.inj (hvault.symm.trans hb.vault_eq)
    exact positionAt_of_value hpos
  · have hloss : loss h c.token c.vault w = 0 := by
      refine List.sum_eq_zero fun x hx => ?_
      obtain ⟨i, hi, rfl⟩ := List.mem_map.mp hx
      exact hzero i hi
    omega

/-- A vault whose shares can lose value: its outside state is the number of
shares the pool holds and what a hundred of them are worth. -/
def pricedVault (token : Nat) : Vault Nat (Nat → Nat → Nat) (Nat × Nat) where
  balance _ _ o := .value (Token.tableBalance o.2.1)
  getAssetAmountsPerShares _ shares o :=
    .value [Token.tableBalance (shares.val.toNat * o.2.2 / 100)]
  deposit vault amountsDesired _ source _ o :=
    match amountsDesired with
    | amount :: _ =>
        .value ((o.2.1 + amount.val.toNat * 100 / o.2.2, o.2.2),
          [⟨token, source, vault, amount⟩], ())
    | [] => .error
  withdraw vault shares _ source o :=
    let paid := Token.tableBalance (shares.val.toNat * o.2.2 / 100)
    .value ((o.2.1 - shares.val.toNat, o.2.2), [⟨token, vault, source, paid⟩], some [paid])

/-- The small instance over that vault. -/
def pricedHost : Host Nat (Nat → Nat → Nat) (Nat × Nat) where
  this := 0
  token := Token.table Nat
  vault := pricedVault 1
  verify _ _ inputs _ := .value (decide (nullifierInputs inputs).Nodup)
  aspGetRoot _ _ := .value 0
  poseidon2Compress a b := some ⟨(a.val + 2 * b.val + 1) % 2 ^ 64, compressed_fits a b⟩
  getZeroes := List.replicate 33 ⟨1, one_fits⟩
  keccakXdr _ := 0

theorem pricedHost_quotesNonneg : QuotesNonneg pricedHost := by
  intro vault shares o amounts hpos hquote a ha
  obtain rfl : [Token.tableBalance (shares.val.toNat * o.2.2 / 100)] = amounts :=
    Outcome.value.inj hquote
  rw [List.mem_singleton.mp ha]
  exact Token.tableBalance_nonneg _

def pricedWorld : World Nat (Nat → Nat → Nat) (Nat × Nat) :=
  (constructor pricedHost tableConfig (.deploy (fun _ _ => 500) (0, 100))).2

/-- A deposit that is invested at par, a fall of the price to a fifth, and a
withdrawal that has to sell shares at that price. -/
def pricedSteps : List (Step Nat (Nat → Nat → Nat) (Nat × Nat)) :=
  [.call [7] (.transact tableProof tableExt 7),
    .outside (fun _ account => if account = 0 then 20 else 500) (630, 20),
    .call [7] (.transact tableWithdrawalProof tableWithdrawalExt 7)]

/-- Liabilities of `50` remain against assets of `46`; the fall of the price
had cost `504`. -/
theorem solvent_up_to_losses_table :
    let w := runs pricedHost pricedWorld pricedSteps
    w.storage.liabilities.val = 50 ∧
      idle pricedHost 1 w.ledger + positionAt pricedHost 3 w.outside = 46 ∧
      loss pricedHost 1 3 w = 504 ∧
      w.storage.liabilities.val - loss pricedHost 1 3 w
        ≤ idle pricedHost 1 w.ledger + positionAt pricedHost 3 w.outside := by
  refine ⟨by decide +kernel, by decide +kernel, by decide +kernel, ?_⟩
  exact (solvent_up_to_losses pricedHost pricedHost_quotesNonneg tableConfig pricedWorld
    ⟨fun _ _ => 500, (0, 100), Prod.ext (by rfl) rfl⟩ pricedSteps).1

end Pool

end PrivacyWallet
