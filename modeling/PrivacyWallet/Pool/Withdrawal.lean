import PrivacyWallet.Pool.Divest

/-!
# A withdrawal is paid in full or not at all

The one step of a withdrawal that an adversarial vault can shape is the
divest before the payout. However it ends, an accepted withdrawal pays the
recipient the whole amount with one transfer of the pool, and everything
else it writes is settled with it; a withdrawal that is not accepted leaves
no trace.

- **before the payout** (`ensureIdle_refilled`): the ledger is the one from
  before or what the vault's own transfers made of it, and the pool has
  authorized none of those, so accounts that they do not name keep their
  balances (`Refilled.balance_eq`);
- **the payout** (`transact_paidInFull`): one transfer of the whole amount
  from the pool to the recipient, after which the liabilities drop by it, or
  to zero, and the nullifiers and commitments are written;
- **the failure** (`withdrawal_paid_or_reverted`): a call of the contract is
  undone as a whole, so every error leaves the world it started from.
-/

namespace PrivacyWallet

namespace Pool

open InvokeM

variable {A L X : Type} [DecidableEq A] {h : Host A L X} {auth : List A}
  {w w' : World A L X} {u : Unit} {proof : Proof} {extData : ExtData A} {sender : A}
  {token : A}

/-- The ledger `l` is that of `w`, or what the vault's payout `ts` made of it. -/
inductive Refilled (h : Host A L X) (w : World A L X) : List (Transfer A) → L → Prop where
  | enough : Refilled h w [] w.ledger
  | divested {vault : A} {n deficit : I128} {x : X} {ts : List (Transfer A)}
      {answer : List I128} (hvault : w.storage.vault = some vault)
      (hcall : h.vault.withdraw vault n [deficit] h.this w.outside
        = .value (x, ts, some answer)) :
      Refilled h w ts (paidLedger h ts w.ledger)

/-- Whom the vault's payout does not name keeps its balances. -/
theorem Refilled.balance_eq {ts : List (Transfer A)} {l : L} (hr : Refilled h w ts l)
    (c a : A) (hts : ∀ t ∈ ts, t.src ≠ a ∧ t.dst ≠ a) :
    (h.token.balance c a l).val = (h.token.balance c a w.ledger).val := by
  cases hr with
  | enough => rfl
  | divested => exact Token.balance_runTransfers_of_not_named h.this c a hts _ _

/-- A call that found the idle balance short had read its entries. -/
theorem ensureIdle_equipped {required : I128} (htoken : w.storage.token = some token)
    (hshort : idle h token w.ledger < required.val)
    (hok : ensureIdle h required w = (.ok u, w')) :
    ∃ vault buffer, Equipped w.storage token vault buffer := by
  obtain ⟨token', w₁, h1, hok⟩ := bind_eq_ok.mp hok
  obtain ⟨htoken', rfl⟩ := load_eq_ok.mp h1
  obtain rfl : token' = token := Option.some.inj (htoken'.symm.trans htoken)
  obtain ⟨bal, w₂, h2, hok⟩ := bind_eq_ok.mp hok
  obtain ⟨rfl, rfl⟩ := tokenBalance_eq_ok.mp h2
  rcases ite_eq_ok.mp hok with ⟨hle, -⟩ | ⟨-, hok⟩
  · exact absurd hle (not_le.mpr hshort)
  obtain ⟨vault, w₃, h3, hok⟩ := bind_eq_ok.mp hok
  obtain ⟨hvault, rfl⟩ := load_eq_ok.mp h3
  obtain ⟨⟨threshold, buffer⟩, w₄, h4, -⟩ := bind_eq_ok.mp hok
  obtain ⟨threshold', w₅, h5, h4⟩ := bind_eq_ok.mp h4
  obtain ⟨hthreshold, rfl⟩ := load_eq_ok.mp h5
  obtain ⟨buffer', w₆, h6, -⟩ := bind_eq_ok.mp h4
  obtain ⟨hbuffer, rfl⟩ := load_eq_ok.mp h6
  exact ⟨vault, buffer', htoken, hvault, ⟨threshold', hthreshold⟩, hbuffer⟩

theorem ensureIdle_refilled {required : I128} (htoken : w.storage.token = some token)
    (hok : ensureIdle h required w = (.ok u, w')) :
    ∃ ts, Refilled h w ts w'.ledger ∧ w'.storage = w.storage ∧ w'.events = w.events := by
  by_cases hle : required.val ≤ idle h token w.ledger
  · rw [ensureIdle_of_le htoken hle, Prod.mk.injEq] at hok
    obtain ⟨-, rfl⟩ := hok
    exact ⟨[], .enough, rfl, rfl⟩
  have hshort := not_le.mp hle
  obtain ⟨vault, buffer, he⟩ := ensureIdle_equipped htoken hshort hok
  have hcases := ensureIdle_shortfall he hshort
  rw [hok] at hcases
  generalize hr : ((.ok u, w') : Except (Fail Error) Unit × World A L X) = r at hcases
  cases hcases with
  | noBalance => cases hr
  | noShares => cases hr
  | noQuote => cases hr
  | noPrice => cases hr
  | overflow => cases hr
  | @divest shares perProbe deficit numerator n =>
      rcases divest_ends token vault required deficit n w with ⟨w₁, ts, hrun, hpaid⟩ | ⟨w₁, hrun⟩
      · rw [hrun, Prod.mk.injEq] at hr
        obtain ⟨-, rfl⟩ := hr
        obtain ⟨x, answer, hcall, rfl⟩ := hpaid.call
        exact ⟨ts, .divested he.vault hcall, rfl, rfl⟩
      · rw [hrun] at hr
        cases hr

/-- What an accepted withdrawal leaves: the recipient has the whole amount
more than the ledger after the vault's payout had, the liabilities are
lower by the amount or gone, the inputs are spent, the outputs inserted. -/
structure PaidInFull (h : Host A L X) (proof : Proof) (extData : ExtData A)
    (w w' : World A L X) : Prop where
  credited : ∃ token ts l, w.storage.token = some token ∧ Refilled h w ts l ∧
    (h.token.balance token extData.recipient w'.ledger).val
      = (h.token.balance token extData.recipient l).val - extData.extAmount.val ∧
    ((∀ t ∈ ts, t.src ≠ extData.recipient ∧ t.dst ≠ extData.recipient) →
      (h.token.balance token extData.recipient w'.ledger).val
        = (h.token.balance token extData.recipient w.ledger).val - extData.extAmount.val)
  liabilities : w'.storage.liabilities.val
    = w.storage.liabilities.val - min (-extData.extAmount.val) w.storage.liabilities.val
  nullifiers : w'.storage.nullifier
    = fun n => w.storage.nullifier n || decide (n ∈ proof.inputNullifiers)
  inserted : ∃ index, Merkle.insertTwoLeaves h.poseidon2Compress proof.outputCommitment0
      proof.outputCommitment1 w.storage.merkle = (.ok index, w'.storage.merkle) ∧
    w'.events = w.events ++ proof.inputNullifiers.map .newNullifier
      ++ announcements proof extData index

/-- The steps of a successful withdrawal, one after the other. Nothing is taken
before and nothing is invested after; freeing idle tokens makes the transfers
of the vault, and then the recipient gets the whole amount in one transfer of
the pool's own. -/
theorem transact_paidInFull (hext : extData.extAmount.val < 0)
    (hrecipient : extData.recipient ≠ h.this)
    (hok : transact h auth proof extData sender w = (.ok u, w')) :
    PaidInFull h proof extData w w' := by
  obtain ⟨-, w₁, w₂, w₃, h1, -, h3, h4, h5⟩ := transact_steps hok
  have hneg : extData.extAmount < 0 := hext
  have hnpos : ¬0 < extData.extAmount := not_lt.mpr hneg.le
  -- nothing is taken before and nothing is invested after
  obtain ⟨_, v₁, h1', h1⟩ := bind_eq_ok.mp h1
  obtain ⟨-, rfl⟩ := load_eq_ok.mp h1'
  rw [when_run_of_not hnpos, pure_eq_ok] at h1
  obtain ⟨-, rfl⟩ := h1
  rw [settleDeposit, when_run_of_not hnpos, pure_eq_ok] at h5
  obtain ⟨-, rfl⟩ := h5
  obtain ⟨index, t, hins, rfl⟩ := insertCommitments_eq_ok.mp h4
  obtain ⟨token, v₂, h6, h3⟩ := bind_eq_ok.mp h3
  obtain ⟨htoken, rfl⟩ := load_eq_ok.mp h6
  rw [when_run_of hneg] at h3
  obtain ⟨abs, v₃, h7, h3⟩ := bind_eq_ok.mp h3
  obtain ⟨habs, rfl⟩ := negI256_eq_ok.mp h7
  obtain ⟨a, v₄, h8, h3⟩ := bind_eq_ok.mp h3
  obtain ⟨⟨-, ha⟩, rfl⟩ := i256ToI128Nonneg_eq_ok.mp h8
  obtain ⟨_, v₅, h9, h3⟩ := bind_eq_ok.mp h3
  obtain ⟨ts, hrefilled, hstorage, hevents⟩ := ensureIdle_refilled htoken h9
  obtain ⟨_, v₆, h10, h3⟩ := bind_eq_ok.mp h3
  obtain ⟨l, hl, rfl⟩ := tokenTransfer_eq_ok.mp h10
  obtain ⟨next, hnext, rfl⟩ := subLiabilities_ok h3
  have hbal := h.token.balance_transfer hl token extData.recipient
  rw [Transfer.delta, if_pos rfl, if_pos rfl, if_neg hrecipient] at hbal
  dsimp only at hbal
  have hrefilled' : Refilled h w ts v₅.ledger := by
    generalize v₅.ledger = l' at hrefilled
    cases hrefilled with
    | enough => exact .enough
    | divested hvault hcall => exact .divested hvault hcall
  refine ⟨⟨token, ts, v₅.ledger, htoken, hrefilled', ?_, fun hts => ?_⟩, ?_, ?_, index, ?_, ?_⟩
  · show (h.token.balance token extData.recipient l).val = _
    omega
  · have hkeep := hrefilled'.balance_eq token extData.recipient hts
    show (h.token.balance token extData.recipient l).val = _
    omega
  · have hliab : v₅.storage.liabilities = w.storage.liabilities := by
      rw [hstorage]
      rfl
    rw [World.moved_storage, hliab] at hnext
    show next.val = _
    omega
  · show v₅.storage.nullifier = _
    rw [hstorage]
    rfl
  · have hmerkle : v₅.storage.merkle = w.storage.merkle := by
      rw [hstorage]
      rfl
    rw [← hmerkle]
    exact hins
  · show v₅.events ++ _ = _
    rw [hevents]
    rfl

/-- A withdrawal is never paid short and a failing one changes nothing,
however the vault behaves.

A failing transaction is reverted as a whole. In a successful one the transfer
to the recipient is one of the steps, and it moved the whole amount or the
transaction would have failed with it (`transact_paidInFull`). -/
theorem withdrawal_paid_or_reverted (h : Host A L X) (auth : List A) (proof : Proof)
    (extData : ExtData A) (sender : A) (w : World A L X)
    (hext : extData.extAmount.val < 0) (hrecipient : extData.recipient ≠ h.this) :
    (∃ w', revert (transact h auth proof extData sender) w = (.ok (), w') ∧
        PaidInFull h proof extData w w') ∨
      ∃ e, revert (transact h auth proof extData sender) w = (.error e, w) := by
  rcases hrun : transact h auth proof extData sender w with ⟨e | u, w'⟩
  · exact Or.inr ⟨e, revert_of_error hrun⟩
  · exact Or.inl ⟨w', revert_of_ok hrun, transact_paidInFull hext hrecipient hrun⟩

/-- The withdrawal of the small instance, whose deposit left `20` idle. -/
theorem withdrawal_paid_table :
    ∃ w', revert (transact tableHost [7] tableWithdrawalProof tableWithdrawalExt 7)
        (runs tableHost tableWorld [tableDeposit]) = (.ok (), w') ∧
      PaidInFull tableHost tableWithdrawalProof tableWithdrawalExt
        (runs tableHost tableWorld [tableDeposit]) w' := by
  refine (withdrawal_paid_or_reverted tableHost [7] tableWithdrawalProof tableWithdrawalExt 7
    (runs tableHost tableWorld [tableDeposit]) (by decide) (by decide)).resolve_right ?_
  rintro ⟨e, hrun⟩
  have hok : (revert (transact tableHost [7] tableWithdrawalProof tableWithdrawalExt 7)
      (runs tableHost tableWorld [tableDeposit])).1 = .ok () := by decide +kernel
  rw [hrun] at hok
  cases hok

end Pool

end PrivacyWallet
