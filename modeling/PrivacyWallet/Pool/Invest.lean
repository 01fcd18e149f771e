import PrivacyWallet.Pool.VaultOutage

/-!
# Investing keeps the buffer

An accepted deposit ends with the invest step: from the threshold on, what
is idle above the liquidity buffer is offered to the vault, under an
authorization for that one transfer. A vault that pulls it leaves the
buffer, and no vault can leave less (`invest_keeps_buffer`).

- **the parameters** (`Constructed.investParams`): the two places that write
  them check them alike, so in every state of a pool the buffer is below the
  threshold and not negative; other steps keep them
  (`exec_investParams`);
- **the transfers** (`balance_runTransfers_pull`): among the vault's transfers
  those that would debit the pool succeed only if they were authorized, each
  authorization once. The vault is not the pool itself, as the host lets no
  contract call itself (`NoReentry`);
- **the step** (`InvestStep`, `investIdle_step`): below the threshold nothing
  is offered; from it on the idle balance drops by the offered amount or by
  nothing, so it stays above the buffer either way;
- **the deposit** (`deposit_invests`): the step starts at the idle balance
  that the deposit raised.
-/

namespace PrivacyWallet

namespace Token

variable {A L : Type} [DecidableEq A] {tok : Token A L} {this : A}

/-- Transfers of others do not use up the caller's authorizations. -/
theorem runTransfers_append {auth : List (Transfer A)} (hauth : ∀ t ∈ auth, t.src = this) :
    ∀ {pre : List (Transfer A)}, (∀ t ∈ pre, t.src ≠ this) →
      ∀ (post : List (Transfer A)) (l : L),
        tok.runTransfers this auth (pre ++ post) l
          = tok.runTransfers this auth post (tok.runTransfers this auth pre l)
  | [], _, _, _ => rfl
  | t :: pre, hpre, post, l => by
      have hsrc : t.src ≠ this := hpre t List.mem_cons_self
      have hrest := fun t ht => hpre t (List.mem_cons_of_mem _ ht)
      have hkept : auth.erase t = auth :=
        List.erase_of_not_mem fun hmem => hsrc (hauth t hmem)
      have hown : ¬(t.src = this ∧ t ∉ auth) := fun hc => hsrc hc.1
      rw [List.cons_append, runTransfers, runTransfers, if_neg hown, if_neg hown, hkept]
      split
      · exact runTransfers_append hauth hrest post _
      · exact runTransfers_append hauth hrest post _

/-- The called contract pulls an authorized transfer, and its other
transfers do not name the caller. -/
theorem balance_runTransfers_pull {pull : Transfer A} (hsrc : pull.src = this)
    (hdst : pull.dst ≠ this) {pre post : List (Transfer A)}
    (hpre : ∀ t ∈ pre, t.src ≠ this ∧ t.dst ≠ this)
    (hpost : ∀ t ∈ post, t.src ≠ this ∧ t.dst ≠ this) {l l' : L}
    (hpull : tok.transfer pull (tok.runTransfers this [pull] pre l) = some l') :
    (tok.balance pull.contract this (tok.runTransfers this [pull] (pre ++ pull :: post) l)).val
      = (tok.balance pull.contract this l).val - pull.amount.val := by
  have hauth : ∀ t ∈ [pull], t.src = this := by simpa using hsrc
  have hmem : ¬(pull.src = this ∧ pull ∉ [pull]) := fun hc => hc.2 List.mem_cons_self
  have hkept := @balance_runTransfers_of_not_named _ _ _ tok this pull.contract this _ hpre
    [pull] l
  have hbal := tok.balance_transfer hpull pull.contract this
  rw [Transfer.delta, if_pos rfl, if_neg hdst.symm, if_pos hsrc.symm] at hbal
  rw [runTransfers_append hauth (fun t ht => (hpre t ht).1), runTransfers, if_neg hmem, hpull]
  dsimp only
  rw [balance_runTransfers_of_not_named this pull.contract this hpost]
  omega

end Token

namespace Pool

open InvokeM

variable {A L X : Type} [DecidableEq A] {h : Host A L X} {auth : List A}
  {w w' : World A L X} {u : Unit} {proof : Proof} {extData : ExtData A} {sender : A}
  {token vault : A} {threshold buffer : I128}

/-! ## The parameters -/

/-- The stored parameters passed the check. -/
def InvestParams (s : Storage A) (threshold buffer : I128) : Prop :=
  s.investThreshold = some threshold ∧ s.liquidityBuffer = some buffer ∧
    0 ≤ buffer.val ∧ buffer.val < threshold.val

theorem not_investParamsInvalid :
    ¬investParamsInvalid threshold buffer ↔ 0 ≤ buffer.val ∧ buffer.val < threshold.val := by
  simp only [investParamsInvalid, Signed.le_def, Signed.lt_def, Signed.val_zero]
  omega

/-- A step keeps the parameters, or writes checked ones: only
`update_invest_params` writes them, after its check. -/
theorem exec_investParams (s : Step A L X)
    (hp : InvestParams w.storage threshold buffer) :
    ∃ threshold' buffer', InvestParams (exec h w s).storage threshold' buffer' := by
  have hkeep : ∀ w' : World A L X, w'.storage.investThreshold = w.storage.investThreshold →
      w'.storage.liquidityBuffer = w.storage.liquidityBuffer →
      ∃ threshold' buffer', InvestParams w'.storage threshold' buffer' :=
    fun w' ht hb => ⟨threshold, buffer, ht.trans hp.1, hb.trans hp.2.1, hp.2.2⟩
  cases s with
  | outside l x =>
      rw [exec]
      split
      · exact hkeep _ rfl rfl
      · exact hkeep _ rfl rfl
  | call auth c =>
      rw [exec]
      rcases hrun : callBody h auth c w with ⟨e | u, w'⟩
      · rw [revert_of_error hrun]
        exact hkeep _ rfl rfl
      rw [revert_of_ok hrun]
      cases c with
      | transact proof extData sender =>
          obtain ⟨w₁, w₂, w₃, ht⟩ := transact_ok hrun
          obtain ⟨index, t, -, hs⟩ := ht.storage
          have hthreshold := congrArg Storage.investThreshold hs
          have hbuffer := congrArg Storage.liquidityBuffer hs
          exact hkeep _ hthreshold hbuffer
      | collectYield dst =>
          obtain ⟨pay, w₁, h1, h2⟩ := bind_eq_ok.mp hrun
          obtain ⟨-, rfl⟩ := pure_eq_ok.mp h2
          have hs := (collectYield_ok h1).storage
          have hthreshold := congrArg Storage.investThreshold hs
          have hbuffer := congrArg Storage.liquidityBuffer hs
          exact hkeep _ hthreshold hbuffer
      | updateInvestParams threshold' buffer' =>
          obtain ⟨hvalid, rfl⟩ := updateInvestParams_ok hrun
          exact ⟨threshold', buffer', rfl, rfl, not_investParamsInvalid.mp hvalid⟩
      | updateAdmin newAdmin =>
          obtain rfl := adminStore_ok hrun
          exact hkeep _ rfl rfl
      | updateAspMembership newAsp =>
          obtain rfl := adminStore_ok hrun
          exact hkeep _ rfl rfl
      | updateAspNonMembership newAsp =>
          obtain rfl := adminStore_ok hrun
          exact hkeep _ rfl rfl

theorem Constructed.investParams {c : Config A} {w₀ : World A L X} (hc : Constructed h c w₀)
    (steps : List (Step A L X)) :
    ∃ threshold buffer, InvestParams (runs h w₀ steps).storage threshold buffer := by
  obtain ⟨-, -, -, -, -, -, -, hthreshold, hbuffer, hvalid, -⟩ := constructed_ok hc
  refine @Run.invariant _ _ (exec h)
    (fun w => ∃ threshold buffer, InvestParams w.storage threshold buffer) w₀ steps ?_ ?_
  · exact ⟨c.investThreshold, c.liquidityBuffer, hthreshold, hbuffer,
      not_investParamsInvalid.mp hvalid⟩
  · rintro w s ⟨threshold, buffer, hp⟩
    exact exec_investParams s hp

/-! ## The invest step -/

/-- The host refuses to let a contract call itself. -/
def NoReentry (h : Host A L X) : Prop :=
  ∀ amountsDesired amountsMin source invest o r,
    h.vault.deposit h.this amountsDesired amountsMin source invest o ≠ .value r

/-- The vault's transfers `ts` pull `pull` once, and name the pool nowhere
else. -/
def Pulls (h : Host A L X) (pull : Transfer A) (ts : List (Transfer A)) (l : L) : Prop :=
  ∃ pre post l', ts = pre ++ pull :: post ∧
    (∀ t ∈ pre, t.src ≠ h.this ∧ t.dst ≠ h.this) ∧
    (∀ t ∈ post, t.src ≠ h.this ∧ t.dst ≠ h.this) ∧
    h.token.transfer pull (h.token.runTransfers h.this [pull] pre l) = some l'

/-- How the invest step goes from `mid` to `w'`. -/
structure InvestStep (h : Host A L X) (token vault : A) (threshold buffer : I128)
    (mid w' : World A L X) : Prop where
  below : idle h token mid.ledger < threshold.val → w' = mid
  floor : min (idle h token mid.ledger) buffer.val ≤ idle h token w'.ledger
  offered : threshold.val ≤ idle h token mid.ledger → ∃ amount : I128,
    amount.val = idle h token mid.ledger - buffer.val ∧ 0 < amount.val ∧
      idle h token mid.ledger - amount.val ≤ idle h token w'.ledger ∧
      ((∀ r, h.vault.deposit vault [amount] [amount] h.this true mid.outside ≠ .value r) →
        w' = mid) ∧
      ∀ x ts, h.vault.deposit vault [amount] [amount] h.this true mid.outside
          = .value (x, ts, ()) →
        Pulls h ⟨token, h.this, vault, amount⟩ ts mid.ledger →
        idle h token w'.ledger = buffer.val

/-- The end of the invest step, at the offered amount. -/
theorem invest_ok {amount : I128} (hok : invest h token vault amount w = (.ok u, w')) :
    (w' = w ∧ ∀ r, h.vault.deposit vault [amount] [amount] h.this true w.outside ≠ .value r) ∨
      ∃ x ts, h.vault.deposit vault [amount] [amount] h.this true w.outside
          = .value (x, ts, ()) ∧
        w' = w.moved .vault (h.token.runTransfers h.this
          (authorizeVaultPull h token vault amount) ts w.ledger, x) := by
  obtain ⟨out, w₁, h1, hok⟩ := bind_eq_ok.mp hok
  obtain ⟨-, rfl⟩ := pure_eq_ok.mp hok
  rw [tryVault, read_bind] at h1
  rcases hcall : h.vault.deposit vault [amount] [amount] h.this true w.outside
    with ⟨x, ts, b⟩ | _ | _ <;> rw [hcall] at h1 <;> dsimp only at h1
  · rw [update_bind, pure_eq_ok] at h1
    exact Or.inr ⟨x, ts, rfl, h1.2.symm⟩
  · exact Or.inl ⟨(pure_eq_ok.mp h1).2.symm, fun r hr => by cases hr⟩
  · exact Or.inl ⟨(pure_eq_ok.mp h1).2.symm, fun r hr => by cases hr⟩

/-- At the loaded parameters: the offer is what is idle above the buffer, and
the vault takes it or leaves it. A failing call of the vault changes nothing,
and one that goes through pulls at most the offer, which was authorized. -/
theorem investIdle_step (hself : NoReentry h) (hlt : buffer.val < threshold.val)
    (hok : investIdle h token vault threshold buffer w = (.ok u, w')) :
    InvestStep h token vault threshold buffer w w' := by
  obtain ⟨bal, w₁, h1, hok⟩ := bind_eq_ok.mp hok
  obtain ⟨rfl, rfl⟩ := tokenBalance_eq_ok.mp h1
  rcases ite_eq_ok.mp hok with ⟨hbelow, hok⟩ | ⟨hreached, hok⟩
  · obtain ⟨-, rfl⟩ := pure_eq_ok.mp hok
    have hbelow : idle h token w.ledger < threshold.val := hbelow
    exact ⟨fun _ => rfl, min_le_left _ _, fun hreached => absurd hbelow (not_lt.mpr hreached)⟩
  have hreached : threshold.val ≤ idle h token w.ledger := not_lt.mp hreached
  obtain ⟨amount, w₂, h2, hok⟩ := bind_eq_ok.mp hok
  obtain ⟨hsub, rfl⟩ := orTrap_eq_ok.mp h2
  have hamount : amount.val = idle h token w.ledger - buffer.val :=
    Signed.checkedSub_eq_some.mp hsub
  have hpos : 0 < amount.val := by omega
  have hgt : ¬amount ≤ 0 := not_le.mpr hpos
  rw [if_neg hgt] at hok
  rcases invest_ok hok with ⟨rfl, hno⟩ | ⟨x, ts, hcall, rfl⟩
  · refine ⟨fun hbelow => absurd hreached (not_le.mpr hbelow), min_le_left _ _, fun _ =>
      ⟨amount, hamount, hpos, by omega, fun _ => rfl, fun x ts hcall => ?_⟩⟩
    exact absurd hcall (hno _)
  -- the authorization bounds what the vault takes
  have htake := @Token.balance_runTransfers A L _ h.token h.this token ts
    (authorizeVaultPull h token vault amount) w.ledger
  have hauth : Token.authorized (authorizeVaultPull h token vault amount) = amount.val := by
    simp [Token.authorized, authorizeVaultPull, hpos.le]
  rw [hauth] at htake
  have htake : idle h token w.ledger - amount.val ≤ idle h token
      (h.token.runTransfers h.this (authorizeVaultPull h token vault amount) ts w.ledger) :=
    htake
  have hleft : buffer.val ≤ idle h token
      (h.token.runTransfers h.this (authorizeVaultPull h token vault amount) ts w.ledger) := by
    omega
  refine ⟨fun hbelow => absurd hreached (not_le.mpr hbelow),
    (min_le_right _ _).trans hleft,
    fun _ => ⟨amount, hamount, hpos, htake, fun hno => absurd hcall (hno _), ?_⟩⟩
  intro x' ts' hcall' hpulls
  rw [hcall, Outcome.value.injEq, Prod.mk.injEq, Prod.mk.injEq] at hcall'
  obtain ⟨rfl, rfl, -⟩ := hcall'
  obtain ⟨pre, post, l', rfl, hpre, hpost, hpull⟩ := hpulls
  have hvault : vault ≠ h.this := fun heq => hself _ _ _ _ _ _ (heq ▸ hcall)
  have hbal : idle h token (h.token.runTransfers h.this
      (authorizeVaultPull h token vault amount)
        (pre ++ ⟨token, h.this, vault, amount⟩ :: post) w.ledger)
      = idle h token w.ledger - amount.val :=
    Token.balance_runTransfers_pull rfl hvault hpre hpost hpull
  exact hbal.trans (by omega)

/-- The four entries are stored in every state of a pool, so the step is not skipped. -/
theorem maybeInvest_step (hself : NoReentry h) (hlt : buffer.val < threshold.val)
    (hsetup : w.storage.investSetup = some (token, vault, threshold, buffer))
    (hok : maybeInvest h w = (.ok u, w')) :
    InvestStep h token vault threshold buffer w w' := by
  rw [maybeInvest, read_bind, hsetup] at hok
  exact investIdle_step hself hlt hok

/-- An accepted deposit ends with the invest step, at the idle balance that
it raised. -/
theorem deposit_invests (hself : NoReentry h) (htoken : w.storage.token = some token)
    (hvault : w.storage.vault = some vault) (hp : InvestParams w.storage threshold buffer)
    (hext : 0 < extData.extAmount.val)
    (hok : transact h auth proof extData sender w = (.ok u, w')) :
    ∃ mid, idle h token mid.ledger = idle h token w.ledger + extData.extAmount.val ∧
      InvestStep h token vault threshold buffer mid w' := by
  obtain ⟨⟨-, hne⟩, w₁, w₂, w₃, h1, -, h3, h4, h5⟩ := transact_steps hok
  have hpos : 0 < extData.extAmount := hext
  have htaken := takeDeposit_ok h1
  have hidle : idle h token w₁.ledger = idle h token w.ledger + extData.extAmount.val := by
    cases htaken with
    | none hle => exact absurd hext (not_lt.mpr hle)
    | @taken token' a _ _ htoken' ha ht =>
        obtain rfl : token' = token := Option.some.inj (htoken'.symm.trans htoken)
        rw [ht.idle_eq token', Transfer.delta, if_pos rfl, if_pos rfl, if_neg hne.symm]
        dsimp only
        omega
  have hpaid := payWithdrawal_ok h3
  cases hpaid with
  | paid hlt => omega
  | none =>
      obtain ⟨index, t, -, rfl⟩ := insertCommitments_eq_ok.mp h4
      rw [settleDeposit, when_run_of hpos] at h5
      obtain ⟨a, v₁, h6, h5⟩ := bind_eq_ok.mp h5
      obtain ⟨-, rfl⟩ := i256ToI128Nonneg_eq_ok.mp h6
      obtain ⟨_, v₂, h7, h5⟩ := bind_eq_ok.mp h5
      obtain ⟨next, -, rfl⟩ := addLiabilities_eq_ok.mp h7
      have hsetup : w₁.storage.investSetup = some (token, vault, threshold, buffer) := by
        rw [htaken.storage]
        simp [Storage.investSetup, htoken, hvault, hp.1, hp.2.1]
      refine ⟨_, ?_, maybeInvest_step hself hp.2.2.2 ?_ h5⟩
      · exact hidle
      · exact hsetup

/-- Invest batching keeps the buffer: in every state of a pool the buffer is
below the threshold, and an accepted deposit invests only from the threshold
on, offers what is above the buffer, and leaves the buffer.

The parameters were checked by the constructor and are written by nothing
else, so they hold of every state of the run; an accepted deposit is then looked
at by itself (`deposit_invests`). -/
theorem invest_keeps_buffer (h : Host A L X) (hself : NoReentry h) (c : Config A)
    (w₀ : World A L X) (hc : Constructed h c w₀) (steps : List (Step A L X)) :
    ∃ threshold buffer : I128,
      (runs h w₀ steps).storage.investThreshold = some threshold ∧
      (runs h w₀ steps).storage.liquidityBuffer = some buffer ∧
      0 ≤ buffer.val ∧ buffer.val < threshold.val ∧
      ∀ auth proof extData sender u w', 0 < extData.extAmount.val →
        transact h auth proof extData sender (runs h w₀ steps) = (.ok u, w') →
        ∃ mid, idle h c.token mid.ledger
            = idle h c.token (runs h w₀ steps).ledger + extData.extAmount.val ∧
          InvestStep h c.token c.vault threshold buffer mid w' := by
  obtain ⟨threshold, buffer, hp⟩ := hc.investParams steps
  have hconf := hc.configured steps
  exact ⟨threshold, buffer, hp.1, hp.2.1, hp.2.2.1, hp.2.2.2,
    fun auth proof extData sender u w' hext hok =>
      deposit_invests hself hconf.token hconf.vault hp hext hok⟩

/-- The small instance with a vault that the pool cannot call as itself. -/
def guardedHost : Host Nat (Nat → Nat → Nat) Nat :=
  tableHost.withVault { parVault 1 with
    deposit := fun vault amountsDesired amountsMin source invest o =>
      if vault = 0 then .error
      else (parVault 1).deposit vault amountsDesired amountsMin source invest o }

theorem guardedHost_noReentry : NoReentry guardedHost := by
  intro amountsDesired amountsMin source invest o r hcall
  have hno : guardedHost.vault.deposit guardedHost.this amountsDesired amountsMin source
      invest o = .error := rfl
  rw [hno] at hcall
  cases hcall

/-- The deposit of `150` invests all but the buffer of the `650` then idle. -/
theorem invest_keeps_buffer_table :
    ∃ (buffer : I128) (mid : World Nat (Nat → Nat → Nat) Nat),
      tableWorld.storage.liquidityBuffer = some buffer ∧
        idle guardedHost 1 mid.ledger = 650 ∧
        min (idle guardedHost 1 mid.ledger) buffer.val
          ≤ idle guardedHost 1
            (transact guardedHost [7] tableProof tableExt 7 tableWorld).2.ledger := by
  obtain ⟨threshold, buffer, -, hbuffer, -, -, hdeposit⟩ := invest_keeps_buffer guardedHost
    guardedHost_noReentry tableConfig tableWorld
    ⟨fun _ _ => 500, 0, Prod.ext (by rfl) rfl⟩ []
  have hok : (transact guardedHost [7] tableProof tableExt 7 tableWorld).1 = .ok () := by
    decide +kernel
  obtain ⟨mid, hidle, hstep⟩ := hdeposit [7] tableProof tableExt 7 () _ (by decide)
    (Prod.ext hok rfl)
  have h500 : idle guardedHost 1 tableWorld.ledger = 500 := by decide
  exact ⟨buffer, mid, hbuffer, hidle.trans (by
    show idle guardedHost 1 tableWorld.ledger + 150 = 650
    omega), hstep.floor⟩

end Pool

end PrivacyWallet
