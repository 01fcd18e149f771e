import PrivacyWallet.Pool.ShareVault

/-!
# Collecting the yield of a share vault

The surplus is valued twice, before and after the divest that makes it idle,
and paid by the second valuation. With a share vault the two are nearly the
same: burning shares changes the pool's assets by less than one unit
(`Position.burn_total_le`, `Position.le_burn_total`), so the second
valuation is the first one or one less, the payout takes all of it, and
nothing is left to collect.

The call is followed from its end to its start:

- **a valuation** (`getSurplus_run`, `getSurplus_val`): the surplus in the
  pool's own numbers, from the worth of its shares (`positionValue_iff`);
- **the divest** (`ensureIdle_surplus`): it leaves enough idle for the first
  valuation, and assets that are lower by at most one;
- **the payout** (`paySurplus_run`): a surplus that is idle is paid in full,
  to a recipient that receives it (`Receives`);
- **the call** (`collectYield_run`): the three in a row, which leaves no
  surplus, so that the next call pays nothing.

The recipient matters: a payout to the pool or to the vault comes back as
surplus (`collectYield_leaves_surplus_in_pool_and_vault`).
-/

namespace PrivacyWallet

namespace Pool

open InvokeM Shares

variable {A L X : Type} [DecidableEq A] {h : Host A L X} {w w' : World A L X}
  {auth : List A} {token vault admin dst : A} {buffer : I128} {p : Position}

namespace ShareVault

variable (sv : ShareVault h token vault)

/-- The position is valued at what its shares are worth. -/
theorem positionValue_iff (hp : sv.account w.outside p) {v : I128} :
    PositionValue h vault w.outside v ↔ v.val = p.worth p.shares := by
  obtain ⟨b, hb, hbalance⟩ := sv.balance_eq hp
  have hnat : b.val.toNat = p.shares := by omega
  constructor
  · rintro ⟨shares, hshares, hv⟩
    rw [hbalance, Outcome.value.injEq] at hshares
    subst hshares
    rcases hv with ⟨hle, rfl⟩ | ⟨hlt, amounts, hamounts, rfl⟩
    · have hzero : p.shares = 0 := by omega
      rw [hzero, Position.worth_zero]
      rfl
    · -- the worth of the shares is in range, as the assets are
      have hworth := Position.worth_le_assets p.shares_le
      have hassets := sv.assets_lt hp
      let a : I128 := ⟨p.worth p.shares, by norm_num, by norm_num; omega⟩
      have hquote := sv.quote_eq hp b a hlt.le (by rw [hnat])
      rw [hquote, Outcome.value.injEq] at hamounts
      subst hamounts
      rfl
  · intro hv
    refine ⟨b, hbalance, ?_⟩
    rcases Nat.eq_zero_or_pos p.shares with hzero | hpos
    · left
      rw [hzero, Position.worth_zero] at hv
      exact ⟨by omega, Signed.ext_val hv⟩
    · right
      refine ⟨by omega, [v], sv.quote_eq hp b v (by omega) (by rw [hnat, hv]), rfl⟩

/-- The surplus, where it is in range. -/
theorem getSurplus_run (hp : sv.account w.outside p)
    (he : Equipped w.storage token vault buffer) (hliab : 0 ≤ w.storage.liabilities.val)
    (hrange : idle h token w.ledger + p.worth p.shares < 2 ^ 127) :
    ∃ z : I128, getSurplus h w = (.ok z, w) ∧
      z.val = max (idle h token w.ledger + p.worth p.shares - w.storage.liabilities.val) 0 := by
  have hidle := idle_nonneg h token w.ledger
  have hlhi : w.storage.liabilities.val < 2 ^ 127 := w.storage.liabilities.hi
  let position : I128 := ⟨p.worth p.shares, by norm_num, by norm_num; omega⟩
  let assets : I128 :=
    ⟨idle h token w.ledger + p.worth p.shares, by norm_num; omega, hrange⟩
  let surplus : I128 := ⟨assets.val - w.storage.liabilities.val, by
    norm_num; simp only [assets]; omega, by norm_num; simp only [assets]; omega⟩
  refine ⟨max surplus 0, ?_, by rw [Signed.val_max]; rfl⟩
  refine bind_eq_ok.mpr ⟨token, w, load_eq_ok.mpr ⟨he.token, rfl⟩, ?_⟩
  refine bind_eq_ok.mpr ⟨_, w, tokenBalance_eq_ok.mpr ⟨rfl, rfl⟩, ?_⟩
  refine bind_eq_ok.mpr ⟨position, w, vaultPositionValue_eq_ok.mpr
    ⟨⟨vault, he.vault, (sv.positionValue_iff hp).mpr rfl⟩, rfl⟩, ?_⟩
  refine bind_eq_ok.mpr ⟨assets, w, okOr_eq_ok.mpr
    ⟨Signed.checkedAdd_eq_some.mpr rfl, rfl⟩, ?_⟩
  refine bind_eq_ok.mpr ⟨_, w, getLiabilities_eq_ok.mpr ⟨rfl, rfl⟩, ?_⟩
  exact bind_eq_ok.mpr ⟨surplus, w, orTrap_eq_ok.mpr
    ⟨Signed.checkedSub_eq_some.mpr rfl, rfl⟩, rfl⟩

/-- A surplus that was computed, in the pool's numbers. -/
theorem getSurplus_val (hp : sv.account w.outside p)
    (he : Equipped w.storage token vault buffer) {y : I128}
    (hy : getSurplus h w = (.ok y, w)) :
    idle h token w.ledger + p.worth p.shares < 2 ^ 127 ∧
      y.val = max (idle h token w.ledger + p.worth p.shares - w.storage.liabilities.val) 0 := by
  obtain ⟨-, token', vault', position, htoken, hvault, hpos, hrange, hval⟩ := getSurplus_ok hy
  obtain rfl : token' = token := Option.some.inj (htoken.symm.trans he.token)
  obtain rfl : vault' = vault := Option.some.inj (hvault.symm.trans he.vault)
  rw [(sv.positionValue_iff hp).mp hpos] at hrange hval
  exact ⟨hrange, hval⟩

/-- What `ensure_idle` leaves for the second valuation: enough is idle, and
the pool's assets are what they were, or one less. -/
theorem ensureIdle_surplus (hp : sv.account w.outside p)
    (he : Equipped w.storage token vault buffer) (hbuffer : 0 ≤ buffer.val)
    {required : I128}
    (hquote : idle h token w.ledger < required.val → ∃ perProbe : I128,
      perProbe.val = p.worth shareProbe.val.toNat ∧ 0 < perProbe.val ∧
        (required.val - idle h token w.ledger + buffer.val) * shareProbe.val < 2 ^ 127)
    (hpayable : required.val ≤ idle h token w.ledger + p.worth p.shares) :
    ∃ w' p', ensureIdle h required w = (.ok (), w') ∧ VaultMove w w' ∧
      sv.account w'.outside p' ∧ required.val ≤ idle h token w'.ledger ∧
      idle h token w'.ledger + p'.worth p'.shares
        ≤ idle h token w.ledger + p.worth p.shares ∧
      idle h token w.ledger + p.worth p.shares
        ≤ idle h token w'.ledger + p'.worth p'.shares + 1 := by
  rcases le_or_gt required.val (idle h token w.ledger) with hle | hshort
  · exact ⟨w, p, ensureIdle_of_le he.token hle, Or.inl rfl, hp, hle, le_refl _, by omega⟩
  obtain ⟨perProbe, hprobe, hprice, hrange⟩ := hquote hshort
  have hshares : 0 < p.shares := by
    rw [Nat.pos_iff_ne_zero]
    intro hzero
    rw [hzero, Position.worth_zero] at hpayable
    omega
  obtain ⟨w', k, hk, hok, hmove, hidle, haccount, hcovered, -⟩ :=
    sv.ensureIdle_pays hp he hshares hbuffer hprobe hprice hshort hrange hpayable
  have hlow := Position.burn_total_le hk
  have hhigh := Position.le_burn_total hk
  exact ⟨w', p.burn k, hok, hmove, haccount, hcovered, by omega, by omega⟩

end ShareVault

/-- The token pays `dst` what the pool has. -/
def Receives (sv : ShareVault h token vault) (dst : A) : Prop :=
  ∀ {o p}, sv.account o p → ∀ a : I128, 0 < a.val → a.val ≤ idle h token o.1 →
    ∃ l, h.token.transfer ⟨token, h.this, dst, a⟩ o.1 = some l

/-- The payout of a surplus that is idle. The surplus is computed once more, on
the assets after the divest; as all of it is idle, the minimum of the two is
the surplus, and one transfer pays it. -/
theorem paySurplus_run (sv : ShareVault h token vault) (hp : sv.account w.outside p)
    (he : Equipped w.storage token vault buffer) (hliab : 0 ≤ w.storage.liabilities.val)
    (hrange : idle h token w.ledger + p.worth p.shares < 2 ^ 127)
    (hdst : dst ≠ h.this) (hvault : dst ≠ vault) (hreceives : Receives sv dst)
    (hidle : idle h token w.ledger + p.worth p.shares - w.storage.liabilities.val
      ≤ idle h token w.ledger) :
    ∃ (pay : I128) (w' : World A L X), paySurplus h dst w = (.ok pay, w') ∧
      w'.storage = w.storage ∧ sv.account w'.outside p ∧
      pay.val = max (idle h token w.ledger + p.worth p.shares - w.storage.liabilities.val) 0 ∧
      idle h token w'.ledger = idle h token w.ledger - pay.val := by
  obtain ⟨z, hz, hzval⟩ := sv.getSurplus_run hp he hliab hrange
  have hnn := idle_nonneg h token w.ledger
  have hmin : (min z (h.token.balance token h.this w.ledger)).val = z.val := by
    rw [Signed.val_min]
    simp only [idle] at *
    omega
  have hpay : min z (h.token.balance token h.this w.ledger) = z := Signed.ext_val hmin
  have hrun : ∀ w' : World A L X, when (0 < z) (tokenTransfer h ⟨token, h.this, dst, z⟩) w
      = (.ok (), w') → paySurplus h dst w = (.ok z, w') := by
    intro w' hwhen
    refine bind_eq_ok.mpr ⟨token, w, load_eq_ok.mpr ⟨he.token, rfl⟩, ?_⟩
    refine bind_eq_ok.mpr ⟨z, w, hz, bind_eq_ok.mpr ⟨_, w, tokenBalance_eq_ok.mpr ⟨rfl, rfl⟩, ?_⟩⟩
    rw [hpay]
    exact bind_eq_ok.mpr ⟨(), w', hwhen, rfl⟩
  by_cases hpos : 0 < z
  · obtain ⟨l, hl⟩ := hreceives hp z hpos (by
      show z.val ≤ idle h token w.ledger
      omega)
    have hbal := h.token.balance_transfer hl token h.this
    rw [Transfer.delta, if_pos rfl, if_neg hdst.symm, if_pos rfl] at hbal
    refine ⟨z, w.moved (.transfer ⟨token, h.this, dst, z⟩) (l, w.others), hrun _ ?_, rfl,
      sv.payout_keeps hp hvault hl, hzval, ?_⟩
    · rw [when_run_of hpos]
      exact tokenTransfer_eq_ok.mpr ⟨l, hl, rfl⟩
    · show (h.token.balance token h.this l).val = _
      rw [hbal]
      show _ + (0 - z.val) = _
      simp only [idle, World.outside]
      omega
  · have hzero : z.val = 0 := by
      have : ¬0 < z.val := hpos
      omega
    refine ⟨z, w, hrun w (by rw [when_run_of_not hpos]; rfl), rfl, hp, hzval, by omega⟩

/-- A call of `collect_yield` by the admin, at a surplus. -/
theorem collectYield_run {y : I128} (hadmin : w.storage.admin = some admin)
    (hauth : admin ∈ auth) (hne : admin ≠ h.this) (hy : getSurplus h w = (.ok y, w)) :
    collectYield h auth dst w
      = if y ≤ 0 then (.ok 0, w)
        else (ensureIdle h y >>= fun _ => paySurplus h dst) w := by
  have hget : (getAdmin : PoolM A L X A) w = (.ok admin, w) := load_eq_ok.mpr ⟨hadmin, rfl⟩
  have hreq : requireAuth h auth admin w = (.ok (), w) :=
    requireAuth_eq_ok.mpr ⟨⟨hauth, hne⟩, rfl⟩
  rw [collectYield, bind_of_ok hget, bind_of_ok hreq, bind_of_ok hy]
  split
  · rfl
  · rfl

/-- Collecting takes all of the yield of a share vault, up to one unit, and
nothing else: afterwards there is no surplus, and collecting again does
nothing.

Step by step: the surplus that is computed first, the divest for it
(`ensureIdle_surplus`, which may lose up to one unit to rounding), and the
payout (`paySurplus_run`). What is left after the payout is again a surplus, of
zero. -/
theorem collectYield_takes_the_surplus (h : Host A L X) (token vault admin dst : A)
    (auth : List A) (sv : ShareVault h token vault) (w : World A L X) (p : Position)
    (buffer y : I128) (hp : sv.account w.outside p)
    (he : Equipped w.storage token vault buffer) (hadmin : w.storage.admin = some admin)
    (hauth : admin ∈ auth) (hne : admin ≠ h.this) (hbuffer : 0 ≤ buffer.val)
    (hliab : 0 ≤ w.storage.liabilities.val) (hy : getSurplus h w = (.ok y, w))
    (hpos : 0 < y.val)
    (hquote : idle h token w.ledger < y.val → ∃ perProbe : I128,
      perProbe.val = p.worth shareProbe.val.toNat ∧ 0 < perProbe.val ∧
        (y.val - idle h token w.ledger + buffer.val) * shareProbe.val < 2 ^ 127)
    (hdst : dst ≠ h.this) (hvault : dst ≠ vault) (hreceives : Receives sv dst) :
    ∃ (pay : I128) (w' : World A L X), collectYield h auth dst w = (.ok pay, w') ∧
      y.val - 1 ≤ pay.val ∧ pay.val ≤ y.val ∧
      getSurplus h w' = (.ok 0, w') ∧ collectYield h auth dst w' = (.ok 0, w') := by
  obtain ⟨hrange, hyval⟩ := sv.getSurplus_val hp he hy
  obtain ⟨w₁, p₁, hok, hmove, hp₁, hcovered, hle, hge⟩ :=
    sv.ensureIdle_surplus hp he hbuffer hquote (by omega)
  have hstorage := hmove.storage
  have he₁ : Equipped w₁.storage token vault buffer := hstorage ▸ he
  have hliab₁ : w₁.storage.liabilities = w.storage.liabilities := by rw [hstorage]
  obtain ⟨pay, w₂, hpay, hstorage₂, hp₂, hpayval, hidle₂⟩ :=
    paySurplus_run sv hp₁ he₁ (by rw [hliab₁]; exact hliab) (by omega) hdst hvault hreceives
      (by rw [hliab₁]; omega)
  rw [hliab₁] at hpayval
  have he₂ : Equipped w₂.storage token vault buffer := hstorage₂ ▸ he₁
  have hliab₂ : w₂.storage.liabilities = w.storage.liabilities := by rw [hstorage₂, hliab₁]
  -- the surplus after the payout is what the payout left of it
  obtain ⟨z, hz, hzval⟩ := sv.getSurplus_run hp₂ he₂ (by rw [hliab₂]; exact hliab) (by omega)
  rw [hliab₂] at hzval
  have hzero : z = 0 := Signed.ext_val (by
    show z.val = 0
    omega)
  subst hzero
  refine ⟨pay, w₂, ?_, by omega, by omega, hz, ?_⟩
  · have hgt : ¬y ≤ 0 := not_le.mpr hpos
    rw [collectYield_run hadmin hauth hne hy, if_neg hgt, bind_of_ok hok]
    exact hpay
  · rw [collectYield_run (by rw [hstorage₂, hstorage]; exact hadmin) hauth hne hz,
      if_pos (le_refl _)]

/-! ## A collection from the small share vault -/

/-- A deposit of `150` into the pool with a share vault: `650` idle, `150`
owed, and a position worth `250`. -/
def yieldWorld : World Nat (Nat → Nat → Nat) Holding :=
  runs proRataHost proRataWorld [.call [7] (.transact tableProof tableExt 7)]

theorem yieldWorld_account :
    proRata.account yieldWorld.outside (fundAt yieldWorld.outside) where
  position := rfl
  supply_lt := by decide +kernel
  total_lt := by decide +kernel

theorem yieldWorld_equipped :
    Equipped yieldWorld.storage 1 3 ⟨20, by norm_num, by norm_num⟩ where
  token := by decide +kernel
  vault := by decide +kernel
  investThreshold := ⟨⟨100, by norm_num, by norm_num⟩, by decide +kernel⟩
  liquidityBuffer := by decide +kernel

theorem yieldWorld_surplus :
    getSurplus proRataHost yieldWorld = (.ok ⟨750, by norm_num, by norm_num⟩, yieldWorld) := by
  have hval : (getSurplus proRataHost yieldWorld).1
      = .ok ⟨750, by norm_num, by norm_num⟩ := by decide +kernel
  have hrun : getSurplus proRataHost yieldWorld
      = (.ok ⟨750, by norm_num, by norm_num⟩, (getSurplus proRataHost yieldWorld).2) :=
    Prod.ext hval rfl
  exact hrun.trans (congrArg (Prod.mk _) (getSurplus_ok hrun).1.symm)

theorem proRata_receives : Receives proRata 8 := by
  intro o p ha a hpos hle
  have htotal := ha.total_lt
  have hidle : idle proRataHost 1 o.1 = o.1 1 0 := proRata_idle (by omega)
  rw [hidle] at hle
  have hentry := Token.tableMove_entry ⟨1, 0, 8, a⟩ o.1 8
  dsimp only at hentry
  rw [if_pos rfl, if_neg (by decide)] at hentry
  refine ⟨_, Token.table_transfer_eq_some.mpr ⟨⟨hpos.le, hle, ?_, ?_, ?_⟩, rfl⟩⟩
  · show o.1 1 0 < 2 ^ 127
    omega
  · show o.1 1 8 < 2 ^ 127
    omega
  · show Token.tableMove ⟨1, 0, 8, a⟩ o.1 1 8 < 2 ^ 127
    omega

theorem collectYield_takes_the_surplus_table :
    ∃ (pay : I128) (w' : World Nat (Nat → Nat → Nat) Holding),
      collectYield proRataHost [6] 8 yieldWorld = (.ok pay, w') ∧
        749 ≤ pay.val ∧ pay.val ≤ 750 ∧ getSurplus proRataHost w' = (.ok 0, w') ∧
        collectYield proRataHost [6] 8 w' = (.ok 0, w') :=
  collectYield_takes_the_surplus proRataHost 1 3 6 8 [6] proRata yieldWorld
    (fundAt yieldWorld.outside) ⟨20, by norm_num, by norm_num⟩ ⟨750, by norm_num, by norm_num⟩
    yieldWorld_account yieldWorld_equipped (by decide +kernel) (by decide) (by decide)
    (by decide) (by decide +kernel) yieldWorld_surplus (by decide)
    (fun _ => ⟨⟨25000000, by norm_num, by norm_num⟩, by decide +kernel, by decide,
      by decide +kernel⟩)
    (by decide) (by decide) proRata_receives

/-- A payout to the pool itself leaves the surplus where it was, and one to
the vault raises what the pool's remaining shares are worth. -/
theorem collectYield_leaves_surplus_in_pool_and_vault :
    proRata.account yieldWorld.outside (fundAt yieldWorld.outside) ∧
      Equipped yieldWorld.storage 1 3 ⟨20, by norm_num, by norm_num⟩ ∧
      getSurplus proRataHost yieldWorld
        = (.ok ⟨750, by norm_num, by norm_num⟩, yieldWorld) ∧
      (collectYield proRataHost [6] 0 yieldWorld).1 = .ok ⟨750, by norm_num, by norm_num⟩ ∧
      (getSurplus proRataHost (collectYield proRataHost [6] 0 yieldWorld).2).1
        = .ok ⟨750, by norm_num, by norm_num⟩ ∧
      (collectYield proRataHost [6] 3 yieldWorld).1 = .ok ⟨750, by norm_num, by norm_num⟩ ∧
      (getSurplus proRataHost (collectYield proRataHost [6] 3 yieldWorld).2).1
        = .ok ⟨256, by norm_num, by norm_num⟩ :=
  ⟨yieldWorld_account, yieldWorld_equipped, yieldWorld_surplus, by decide +kernel,
    by decide +kernel, by decide +kernel, by decide +kernel⟩

end Pool

end PrivacyWallet
