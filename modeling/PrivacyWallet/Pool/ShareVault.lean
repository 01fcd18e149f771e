import PrivacyWallet.Lib.Shares
import PrivacyWallet.Pool.Divest

/-!
# Divesting from a share vault

A vault that keeps pro-rata accounts (`ShareVault`) makes a divest
predictable. `ensure_idle` divides twice: once in the vault's quote for a
probe of shares, rounded down, and once, rounded up, in the number of shares
it asks for. Whichever way the two round, the shares asked for cover the
deficit and the buffer at the vault's own price, so the payout is only ever
short when the pool's shares are.

- **the shares** (`sharesAsked`): between one and all that there are, and all
  of them unless they are worth the desired amount. A quote that is rounded
  down can only make the number larger, and so can the ceiling;
- **the call** (`ensureIdle_divests`): with shares, a price and an amount in
  range the function comes down to one call of the vault, which pays what the
  shares are worth if that is the deficit or more (`divest_pays`), and
  refuses otherwise (`divest_refused`);
- **the two ends** (`ensureIdle_pays`, `ensureIdle_refused`): if the idle
  balance and all the shares reach the amount then so do the shares asked
  for; if they do not, no number of shares does.

`ensureIdle_pays_whenever_it_can` is their conjunction. The last section has
a vault of this kind over the table of balances.
-/

namespace PrivacyWallet

namespace Pool

open InvokeM Shares

variable {A L X : Type} [DecidableEq A] {h : Host A L X} {w w' : World A L X}
  {token vault : A} {required buffer : I128}

/-- The vault at `vault` is a fund in the asset `token`: it values shares pro
rata, burns what is asked, pays what that is worth, and refuses when that is
below the minimum. `account` tells where the pool's position stands. -/
structure ShareVault (h : Host A L X) (token vault : A) where
  account : L × X → Position → Prop
  assets_lt : ∀ {o p}, account o p → p.assets < 2 ^ 127
  balance_eq : ∀ {o p}, account o p →
    ∃ b : I128, b.val = p.shares ∧ h.vault.balance vault h.this o = .value b
  quote_eq : ∀ {o p}, account o p → ∀ k a : I128, 0 ≤ k.val → a.val = p.worth k.val.toNat →
    h.vault.getAssetAmountsPerShares vault k o = .value [a]
  withdraw_pays : ∀ {o p}, account o p → ∀ k m : I128, 0 < k.val → k.val ≤ p.shares →
    m.val ≤ p.worth k.val.toNat →
    ∃ x ts answer, h.vault.withdraw vault k [m] h.this o = .value (x, ts, some answer) ∧
      idle h token (paidLedger h ts o.1) = idle h token o.1 + p.worth k.val.toNat ∧
      account (paidLedger h ts o.1, x) (p.burn k.val.toNat)
  withdraw_refuses : ∀ {o p}, account o p → ∀ k m : I128, 0 < k.val → k.val ≤ p.shares →
    p.worth k.val.toNat < m.val → ∀ r, h.vault.withdraw vault k [m] h.this o ≠ .value r
  payout_keeps : ∀ {o p}, account o p → ∀ {dst : A} {a : I128} {l : L}, dst ≠ vault →
    h.token.transfer ⟨token, h.this, dst, a⟩ o.1 = some l → account (l, o.2) p

/-! ## The number of shares -/

/-- The casts around the ceiling division keep the values. -/
theorem ceil_casts {numerator perProbe : I128} (hnum : 0 < numerator.val)
    (hprice : 0 < perProbe.val) :
    (Signed.ofU128 (divCeil numerator.asU128 perProbe.asU128)).val
      = divCeil numerator.val.toNat perProbe.val.toNat := by
  have hn : numerator.asU128 = numerator.val.toNat := by
    have := Signed.asU128_val hnum.le
    omega
  have hp : perProbe.asU128 = perProbe.val.toNat := by
    have := Signed.asU128_val hprice.le
    omega
  rw [hn, hp]
  have hhi : numerator.val.toNat < 2 ^ 127 := by
    have : numerator.val < 2 ^ 127 := numerator.hi
    omega
  exact Signed.ofU128_val ((divCeil_le_self (by omega)).trans_lt hhi)

/-- The shares that `ensure_idle` asks for, as numbers: between one and all
that there are, and all unless they are worth the desired amount. -/
structure SharesAsked (p : Position) (desired perProbe n : Int) : Prop where
  eq : n = min (p.shares : Int)
    (divCeil (desired * shareProbe.val).toNat perProbe.toNat)
  pos : 0 < n
  le : n ≤ p.shares
  covers : n = p.shares ∨ desired ≤ p.worth n.toNat

theorem sharesAsked {p : Position} {shares perProbe numerator n : I128} {desired : Int}
    (hshares : shares.val = p.shares) (hpos : 0 < p.shares)
    (hprobe : perProbe.val = p.worth shareProbe.val.toNat) (hprice : 0 < perProbe.val)
    (hdesired : 0 < desired) (hnumerator : numerator.val = desired * shareProbe.val)
    (hn : n = min shares (Signed.ofU128 (divCeil numerator.asU128 perProbe.asU128))) :
    SharesAsked p desired perProbe.val n.val := by
  have hprobePos : 0 < shareProbe.val := by rw [shareProbe_val]; norm_num
  have hnum : 0 < numerator.val := hnumerator ▸ Int.mul_pos hdesired hprobePos
  have hval : n.val = min (p.shares : Int)
      (divCeil numerator.val.toNat perProbe.val.toNat) := by
    rw [hn, Signed.val_min, ceil_casts hnum hprice, hshares]
  have hceil : 0 < divCeil numerator.val.toNat perProbe.val.toNat :=
    divCeil_pos (by omega) (by omega)
  refine ⟨by rw [hval, hnumerator], by omega, by omega, ?_⟩
  by_cases hall : n.val = p.shares
  · exact Or.inl hall
  right
  have hn' : n.val.toNat = divCeil numerator.val.toNat perProbe.val.toNat := by omega
  -- rounding up the shares outweighs rounding down the price
  have hcover : desired.toNat ≤ p.worth n.val.toNat := by
    refine @Position.le_worth_of_probe p _ shareProbe.val.toNat _
      (hpos.trans_le p.shares_le) (by omega) ?_
    have hmul : desired.toNat * shareProbe.val.toNat = numerator.val.toNat := by
      rw [hnumerator, Int.toNat_mul hdesired.le hprobePos.le]
    have hworth : p.worth shareProbe.val.toNat = perProbe.val.toNat := by omega
    rw [hmul, hworth, hn']
    exact le_divCeil_mul (by omega)
  omega

/-! ## One divest -/

namespace ShareVault

variable (sv : ShareVault h token vault) {p : Position} {deficit n : I128}

theorem quote (hp : sv.account w.outside p) {perProbe : I128}
    (hprobe : perProbe.val = p.worth shareProbe.val.toNat) :
    h.vault.getAssetAmountsPerShares vault shareProbe w.outside = .value [perProbe] :=
  sv.quote_eq hp shareProbe perProbe (by rw [shareProbe_val]; norm_num) hprobe

/-- A payable number of shares is paid. -/
theorem divest_pays (hp : sv.account w.outside p) (hpos : 0 < n.val) (hle : n.val ≤ p.shares)
    (hdeficit : deficit.val = required.val - idle h token w.ledger)
    (hmin : deficit.val ≤ p.worth n.val.toNat) :
    ∃ w', divest h token vault required deficit n w = (.ok (), w') ∧ VaultMove w w' ∧
      idle h token w'.ledger = idle h token w.ledger + p.worth n.val.toNat ∧
      sv.account w'.outside (p.burn n.val.toNat) := by
  obtain ⟨x, ts, answer, hcall, hpaid, haccount⟩ :=
    sv.withdraw_pays hp n deficit hpos hle hmin
  refine ⟨w.moved .vault (paidLedger h ts w.ledger, x), ?_, Or.inr ⟨_, rfl⟩, hpaid, haccount⟩
  rw [divest_of_value hcall, if_pos]
  have hpaid' : idle h token (paidLedger h ts w.ledger)
      = idle h token w.ledger + p.worth n.val.toNat := hpaid
  omega

/-- Any other is refused. -/
theorem divest_refused (hp : sv.account w.outside p) (hpos : 0 < n.val)
    (hle : n.val ≤ p.shares) (hmin : p.worth n.val.toNat < deficit.val) :
    ∃ w', divest h token vault required deficit n w
      = (.error (.err .vaultDivestFailed), w') :=
  divest_of_not fun _ _ _ => sv.withdraw_refuses hp n deficit hpos hle hmin _

/-- With shares, a price and an amount in range, `ensure_idle` comes down to
one call of the vault: the other exits of `ensureIdle_shortfall` contradict
what the vault's account says. -/
theorem ensureIdle_divests (hp : sv.account w.outside p)
    (he : Equipped w.storage token vault buffer) (hpos : 0 < p.shares)
    (hbuffer : 0 ≤ buffer.val) {perProbe : I128}
    (hprobe : perProbe.val = p.worth shareProbe.val.toNat) (hprice : 0 < perProbe.val)
    (hshort : idle h token w.ledger < required.val)
    (hrange : (required.val - idle h token w.ledger + buffer.val) * shareProbe.val < 2 ^ 127) :
    ∃ deficit n : I128, deficit.val = required.val - idle h token w.ledger ∧
      SharesAsked p (deficit.val + buffer.val) perProbe.val n.val ∧
      ensureIdle h required w = divest h token vault required deficit n w := by
  obtain ⟨b, hb, hbalance⟩ := sv.balance_eq hp
  have hquote := sv.quote hp hprobe
  have hdesired : 0 < required.val - idle h token w.ledger + buffer.val := by omega
  have hcases := ensureIdle_shortfall he hshort
  generalize ensureIdle h required w = r at hcases ⊢
  cases hcases with
  | noBalance hno => exact absurd hbalance (hno b)
  | noShares hbalance' hle =>
      rw [hbalance, Outcome.value.injEq] at hbalance'
      subst hbalance'
      omega
  | noQuote _ _ hno => exact absurd hquote (hno [perProbe])
  | noPrice _ _ hquote' hno =>
      rw [hquote, Outcome.value.injEq] at hquote'
      subst hquote'
      have hle := hno perProbe rfl
      omega
  | overflow _ _ _ _ _ hover =>
      have hscale : 0 < (required.val - idle h token w.ledger + buffer.val) * shareProbe.val :=
        Int.mul_pos hdesired (by rw [shareProbe_val]; norm_num)
      omega
  | @divest shares perProbe' deficit numerator n quote hbalance' _ hquote' hprobe' _
      hdeficit hnumerator hn =>
      rw [hbalance, Outcome.value.injEq] at hbalance'
      rw [hquote, Outcome.value.injEq] at hquote'
      subst hbalance' hquote'
      obtain rfl : perProbe = perProbe' := Option.some.inj hprobe'
      exact ⟨deficit, n, hdeficit, sharesAsked hb hpos hprobe hprice (by omega) hnumerator hn,
        rfl⟩

/-- How a call of `ensure_idle` with a payable amount ends. -/
theorem ensureIdle_pays (hp : sv.account w.outside p)
    (he : Equipped w.storage token vault buffer) (hpos : 0 < p.shares)
    (hbuffer : 0 ≤ buffer.val) {perProbe : I128}
    (hprobe : perProbe.val = p.worth shareProbe.val.toNat) (hprice : 0 < perProbe.val)
    (hshort : idle h token w.ledger < required.val)
    (hrange : (required.val - idle h token w.ledger + buffer.val) * shareProbe.val < 2 ^ 127)
    (hpayable : required.val ≤ idle h token w.ledger + p.worth p.shares) :
    ∃ w' k, k ≤ p.shares ∧ ensureIdle h required w = (.ok (), w') ∧ VaultMove w w' ∧
      idle h token w'.ledger = idle h token w.ledger + p.worth k ∧
      sv.account w'.outside (p.burn k) ∧ required.val ≤ idle h token w'.ledger ∧
      (k = p.shares ∨ required.val + buffer.val ≤ idle h token w'.ledger) := by
  obtain ⟨deficit, n, hdeficit, hasked, hrun⟩ :=
    sv.ensureIdle_divests hp he hpos hbuffer hprobe hprice hshort hrange
  have hn := hasked.pos
  have hle := hasked.le
  have hmin : deficit.val ≤ p.worth n.val.toNat := by
    rcases hasked.covers with hall | hcovers
    · rw [hall, Int.toNat_natCast]
      omega
    · omega
  obtain ⟨w', hok, hmove, hidle, haccount⟩ := sv.divest_pays hp hn hle hdeficit hmin
  refine ⟨w', n.val.toNat, by omega, hrun.trans hok, hmove, hidle, haccount, by omega, ?_⟩
  rcases hasked.covers with hall | hcovers
  · left
    omega
  · right
    omega

/-- An amount beyond the idle balance and all the shares is refused: the
shares asked for are worth no more than all of them. -/
theorem ensureIdle_refused (hp : sv.account w.outside p)
    (he : Equipped w.storage token vault buffer) (hpos : 0 < p.shares)
    (hbuffer : 0 ≤ buffer.val) {perProbe : I128}
    (hprobe : perProbe.val = p.worth shareProbe.val.toNat) (hprice : 0 < perProbe.val)
    (hshort : idle h token w.ledger < required.val)
    (hrange : (required.val - idle h token w.ledger + buffer.val) * shareProbe.val < 2 ^ 127)
    (hbeyond : idle h token w.ledger + p.worth p.shares < required.val) :
    ∃ w', ensureIdle h required w = (.error (.err .vaultDivestFailed), w') := by
  obtain ⟨deficit, n, hdeficit, hasked, hrun⟩ :=
    sv.ensureIdle_divests hp he hpos hbuffer hprobe hprice hshort hrange
  have hle := hasked.le
  have hworth : p.worth n.val.toNat ≤ p.worth p.shares := Position.worth_mono (by omega)
  rw [hrun]
  exact sv.divest_refused hp hasked.pos hle (by omega)

end ShareVault

/-- Divest pays whenever it can: with a share vault, `ensure_idle` succeeds
exactly when the idle balance and the pool's shares are worth `required`. It
then leaves the buffer too, unless every share was burned or enough was idle
at the start, and it asks the vault for between one and all of the shares.

Either enough is idle and nothing is asked, or the computed number of shares is
(`ensureIdle_divests`). Rounding up makes these worth the deficit, unless all
shares are not (`ensureIdle_pays`); and where idle and shares are worth less
than `required`, the call is refused (`ensureIdle_refused`). -/
theorem ensureIdle_pays_whenever_it_can (h : Host A L X) (token vault : A)
    (sv : ShareVault h token vault) (w : World A L X) (p : Position)
    (required buffer perProbe : I128) (hp : sv.account w.outside p)
    (he : Equipped w.storage token vault buffer) (hpos : 0 < p.shares)
    (hbuffer : 0 ≤ buffer.val)
    (hprobe : perProbe.val = p.worth shareProbe.val.toNat) (hprice : 0 < perProbe.val)
    (hrange : idle h token w.ledger < required.val →
      (required.val - idle h token w.ledger + buffer.val) * shareProbe.val < 2 ^ 127) :
    ((∃ w', ensureIdle h required w = (.ok (), w')) ↔
        required.val ≤ idle h token w.ledger + p.worth p.shares) ∧
      (∀ w', ensureIdle h required w = (.ok (), w') →
        required.val ≤ idle h token w'.ledger ∧
          (required.val + buffer.val ≤ idle h token w'.ledger ∨
            sv.account w'.outside (p.burn p.shares) ∨
            required.val ≤ idle h token w.ledger)) ∧
      (idle h token w.ledger < required.val →
        ∃ deficit n numerator : I128, deficit.val = required.val - idle h token w.ledger ∧
          ensureIdle h required w = divest h token vault required deficit n w ∧
          1 ≤ n.val ∧ n.val ≤ p.shares ∧
          numerator.val = (deficit.val + buffer.val) * shareProbe.val ∧
          (Signed.ofU128 (divCeil numerator.asU128 perProbe.asU128)).val
            = divCeil numerator.val.toNat perProbe.val.toNat ∧
          n.val = min (p.shares : Int) (divCeil numerator.val.toNat perProbe.val.toNat)) := by
  rcases le_or_gt required.val (idle h token w.ledger) with hle | hshort
  · -- enough is idle
    have hrun := ensureIdle_of_le he.token hle
    refine ⟨⟨fun _ => by omega, fun _ => ⟨w, hrun⟩⟩, fun w' hok => ?_,
      fun hshort => absurd hle (not_le.mpr hshort)⟩
    rw [hrun, Prod.mk.injEq] at hok
    obtain ⟨-, rfl⟩ := hok
    exact ⟨hle, Or.inr (Or.inr hle)⟩
  have hrange := hrange hshort
  obtain ⟨deficit, n, hdeficit, hasked, hrun⟩ :=
    sv.ensureIdle_divests hp he hpos hbuffer hprobe hprice hshort hrange
  refine ⟨⟨?_, fun hpayable => ?_⟩, fun w' hok => ?_, fun _ => ?_⟩
  · rintro ⟨w', hok⟩
    by_contra hbeyond
    obtain ⟨w'', hfail⟩ := sv.ensureIdle_refused hp he hpos hbuffer hprobe hprice hshort hrange
      (not_le.mp hbeyond)
    rw [hfail] at hok
    cases hok
  · obtain ⟨w', -, -, hok, -⟩ :=
      sv.ensureIdle_pays hp he hpos hbuffer hprobe hprice hshort hrange hpayable
    exact ⟨w', hok⟩
  · by_cases hpayable : required.val ≤ idle h token w.ledger + p.worth p.shares
    · obtain ⟨w'', k, -, hok', -, -, haccount, hcovered, hfull⟩ :=
        sv.ensureIdle_pays hp he hpos hbuffer hprobe hprice hshort hrange hpayable
      rw [hok', Prod.mk.injEq] at hok
      obtain ⟨-, rfl⟩ := hok
      refine ⟨hcovered, ?_⟩
      rcases hfull with rfl | hfull
      · exact Or.inr (Or.inl haccount)
      · exact Or.inl hfull
    · obtain ⟨w'', hfail⟩ := sv.ensureIdle_refused hp he hpos hbuffer hprobe hprice hshort
        hrange (not_le.mp hpayable)
      rw [hfail] at hok
      cases hok
  · have hdesired : 0 < deficit.val + buffer.val := by omega
    have hscale : 0 < (deficit.val + buffer.val) * shareProbe.val :=
      Int.mul_pos hdesired (by rw [shareProbe_val]; norm_num)
    rw [← hdeficit] at hrange
    let numerator : I128 := ⟨(deficit.val + buffer.val) * shareProbe.val,
      (by norm_num; omega), hrange⟩
    exact ⟨deficit, n, numerator, hdeficit, hrun, hasked.pos, hasked.le, rfl,
      ceil_casts hscale hprice, hasked.eq⟩

/-! ## A share vault over the table token -/

/-- The shares of a fund, and those that the pool holds. -/
structure Holding where
  supply : Nat
  shares : Nat
  shares_le : shares ≤ supply

def Holding.burn (x : Holding) (k : Nat) : Holding where
  supply := x.supply - k
  shares := x.shares - k
  shares_le := by have := x.shares_le; omega

/-- The fund `3`, whose assets are the tokens `1` that it holds. -/
def fundAt (o : (Nat → Nat → Nat) × Holding) : Position :=
  ⟨o.1 1 3, o.2.supply, o.2.shares, o.2.shares_le⟩

def proRataVault : Vault Nat (Nat → Nat → Nat) Holding where
  balance _ _ o := .value (Token.tableBalance (fundAt o).shares)
  getAssetAmountsPerShares _ k o := .value [Token.tableBalance ((fundAt o).worth k.val.toNat)]
  deposit _ _ _ _ _ _ := .error
  withdraw vault k minAmountsOut source o :=
    if k.val ≤ o.2.shares ∧ ∀ m ∈ minAmountsOut, m.val ≤ (fundAt o).worth k.val.toNat then
      .value (o.2.burn k.val.toNat,
        [⟨1, vault, source, Token.tableBalance ((fundAt o).worth k.val.toNat)⟩],
        some [Token.tableBalance ((fundAt o).worth k.val.toNat)])
    else .error

def proRataHost : Host Nat (Nat → Nat → Nat) Holding where
  this := 0
  token := Token.table Nat
  vault := proRataVault
  verify _ _ _ _ := .value true
  aspGetRoot _ _ := .value 0
  poseidon2Compress a b := some ⟨(a.val + 2 * b.val + 1) % 2 ^ 64, compressed_fits a b⟩
  getZeroes := List.replicate 33 ⟨1, one_fits⟩
  keccakXdr _ := 0

/-- The fund's tokens, the pool's and those of the account `8` fit one
balance. -/
structure ProRataAccount (o : (Nat → Nat → Nat) × Holding) (p : Position) : Prop where
  position : fundAt o = p
  supply_lt : o.2.supply < 2 ^ 127
  total_lt : o.1 1 3 + o.1 1 0 + o.1 1 8 < 2 ^ 127

theorem proRata_idle {l : Nat → Nat → Nat} (hl : l 1 0 < 2 ^ 127) :
    idle proRataHost 1 l = l 1 0 := Token.tableBalance_val hl

theorem proRata_withdraw {o : (Nat → Nat → Nat) × Holding} {k : Nat}
    (ha : ProRataAccount o (fundAt o)) (hk : k ≤ o.2.shares) :
    idle proRataHost 1 (paidLedger proRataHost
        [⟨1, 3, 0, Token.tableBalance ((fundAt o).worth k)⟩] o.1)
        = idle proRataHost 1 o.1 + (fundAt o).worth k ∧
      ProRataAccount (paidLedger proRataHost
        [⟨1, 3, 0, Token.tableBalance ((fundAt o).worth k)⟩] o.1, o.2.burn k)
        ((fundAt o).burn k) := by
  have hle : (fundAt o).worth k ≤ o.1 1 3 :=
    Position.worth_le_assets (hk.trans o.2.shares_le)
  have htotal := ha.total_lt
  have hworth := Token.tableBalance_val (n := (fundAt o).worth k) (by omega)
  generalize hv : Token.tableBalance ((fundAt o).worth k) = v at hworth
  have hentry := Token.tableMove_entry ⟨1, 3, 0, v⟩ o.1
  dsimp only at hentry
  have h0 : Token.tableMove ⟨1, 3, 0, v⟩ o.1 1 0 = o.1 1 0 + (fundAt o).worth k := by
    rw [hentry, if_pos rfl, if_neg (by decide)]
    omega
  have h3 : Token.tableMove ⟨1, 3, 0, v⟩ o.1 1 3 = o.1 1 3 - (fundAt o).worth k := by
    rw [hentry, if_neg (by decide), if_pos rfl]
    omega
  have h8 : Token.tableMove ⟨1, 3, 0, v⟩ o.1 1 8 = o.1 1 8 := by
    rw [hentry, if_neg (by decide), if_neg (by decide)]
  have hmove : (Token.table Nat).transfer ⟨1, 3, 0, v⟩ o.1
      = some (Token.tableMove ⟨1, 3, 0, v⟩ o.1) := by
    refine Token.table_transfer_eq_some.mpr ⟨⟨?_, ?_, ?_, ?_, ?_⟩, rfl⟩ <;> dsimp only <;> omega
  have hledger : paidLedger proRataHost [⟨1, 3, 0, v⟩] o.1
      = Token.tableMove ⟨1, 3, 0, v⟩ o.1 :=
    @Token.runTransfers_single _ _ _ proRataHost.token _ _ _ _
      (by show (3 : Nat) ≠ 0; decide) hmove []
  rw [hledger]
  refine ⟨?_, ?_, ?_, ?_⟩
  · rw [proRata_idle (by omega), proRata_idle (by omega), h0]
    omega
  · simp only [fundAt, Position.burn, Holding.burn, h3]
  · exact lt_of_le_of_lt (Nat.sub_le _ _) ha.supply_lt
  · dsimp only
    omega

/-- The table's vault is a share vault. -/
def proRata : ShareVault proRataHost 1 3 where
  account := ProRataAccount
  assets_lt {o p} ha := by
    obtain ⟨rfl, -, htotal⟩ := ha
    show o.1 1 3 < 2 ^ 127
    omega
  balance_eq {o p} ha := by
    obtain ⟨rfl, hsupply, -⟩ := ha
    exact ⟨Token.tableBalance o.2.shares,
      Token.tableBalance_val (o.2.shares_le.trans_lt hsupply), rfl⟩
  quote_eq {o p} ha k a _ hval := by
    obtain ⟨rfl, -, -⟩ := ha
    have hlt : (fundAt o).worth k.val.toNat < 2 ^ 127 := by
      have : a.val < 2 ^ 127 := a.hi
      omega
    have heq : Token.tableBalance ((fundAt o).worth k.val.toNat) = a :=
      Signed.ext_val ((Token.tableBalance_val hlt).trans hval.symm)
    rw [← heq]
    rfl
  withdraw_pays {o p} ha k m hpos hle hmin := by
    obtain ⟨rfl, hsupply, htotal⟩ := ha
    have hle' : k.val ≤ o.2.shares := hle
    obtain ⟨hpaid, haccount⟩ := proRata_withdraw (k := k.val.toNat) ⟨rfl, hsupply, htotal⟩
      (by omega)
    have hcall : proRataHost.vault.withdraw 3 k [m] proRataHost.this o
        = .value (o.2.burn k.val.toNat,
          [⟨1, 3, 0, Token.tableBalance ((fundAt o).worth k.val.toNat)⟩],
          some [Token.tableBalance ((fundAt o).worth k.val.toNat)]) :=
      if_pos ⟨hle', by simpa using hmin⟩
    exact ⟨_, _, _, hcall, hpaid, haccount⟩
  withdraw_refuses {o p} ha k m hpos hle hmin r hcall := by
    obtain ⟨rfl, -, -⟩ := ha
    have hno : proRataHost.vault.withdraw 3 k [m] proRataHost.this o = .error := by
      refine if_neg fun hc => ?_
      have := hc.2 m List.mem_cons_self
      omega
    rw [hno] at hcall
    cases hcall
  payout_keeps {o p} ha dst a l hne htransfer := by
    obtain ⟨⟨hnn, hle, -, -, -⟩, rfl⟩ :=
      (Token.table_transfer_eq_some (t := ⟨1, 0, dst, a⟩) (l := o.1)).mp htransfer
    have hentry := Token.tableMove_entry ⟨1, 0, dst, a⟩ o.1
    have htotal := ha.total_lt
    dsimp only at hentry hnn hle
    have h3 : Token.tableMove ⟨1, 0, dst, a⟩ o.1 1 3 = o.1 1 3 := by
      rw [hentry, if_neg (Ne.symm hne), if_neg (by decide)]
    refine ⟨?_, ha.supply_lt, ?_⟩
    · rw [← ha.position]
      simp only [fundAt, h3]
    · dsimp only
      rw [h3, hentry, hentry, if_neg (show ¬(8 : Nat) = 0 by decide)]
      rcases eq_or_ne dst 0 with rfl | h0
      · rw [if_pos rfl, if_pos rfl, if_neg (by decide)]
        omega
      rw [if_neg h0.symm, if_pos rfl, if_neg h0]
      rcases eq_or_ne dst 8 with rfl | h8
      · rw [if_pos rfl]
        omega
      · rw [if_neg h8.symm]
        omega

/-- `500` idle, and `100` of the `200` shares of a fund of `500`. -/
def proRataWorld : World Nat (Nat → Nat → Nat) Holding :=
  (constructor proRataHost tableConfig
    (.deploy (fun _ _ => 500) ⟨200, 100, by decide⟩)).2

theorem proRataWorld_account :
    proRata.account proRataWorld.outside (fundAt proRataWorld.outside) where
  position := rfl
  supply_lt := by decide
  total_lt := by decide

theorem proRataWorld_equipped :
    Equipped proRataWorld.storage 1 3 ⟨20, by norm_num, by norm_num⟩ :=
  ⟨by rfl, by rfl, ⟨_, by rfl⟩, by rfl⟩

/-- Making `560` idle takes `80`, with the buffer. -/
theorem ensureIdle_pays_table :
    ∃ w', ensureIdle proRataHost ⟨560, by norm_num, by norm_num⟩ proRataWorld
      = (.ok (), w') := by
  refine (ensureIdle_pays_whenever_it_can proRataHost 1 3 proRata proRataWorld
    (fundAt proRataWorld.outside) ⟨560, by norm_num, by norm_num⟩
    ⟨20, by norm_num, by norm_num⟩ ⟨25000000, by norm_num, by norm_num⟩
    proRataWorld_account proRataWorld_equipped ?_ (by decide) ?_ (by decide)
    fun _ => ?_).1.mpr ?_
  · decide
  · decide
  · decide
  · decide

end Pool

end PrivacyWallet
