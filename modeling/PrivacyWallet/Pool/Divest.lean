import Mathlib
import PrivacyWallet.Pool.VaultOutage

/-!
# Every exit of `ensure_idle`

When the idle balance is short, `ensure_idle` asks the vault for its shares,
for a price and for a payout. The documentation has one error for whatever
goes wrong there. The payout itself is covered or fails with it
(`divest_ends`), but the two questions before it go through clients that
trap, and the arithmetic on the answers has an error of its own.

`Shortfall` lists how a call can go on, one case for each exit of the source
in its order: no answer for the balance, no shares, no answer for the quote,
no price, an amount out of range, and the divest. `ensureIdle_shortfall` says
that there are no others; it is the only place where the function is
unfolded.

`ensureIdle_surfaces_iff` then goes through the cases. In each of them one
side of the equivalence fails or holds at sight: the exits with the
documented error and the divest are documented, the traps and the overflow
are not, and the condition (`Answered`) is false in just the latter, as it
asks for the answers and for an amount in range. `ensureIdle_traps_unpriced`
is a run into a trap.
-/

namespace PrivacyWallet

namespace Pool

open InvokeM

variable {A L X : Type} [DecidableEq A] {h : Host A L X} {w : World A L X}
  {token vault : A} {required buffer : I128}

/-- The entries that `ensure_idle` reads. -/
structure Equipped (s : Storage A) (token vault : A) (buffer : I128) : Prop where
  token : s.token = some token
  vault : s.vault = some vault
  investThreshold : ∃ threshold, s.investThreshold = some threshold
  liquidityBuffer : s.liquidityBuffer = some buffer

theorem shareProbe_val : shareProbe.val = 10000000 := rfl

/-- The ways a call of `ensure_idle` goes on from `w`, where the idle
balance is short of `required`. -/
inductive Shortfall (h : Host A L X) (token vault : A) (required buffer : I128)
    (w : World A L X) : Except (Fail Error) Unit × World A L X → Prop where
  /-- The share balance is asked with a client that traps. -/
  | noBalance (hbalance : ∀ s, h.vault.balance vault h.this w.outside ≠ .value s) :
      Shortfall h token vault required buffer w (.error .trap, w)
  | noShares {shares : I128}
      (hbalance : h.vault.balance vault h.this w.outside = .value shares)
      (hshares : shares.val ≤ 0) :
      Shortfall h token vault required buffer w (.error (.err .vaultDivestFailed), w)
  /-- So is the price. -/
  | noQuote {shares : I128}
      (hbalance : h.vault.balance vault h.this w.outside = .value shares)
      (hshares : 0 < shares.val)
      (hquote : ∀ q, h.vault.getAssetAmountsPerShares vault shareProbe w.outside ≠ .value q) :
      Shortfall h token vault required buffer w (.error .trap, w)
  | noPrice {shares : I128} {quote : List I128}
      (hbalance : h.vault.balance vault h.this w.outside = .value shares)
      (hshares : 0 < shares.val)
      (hquote : h.vault.getAssetAmountsPerShares vault shareProbe w.outside = .value quote)
      (hprice : ∀ p, quote[0]? = some p → p.val ≤ 0) :
      Shortfall h token vault required buffer w (.error (.err .vaultDivestFailed), w)
  /-- The amount to divest, at the scale of the probe, is out of range. -/
  | overflow {shares perProbe : I128} {quote : List I128}
      (hbalance : h.vault.balance vault h.this w.outside = .value shares)
      (hshares : 0 < shares.val)
      (hquote : h.vault.getAssetAmountsPerShares vault shareProbe w.outside = .value quote)
      (hprobe : quote[0]? = some perProbe) (hprice : 0 < perProbe.val)
      (hrange : (required.val - idle h token w.ledger + buffer.val) * shareProbe.val
          < -2 ^ 127 ∨
        2 ^ 127 ≤ (required.val - idle h token w.ledger + buffer.val) * shareProbe.val) :
      Shortfall h token vault required buffer w (.error (.err .overflow), w)
  | divest {shares perProbe deficit numerator n : I128} {quote : List I128}
      (hbalance : h.vault.balance vault h.this w.outside = .value shares)
      (hshares : 0 < shares.val)
      (hquote : h.vault.getAssetAmountsPerShares vault shareProbe w.outside = .value quote)
      (hprobe : quote[0]? = some perProbe) (hprice : 0 < perProbe.val)
      (hdeficit : deficit.val = required.val - idle h token w.ledger)
      (hnumerator : numerator.val = (deficit.val + buffer.val) * shareProbe.val)
      (hn : n = min shares (Signed.ofU128 (divCeil numerator.asU128 perProbe.asU128))) :
      Shortfall h token vault required buffer w
        (divest h token vault required deficit n w)

omit [DecidableEq A] in
theorem callView_of_value {β : Type} {view : L × X → Outcome β} {b : β}
    (hv : view w.outside = .value b) :
    (callView view : PoolM A L X β) w = (.ok b, w) := callView_eq_ok.mpr ⟨hv, rfl⟩

omit [DecidableEq A] in
theorem callView_of_not {β : Type} {view : L × X → Outcome β}
    (hv : ∀ b, view w.outside ≠ .value b) :
    (callView view : PoolM A L X β) w = (.error .trap, w) := by
  rw [callView, read_bind]
  cases hview : view w.outside with
  | value b => exact absurd hview (hv b)
  | error => rfl
  | trap => rfl

theorem outcome_cases {β : Type} (o : Outcome β) : (∃ b, o = .value b) ∨ ∀ b, o ≠ .value b := by
  cases o with
  | value b => exact Or.inl ⟨b, rfl⟩
  | error => exact Or.inr fun _ h => by cases h
  | trap => exact Or.inr fun _ h => by cases h

/-- Multiplying by the probe does not bring a sum back into range. -/
theorem not_range_of_sum {d : Int} (hd : d < -2 ^ 127 ∨ 2 ^ 127 ≤ d) :
    d * shareProbe.val < -2 ^ 127 ∨ 2 ^ 127 ≤ d * shareProbe.val := by
  rw [shareProbe_val]
  omega

/-- The exits of the source, one after the other: each check that is passed is a
hypothesis of the cases after it. -/
theorem ensureIdle_shortfall (he : Equipped w.storage token vault buffer)
    (hshort : idle h token w.ledger < required.val) :
    Shortfall h token vault required buffer w (ensureIdle h required w) := by
  obtain ⟨threshold, hthreshold⟩ := he.investThreshold
  have hget : (getToken : PoolM A L X A) w = (.ok token, w) := load_eq_ok.mpr ⟨he.token, rfl⟩
  have hbal : tokenBalance h token h.this w
      = (.ok (h.token.balance token h.this w.ledger), w) := rfl
  have hvault : (getVault : PoolM A L X A) w = (.ok vault, w) :=
    load_eq_ok.mpr ⟨he.vault, rfl⟩
  have hparams : (getInvestParams : PoolM A L X _) w = (.ok (threshold, buffer), w) := by
    refine bind_eq_ok.mpr ⟨threshold, w, load_eq_ok.mpr ⟨hthreshold, rfl⟩, ?_⟩
    exact bind_eq_ok.mpr ⟨buffer, w, load_eq_ok.mpr ⟨he.liquidityBuffer, rfl⟩,
      pure_eq_ok.mpr ⟨rfl, rfl⟩⟩
  have hle : ¬required ≤ h.token.balance token h.this w.ledger := not_le.mpr hshort
  rw [ensureIdle, bind_of_ok hget, bind_of_ok hbal, if_neg hle, bind_of_ok hvault,
    bind_of_ok hparams]
  dsimp only
  rcases outcome_cases (h.vault.balance vault h.this w.outside) with ⟨shares, hshares⟩ | hno
  swap
  · rw [bind_of_error (callView_of_not hno)]
    exact .noBalance hno
  rw [bind_of_ok (callView_of_value hshares)]
  by_cases hpos : shares ≤ 0
  · rw [rejectIf_bind_of hpos]
    exact .noShares hshares hpos
  rw [rejectIf_bind_of_not hpos]
  have hpos : 0 < shares.val := not_le.mp hpos
  rcases outcome_cases (h.vault.getAssetAmountsPerShares vault shareProbe w.outside)
    with ⟨quote, hquote⟩ | hno
  swap
  · rw [bind_of_error (callView_of_not hno)]
    exact .noQuote hshares hpos hno
  rw [bind_of_ok (callView_of_value hquote)]
  rcases hprobe : quote[0]? with _ | perProbe
  · rw [okOr_none_bind]
    exact .noPrice hshares hpos hquote (by simp [hprobe])
  rw [okOr_some_bind]
  by_cases hprice : perProbe ≤ 0
  · rw [rejectIf_bind_of hprice]
    refine .noPrice hshares hpos hquote fun p hp => ?_
    rw [hprobe, Option.some.injEq] at hp
    exact hp ▸ hprice
  rw [rejectIf_bind_of_not hprice]
  have hprice : 0 < perProbe.val := not_le.mp hprice
  -- the deficit is in range, as both of its parts are and it is positive
  obtain ⟨deficit, hdeficit⟩ : ∃ d,
      Signed.checkedSub required (h.token.balance token h.this w.ledger) = some d := by
    rw [← Option.ne_none_iff_exists']
    intro hnone
    have hnone := Signed.ofInt?_eq_none.mp hnone
    have hnn := h.token.balance_nonneg token h.this w.ledger
    have hhi := required.hi
    simp only [idle] at hshort
    omega
  have hdeficit' : deficit.val = required.val - idle h token w.ledger :=
    Signed.checkedSub_eq_some.mp hdeficit
  rw [hdeficit, orTrap_some_bind]
  rcases hdesired : Signed.checkedAdd deficit buffer with _ | desired
  · rw [okOr_none_bind]
    have hnone := not_range_of_sum (Signed.ofInt?_eq_none.mp hdesired)
    rw [hdeficit'] at hnone
    exact .overflow hshares hpos hquote hprobe hprice hnone
  have hdesired' : desired.val = deficit.val + buffer.val :=
    Signed.checkedAdd_eq_some.mp hdesired
  rw [okOr_some_bind]
  rcases hnumerator : Signed.checkedMul desired shareProbe with _ | numerator
  · rw [okOr_none_bind]
    have hnone := Signed.ofInt?_eq_none.mp hnumerator
    rw [hdesired', hdeficit'] at hnone
    exact .overflow hshares hpos hquote hprobe hprice hnone
  have hnumerator' : numerator.val = desired.val * shareProbe.val :=
    Signed.checkedMul_eq_some.mp hnumerator
  rw [okOr_some_bind]
  exact .divest hshares hpos hquote hprobe hprice hdeficit'
    (by rw [hnumerator', hdesired']) (min_def_lt _ _).symm

/-! ## The payout -/

/-- The ledger after the transfers of a vault that the pool authorized
nothing. -/
def paidLedger (h : Host A L X) (ts : List (Transfer A)) (l : L) : L :=
  h.token.runTransfers h.this [] ts l

section Divest

variable {deficit n : I128}

theorem divest_of_value {x : X} {ts : List (Transfer A)} {answer : List I128}
    (hcall : h.vault.withdraw vault n [deficit] h.this w.outside = .value (x, ts, some answer)) :
    divest h token vault required deficit n w
      = if required.val ≤ idle h token (paidLedger h ts w.ledger) then
          (.ok (), w.moved .vault (paidLedger h ts w.ledger, x))
        else (.error (.err .vaultDivestFailed), w.moved .vault (paidLedger h ts w.ledger, x)) := by
  have htry : tryVault h [] (h.vault.withdraw vault n [deficit] h.this) w
      = (.ok (some (some answer)), w.moved .vault (paidLedger h ts w.ledger, x)) := by
    rw [tryVault, read_bind, hcall]
    rfl
  have hbal : tokenBalance h token h.this (w.moved .vault (paidLedger h ts w.ledger, x))
      = (.ok (h.token.balance token h.this (paidLedger h ts w.ledger)),
        w.moved .vault (paidLedger h ts w.ledger, x)) := rfl
  rw [divest, bind_of_ok htry, okOr_some_bind, okOr_some_bind, bind_of_ok hbal, rejectIf]
  split_ifs with hlt hle hle
  · exact absurd hle (not_le.mpr hlt)
  · rfl
  · rfl
  · exact absurd (not_lt.mp hlt) hle

theorem divest_of_not
    (hcall : ∀ x ts answer, h.vault.withdraw vault n [deficit] h.this w.outside
      ≠ .value (x, ts, some answer)) :
    ∃ w', divest h token vault required deficit n w
      = (.error (.err .vaultDivestFailed), w') := by
  have hnone : ∀ w' : World A L X,
      tryVault h [] (h.vault.withdraw vault n [deficit] h.this) w = (.ok none, w') →
      divest h token vault required deficit n w
        = (.error (.err .vaultDivestFailed), w') := by
    intro w' htry
    rw [divest, bind_of_ok htry, okOr_none_bind]
  rcases hview : h.vault.withdraw vault n [deficit] h.this w.outside
    with ⟨x, ts, _ | answer⟩ | _ | _
  · -- the call succeeded, but its answer is not a list of amounts
    have htry : tryVault h [] (h.vault.withdraw vault n [deficit] h.this) w
        = (.ok (some none), w.moved .vault (paidLedger h ts w.ledger, x)) := by
      rw [tryVault, read_bind, hview]
      rfl
    refine ⟨w.moved .vault (paidLedger h ts w.ledger, x), ?_⟩
    rw [divest, bind_of_ok htry, okOr_some_bind, okOr_none_bind]
  · exact absurd hview (hcall x ts answer)
  · exact ⟨w, hnone w (by rw [tryVault, read_bind, hview]; rfl)⟩
  · exact ⟨w, hnone w (by rw [tryVault, read_bind, hview]; rfl)⟩

/-- The vault paid: its call succeeded, and what it moved covers `required`. -/
structure Divested (h : Host A L X) (token vault : A) (required deficit n : I128)
    (w w' : World A L X) (ts : List (Transfer A)) : Prop where
  call : ∃ x answer, h.vault.withdraw vault n [deficit] h.this w.outside
      = .value (x, ts, some answer) ∧ w' = w.moved .vault (paidLedger h ts w.ledger, x)
  covered : required.val ≤ idle h token w'.ledger

/-- A payout is covered, or it fails with the error for it. -/
theorem divest_ends (token vault : A) (required deficit n : I128) (w : World A L X) :
    (∃ w' ts, divest h token vault required deficit n w = (.ok (), w') ∧
        Divested h token vault required deficit n w w' ts) ∨
      ∃ w', divest h token vault required deficit n w
        = (.error (.err .vaultDivestFailed), w') := by
  by_cases hcall : ∃ x ts answer, h.vault.withdraw vault n [deficit] h.this w.outside
      = .value (x, ts, some answer)
  · obtain ⟨x, ts, answer, hcall⟩ := hcall
    rw [divest_of_value hcall]
    split
    · rename_i hle
      exact Or.inl ⟨_, ts, rfl, ⟨x, answer, hcall, rfl⟩, hle⟩
    · exact Or.inr ⟨_, rfl⟩
  · push Not at hcall
    exact Or.inr (divest_of_not hcall)

end Divest

/-! ## Which failures surface -/

/-- A call that was to make `required` idle ended as documented: enough is
idle, or the divest failed. -/
def Documented (h : Host A L X) (token : A) (required : I128)
    (r : Except (Fail Error) Unit × World A L X) : Prop :=
  (∃ w', r = (.ok (), w') ∧ required.val ≤ idle h token w'.ledger) ∨
    ∃ w', r = (.error (.err .vaultDivestFailed), w')

/-- An error is documented only as `VaultDivestFailed`. -/
@[simp] theorem documented_error {e : Fail Error} :
    Documented h token required (.error e, w) ↔ e = .err .vaultDivestFailed := by
  simp [Documented]

/-- So does `ensure_idle`. -/
def Surfaces (h : Host A L X) (token : A) (required : I128) (w : World A L X) : Prop :=
  Documented h token required (ensureIdle h required w)

/-- The vault answers what the pool asks it with a client that traps, and
with a price above zero the amount to divest is in range. -/
def Answered (h : Host A L X) (vault : A) (desired : Int) (o : L × X) : Prop :=
  ∃ shares, h.vault.balance vault h.this o = .value shares ∧
    (0 < shares.val →
      ∃ quote, h.vault.getAssetAmountsPerShares vault shareProbe o = .value quote ∧
        ∀ p, quote[0]? = some p → 0 < p.val →
          -2 ^ 127 ≤ desired * shareProbe.val ∧ desired * shareProbe.val < 2 ^ 127)

/-- A failing divest surfaces as `VaultDivestFailed` exactly when the vault
answers both questions and the arithmetic on its answers is in range. The
balance and the price are asked with clients that trap.

`ensureIdle_shortfall` names each place where a run with too little idle can
end. The condition asks the same questions in the same order, so each case of it
settles both sides. -/
theorem ensureIdle_surfaces_iff (h : Host A L X) (w : World A L X) (token vault : A)
    (required buffer : I128) (he : Equipped w.storage token vault buffer)
    (hshort : idle h token w.ledger < required.val) :
    Surfaces h token required w ↔
      Answered h vault (required.val - idle h token w.ledger + buffer.val) w.outside := by
  have hcases := ensureIdle_shortfall he hshort
  rw [Surfaces]
  generalize ensureIdle h required w = r at hcases ⊢
  cases hcases with
  | noBalance hno =>
      rw [documented_error]
      refine ⟨(fun hs => by cases hs), ?_⟩
      rintro ⟨shares, hshares, -⟩
      exact absurd hshares (hno shares)
  | noShares hbalance hshares =>
      rw [documented_error]
      exact ⟨fun _ => ⟨_, hbalance, fun hpos => absurd hpos (not_lt.mpr hshares)⟩,
        fun _ => rfl⟩
  | noQuote hbalance hshares hno =>
      rw [documented_error]
      refine ⟨(fun hs => by cases hs), ?_⟩
      rintro ⟨shares, hshares', hquote⟩
      rw [hbalance, Outcome.value.injEq] at hshares'
      obtain ⟨quote, hquote, -⟩ := hquote (hshares' ▸ hshares)
      exact absurd hquote (hno quote)
  | noPrice hbalance hshares hquote hprice =>
      rw [documented_error]
      exact ⟨fun _ => ⟨_, hbalance, fun _ => ⟨_, hquote, fun p hp hpos =>
        absurd hpos (not_lt.mpr (hprice p hp))⟩⟩, fun _ => rfl⟩
  | overflow hbalance hshares hquote hprobe hprice hrange =>
      rw [documented_error]
      refine ⟨(fun hs => by cases hs), ?_⟩
      rintro ⟨shares, hshares', hquote'⟩
      rw [hbalance, Outcome.value.injEq] at hshares'
      obtain ⟨quote, hquote', hin⟩ := hquote' (hshares' ▸ hshares)
      rw [hquote, Outcome.value.injEq] at hquote'
      have hin := hin _ (hquote' ▸ hprobe) hprice
      omega
  | @divest shares perProbe deficit numerator n quote hbalance hshares hquote hprobe hprice
      hdeficit hnumerator hn =>
      refine ⟨fun _ => ⟨shares, hbalance, fun _ => ⟨quote, hquote, fun _ _ _ => ?_⟩⟩,
        fun _ => ?_⟩
      · rw [← hdeficit, ← hnumerator]
        exact ⟨numerator.lo, numerator.hi⟩
      · rcases divest_ends token vault required deficit n w with ⟨w', ts, hok, hpaid⟩ | hfail
        · exact Or.inl ⟨w', hok, hpaid.covered⟩
        · exact Or.inr hfail

/-- The small instance's world with `40` vault shares. -/
def shareWorld (h : Host Nat (Nat → Nat → Nat) Nat) : World Nat (Nat → Nat → Nat) Nat :=
  (constructor h tableConfig (.deploy (fun _ _ => 500) 40)).2

/-- A divest of `20` at par. -/
theorem ensureIdle_surfaces_table :
    Surfaces tableHost 1 ⟨520, by norm_num, by norm_num⟩ (shareWorld tableHost) := by
  refine (ensureIdle_surfaces_iff tableHost (shareWorld tableHost) 1 3 _
    ⟨20, by norm_num, by norm_num⟩ ⟨by rfl, by rfl, ⟨_, by rfl⟩, by rfl⟩ (by decide)).mpr ?_
  refine ⟨Token.tableBalance 40, rfl, fun _ => ⟨[shareProbe], rfl, fun p _ _ => ?_⟩⟩
  decide

/-- A vault whose price query fails. -/
def unpricedVault : Vault Nat (Nat → Nat → Nat) Nat :=
  { parVault 1 with getAssetAmountsPerShares := fun _ _ _ => .error }

/-- In a constructed pool with `40` shares and `500` idle, making `520` idle
traps when the price query fails. -/
theorem ensureIdle_traps_unpriced :
    Constructed (tableHost.withVault unpricedVault) tableConfig
        (shareWorld (tableHost.withVault unpricedVault)) ∧
      idle (tableHost.withVault unpricedVault) 1
        (shareWorld (tableHost.withVault unpricedVault)).ledger < 520 ∧
      ¬Surfaces (tableHost.withVault unpricedVault) 1 ⟨520, by norm_num, by norm_num⟩
        (shareWorld (tableHost.withVault unpricedVault)) := by
  refine ⟨⟨fun _ _ => 500, 40, Prod.ext (by rfl) rfl⟩, by decide, ?_⟩
  have htrap : ensureIdle (tableHost.withVault unpricedVault)
      ⟨520, by norm_num, by norm_num⟩ (shareWorld (tableHost.withVault unpricedVault))
      = (.error .trap, shareWorld (tableHost.withVault unpricedVault)) := by rfl
  rw [Surfaces, htrap, documented_error]
  intro hs
  cases hs

end Pool

end PrivacyWallet
