import Mathlib.Algebra.Order.Ring.Nat
import Mathlib.Tactic.Linarith
import Mathlib.Tactic.Ring

/-!
# Pro-rata shares

An account holds some of the shares of a fund. Shares are worth their
part of the fund's assets, rounded down, and burning shares pays what they
are worth. Two facts about the rounding carry everything else: a number of
shares computed through a probed price covers the amount it was computed
for (`le_worth_of_probe`), and burning shares changes what the account has
in total by less than one unit (`burn_drift`).
-/

namespace PrivacyWallet

namespace Shares

/-- A fund as one of its holders sees it. -/
structure Position where
  assets : Nat
  supply : Nat
  shares : Nat
  shares_le : shares ≤ supply
deriving DecidableEq

namespace Position

variable (p : Position)

/-- What `k` shares are worth. -/
def worth (k : Nat) : Nat := k * p.assets / p.supply

/-- The position after `k` shares were burned and paid. -/
def burn (k : Nat) : Position where
  assets := p.assets - p.worth k
  supply := p.supply - k
  shares := p.shares - k
  shares_le := by have := p.shares_le; omega

@[simp] theorem worth_zero : p.worth 0 = 0 := by simp [worth]

variable {p} {k m : Nat}

theorem worth_mono (hkm : k ≤ m) : p.worth k ≤ p.worth m :=
  Nat.div_le_div_right (Nat.mul_le_mul_right _ hkm)

/-- Rounding down, in one direction and in the other. -/
theorem worth_mul_le : p.worth k * p.supply ≤ k * p.assets := Nat.div_mul_le_self _ _

theorem lt_worth_succ_mul (hs : 0 < p.supply) :
    k * p.assets < (p.worth k + 1) * p.supply := by
  rw [Nat.mul_comm (p.worth k + 1)]
  exact Nat.lt_mul_div_succ _ hs

theorem worth_le_assets (hk : k ≤ p.supply) : p.worth k ≤ p.assets :=
  Nat.div_le_of_le_mul (Nat.mul_le_mul_right _ hk)

theorem le_worth_iff (hs : 0 < p.supply) {v : Nat} :
    v ≤ p.worth k ↔ v * p.supply ≤ k * p.assets := Nat.le_div_iff_mul_le hs

/-- Enough shares at a probed price: if `probe` shares are quoted at
`worth probe` and `k` shares at that price make `amount`, then `k` shares
are worth `amount`. -/
theorem le_worth_of_probe {probe amount : Nat} (hs : 0 < p.supply) (hprobe : 0 < probe)
    (hk : amount * probe ≤ k * p.worth probe) : amount ≤ p.worth k := by
  rw [le_worth_iff hs]
  refine Nat.le_of_mul_le_mul_left ?_ hprobe
  calc probe * (amount * p.supply) = amount * probe * p.supply := by ring
    _ ≤ k * p.worth probe * p.supply := Nat.mul_le_mul_right _ hk
    _ = k * (p.worth probe * p.supply) := by ring
    _ ≤ k * (probe * p.assets) := Nat.mul_le_mul_left _ worth_mul_le
    _ = probe * (k * p.assets) := by ring

/-! ### Burning -/

/-- The remaining assets, against the remaining supply at the old price:
what rounding withheld from the payout stays in the fund. -/
theorem burn_assets_mul (hk : k ≤ p.supply) :
    (p.burn k).assets * p.supply + p.worth k * p.supply
      = p.assets * (p.burn k).supply + k * p.assets := by
  have hle : p.worth k ≤ p.assets := worth_le_assets hk
  have hA : (p.burn k).assets + p.worth k = p.assets := Nat.sub_add_cancel hle
  have hS : (p.burn k).supply + k = p.supply := Nat.sub_add_cancel hk
  calc (p.burn k).assets * p.supply + p.worth k * p.supply
      = ((p.burn k).assets + p.worth k) * p.supply := by ring
    _ = p.assets * ((p.burn k).supply + k) := by rw [hA, hS]
    _ = p.assets * (p.burn k).supply + k * p.assets := by ring

/-- Burning never raises what the holder has in total. -/
theorem burn_total_le (hk : k ≤ p.shares) :
    p.worth k + (p.burn k).worth (p.burn k).shares ≤ p.worth p.shares := by
  rcases Nat.eq_zero_or_pos (p.burn k).supply with hz | hpos
  · have hle := worth_mono (p := p) hk
    simp only [worth, hz, Nat.div_zero]
    exact hle
  have hkS : k ≤ p.supply := hk.trans p.shares_le
  have hs : 0 < p.supply := lt_of_lt_of_le hpos (Nat.sub_le _ _)
  have hfloor := worth_mul_le (p := p.burn k) (k := (p.burn k).shares)
  have hassets := burn_assets_mul hkS
  have hle : p.worth k * p.supply ≤ k * p.assets := worth_mul_le
  have hshares : (p.burn k).shares + k = p.shares := Nat.sub_add_cancel hk
  have htS : (p.burn k).shares ≤ (p.burn k).supply := (p.burn k).shares_le
  generalize (p.burn k).worth (p.burn k).shares = q at hfloor ⊢
  generalize (p.burn k).shares = t at hfloor hshares htS
  generalize (p.burn k).supply = S' at hfloor hassets hpos htS
  generalize (p.burn k).assets = A' at hfloor hassets
  -- `r` is what the payout withheld; it cannot be paid twice
  obtain ⟨r, hr⟩ := Nat.exists_eq_add_of_le hle
  have hA' : A' * p.supply = p.assets * S' + r := by omega
  have hq : q * p.supply ≤ t * p.assets + r := by
    refine Nat.le_of_mul_le_mul_left ?_ hpos
    calc S' * (q * p.supply) = q * S' * p.supply := by ring
      _ ≤ t * A' * p.supply := Nat.mul_le_mul_right _ hfloor
      _ = t * (A' * p.supply) := by ring
      _ = t * p.assets * S' + t * r := by rw [hA']; ring
      _ ≤ t * p.assets * S' + S' * r := Nat.add_le_add_left (Nat.mul_le_mul_right _ htS) _
      _ = S' * (t * p.assets + r) := by ring
  rw [le_worth_iff hs, ← hshares]
  calc (p.worth k + q) * p.supply = p.worth k * p.supply + q * p.supply := by ring
    _ ≤ p.worth k * p.supply + (t * p.assets + r) := Nat.add_le_add_left hq _
    _ = (t + k) * p.assets := by rw [Nat.add_mul, hr]; ring

/-- Burning loses less than one unit. What the burned shares were paid is their
part of the fund less a remainder below one; the remainder stays in the fund,
and what rounding the rest down takes is below one too. -/
theorem le_burn_total (hk : k ≤ p.shares) :
    p.worth p.shares ≤ p.worth k + (p.burn k).worth (p.burn k).shares + 1 := by
  rcases Nat.eq_zero_or_pos (p.burn k).supply with hz | hpos
  · -- nothing is left, so the holder burned everything
    have hall : k = p.shares := by
      have hS : p.supply - k = 0 := hz
      have := p.shares_le
      omega
    subst hall
    omega
  have hkS : k ≤ p.supply := hk.trans p.shares_le
  have hs : 0 < p.supply := lt_of_lt_of_le hpos (Nat.sub_le _ _)
  have hfloor := lt_worth_succ_mul (p := p.burn k) (k := (p.burn k).shares) hpos
  have hassets := burn_assets_mul hkS
  have hle : p.worth k * p.supply ≤ k * p.assets := worth_mul_le
  have hlt : k * p.assets < (p.worth k + 1) * p.supply := lt_worth_succ_mul hs
  have hshares : (p.burn k).shares + k = p.shares := Nat.sub_add_cancel hk
  generalize (p.burn k).worth (p.burn k).shares = q at hfloor ⊢
  generalize (p.burn k).shares = t at hfloor hshares
  generalize (p.burn k).supply = S' at hfloor hassets hpos
  generalize (p.burn k).assets = A' at hfloor hassets
  obtain ⟨r, hr⟩ := Nat.exists_eq_add_of_le hle
  have hA' : A' * p.supply = p.assets * S' + r := by omega
  have hrS : r < p.supply := by
    rw [Nat.add_mul, Nat.one_mul] at hlt
    omega
  have hq : t * p.assets < (q + 1) * p.supply := by
    refine Nat.lt_of_mul_lt_mul_left (a := S') ?_
    calc S' * (t * p.assets) ≤ t * (p.assets * S' + r) := by
          rw [Nat.mul_add, Nat.mul_comm S', Nat.mul_assoc]
          exact Nat.le_add_right _ _
      _ = t * A' * p.supply := by rw [← hA']; ring
      _ < (q + 1) * S' * p.supply := Nat.mul_lt_mul_of_pos_right hfloor hs
      _ = S' * ((q + 1) * p.supply) := by ring
  rw [← Nat.lt_succ_iff, worth, Nat.div_lt_iff_lt_mul hs, ← hshares]
  calc (t + k) * p.assets = t * p.assets + (p.worth k * p.supply + r) := by rw [← hr]; ring
    _ < (q + 1) * p.supply + (p.worth k * p.supply + p.supply) := by omega
    _ = (p.worth k + q + 1).succ * p.supply := by rw [Nat.succ_eq_add_one]; ring

end Position

end Shares

end PrivacyWallet
