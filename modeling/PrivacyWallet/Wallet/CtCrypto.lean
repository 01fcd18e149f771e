import Mathlib.Algebra.Module.Basic
import Mathlib.Tactic.Abel
import PrivacyWallet.Indexer.NormalizeCt

/-!
# Commitments, ciphertexts and circuits of the confidential token

The client's field arithmetic, its Poseidon2 sponge and its Pedersen
commitments, and the constraints of the withdraw and transfer circuits. The
Poseidon2 permutation and the curve come from other packages. What the client
reads from an event of an operation is what the operation's circuit committed
to.
-/

namespace PrivacyWallet

namespace Wallet

/-! ## Fields -/

/-- The order of BN254's scalar field, Noir's `Field`. -/
def frModulus : Nat := 0x30644e72e131a029b85045b68181585d2833e84879b9709143e1f593f0000001

/-- The order of the Grumpkin group. -/
def fpModulus : Nat := 0x30644e72e131a029b85045b68181585d97816a916871ca8d3c208c16d87cfd47

def frMod (x : Int) : Nat := (x % frModulus).toNat

def frAdd (a b : Int) : Nat := frMod (a + b)

/-- Addition of blindings, mod the group order. -/
def fpAdd (a b : Nat) : Nat := (a + b) % fpModulus

theorem frMod_cast (x : Int) : (frMod x : Int) = x % frModulus :=
  Int.toNat_of_nonneg (Int.emod_nonneg x (by decide))

theorem frMod_of_lt {n : Nat} (h : n < frModulus) : frMod n = n := by
  unfold frMod
  rw [Int.emod_eq_of_lt (Int.natCast_nonneg n) (Int.ofNat_lt.mpr h), Int.toNat_natCast]

/-- A mask comes off again. -/
theorem frMod_frAdd_sub (v mask : Int) : frMod (frAdd v mask - mask) = frMod v := by
  unfold frMod
  rw [frAdd, frMod_cast, Int.emod_sub_emod, Int.add_sub_cancel]

/-! ## The sponge and the curve -/

/-- The permutation of the Poseidon2 package, and a curve with its two
generators. -/
structure CtCrypto (Point : Type) [AddCommGroup Point] where
  permute : Nat × Nat × Nat × Nat → Nat × Nat × Nat × Nat
  G : Point
  H : Point
  /-- the affine x-coordinate -/
  x : Point → Nat
  order : ∀ P : Point, fpModulus • P = 0
  /-- `H` generates the group -/
  free : ∀ s t : Nat, s < fpModulus → t < fpModulus → s • H = t • H → s = t

namespace Domain

def viewingKey : Nat := 2
def spendRandomness : Nat := 4
def txBlinding : Nat := 5
def txAmount : Nat := 6
def encryptedBalance : Nat := 7
def auditorSender : Nat := 11
def auditorRecipient : Nat := 12
def ephemeralKey : Nat := 15

end Domain

section

variable {Point : Type} [AddCommGroup Point] (c : CtCrypto Point)

def absorb : Nat × Nat × Nat × Nat → List Nat → Nat × Nat × Nat × Nat
  | state, [] => state
  | (s₀, s₁, s₂, s₃), [a] => c.permute (frAdd s₀ a, s₁, s₂, s₃)
  | (s₀, s₁, s₂, s₃), [a, b] => c.permute (frAdd s₀ a, frAdd s₁ b, s₂, s₃)
  | (s₀, s₁, s₂, s₃), a :: b :: d :: rest =>
      absorb (c.permute (frAdd s₀ a, frAdd s₁ b, frAdd s₂ d, s₃)) rest

def sponge (inputs : List Nat) : Nat :=
  (absorb c (0, 0, 0, frMod (inputs.length * 2 ^ 64)) inputs).1

def poseidonWithDomain (d : Nat) (inputs : List Nat) : Nat := sponge c (d :: inputs)

def spongeSqueeze2 (d sx sigma : Nat) : Nat × Nat :=
  let state := c.permute (d, sx, sigma, frMod (3 * 2 ^ 64))
  (state.1, state.2.1)

def vkFromSk (sk addrF : Nat) : Nat := poseidonWithDomain c Domain.viewingKey [sk, addrF]

def deriveSpendR (vk sigma : Nat) : Nat := poseidonWithDomain c Domain.spendRandomness [vk, sigma]

def deriveTxBlind (s sigma : Nat) : Nat := poseidonWithDomain c Domain.txBlinding [s, sigma]

def deriveEphemeralRE (vk sigma : Nat) : Except String Nat :=
  let rE := poseidonWithDomain c Domain.ephemeralKey [vk, sigma]
  if rE = 0 then .error "derived r_e is zero — resample sigma" else .ok rE

def encryptAmount (vTx : Int) (s sigma : Nat) : Nat :=
  frAdd vTx (poseidonWithDomain c Domain.txAmount [s, sigma])

def encryptBalance (vNew : Int) (vk sigma : Nat) : Nat :=
  frAdd vNew (poseidonWithDomain c Domain.encryptedBalance [vk, sigma])

def encryptAuditorSenderBalance (vNew : Int) (sAsX sigma : Nat) : Nat :=
  frAdd vNew (poseidonWithDomain c Domain.auditorSender [sAsX, sigma])

def scalarMul (scalar : Int) (P : Point) : Point := (scalar % fpModulus).toNat • P

/-- The Pedersen commitment `v·G + r·H`. -/
def commit (value : Int) (randomness : Nat) : Point :=
  scalarMul value c.G + scalarMul randomness c.H

def ecdh [DecidableEq Point] (scalar : Nat) (P : Point) : Except String Nat :=
  let s := scalarMul scalar P
  if s = 0 then .error "ecdh produced the identity (degenerate key)" else .ok (c.x s)

structure KeyPair (Point : Type) where
  sk : Nat
  vk : Nat
  Y : Point
  PVK : Point
  addrF : Nat

def deriveKeys (sk addrF : Nat) : KeyPair Point :=
  let vk := vkFromSk c sk addrF
  ⟨sk, vk, scalarMul sk c.H, scalarMul vk c.H, addrF⟩

/-! ## Openings -/

/-- The opening of a commitment. -/
structure Opening where
  v : Int
  r : Nat
deriving DecidableEq

/-- Recover an incoming transfer's amount and blinding from its event. -/
def decryptIncoming [DecidableEq Point] (vk : Nat) (rE : Point) (vTilde sigma : Nat) :
    Except String Opening := do
  let s ← ecdh c vk rE
  let vTx := frMod (vTilde - poseidonWithDomain c Domain.txAmount [s, sigma])
  pure ⟨vTx, deriveTxBlind c s sigma⟩

/-- Recover the owner's spendable opening from an emitted `bTilde`. -/
def openSpendable (vk bTilde sigma : Nat) : Opening :=
  ⟨frMod (bTilde - poseidonWithDomain c Domain.encryptedBalance [vk, sigma]),
    deriveSpendR c vk sigma⟩

theorem openSpendable_encryptBalance (vNew : Int) (vk sigma : Nat) :
    openSpendable c vk (encryptBalance c vNew vk sigma) sigma
      = ⟨frMod vNew, deriveSpendR c vk sigma⟩ := by
  rw [openSpendable, encryptBalance, frMod_frAdd_sub]

variable {c} in
theorem x_of_ecdh [DecidableEq Point] {scalar s : Nat} {P : Point} (h : ecdh c scalar P = .ok s) :
    c.x (scalarMul scalar P) = s := by
  rw [ecdh] at h
  split at h
  · cases h
  · exact Except.ok.inj h

/-- Who reaches the secret recovers what was masked with it. -/
theorem decryptIncoming_encryptAmount [DecidableEq Point] {vk s : Nat} {rE : Point}
    (h : ecdh c vk rE = .ok s) (amount : Int) (sigma : Nat) :
    decryptIncoming c vk rE (encryptAmount c amount s sigma) sigma
      = .ok ⟨frMod amount, deriveTxBlind c s sigma⟩ := by
  rw [decryptIncoming, h, encryptAmount]
  change Except.ok (Opening.mk (frMod _) _) = _
  rw [frMod_frAdd_sub]

/-! ## The group -/

variable {c}

include c in
theorem scalarMul_eq (s : Int) (P : Point) : scalarMul s P = s • P := by
  have hnonneg : 0 ≤ s % fpModulus := Int.emod_nonneg s (by decide)
  have hcast : ((s % fpModulus).toNat : Int) • P = (s % fpModulus) • P := by
    rw [Int.toNat_of_nonneg hnonneg]
  rw [scalarMul, ← natCast_zsmul, hcast]
  conv_rhs => rw [← Int.mul_ediv_add_emod s fpModulus, add_zsmul, mul_zsmul', natCast_zsmul,
    c.order, zsmul_zero, zero_add]

theorem commit_eq (v : Int) (r : Nat) : commit c v r = v • c.G + (r : Int) • c.H := by
  rw [commit, scalarMul_eq (c := c), scalarMul_eq (c := c)]

/-- Commitments add up when blindings are added mod the group order. -/
theorem commit_add (v w : Int) (r s : Nat) :
    commit c (v + w) (fpAdd r s) = commit c v r + commit c w s := by
  have hr : ((fpAdd r s : Nat) : Int) • c.H = ((r : Int) + s) • c.H := by
    have hmod : scalarMul ((r : Int) + s) c.H = ((fpAdd r s : Nat) : Int) • c.H := by
      rw [scalarMul, fpAdd, natCast_zsmul]
      congr 1
    rw [← hmod, scalarMul_eq (c := c)]
  rw [commit_eq, commit_eq, commit_eq, hr, add_zsmul, add_zsmul]
  abel

theorem commit_zero : commit c 0 0 = 0 := by
  rw [commit_eq, zero_zsmul, Nat.cast_zero, zero_zsmul, add_zero]

include c in
theorem scalarMul_comm (a b : Int) (P : Point) :
    scalarMul a (scalarMul b P) = scalarMul b (scalarMul a P) := by
  rw [scalarMul_eq (c := c), scalarMul_eq (c := c), scalarMul_eq (c := c), scalarMul_eq (c := c),
    smul_comm]

/-- Both halves of the key agreement lead to one secret. -/
theorem ecdh_comm [DecidableEq Point] (a b : Nat) :
    ecdh c a (scalarMul b c.H) = ecdh c b (scalarMul a c.H) := by
  rw [ecdh, ecdh, scalarMul_comm (c := c)]

end

end Wallet

end PrivacyWallet
