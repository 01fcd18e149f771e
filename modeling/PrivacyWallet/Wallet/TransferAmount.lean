import PrivacyWallet.Wallet.Tracking

/-!
# The amount of a transfer, from either side

The sender shares a secret with the recipient's viewing key and masks the
amount with it. The recipient reaches the secret with the viewing key and the
ephemeral point, the sender by deriving the ephemeral scalar again; a transfer
to oneself is read as received.

Both sides come to one secret by the group law alone (the scalar of the one
times the point of the other), so each reads the amount that was masked
(`TransferBuilt.decryptIncoming`, `TransferBuilt.decryptOutgoing`). It comes
back as the number it was, as one below `2 ^ 127` is below the order of the
field (`frMod_amount`).
-/

namespace PrivacyWallet

namespace Wallet

variable {Point : Type} [AddCommGroup Point] [DecidableEq Point]

/-! ## `decryptTransferAmount` -/

structure TransferEvent (Point : Type) where
  src : String
  dst : String
  rE : Point
  vTilde : Nat
  sigma : Nat
  bTilde : Nat
  vAudR : Nat
  rAudR : Nat
  vAudS : Nat
  bAudS : Nat

def TransferEvent.body {Point : Type} (e : TransferEvent Point) : EventBody Point :=
  .transfer e.src e.dst e.rE e.vTilde e.sigma e.bTilde e.vAudR e.rAudR e.vAudS e.bAudS

/-- The event of a transfer with this witness. -/
def TransferWitness.event {Point : Type} (w : TransferWitness Point) (src dst : String) :
    TransferEvent Point where
  src := src
  dst := dst
  rE := w.payload.rE
  vTilde := w.payload.vTilde
  sigma := w.payload.sigma
  bTilde := w.payload.bTilde
  vAudR := w.payload.vAudR
  rAudR := w.payload.rAudR
  vAudS := w.payload.vAudS
  bAudS := w.payload.bAudS

def decryptWithDomain (c : CtCrypto Point) (cipher domain s sigma : Nat) : Nat :=
  frMod (cipher - poseidonWithDomain c domain [s, sigma])

/-- With the keys and the address of a wallet; `recipient` is what
`confidentialBalance(event.to)` answers. -/
def decryptTransferAmount (c : CtCrypto Point) (keys : KeyPair Point) (address : String)
    (recipient : Option (OnChainAccount Point)) (event : TransferEvent Point) :
    Except String (Option Int) :=
  if event.dst = address then do
    let received ← decryptIncoming c keys.vk event.rE event.vTilde event.sigma
    pure (some received.v)
  else if event.src = address then do
    let derived ← deriveEphemeralRE c keys.vk event.sigma
    let derivedRE := scalarMul derived c.H
    if derivedRE ≠ event.rE then pure none
    else match recipient with
      | none => pure none
      | some recipient => do
          let sBx ← ecdh c derived recipient.viewingPublicKey
          let vTx := decryptWithDomain c event.vTilde Domain.txAmount sBx event.sigma
          -- a wrong key yields garbage far outside the amount range
          if 2 ^ 127 ≤ vTx then pure none else pure (some vTx)
  else pure none

/-! ## Both sides -/

section

variable {c : CtCrypto Point} {keys : KeyPair Point} {current : Opening} {amount : Int}
  {pvkB kAudR kAudS : Point} {sigma rE sX vkB : Nat} {w : TransferWitness Point}

theorem frMod_amount (hnonneg : 0 ≤ amount) (hamount : amount < 2 ^ 127) :
    (frMod amount : Int) = amount := by
  rw [frMod_cast]
  have hlt : (2 : Int) ^ 127 < frModulus := by decide
  exact Int.emod_eq_of_lt hnonneg (hamount.trans hlt)

/-- The holder of the viewing key recovers the amount and the blinding. -/
theorem TransferBuilt.decryptIncoming
    (built : TransferBuilt c keys current amount pvkB sigma w rE sX)
    (hamount : amount < 2 ^ 127) (hpvk : pvkB = scalarMul vkB c.H) :
    decryptIncoming c vkB w.payload.rE w.payload.vTilde w.payload.sigma
      = .ok ⟨amount, w.recipientView.rTx⟩ := by
  have hshared : ecdh c vkB w.payload.rE = .ok sX := by
    rw [built.rE_eq, ecdh_comm, ← hpvk, built.shared]
  rw [built.vTilde_eq, built.sigma_eq, built.rTx_eq, decryptIncoming_encryptAmount c hshared,
    frMod_amount built.nonneg hamount]

/-- The sender recovers the amount with the recipient's public key. -/
theorem TransferBuilt.decryptOutgoing
    (built : TransferBuilt c keys current amount pvkB sigma w rE sX)
    (hamount : amount < 2 ^ 127) {src dst : String} (hdst : dst ≠ src)
    {recipient : OnChainAccount Point} (hkey : recipient.viewingPublicKey = pvkB) :
    decryptTransferAmount c keys src (some recipient) (w.event src dst)
      = .ok (some amount) := by
  have hmask := frMod_frAdd_sub amount (poseidonWithDomain c Domain.txAmount [sX, sigma])
  have hval := frMod_amount built.nonneg hamount
  have hsmall : ¬2 ^ 127 ≤ frMod amount := by omega
  simp only [decryptTransferAmount, TransferWitness.event, if_neg hdst, if_true, built.sigma_eq,
    built.ephemeral, built.rE_eq, built.vTilde_eq]
  change (if (scalarMul (rE : Int) c.H) ≠ scalarMul rE c.H then _ else _) = _
  rw [if_neg (not_not.mpr rfl)]
  rw [hkey, built.shared]
  change (if 2 ^ 127 ≤ decryptWithDomain c _ _ _ _ then _ else _) = _
  rw [decryptWithDomain, encryptAmount, hmask, if_neg hsmall, hval]
  rfl

end

/-- Sender and recipient read the same amount. Whatever keys, salt and amount
below `2 ^ 127` a transfer is built with, its event gives that amount to the
sender, who looks up the recipient's registered key, and to the recipient; and
the recipient's engine adds the amount and the blinding of the witness to its
receiving opening.

`buildTransferWitness_built` says what was built. Either side comes to the
shared secret, by its own key (`TransferBuilt.decryptIncoming`) or by the
scalar it derives again (`TransferBuilt.decryptOutgoing`), and unmasks with it. -/
theorem transfer_amount_read_by_both (c : CtCrypto Point) (keys : KeyPair Point)
    (current : Opening) (amount : Int) (pvkB kAudR kAudS : Point) (sigma : Nat)
    (w : TransferWitness Point) (vkB : Nat) (src dst : String) (recipient : OnChainAccount Point)
    (hbuild : buildTransferWitness c keys current amount pvkB kAudR kAudS sigma = .ok w)
    (hamount : amount < 2 ^ 127) (hpvk : pvkB = scalarMul vkB c.H)
    (hself : dst = src → vkB = keys.vk) (hkey : recipient.viewingPublicKey = pvkB) :
    decryptTransferAmount c keys src (some recipient) (w.event src dst) = .ok (some amount) ∧
    (∀ (keysB : KeyPair Point) (answer : Option (OnChainAccount Point)), keysB.vk = vkB →
      decryptTransferAmount c keysB dst answer (w.event src dst) = .ok (some amount)) ∧
    ∀ (rail : CtRail Point) (state : AccountState) (ledger : Nat) (txHash id : String),
      rail.crypto = c → rail.keys.vk = vkB → state.address = dst →
      ∃ state', applyEvent rail state ⟨ledger, txHash, id, (w.event src dst).body⟩ = .ok state' ∧
        state'.receiving
          = ⟨state.receiving.v + amount, fpAdd state.receiving.r w.recipientView.rTx⟩ ∧
        (src ≠ dst → state'.spendable = state.spendable) := by
  obtain ⟨rE, sX, built⟩ := buildTransferWitness_built hbuild
  have hincoming := built.decryptIncoming hamount hpvk
  have hreceived : ∀ (keysB : KeyPair Point) (answer : Option (OnChainAccount Point)),
      keysB.vk = vkB →
      decryptTransferAmount c keysB dst answer (w.event src dst) = .ok (some amount) := by
    intro keysB answer hvk
    simp only [decryptTransferAmount, TransferWitness.event, if_true, hvk, hincoming]
    rfl
  refine ⟨?_, hreceived, fun rail state ledger txHash id hcrypto hvk haddress => ?_⟩
  · by_cases hdst : dst = src
    · have hown := hreceived keys (some recipient) (hself hdst).symm
      rwa [hdst] at hown ⊢
    · exact built.decryptOutgoing hamount hdst hkey
  · subst haddress
    subst hcrypto
    by_cases hsrc : src = state.address
    · simp only [applyEvent, applyBody, TransferEvent.body, TransferWitness.event, if_pos hsrc,
        if_true, hvk, hincoming]
      exact ⟨_, rfl, rfl, fun hne => absurd hsrc hne⟩
    · simp only [applyEvent, applyBody, TransferEvent.body, TransferWitness.event, if_neg hsrc,
        if_true, hvk, hincoming]
      exact ⟨_, rfl, rfl, fun _ => rfl⟩

/-- What the chain shows of the holder of the viewing key 7. -/
def payee : OnChainAccount (ZMod fpModulus) where
  spendingKey := 1
  viewingPublicKey := scalarMul (7 : Nat) smallCrypto.H
  spendableBalance := 0
  receivingBalance := 0
  auditorId := 0

theorem transfer_amount_read_by_both_four :
    ∃ w, buildTransferWitness smallCrypto holderKeys ⟨10, 0⟩ 4 payee.viewingPublicKey 17 19 23
        = .ok w ∧
      decryptTransferAmount smallCrypto holderKeys holder (some payee) (w.event holder "payee")
        = .ok (some 4) ∧
      decryptTransferAmount smallCrypto { holderKeys with vk := 7 } "payee" none
        (w.event holder "payee") = .ok (some 4) := by
  have hbuilt : (buildTransferWitness smallCrypto holderKeys ⟨10, 0⟩ 4 payee.viewingPublicKey
      17 19 23).toBool := by decide +kernel
  cases hw : buildTransferWitness smallCrypto holderKeys ⟨10, 0⟩ 4 payee.viewingPublicKey
      17 19 23 with
  | error message =>
      rw [hw] at hbuilt
      cases hbuilt
  | ok w =>
      obtain ⟨hsender, hrecipient, -⟩ := transfer_amount_read_by_both smallCrypto holderKeys
        ⟨10, 0⟩ 4 payee.viewingPublicKey 17 19 23 w 7 holder "payee" payee hw (by decide) rfl
        (fun h => absurd h (by decide)) rfl
      exact ⟨w, rfl, hsender, hrecipient { holderKeys with vk := 7 } none rfl⟩

end Wallet

end PrivacyWallet
