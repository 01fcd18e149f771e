import PrivacyWallet.Wallet.CtCrypto

/-!
# The withdraw and transfer circuits

What the two circuits assert of their inputs, and the witnesses that the
client builds. A prover proves no inputs but satisfied ones, and the contract
takes the public ones from its own state and from the payload; so an event
opens, for its owner and for its recipient, to what the contract's commitments
hold (`WithdrawInputs.opens`, `TransferInputs.opens`,
`TransferInputs.decrypts`).
-/

namespace PrivacyWallet

namespace Wallet

open Indexer

variable {Point : Type} [AddCommGroup Point] [DecidableEq Point]

/-! ## The circuits -/

/-- The arguments of `main` in the withdraw circuit, field elements and
points. -/
structure WithdrawInputs (Point : Type) where
  sk : Nat
  v : Nat
  r : Nat
  rE : Nat
  cSpend : Point
  y : Point
  addrF : Nat
  kAudS : Point
  a : Nat
  cSpendNew : Point
  sigma : Nat
  bTilde : Nat
  rEPoint : Point
  bAudS : Nat

/-- `assert_max_bit_size::<127>` -/
def maxBits127 (n : Nat) : Bool := decide (n < 2 ^ 127)

def WithdrawInputs.main (c : CtCrypto Point) (i : WithdrawInputs Point) : Bool :=
  let vk := vkFromSk c i.sk i.addrF
  let vNew := frMod (i.v - i.a)
  decide (i.sk < frModulus) && decide (i.rE < frModulus) -- they are `Field`s
    && decide (i.rE ≠ 0)
    && decide (scalarMul i.sk c.H = i.y)
    && decide (commit c i.v i.r = i.cSpend)
    && maxBits127 i.v && maxBits127 i.a && maxBits127 vNew
    && decide (commit c vNew (deriveSpendR c vk i.sigma) = i.cSpendNew)
    && decide (encryptBalance c vNew vk i.sigma = i.bTilde)
    && decide (scalarMul i.rE c.H = i.rEPoint)
    && decide (i.kAudS ≠ 0)
    && decide (encryptAuditorSenderBalance c vNew (c.x (scalarMul i.rE i.kAudS)) i.sigma = i.bAudS)

/-- The arguments of `main` in the transfer circuit. -/
structure TransferInputs (Point : Type) where
  sk : Nat
  v : Nat
  r : Nat
  vTx : Nat
  rE : Nat
  cSpend : Point
  y : Point
  pvkB : Point
  addrF : Nat
  kAudR : Point
  kAudS : Point
  cSpendNew : Point
  cTx : Point
  rEPoint : Point
  vTilde : Nat
  bTilde : Nat
  sigma : Nat
  vAudR : Nat
  rAudR : Nat
  vAudS : Nat
  bAudS : Nat

def TransferInputs.main (c : CtCrypto Point) (i : TransferInputs Point) : Bool :=
  let vk := vkFromSk c i.sk i.addrF
  let vNew := frMod (i.v - i.vTx)
  let sX := c.x (scalarMul i.rE i.pvkB)
  let rTx := deriveTxBlind c sX i.sigma
  let mR := spongeSqueeze2 c Domain.auditorRecipient (c.x (scalarMul i.rE i.kAudR)) i.sigma
  let mS := spongeSqueeze2 c Domain.auditorSender (c.x (scalarMul i.rE i.kAudS)) i.sigma
  decide (i.sk < frModulus) && decide (i.rE < frModulus) -- they are `Field`s
    && decide (i.rE ≠ 0)
    && decide (scalarMul i.sk c.H = i.y)
    && decide (commit c i.v i.r = i.cSpend)
    && maxBits127 i.v && maxBits127 i.vTx && maxBits127 vNew
    && decide (scalarMul i.rE c.H = i.rEPoint)
    && decide (commit c i.vTx rTx = i.cTx)
    && decide (encryptAmount c i.vTx sX i.sigma = i.vTilde)
    && decide (commit c vNew (deriveSpendR c vk i.sigma) = i.cSpendNew)
    && decide (encryptBalance c vNew vk i.sigma = i.bTilde)
    && decide (i.kAudR ≠ 0) && decide (i.kAudS ≠ 0)
    && decide (frAdd i.vTx mR.1 = i.vAudR) && decide (frAdd rTx mR.2 = i.rAudR)
    && decide (frAdd i.vTx mS.1 = i.vAudS) && decide (frAdd vNew mS.2 = i.bAudS)

/-! ## The witnesses -/

/-- What the contract is given beside the proof. -/
structure WithdrawPayload (Point : Type) where
  cSpendNew : Point
  bTilde : Nat
  rE : Point
  sigma : Nat
  bAudS : Nat

structure TransferPayload (Point : Type) where
  cSpendNew : Point
  cTx : Point
  rE : Point
  vTilde : Nat
  bTilde : Nat
  sigma : Nat
  vAudR : Nat
  rAudR : Nat
  vAudS : Nat
  bAudS : Nat

structure WithdrawWitness (Point : Type) where
  inputs : WithdrawInputs Point
  payload : WithdrawPayload Point
  next : Opening

/-- What the recipient is to recover from the event. -/
structure RecipientView (Point : Type) where
  vTx : Int
  rTx : Nat
  cTx : Point

structure TransferWitness (Point : Type) where
  inputs : TransferInputs Point
  payload : TransferPayload Point
  next : Opening
  recipientView : RecipientView Point
  rEScalar : Nat

def fieldIn (x : Int) : Nat := frMod x

/-- With a fresh salt and ephemeral scalar. -/
def buildWithdrawWitness (c : CtCrypto Point) (keys : KeyPair Point) (current : Opening)
    (amount : Int) (kAudS : Point) (sigma rE : Nat) : Except String (WithdrawWitness Point) := do
  if amount < 0 then throw "withdraw amount must be non-negative"
  let vNew := current.v - amount
  if vNew < 0 then throw "withdraw amount exceeds spendable balance"
  let cSpend := commit c current.v current.r
  let rNew := deriveSpendR c keys.vk sigma
  let cSpendNew := commit c vNew rNew
  let bTilde := encryptBalance c vNew keys.vk sigma
  let rePoint := scalarMul rE c.H
  let sAsX ← ecdh c rE kAudS
  let bAudS := encryptAuditorSenderBalance c vNew sAsX sigma
  pure
    { inputs :=
        { sk := fieldIn keys.sk, v := fieldIn current.v, r := fieldIn current.r, rE := fieldIn rE,
          cSpend := cSpend, y := keys.Y, addrF := fieldIn keys.addrF, kAudS := kAudS,
          a := fieldIn amount, cSpendNew := cSpendNew, sigma := fieldIn sigma,
          bTilde := fieldIn bTilde, rEPoint := rePoint, bAudS := fieldIn bAudS }
      payload := ⟨cSpendNew, bTilde, rePoint, sigma, bAudS⟩
      next := ⟨vNew, rNew⟩ }

/-- With a fresh salt. -/
def buildTransferWitness (c : CtCrypto Point) (keys : KeyPair Point) (current : Opening)
    (amount : Int) (pvkB kAudR kAudS : Point) (sigma : Nat) :
    Except String (TransferWitness Point) := do
  if amount < 0 then throw "transfer amount must be non-negative"
  let vNew := current.v - amount
  if vNew < 0 then throw "transfer amount exceeds spendable balance"
  let rE ← deriveEphemeralRE c keys.vk sigma
  let cSpend := commit c current.v current.r
  let rNew := deriveSpendR c keys.vk sigma
  let cSpendNew := commit c vNew rNew
  let bTilde := encryptBalance c vNew keys.vk sigma
  let rePoint := scalarMul rE c.H
  let sX ← ecdh c rE pvkB
  let rTx := deriveTxBlind c sX sigma
  let cTx := commit c amount rTx
  let vTilde := encryptAmount c amount sX sigma
  let sArX ← ecdh c rE kAudR
  let mR := spongeSqueeze2 c Domain.auditorRecipient sArX sigma
  let vAudR := frAdd amount mR.1
  let rAudR := frAdd rTx mR.2
  let sAsX ← ecdh c rE kAudS
  let mS := spongeSqueeze2 c Domain.auditorSender sAsX sigma
  let vAudS := frAdd amount mS.1
  let bAudS := frAdd vNew mS.2
  pure
    { inputs :=
        { sk := fieldIn keys.sk, v := fieldIn current.v, r := fieldIn current.r,
          vTx := fieldIn amount, rE := fieldIn rE, cSpend := cSpend, y := keys.Y, pvkB := pvkB,
          addrF := fieldIn keys.addrF, kAudR := kAudR, kAudS := kAudS, cSpendNew := cSpendNew,
          cTx := cTx, rEPoint := rePoint, vTilde := fieldIn vTilde, bTilde := fieldIn bTilde,
          sigma := fieldIn sigma, vAudR := fieldIn vAudR, rAudR := fieldIn rAudR,
          vAudS := fieldIn vAudS, bAudS := fieldIn bAudS }
      payload := ⟨cSpendNew, cTx, rePoint, vTilde, bTilde, sigma, vAudR, rAudR, vAudS, bAudS⟩
      next := ⟨vNew, rNew⟩
      recipientView := ⟨amount, rTx, cTx⟩
      rEScalar := rE }

/-! ## What an event opens to -/

variable {c : CtCrypto Point}

theorem frModulus_lt_fpModulus : frModulus < fpModulus := by decide

omit [DecidableEq Point] in
/-- One public key has one secret. -/
theorem sk_unique {s t : Nat} (hs : s < frModulus) (ht : t < frModulus)
    (h : scalarMul (s : Int) c.H = scalarMul (t : Int) c.H) : s = t := by
  rw [scalarMul_eq (c := c), scalarMul_eq (c := c), natCast_zsmul, natCast_zsmul] at h
  exact c.free s t (hs.trans frModulus_lt_fpModulus) (ht.trans frModulus_lt_fpModulus) h

theorem lt_frModulus_of_maxBits127 {n : Nat} (h : maxBits127 n = true) : n < frModulus :=
  (of_decide_eq_true h).trans (by decide)

omit [DecidableEq Point] in
/-- Whoever proves ownership of the account's key emits the new balance under
the account's viewing key. -/
theorem openSpendable_opens {sk sk' addrF vNew sigma bTilde : Nat} {cSpendNew : Point}
    (hsk : sk < frModulus) (hsk' : sk' < frModulus)
    (hown : scalarMul sk' c.H = (deriveKeys c sk addrF).Y) (hbits : maxBits127 vNew = true)
    (hnew : commit c vNew (deriveSpendR c (vkFromSk c sk' addrF) sigma) = cSpendNew)
    (hbalance : encryptBalance c vNew (vkFromSk c sk' addrF) sigma = bTilde) :
    commit c (openSpendable c (deriveKeys c sk addrF).vk bTilde sigma).v
      (openSpendable c (deriveKeys c sk addrF).vk bTilde sigma).r = cSpendNew := by
  have hsame : sk' = sk := sk_unique hsk' hsk hown
  subst hsame
  rw [← hbalance, ← hnew]
  rw [show (deriveKeys c sk' addrF).vk = vkFromSk c sk' addrF from rfl,
    openSpendable_encryptBalance, frMod_of_lt (lt_frModulus_of_maxBits127 hbits)]

/-- The owner's opening of what a withdrawal emits opens the new commitment. -/
theorem WithdrawInputs.opens {i : WithdrawInputs Point} (h : i.main c = true) {sk addrF : Nat}
    (hsk : sk < frModulus) (hy : i.y = (deriveKeys c sk addrF).Y) (haddr : i.addrF = addrF) :
    commit c (openSpendable c (deriveKeys c sk addrF).vk i.bTilde i.sigma).v
      (openSpendable c (deriveKeys c sk addrF).vk i.bTilde i.sigma).r = i.cSpendNew := by
  simp only [WithdrawInputs.main, Bool.and_eq_true, decide_eq_true_eq] at h
  obtain ⟨⟨⟨⟨⟨⟨⟨⟨⟨⟨⟨⟨hfield, -⟩, -⟩, hown⟩, -⟩, -⟩, -⟩, hbits⟩, hnew⟩, hbalance⟩, -⟩, -⟩, -⟩ := h
  subst haddr
  exact openSpendable_opens hsk hfield (hown.trans hy) hbits hnew hbalance

/-- The same for a transfer, on the sender's side. -/
theorem TransferInputs.opens {i : TransferInputs Point} (h : i.main c = true) {sk addrF : Nat}
    (hsk : sk < frModulus) (hy : i.y = (deriveKeys c sk addrF).Y) (haddr : i.addrF = addrF) :
    commit c (openSpendable c (deriveKeys c sk addrF).vk i.bTilde i.sigma).v
      (openSpendable c (deriveKeys c sk addrF).vk i.bTilde i.sigma).r = i.cSpendNew := by
  simp only [TransferInputs.main, Bool.and_eq_true, decide_eq_true_eq] at h
  obtain ⟨⟨⟨⟨⟨⟨⟨⟨⟨⟨⟨⟨⟨⟨⟨⟨⟨⟨hfield, -⟩, -⟩, hown⟩, -⟩, -⟩, -⟩, hbits⟩, -⟩, -⟩, -⟩, hnew⟩, hbalance⟩,
    -⟩, -⟩, -⟩, -⟩, -⟩, -⟩ := h
  subst haddr
  exact openSpendable_opens hsk hfield (hown.trans hy) hbits hnew hbalance

/-- What the recipient decrypts opens the commitment of the transfer. -/
theorem TransferInputs.decrypts {i : TransferInputs Point} (h : i.main c = true) {sk addrF : Nat}
    (hpvk : i.pvkB = (deriveKeys c sk addrF).PVK) {received : Opening}
    (hdecrypt : decryptIncoming c (deriveKeys c sk addrF).vk i.rEPoint i.vTilde i.sigma
      = .ok received) :
    commit c received.v received.r = i.cTx := by
  simp only [TransferInputs.main, Bool.and_eq_true, decide_eq_true_eq] at h
  obtain ⟨⟨⟨⟨⟨⟨⟨⟨⟨⟨⟨⟨⟨⟨⟨⟨⟨⟨-, -⟩, -⟩, -⟩, -⟩, -⟩, hbits⟩, -⟩, hre⟩, htx⟩, hamount⟩, -⟩, -⟩, -⟩,
    -⟩, -⟩, -⟩, -⟩, -⟩ := h
  -- both sides reach the shared secret
  have hcomm : ecdh c (deriveKeys c sk addrF).vk i.rEPoint = ecdh c i.rE i.pvkB := by
    rw [← hre, hpvk]
    exact ecdh_comm _ _
  cases hshared : ecdh c i.rE i.pvkB with
  | error message =>
      rw [decryptIncoming, hcomm, hshared] at hdecrypt
      cases hdecrypt
  | ok s =>
      rw [← hamount, x_of_ecdh hshared,
        decryptIncoming_encryptAmount c (hcomm.trans hshared)] at hdecrypt
      cases hdecrypt
      rw [← htx, x_of_ecdh hshared, frMod_of_lt (lt_frModulus_of_maxBits127 hbits)]

/-- What a withdrawal's event will open to is the next opening. -/
theorem buildWithdrawWitness_opens {keys : KeyPair Point} {current : Opening} {amount : Int}
    {kAudS : Point} {sigma rE : Nat} {witness : WithdrawWitness Point}
    (h : buildWithdrawWitness c keys current amount kAudS sigma rE = .ok witness) :
    openSpendable c keys.vk witness.payload.bTilde witness.payload.sigma
      = ⟨frMod witness.next.v, witness.next.r⟩ := by
  rw [buildWithdrawWitness] at h
  split at h
  · cases h
  · dsimp only at h
    split at h
    · cases h
    · obtain ⟨sAsX, -, h⟩ := Checks.bind_ok.mp h
      cases h
      exact openSpendable_encryptBalance c _ _ _

/-- What a transfer's witness is made of. -/
structure TransferBuilt (c : CtCrypto Point) (keys : KeyPair Point) (current : Opening)
    (amount : Int) (pvkB : Point) (sigma : Nat) (witness : TransferWitness Point) (rE sX : Nat) :
    Prop where
  nonneg : 0 ≤ amount
  ephemeral : deriveEphemeralRE c keys.vk sigma = .ok rE
  shared : ecdh c rE pvkB = .ok sX
  sigma_eq : witness.payload.sigma = sigma
  rE_eq : witness.payload.rE = scalarMul rE c.H
  vTilde_eq : witness.payload.vTilde = encryptAmount c amount sX sigma
  bTilde_eq : witness.payload.bTilde = encryptBalance c (current.v - amount) keys.vk sigma
  next_eq : witness.next = ⟨current.v - amount, deriveSpendR c keys.vk sigma⟩
  rTx_eq : witness.recipientView.rTx = deriveTxBlind c sX sigma

theorem buildTransferWitness_built {keys : KeyPair Point} {current : Opening} {amount : Int}
    {pvkB kAudR kAudS : Point} {sigma : Nat} {witness : TransferWitness Point}
    (h : buildTransferWitness c keys current amount pvkB kAudR kAudS sigma = .ok witness) :
    ∃ rE sX, TransferBuilt c keys current amount pvkB sigma witness rE sX := by
  rw [buildTransferWitness] at h
  split at h
  · cases h
  next hnonneg =>
    dsimp only at h
    split at h
    · cases h
    · obtain ⟨rE, hrE, h⟩ := Checks.bind_ok.mp h
      obtain ⟨sX, hsX, h⟩ := Checks.bind_ok.mp h
      obtain ⟨sArX, -, h⟩ := Checks.bind_ok.mp h
      obtain ⟨sAsX, -, h⟩ := Checks.bind_ok.mp h
      cases h
      exact ⟨rE, sX, not_lt.mp hnonneg, hrE, hsX, rfl, rfl, rfl, rfl, rfl, rfl⟩

theorem buildTransferWitness_opens {keys : KeyPair Point} {current : Opening} {amount : Int}
    {pvkB kAudR kAudS : Point} {sigma : Nat} {witness : TransferWitness Point}
    (h : buildTransferWitness c keys current amount pvkB kAudR kAudS sigma = .ok witness) :
    openSpendable c keys.vk witness.payload.bTilde witness.payload.sigma
      = ⟨frMod witness.next.v, witness.next.r⟩ := by
  obtain ⟨rE, sX, built⟩ := buildTransferWitness_built h
  rw [built.bTilde_eq, built.sigma_eq, built.next_eq]
  exact openSpendable_encryptBalance c _ _ _

end Wallet

end PrivacyWallet
