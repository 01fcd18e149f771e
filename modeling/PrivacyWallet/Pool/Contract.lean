import PrivacyWallet.Pool.State

/-!
# The pool contract

The functions of the pool contract, in the order of the source where the
definitions allow it. Each takes the `Host` it runs in; functions that
check a signature also take `auth`, the addresses that have authorized the
invocation. A failed non-`try_` call and an overflow are traps.
-/

namespace PrivacyWallet

namespace Pool

open InvokeM

variable {A L X : Type}

/-- A function of the pool. -/
abbrev PoolM (A L X : Type) : Type → Type := InvokeM (World A L X) Error

/-! ## The host interface -/

/-- `storage.get(key).ok_or(NotInitialized)` -/
def load {β : Type} (field : Storage A → Option β) : PoolM A L X β := do
  let w ← read
  okOr (field w.storage) .notInitialized

def store (f : Storage A → Storage A) : PoolM A L X Unit :=
  update fun w => w.store f

def publish (e : Event) : PoolM A L X Unit :=
  update fun w => { w with events := w.events ++ [e] }

/-- A tree function, run on the tree's entries of the storage. -/
def onMerkle {β : Type} (m : Merkle.MerkleM U256 β) : PoolM A L X β :=
  zoom (fun w => w.storage.merkle)
    (fun t w => w.store fun s => { s with merkle := t }) Error.ofMerkle m

/-- A call of another contract that only reads; its failure is a trap. -/
def callView {β : Type} (view : L × X → Outcome β) : PoolM A L X β := do
  let w ← read
  match view w.outside with
  | .value b => pure b
  | .error => trap
  | .trap => trap

variable [DecidableEq A]

/-- `address.require_auth()`. The pool itself has no `__check_auth`, so its
own address never authorizes a call from outside. -/
def requireAuth (h : Host A L X) (auth : List A) (a : A) : PoolM A L X Unit :=
  if a ∈ auth ∧ a ≠ h.this then pure () else trap

/-- `token_client.balance(id)` -/
def tokenBalance (h : Host A L X) (token id : A) : PoolM A L X I128 := do
  let w ← read
  pure (h.token.balance token id w.ledger)

/-- `token_client.transfer(from, to, amount)` -/
def tokenTransfer (h : Host A L X) (t : Transfer A) : PoolM A L X Unit := do
  let w ← read
  match h.token.transfer t w.ledger with
  | some l => update fun w => w.moved (.transfer t) (l, w.others)
  | none => trap

/-- A `try_` call of a vault function that may move tokens, under the
pool's authorizations `granted`. A failed call has no effect. -/
def tryVault {β : Type} (h : Host A L X) (granted : List (Transfer A))
    (call : L × X → Outcome (X × List (Transfer A) × β)) :
    PoolM A L X (Option β) := do
  let w ← read
  match call w.outside with
  | .value (x, transfers, b) => do
      update fun w =>
        w.moved .vault (h.token.runTransfers h.this granted transfers w.ledger, x)
      pure (some b)
  | .error => pure none
  | .trap => pure none

/-! ## Storage getters -/

def getToken : PoolM A L X A := load (·.token)

def getMaximumDeposit : PoolM A L X U256 := load (·.maximumDepositAmount)

def getVerifier : PoolM A L X A := load (·.verifier)

def getAdmin : PoolM A L X A := load (·.admin)

def loadPolicyFlags : PoolM A L X UInt32 := load (·.policyFlags)

def getPolicyFlags : PoolM A L X UInt32 := loadPolicyFlags

def getVault : PoolM A L X A := load (·.vault)

def getAspMembership : PoolM A L X A := load (·.aspMembership)

def getAspNonMembership : PoolM A L X A := load (·.aspNonMembership)

def getRoot : PoolM A L X U256 := onMerkle Merkle.getLastRoot

def isKnownRoot (root : U256) : PoolM A L X Bool := onMerkle (Merkle.isKnownRoot root)

def isSpent (n : U256) : PoolM A L X Bool := do
  let w ← read
  pure (w.storage.nullifier n)

def getInvestParams : PoolM A L X (I128 × I128) := do
  let threshold ← load (·.investThreshold)
  let buffer ← load (·.liquidityBuffer)
  pure (threshold, buffer)

def getLiabilities : PoolM A L X I128 := do
  let w ← read
  pure (w.storage.totalLiabilities.getD 0)

def getAspMembershipRoot (h : Host A L X) : PoolM A L X U256 := do
  let asp ← getAspMembership
  callView (h.aspGetRoot asp)

def getAspNonMembershipRoot (h : Host A L X) : PoolM A L X U256 := do
  let asp ← getAspNonMembership
  callView (h.aspGetRoot asp)

/-! ## Construction -/

/-- `invest_threshold <= 0 || liquidity_buffer < 0 || liquidity_buffer >=
invest_threshold` -/
def investParamsInvalid (threshold buffer : I128) : Prop :=
  threshold ≤ 0 ∨ buffer < 0 ∨ threshold ≤ buffer

instance (threshold buffer : I128) : Decidable (investParamsInvalid threshold buffer) :=
  inferInstanceAs (Decidable (_ ∨ _ ∨ _))

/-- The arguments of `__constructor`. -/
structure Config (A : Type) where
  admin : A
  token : A
  verifier : A
  aspMembership : A
  aspNonMembership : A
  maximumDepositAmount : U256
  levels : Nat
  policyFlags : UInt32
  vault : A
  investThreshold : I128
  liquidityBuffer : I128

/-- `__constructor` -/
def constructor (h : Host A L X) (c : Config A) : PoolM A L X Unit := do
  rejectIf (Policy.isValid c.policyFlags = false) .invalidPolicyFlags
  store fun s => { s with
    admin := some c.admin
    token := some c.token
    verifier := some c.verifier
    aspMembership := some c.aspMembership
    aspNonMembership := some c.aspNonMembership
    maximumDepositAmount := some c.maximumDepositAmount
    policyFlags := some c.policyFlags }
  rejectIf (investParamsInvalid c.investThreshold c.liquidityBuffer)
    .invalidInvestParams
  store fun s => { s with
    vault := some c.vault
    investThreshold := some c.investThreshold
    liquidityBuffer := some c.liquidityBuffer
    totalLiabilities := some 0 }
  onMerkle (Merkle.init h.getZeroes c.levels)

/-! ## Amounts -/

/-- `max_ext_amount`: 2^248 -/
def maxExtAmount : U256 := U256.fromParts 0x0100000000000000 0 0 0

/-- `i256_to_i128_nonneg` -/
def i256ToI128Nonneg (v : I256) : PoolM A L X I128 := do
  rejectIf (v < 0) .wrongExtAmount
  okOr v.toI128 .wrongExtAmount

/-- `I256::from_i32(0).sub(v)` -/
def negI256 (v : I256) : PoolM A L X I256 := orTrap (Signed.checkedSub 0 v)

/-- `i256_abs_to_u256` -/
def i256AbsToU256 (v : I256) : PoolM A L X U256 := do
  let abs ← (if 0 ≤ v then pure v else negI256 v : PoolM A L X I256)
  pure abs.toU256

/-- `calculate_public_amount` -/
def calculatePublicAmount (extAmount : I256) : PoolM A L X U256 := do
  let absExt ← i256AbsToU256 extAmount
  rejectIf (maxExtAmount ≤ absExt) .wrongExtAmount
  if 0 ≤ extAmount then pure extAmount.toU256
  else do
    let neg ← negI256 extAmount
    orTrap (U256.checkedSub bn256Modulus neg.toU256)

/-! ## Proof verification -/

/-- `hash_ext_data` -/
def hashExtData (h : Host A L X) (extData : ExtData A) : U256 := (h.keccakXdr extData).reduce

/-- `mark_spent` -/
def markSpent (n : U256) : PoolM A L X Unit :=
  store fun s => { s with nullifier := Function.update s.nullifier n true }

/-- `validate_bn256_public_input` -/
def validateBn256PublicInput (value : U256) : PoolM A L X Unit :=
  rejectIf (bn256Modulus ≤ value) .nonCanonicalPublicInput

/-- `validate_bn256_public_inputs` -/
def validateBn256PublicInputs (proof : Proof) (policyFlags : UInt32) :
    PoolM A L X Unit := do
  validateBn256PublicInput proof.root
  validateBn256PublicInput proof.publicAmount
  forEach validateBn256PublicInput proof.inputNullifiers
  validateBn256PublicInput proof.outputCommitment0
  validateBn256PublicInput proof.outputCommitment1
  when (Policy.requiresMembershipProofs policyFlags = true)
    (validateBn256PublicInput proof.aspMembershipRoot)
  when (Policy.requiresNonMembershipProofs policyFlags = true)
    (validateBn256PublicInput proof.aspNonMembershipRoot)

/-- The vector `verify_proof` hands to the verifier: `[root, public_amount,
ext_data_hash, input_nullifiers, output_commitments, membership_roots?,
non_membership_roots?]`. -/
def publicInputs (proof : Proof) (policyFlags : UInt32) : List Bn254Fr :=
  [.fromBytes proof.root, .fromBytes proof.publicAmount, .fromBytes proof.extDataHash]
    ++ proof.inputNullifiers.map .fromBytes
    ++ [.fromBytes proof.outputCommitment0, .fromBytes proof.outputCommitment1]
    ++ (if Policy.requiresMembershipProofs policyFlags = true then
          List.replicate proof.inputNullifiers.length (.fromBytes proof.aspMembershipRoot)
        else [])
    ++ (if Policy.requiresNonMembershipProofs policyFlags = true then
          List.replicate proof.inputNullifiers.length
            (.fromBytes proof.aspNonMembershipRoot)
        else [])

/-- `verify_proof` -/
def verifyProof (h : Host A L X) (proof : Proof) : PoolM A L X Bool := do
  rejectIf (proof.proof.isEmpty = true) .invalidProof
  let policyFlags ← loadPolicyFlags
  let verifier ← getVerifier
  validateBn256PublicInputs proof policyFlags
  callView (h.verify verifier proof.proof (publicInputs proof policyFlags))

/-! ## Liabilities -/

def addLiabilities (amount : I128) : PoolM A L X Unit := do
  let cur ← getLiabilities
  let next ← okOr (Signed.checkedAdd cur amount) .overflow
  store fun s => { s with totalLiabilities := some next }

def subLiabilities (amount : I128) : PoolM A L X Unit := do
  let cur ← getLiabilities
  let next ← orTrap (Signed.checkedSub cur amount)
  store fun s => { s with totalLiabilities := some (max next 0) }

/-! ## Moving value in and out of the vault -/

/-- `SHARE_PROBE` -/
def shareProbe : I128 := ⟨10000000, by norm_num, by norm_num⟩

/-- The end of `ensure_idle`: divest `sharesNeeded` shares for at least
`deficit`, and check that the payout is covered. -/
def divest (h : Host A L X) (token vault : A) (required deficit sharesNeeded : I128) :
    PoolM A L X Unit := do
  let out ← tryVault h [] (h.vault.withdraw vault sharesNeeded [deficit] h.this)
  let answer ← okOr out .vaultDivestFailed
  let _ ← okOr answer .vaultDivestFailed
  let idle ← tokenBalance h token h.this
  rejectIf (idle < required) .vaultDivestFailed

/-- `ensure_idle` -/
def ensureIdle (h : Host A L X) (required : I128) : PoolM A L X Unit := do
  let token ← getToken
  let idle ← tokenBalance h token h.this
  if required ≤ idle then pure ()
  else do
    let vault ← getVault
    let (_, buffer) ← getInvestParams
    let shares ← callView (h.vault.balance vault h.this)
    rejectIf (shares ≤ 0) .vaultDivestFailed
    let quote ← callView (h.vault.getAssetAmountsPerShares vault shareProbe)
    let perProbe ← okOr quote[0]? .vaultDivestFailed
    rejectIf (perProbe ≤ 0) .vaultDivestFailed
    let deficit ← orTrap (Signed.checkedSub required idle)
    let desired ← okOr (Signed.checkedAdd deficit buffer) .overflow
    let numerator ← okOr (Signed.checkedMul desired shareProbe) .overflow
    let sharesNeeded := Signed.ofU128 (divCeil numerator.asU128 perProbe.asU128)
    let sharesNeeded := if shares < sharesNeeded then shares else sharesNeeded
    divest h token vault required deficit sharesNeeded

/-- `authorize_vault_pull`: the one transfer the vault may make on the
pool's behalf. -/
def authorizeVaultPull (h : Host A L X) (token vault : A) (amount : I128) :
    List (Transfer A) :=
  [⟨token, h.this, vault, amount⟩]

/-- The end of `maybe_invest`: offer `amount` to the vault and ignore how
the call ends. -/
def invest (h : Host A L X) (token vault : A) (amount : I128) : PoolM A L X Unit := do
  let _ ← tryVault h (authorizeVaultPull h token vault amount)
    (h.vault.deposit vault [amount] [amount] h.this true)
  pure ()

/-- `maybe_invest`, once its four entries are loaded. -/
def investIdle (h : Host A L X) (token vault : A) (threshold buffer : I128) :
    PoolM A L X Unit := do
  let idle ← tokenBalance h token h.this
  if idle < threshold then pure ()
  else do
    let amount ← orTrap (Signed.checkedSub idle buffer)
    if amount ≤ 0 then pure () else invest h token vault amount

/-- The token, the vault and the invest parameters, if all are stored. -/
def Storage.investSetup (s : Storage A) : Option (A × A × I128 × I128) := do
  let token ← s.token
  let vault ← s.vault
  let threshold ← s.investThreshold
  let buffer ← s.liquidityBuffer
  pure (token, vault, threshold, buffer)

/-- `maybe_invest` -/
def maybeInvest (h : Host A L X) : PoolM A L X Unit := do
  let w ← read
  match w.storage.investSetup with
  | some (token, vault, threshold, buffer) => investIdle h token vault threshold buffer
  | none => pure ()

/-! ## Transactions -/

/-- Steps 1 to 5 of `internal_transact`: every check on the statement. -/
def checkStatement (h : Host A L X) (proof : Proof) (extData : ExtData A) :
    PoolM A L X Unit := do
  let known ← isKnownRoot proof.root
  rejectIf (known = false) .unknownRoot
  forEach (fun n => do
    let spent ← isSpent n
    rejectIf (spent = true) .alreadySpentNullifier) proof.inputNullifiers
  rejectIf (hashExtData h extData ≠ proof.extDataHash) .wrongExtHash
  let expectedPublicAmount ← calculatePublicAmount extData.extAmount
  rejectIf (proof.publicAmount ≠ expectedPublicAmount) .wrongExtAmount
  let policyFlags ← loadPolicyFlags
  when (Policy.requiresNonMembershipProofs policyFlags = true) do
    let root ← getAspNonMembershipRoot h
    rejectIf (root ≠ proof.aspNonMembershipRoot) .invalidProof
  when (Policy.requiresMembershipProofs policyFlags = true) do
    let root ← getAspMembershipRoot h
    rejectIf (root ≠ proof.aspMembershipRoot) .invalidProof
  let valid ← verifyProof h proof
  rejectIf (valid = false) .invalidProof

/-- Step 6: mark the nullifiers as spent. -/
def spendNullifiers (proof : Proof) : PoolM A L X Unit :=
  forEach (fun n => do
    markSpent n
    publish (.newNullifier n)) proof.inputNullifiers

/-- Step 7: pay a withdrawal. -/
def payWithdrawal (h : Host A L X) (extData : ExtData A) : PoolM A L X Unit := do
  let token ← getToken
  when (extData.extAmount < 0) do
    let abs ← negI256 extData.extAmount
    let amount ← i256ToI128Nonneg abs
    ensureIdle h amount
    tokenTransfer h ⟨token, h.this, extData.recipient, amount⟩
    subLiabilities amount

/-- Steps 9 and 10: insert the new commitments and announce them. -/
def insertCommitments (h : Host A L X) (proof : Proof) (extData : ExtData A) :
    PoolM A L X Unit := do
  let (idx0, idx1) ← onMerkle (Merkle.insertTwoLeaves h.poseidon2Compress
    proof.outputCommitment0 proof.outputCommitment1)
  publish (.newCommitment proof.outputCommitment0 idx0 extData.encryptedOutput0)
  publish (.newCommitment proof.outputCommitment1 idx1 extData.encryptedOutput1)

/-- The end of `internal_transact`: a deposit raises the liabilities, and
idle liquidity may go to the vault. -/
def settleDeposit (h : Host A L X) (extData : ExtData A) : PoolM A L X Unit :=
  when (0 < extData.extAmount) do
    let amount ← i256ToI128Nonneg extData.extAmount
    addLiabilities amount
    maybeInvest h

/-- `internal_transact` -/
def internalTransact (h : Host A L X) (proof : Proof) (extData : ExtData A) :
    PoolM A L X Unit := do
  checkStatement h proof extData
  spendNullifiers proof
  payWithdrawal h extData
  insertCommitments h proof extData
  settleDeposit h extData

/-- The start of `transact`: take a deposit from the sender. -/
def takeDeposit (h : Host A L X) (extData : ExtData A) (sender : A) : PoolM A L X Unit := do
  let token ← getToken
  when (0 < extData.extAmount) do
    let max ← getMaximumDeposit
    rejectIf (max < extData.extAmount.toU256) .wrongExtAmount
    let amount ← i256ToI128Nonneg extData.extAmount
    tokenTransfer h ⟨token, sender, h.this, amount⟩

/-- `transact` -/
def transact (h : Host A L X) (auth : List A) (proof : Proof) (extData : ExtData A)
    (sender : A) : PoolM A L X Unit := do
  requireAuth h auth sender
  takeDeposit h extData sender
  internalTransact h proof extData

/-! ## Yield -/

/-- `vault_position_value` -/
def vaultPositionValue (h : Host A L X) : PoolM A L X I128 := do
  let vault ← getVault
  let shares ← callView (h.vault.balance vault h.this)
  if shares ≤ 0 then pure 0
  else do
    let amounts ← callView (h.vault.getAssetAmountsPerShares vault shares)
    pure (amounts[0]?.getD 0)

/-- `get_surplus` -/
def getSurplus (h : Host A L X) : PoolM A L X I128 := do
  let token ← getToken
  let idle ← tokenBalance h token h.this
  let position ← vaultPositionValue h
  let assets ← okOr (Signed.checkedAdd idle position) .overflow
  let liabilities ← getLiabilities
  let surplus ← orTrap (Signed.checkedSub assets liabilities)
  pure (max surplus 0)

/-- The end of `collect_yield`, once the surplus is idle. -/
def paySurplus (h : Host A L X) (dst : A) : PoolM A L X I128 := do
  let token ← getToken
  let surplus ← getSurplus h
  let idle ← tokenBalance h token h.this
  let pay := min surplus idle
  when (0 < pay) (tokenTransfer h ⟨token, h.this, dst, pay⟩)
  pure pay

/-- `collect_yield` -/
def collectYield (h : Host A L X) (auth : List A) (dst : A) : PoolM A L X I128 := do
  let admin ← getAdmin
  requireAuth h auth admin
  let surplus ← getSurplus h
  if surplus ≤ 0 then pure 0
  else do
    ensureIdle h surplus
    paySurplus h dst

/-! ## Administration -/

def updateAdmin (h : Host A L X) (auth : List A) (newAdmin : A) : PoolM A L X Unit := do
  let admin ← getAdmin
  requireAuth h auth admin
  store fun s => { s with admin := some newAdmin }

def updateAspMembership (h : Host A L X) (auth : List A) (newAsp : A) :
    PoolM A L X Unit := do
  let admin ← getAdmin
  requireAuth h auth admin
  store fun s => { s with aspMembership := some newAsp }

def updateAspNonMembership (h : Host A L X) (auth : List A) (newAsp : A) :
    PoolM A L X Unit := do
  let admin ← getAdmin
  requireAuth h auth admin
  store fun s => { s with aspNonMembership := some newAsp }

def updateInvestParams (h : Host A L X) (auth : List A) (threshold buffer : I128) :
    PoolM A L X Unit := do
  let admin ← getAdmin
  requireAuth h auth admin
  rejectIf (investParamsInvalid threshold buffer) .invalidInvestParams
  store fun s => { s with
    investThreshold := some threshold
    liquidityBuffer := some buffer }

end Pool

end PrivacyWallet
