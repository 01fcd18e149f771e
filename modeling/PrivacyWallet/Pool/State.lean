import PrivacyWallet.Pool.Merkle
import PrivacyWallet.Soroban.Host

/-!
# The pool's data and its surroundings

The values the pool contract stores, receives and emits, and the contracts
it calls. `Host` collects what is outside the contract's own code: the
token contracts, the vault, the verifier, the association sets, and the
hash functions. `World` is the state one call runs on: the pool's storage,
the token ledger, the state of every other contract, the emitted events,
and a log of everything that moved value.
-/

namespace PrivacyWallet

namespace Pool

/-- The contract's error codes. -/
inductive Error where
  | notAuthorized
  | merkleTreeFull
  | alreadyInitialized
  | wrongLevels
  | nextIndexNotEven
  | wrongExtAmount
  | invalidProof
  | unknownRoot
  | alreadySpentNullifier
  | wrongExtHash
  | notInitialized
  | overflow
  | nonCanonicalPublicInput
  | invalidPolicyFlags
  | invalidInvestParams
  | vaultDivestFailed
deriving DecidableEq, Repr

/-- `impl From<MerkleError> for Error` -/
def Error.ofMerkle : Merkle.MerkleError → Error
  | .alreadyInitialized => .alreadyInitialized
  | .merkleTreeFull => .merkleTreeFull
  | .wrongLevels => .wrongLevels
  | .nextIndexNotEven => .nextIndexNotEven
  | .notInitialized => .notInitialized
  | .overflow => .overflow

/-! ## Policy flags -/

namespace Policy

def allowlistBit : UInt32 := (1 : UInt32) <<< (0 : UInt32)

def blocklistBit : UInt32 := (1 : UInt32) <<< (1 : UInt32)

def mask : UInt32 := allowlistBit ||| blocklistBit

def isValid (flags : UInt32) : Bool := flags &&& ~~~mask == 0

def requiresMembershipProofs (flags : UInt32) : Bool := flags &&& allowlistBit != 0

def requiresNonMembershipProofs (flags : UInt32) : Bool :=
  flags &&& blocklistBit != 0

end Policy

/-! ## What a transaction carries -/

/-- `BytesN<n>` -/
abbrev BytesN (n : Nat) : Type := Vector UInt8 n

structure Groth16Proof where
  a : BytesN 64
  b : BytesN 128
  c : BytesN 64
deriving DecidableEq

/-- `Groth16Proof::is_empty` -/
def Groth16Proof.isEmpty (p : Groth16Proof) : Bool :=
  p.a.toList.isEmpty || p.b.toList.isEmpty || p.c.toList.isEmpty

/-- A proof with its public inputs. The 32 bytes of `extDataHash` stand as
the number they encode. -/
structure Proof where
  proof : Groth16Proof
  root : U256
  inputNullifiers : List U256
  outputCommitment0 : U256
  outputCommitment1 : U256
  publicAmount : U256
  extDataHash : U256
  aspMembershipRoot : U256
  aspNonMembershipRoot : U256
deriving DecidableEq

variable {A L X : Type}

structure ExtData (A : Type) where
  recipient : A
  extAmount : I256
  encryptedOutput0 : List UInt8
  encryptedOutput1 : List UInt8
deriving DecidableEq

inductive Event where
  | newCommitment (commitment : U256) (index : Nat) (encryptedOutput : List UInt8)
  | newNullifier (nullifier : U256)
deriving DecidableEq

/-! ## Storage -/

/-- The persistent entries under `DataKey`, with the tree's own entries.
An absent entry is `none`; `nullifier` says which markers are present. -/
structure Storage (A : Type) where
  admin : Option A
  token : Option A
  verifier : Option A
  maximumDepositAmount : Option U256
  nullifier : U256 → Bool
  aspMembership : Option A
  aspNonMembership : Option A
  policyFlags : Option UInt32
  vault : Option A
  investThreshold : Option I128
  liquidityBuffer : Option I128
  totalLiabilities : Option I128
  merkle : Merkle.MerkleStorage U256

/-- The storage of a contract that was not constructed yet. -/
def Storage.empty : Storage A where
  admin := none
  token := none
  verifier := none
  maximumDepositAmount := none
  nullifier := fun _ => false
  aspMembership := none
  aspNonMembership := none
  policyFlags := none
  vault := none
  investThreshold := none
  liquidityBuffer := none
  totalLiabilities := none
  merkle := .empty

/-! ## Surroundings -/

/-- The vault contracts. The views `balance` and
`get_asset_amounts_per_shares` answer from the ledger and the outside
state; `deposit` and `withdraw` may change the outside state and move
tokens. The answer of `withdraw` is `none` when it is not a list of
amounts. -/
structure Vault (A L X : Type) where
  balance : (vault id : A) → L × X → Outcome I128
  getAssetAmountsPerShares : (vault : A) → (shares : I128) → L × X →
    Outcome (List I128)
  deposit : (vault : A) → (amountsDesired amountsMin : List I128) → (source : A) →
    (invest : Bool) → L × X → Outcome (X × List (Transfer A) × Unit)
  withdraw : (vault : A) → (withdrawShares : I128) → (minAmountsOut : List I128) →
    (source : A) → L × X → Outcome (X × List (Transfer A) × Option (List I128))

/-- Everything the contract calls. `this` is its own address. -/
structure Host (A L X : Type) [DecidableEq A] where
  this : A
  token : Token A L
  vault : Vault A L X
  verify : (verifier : A) → Groth16Proof → List Bn254Fr → L × X → Outcome Bool
  aspGetRoot : (asp : A) → L × X → Outcome U256
  poseidon2Compress : U256 → U256 → Option U256
  getZeroes : List U256
  /-- `keccak256` of the XDR encoding -/
  keccakXdr : ExtData A → U256

/-- What an entry of the log reports. -/
inductive Cause (A : Type) where
  | transfer (t : Transfer A)
  | vault
  | outside
deriving DecidableEq

/-- One movement of value, with the ledger and the outside state around it. -/
structure Interaction (A L X : Type) where
  cause : Cause A
  before : L × X
  after : L × X

structure World (A L X : Type) where
  storage : Storage A
  ledger : L
  others : X
  events : List Event
  log : List (Interaction A L X)

/-- The part of the world the other contracts see. -/
def World.outside (w : World A L X) : L × X := (w.ledger, w.others)

/-- The world with a new outside state, and the log entry for the change. -/
def World.moved (w : World A L X) (cause : Cause A) (o : L × X) : World A L X :=
  { w with
    ledger := o.1
    others := o.2
    log := w.log ++ [⟨cause, w.outside, o⟩] }

@[simp] theorem World.moved_storage (w : World A L X) (cause : Cause A) (o : L × X) :
    (w.moved cause o).storage = w.storage := rfl

@[simp] theorem World.moved_outside (w : World A L X) (cause : Cause A) (o : L × X) :
    (w.moved cause o).outside = o := rfl

@[simp] theorem World.moved_log (w : World A L X) (cause : Cause A) (o : L × X) :
    (w.moved cause o).log = w.log ++ [⟨cause, w.outside, o⟩] := rfl

/-- Write the storage. -/
def World.store (w : World A L X) (f : Storage A → Storage A) : World A L X :=
  { w with storage := f w.storage }

@[simp] theorem World.store_storage (w : World A L X) (f : Storage A → Storage A) :
    (w.store f).storage = f w.storage := rfl

end Pool

end PrivacyWallet
