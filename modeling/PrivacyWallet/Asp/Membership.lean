import PrivacyWallet.Lib.Run
import PrivacyWallet.Pool.Merkle
import PrivacyWallet.Soroban.Poseidon

/-!
# The association set of allowed leaves

The contract `asp-membership`, function by function: an incremental Merkle
tree of `levels` levels that takes one leaf at a time, with one stored left
sibling per level. Unlike the pool's tree it keeps its newest root only, and
a flag says whether only the administrator may insert.
-/

namespace PrivacyWallet

namespace Asp

namespace Membership

open InvokeM Merkle

inductive Error where
  | notAuthorized
  | merkleTreeFull
  | wrongLevels
  | notInitialized
  | overflow
deriving DecidableEq, Repr

inductive Event where
  | leafAdded (leaf : U256) (index : Nat) (root : U256)
deriving DecidableEq

/-- The entries under `DataKey`, and the published events. -/
structure Storage (A : Type) where
  admin : Option A
  filledSubtrees : Nat → Option U256
  zeroes : Nat → Option U256
  levels : Option Nat
  nextIndex : Option Nat
  root : Option U256
  adminInsertOnly : Option Bool
  events : List Event

variable {A : Type}

namespace Storage

/-- Nothing stored yet. -/
def empty : Storage A where
  admin := none
  filledSubtrees := fun _ => none
  zeroes := fun _ => none
  levels := none
  nextIndex := none
  root := none
  adminInsertOnly := none
  events := []

/-- `store.set(&DataKey::FilledSubtrees(lvl), &v)` -/
def setFilled (s : Storage A) (lvl : Nat) (v : U256) : Storage A :=
  { s with filledSubtrees := Function.update s.filledSubtrees lvl (some v) }

/-- `store.set(&DataKey::Zeroes(lvl), &v)` -/
def setZero (s : Storage A) (lvl : Nat) (v : U256) : Storage A :=
  { s with zeroes := Function.update s.zeroes lvl (some v) }

end Storage

abbrev MembershipM (A : Type) : Type → Type := InvokeM (Storage A) Error

/-- `address.require_auth()` -/
def requireAuth [DecidableEq A] (auth : List A) (a : A) : MembershipM A Unit :=
  if a ∈ auth then pure () else trap

/-- The body of the loop of `__constructor` over `0..=levels`. -/
def initLevel (zeros : List U256) (lvl : Nat) : MembershipM A Unit := do
  let zeroVal ← okOr zeros[lvl]? .notInitialized
  update fun s => (s.setFilled lvl zeroVal).setZero lvl zeroVal

/-- `__constructor`; `zeros` is what `get_zeroes` returns. -/
def constructor (zeros : List U256) (admin : A) (levels : Nat) : MembershipM A Unit := do
  rejectIf (levels = 0 ∨ levels > 32) .wrongLevels
  update fun s => { s with
    admin := some admin, levels := some levels, nextIndex := some 0,
    adminInsertOnly := some true }
  forEach (initLevel zeros) (List.range (levels + 1))
  let rootVal ← okOr zeros[levels]? .notInitialized
  update fun s => { s with root := some rootVal }

/-- `update_admin`, with the check of the contract before that of
`soroban_utils`. -/
def updateAdmin [DecidableEq A] (auth : List A) (newAdmin : A) : MembershipM A Unit := do
  let s ← read
  rejectIf (s.admin.isSome = false) .notInitialized
  let admin ← orTrap s.admin
  requireAuth auth admin
  update fun s => { s with admin := some newAdmin }

/-- `set_admin_insert_only` -/
def setAdminInsertOnly [DecidableEq A] (auth : List A) (adminOnly : Bool) :
    MembershipM A Unit := do
  let s ← read
  let admin ← okOr s.admin .notInitialized
  requireAuth auth admin
  update fun s => { s with adminInsertOnly := some adminOnly }

/-- `get_root` -/
def getRoot (s : Storage A) : Except Error U256 :=
  match s.root with
  | some root => .ok root
  | none => .error .notInitialized

variable (p : Poseidon2)

/-- The body of the loop of `insert_leaf`. -/
def insertRound (lvl : Nat) (currentHash : U256) (currentIndex : Nat) : MembershipM A U256 :=
  if currentIndex % 2 = 1 then do
    let s ← read
    let left ← okOr (s.filledSubtrees lvl) .notInitialized
    orTrap (p.compress left currentHash)
  else do
    update fun s => s.setFilled lvl currentHash
    let s ← read
    let zeroVal ← okOr (s.zeroes lvl) .notInitialized
    orTrap (p.compress currentHash zeroVal)

/-- The loop, at level `lvl` with `n` levels to go. -/
def insertLoop : Nat → Nat → U256 → Nat → MembershipM A U256
  | 0, _, currentHash, _ => pure currentHash
  | n + 1, lvl, currentHash, currentIndex => do
      let currentHash ← insertRound p lvl currentHash currentIndex
      insertLoop n (lvl + 1) currentHash (currentIndex / 2)

/-- `insert_leaf` -/
def insertLeaf [DecidableEq A] (auth : List A) (leaf : U256) : MembershipM A Unit := do
  let s ← read
  when (s.adminInsertOnly.getD true = true) do
    let admin ← okOr s.admin .notInitialized
    requireAuth auth admin
  let levels ← okOr s.levels .notInitialized
  let actualIndex ← okOr s.nextIndex .notInitialized
  let capacity ← okOr (checkedShlOneU64 levels) .merkleTreeFull
  rejectIf (actualIndex ≥ capacity) .merkleTreeFull
  let currentHash ← insertLoop p levels 0 leaf actualIndex
  update fun s => { s with root := some currentHash }
  update fun s => { s with events := s.events ++ [.leafAdded leaf actualIndex currentHash] }
  let next ← okOr (checkedAddU64 actualIndex 1) .overflow
  update fun s => { s with nextIndex := some next }

inductive Call (A : Type) where
  | insertLeaf (leaf : U256)
  | updateAdmin (newAdmin : A)
  | setAdminInsertOnly (adminOnly : Bool)
deriving DecidableEq

def callBody [DecidableEq A] (auth : List A) : Call A → MembershipM A Unit
  | .insertLeaf leaf => insertLeaf p auth leaf
  | .updateAdmin newAdmin => updateAdmin auth newAdmin
  | .setAdminInsertOnly adminOnly => setAdminInsertOnly auth adminOnly

/-- One transaction: a call with the addresses that authorized it. A call
that fails leaves no trace. -/
def step [DecidableEq A] (s : Storage A) (c : List A × Call A) : Storage A :=
  (revert (callBody p c.1 c.2) s).2

/-- How the call ends. -/
def answer [DecidableEq A] (s : Storage A) (c : List A × Call A) :
    List (Except (Fail Error) Unit) :=
  [(callBody p c.1 c.2 s).1]

end Membership

end Asp

end PrivacyWallet
