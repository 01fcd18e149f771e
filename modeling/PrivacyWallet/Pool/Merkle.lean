import Mathlib.Algebra.Group.Nat.Defs
import PrivacyWallet.Lib.Invoke

/-!
# The commitment tree with its root history

`MerkleTreeWithHistory` of the pool contract, function by function: a
fixed-depth binary tree that keeps one stored left sibling per level
(`filledSubtree`) and a ring buffer of the last `rootHistorySize` roots.

The model is generic in the type `U` of hash values. `compress` is the
2-to-1 hash `poseidon2_compress`, which panics on inputs outside the
field: a refused pair (`none`) is a trap. `zeros` is the list `get_zeroes`
returns. `u32` and `u64` values are natural numbers, with the checked
operations of the source where it uses them.
-/

namespace PrivacyWallet

namespace Merkle

variable {U : Type}

/-- `ROOT_HISTORY_SIZE` -/
def rootHistorySize : Nat := 90

inductive MerkleError where
  | alreadyInitialized
  | wrongLevels
  | merkleTreeFull
  | nextIndexNotEven
  | notInitialized
  | overflow
deriving DecidableEq, Repr

/-- The persistent entries under `MerkleDataKey`; an absent entry is
`none`. -/
structure MerkleStorage (U : Type) where
  levels : Option Nat
  currentRootIndex : Option Nat
  nextIndex : Option Nat
  filledSubtree : Nat → Option U
  zeroes : Nat → Option U
  root : Nat → Option U

/-- Nothing stored yet. -/
def MerkleStorage.empty : MerkleStorage U where
  levels := none
  currentRootIndex := none
  nextIndex := none
  filledSubtree := fun _ => none
  zeroes := fun _ => none
  root := fun _ => none

/-- `storage.set(&MerkleDataKey::FilledSubtree(lvl), &v)` -/
def MerkleStorage.setFilled (s : MerkleStorage U) (lvl : Nat) (v : U) :
    MerkleStorage U :=
  { s with filledSubtree := Function.update s.filledSubtree lvl (some v) }

/-- `storage.set(&MerkleDataKey::Zeroes(lvl), &v)` -/
def MerkleStorage.setZero (s : MerkleStorage U) (lvl : Nat) (v : U) :
    MerkleStorage U :=
  { s with zeroes := Function.update s.zeroes lvl (some v) }

/-- Write the root of slot `i` and make it the current one. -/
def MerkleStorage.setRoot (s : MerkleStorage U) (i : Nat) (v : U) :
    MerkleStorage U :=
  { s with
    root := Function.update s.root i (some v)
    currentRootIndex := some i }

abbrev MerkleM (U : Type) : Type → Type :=
  InvokeM (MerkleStorage U) MerkleError

open InvokeM

/-! ## Checked machine arithmetic -/

/-- `u64::checked_add` -/
def checkedAddU64 (a b : Nat) : Option Nat :=
  if a + b < 2 ^ 64 then some (a + b) else none

/-- `u32::checked_add` -/
def checkedAddU32 (a b : Nat) : Option Nat :=
  if a + b < 2 ^ 32 then some (a + b) else none

/-- `1u64.checked_shl(levels)` -/
def checkedShlOneU64 (levels : Nat) : Option Nat :=
  if levels < 64 then some (2 ^ levels) else none

/-- `u32::try_from` on a `u64` -/
def u32TryFrom (n : Nat) : Option Nat :=
  if n < 2 ^ 32 then some n else none

/-! ## Initialization -/

/-- The body of the loop over `0..=levels`: both tables get the zero hash
of level `i`. -/
def initLevel (zeros : List U) (i : Nat) : MerkleM U Unit := do
  let z ← okOr zeros[i]? .notInitialized
  update fun s => (s.setFilled i z).setZero i z

/-- `MerkleTreeWithHistory::init` -/
def init (zeros : List U) (levels : Nat) : MerkleM U Unit := do
  rejectIf (levels = 0 ∨ levels > 32) .wrongLevels
  let s ← read
  rejectIf (s.currentRootIndex.isSome = true) .alreadyInitialized
  update fun s => { s with levels := some levels }
  forEach (initLevel zeros) (List.range (levels + 1))
  let root0 ← okOr zeros[levels]? .notInitialized
  update fun s => s.setRoot 0 root0
  update fun s => { s with nextIndex := some 0 }

/-! ## Insertion -/

/-- The body of the loop `for lvl in 1..levels`: the hash of the subtree
that ends in the new leaves climbs one level. A right child takes its
stored left sibling; a left child is stored and paired with the zero hash
of its level. -/
def climbRound (compress : U → U → Option U) (lvl : Nat) (hash : U)
    (index : Nat) : MerkleM U U :=
  if index % 2 = 1 then do
    let s ← read
    let left ← okOr (s.filledSubtree lvl) .notInitialized
    orTrap (compress left hash)
  else do
    update fun s => s.setFilled lvl hash
    let s ← read
    let zero ← okOr (s.zeroes lvl) .notInitialized
    orTrap (compress hash zero)

/-- The whole loop, at level `lvl` with `n` levels to go. -/
def climb (compress : U → U → Option U) : Nat → Nat → U → Nat → MerkleM U U
  | 0, _, hash, _ => pure hash
  | n + 1, lvl, hash, index => do
      let up ← climbRound compress lvl hash index
      climb compress n (lvl + 1) up (index / 2)

/-- The hashing part of `insert_two_leaves`: the two leaves are hashed to
their parent, which climbs from level 1 to the root. -/
def pathHash (compress : U → U → Option U) (levels nextIndex : Nat)
    (leaf1 leaf2 : U) : MerkleM U U := do
  let hash ← orTrap (compress leaf1 leaf2)
  climb compress (levels - 1) 1 hash (nextIndex / 2)

/-- `MerkleTreeWithHistory::insert_two_leaves` -/
def insertTwoLeaves (compress : U → U → Option U) (leaf1 leaf2 : U) :
    MerkleM U (Nat × Nat) := do
  let s ← read
  let levels ← okOr s.levels .notInitialized
  let nextIndex ← okOr s.nextIndex .notInitialized
  let rootIndex ← okOr s.currentRootIndex .notInitialized
  let maxLeaves ← okOr (checkedShlOneU64 levels) .wrongLevels
  rejectIf (nextIndex % 2 ≠ 0) .nextIndexNotEven
  let next ← okOr (checkedAddU64 nextIndex 2) .overflow
  rejectIf (next > maxLeaves) .merkleTreeFull
  let hash ← pathHash compress levels nextIndex leaf1 leaf2
  let bumped ← okOr (checkedAddU32 rootIndex 1) .overflow
  let rootIndex := bumped % rootHistorySize
  update fun s => s.setRoot rootIndex hash
  let next ← okOr (checkedAddU64 nextIndex 2) .overflow
  update fun s => { s with nextIndex := some next }
  let left ← okOr (u32TryFrom nextIndex) .merkleTreeFull
  let right ← okOr (checkedAddU64 nextIndex 1) .overflow
  let right ← okOr (u32TryFrom right) .merkleTreeFull
  pure (left, right)

/-! ## The root history -/

/-- One round of the search loop in `is_known_root`: slot `i` is compared,
and the loop ends when the next slot is the one it started from. -/
def searchRound [DecidableEq U] (r : U) (current : Nat) (i : Nat) :
    MerkleM U (Bool ⊕ Nat) := do
  let s ← read
  if s.root i = some r then pure (.inl true)
  else do
    let bumped ← okOr (checkedAddU32 i 1) .overflow
    let i' := bumped % rootHistorySize
    if i' = current then pure (.inl false) else pure (.inr i')

/-- Rounds after which every slot has been compared; a search that is still
running then never ends and exhausts the budget of the host. -/
def searchBudget : Nat := rootHistorySize + 1

/-- `MerkleTreeWithHistory::is_known_root` -/
def isKnownRoot [DecidableEq U] [Zero U] (r : U) : MerkleM U Bool := do
  if r = 0 then pure false
  else do
    let s ← read
    let current ← okOr s.currentRootIndex .notInitialized
    loop (searchRound r current) searchBudget current

/-- `MerkleTreeWithHistory::get_last_root` -/
def getLastRoot : MerkleM U U := do
  let s ← read
  let current ← okOr s.currentRootIndex .notInitialized
  okOr (s.root current) .notInitialized

end Merkle

end PrivacyWallet
