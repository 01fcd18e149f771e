import PrivacyWallet.Lib.Invoke
import PrivacyWallet.Lib.Run
import PrivacyWallet.Lib.SparseStore
import PrivacyWallet.Soroban.Poseidon

/-!
# The association set of blocked keys

The contract `asp-non-membership`, function by function: a sparse Merkle
tree kept node by node in contract storage, under the hash of each node. A
row is `[1, key, value]` for a leaf and `[left, right]` for an inner node;
the empty tree is the hash 0.

The loops that run from the last sibling to the first are recursions that
treat the rest of the list before its head. `hashed` lists the inputs the
contract has hashed; nothing reads it.
-/

namespace PrivacyWallet

namespace Asp

open InvokeM

inductive Error where
  | notAuthorized
  | keyNotFound
  | keyAlreadyExists
  | invalidProof
  | notInitialized
  | overflow
deriving DecidableEq, Repr

inductive Event where
  | leafInserted (key value root : U256)
  | leafDeleted (key root : U256)
deriving DecidableEq

/-- The entries under `DataKey`, the published events, and the inputs that
were hashed. -/
structure Storage (A : Type) where
  admin : Option A
  root : Option U256
  node : U256 → Option (List U256)
  events : List Event
  hashed : List (NodeInput U256 U256 U256)

/-- `FindResult` -/
structure FindResult where
  found : Bool
  siblings : List U256
  foundValue : U256
  notFoundKey : U256
  notFoundValue : U256
  isOld0 : Bool
deriving DecidableEq

variable {A : Type}

namespace Storage

/-- `store.set(&DataKey::Node(hash), &row)` -/
def setNode (s : Storage A) (hash : U256) (row : List U256) : Storage A :=
  { s with node := Function.update s.node hash (some row) }

/-- `store.remove(&DataKey::Node(hash))` -/
def removeNode (s : Storage A) (hash : U256) : Storage A :=
  { s with node := Function.update s.node hash none }

def log (s : Storage A) (i : NodeInput U256 U256 U256) : Storage A :=
  { s with hashed := s.hashed ++ [i] }

end Storage

abbrev AspM (A : Type) : Type → Type := InvokeM (Storage A) Error

variable (p : Poseidon2)

/-! ## Hashes and bits -/

/-- `hash_leaf` -/
def hashLeaf (key value : U256) : AspM A U256 := do
  let u ← orTrap (p.hash2 key value (some U256.one))
  update fun s => s.log (.leaf key value)
  pure u

/-- `hash_internal` -/
def hashInternal (left right : U256) : AspM A U256 := do
  let u ← orTrap (p.compress left right)
  update fun s => s.log (.node left right)
  pure u

/-- The loop of `split_bits`, with `n` rounds to go. -/
def splitBitsLoop : Nat → Nat → List Bool
  | 0, _ => []
  | n + 1, k => (k % 2 == 1) :: splitBitsLoop n (k / 2)

/-- `split_bits` -/
def splitBits (key : U256) : List Bool := splitBitsLoop 256 key.val

/-- `?` on a `Result`. -/
def orFail {α : Type} : Except Error α → AspM A α
  | .ok a => pure a
  | .error e => fail e

/-- `address.require_auth()` -/
def requireAuth [DecidableEq A] (auth : List A) (a : A) : AspM A Unit :=
  if a ∈ auth then pure () else trap

/-! ## Finding a key -/

/-- `find_key_internal`, on the bits from the current level on. -/
def findKeyInternal (store : U256 → Option (List U256)) (key : U256) :
    List Bool → U256 → Except Error FindResult
  | bits, root =>
      if root = 0 then
        .ok { found := false, siblings := [], foundValue := 0, notFoundKey := key,
              notFoundValue := 0, isOld0 := true }
      else
        match store root with
        | some [tag, storedKey, storedValue] =>
            if tag = U256.one then
              if storedKey = key then
                .ok { found := true, siblings := [], foundValue := storedValue,
                      notFoundKey := 0, notFoundValue := 0, isOld0 := false }
              else
                .ok { found := false, siblings := [], foundValue := 0,
                      notFoundKey := storedKey, notFoundValue := storedValue,
                      isOld0 := false }
            else .error .keyNotFound
        | some [left, right] =>
            match bits with
            | [] => .error .keyNotFound
            | bit :: rest => do
                let result ←
                  if bit then findKeyInternal store key rest right
                  else findKeyInternal store key rest left
                .ok { result with siblings := (if bit then left else right) :: result.siblings }
        | _ => .error .keyNotFound

/-- `find_key` -/
def findKey (s : Storage A) (key : U256) : Except Error FindResult :=
  findKeyInternal s.node key (splitBits key) (s.root.getD 0)

/-! ## Insertion -/

/-- The loop that appends a zero for every bit, from the end of the path
on, that the two keys share. -/
def extendSiblings : List Bool → List Bool → List U256 → List U256
  | old :: olds, bit :: bits, siblings =>
      if old = bit then extendSiblings olds bits (siblings ++ [0]) else siblings
  | _, _, siblings => siblings

/-- What the loops over the siblings carry upwards. -/
structure Build where
  rt : U256
  rtOld : U256
  mixed : Bool

/-- One round of the loop of `insert_leaf`: the old node is removed once
`mixed` is set, then the new one is hashed and stored. `len` is the number
of all siblings, `found` are those of the path that was found. -/
def insertRound (len : Nat) (addedOne : Bool) (found : List U256) (keyBits : List Bool)
    (i : Nat) (sibling : U256) (acc : Build) : AspM A Build := do
  let isLastAddedLeaf := addedOne && i == len - 1
  let mixed :=
    if !isLastAddedLeaf ∧ i < len - 1 ∧ sibling ≠ 0 then true else acc.mixed
  let rtOld ←
    if mixed ∧ !isLastAddedLeaf then do
      let oldSibling ← if i < found.length then okOr found[i]? .keyNotFound else pure 0
      let bit ← okOr keyBits[i]? .keyNotFound
      let rtOld ←
        if bit then hashInternal p oldSibling acc.rtOld
        else hashInternal p acc.rtOld oldSibling
      update fun s => s.removeNode rtOld
      pure rtOld
    else pure acc.rtOld
  let bit ← okOr keyBits[i]? .keyNotFound
  let left := if bit then sibling else acc.rt
  let right := if bit then acc.rt else sibling
  let rt ← hashInternal p left right
  update fun s => s.setNode rt [left, right]
  pure { rt, rtOld, mixed }

/-- The loop of `insert_leaf` over the siblings from index `i` on. -/
def insertLoop (len : Nat) (addedOne : Bool) (found : List U256) (keyBits : List Bool) :
    Nat → List U256 → Build → AspM A Build
  | _, [], acc => pure acc
  | i, sibling :: rest, acc => do
      let acc ← insertLoop len addedOne found keyBits (i + 1) rest acc
      insertRound p len addedOne found keyBits i sibling acc

/-- The siblings to build on, with the old leaf in a collision. -/
def insertSiblings (keyBits : List Bool) (findResult : FindResult) :
    AspM A (List U256 × U256) :=
  if findResult.isOld0 then pure (findResult.siblings, 0)
  else do
    let oldKeyBits := splitBits findResult.notFoundKey
    let n := findResult.siblings.length
    let siblings := extendSiblings (oldKeyBits.drop n) (keyBits.drop n) findResult.siblings
    let rtOld ← hashLeaf p findResult.notFoundKey findResult.notFoundValue
    pure (siblings ++ [rtOld], rtOld)

/-- `insert_leaf` -/
def insertLeaf [DecidableEq A] (auth : List A) (key value : U256) : AspM A Unit := do
  let s ← read
  let admin ← okOr s.admin .notInitialized
  requireAuth auth admin
  let keyBits := splitBits key
  let findResult ← orFail (findKeyInternal s.node key keyBits (s.root.getD 0))
  rejectIf (findResult.found = true) .keyAlreadyExists
  let (siblings, rtOld) ← insertSiblings p keyBits findResult
  let addedOne := !findResult.isOld0
  let mixed := findResult.isOld0 && !siblings.isEmpty
  let rt ← hashLeaf p key value
  update fun s => s.setNode rt [U256.one, key, value]
  let acc ← insertLoop p siblings.length addedOne findResult.siblings keyBits 0 siblings
    { rt, rtOld, mixed }
  update fun s => { s with root := some acc.rt }
  update fun s => { s with events := s.events ++ [.leafInserted key value acc.rt] }

/-! ## Deletion -/

/-- What takes the place of the deleted leaf: its sibling if that is a leaf
too, and then one sibling less. -/
def promote (siblings : List U256) : AspM A (U256 × List U256) :=
  match siblings.getLast? with
  | none => pure (0, siblings)
  | some lastSibling => do
      let s ← read
      match s.node lastSibling with
      | some [tag, _, _] =>
          if tag = U256.one then pure (lastSibling, siblings.dropLast) else fail .keyNotFound
      | some [_, _] => pure (0, siblings)
      | _ => fail .keyNotFound

/-- One round of the loop of `delete_leaf`. -/
def deleteRound (keyBits : List Bool) (level : Nat) (sibling : U256) (acc : Build) :
    AspM A Build := do
  let bit ← okOr keyBits[level]? .keyNotFound
  let rtOld ←
    if bit then hashInternal p sibling acc.rtOld else hashInternal p acc.rtOld sibling
  update fun s => s.removeNode rtOld
  let mixed := if sibling ≠ 0 then true else acc.mixed
  if mixed then do
    let left := if bit then sibling else acc.rt
    let right := if bit then acc.rt else sibling
    let rt ← hashInternal p left right
    update fun s => s.setNode rt [left, right]
    pure { rt, rtOld, mixed }
  else pure { rt := acc.rt, rtOld, mixed }

/-- The loop of `delete_leaf` over the siblings from `level` on. -/
def deleteLoop (keyBits : List Bool) : Nat → List U256 → Build → AspM A Build
  | _, [], acc => pure acc
  | level, sibling :: rest, acc => do
      let acc ← deleteLoop keyBits (level + 1) rest acc
      deleteRound p keyBits level sibling acc

/-- `delete_leaf` -/
def deleteLeaf [DecidableEq A] (auth : List A) (key : U256) : AspM A Unit := do
  let s ← read
  let admin ← okOr s.admin .notInitialized
  requireAuth auth admin
  let root ← okOr s.root .notInitialized
  let keyBits := splitBits key
  let findResult ← orFail (findKeyInternal s.node key keyBits root)
  rejectIf (findResult.found = false) .keyNotFound
  let rtOld ← hashLeaf p key findResult.foundValue
  update fun s => s.removeNode rtOld
  let (rtNew, siblingsToUse) ← promote findResult.siblings
  let acc ← deleteLoop p keyBits 0 siblingsToUse { rt := rtNew, rtOld, mixed := false }
  update fun s => { s with root := some acc.rt }
  update fun s => { s with events := s.events ++ [.leafDeleted key acc.rt] }

/-! ## Proofs of absence -/

/-- The loop of `verify_non_membership` over the siblings from `level` on. -/
def verifyLoop (keyBits : List Bool) : Nat → List U256 → U256 → AspM A U256
  | _, [], computedRoot => pure computedRoot
  | level, sibling :: rest, computedRoot => do
      let computedRoot ← verifyLoop keyBits (level + 1) rest computedRoot
      let bit ← okOr keyBits[level]? .invalidProof
      if bit then hashInternal p sibling computedRoot else hashInternal p computedRoot sibling

/-- `verify_non_membership` -/
def verifyNonMembership (key : U256) (siblings : List U256) (notFoundKey notFoundValue : U256) :
    AspM A Bool := do
  let s ← read
  let root := s.root.getD 0
  let keyBits := splitBits key
  let findResult ← orFail (findKeyInternal s.node key keyBits root)
  if findResult.found then pure false
  else do
    rejectIf (findResult.siblings.length ≠ siblings.length) .invalidProof
    rejectIf (findResult.siblings ≠ siblings) .invalidProof
    rejectIf (findResult.notFoundKey ≠ notFoundKey ∨ findResult.notFoundValue ≠ notFoundValue)
      .invalidProof
    let start ←
      if notFoundKey ≠ key ∧ notFoundValue ≠ 0 then hashLeaf p notFoundKey notFoundValue
      else pure 0
    let computedRoot ← verifyLoop p keyBits 0 siblings start
    rejectIf (computedRoot ≠ root) .invalidProof
    pure true

/-- `get_root` -/
def getRoot (s : Storage A) : Except Error U256 :=
  match s.root with
  | some root => .ok root
  | none => .error .notInitialized

/-! ## Administration -/

/-- `soroban_utils::update_admin`; `expect` on an absent admin traps. -/
def updateAdmin [DecidableEq A] (auth : List A) (newAdmin : A) : AspM A Unit := do
  let s ← read
  let admin ← orTrap s.admin
  requireAuth auth admin
  update fun s => { s with admin := some newAdmin }

/-- The storage that `__constructor` leaves. -/
def constructed (admin : A) : Storage A where
  admin := some admin
  root := some 0
  node := fun _ => none
  events := []
  hashed := []

inductive Call (A : Type) where
  | insertLeaf (key value : U256)
  | deleteLeaf (key : U256)
  | updateAdmin (newAdmin : A)
deriving DecidableEq

def callBody [DecidableEq A] (auth : List A) : Call A → AspM A Unit
  | .insertLeaf key value => insertLeaf p auth key value
  | .deleteLeaf key => deleteLeaf p auth key
  | .updateAdmin newAdmin => updateAdmin auth newAdmin

/-- One transaction: a call with the addresses that authorized it. A call
that fails leaves no trace. -/
def step [DecidableEq A] (s : Storage A) (c : List A × Call A) : Storage A :=
  (revert (callBody p c.1 c.2) s).2

/-- How the call ends. -/
def answer [DecidableEq A] (s : Storage A) (c : List A × Call A) :
    List (Except (Fail Error) Unit) :=
  [(callBody p c.1 c.2 s).1]

end Asp

end PrivacyWallet
