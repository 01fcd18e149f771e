import PrivacyWallet.Lib.Guarantee
import PrivacyWallet.Wallet.CtCircuits
import PrivacyWallet.Wallet.Events

/-!
# The confidential rail and its stored openings

`StateEngine` replays the token's events into the openings of one account,
which all tabs keep in one place of the browser's storage. `CtRail`'s calls
sync, build a witness, submit, and write the new opening. They are cut where
they await; the chain and what the outside answers may change between any two
accesses.

The token contract is not part of the repository; `TokenContract` is what it
accepts and what its `confidential_balance` answers. The event sources are a
parameter too, part of what the outside answers at a moment (`CtOutside`): what
a sync gets from them is whatever they return from its cursor on. A cursor is
the number of events before it. That they leave nothing out is a hypothesis of
the results about runs (`CtOutside.Complete`), not part of the model.
-/

namespace PrivacyWallet

namespace Wallet

/-! ## The token -/

/-- `confidential_balance` -/
structure OnChainAccount (Point : Type) where
  spendingKey : Point
  viewingPublicKey : Point
  spendableBalance : Point
  receivingBalance : Point
  auditorId : Nat

/-- The token's calls, with the payload of those that carry a proof. -/
inductive TokenCall (Point : Type) where
  | register (account : String) (auditorId : Nat) (y pvk : Point)
  | deposit (src dst : String) (amount : Int)
  | merge (account : String)
  | withdraw (src dst : String) (amount : Int) (payload : WithdrawPayload Point)
  | transfer (src dst : String) (payload : TransferPayload Point)
  | compliance (type : ComplianceEventType) (account : String)

/-- A call in a ledger. -/
structure Landed (Point : Type) where
  ledger : Nat
  txHash : String
  id : String
  call : TokenCall Point

def TokenCall.body {Point : Type} : TokenCall Point → EventBody Point
  | .register account auditorId _ _ => .register account auditorId
  | .deposit src dst amount => .deposit src dst amount
  | .merge account => .merge account
  | .withdraw src dst amount p => .withdraw src dst amount p.rE p.sigma p.bTilde p.bAudS
  | .transfer src dst p =>
      .transfer src dst p.rE p.vTilde p.sigma p.bTilde p.vAudR p.rAudR p.vAudS p.bAudS
  | .compliance type account => .compliance type account

/-- The event that the call emits. -/
def Landed.event {Point : Type} (tx : Landed Point) : ConfidentialEvent Point :=
  ⟨tx.ledger, tx.txHash, tx.id, tx.call.body⟩

/-- The contract, as a chain of its calls shows it. -/
structure TokenContract (Point : Type) where
  accepts : List (Landed Point) → Landed Point → Bool
  account : List (Landed Point) → String → Option (OnChainAccount Point)

/-! ## The engine -/

structure AccountState where
  address : String
  spendable : Opening
  receiving : Opening
  registered : Bool
  cursor : Option Nat
  syncedLedger : Nat
deriving DecidableEq

def freshState (address : String) : AccountState :=
  ⟨address, ⟨0, 0⟩, ⟨0, 0⟩, false, none, 0⟩

/-- A rail: the crypto and the token it talks to, its account and its keys. -/
structure CtRail (Point : Type) [AddCommGroup Point] where
  crypto : CtCrypto Point
  token : TokenContract Point
  address : String
  sk : Nat
  /-- stored keys are reduced by `toHex32` -/
  sk_lt : sk < frModulus
  addrF : Nat
  /-- `TESTNET.ct.auditorId` -/
  auditorId : Nat

section

variable {Point : Type} [AddCommGroup Point] [DecidableEq Point]

omit [DecidableEq Point] in
def CtRail.keys (rail : CtRail Point) : KeyPair Point :=
  deriveKeys rail.crypto rail.sk rail.addrF

/-- What an event does to the openings. -/
def applyBody (rail : CtRail Point) (state : AccountState) :
    EventBody Point → Except String AccountState
  | .register account _ =>
      .ok (if account = state.address then { state with registered := true } else state)
  | .deposit _ dst amount =>
      .ok (if dst = state.address then
        { state with receiving := { state.receiving with v := state.receiving.v + amount } }
      else state)
  | .merge account =>
      .ok (if account = state.address then
        { state with
          spendable := ⟨state.spendable.v + state.receiving.v,
            fpAdd state.spendable.r state.receiving.r⟩
          receiving := ⟨0, 0⟩ }
      else state)
  | .withdraw src _ _ _ sigma bTilde _ =>
      .ok (if src = state.address then
        { state with spendable := openSpendable rail.crypto rail.keys.vk bTilde sigma }
      else state)
  | .transfer src dst rE vTilde sigma bTilde _ _ _ _ => do
      let state := if src = state.address then
          { state with spendable := openSpendable rail.crypto rail.keys.vk bTilde sigma }
        else state
      if dst = state.address then
        let received ← decryptIncoming rail.crypto rail.keys.vk rE vTilde sigma
        pure { state with
          receiving := ⟨state.receiving.v + received.v, fpAdd state.receiving.r received.r⟩ }
      else pure state
  | .compliance _ _ => .ok state

/-- Apply one event. -/
def applyEvent (rail : CtRail Point) (state : AccountState) (ev : ConfidentialEvent Point) :
    Except String AccountState := do
  let state ← applyBody rail state ev.body
  pure { state with syncedLedger := max state.syncedLedger ev.ledger }

/-! ## What the tabs share -/

/-- What becomes of a transaction that is submitted now. -/
structure Submission where
  lands : Bool
  ledger : Nat
  txHash : String
  id : String
  /-- does `signAndSubmit` see it land? -/
  seen : Bool
  /-- what it answers otherwise, humanized -/
  failure : String

structure FetchedEvents (Point : Type) where
  events : List (ConfidentialEvent Point)
  cursor : Option Nat
  latestLedger : Nat

/-- The outside at one moment. -/
structure CtOutside (Point : Type) where
  /-- what the event sources return from a cursor on, or their failure -/
  fetchEvents : List (Landed Point) → Option Nat → Except String (FetchedEvents Point)
  simulate : Except String Unit
  auditorKey : Nat → Except String Point
  publicBalance : Except String Int
  /-- two draws of `randomScalar` -/
  salt : Nat
  ephemeral : Nat
  proverUp : Except String Unit
  submit : Submission

/-- A save of `setSpendable`: the state that it had loaded, the state that it
wrote over, and the opening. -/
structure SpendableSave where
  loaded : AccountState
  overwritten : Option AccountState
  next : Opening
deriving DecidableEq

/-- The chain, the stored state of the account, the saves of `setSpendable` so
far, and the outside. -/
structure CtWorld (Point : Type) where
  chain : List (Landed Point)
  store : Option AccountState
  saves : List SpendableSave
  outside : CtOutside Point

abbrev CtOp (Point : Type) := ExceptT String (Async (CtWorld Point))

def world : CtOp Point (CtWorld Point) := ExceptT.lift Async.read

/-- What the answer to an `await` is. -/
def answer {α : Type} (result : Except String α) : CtOp Point α := ExceptT.mk (pure result)

def loadState : CtOp Point (Option AccountState) := do
  let w ← world
  pure w.store

def saveState (state : AccountState) : CtOp Point Unit :=
  ExceptT.lift (Async.update fun w => { w with store := some state })

/-- `hybridFetchEvents` -/
def fetchEvents (startCursor : Option Nat) : CtOp Point (FetchedEvents Point) := do
  let w ← world
  answer (w.outside.fetchEvents w.chain startCursor)

/-- Read a confidential account; a failed simulation counts as none. -/
def confidentialBalance (rail : CtRail Point) (address : String) :
    CtOp Point (Option (OnChainAccount Point)) := do
  let w ← world
  match w.outside.simulate with
  | .error _ => pure none
  | .ok _ => pure (rail.token.account w.chain address)

def auditorKey (auditorId : Nat) : CtOp Point Point := do
  let w ← world
  answer (w.outside.auditorKey auditorId)

/-! ### `StateEngine` -/

def sync (rail : CtRail Point) : CtOp Point AccountState := do
  let prior ← loadState
  let state := prior.getD (freshState rail.address)
  let fetched ← fetchEvents state.cursor
  let state ← answer (fetched.events.foldlM (applyEvent rail) state)
  let state := { state with
    cursor := fetched.cursor <|> state.cursor
    syncedLedger := max state.syncedLedger fetched.latestLedger }
  saveState state
  pure state

def current (rail : CtRail Point) : CtOp Point AccountState := do
  let state ← loadState
  pure (state.getD (freshState rail.address))

def setSpendable (rail : CtRail Point) (next : Opening) : CtOp Point AccountState := do
  let loaded ← current rail
  let state := { loaded with spendable := next }
  ExceptT.lift (Async.update fun w =>
    { w with store := some state, saves := w.saves ++ [⟨loaded, w.store, next⟩] })
  pure state

structure Verified where
  ok : Bool
  spendableOk : Bool
  receivingOk : Bool
deriving DecidableEq

def verifyAgainstChain (rail : CtRail Point) : CtOp Point Verified := do
  let state ← current rail
  match ← confidentialBalance rail rail.address with
  | none => pure ⟨false, false, false⟩
  | some onchain =>
      let spendableOk :=
        decide (commit rail.crypto state.spendable.v state.spendable.r = onchain.spendableBalance)
      let receivingOk :=
        decide (commit rail.crypto state.receiving.v state.receiving.r = onchain.receivingBalance)
      pure ⟨spendableOk && receivingOk, spendableOk, receivingOk⟩

/-! ### `CtRail` -/

/-- The transaction, as it lands if it is submitted now. -/
def CtWorld.tx (w : CtWorld Point) (call : TokenCall Point) : Landed Point :=
  ⟨w.outside.submit.ledger, w.outside.submit.txHash, w.outside.submit.id, call⟩

def CtWorld.lands (w : CtWorld Point) (rail : CtRail Point) (call : TokenCall Point) : Bool :=
  w.outside.submit.lands && rail.token.accepts w.chain (w.tx call)

/-- Sign and submit a call: it lands or not, and later the answer comes. -/
def invoke (rail : CtRail Point) (call : TokenCall Point) : CtOp Point String := do
  let result ← ExceptT.lift (Async.await
    (fun w => if w.lands rail call then { w with chain := w.chain ++ [w.tx call] } else w)
    (fun w => pure (if w.lands rail call && w.outside.submit.seen then
        .ok w.outside.submit.txHash
      else .error w.outside.submit.failure)))
  let _ ← world
  answer result

def merge (rail : CtRail Point) : CtOp Point String := invoke rail (.merge rail.address)

def transfer (rail : CtRail Point) (dst : String) (amount : Int) : CtOp Point String := do
  match ← confidentialBalance rail dst with
  | none => throw "Recipient has not activated confidential transfers yet."
  | some recipient => do
      let kAudR ← auditorKey recipient.auditorId
      let kAudS ← auditorKey rail.auditorId
      let s ← sync rail
      if s.spendable.v < amount then throw "Insufficient spendable balance."
      let w ← world
      let witness ← answer (buildTransferWitness rail.crypto rail.keys s.spendable amount
        recipient.viewingPublicKey kAudR kAudS w.outside.salt)
      let w ← world
      answer w.outside.proverUp
      if !witness.inputs.main rail.crypto then throw "Cannot satisfy constraint"
      let hash ← invoke rail (.transfer rail.address dst witness.payload)
      let _ ← setSpendable rail witness.next
      pure hash

def withdraw (rail : CtRail Point) (amount : Int) : CtOp Point String := do
  let kAudS ← auditorKey rail.auditorId
  let s ← sync rail
  if s.spendable.v < amount then throw "Insufficient spendable balance."
  let w ← world
  let witness ← answer (buildWithdrawWitness rail.crypto rail.keys s.spendable amount kAudS
    w.outside.salt w.outside.ephemeral)
  let w ← world
  answer w.outside.proverUp
  if !witness.inputs.main rail.crypto then throw "Cannot satisfy constraint"
  let hash ← invoke rail (.withdraw rail.address rail.address amount witness.payload)
  let _ ← setSpendable rail witness.next
  pure hash

structure CtView where
  registered : Bool
  publicXlm : Int
  spendable : Int
  receiving : Int
  syncedLedger : Nat
  matchesChain : Option Bool

def refresh (rail : CtRail Point) : CtOp Point CtView := do
  let state ← sync rail
  let onchain ← confidentialBalance rail rail.address
  let w ← world
  let publicXlm ← answer w.outside.publicBalance
  let matchesChain ← match onchain with
    | none => pure none
    | some _ => do
        let verified ← verifyAgainstChain rail
        pure (some verified.ok)
  pure
    { registered := onchain.isSome
      publicXlm := publicXlm
      spendable := state.spendable.v
      receiving := state.receiving.v
      syncedLedger := state.syncedLedger
      matchesChain := matchesChain }

inductive CtCall where
  | transfer (dst : String) (amount : Int)
  | withdraw (amount : Int)
  | merge
  | refresh

/-- The program of a call; its callers go on whether it throws or not. -/
def CtCall.program (rail : CtRail Point) : CtCall → Async (CtWorld Point) Unit
  | .transfer dst amount => do
      let _ ← (Wallet.transfer rail dst amount).run
  | .withdraw amount => do
      let _ ← (Wallet.withdraw rail amount).run
  | .merge => do
      let _ ← (Wallet.merge rail).run
  | .refresh => do
      let _ ← (Wallet.refresh rail).run

end

end Wallet

end PrivacyWallet
