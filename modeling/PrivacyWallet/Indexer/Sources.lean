import PrivacyWallet.Indexer.Poller
import PrivacyWallet.Lib.Text

/-!
# The sources of the streams

The cursor of a stream is a text. `ledger:N` is a ledger to start from, a
text without a tag a token of the network; the SPP stream tags what its RPC
serves with `rpc:`, and the bootnode's handoff is stored as `handoff:N`.
`fetchPage` reads the mode and the place off the text, asks the network, and
writes the next text.

The network answers as a function of its time; every call is logged with
its answer.
-/

namespace PrivacyWallet

namespace Indexer

open Text

/-! ## The network -/

structure EventsPage where
  events : List RawEvent
  latestLedger : Nat
  /-- `none` when there is no further cursor -/
  cursor : Option String
  oldestLedger : Nat
deriving DecidableEq

/-- Either `startLedger` or `cursor` of the fetch options. -/
inductive FetchStart where
  | startLedger (ledger : Option Nat)
  | cursor (cursor : String)
deriving DecidableEq

structure FetchRpcEventsOptions where
  contractIds : List String
  limit : Nat
  start : FetchStart
deriving DecidableEq

structure FetchBootnodeEventsOptions where
  contractIds : List String
  start : FetchStart
deriving DecidableEq

/-- A page, or the bootnode's `{ handoff: { fromLedger } }`. -/
inductive BootnodePage where
  | page (page : EventsPage)
  | handoff (fromLedger : Nat)
deriving DecidableEq

structure Network where
  fetchRpcEvents : Nat → FetchRpcEventsOptions → EventsPage
  fetchBootnodeEvents : Nat → FetchBootnodeEventsOptions → BootnodePage

inductive Call where
  | rpc (opts : FetchRpcEventsOptions) (answer : EventsPage)
  | bootnode (opts : FetchBootnodeEventsOptions) (answer : BootnodePage)
deriving DecidableEq

/-- The network's time, and the calls it answered. -/
structure Net where
  time : Nat
  calls : List Call

variable (network : Network)

def fetchRpcEvents (opts : FetchRpcEventsOptions) : Async (World Net) EventsPage :=
  .await (fun w => { w with net.calls :=
      w.net.calls ++ [.rpc opts (network.fetchRpcEvents w.net.time opts)] })
    fun w => pure (network.fetchRpcEvents w.net.time opts)

def fetchBootnodeEvents (opts : FetchBootnodeEventsOptions) :
    Async (World Net) BootnodePage :=
  .await (fun w => { w with net.calls :=
      w.net.calls ++ [.bootnode opts (network.fetchBootnodeEvents w.net.time opts)] })
    fun w => pure (network.fetchBootnodeEvents w.net.time opts)

/-! ## Resume tokens -/

/-- A ledger read from text may be `NaN`, which is `none`. -/
inductive ResumeToken where
  | cursor (value : String)
  | ledger (value : Option Nat)
deriving DecidableEq

def ledgerTag : String := "ledger:"

def handoffTag : String := "handoff:"

def rpcTag : String := "rpc:"

def encodeResumeToken : ResumeToken → String
  | .ledger (some value) => ledgerTag ++ toString value
  | .ledger none => ledgerTag ++ "NaN"
  | .cursor value => value

def decodeResumeToken (raw : String) : ResumeToken :=
  if startsWith raw ledgerTag then .ledger (number (slice raw ledgerTag.length))
  else .cursor raw

def encodeRpcModeLedgerCursor (ledger : Nat) : String :=
  rpcTag ++ encodeResumeToken (.ledger (some ledger))

def isRpcModeCursor (cursor : String) : Bool := startsWith cursor rpcTag

def nextResumeTokenFromPage (page : EventsPage) : ResumeToken :=
  match page.cursor with
  | some cursor => .cursor cursor
  | none => .ledger (some (page.latestLedger + 1))

/-- `resumeTokenToRpcFetchOpts`, and the same for the bootnode. -/
def resumeTokenToFetchOpts (token : Option ResumeToken) (defaultStartLedger : Nat) :
    FetchStart :=
  match token with
  | none => .startLedger (some defaultStartLedger)
  | some (.ledger value) => .startLedger value
  | some (.cursor value) => .cursor value

/-! ## The sources -/

def defaultPageLimit : Nat := 100

structure SourceConfig where
  contractIds : List String
  startLedger : Nat
  limit : Option Nat

variable (config : SourceConfig)

def rpcOpts (token : Option ResumeToken) : FetchRpcEventsOptions where
  contractIds := config.contractIds
  limit := config.limit.getD defaultPageLimit
  start := resumeTokenToFetchOpts token config.startLedger

def bootnodeOpts (token : Option ResumeToken) : FetchBootnodeEventsOptions where
  contractIds := config.contractIds
  start := resumeTokenToFetchOpts token config.startLedger

def makeRpcSource : StreamSource Net := fun cursor => do
  let page ← fetchRpcEvents network (rpcOpts config (cursor.map decodeResumeToken))
  pure ⟨page.events, some (encodeResumeToken (nextResumeTokenFromPage page))⟩

/-- `fetchViaRpc` of `makeBootnodeThenRpcSource` -/
def fetchViaRpc (token : ResumeToken) : Async (World Net) StreamFetchResult := do
  let page ← fetchRpcEvents network (rpcOpts config (some token))
  pure ⟨page.events, some (rpcTag ++ encodeResumeToken (nextResumeTokenFromPage page))⟩

/-- What a bootnode answer makes of the page. -/
def bootnodeResult : BootnodePage → StreamFetchResult
  | .handoff fromLedger => ⟨[], some (handoffTag ++ toString fromLedger)⟩
  | .page page => ⟨page.events, some (encodeResumeToken (nextResumeTokenFromPage page))⟩

def fetchViaBootnode (token : Option ResumeToken) : Async (World Net) StreamFetchResult := do
  let page ← fetchBootnodeEvents network (bootnodeOpts config token)
  pure (bootnodeResult page)

def makeBootnodeThenRpcSource : StreamSource Net
  | none => fetchViaBootnode network config none
  | some cursor =>
      if startsWith cursor rpcTag then
        fetchViaRpc network config (decodeResumeToken (slice cursor rpcTag.length))
      else if startsWith cursor handoffTag then
        fetchViaRpc network config (.ledger (number (slice cursor handoffTag.length)))
      else fetchViaBootnode network config (some (decodeResumeToken cursor))

/-! ## The backfill loader's cursor -/

inductive InitReason where
  | noExistingCursor
  | existingCursorStillBootnodeMode
  | alreadyRpcMode
deriving DecidableEq

structure SppCursorInitResult where
  initialized : Bool
  cursor : Option String
  reason : InitReason
deriving DecidableEq

def initSppCursor {N : Type} (streamKey : String) (lastBackfilledLedger : Nat) :
    Async (World N) SppCursorInitResult := do
  let w ← Async.read
  let existing := w.db.getCursor streamKey
  if existing.any isRpcModeCursor then pure ⟨false, existing, .alreadyRpcMode⟩
  else do
    let cursor := encodeRpcModeLedgerCursor (lastBackfilledLedger + 1)
    Async.update fun w => { w with db := w.db.setCursor streamKey cursor }
    pure ⟨true, some cursor,
      if existing.isNone then .noExistingCursor else .existingCursorStillBootnodeMode⟩

theorem initSppCursor_eq {N : Type} (streamKey : String) (lastBackfilledLedger : Nat) :
    initSppCursor (N := N) streamKey lastBackfilledLedger = .await id fun w =>
      if (w.db.getCursor streamKey).any isRpcModeCursor then
        .done ⟨false, w.db.getCursor streamKey, .alreadyRpcMode⟩
      else
        let cursor := encodeRpcModeLedgerCursor (lastBackfilledLedger + 1)
        .await (fun w' => { w' with db := w'.db.setCursor streamKey cursor })
          fun _ => .done ⟨true, some cursor,
            if (w.db.getCursor streamKey).isNone then .noExistingCursor
            else .existingCursorStillBootnodeMode⟩ := rfl

/-! ## Reading back what was written -/

theorem rpcTag_apart_handoffTag : Apart rpcTag handoffTag := by decide

theorem rpcTag_apart_ledgerTag : Apart rpcTag ledgerTag := by decide

theorem handoffTag_apart_ledgerTag : Apart handoffTag ledgerTag := by decide

/-- A token of the network, which is not to begin with `ledger:`. -/
def ResumeToken.Untagged : ResumeToken → Prop
  | .cursor value => startsWith value ledgerTag = false
  | .ledger value => value.isSome

theorem decode_encodeResumeToken {token : ResumeToken} (h : token.Untagged) :
    decodeResumeToken (encodeResumeToken token) = token := by
  cases token with
  | cursor value =>
      unfold encodeResumeToken decodeResumeToken
      simp [show startsWith value ledgerTag = false from h]
  | ledger value =>
      cases value with
      | none => cases h
      | some ledger => simp [encodeResumeToken, decodeResumeToken]

theorem nextResumeTokenFromPage_untagged {page : EventsPage}
    (h : ∀ c, page.cursor = some c → startsWith c ledgerTag = false) :
    (nextResumeTokenFromPage page).Untagged := by
  unfold nextResumeTokenFromPage
  split
  · rename_i cursor hcursor
    exact h cursor hcursor
  · rfl

end Indexer

end PrivacyWallet
