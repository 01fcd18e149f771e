import PrivacyWallet.Indexer.Poller

/-!
# The bootnode's `getEvents`

The handler behind the bootnode protocol's `getEvents`: the checks on the
parameters, the reads of the `events` table, and the choice between a page,
a cache miss and a handoff to the client's own RPC. Each `await` of the
source is an access of its own. The parameters arrive as the schema check
left them: its error, or the parsed value.
-/

namespace PrivacyWallet

namespace Bootnode

open Indexer

/-! ## Outcomes -/

def retentionHandoffCode : Int := -32002

def invalidParamsCode : Int := -32602

def cacheMissCode : Int := -32004

def internalErrorCode : Int := -32603

def defaultLimit : Nat := 1000

def maxLimit : Nat := 10000

structure HandoffData where
  reason : String
  fromLedger : Nat
deriving DecidableEq

structure JsonRpcError where
  code : Int
  message : String
  data : Option HandoffData
deriving DecidableEq

abbrev RpcOutcome (α : Type) : Type := Except JsonRpcError α

def err {α : Type} (code : Int) (message : String) : RpcOutcome α :=
  .error ⟨code, message, none⟩

/-- An event on the wire. The ISO text of `ledgerClosedAt` stands as its
milliseconds. -/
structure WireEvent where
  type : String
  ledger : Nat
  ledgerClosedAt : Int
  contractId : String
  id : String
  operationIndex : Nat
  transactionIndex : Nat
  txHash : String
  inSuccessfulContractCall : Bool
  topic : List String
  value : String
deriving DecidableEq

structure GetEventsResult where
  events : List WireEvent
  latestLedger : Nat
  latestLedgerCloseTime : String
  oldestLedger : Nat
  oldestLedgerCloseTime : Int
  cursor : String
deriving DecidableEq

def mapEventRow (row : EventRow) : WireEvent where
  type := "contract"
  ledger := row.ledger
  ledgerClosedAt := row.ledgerClosedAt
  contractId := row.contractId
  id := row.id
  operationIndex := row.opIndex
  transactionIndex := row.txIndex
  txHash := row.txHash
  inSuccessfulContractCall := row.inSuccessfulCall
  topic := row.topic
  value := row.valueXdr

/-! ## Parameters -/

structure ContractEventFilter where
  type : String
  topics : List (List String)
  contractIds : List String

structure Pagination where
  limit : Option Nat
  cursor : Option String

structure GetEventsParams where
  filters : List ContractEventFilter
  pagination : Pagination
  startLedger : Option Nat
  endLedger : Option Nat
  xdrFormat : Option String

/-- `ids.sort()` -/
def sortIds (ids : List String) : List String := ids.insertionSort (· ≤ ·)

/-- One filter, for contract events of any topic, of exactly the allowed
contracts. -/
def isAllowedFilters (filters : List ContractEventFilter) (allowed : List String) : Bool :=
  match filters with
  | [first] =>
      decide (first.type = "contract") && decide (first.topics = [["**"]])
        && decide (sortIds first.contractIds = sortIds allowed)
  | _ => false

def clampLimit (limit : Option Nat) : Nat := max 1 (min (limit.getD defaultLimit) maxLimit)

/-- Where a request starts. -/
inductive EventsStart where
  | ledger (startLedger : Nat)
  | cursor (cursor : String)

/-- Exactly one of `startLedger` and `pagination.cursor`. -/
def startOf (params : GetEventsParams) : Except String EventsStart :=
  match params.startLedger, params.pagination.cursor with
  | some _, some _ =>
      .error "getEvents params must include either startLedger or pagination.cursor, not both"
  | none, none =>
      .error "getEvents params must include either startLedger or pagination.cursor"
  | some startLedger, none => .ok (.ledger startLedger)
  | none, some cursor => .ok (.cursor cursor)

/-! ## The handler -/

/-- What `getLatestLedger` of the upstream RPC answers. -/
structure UpstreamLatestLedger where
  id : String
  protocolVersion : Nat
  sequence : Nat
  closeTime : String

/-- The bootnode's network: the upstream's next answer, `none` if that call
throws. -/
abbrev Upstream : Type := Option UpstreamLatestLedger

structure BootnodeHandlerDeps where
  allowedContractIds : List String

variable (deps : BootnodeHandlerDeps)

/-- The rows from where the request starts; `none` if its cursor names no
row. -/
def selectRows (start : EventsStart) (limit : Nat) :
    Async (World Upstream) (Option (List EventRow)) :=
  match start with
  | .cursor afterId =>
      listEventsAfterId World.db ⟨deps.allowedContractIds, afterId, none, limit⟩
  | .ledger fromLedger => do
      let w ← Async.read
      pure (some (w.db.listEventsFromLedger ⟨deps.allowedContractIds, fromLedger, none, limit⟩))

/-- The answer without rows: a handoff past our tip, if there is one. -/
def handoff : Option LedgerBounds → RpcOutcome GetEventsResult
  | none => err cacheMissCode "bootnode warming up; retry later"
  | some bounds => .error ⟨retentionHandoffCode, "Continue syncing on your RPC endpoint",
      some ⟨"retention_threshold", bounds.max + 1⟩⟩

/-- The page with the rows `firstRow :: rows`. -/
def page (bounds : Option LedgerBounds) (upstream : UpstreamLatestLedger)
    (firstRow : EventRow) (rows : List EventRow) : GetEventsResult where
  events := (firstRow :: rows).map mapEventRow
  latestLedger := upstream.sequence
  latestLedgerCloseTime := upstream.closeTime
  oldestLedger := (bounds.map (·.min)).getD 0
  oldestLedgerCloseTime := firstRow.ledgerClosedAt
  cursor := (rows.getLastD firstRow).id

/-- The handler once the parameters are accepted. `none` is a throw. -/
def serveEvents (start : EventsStart) (limit : Nat) :
    Async (World Upstream) (Option (RpcOutcome GetEventsResult)) := do
  match ← selectRows deps start limit with
  | none => pure (some (err cacheMissCode "cache miss; cursor not found"))
  | some rows => do
      let w ← Async.read
      let bounds := w.db.getLedgerBounds (some deps.allowedContractIds)
      match rows with
      | [] => pure (some (handoff bounds))
      | firstRow :: rows => do
          let w ← Async.read
          pure (w.net.map fun upstream => .ok (page bounds upstream firstRow rows))

def handleGetEvents (parsed : Except String GetEventsParams) :
    Async (World Upstream) (Option (RpcOutcome GetEventsResult)) :=
  match parsed with
  | .error message =>
      pure (some (err invalidParamsCode s!"invalid getEvents params: {message}"))
  | .ok params =>
      if params.endLedger.isSome then
        pure (some (err invalidParamsCode "endLedger is not supported by bootnode"))
      else if params.xdrFormat.isSome then
        pure (some (err invalidParamsCode "xdrFormat is not supported by bootnode"))
      else
        match startOf params with
        | .error message => pure (some (err invalidParamsCode message))
        | .ok start =>
            if isAllowedFilters params.filters deps.allowedContractIds = false then
              pure (some (err invalidParamsCode "unsupported filters"))
            else serveEvents deps start (clampLimit params.pagination.limit)

/-- The route: a throw is an internal error. -/
def getEventsRoute (parsed : Except String GetEventsParams) :
    Async (World Upstream) (RpcOutcome GetEventsResult) := do
  let outcome ← handleGetEvents deps parsed
  pure (outcome.getD (err internalErrorCode "internal error"))

/-! ## What a request reads and answers -/

variable {deps}

theorem one_le_clampLimit (limit : Option Nat) : 1 ≤ clampLimit limit := le_max_left _ _

/-- The handler only reads. -/
theorem selectRows_readOnly (start : EventsStart) (limit : Nat) :
    (selectRows deps start limit).ReadOnly := by
  cases start with
  | ledger fromLedger => exact Async.ReadOnly.read.bind fun w => .pure _
  | cursor afterId =>
      refine Async.ReadOnly.read.bind fun w => ?_
      cases w.db.findEvent deps.allowedContractIds afterId with
      | none => exact .pure _
      | some cursor => exact Async.ReadOnly.read.bind fun w => .pure _

theorem serveEvents_readOnly (start : EventsStart) (limit : Nat) :
    (serveEvents deps start limit).ReadOnly := by
  refine (selectRows_readOnly start limit).bind fun rows => ?_
  cases rows with
  | none => exact .pure _
  | some rows =>
      refine Async.ReadOnly.read.bind fun w => ?_
      cases rows with
      | nil => exact .pure _
      | cons firstRow rows => exact Async.ReadOnly.read.bind fun w => .pure _

end Bootnode

end PrivacyWallet
