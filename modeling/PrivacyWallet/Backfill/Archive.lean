import Mathlib.Algebra.Group.Nat.Defs
import PrivacyWallet.Indexer.Poller
import PrivacyWallet.Lib.Text

/-!
# Two encodings of one event

The RPC reports the place of an event in fields of its own, the archive
packs it into a TOID: ledger, transaction and operation in one number, with
the operation counted from 1. `mapEvent` and `mapArchiveRecordToRawEvent`
turn either into a row.

A `ChainEvent` is an event before either encoding. Each mapping is computed
on it to one shape, `ChainEvent.row` with an operation index
(`mapEvent_rpc`, `mapArchiveRecordToRawEvent_archived`; the second is the
decoding of the TOID, `decomposeToid_toidOf`), so the rows can be compared by
that number alone: both mappings keep the number they find, and one counts
from 0, the other from 1.

The ids carry the number in decimal, and the indices can be read off an id
(`naturalEventId_inj`). So the two rows of an event never have the same id,
and a table that is offered both, among any other writes and in any order,
holds both: inserting with a key keeps the first row of each id
(`archive_and_live_rows_differ`).
-/

namespace PrivacyWallet

namespace Backfill

open Indexer Text

/-! ## Rows of the RPC -/

/-- An event of the RPC. XDR values stand as their base64 text, the ISO text
of `ledgerClosedAt` as its milliseconds. -/
structure EventResponse where
  id : String
  contractId : Option String
  ledger : Nat
  ledgerClosedAt : Int
  txHash : String
  transactionIndex : Nat
  operationIndex : Nat
  topic : List String
  value : String
  inSuccessfulContractCall : Bool

def eventIndexFromId (id : String) : Except String Nat :=
  match number (afterLast '-' id) with
  | some n => .ok n
  | none => .error s!"cannot parse event index from event id \"{id}\""

def naturalEventId (ledger : Nat) (txHash : String) (opIndex eventIndex : Nat) : String :=
  ledger.repr ++ "-" ++ txHash ++ "-" ++ opIndex.repr ++ "-" ++ eventIndex.repr

def mapEvent (event : EventResponse) : Except String RawEvent :=
  match event.contractId with
  | none => .error s!"fetchRpcEvents: event {event.id} has no contractId"
  | some contractId => do
      let eventIndex ← eventIndexFromId event.id
      pure {
        id := naturalEventId event.ledger event.txHash event.operationIndex eventIndex
        contractId
        ledger := event.ledger
        ledgerClosedAt := event.ledgerClosedAt
        txHash := event.txHash
        txIndex := event.transactionIndex
        opIndex := event.operationIndex
        eventIndex
        topic := event.topic
        valueXdr := event.value
        inSuccessfulCall := event.inSuccessfulContractCall }

/-! ## Rows of the archive -/

structure ArchiveEventRecord where
  /-- `<toid>-<eventIndex>` -/
  id : String
  /-- Unix seconds -/
  ts : Int
  contract : String
  topicsXdr : List String
  bodyXdr : String
deriving DecidableEq

structure ToidParts where
  ledger : Nat
  txIndex : Nat
  opIndex : Nat
deriving DecidableEq

def opOrderBits : Nat := 12

def txOrderBits : Nat := 20

def opOrderMask : Nat := 0xfff

def txOrderMask : Nat := 0xfffff

def decomposeToid (toid : Nat) : ToidParts where
  ledger := toid >>> (opOrderBits + txOrderBits)
  txIndex := (toid >>> opOrderBits) &&& txOrderMask
  opIndex := toid &&& opOrderMask

def toidFromArchiveId (id : String) : Except String Nat :=
  match beforeLast '-' id with
  | none => .error s!"toidFromArchiveId: cannot parse toid from archive event id \"{id}\""
  | some toidPart =>
      match number toidPart with
      | some toid =>
          if toidPart = "" then
            .error s!"toidFromArchiveId: archive event id \"{id}\" has a non-numeric toid segment \"{toidPart}\""
          else .ok toid
      | none =>
          .error s!"toidFromArchiveId: archive event id \"{id}\" has a non-numeric toid segment \"{toidPart}\""

def mapArchiveRecordToRawEvent (record : ArchiveEventRecord) (txHash : String) :
    Except String RawEvent := do
  let toid ← toidFromArchiveId record.id
  let parts := decomposeToid toid
  let eventIndex ← eventIndexFromId record.id
  pure {
    id := naturalEventId parts.ledger txHash parts.opIndex eventIndex
    contractId := record.contract
    ledger := parts.ledger
    ledgerClosedAt := record.ts * 1000
    txHash
    txIndex := parts.txIndex
    opIndex := parts.opIndex
    eventIndex
    topic := record.topicsXdr
    valueXdr := record.bodyXdr
    inSuccessfulCall := true }

/-- The first event of the pool. -/
example : decomposeToid 16209099200970753 = ⟨3773975, 12, 1⟩ := by decide

/-! ## One event on the chain -/

/-- An event, with its transaction and operation within the widths of a
TOID. The operation counts from 0. -/
structure ChainEvent where
  ledger : Nat
  tx : Nat
  op : Nat
  index : Nat
  contractId : String
  txHash : String
  closeTime : Int
  topics : List String
  value : String
  tx_lt : tx < 2 ^ 20
  op_lt : op + 1 < 2 ^ 12
deriving DecidableEq

/-- The packed order of an operation. -/
def toidOf (ledger tx op : Nat) : Nat := (ledger * 2 ^ 20 + tx) * 2 ^ 12 + op

/-- As the RPC reports it. -/
def ChainEvent.rpc (e : ChainEvent) : EventResponse where
  id := padZeros 19 (toidOf e.ledger e.tx e.op) ++ "-" ++ padZeros 10 e.index
  contractId := some e.contractId
  ledger := e.ledger
  ledgerClosedAt := e.closeTime * 1000
  txHash := e.txHash
  transactionIndex := e.tx
  operationIndex := e.op
  topic := e.topics
  value := e.value
  inSuccessfulContractCall := true

/-- As the archive records it. -/
def ChainEvent.archived (e : ChainEvent) : ArchiveEventRecord where
  id := (toidOf e.ledger e.tx (e.op + 1)).repr ++ "-" ++ padZeros 4 e.index
  ts := e.closeTime
  contract := e.contractId
  topicsXdr := e.topics
  bodyXdr := e.value

/-- The row of an event with a given operation index. -/
def ChainEvent.row (e : ChainEvent) (opIndex : Nat) : RawEvent where
  id := naturalEventId e.ledger e.txHash opIndex e.index
  contractId := e.contractId
  ledger := e.ledger
  ledgerClosedAt := e.closeTime * 1000
  txHash := e.txHash
  txIndex := e.tx
  opIndex := opIndex
  eventIndex := e.index
  topic := e.topics
  valueXdr := e.value
  inSuccessfulCall := true

theorem dash_notMem_padZeros (width n : Nat) : '-' ∉ (padZeros width n).toList := by
  intro h
  have hdigit := isDigit_of_mem_padZeros h
  revert hdigit
  decide

theorem eventIndexFromId_eq (pre : String) (width n : Nat) :
    eventIndexFromId (pre ++ "-" ++ padZeros width n) = .ok n := by
  unfold eventIndexFromId
  rw [show "-" = String.ofList ['-'] from rfl, afterLast_eq (dash_notMem_padZeros width n),
    number_padZeros]

theorem toidFromArchiveId_eq (toid width n : Nat) :
    toidFromArchiveId (toid.repr ++ "-" ++ padZeros width n) = .ok toid := by
  unfold toidFromArchiveId
  rw [show "-" = String.ofList ['-'] from rfl, beforeLast_eq (dash_notMem_padZeros width n)]
  simp

/-- The fields of a TOID. -/
theorem decomposeToid_toidOf {ledger tx op : Nat} (htx : tx < 2 ^ 20) (hop : op < 2 ^ 12) :
    decomposeToid (toidOf ledger tx op) = ⟨ledger, tx, op⟩ := by
  have hshift : toidOf ledger tx op >>> 12 = ledger * 2 ^ 20 + tx := by
    rw [toidOf, Nat.shiftRight_eq_div_pow]
    omega
  have hledger : toidOf ledger tx op >>> (opOrderBits + txOrderBits) = ledger := by
    rw [opOrderBits, txOrderBits, Nat.shiftRight_add, hshift, Nat.shiftRight_eq_div_pow]
    omega
  have htxIndex : (toidOf ledger tx op >>> opOrderBits) &&& txOrderMask = tx := by
    rw [opOrderBits, hshift, txOrderMask, show 0xfffff = 2 ^ 20 - 1 from rfl,
      Nat.and_two_pow_sub_one_eq_mod]
    omega
  have hopIndex : toidOf ledger tx op &&& opOrderMask = op := by
    rw [opOrderMask, show 0xfff = 2 ^ 12 - 1 from rfl, Nat.and_two_pow_sub_one_eq_mod, toidOf]
    omega
  rw [decomposeToid, hledger, htxIndex, hopIndex]

/-- The live row has the RPC's operation index. -/
theorem mapEvent_rpc (e : ChainEvent) : mapEvent e.rpc = .ok (e.row e.op) := by
  unfold mapEvent ChainEvent.rpc
  dsimp only
  rw [eventIndexFromId_eq]
  rfl

/-- The backfilled row has the TOID's. -/
theorem mapArchiveRecordToRawEvent_archived (e : ChainEvent) :
    mapArchiveRecordToRawEvent e.archived e.txHash = .ok (e.row (e.op + 1)) := by
  unfold mapArchiveRecordToRawEvent ChainEvent.archived
  dsimp only
  rw [toidFromArchiveId_eq, eventIndexFromId_eq]
  change Except.ok _ = _
  rw [decomposeToid_toidOf e.tx_lt e.op_lt]
  rfl

theorem dash_notMem_repr (n : Nat) : '-' ∉ n.repr.toList := by
  intro h
  rw [Nat.toList_repr] at h
  have hdigit := Nat.isDigit_of_mem_toDigits (by decide) (by decide) h
  revert hdigit
  decide

/-- The indices can be read off the id: they stand between dashes, and a hash and a decimal
have none. -/
theorem naturalEventId_inj {ledger ledger' op op' index index' : Nat} {txHash txHash' : String}
    (h : naturalEventId ledger txHash op index = naturalEventId ledger' txHash' op' index') :
    op = op' ∧ index = index' ∧ ledger.repr ++ "-" ++ txHash = ledger'.repr ++ "-" ++ txHash' := by
  unfold naturalEventId at h
  rw [show "-" = String.ofList ['-'] from rfl] at h ⊢
  obtain ⟨h, hindex⟩ := separated_inj (dash_notMem_repr _) (dash_notMem_repr _) h
  obtain ⟨h, hop⟩ := separated_inj (dash_notMem_repr _) (dash_notMem_repr _) h
  exact ⟨repr_injective hop, repr_injective hindex, h⟩

/-! ## Both rows in one table -/

/-- What writes to the events table: a chunk of a backfill load, or the
transaction of a poll. -/
inductive TableWrite where
  | load (rows : List EventRow)
  | commit (page : StreamFetchResult)

def TableWrite.offers : TableWrite → List EventRow
  | .load rows => rows
  | .commit page => page.events.map toNewEventRow

variable {V : Type}

def TableWrite.apply (sdk : StellarSdk V) (streamKey : String) (ctTokenId : Option String)
    (db : Db) : TableWrite → Db
  | .load rows => db.insertEvents rows
  | .commit page => commitPage sdk streamKey ctTokenId page db

theorem events_of_writes (sdk : StellarSdk V) (streamKey : String)
    (ctTokenId : Option String) (writes : List TableWrite) (db : Db) :
    (writes.foldl (TableWrite.apply sdk streamKey ctTokenId) db).events
      = Table.insertAllNew (·.id) db.events (writes.flatMap TableWrite.offers) := by
  induction writes generalizing db with
  | nil => rfl
  | cons w writes ih =>
      rw [List.foldl_cons, ih, List.flatMap_cons, Table.insertAllNew_append]
      cases w with
      | load rows => rfl
      | commit page =>
          rw [TableWrite.apply, commitPage_events]
          rfl

/-- The two mappings agree on the event's id and place. -/
def SameRow (e : ChainEvent) : Prop :=
  ∃ live backfilled, mapEvent e.rpc = .ok live ∧
    mapArchiveRecordToRawEvent e.archived e.txHash = .ok backfilled ∧
    live.id = backfilled.id ∧ live.ledger = backfilled.ledger ∧
    live.txIndex = backfilled.txIndex ∧ live.opIndex = backfilled.opIndex ∧
    live.eventIndex = backfilled.eventIndex

theorem not_sameRow (e : ChainEvent) : ¬SameRow e := by
  rintro ⟨live, backfilled, hlive, hbackfilled, -, -, -, hop, -⟩
  rw [mapEvent_rpc] at hlive
  rw [mapArchiveRecordToRawEvent_archived] at hbackfilled
  cases hlive
  cases hbackfilled
  exact Nat.succ_ne_self e.op hop.symm

/-- The rows of an event never agree, and a table that is offered both, in
whatever order and among whatever other writes, ends up with a row for
each.

The two rows are one shape with neighbouring operation indices, which the ids
carry (`naturalEventId_inj`). Of every id that is offered one row is kept, so
both ids are in the table, and no row has both. -/
theorem archive_and_live_rows_differ (e : ChainEvent) :
    ¬SameRow e ∧
    ∃ live backfilled, mapEvent e.rpc = .ok live ∧
      mapArchiveRecordToRawEvent e.archived e.txHash = .ok backfilled ∧
      live.id ≠ backfilled.id ∧
      ∀ (sdk : StellarSdk V) (streamKey : String) (ctTokenId : Option String) (db : Db)
        (writes : List TableWrite),
        toNewEventRow live ∈ writes.flatMap TableWrite.offers →
        toNewEventRow backfilled ∈ writes.flatMap TableWrite.offers →
        ∃ r ∈ (writes.foldl (TableWrite.apply sdk streamKey ctTokenId) db).events,
          ∃ r' ∈ (writes.foldl (TableWrite.apply sdk streamKey ctTokenId) db).events,
            r.id = live.id ∧ r'.id = backfilled.id ∧ r ≠ r' := by
  refine ⟨not_sameRow e, e.row e.op, e.row (e.op + 1), mapEvent_rpc e,
    mapArchiveRecordToRawEvent_archived e, ?_, ?_⟩
  · intro hid
    exact Nat.succ_ne_self e.op (naturalEventId_inj hid).1.symm
  · intro sdk streamKey ctTokenId db writes hlive hbackfilled
    rw [events_of_writes]
    -- both ids are taken in the end, by whatever row came first
    have htaken : ∀ {row : EventRow}, row ∈ writes.flatMap TableWrite.offers →
        ∃ r ∈ Table.insertAllNew (·.id) db.events (writes.flatMap TableWrite.offers),
          r.id = row.id := by
      intro row hrow
      exact List.mem_map.mp (Table.mem_keys_insertAllNew.mpr
        (Or.inr (List.mem_map_of_mem (f := fun r : EventRow => r.id) hrow)))
    obtain ⟨r, hr, hrid⟩ := htaken hlive
    obtain ⟨r', hr', hrid'⟩ := htaken hbackfilled
    refine ⟨r, hr, r', hr', hrid, hrid', ?_⟩
    rintro rfl
    exact Nat.succ_ne_self e.op (naturalEventId_inj (hrid.symm.trans hrid')).1.symm

theorem first_operation_fits : 0 + 1 < 2 ^ 12 := by decide

/-- The pool's first event. -/
def poolEvent : ChainEvent where
  ledger := 3773975
  tx := 12
  op := 0
  index := 1
  contractId := "CAWCZ6EO4PM5EZOH5K7XSW3R46DGLOT3XSEH36OA5EOZUSJ5XS7BX6XI"
  txHash := "78ec67bab912b3e653fdad92b7f9784e9df7c41fb3407094095dd97b0ab2a34f"
  closeTime := 1784887928
  topics := ["AAAADwAAABNuZXdfbnVsbGlmaWVyX2V2ZW50AA==",
    "AAAACwDo7IYLyqpmoBFHC53ZnBwFA+pAlu6Zu8gDu6GAuvVA"]
  value := "AAAAEQAAAAEAAAAA"
  tx_lt := by decide
  op_lt := first_operation_fits

example : poolEvent.archived.id = "16209099200970753-0001" := by decide

/-- Its rows, and the table that was offered both. -/
theorem pool_event_held_twice :
    (mapEvent poolEvent.rpc).map (·.id) = .ok
        "3773975-78ec67bab912b3e653fdad92b7f9784e9df7c41fb3407094095dd97b0ab2a34f-0-1" ∧
      (mapArchiveRecordToRawEvent poolEvent.archived poolEvent.txHash).map (·.id) = .ok
        "3773975-78ec67bab912b3e653fdad92b7f9784e9df7c41fb3407094095dd97b0ab2a34f-1-1" ∧
      ¬SameRow poolEvent ∧
      ∀ writes ∈ [[TableWrite.load [toNewEventRow (poolEvent.row 1)],
            .commit ⟨[poolEvent.row 0], none⟩],
          [.commit ⟨[poolEvent.row 0], none⟩, .load [toNewEventRow (poolEvent.row 1)]]],
        (writes.foldl (TableWrite.apply mergeSdk "spp" none) .empty).events.length = 2 := by
  refine ⟨rfl, rfl, not_sameRow poolEvent, ?_⟩
  intro writes hwrites
  simp only [List.mem_cons, List.not_mem_nil, or_false] at hwrites
  rcases hwrites with rfl | rfl
  · rfl
  · rfl

end Backfill

end PrivacyWallet
