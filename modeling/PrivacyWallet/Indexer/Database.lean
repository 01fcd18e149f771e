import PrivacyWallet.Lib.Async
import PrivacyWallet.Lib.Table
import Mathlib.Data.List.Sort
import Mathlib.Data.Prod.Lex

/-!
# The indexer's database

The tables of the indexer and the queries on them, as `RepoOps` has them.
A table is the list of its rows. A query that takes two selects reads the
tables twice, and the tables may change in between (`listEventsAfterId`).
The `id` of an activity row is a random key that no query here reads.
-/

namespace PrivacyWallet

namespace Indexer

/-- A row of `events`. `ledgerClosedAt` is in milliseconds. -/
structure EventRow where
  id : String
  contractId : String
  ledger : Nat
  ledgerClosedAt : Int
  txHash : String
  txIndex : Nat
  opIndex : Nat
  eventIndex : Nat
  topic : List String
  valueXdr : String
  inSuccessfulCall : Bool
deriving DecidableEq

/-- A row for `ct_activity`. -/
structure NewCtActivityRow where
  account : String
  type : String
  counterparty : String
  amount : Option String
  ledger : Nat
  txHash : String
  eventId : String
  ciphertexts : List (String × String)
deriving DecidableEq

structure Db where
  events : List EventRow
  ctActivity : List NewCtActivityRow
  cursors : String → Option String

def Db.empty : Db where
  events := []
  ctActivity := []
  cursors := fun _ => none

/-- The place of an event on the chain. -/
def EventRow.position (r : EventRow) : Nat ×ₗ Nat ×ₗ Nat ×ₗ Nat :=
  toLex (r.ledger, toLex (r.txIndex, toLex (r.opIndex, r.eventIndex)))

theorem EventRow.ledger_le_of_position_le {a b : EventRow} (h : a.position ≤ b.position) :
    a.ledger ≤ b.ledger := by
  rcases Prod.Lex.toLex_le_toLex.mp h with h | ⟨h, -⟩
  · exact h.le
  · exact h.le

/-- In one ledger, a later transaction has a later place. -/
theorem EventRow.position_lt_of_txIndex_lt {a b : EventRow} (hledger : a.ledger = b.ledger)
    (htx : a.txIndex < b.txIndex) : a.position < b.position := by
  rw [EventRow.position, EventRow.position, Prod.Lex.toLex_lt_toLex]
  refine Or.inr ⟨hledger, ?_⟩
  rw [Prod.Lex.toLex_lt_toLex]
  exact Or.inl htx

/-! ## Writes -/

/-- `INSERT INTO events … ON CONFLICT (id) DO NOTHING` -/
def Db.insertEvents (db : Db) (rows : List EventRow) : Db :=
  { db with events := Table.insertAllNew (·.id) db.events rows }

def Db.getCursor (db : Db) (key : String) : Option String := db.cursors key

/-- `INSERT INTO cursors … ON CONFLICT (key) DO UPDATE` -/
def Db.setCursor (db : Db) (key value : String) : Db :=
  { db with cursors := Function.update db.cursors key (some value) }

/-- `INSERT INTO ct_activity`. The key is drawn for the row, so there is no
conflict to handle. -/
def Db.insertCtActivity (db : Db) (rows : List NewCtActivityRow) : Db :=
  { db with ctActivity := db.ctActivity ++ rows }

@[simp] theorem Db.insertEvents_ctActivity (db : Db) (rows : List EventRow) :
    (db.insertEvents rows).ctActivity = db.ctActivity := rfl

@[simp] theorem Db.insertCtActivity_events (db : Db) (rows : List NewCtActivityRow) :
    (db.insertCtActivity rows).events = db.events := rfl

@[simp] theorem Db.setCursor_events (db : Db) (key value : String) :
    (db.setCursor key value).events = db.events := rfl

@[simp] theorem Db.setCursor_ctActivity (db : Db) (key value : String) :
    (db.setCursor key value).ctActivity = db.ctActivity := rfl

@[simp] theorem Db.getCursor_setCursor (db : Db) (key value : String) :
    (db.setCursor key value).getCursor key = some value := Function.update_self ..

/-! ## Queries -/

structure EventsWindowQuery where
  contractIds : List String
  fromLedger : Nat
  toLedger : Option Nat
  limit : Nat

structure EventsAfterIdQuery where
  contractIds : List String
  afterId : String
  toLedger : Option Nat
  limit : Nat

structure LedgerBounds where
  min : Nat
  max : Nat
deriving DecidableEq

/-- `ORDER BY ledger, tx_index, op_index, event_index` -/
def orderByPosition (rows : List EventRow) : List EventRow :=
  rows.insertionSort (fun a b => a.position ≤ b.position)

/-- The conditions that both list queries share. -/
def inScope (contractIds : List String) (toLedger : Option Nat) (r : EventRow) : Bool :=
  decide (r.contractId ∈ contractIds) && toLedger.all (fun l => decide (r.ledger ≤ l))

def Db.listEventsFromLedger (db : Db) (q : EventsWindowQuery) : List EventRow :=
  (orderByPosition (db.events.filter fun r =>
    inScope q.contractIds q.toLedger r && decide (q.fromLedger ≤ r.ledger))).take q.limit

/-- The first select of `listEventsAfterId`: the row that the id names. -/
def Db.findEvent (db : Db) (contractIds : List String) (id : String) : Option EventRow :=
  db.events.find? fun r => decide (r.id = id) && decide (r.contractId ∈ contractIds)

/-- The second select: what lies strictly after that row. -/
def Db.listEventsAfter (db : Db) (cursor : EventRow) (q : EventsAfterIdQuery) :
    List EventRow :=
  (orderByPosition (db.events.filter fun r =>
    inScope q.contractIds q.toLedger r && decide (cursor.position < r.position))).take
      q.limit

/-- `listEventsAfterId`. The tables `db` of the shared state are read twice. -/
def listEventsAfterId {σ : Type} (db : σ → Db) (q : EventsAfterIdQuery) :
    Async σ (Option (List EventRow)) := do
  let s ← Async.read
  match (db s).findEvent q.contractIds q.afterId with
  | none => pure none
  | some cursor => do
      let s ← Async.read
      pure (some ((db s).listEventsAfter cursor q))

def Db.getLedgerBounds (db : Db) (contractIds : Option (List String)) :
    Option LedgerBounds := do
  let rows : List EventRow := match contractIds with
    | some ids => db.events.filter fun r => decide (r.contractId ∈ ids)
    | none => db.events
  let lo ← (rows.map (·.ledger)).min?
  let hi ← (rows.map (·.ledger)).max?
  pure ⟨lo, hi⟩

end Indexer

end PrivacyWallet
