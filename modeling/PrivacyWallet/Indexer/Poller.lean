import PrivacyWallet.Indexer.NormalizeCt

/-!
# Polling a stream

`pollStream` reads the stream's cursor, asks the source for a page, and
commits the page: the events, their activity rows and the new cursor in one
transaction. Other programs may run between these three steps. A poll that
throws is one that does not go on; its transaction has no effect.
-/

namespace PrivacyWallet

namespace Indexer

/-- What the programs of the indexer share: the database, and a network of
which `N` is what they can see. -/
structure World (N : Type) where
  db : Db
  net : N

variable {N V : Type}

/-- One page of a source. -/
structure StreamFetchResult where
  events : List RawEvent
  nextCursor : Option String
deriving DecidableEq

/-- `fetchPage`, given the stream's stored cursor. -/
abbrev StreamSource (N : Type) : Type :=
  Option String → Async (World N) StreamFetchResult

def toNewEventRow (e : RawEvent) : EventRow where
  id := e.id
  contractId := e.contractId
  ledger := e.ledger
  ledgerClosedAt := e.ledgerClosedAt
  txHash := e.txHash
  txIndex := e.txIndex
  opIndex := e.opIndex
  eventIndex := e.eventIndex
  topic := e.topic
  valueXdr := e.valueXdr
  inSuccessfulCall := e.inSuccessfulCall

/-- The activity rows a poll inserts for an event. One that does not
normalize contributes none. -/
def activityRows (sdk : StellarSdk V) (ctTokenId : String) (e : RawEvent) :
    List NewCtActivityRow :=
  match normalizeCtEvent sdk e ctTokenId with
  | .ok (some rows) => rows
  | .ok none => []
  | .error _ => []

theorem activityRows_eventId {sdk : StellarSdk V} {ctTokenId : String} {e : RawEvent} :
    ∀ r ∈ activityRows sdk ctTokenId e, r.eventId = e.id := by
  intro r hr
  unfold activityRows at hr
  split at hr
  · rename_i rows hrows
    exact normalizeCtEvent_eventId hrows r hr
  · cases hr
  · cases hr

/-- The body of the transaction of `pollStream`. -/
def commitPage (sdk : StellarSdk V) (streamKey : String) (ctTokenId : Option String)
    (page : StreamFetchResult) (db : Db) : Db :=
  let db := db.insertEvents (page.events.map toNewEventRow)
  let db := match ctTokenId with
    | some token => db.insertCtActivity (page.events.flatMap (activityRows sdk token))
    | none => db
  match page.nextCursor with
  | some cursor => db.setCursor streamKey cursor
  | none => db

theorem commitPage_events (sdk : StellarSdk V) (streamKey : String)
    (ctTokenId : Option String) (page : StreamFetchResult) (db : Db) :
    (commitPage sdk streamKey ctTokenId page db).events
      = Table.insertAllNew (·.id) db.events (page.events.map toNewEventRow) := by
  unfold commitPage
  cases ctTokenId <;> cases page.nextCursor <;> simp [Db.insertEvents]

theorem commitPage_ctActivity (sdk : StellarSdk V) (streamKey token : String)
    (page : StreamFetchResult) (db : Db) :
    (commitPage sdk streamKey (some token) page db).ctActivity
      = db.ctActivity ++ page.events.flatMap (activityRows sdk token) := by
  unfold commitPage
  cases page.nextCursor <;> simp [Db.insertCtActivity]

theorem commitPage_cursors (sdk : StellarSdk V) (streamKey : String)
    (ctTokenId : Option String) (page : StreamFetchResult) (db : Db) :
    (commitPage sdk streamKey ctTokenId page db).cursors
      = page.nextCursor.elim db.cursors
          fun cursor => Function.update db.cursors streamKey (some cursor) := by
  unfold commitPage
  cases ctTokenId <;> cases page.nextCursor <;> rfl

/-- `repo.withTransaction` -/
def withTransaction (f : Db → Db) : Async (World N) Unit :=
  Async.update fun w => { w with db := f w.db }

/-- `pollStream`. It returns the page it committed, which the source does
not. -/
def pollStream (sdk : StellarSdk V) (source : StreamSource N) (streamKey : String)
    (ctTokenId : Option String) : Async (World N) StreamFetchResult := do
  let w ← Async.read
  let page ← source (w.db.getCursor streamKey)
  withTransaction (commitPage sdk streamKey ctTokenId page)
  pure page

end Indexer

end PrivacyWallet
