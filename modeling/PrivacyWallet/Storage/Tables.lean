import PrivacyWallet.Lib.Invoke
import PrivacyWallet.Lib.Table
import PrivacyWallet.Lib.Watermark
import PrivacyWallet.Prover.Notes
import PrivacyWallet.Storage.Events

/-!
# The tables of the local state

The SQLite database of the SDK, as the list of the rows of each table. Rows
are never deleted, so the integer key of a row is its place, from one on. A
transaction of the database is `revert`: it commits as a whole or not at all.
-/

namespace PrivacyWallet

namespace Storage

open Circuits InvokeM Planner Prover Watermark

/-! ## Rows -/

/-- `StoredUserKeys`; `E` are encryption keys. -/
structure StoredUserKeys (E : Type) where
  noteKeypair : NoteKeyPair
  encryptionPrivate : E
  encryptionPublic : E
  membershipBlinding : Fr
deriving DecidableEq

/-- A row of `keypairs`. -/
structure KeypairRow (E : Type) where
  accountId : Nat
  keys : StoredUserKeys E
deriving DecidableEq

/-- A row of `indexing_metadata`. -/
structure SyncRow where
  contractId : String
  lastCursor : Option String
  lastIndexedLedger : Nat
  lastFullyIndexedLedger : Nat
deriving DecidableEq

/-- A row of `user_notes`; the commitment is its key. -/
structure UserNoteRow where
  id : Fr
  accountId : Nat
  commitmentId : Nat
  nullifierId : Option Nat
  expectedNullifier : Fr
  blinding : Fr
  amount : NoteAmount
deriving DecidableEq

/-- The database. A scan mark that has no row yet is zero. -/
structure Tables (E : Type) where
  contracts : List String
  metadata : List SyncRow
  rawEvents : List ContractEvent
  accounts : List String
  keypairs : List (KeypairRow E)
  poolNullifiers : List NewNullifierEvent
  poolCommitments : List NewCommitmentEvent
  publicKeys : List PublicKeyEvent
  aspMembershipLeaves : List LeafAddedEvent
  userNotes : List UserNoteRow
  lastCommitmentId : String → Nat → Nat
  lastNullifierId : String → Nat

/-- A new database. -/
def Tables.empty {E : Type} : Tables E :=
  ⟨[], [], [], [], [], [], [], [], [], [], fun _ _ => 0, fun _ => 0⟩

inductive StorageError where
  /-- `UNIQUE` of an `event_id` -/
  | uniqueEventId
  /-- `UNIQUE` of `user_notes.nullifier_id` -/
  | uniqueNullifierId
  | tooShort
  | plaintextLength (got : Nat)
  | fieldOutOfRange
  /-- a missing or repeated index, in the table of the leaves -/
  | gap (table : String) (expected got : Nat)
  | indexOverflow (table : String)
deriving DecidableEq

abbrev StorageM (E α : Type) : Type := InvokeM (Tables E) StorageError α

variable {E : Type}

/-! ## Ingestion -/

/-- `get_or_create_contract_id` -/
def addContract (contracts : List String) (address : String) : List String :=
  Table.insertNew id contracts address

def saveEvent (t : Tables E) (event : ContractEvent) : Tables E :=
  { t with
    contracts := addContract t.contracts event.contractId
    rawEvents := Table.insertNew ContractEvent.id t.rawEvents event }

/-- `save_events_batch` -/
def saveEventsBatch (events : List ContractEvent) (t : Tables E) : Tables E :=
  events.foldl saveEvent t

/-- One entry of `save_sync_progress`: the row is there, then updated. -/
def saveSyncEntry (fullyIndexed : Bool) (t : Tables E) (entry : SyncRow) : Tables E :=
  let rows := Table.insertNew SyncRow.contractId t.metadata
    { entry with lastFullyIndexedLedger := 0 }
  { t with
    contracts := addContract t.contracts entry.contractId
    metadata := rows.map fun row =>
      if row.contractId = entry.contractId then
        { row with
          lastCursor := entry.lastCursor
          lastIndexedLedger := entry.lastIndexedLedger
          lastFullyIndexedLedger :=
            if fullyIndexed then entry.lastIndexedLedger else row.lastFullyIndexedLedger }
      else row }

def saveSyncProgress (entries : List SyncRow) (fullyIndexed : Bool) (t : Tables E) : Tables E :=
  entries.foldl (saveSyncEntry fullyIndexed) t

def clearIndexingCursors (t : Tables E) : Tables E :=
  { t with metadata := t.metadata.map fun row => { row with lastCursor := none } }

/-! ## Keys -/

def accountId (t : Tables E) (address : String) : Nat := t.accounts.idxOf address + 1

/-- `save_encryption_and_note_keypairs` -/
def saveKeypairs (address : String) (keys : StoredUserKeys E) (t : Tables E) : Tables E :=
  let accounts := Table.insertNew id t.accounts address
  { t with accounts, keypairs := t.keypairs ++ [⟨accounts.idxOf address + 1, keys⟩] }

/-- The latest keys of an account. -/
def latestKeys (t : Tables E) (account : Nat) : Option (StoredUserKeys E) :=
  (t.keypairs.filter fun row => row.accountId = account).getLast?.map KeypairRow.keys

def getUserKeys (t : Tables E) (address : String) : Option (StoredUserKeys E) :=
  if address ∈ t.accounts then latestKeys t (accountId t address) else none

/-- `get_accounts_with_latest_keypairs` -/
def accountsWithLatestKeypairs (t : Tables E) : List (Nat × StoredUserKeys E) :=
  (List.range' 1 t.accounts.length).filterMap fun account =>
    (latestKeys t account).map (account, ·)

/-! ## Derived tables -/

section Insert

variable {ρ κ : Type} [DecidableEq κ] (key : ρ → κ) (eventId : ρ → String)

/-- `INSERT .. ON CONFLICT(key) DO NOTHING` into a table with unique event
ids. -/
def insertRow (table : List ρ) (row : ρ) : Except StorageError (List ρ) :=
  if key row ∈ table.map key then .ok table
  else if eventId row ∈ table.map eventId then .error .uniqueEventId
  else .ok (table ++ [row])

/-- A batch, in one transaction. -/
def insertRows (table rows : List ρ) : Except StorageError (List ρ) :=
  rows.foldlM (insertRow key eventId) table

end Insert

/-- The rows, or the error. -/
def orFail {α : Type} : Except StorageError α → StorageM E α
  | .ok a => pure a
  | .error e => fail e

def saveNullifierEventsBatch (events : List NewNullifierEvent) : StorageM E Unit := do
  let rows ← orFail (insertRows NewNullifierEvent.nullifier NewNullifierEvent.id
    (← read).poolNullifiers events)
  update fun t => { t with poolNullifiers := rows }

def saveCommitmentEventsBatch (events : List NewCommitmentEvent) : StorageM E Unit := do
  let rows ← orFail (insertRows NewCommitmentEvent.commitment NewCommitmentEvent.id
    (← read).poolCommitments events)
  update fun t => { t with poolCommitments := rows }

def savePublicKeyEventsBatch (events : List PublicKeyEvent) : StorageM E Unit := do
  let rows ← orFail (insertRows PublicKeyEvent.id PublicKeyEvent.id (← read).publicKeys events)
  update fun t => { t with publicKeys := rows }

def saveLeafAddedEventsBatch (events : List LeafAddedEvent) : StorageM E Unit := do
  let rows ← orFail (insertRows LeafAddedEvent.index LeafAddedEvent.id
    (← read).aspMembershipLeaves events)
  update fun t => { t with aspMembershipLeaves := rows }

/-- A row of one of the tables comes from the event. -/
def processed (t : Tables E) (id : String) : Bool :=
  t.poolCommitments.any (fun row => row.id = id) || t.publicKeys.any (fun row => row.id = id)
    || t.poolNullifiers.any (fun row => row.id = id)
    || t.aspMembershipLeaves.any (fun row => row.id = id)

def unprocessedEvents (t : Tables E) : List ContractEvent :=
  t.rawEvents.filter fun event => !processed t event.id

/-- `ORDER BY r.ledger ASC, r.id ASC` -/
def eventBefore (a b : ContractEvent) : Bool :=
  decide (a.ledger < b.ledger) || (decide (a.ledger = b.ledger) && decide (a.id ≤ b.id))

def getUnprocessedEvents (t : Tables E) (limit : Nat) : List ContractEvent :=
  ((unprocessedEvents t).mergeSort eventBefore).take limit

section Kinds

def ProcessedEvent.toNullifier : ProcessedEvent → Option NewNullifierEvent
  | .nullifier ev => some ev
  | _ => none

def ProcessedEvent.toCommitment : ProcessedEvent → Option NewCommitmentEvent
  | .commitment ev => some ev
  | _ => none

def ProcessedEvent.toPublicKey : ProcessedEvent → Option PublicKeyEvent
  | .publicKey ev => some ev
  | _ => none

def ProcessedEvent.toLeafAdded : ProcessedEvent → Option LeafAddedEvent
  | .leafAdded ev => some ev
  | _ => none

end Kinds

variable {V : Type} (sdk : ScValSdk V)

/-- `process_events`: the last event of the page is popped first. -/
def processEvents (limit : Nat) : StorageM E Bool := do
  let unprocessed := getUnprocessedEvents (← read) limit
  if unprocessed.isEmpty then pure false
  else do
    let parsed := unprocessed.reverse.filterMap (parseEvent sdk)
    saveNullifierEventsBatch (parsed.filterMap ProcessedEvent.toNullifier)
    saveCommitmentEventsBatch (parsed.filterMap ProcessedEvent.toCommitment)
    savePublicKeyEventsBatch (parsed.filterMap ProcessedEvent.toPublicKey)
    saveLeafAddedEventsBatch (parsed.filterMap ProcessedEvent.toLeafAdded)
    pure true

/-! ## Notes -/

/-- The contract of an event. -/
def contractOf (t : Tables E) (eventId : String) : Option String :=
  (t.rawEvents.find? fun event => event.id = eventId).map ContractEvent.contractId

/-- The commitments of a pool. -/
def ofPool (t : Tables E) (pool : String) (row : NewCommitmentEvent) : Bool :=
  contractOf t row.id = some pool

/-- The nullifiers of a pool. -/
def spentIn (t : Tables E) (pool : String) (row : NewNullifierEvent) : Bool :=
  contractOf t row.id = some pool

/-- `DeriveNoteFn`, of the columns of a commitment that it reads. -/
abbrev DeriveNoteFn (E : Type) : Type :=
  StoredUserKeys E → NewCommitmentEvent → Except StorageError (Option DerivedUserNote)

/-- `derive_user_note`, over `decrypt_output_note`. -/
def deriveUserNote (P : Permutation) (decryptOutputNote : E → List UInt8 →
    Except StorageError (Option (NoteAmount × Fr))) : DeriveNoteFn E := fun account row => do
  let decrypted ← decryptOutputNote account.encryptionPrivate row.encryptedOutput
  pure (tryDeriveUserNote P account.noteKeypair decrypted row.commitment row.index)

/-- `INSERT OR IGNORE INTO user_notes` -/
def insertNote (notes : List UserNoteRow) (note : UserNoteRow) : List UserNoteRow :=
  if notes.any fun n => n.id = note.id || n.commitmentId = note.commitmentId
      || (n.nullifierId.isSome && n.nullifierId = note.nullifierId) then notes
  else notes ++ [note]

/-- The id of a nullifier that the pool has published. -/
def publishedId (t : Tables E) (pool : String) (nullifier : Fr) : Option Nat :=
  ((numbered t.poolNullifiers).find? fun row =>
    spentIn t pool row.1 && decide (row.1.nullifier = nullifier)).map Prod.snd

variable (derive : DeriveNoteFn E)

/-- The row of a derived note. -/
def noteRow (t : Tables E) (pool : String) (account : Nat) (row : NewCommitmentEvent × Nat)
    (note : DerivedUserNote) : UserNoteRow where
  id := row.1.commitment
  accountId := account
  commitmentId := row.2
  nullifierId := publishedId t pool note.expectedNullifier
  expectedNullifier := note.expectedNullifier
  blinding := note.blinding
  amount := note.amount

/-- The tables with the note of a commitment, if it is one. -/
def withNote (t : Tables E) (pool : String) (account : Nat) (row : NewCommitmentEvent × Nat) :
    Option DerivedUserNote → Tables E
  | none => t
  | some note => { t with userNotes := insertNote t.userNotes (noteRow t pool account row note) }

/-- One commitment for one account. -/
def scanRow (pool : String) (account : Nat × StoredUserKeys E) (row : NewCommitmentEvent × Nat) :
    StorageM E Unit := do
  let derived? ← orFail (derive account.2 row.1)
  update fun t => withNote t pool account.1 row derived?

def accountChunk : Nat := 4

/-- Move the mark of an account. -/
def setScanned (pool : String) (account last : Nat) (t : Tables E) : Tables E :=
  { t with lastCommitmentId := fun p a =>
      if p = pool ∧ a = account then last else t.lastCommitmentId p a }

/-- What an account has not scanned yet. -/
def unscanned (t : Tables E) (pool : String) (account : Nat) : List (NewCommitmentEvent × Nat) :=
  pending (ofPool t pool) t.poolCommitments (t.lastCommitmentId pool account)

/-- The turn of an account: how many commitments it scanned. -/
def scanAccount (pool : String) (quota : Nat) (account : Nat × StoredUserKeys E) :
    StorageM E Nat := do
  let t ← read
  let commitments := (unscanned t pool account.1).take (min quota accountChunk)
  if commitments.isEmpty then pure 0
  else do
    forEach (scanRow derive pool account) commitments
    update (setScanned pool account.1 (mark (t.lastCommitmentId pool account.1) commitments))
    pure commitments.length

/-- A turn of every account: the quota that is left, and whether one of them
scanned something. -/
def scanCycle (pool : String) : List (Nat × StoredUserKeys E) → Nat → StorageM E (Nat × Bool)
  | [], quota => pure (quota, false)
  | account :: accounts, quota =>
      if quota = 0 then pure (quota, false)
      else do
        let n ← scanAccount derive pool quota account
        let (left, progressed) ← scanCycle pool accounts (quota - n)
        pure (left, decide (n ≠ 0) || progressed)

/-- The cycles of a pool. A cycle that goes on takes from the quota, so as many
as the quota suffice. -/
def scanCycles (pool : String) (accounts : List (Nat × StoredUserKeys E)) :
    Nat → Nat → StorageM E Bool
  | 0, _ => pure false
  | fuel + 1, quota =>
      if quota = 0 then pure false
      else do
        let (left, progressed) ← scanCycle derive pool accounts quota
        if progressed then do
          let _ ← scanCycles pool accounts fuel left
          pure true
        else pure false

/-- The remainder, one by one over the pools. -/
def spreadRemainder : Nat → Nat → List Nat → List Nat
  | 0, _, quotas => quotas
  | remainder + 1, next, quotas =>
      spreadRemainder remainder ((next + 1) % quotas.length) (quotas.modify next (· + 1))

def quotasOf (totalLimit pools : Nat) : List Nat :=
  let base := if pools ≤ totalLimit then totalLimit / pools else 1
  spreadRemainder (totalLimit - base * pools) 0 (List.replicate pools base)

/-- The pools with commitments, in the order of their contract ids. -/
def scanPools (t : Tables E) : List String :=
  t.contracts.filter fun pool => t.poolCommitments.any (ofPool t pool)

/-- Each pool in a transaction of its own. -/
def scanEach (accounts : List (Nat × StoredUserKeys E)) :
    List (String × Nat) → StorageM E Bool
  | [] => pure false
  | (pool, quota) :: rest => do
      let progressed ← revert (scanCycles derive pool accounts quota quota)
      let others ← scanEach accounts rest
      pure (progressed || others)

/-- `scan_commitments_for_user_notes` -/
def scanCommitmentsForUserNotes (totalLimit : Nat) : StorageM E Bool := do
  let t ← read
  let accounts := accountsWithLatestKeypairs t
  let pools := scanPools t
  if accounts.isEmpty || totalLimit = 0 || pools.isEmpty then pure false
  else scanEach derive accounts (pools.zip (quotasOf totalLimit pools.length))

/-! ## Nullifiers -/

/-- The note lies in the pool. -/
def noteIn (t : Tables E) (pool : String) (note : UserNoteRow) : Bool :=
  (numbered t.poolCommitments).any fun row =>
    decide (row.2 = note.commitmentId) && ofPool t pool row.1

/-- The rows that the update is about. -/
def isHit (t : Tables E) (pool : String) (row : NewNullifierEvent × Nat) (note : UserNoteRow) :
    Bool :=
  decide (note.nullifierId = none) && decide (note.expectedNullifier = row.1.nullifier)
    && noteIn t pool note

/-- `UPDATE user_notes SET nullifier_id = ..` -/
def markSpent (pool : String) (row : NewNullifierEvent × Nat) : StorageM E Unit := do
  let t ← read
  let hits := t.userNotes.filter (isHit t pool row)
  let holders := t.userNotes.filter fun note => note.nullifierId = some row.2
  rejectIf (hits ≠ [] ∧ 1 < hits.length + holders.length) .uniqueNullifierId
  update fun t =>
    { t with
      userNotes := t.userNotes.map fun note =>
        if isHit t pool row note then { note with nullifierId := some row.2 } else note }

def unreconciled (t : Tables E) (pool : String) : List (NewNullifierEvent × Nat) :=
  pending (spentIn t pool) t.poolNullifiers (t.lastNullifierId pool)

def setReconciled (pool : String) (last : Nat) (t : Tables E) : Tables E :=
  { t with lastNullifierId := fun p => if p = pool then last else t.lastNullifierId p }

/-- One pool of `reconcile_nullifiers`: whether it had nullifiers to match. -/
def reconcilePool (limit : Nat) (pool : String) : StorageM E Bool := do
  let t ← read
  let nullifiers := (unreconciled t pool).take limit
  forEach (markSpent pool) nullifiers
  update (setReconciled pool (mark (t.lastNullifierId pool) nullifiers))
  pure (!nullifiers.isEmpty)

def reconcileEach (limit : Nat) : List String → StorageM E Bool
  | [] => pure false
  | pool :: pools => do
      let did ← revert (reconcilePool limit pool)
      let others ← reconcileEach limit pools
      pure (did || others)

def nullifierPools (t : Tables E) : List String :=
  t.contracts.filter fun pool => t.poolNullifiers.any (spentIn t pool)

/-- `reconcile_nullifiers` -/
def reconcileNullifiers (limit : Nat) : StorageM E Bool :=
  if limit = 0 then pure false
  else do reconcileEach limit (nullifierPools (← read))

/-! ## Batches -/

/-- `process_notes` -/
def processNotes (limit : Nat) : StorageM E Bool := do
  let scanned ← scanCommitmentsForUserNotes derive limit
  let reconciled ← reconcileNullifiers limit
  pure (scanned || reconciled)

def processFetchLimit : Nat := 50

/-- `process_local_state_batch` -/
def processLocalStateBatch : StorageM E Bool := do
  let didRaw ← processEvents sdk processFetchLimit
  let didNotes ← processNotes derive processFetchLimit
  pure (didRaw || didNotes)

/-- `process_local_state`: batches while they do something, `fuel` at most. -/
def processLocalState (fuel : Nat) : StorageM E Unit :=
  loop (fun _ => do
    let more ← processLocalStateBatch sdk derive
    pure (if more then .inr () else .inl ())) fuel ()

end Storage

end PrivacyWallet
