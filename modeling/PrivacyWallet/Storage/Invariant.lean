import PrivacyWallet.Lib.Run
import PrivacyWallet.Storage.Tables

/-!
# What the tables hold

Every row of a derived table is read off an event, with a key and an event of
its own (`FromEvents`); every note opens its commitment, and is marked spent by
the nullifier that it expects; behind the marks nothing is missed (`Inv`). Any
sequence of ingestions, key changes and processing steps keeps this, whatever
their limits and wherever they fail (`Inv.run`).
-/

namespace PrivacyWallet

namespace Storage

open Circuits InvokeM Planner Prover Watermark

/-! ## Rows and their events -/

/-- A table of rows that are read off events of one kind. -/
structure Kind (ρ κ : Type) where
  of : ProcessedEvent → Option ρ
  key : ρ → κ
  eventId : ρ → String
  eventId_of : ∀ {ev row}, of ev = some row → eventId row = ev.id

def nullifierKind : Kind NewNullifierEvent Fr where
  of := ProcessedEvent.toNullifier
  key := NewNullifierEvent.nullifier
  eventId := NewNullifierEvent.id
  eventId_of {ev row} h := by cases ev <;> cases h; rfl

def commitmentKind : Kind NewCommitmentEvent Fr where
  of := ProcessedEvent.toCommitment
  key := NewCommitmentEvent.commitment
  eventId := NewCommitmentEvent.id
  eventId_of {ev row} h := by cases ev <;> cases h; rfl

def publicKeyKind : Kind PublicKeyEvent String where
  of := ProcessedEvent.toPublicKey
  key := PublicKeyEvent.id
  eventId := PublicKeyEvent.id
  eventId_of {ev row} h := by cases ev <;> cases h; rfl

def leafKind : Kind LeafAddedEvent Nat where
  of := ProcessedEvent.toLeafAdded
  key := LeafAddedEvent.index
  eventId := LeafAddedEvent.id
  eventId_of {ev row} h := by cases ev <;> cases h; rfl

section Kind

variable {ρ κ : Type} [DecidableEq κ] {k : Kind ρ κ} {V : Type} {sdk : ScValSdk V}
  {raw raw' : List ContractEvent} {table rows : List ρ}

/-- The row is what the event says. -/
def Reads (sdk : ScValSdk V) (k : Kind ρ κ) (event : ContractEvent) (row : ρ) : Prop :=
  ∃ ev, parseEvent sdk event = some ev ∧ k.of ev = some row

omit [DecidableEq κ] in
theorem Reads.eventId {event : ContractEvent} {row : ρ} (h : Reads sdk k event row) :
    k.eventId row = event.id := by
  obtain ⟨ev, hparse, hof⟩ := h
  rw [k.eventId_of hof, parseEvent_id hparse]

omit [DecidableEq κ] in
theorem Reads.unique {event : ContractEvent} {row row' : ρ} (h : Reads sdk k event row)
    (h' : Reads sdk k event row') : row = row' := by
  obtain ⟨ev, hparse, hof⟩ := h
  obtain ⟨ev', hparse', hof'⟩ := h'
  cases hparse.symm.trans hparse'
  exact Option.some.inj (hof.symm.trans hof')

structure FromEvents (sdk : ScValSdk V) (k : Kind ρ κ) (raw : List ContractEvent)
    (table : List ρ) : Prop where
  source : ∀ row ∈ table, ∃ event ∈ raw, Reads sdk k event row
  keys : (table.map k.key).Nodup
  ids : (table.map k.eventId).Nodup

omit [DecidableEq κ] in
theorem FromEvents.mono (h : FromEvents sdk k raw table) (hraw : raw ⊆ raw') :
    FromEvents sdk k raw' table where
  source row hrow := by
    obtain ⟨event, hevent, hreads⟩ := h.source row hrow
    exact ⟨event, hraw hevent, hreads⟩
  keys := h.keys
  ids := h.ids

/-- New event ids raise no conflict among themselves. -/
theorem insertRows_eq (h : ((table ++ rows).map k.eventId).Nodup) :
    insertRows k.key k.eventId table rows = .ok (Table.insertAllNew k.key table rows) := by
  induction rows generalizing table with
  | nil => rfl
  | cons row rows ih =>
      have hfresh : k.eventId row ∉ table.map k.eventId := by
        rw [List.map_append, List.nodup_append] at h
        exact fun hmem => h.2.2 _ hmem _ List.mem_cons_self rfl
      rw [insertRows, List.foldlM_cons, insertRow, Table.insertAllNew_cons, Table.insertNew]
      split
      · refine ih (h.sublist ?_)
        exact ((List.sublist_cons_self row rows).append_left table).map _
      · refine ih ?_
        rwa [List.append_cons] at h

omit [DecidableEq κ] in
theorem sublist_insertAllNew [DecidableEq κ] :
    (Table.insertAllNew k.key table rows).Sublist (table ++ rows) := by
  induction rows generalizing table with
  | nil =>
      rw [List.append_nil]
      exact List.Sublist.refl table
  | cons row rows ih =>
      rw [Table.insertAllNew_cons, Table.insertNew]
      split
      · exact ih.trans ((List.sublist_cons_self row rows).append_left table)
      · refine ih.trans ?_
        rw [← List.append_cons]

theorem FromEvents.insert (h : FromEvents sdk k raw table)
    (hsource : ∀ row ∈ rows, ∃ event ∈ raw, Reads sdk k event row)
    (hids : ((table ++ rows).map k.eventId).Nodup) :
    FromEvents sdk k raw (Table.insertAllNew k.key table rows) where
  source row hrow := by
    rcases Table.mem_of_mem_insertAllNew hrow with hold | hnew
    · exact h.source row hold
    · exact hsource row hnew
  keys := by
    have hkeys := h.keys
    clear h hsource hids
    induction rows generalizing table with
    | nil => exact hkeys
    | cons row rows ih => exact ih (Table.nodup_keys_insertNew hkeys)
  ids := hids.sublist (sublist_insertAllNew.map _)

end Kind

/-! ## The invariant -/

variable {V E : Type} {sdk : ScValSdk V} {derive : DeriveNoteFn E} {t t' : Tables E}

/-- The tables that are filled from outside. -/
structure Stored (sdk : ScValSdk V) (t : Tables E) : Prop where
  ids : (t.rawEvents.map ContractEvent.id).Nodup
  contracts : ∀ event ∈ t.rawEvents, event.contractId ∈ t.contracts
  contractsNodup : t.contracts.Nodup
  nullifiers : FromEvents sdk nullifierKind t.rawEvents t.poolNullifiers
  commitments : FromEvents sdk commitmentKind t.rawEvents t.poolCommitments
  publicKeys : FromEvents sdk publicKeyKind t.rawEvents t.publicKeys
  leaves : FromEvents sdk leafKind t.rawEvents t.aspMembershipLeaves
  scanMarks : ∀ pool account, t.lastCommitmentId pool account ≤ t.poolCommitments.length
  nullifierMarks : ∀ pool, t.lastNullifierId pool ≤ t.poolNullifiers.length

/-- The note is the one that keys of its account derive from its
commitment. -/
structure Opens (derive : DeriveNoteFn E) (t : Tables E) (note : UserNoteRow)
    (row : NewCommitmentEvent) (keys : StoredUserKeys E) (derived : DerivedUserNote) : Prop where
  mem : (row, note.commitmentId) ∈ numbered t.poolCommitments
  held : ⟨note.accountId, keys⟩ ∈ t.keypairs
  derives : derive keys row = .ok (some derived)
  id : note.id = row.commitment
  expectedNullifier : note.expectedNullifier = derived.expectedNullifier
  blinding : note.blinding = derived.blinding
  amount : note.amount = derived.amount

/-- The pool of the note has published the nullifier that it expects. -/
structure SpentBy (t : Tables E) (note : UserNoteRow) (pool : String) (row : NewNullifierEvent)
    (i : Nat) : Prop where
  mem : (row, i) ∈ numbered t.poolNullifiers
  noteIn : noteIn t pool note = true
  spentIn : spentIn t pool row = true
  nullifier : row.nullifier = note.expectedNullifier

/-- An account has seen a commitment: with some of its keys, the commitment is
not for it or there is a note of it. -/
def Seen (derive : DeriveNoteFn E) (t : Tables E) (account : Nat)
    (row : NewCommitmentEvent × Nat) : Prop :=
  ∃ keys derived?, ⟨account, keys⟩ ∈ t.keypairs ∧ derive keys row.1 = .ok derived? ∧
    ∀ derived ∈ derived?, ∃ note ∈ t.userNotes, note.commitmentId = row.2 ∨
      note.expectedNullifier = derived.expectedNullifier

/-- The notes, and what is behind the marks. -/
structure Noted (derive : DeriveNoteFn E) (t : Tables E) : Prop where
  opens : ∀ note ∈ t.userNotes, ∃ row keys derived, Opens derive t note row keys derived
  commitmentIds : (t.userNotes.map UserNoteRow.commitmentId).Nodup
  spent : ∀ note ∈ t.userNotes, ∀ i, note.nullifierId = some i →
    ∃ pool row, SpentBy t note pool row i
  unspent : ∀ note ∈ t.userNotes, note.nullifierId = none → ∀ pool row i,
    SpentBy t note pool row i → t.lastNullifierId pool < i
  scanned : ∀ pool account row i, (row, i) ∈ numbered t.poolCommitments →
    ofPool t pool row = true → i ≤ t.lastCommitmentId pool account →
      Seen derive t account (row, i)

structure Inv (sdk : ScValSdk V) (derive : DeriveNoteFn E) (t : Tables E) : Prop where
  stored : Stored sdk t
  noted : Noted derive t

/-! ## Growing tables -/

theorem contractOf_eq_some {events : List ContractEvent}
    (hids : (events.map ContractEvent.id).Nodup) (heq : t.rawEvents = events)
    {eventId pool : String} :
    contractOf t eventId = some pool ↔
      ∃ event ∈ events, event.id = eventId ∧ event.contractId = pool := by
  rw [contractOf, heq, Option.map_eq_some_iff]
  constructor
  · rintro ⟨event, hfind, hpool⟩
    exact ⟨event, List.mem_of_find?_eq_some hfind, by simpa using List.find?_some hfind, hpool⟩
  · rintro ⟨event, hevent, hid, hpool⟩
    refine ⟨event, Table.find?_eq_of_unique hevent (decide_eq_true hid) fun e he heid => ?_, hpool⟩
    exact List.inj_on_of_nodup_map hids he hevent ((of_decide_eq_true heid).trans hid.symm)

/-- The tables of `t` with more rows. -/
structure Extends (t t' : Tables E) : Prop where
  rawEvents : t.rawEvents <+: t'.rawEvents
  poolNullifiers : t.poolNullifiers <+: t'.poolNullifiers
  poolCommitments : t.poolCommitments <+: t'.poolCommitments
  keypairs : t.keypairs <+: t'.keypairs

/-- An event keeps its contract. -/
theorem Extends.contractOf (he : Extends t t') (h : Stored sdk t) (h' : Stored sdk t')
    {eventId : String} (hid : ∃ event ∈ t.rawEvents, eventId = event.id) (pool : String) :
    contractOf t' eventId = some pool ↔ contractOf t eventId = some pool := by
  rw [contractOf_eq_some h'.ids rfl, contractOf_eq_some h.ids rfl]
  constructor
  · rintro ⟨event, hevent, rfl, hpool⟩
    obtain ⟨old, hold, heq⟩ := hid
    cases List.inj_on_of_nodup_map h'.ids hevent (he.rawEvents.subset hold) heq
    exact ⟨event, hold, rfl, hpool⟩
  · rintro ⟨event, hevent, hrest⟩
    exact ⟨event, he.rawEvents.subset hevent, hrest⟩

theorem Extends.ofPool (he : Extends t t') (h : Stored sdk t) (h' : Stored sdk t')
    {row : NewCommitmentEvent} (hrow : row ∈ t.poolCommitments) (pool : String) :
    ofPool t' pool row = ofPool t pool row := by
  obtain ⟨event, hevent, hreads⟩ := h.commitments.source row hrow
  have hid : row.id = event.id := hreads.eventId
  exact decide_eq_decide.mpr (he.contractOf h h' ⟨event, hevent, hid⟩ pool)

theorem Extends.spentIn (he : Extends t t') (h : Stored sdk t) (h' : Stored sdk t')
    {row : NewNullifierEvent} (hrow : row ∈ t.poolNullifiers) (pool : String) :
    spentIn t' pool row = spentIn t pool row := by
  obtain ⟨event, hevent, hreads⟩ := h.nullifiers.source row hrow
  have hid : row.id = event.id := hreads.eventId
  exact decide_eq_decide.mpr (he.contractOf h h' ⟨event, hevent, hid⟩ pool)

theorem noteIn_iff {pool : String} {note : UserNoteRow} {row : NewCommitmentEvent}
    (hrow : (row, note.commitmentId) ∈ numbered t.poolCommitments) :
    noteIn t pool note = true ↔ ofPool t pool row = true := by
  rw [noteIn, List.any_eq_true]
  constructor
  · rintro ⟨⟨row', i⟩, hmem, hp⟩
    rw [Bool.and_eq_true, decide_eq_true_eq] at hp
    obtain ⟨rfl, hp⟩ := hp
    rwa [numbered_inj hrow hmem]
  · intro hp
    exact ⟨_, hrow, by simpa using hp⟩

theorem Extends.noteIn (he : Extends t t') (h : Stored sdk t) (h' : Stored sdk t') {pool : String}
    {note : UserNoteRow} {row : NewCommitmentEvent}
    (hrow : (row, note.commitmentId) ∈ numbered t.poolCommitments) :
    noteIn t' pool note = true ↔ noteIn t pool note = true := by
  rw [noteIn_iff hrow, noteIn_iff (numbered_mono he.poolCommitments hrow),
    he.ofPool h h' (mem_of_mem_numbered hrow)]

/-- More rows in the tables concern no note and nothing behind a mark: old rows
keep their numbers, and new ones are numbered past every mark. -/
theorem Noted.extend (hn : Noted derive t) (he : Extends t t') (h : Stored sdk t)
    (h' : Stored sdk t') (hnotes : t'.userNotes = t.userNotes)
    (hscan : t'.lastCommitmentId = t.lastCommitmentId)
    (hmark : t'.lastNullifierId = t.lastNullifierId) : Noted derive t' where
  opens note hnote := by
    rw [hnotes] at hnote
    obtain ⟨row, keys, derived, ho⟩ := hn.opens note hnote
    exact ⟨row, keys, derived,
      { ho with
        mem := numbered_mono he.poolCommitments ho.mem
        held := he.keypairs.subset ho.held }⟩
  commitmentIds := hnotes ▸ hn.commitmentIds
  spent note hnote i hi := by
    rw [hnotes] at hnote
    obtain ⟨row, _, _, ho⟩ := hn.opens note hnote
    obtain ⟨pool, nullifier, hs⟩ := hn.spent note hnote i hi
    exact ⟨pool, nullifier, numbered_mono he.poolNullifiers hs.mem,
      (he.noteIn h h' ho.mem).mpr hs.noteIn,
      (he.spentIn h h' (mem_of_mem_numbered hs.mem) pool).trans hs.spentIn, hs.nullifier⟩
  unspent note hnote hnone pool row i hs := by
    rw [hnotes] at hnote
    rw [hmark]
    by_cases hi : i ≤ t.poolNullifiers.length
    · obtain ⟨_, _, _, ho⟩ := hn.opens note hnote
      have hrow := mem_numbered_of_le he.poolNullifiers hi hs.mem
      exact hn.unspent note hnote hnone pool row i ⟨hrow, (he.noteIn h h' ho.mem).mp hs.noteIn,
        (he.spentIn h h' (mem_of_mem_numbered hrow) pool).symm.trans hs.spentIn, hs.nullifier⟩
    · have := h.nullifierMarks pool
      omega
  scanned pool account row i hrow hpool hi := by
    rw [hscan] at hi
    have hlen := h.scanMarks pool account
    have hold := mem_numbered_of_le he.poolCommitments (hi.trans hlen) hrow
    rw [he.ofPool h h' (mem_of_mem_numbered hold)] at hpool
    obtain ⟨keys, derived?, hkeys, hderive, hnote⟩ := hn.scanned pool account row i hold hpool hi
    exact ⟨keys, derived?, he.keypairs.subset hkeys, hderive, hnotes ▸ hnote⟩

/-! ## Ingestion and keys -/

/-- More events and contracts. -/
theorem Inv.ingest (h : Inv sdk derive t) (metadata : List SyncRow) {events : List ContractEvent}
    {contracts : List String} (hpre : t.rawEvents <+: events)
    (hids : (events.map ContractEvent.id).Nodup)
    (hcontracts : ∀ event ∈ events, event.contractId ∈ contracts) (hnodup : contracts.Nodup) :
    Inv sdk derive { t with rawEvents := events, contracts, metadata } := by
  have hs := h.stored
  have hstored : Stored sdk { t with rawEvents := events, contracts, metadata } :=
    { ids := hids
      contracts := hcontracts
      contractsNodup := hnodup
      nullifiers := hs.nullifiers.mono hpre.subset
      commitments := hs.commitments.mono hpre.subset
      publicKeys := hs.publicKeys.mono hpre.subset
      leaves := hs.leaves.mono hpre.subset
      scanMarks := hs.scanMarks
      nullifierMarks := hs.nullifierMarks }
  exact ⟨hstored, h.noted.extend
    ⟨hpre, List.prefix_refl _, List.prefix_refl _, List.prefix_refl _⟩ hs hstored rfl rfl rfl⟩

theorem mem_addContract {contracts : List String} {address : String} :
    address ∈ addContract contracts address := by
  unfold addContract Table.insertNew
  split
  · rename_i h
    rwa [List.map_id] at h
  · exact List.mem_append_right _ (List.mem_singleton_self _)

theorem addContract_extends {contracts : List String} {address : String} :
    contracts <+: addContract contracts address := Table.prefix_insertNew

theorem addContract_nodup {contracts : List String} {address : String} (h : contracts.Nodup) :
    (addContract contracts address).Nodup := by
  rw [← List.map_id (addContract contracts address)]
  exact Table.nodup_keys_insertNew (by rwa [List.map_id])

theorem Inv.saveEvent (h : Inv sdk derive t) (event : ContractEvent) :
    Inv sdk derive (saveEvent t event) := by
  refine h.ingest t.metadata Table.prefix_insertNew (Table.nodup_keys_insertNew h.stored.ids)
    (fun e he => ?_) (addContract_nodup h.stored.contractsNodup)
  have hold (hmem : e ∈ t.rawEvents) : e.contractId ∈ addContract t.contracts event.contractId :=
    addContract_extends.subset (h.stored.contracts e hmem)
  unfold Table.insertNew at he
  split at he
  · exact hold he
  · rcases List.mem_append.mp he with hmem | hnew
    · exact hold hmem
    · rw [List.mem_singleton.mp hnew]
      exact mem_addContract

theorem Inv.saveEventsBatch (events : List ContractEvent) (h : Inv sdk derive t) :
    Inv sdk derive (saveEventsBatch events t) := by
  induction events generalizing t with
  | nil => exact h
  | cons event events ih => exact ih (h.saveEvent event)

theorem Inv.saveSyncProgress (entries : List SyncRow) (fullyIndexed : Bool)
    (h : Inv sdk derive t) : Inv sdk derive (saveSyncProgress entries fullyIndexed t) := by
  induction entries generalizing t with
  | nil => exact h
  | cons entry entries ih =>
      refine ih (h.ingest _ (List.prefix_refl _) h.stored.ids (fun e he => ?_)
        (addContract_nodup h.stored.contractsNodup))
      exact addContract_extends.subset (h.stored.contracts e he)

theorem Inv.clearIndexingCursors (h : Inv sdk derive t) :
    Inv sdk derive (clearIndexingCursors t) :=
  h.ingest _ (List.prefix_refl _) h.stored.ids h.stored.contracts h.stored.contractsNodup

theorem Inv.saveKeypairs (address : String) (keys : StoredUserKeys E) (h : Inv sdk derive t) :
    Inv sdk derive (saveKeypairs address keys t) := by
  have hs : Stored sdk (Storage.saveKeypairs address keys t) := ⟨h.stored.ids, h.stored.contracts,
    h.stored.contractsNodup, h.stored.nullifiers, h.stored.commitments, h.stored.publicKeys,
    h.stored.leaves, h.stored.scanMarks, h.stored.nullifierMarks⟩
  exact ⟨hs, h.noted.extend ⟨List.prefix_refl _, List.prefix_refl _, List.prefix_refl _,
    List.prefix_append _ _⟩ h.stored hs rfl rfl rfl⟩

/-! ## Events -/

theorem processed_eq_false {eventId : String} :
    processed t eventId = false ↔ eventId ∉ t.poolCommitments.map NewCommitmentEvent.id ∧
      eventId ∉ t.publicKeys.map PublicKeyEvent.id ∧
      eventId ∉ t.poolNullifiers.map NewNullifierEvent.id ∧
      eventId ∉ t.aspMembershipLeaves.map LeafAddedEvent.id := by
  simp only [processed, Bool.or_eq_false_iff, List.any_eq_false, decide_eq_true_eq, List.mem_map,
    not_exists, not_and, and_assoc]

theorem mem_unprocessedEvents {event : ContractEvent} :
    event ∈ unprocessedEvents t ↔ event ∈ t.rawEvents ∧ processed t event.id = false := by
  simp [unprocessedEvents]

theorem mem_of_mem_getUnprocessedEvents {limit : Nat} {event : ContractEvent}
    (h : event ∈ getUnprocessedEvents t limit) : event ∈ unprocessedEvents t :=
  List.mem_mergeSort.mp (List.mem_of_mem_take h)

/-- A page has no event twice. -/
theorem nodup_getUnprocessedEvents (h : Stored sdk t) (limit : Nat) :
    ((getUnprocessedEvents t limit).map ContractEvent.id).Nodup := by
  have hall : ((unprocessedEvents t).map ContractEvent.id).Nodup :=
    h.ids.sublist (List.filter_sublist.map _)
  have hsorted := ((List.mergeSort_perm (unprocessedEvents t) eventBefore).map
    ContractEvent.id).nodup_iff.mpr hall
  exact hsorted.sublist ((List.take_sublist ..).map _)

/-- The rows of one kind that a page has. -/
def pageRows {ρ κ : Type} (sdk : ScValSdk V) (k : Kind ρ κ) (t : Tables E) (limit : Nat) : List ρ :=
  ((getUnprocessedEvents t limit).reverse.filterMap (parseEvent sdk)).filterMap k.of

section Page

variable {ρ κ : Type} {k : Kind ρ κ}

theorem mem_pageRows {limit : Nat} {row : ρ} :
    row ∈ pageRows sdk k t limit ↔
      ∃ event ∈ getUnprocessedEvents t limit, Reads sdk k event row := by
  simp only [pageRows, List.mem_filterMap, List.mem_reverse, Reads]
  constructor
  · rintro ⟨ev, ⟨event, hevent, hparse⟩, hof⟩
    exact ⟨event, hevent, ev, hparse, hof⟩
  · rintro ⟨event, hevent, ev, hparse, hof⟩
    exact ⟨ev, ⟨event, hevent, hparse⟩, hof⟩

theorem pageRows_eventIds : ∀ {events : List ContractEvent},
    (((events.filterMap (parseEvent sdk)).filterMap k.of).map k.eventId).Sublist
      (events.map ContractEvent.id)
  | [] => List.Sublist.refl _
  | event :: events => by
      have hrec := @pageRows_eventIds events
      rw [List.map_cons]
      cases hparse : parseEvent sdk event with
      | none =>
          rw [List.filterMap_cons_none hparse]
          exact hrec.cons _
      | some ev =>
          rw [List.filterMap_cons_some hparse]
          cases hof : k.of ev with
          | none =>
              rw [List.filterMap_cons_none hof]
              exact hrec.cons _
          | some row =>
              rw [List.filterMap_cons_some hof, List.map_cons, k.eventId_of hof,
                parseEvent_id hparse]
              exact hrec.cons_cons _

/-- The rows of a page come from events without a row. -/
theorem pageRows_nodup (h : Stored sdk t) (limit : Nat) {table : List ρ}
    (htable : FromEvents sdk k t.rawEvents table)
    (hnew : ∀ event, processed t event = false → event ∉ table.map k.eventId) :
    ((table ++ pageRows sdk k t limit).map k.eventId).Nodup := by
  rw [List.map_append, List.nodup_append]
  refine ⟨htable.ids, ?_, ?_⟩
  · have hpage := nodup_getUnprocessedEvents h limit
    rw [← List.nodup_reverse, ← List.map_reverse] at hpage
    exact hpage.sublist pageRows_eventIds
  · rintro _ hold _ hmem rfl
    obtain ⟨row, hrow, heq⟩ := List.mem_map.mp hmem
    obtain ⟨event, hevent, hreads⟩ := mem_pageRows.mp hrow
    obtain ⟨-, hfalse⟩ := mem_unprocessedEvents.mp (mem_of_mem_getUnprocessedEvents hevent)
    rw [← heq, hreads.eventId] at hold
    exact hnew event.id hfalse hold

theorem pageRows_source {limit : Nat} {row : ρ} (h : row ∈ pageRows sdk k t limit) :
    ∃ event ∈ t.rawEvents, Reads sdk k event row := by
  obtain ⟨event, hevent, hreads⟩ := mem_pageRows.mp h
  exact ⟨event, (mem_unprocessedEvents.mp (mem_of_mem_getUnprocessedEvents hevent)).1, hreads⟩

end Page

/-- The tables with the rows of a page. -/
def afterPage (sdk : ScValSdk V) (limit : Nat) (t : Tables E) : Tables E :=
  { t with
    poolNullifiers := Table.insertAllNew nullifierKind.key t.poolNullifiers
      (pageRows sdk nullifierKind t limit)
    poolCommitments := Table.insertAllNew commitmentKind.key t.poolCommitments
      (pageRows sdk commitmentKind t limit)
    publicKeys := Table.insertAllNew publicKeyKind.key t.publicKeys
      (pageRows sdk publicKeyKind t limit)
    aspMembershipLeaves := Table.insertAllNew leafKind.key t.aspMembershipLeaves
      (pageRows sdk leafKind t limit) }

theorem afterPage_of_nil {limit : Nat} (h : getUnprocessedEvents t limit = []) :
    afterPage sdk limit t = t := by
  have hrows {ρ κ : Type} (k : Kind ρ κ) : pageRows sdk k t limit = [] := by
    simp [pageRows, h]
  simp only [afterPage, hrows]
  rfl

section Save

theorem saveNullifierEventsBatch_run {events rows : List NewNullifierEvent}
    (h : insertRows nullifierKind.key nullifierKind.eventId t.poolNullifiers events = .ok rows) :
    saveNullifierEventsBatch events t = (.ok (), { t with poolNullifiers := rows }) :=
  bind_of_ok (congrArg (fun r => orFail r t) h)

theorem saveCommitmentEventsBatch_run {events rows : List NewCommitmentEvent}
    (h : insertRows commitmentKind.key commitmentKind.eventId t.poolCommitments events
      = .ok rows) :
    saveCommitmentEventsBatch events t = (.ok (), { t with poolCommitments := rows }) :=
  bind_of_ok (congrArg (fun r => orFail r t) h)

theorem savePublicKeyEventsBatch_run {events rows : List PublicKeyEvent}
    (h : insertRows publicKeyKind.key publicKeyKind.eventId t.publicKeys events = .ok rows) :
    savePublicKeyEventsBatch events t = (.ok (), { t with publicKeys := rows }) :=
  bind_of_ok (congrArg (fun r => orFail r t) h)

theorem saveLeafAddedEventsBatch_run {events rows : List LeafAddedEvent}
    (h : insertRows leafKind.key leafKind.eventId t.aspMembershipLeaves events = .ok rows) :
    saveLeafAddedEventsBatch events t = (.ok (), { t with aspMembershipLeaves := rows }) :=
  bind_of_ok (congrArg (fun r => orFail r t) h)

end Save

/-- Processing a page never fails. -/
theorem processEvents_run (h : Stored sdk t) (limit : Nat) :
    processEvents sdk limit t
      = (.ok !(getUnprocessedEvents t limit).isEmpty, afterPage sdk limit t) := by
  unfold processEvents
  rw [read_bind]
  cases hpage : getUnprocessedEvents t limit with
  | nil =>
      rw [afterPage_of_nil hpage]
      rfl
  | cons event events =>
      have hnull := insertRows_eq (k := nullifierKind) (pageRows_nodup h limit
        h.nullifiers fun _ hp => (processed_eq_false.mp hp).2.2.1)
      have hcom := insertRows_eq (k := commitmentKind) (pageRows_nodup h limit
        h.commitments fun _ hp => (processed_eq_false.mp hp).1)
      have hkey := insertRows_eq (k := publicKeyKind) (pageRows_nodup h limit
        h.publicKeys fun _ hp => (processed_eq_false.mp hp).2.1)
      have hleaf := insertRows_eq (k := leafKind) (pageRows_nodup h limit
        h.leaves fun _ hp => (processed_eq_false.mp hp).2.2.2)
      simp only [pageRows, hpage] at hnull hcom hkey hleaf
      rw [List.isEmpty_cons, if_neg nofun]
      simp only [afterPage, pageRows, hpage]
      -- each save meets the tables that the ones before it left
      refine (bind_of_ok (saveNullifierEventsBatch_run (by exact hnull))).trans ?_
      refine (bind_of_ok (saveCommitmentEventsBatch_run (by exact hcom))).trans ?_
      refine (bind_of_ok (savePublicKeyEventsBatch_run (by exact hkey))).trans ?_
      exact (bind_of_ok (saveLeafAddedEventsBatch_run (by exact hleaf))).trans rfl

theorem Stored.afterPage (h : Stored sdk t) (limit : Nat) :
    Stored sdk (afterPage sdk limit t) where
  ids := h.ids
  contracts := h.contracts
  contractsNodup := h.contractsNodup
  nullifiers := h.nullifiers.insert (fun _ => pageRows_source)
    (pageRows_nodup h limit h.nullifiers fun _ hp => (processed_eq_false.mp hp).2.2.1)
  commitments := h.commitments.insert (fun _ => pageRows_source)
    (pageRows_nodup h limit h.commitments fun _ hp => (processed_eq_false.mp hp).1)
  publicKeys := h.publicKeys.insert (fun _ => pageRows_source)
    (pageRows_nodup h limit h.publicKeys fun _ hp => (processed_eq_false.mp hp).2.1)
  leaves := h.leaves.insert (fun _ => pageRows_source)
    (pageRows_nodup h limit h.leaves fun _ hp => (processed_eq_false.mp hp).2.2.2)
  scanMarks pool account := (h.scanMarks pool account).trans Table.prefix_insertAllNew.length_le
  nullifierMarks pool := (h.nullifierMarks pool).trans Table.prefix_insertAllNew.length_le

theorem Inv.afterPage (h : Inv sdk derive t) (limit : Nat) :
    Inv sdk derive (afterPage sdk limit t) :=
  have hs := h.stored.afterPage limit
  ⟨hs, h.noted.extend ⟨List.prefix_refl _, Table.prefix_insertAllNew, Table.prefix_insertAllNew,
    List.prefix_refl _⟩ h.stored hs rfl rfl rfl⟩

theorem Inv.processEvents (h : Inv sdk derive t) (limit : Nat) :
    Inv sdk derive (processEvents sdk limit t).2 := by
  rw [processEvents_run h.stored limit]
  exact h.afterPage limit

end Storage

end PrivacyWallet
