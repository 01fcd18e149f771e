import Mathlib.Algebra.Order.BigOperators.Group.List
import Mathlib.Algebra.Order.Ring.Nat
import PrivacyWallet.Storage.Reconciling

/-!
# When processing settles

`process_local_state` runs batches while they do something. An event that
cannot be read, or whose nullifier, commitment or leaf is taken by another
event, gets no row and is met by every batch; a commitment whose ciphertext an
account cannot take apart fails every batch. These are the only obstacles: the
loop comes to its end exactly if there are none (`settles_iff`).

Each direction is a statement about one batch first:

- **it succeeds** (`processLocalStateBatch_succeeds`): with everything
  digestible no part of it has an error to give;
- **it comes closer** (`batch_decreases`): a batch that goes on had a page of
  events, and then fewer events are without a row (`unprocessed_afterPage`);
  or it moved a mark of an account or a pool, and then `scanWork` and
  `reconcileWork` are smaller. Events come first in the measure, as new rows
  make new work for the marks;
- **the last one** (`processLocalStateBatch_ok`): a batch that did nothing
  found nothing to do, which is `Settled`.

So with everything digestible the loop ends (`Digestible.settles`). For the
converse a settled database has, for every event, the row that the event says
(`Settled.mem`), so every event could be read and no key was taken twice
(`unrepeated_of_holds`), and every account has seen every commitment
(`Settled.derived`). What the two sides speak of is not changed by processing
itself (`SameInput`).
-/

namespace PrivacyWallet

namespace Storage

open Circuits InvokeM Planner Prover Watermark

variable {V E : Type} (sdk : ScValSdk V) (derive : DeriveNoteFn E)

/-! ## Runs -/

inductive Step (E : Type) where
  | saveEvents (events : List ContractEvent)
  | saveSyncProgress (entries : List SyncRow) (fullyIndexed : Bool)
  | clearCursors
  | saveKeypairs (address : String) (keys : StoredUserKeys E)
  | processEvents (limit : Nat)
  | scan (limit : Nat)
  | reconcile (limit : Nat)

/-- The database after a step, whether it succeeds or not. -/
def exec (t : Tables E) : Step E → Tables E
  | .saveEvents events => saveEventsBatch events t
  | .saveSyncProgress entries fullyIndexed => saveSyncProgress entries fullyIndexed t
  | .clearCursors => clearIndexingCursors t
  | .saveKeypairs address keys => saveKeypairs address keys t
  | .processEvents limit => (processEvents sdk limit t).2
  | .scan limit => (scanCommitmentsForUserNotes derive limit t).2
  | .reconcile limit => (reconcileNullifiers limit t).2

def runs (steps : List (Step E)) : Tables E := Run.run (exec sdk derive) Tables.empty steps

variable {sdk derive} {t t' : Tables E}

theorem Inv.empty : Inv sdk derive Tables.empty where
  stored :=
    { ids := List.nodup_nil
      contracts := nofun
      contractsNodup := List.nodup_nil
      nullifiers := ⟨nofun, List.nodup_nil, List.nodup_nil⟩
      commitments := ⟨nofun, List.nodup_nil, List.nodup_nil⟩
      publicKeys := ⟨nofun, List.nodup_nil, List.nodup_nil⟩
      leaves := ⟨nofun, List.nodup_nil, List.nodup_nil⟩
      scanMarks := fun _ _ => le_rfl
      nullifierMarks := fun _ => le_rfl }
  noted := ⟨nofun, List.nodup_nil, nofun, nofun, nofun⟩

theorem Inv.exec (h : Inv sdk derive t) : ∀ step : Step E, Inv sdk derive (exec sdk derive t step)
  | .saveEvents events => h.saveEventsBatch events
  | .saveSyncProgress entries fullyIndexed => h.saveSyncProgress entries fullyIndexed
  | .clearCursors => h.clearIndexingCursors
  | .saveKeypairs address keys => h.saveKeypairs address keys
  | .processEvents limit => h.processEvents limit
  | .scan limit => h.scanCommitmentsForUserNotes limit
  | .reconcile limit => h.reconcileNullifiers limit

/-- The invariant holds after any steps. -/
theorem Inv.run (steps : List (Step E)) : Inv sdk derive (runs sdk derive steps) :=
  Run.invariant Inv.empty fun _ step h => h.exec step

/-! ## Events with a row -/

/-- The table of its kind has what the event says. -/
def Holds (t : Tables E) : ProcessedEvent → Prop
  | .nullifier row => row ∈ t.poolNullifiers
  | .commitment row => row ∈ t.poolCommitments
  | .publicKey row => row ∈ t.publicKeys
  | .leafAdded row => row ∈ t.aspMembershipLeaves
  | .other _ => False

theorem holds_nullifier {ev : ProcessedEvent} {row : NewNullifierEvent}
    (hof : nullifierKind.of ev = some row) : Holds t ev ↔ row ∈ t.poolNullifiers := by
  cases ev <;> cases hof
  exact Iff.rfl

theorem holds_commitment {ev : ProcessedEvent} {row : NewCommitmentEvent}
    (hof : commitmentKind.of ev = some row) : Holds t ev ↔ row ∈ t.poolCommitments := by
  cases ev <;> cases hof
  exact Iff.rfl

theorem holds_publicKey {ev : ProcessedEvent} {row : PublicKeyEvent}
    (hof : publicKeyKind.of ev = some row) : Holds t ev ↔ row ∈ t.publicKeys := by
  cases ev <;> cases hof
  exact Iff.rfl

theorem holds_leaf {ev : ProcessedEvent} {row : LeafAddedEvent}
    (hof : leafKind.of ev = some row) : Holds t ev ↔ row ∈ t.aspMembershipLeaves := by
  cases ev <;> cases hof
  exact Iff.rfl

theorem source_of_id {ρ κ : Type} {k : Kind ρ κ} {table : List ρ} (h : Stored sdk t)
    (ht : FromEvents sdk k t.rawEvents table) {event : ContractEvent} (he : event ∈ t.rawEvents)
    {row : ρ} (hrow : row ∈ table) (hid : k.eventId row = event.id) : Reads sdk k event row := by
  obtain ⟨source, hsource, hreads⟩ := ht.source row hrow
  have heq : source = event :=
    List.inj_on_of_nodup_map h.ids hsource he (hreads.eventId.symm.trans hid)
  exact heq ▸ hreads

theorem processed_iff (h : Stored sdk t) {event : ContractEvent} (he : event ∈ t.rawEvents) :
    processed t event.id = true ↔ ∃ ev, parseEvent sdk event = some ev ∧ Holds t ev := by
  constructor
  · intro hp
    simp only [processed, Bool.or_eq_true, List.any_eq_true, decide_eq_true_eq] at hp
    rcases hp with ((⟨row, hrow, hid⟩ | ⟨row, hrow, hid⟩) | ⟨row, hrow, hid⟩) | ⟨row, hrow, hid⟩
    · obtain ⟨ev, hparse, hof⟩ := source_of_id (k := commitmentKind) h h.commitments he hrow hid
      exact ⟨ev, hparse, (holds_commitment hof).mpr hrow⟩
    · obtain ⟨ev, hparse, hof⟩ := source_of_id (k := publicKeyKind) h h.publicKeys he hrow hid
      exact ⟨ev, hparse, (holds_publicKey hof).mpr hrow⟩
    · obtain ⟨ev, hparse, hof⟩ := source_of_id (k := nullifierKind) h h.nullifiers he hrow hid
      exact ⟨ev, hparse, (holds_nullifier hof).mpr hrow⟩
    · obtain ⟨ev, hparse, hof⟩ := source_of_id (k := leafKind) h h.leaves he hrow hid
      exact ⟨ev, hparse, (holds_leaf hof).mpr hrow⟩
  · rintro ⟨ev, hparse, hholds⟩
    have hid := parseEvent_id hparse
    simp only [processed, Bool.or_eq_true, List.any_eq_true, decide_eq_true_eq]
    cases ev with
    | nullifier row => exact Or.inl (Or.inr ⟨row, hholds, hid⟩)
    | commitment row => exact Or.inl (Or.inl (Or.inl ⟨row, hholds, hid⟩))
    | publicKey row => exact Or.inl (Or.inl (Or.inr ⟨row, hholds, hid⟩))
    | leafAdded row => exact Or.inr ⟨row, hholds, hid⟩
    | other id => exact hholds.elim

/-! ## What can be digested -/

/-- No two events say the same of one key. -/
def Unrepeated {ρ κ : Type} (sdk : ScValSdk V) (k : Kind ρ κ) (raw : List ContractEvent) : Prop :=
  ∀ event ∈ raw, ∀ event' ∈ raw, ∀ row row', Reads sdk k event row → Reads sdk k event' row' →
    k.key row = k.key row' → event = event'

/-- An event of one of the four kinds that have a table. -/
def Storable (sdk : ScValSdk V) (event : ContractEvent) : Prop :=
  ∃ ev, parseEvent sdk event = some ev ∧ ∀ id, ev ≠ .other id

/-- Every event can have a row, and every account can read every commitment. -/
structure Digestible (sdk : ScValSdk V) (derive : DeriveNoteFn E) (t : Tables E) : Prop where
  storable : ∀ event ∈ t.rawEvents, Storable sdk event
  nullifiers : Unrepeated sdk nullifierKind t.rawEvents
  commitments : Unrepeated sdk commitmentKind t.rawEvents
  leaves : Unrepeated sdk leafKind t.rawEvents
  readable : ∀ event ∈ t.rawEvents, ∀ row, Reads sdk commitmentKind event row →
    ∀ account ∈ accountsWithLatestKeypairs t, ∃ derived?, derive account.2 row = .ok derived?

/-- An account has the same keys whenever they are saved. -/
def KeysStable (t : Tables E) : Prop :=
  ∀ a ∈ t.keypairs, ∀ b ∈ t.keypairs, a.accountId = b.accountId → a.keys = b.keys

/-- Notes of different commitments expect different nullifiers. -/
def NullifiersDiffer (sdk : ScValSdk V) (derive : DeriveNoteFn E) (t : Tables E) : Prop :=
  ∀ event ∈ t.rawEvents, ∀ event' ∈ t.rawEvents, ∀ row row',
    Reads sdk commitmentKind event row → Reads sdk commitmentKind event' row' →
      ∀ a ∈ t.keypairs, ∀ b ∈ t.keypairs, ∀ d d', derive a.keys row = .ok (some d) →
        derive b.keys row' = .ok (some d') → d.expectedNullifier = d'.expectedNullifier →
          row = row'

/-- Notes that differ in their commitments differ in what tells the rows of
the commitments apart. -/
theorem Inv.nodup_of_row {κ : Type} (h : Inv sdk derive t) (f : UserNoteRow → κ)
    (hrow : ∀ a b row row' keys keys' d d', Opens derive t a row keys d →
      Opens derive t b row' keys' d' → f a = f b → row = row') : (t.userNotes.map f).Nodup := by
  have hids := h.noted.commitmentIds
  rw [List.Nodup, List.pairwise_map] at hids ⊢
  refine List.Pairwise.imp_of_mem (fun {a b} ha hb hne heq => hne ?_) hids
  obtain ⟨row, keys, d, ho⟩ := h.noted.opens a ha
  obtain ⟨row', keys', d', ho'⟩ := h.noted.opens b hb
  have hsame : row = row' := hrow a b row row' keys keys' d d' ho ho' heq
  exact number_unique (List.Nodup.of_map _ h.stored.commitments.keys) ho.mem (hsame ▸ ho'.mem)

theorem NullifiersDiffer.distinct (hd : NullifiersDiffer sdk derive t) (h : Inv sdk derive t) :
    Distinct t := by
  refine h.nodup_of_row _ fun a b row row' keys keys' d d' ho ho' heq => ?_
  obtain ⟨event, hevent, hreads⟩ := h.stored.commitments.source row (mem_of_mem_numbered ho.mem)
  obtain ⟨event', hevent', hreads'⟩ := h.stored.commitments.source row'
    (mem_of_mem_numbered ho'.mem)
  exact hd event hevent event' hevent' row row' hreads hreads' _ ho.held _ ho'.held d d' ho.derives
    ho'.derives (ho.expectedNullifier.symm.trans (heq.trans ho'.expectedNullifier))

/-! ## Pages -/

/-- A row of a page that nothing repeats is inserted. -/
theorem mem_afterPage {ρ κ : Type} [DecidableEq κ] {k : Kind ρ κ} {table : List ρ} {limit : Nat}
    (ht : FromEvents sdk k t.rawEvents table) (hu : Unrepeated sdk k t.rawEvents)
    {event : ContractEvent} (he : event ∈ getUnprocessedEvents t limit) {row : ρ}
    (hreads : Reads sdk k event row) :
    row ∈ Table.insertAllNew k.key table (pageRows sdk k t limit) := by
  refine Table.mem_insertAllNew_of_mem_rows (mem_pageRows.mpr ⟨event, he, hreads⟩) ?_
  intro row' hrow' hkey
  have hraw := (mem_unprocessedEvents.mp (mem_of_mem_getUnprocessedEvents he)).1
  obtain ⟨event', hevent', hreads'⟩ : ∃ event' ∈ t.rawEvents, Reads sdk k event' row' := by
    rcases hrow' with hold | hnew
    · exact ht.source row' hold
    · exact pageRows_source hnew
  have heq := hu event' hevent' event hraw row' row hreads' hreads hkey
  exact Reads.unique (heq ▸ hreads') hreads

theorem holds_afterPage (h : Stored sdk t) (hd : Digestible sdk derive t) {limit : Nat}
    {event : ContractEvent} (he : event ∈ getUnprocessedEvents t limit) :
    processed (afterPage sdk limit t) event.id = true := by
  have hraw := (mem_unprocessedEvents.mp (mem_of_mem_getUnprocessedEvents he)).1
  obtain ⟨ev, hparse, hother⟩ := hd.storable event hraw
  refine (processed_iff (h.afterPage limit) hraw).mpr ⟨ev, hparse, ?_⟩
  cases ev with
  | nullifier row => exact mem_afterPage h.nullifiers hd.nullifiers he ⟨_, hparse, rfl⟩
  | commitment row => exact mem_afterPage h.commitments hd.commitments he ⟨_, hparse, rfl⟩
  | publicKey row =>
      refine mem_afterPage h.publicKeys (fun e he e' he' r r' hr hr' hkey => ?_) he
        ⟨_, hparse, rfl⟩
      exact List.inj_on_of_nodup_map h.ids he he'
        (hr.eventId.symm.trans (Eq.trans hkey hr'.eventId))
  | leafAdded row => exact mem_afterPage h.leaves hd.leaves he ⟨_, hparse, rfl⟩
  | other id => exact absurd rfl (hother id)

theorem processed_afterPage {limit : Nat} {eventId : String} (h : processed t eventId = true) :
    processed (afterPage sdk limit t) eventId = true := by
  simp only [processed, Bool.or_eq_true, List.any_eq_true] at h ⊢
  rcases h with ((⟨row, hrow, hid⟩ | ⟨row, hrow, hid⟩) | ⟨row, hrow, hid⟩) | ⟨row, hrow, hid⟩
  · exact Or.inl (Or.inl (Or.inl ⟨row, Table.prefix_insertAllNew.subset hrow, hid⟩))
  · exact Or.inl (Or.inl (Or.inr ⟨row, Table.prefix_insertAllNew.subset hrow, hid⟩))
  · exact Or.inl (Or.inr ⟨row, Table.prefix_insertAllNew.subset hrow, hid⟩)
  · exact Or.inr ⟨row, Table.prefix_insertAllNew.subset hrow, hid⟩

theorem getUnprocessedEvents_eq_nil {limit : Nat} (hlimit : 0 < limit) :
    getUnprocessedEvents t limit = [] ↔ unprocessedEvents t = [] := by
  rw [getUnprocessedEvents, List.take_eq_nil_iff, ← List.length_eq_zero_iff, List.length_mergeSort,
    List.length_eq_zero_iff]
  exact ⟨fun h => h.resolve_left hlimit.ne', Or.inr⟩

/-- A page that is not empty leaves fewer events without a row. -/
theorem unprocessed_afterPage (h : Stored sdk t) (hd : Digestible sdk derive t) {limit : Nat}
    (hne : getUnprocessedEvents t limit ≠ []) :
    (unprocessedEvents (afterPage sdk limit t)).length < (unprocessedEvents t).length := by
  obtain ⟨event, he⟩ := List.exists_mem_of_ne_nil _ hne
  have hsub : (unprocessedEvents (afterPage sdk limit t)).Sublist (unprocessedEvents t) := by
    refine List.monotone_filter_right t.rawEvents fun e hnew => ?_
    rw [Bool.not_eq_true'] at hnew ⊢
    by_contra hold
    rw [processed_afterPage (Bool.not_eq_false _ ▸ hold)] at hnew
    cases hnew
  refine lt_of_le_of_ne hsub.length_le fun hlen => ?_
  have hmem := hsub.eq_of_length hlen ▸ mem_of_mem_getUnprocessedEvents he
  have hfalse := (mem_unprocessedEvents.mp hmem).2
  rw [holds_afterPage h hd he] at hfalse
  cases hfalse

/-! ## Batches -/

/-- What is not touched by processing. -/
structure SameInput (t t' : Tables E) : Prop where
  rawEvents : t'.rawEvents = t.rawEvents
  contracts : t'.contracts = t.contracts
  accounts : t'.accounts = t.accounts
  keypairs : t'.keypairs = t.keypairs

theorem SameInput.trans {t'' : Tables E} (h : SameInput t t') (h' : SameInput t' t'') :
    SameInput t t'' :=
  ⟨h'.rawEvents.trans h.rawEvents, h'.contracts.trans h.contracts, h'.accounts.trans h.accounts,
    h'.keypairs.trans h.keypairs⟩

theorem Scans.sameInput (h : Scans t t') : SameInput t t' := by
  obtain ⟨_, _, rfl⟩ := h.same
  exact ⟨rfl, rfl, rfl, rfl⟩

theorem Reconciles.sameInput (h : Reconciles t t') : SameInput t t' := by
  obtain ⟨_, _, rfl⟩ := h.same
  exact ⟨rfl, rfl, rfl, rfl⟩

theorem SameInput.latest (h : SameInput t t') :
    accountsWithLatestKeypairs t' = accountsWithLatestKeypairs t := by
  simp only [accountsWithLatestKeypairs, latestKeys, h.accounts, h.keypairs]

theorem SameInput.digestible (h : SameInput t t') :
    Digestible sdk derive t' ↔ Digestible sdk derive t := by
  constructor <;> rintro ⟨h₁, h₂, h₃, h₄, h₅⟩
  · rw [h.rawEvents] at h₁ h₂ h₃ h₄ h₅
    rw [h.latest] at h₅
    exact ⟨h₁, h₂, h₃, h₄, h₅⟩
  · rw [← h.rawEvents] at h₁ h₂ h₃ h₄ h₅
    rw [← h.latest] at h₅
    exact ⟨h₁, h₂, h₃, h₄, h₅⟩

theorem SameInput.nullifiersDiffer (h : SameInput t t') (hd : NullifiersDiffer sdk derive t) :
    NullifiersDiffer sdk derive t' := by
  unfold NullifiersDiffer
  rw [h.rawEvents, h.keypairs]
  exact hd

theorem SameInput.keysStable (h : SameInput t t') (hk : KeysStable t) : KeysStable t' := by
  unfold KeysStable
  rw [h.keypairs]
  exact hk

theorem reconcileNullifiers_eq {limit : Nat} (hlimit : 0 < limit) (t : Tables E) :
    reconcileNullifiers limit t = reconcileEach limit (nullifierPools t) t := by
  rw [reconcileNullifiers, if_neg hlimit.ne', read_bind]

/-- A batch is its three parts. -/
theorem processLocalStateBatch_eq_ok (h : Stored sdk t) {more : Bool} :
    processLocalStateBatch sdk derive t = (.ok more, t') ↔ ∃ scanned reconciled t₂,
      scanCommitmentsForUserNotes derive processFetchLimit (afterPage sdk processFetchLimit t)
          = (.ok scanned, t₂) ∧
        reconcileNullifiers processFetchLimit t₂ = (.ok reconciled, t') ∧
        more = (!(getUnprocessedEvents t processFetchLimit).isEmpty
          || (scanned || reconciled)) := by
  unfold processLocalStateBatch processNotes
  rw [bind_of_ok (processEvents_run h processFetchLimit)]
  constructor
  · intro hrun
    obtain ⟨notes, t₃, hnotes, hrun⟩ := bind_eq_ok.mp hrun
    obtain ⟨scanned, t₂, hscan, hnotes⟩ := bind_eq_ok.mp hnotes
    obtain ⟨reconciled, t₄, hrec, hnotes⟩ := bind_eq_ok.mp hnotes
    obtain ⟨rfl, rfl⟩ := pure_eq_ok.mp hnotes
    obtain ⟨rfl, rfl⟩ := pure_eq_ok.mp hrun
    exact ⟨scanned, reconciled, t₂, hscan, hrec, rfl⟩
  · rintro ⟨scanned, reconciled, t₂, hscan, hrec, rfl⟩
    exact bind_of_ok ((bind_of_ok hscan).trans (bind_of_ok hrec))

/-! ## What is left to do -/

/-- What the accounts have to scan. -/
def scanWork (t : Tables E) : Nat :=
  ((scanPools t).map fun pool => ((accountsWithLatestKeypairs t).map fun account =>
    (unscanned t pool account.1).length).sum).sum

/-- What the pools have to reconcile. -/
def reconcileWork (t : Tables E) : Nat :=
  ((nullifierPools t).map fun pool => (unreconciled t pool).length).sum

theorem Scans.scanPools (h : Scans t t') : scanPools t' = scanPools t := by
  obtain ⟨_, _, rfl⟩ := h.same
  rfl

theorem Scans.reconcileWork (h : Scans t t') : reconcileWork t' = reconcileWork t := by
  obtain ⟨_, _, rfl⟩ := h.same
  rfl

theorem Scans.unprocessed (h : Scans t t') : unprocessedEvents t' = unprocessedEvents t := by
  obtain ⟨_, _, rfl⟩ := h.same
  rfl

theorem Scans.scanWork_le (h : Scans t t') : scanWork t' ≤ scanWork t := by
  rw [scanWork, scanWork, h.scanPools, h.sameInput.latest]
  exact List.sum_le_sum fun pool _ => List.sum_le_sum fun account _ =>
    h.unscanned_length pool account.1

theorem Scans.scanWork_lt (h : Scans t t') (ha : ∃ pool ∈ Storage.scanPools t,
    Advanced t t' pool (accountsWithLatestKeypairs t)) : scanWork t' < scanWork t := by
  obtain ⟨pool, hpool, account, haccount, hlt⟩ := ha
  rw [scanWork, scanWork, h.scanPools, h.sameInput.latest]
  refine List.sum_lt_sum _ _ (fun p _ => List.sum_le_sum fun a _ => h.unscanned_length p a.1)
    ⟨pool, hpool, ?_⟩
  exact List.sum_lt_sum _ _ (fun a _ => h.unscanned_length pool a.1) ⟨account, haccount, hlt⟩

theorem Reconciles.nullifierPools (h : Reconciles t t') :
    nullifierPools t' = nullifierPools t := by
  obtain ⟨_, _, rfl⟩ := h.same
  rfl

theorem Reconciles.scanWork (h : Reconciles t t') : scanWork t' = scanWork t := by
  obtain ⟨_, _, rfl⟩ := h.same
  rfl

theorem Reconciles.unprocessed (h : Reconciles t t') :
    unprocessedEvents t' = unprocessedEvents t := by
  obtain ⟨_, _, rfl⟩ := h.same
  rfl

theorem Reconciles.allScanned (h : Reconciles t t') (hall : AllScanned t) : AllScanned t' := by
  obtain ⟨_, _, rfl⟩ := h.same
  exact hall

theorem Reconciles.reconcileWork_le (h : Reconciles t t') :
    reconcileWork t' ≤ reconcileWork t := by
  rw [reconcileWork, reconcileWork, h.nullifierPools]
  exact List.sum_le_sum fun pool _ => h.unreconciled_length pool

theorem Reconciles.reconcileWork_lt (h : Reconciles t t') (ha : ∃ pool ∈ Storage.nullifierPools t,
    (unreconciled t' pool).length < (unreconciled t pool).length) :
    reconcileWork t' < reconcileWork t := by
  rw [reconcileWork, reconcileWork, h.nullifierPools]
  exact List.sum_lt_sum _ _ (fun pool _ => h.unreconciled_length pool) ha

/-- All that a batch looks for has been done. -/
structure Settled (t : Tables E) : Prop where
  processed : unprocessedEvents t = []
  scanned : AllScanned t
  reconciled : ∀ pool ∈ nullifierPools t, unreconciled t pool = []

/-- A batch that goes on had a page of events, or came closer to its end; the
last one finds nothing to do. The three parts of a batch are put together: a
page adds rows and leaves the marks, a scan and a round each only lower what is
left for them, and one that did something lowers it truly. -/
theorem processLocalStateBatch_ok (h : Inv sdk derive t) {more : Bool}
    (hrun : processLocalStateBatch sdk derive t = (.ok more, t')) :
    Inv sdk derive t' ∧ SameInput t t' ∧
      unprocessedEvents t' = unprocessedEvents (afterPage sdk processFetchLimit t) ∧
      (more = true → getUnprocessedEvents t processFetchLimit ≠ [] ∨
        scanWork t' + reconcileWork t' < scanWork t + reconcileWork t) ∧
      (more = false → Settled t') := by
  have hlimit : 0 < processFetchLimit := by decide
  obtain ⟨scanned, reconciled, t₂, hscan, hrec, rfl⟩ :=
    (processLocalStateBatch_eq_ok h.stored).mp hrun
  obtain ⟨h₂, hs, hprog, hidle⟩ :=
    scanCommitmentsForUserNotes_ok (h.afterPage _) hlimit hscan
  rw [reconcileNullifiers_eq hlimit] at hrec
  obtain ⟨h', hr, hprog', hidle'⟩ := reconcileEach_ok h₂ hlimit hrec
  have hsame : SameInput t (afterPage sdk processFetchLimit t) := ⟨rfl, rfl, rfl, rfl⟩
  refine ⟨h', hsame.trans (hs.sameInput.trans hr.sameInput), hr.unprocessed.trans hs.unprocessed,
    fun hmore => ?_, fun hmore => ?_⟩
  · by_cases hpage : getUnprocessedEvents t processFetchLimit = []
    · refine Or.inr ?_
      rw [hpage, List.isEmpty_nil, Bool.not_true, Bool.false_or] at hmore
      rw [afterPage_of_nil hpage] at hs hprog
      have hscan_le := hs.scanWork_le
      have hrec_le := hr.reconcileWork_le
      have hscan_eq := hr.scanWork
      have hrec_eq := hs.reconcileWork
      rcases Bool.or_eq_true_iff.mp hmore with hb | hb
      · have := hs.scanWork_lt (hprog hb)
        omega
      · have := hr.reconcileWork_lt (hprog' hb)
        omega
    · exact Or.inl hpage
  · rw [Bool.or_eq_false_iff, Bool.or_eq_false_iff, Bool.not_eq_false', List.isEmpty_iff] at hmore
    obtain ⟨hpage, hb, hb'⟩ := hmore
    obtain ⟨rfl, hall⟩ := hidle hb
    rw [afterPage_of_nil hpage] at hall hr
    refine ⟨?_, hr.allScanned hall, fun pool hpool => ?_⟩
    · rw [hr.unprocessed]
      exact (getUnprocessedEvents_eq_nil hlimit).mp hpage
    · rw [hr.nullifierPools] at hpool
      rw [afterPage_of_nil hpage] at hidle'
      exact hidle' hb' pool hpool

/-! ## The loop -/

/-- With everything digestible no batch fails. -/
theorem processLocalStateBatch_succeeds (h : Inv sdk derive t) (hd : Digestible sdk derive t)
    (hn : NullifiersDiffer sdk derive t) :
    ∃ more t', processLocalStateBatch sdk derive t = (.ok more, t') := by
  have hlimit : 0 < processFetchLimit := by decide
  have hpage := h.afterPage processFetchLimit
  have hread : ∀ pool ∈ scanPools (afterPage sdk processFetchLimit t),
      Readable derive (afterPage sdk processFetchLimit t) pool
        (accountsWithLatestKeypairs (afterPage sdk processFetchLimit t)) := by
    intro pool _ account haccount row hrow
    obtain ⟨hnum, -, -⟩ := mem_pending.mp hrow
    obtain ⟨event, hevent, hreads⟩ := hpage.stored.commitments.source _ (mem_of_mem_numbered hnum)
    exact hd.readable event hevent row.1 hreads account haccount
  obtain ⟨scanned, t₂, hscan⟩ : ∃ b t₂, scanCommitmentsForUserNotes derive processFetchLimit
      (afterPage sdk processFetchLimit t) = (.ok b, t₂) :=
    scanCommitmentsForUserNotes_succeeds hpage hread
  obtain ⟨h₂, hs, -⟩ := scanCommitmentsForUserNotes_ok hpage hlimit hscan
  have hsame : SameInput t (afterPage sdk processFetchLimit t) := ⟨rfl, rfl, rfl, rfl⟩
  have hdistinct := ((hsame.trans hs.sameInput).nullifiersDiffer hn).distinct h₂
  obtain ⟨reconciled, t', hrec⟩ :
      ∃ b t', reconcileEach processFetchLimit (nullifierPools t₂) t₂ = (.ok b, t') :=
    reconcileEach_succeeds h₂ hlimit hdistinct
  exact ⟨_, t', (processLocalStateBatch_eq_ok h.stored).mpr ⟨scanned, reconciled, t₂, hscan,
    (reconcileNullifiers_eq hlimit t₂).trans hrec, rfl⟩⟩

/-- A batch whose page is not empty takes events off the list; every other one
takes from the work of the accounts and the pools. -/
theorem batch_decreases (h : Inv sdk derive t) (hd : Digestible sdk derive t)
    (hrun : processLocalStateBatch sdk derive t = (.ok true, t')) :
    (unprocessedEvents t').length < (unprocessedEvents t).length ∨
      (unprocessedEvents t').length = (unprocessedEvents t).length ∧
        scanWork t' + reconcileWork t' < scanWork t + reconcileWork t := by
  obtain ⟨-, -, hevents, hprog, -⟩ := processLocalStateBatch_ok h hrun
  rw [hevents]
  by_cases hpage : getUnprocessedEvents t processFetchLimit = []
  · rw [afterPage_of_nil hpage]
    exact Or.inr ⟨rfl, (hprog rfl).resolve_left (not_not_intro hpage)⟩
  · exact Or.inl (unprocessed_afterPage h.stored hd hpage)

theorem processLocalState_go_on {fuel : Nat}
    (h : processLocalStateBatch sdk derive t = (.ok true, t')) :
    processLocalState sdk derive (fuel + 1) t = processLocalState sdk derive fuel t' :=
  loop_go_on ((bind_of_ok h).trans rfl)

theorem processLocalState_leave {fuel : Nat}
    (h : processLocalStateBatch sdk derive t = (.ok false, t')) :
    processLocalState sdk derive (fuel + 1) t = (.ok (), t') :=
  loop_leave ((bind_of_ok h).trans rfl)

/-- With everything digestible the loop comes to its end. -/
theorem Digestible.settles (h : Inv sdk derive t) (hd : Digestible sdk derive t)
    (hn : NullifiersDiffer sdk derive t) :
    ∃ fuel t', processLocalState sdk derive fuel t = (.ok (), t') := by
  -- first by the events without a row, then by the work that is left
  induction hevents : (unprocessedEvents t).length using Nat.strong_induction_on generalizing t with
  | _ events ihEvents =>
  induction hwork : scanWork t + reconcileWork t using Nat.strong_induction_on generalizing t with
  | _ work ihWork =>
  obtain ⟨more, t₁, hrun⟩ := processLocalStateBatch_succeeds h hd hn
  obtain ⟨h₁, hsame, -⟩ := processLocalStateBatch_ok h hrun
  cases more with
  | false => exact ⟨1, t₁, processLocalState_leave hrun⟩
  | true =>
      have hd₁ := hsame.digestible.mpr hd
      have hn₁ := hsame.nullifiersDiffer hn
      obtain ⟨fuel, t', hrest⟩ :
          ∃ fuel t', processLocalState sdk derive fuel t₁ = (.ok (), t') := by
        rcases batch_decreases h hd hrun with hlt | ⟨heq, hlt⟩
        · exact ihEvents _ (hevents ▸ hlt) h₁ hd₁ hn₁ rfl
        · exact ihWork _ (hwork ▸ hlt) h₁ hd₁ hn₁ (heq.trans hevents) rfl
      exact ⟨fuel + 1, t', (processLocalState_go_on hrun).trans hrest⟩

/-- Where the loop ends nothing is left to do. -/
theorem processLocalState_ok {fuel : Nat} (h : Inv sdk derive t)
    (hrun : processLocalState sdk derive fuel t = (.ok (), t')) :
    Inv sdk derive t' ∧ SameInput t t' ∧ Settled t' := by
  induction fuel generalizing t with
  | zero => cases hrun
  | succ fuel ih =>
      obtain ⟨r, t₁, hround, hrest⟩ := bind_eq_ok.mp hrun
      obtain ⟨more, t₂, hbatch, hpure⟩ := bind_eq_ok.mp hround
      obtain ⟨rfl, rfl⟩ := pure_eq_ok.mp hpure
      obtain ⟨h₁, hsame, -, -, hend⟩ := processLocalStateBatch_ok h hbatch
      cases more with
      | false =>
          obtain ⟨-, rfl⟩ := pure_eq_ok.mp hrest
          exact ⟨h₁, hsame, hend rfl⟩
      | true =>
          obtain ⟨h', hsame', hsettled⟩ := ih h₁ hrest
          exact ⟨h', hsame.trans hsame', hsettled⟩

/-! ## Settled tables -/

theorem Settled.holds (hs : Settled t) (h : Stored sdk t) {event : ContractEvent}
    (he : event ∈ t.rawEvents) : ∃ ev, parseEvent sdk event = some ev ∧ Holds t ev := by
  refine (processed_iff h he).mp ?_
  by_contra hnew
  have hmem := mem_unprocessedEvents.mpr ⟨he, Bool.eq_false_iff.mpr hnew⟩
  rw [hs.processed] at hmem
  cases hmem

/-- A table that has every row read off an event has no key twice. -/
theorem unrepeated_of_holds {ρ κ : Type} {k : Kind ρ κ} {table : List ρ} (h : Stored sdk t)
    (ht : FromEvents sdk k t.rawEvents table)
    (hall : ∀ event ∈ t.rawEvents, ∀ row, Reads sdk k event row → row ∈ table) :
    Unrepeated sdk k t.rawEvents := by
  intro event he event' he' row row' hreads hreads' hkey
  have hrow : row = row' := List.inj_on_of_nodup_map ht.keys (hall event he row hreads)
    (hall event' he' row' hreads') hkey
  exact List.inj_on_of_nodup_map h.ids he he'
    (hreads.eventId.symm.trans ((congrArg k.eventId hrow).trans hreads'.eventId))

/-- Every row that an event says is in the table of its kind. -/
theorem Settled.mem {ρ κ : Type} {k : Kind ρ κ} {table : List ρ} (hs : Settled t)
    (h : Stored sdk t) (htable : ∀ ev row, k.of ev = some row → Holds t ev → row ∈ table)
    {event : ContractEvent} (he : event ∈ t.rawEvents) {row : ρ} (hreads : Reads sdk k event row) :
    row ∈ table := by
  obtain ⟨ev, hparse, hof⟩ := hreads
  obtain ⟨ev', hparse', hholds⟩ := hs.holds h he
  cases hparse.symm.trans hparse'
  exact htable ev row hof hholds

theorem Settled.nullifier_mem (hs : Settled t) (h : Stored sdk t) {event : ContractEvent}
    (he : event ∈ t.rawEvents) {row : NewNullifierEvent}
    (hreads : Reads sdk nullifierKind event row) : row ∈ t.poolNullifiers :=
  hs.mem h (fun _ _ hof => (holds_nullifier hof).mp) he hreads

theorem Settled.commitment_mem (hs : Settled t) (h : Stored sdk t) {event : ContractEvent}
    (he : event ∈ t.rawEvents) {row : NewCommitmentEvent}
    (hreads : Reads sdk commitmentKind event row) : row ∈ t.poolCommitments :=
  hs.mem h (fun _ _ hof => (holds_commitment hof).mp) he hreads

theorem Settled.leaf_mem (hs : Settled t) (h : Stored sdk t) {event : ContractEvent}
    (he : event ∈ t.rawEvents) {row : LeafAddedEvent} (hreads : Reads sdk leafKind event row) :
    row ∈ t.aspMembershipLeaves :=
  hs.mem h (fun _ _ hof => (holds_leaf hof).mp) he hreads

/-- The pool of a row is one of the pools that are scanned. -/
theorem mem_scanPools (h : Stored sdk t) {event : ContractEvent} (he : event ∈ t.rawEvents)
    {row : NewCommitmentEvent} (hrow : row ∈ t.poolCommitments)
    (hreads : Reads sdk commitmentKind event row) :
    event.contractId ∈ scanPools t ∧ ofPool t event.contractId row = true := by
  have hpool : ofPool t event.contractId row = true := by
    exact decide_eq_true ((contractOf_eq_some h.ids rfl).mpr
      ⟨event, he, hreads.eventId.symm, rfl⟩)
  exact ⟨List.mem_filter.mpr ⟨h.contracts event he, List.any_eq_true.mpr ⟨row, hrow, hpool⟩⟩,
    hpool⟩

/-- Every account has seen every commitment, with the keys that it has. -/
theorem Settled.derived (hs : Settled t) (h : Inv sdk derive t) (hk : KeysStable t)
    {event : ContractEvent} (he : event ∈ t.rawEvents) {row : NewCommitmentEvent}
    (hreads : Reads sdk commitmentKind event row) {account : Nat × StoredUserKeys E}
    (haccount : account ∈ accountsWithLatestKeypairs t) :
    ∃ i derived?, (row, i) ∈ numbered t.poolCommitments ∧
      derive account.2 row = .ok derived? ∧
      ∀ derived ∈ derived?, ∃ note ∈ t.userNotes, note.commitmentId = i ∨
        note.expectedNullifier = derived.expectedNullifier := by
  have hrow := hs.commitment_mem h.stored he hreads
  obtain ⟨hpool, hof⟩ := mem_scanPools h.stored he hrow hreads
  obtain ⟨i, hnum⟩ := mem_numbered_of_mem hrow
  have hle := pending_eq_nil_iff.mp (hs.scanned _ hpool account haccount) row i hnum hof
  obtain ⟨keys, derived?, hkeys, hderive, hnote⟩ :=
    h.noted.scanned _ account.1 row i hnum hof hle
  have heq : keys = account.2 := hk _ hkeys _ (held_accounts t account haccount) rfl
  exact ⟨i, derived?, hnum, heq ▸ hderive, hnote⟩

theorem Settled.digestible (hs : Settled t) (h : Inv sdk derive t) (hk : KeysStable t) :
    Digestible sdk derive t where
  storable event he := by
    obtain ⟨ev, hparse, hholds⟩ := hs.holds h.stored he
    refine ⟨ev, hparse, ?_⟩
    rintro id rfl
    exact hholds
  nullifiers := unrepeated_of_holds h.stored h.stored.nullifiers fun _ he _ =>
    hs.nullifier_mem h.stored he
  commitments := unrepeated_of_holds h.stored h.stored.commitments fun _ he _ =>
    hs.commitment_mem h.stored he
  leaves := unrepeated_of_holds h.stored h.stored.leaves fun _ he _ => hs.leaf_mem h.stored he
  readable _ he _ hreads _ haccount := by
    obtain ⟨_, derived?, -, hderive, -⟩ := hs.derived h hk he hreads haccount
    exact ⟨derived?, hderive⟩

/-- After any steps, processing comes to its end exactly if every event can
have a row and every account can read every commitment.

A pass that succeeds brings some account closer to its end, so enough passes
come to it if nothing is unreadable (`settles`); and at the end everything was
read. -/
theorem settles_iff (sdk : ScValSdk V) (derive : DeriveNoteFn E) (steps : List (Step E))
    (hk : KeysStable (runs sdk derive steps))
    (hn : NullifiersDiffer sdk derive (runs sdk derive steps)) :
    (∃ fuel t', processLocalState sdk derive fuel (runs sdk derive steps) = (.ok (), t')) ↔
      Digestible sdk derive (runs sdk derive steps) := by
  have h : Inv sdk derive (runs sdk derive steps) := Inv.run steps
  constructor
  · rintro ⟨fuel, t', hrun⟩
    obtain ⟨h', hsame, hs⟩ := processLocalState_ok h hrun
    exact hsame.digestible.mp (hs.digestible h' (hsame.keysStable hk))
  · intro hd
    exact hd.settles h hn

/-! ### One event -/

/-- A decoder for which every text stands for itself. -/
def smallSdk : ScValSdk String where
  fromXdrBase64 := some
  symbol := some
  map v := if v = "data" then some
    [("index", "0"), ("encrypted_output", ""), ("key", "0"), ("value", "0"), ("root", "0")]
    else none
  isVoid v := v = "void"
  toU256 _ := some 0
  toU32 _ := some 0
  toU64 _ := some 0
  toBytes _ := some []
  toAddressString := some

def smallKeys : StoredUserKeys Unit := ⟨⟨0, 0⟩, (), (), 0⟩

/-- Everything is for everybody. -/
def smallDerive : DeriveNoteFn Unit := fun _ row => .ok (some ⟨.zero, 0, row.commitment⟩)

def smallSteps (event : ContractEvent) : List (Step Unit) :=
  [.saveKeypairs "G" smallKeys, .saveEvents [event]]

/-- A commitment of a pool. -/
def smallCommitment : ContractEvent := ⟨"1", 7, "pool", ["new_commitment_event", "0"], "data"⟩

/-- An event of the blocklist, which has no table. -/
def smallBlocked : ContractEvent := ⟨"2", 7, "asp", ["leaf_inserted"], "data"⟩

theorem small_keypairs (event : ContractEvent) :
    (runs smallSdk smallDerive (smallSteps event)).keypairs = [⟨1, smallKeys⟩] := rfl

theorem small_keysStable (event : ContractEvent) :
    KeysStable (runs smallSdk smallDerive (smallSteps event)) := by
  intro a ha b hb _
  rw [small_keypairs, List.mem_singleton] at ha hb
  rw [ha, hb]

theorem small_rawEvents (event : ContractEvent) :
    (runs smallSdk smallDerive (smallSteps event)).rawEvents = [event] := rfl

theorem small_unrepeated {ρ κ : Type} (k : Kind ρ κ) (event : ContractEvent) :
    Unrepeated smallSdk k (runs smallSdk smallDerive (smallSteps event)).rawEvents := by
  intro e he e' he' _ _ _ _ _
  rw [small_rawEvents, List.mem_singleton] at he he'
  exact he.trans he'.symm

theorem small_differ (event : ContractEvent) :
    NullifiersDiffer smallSdk smallDerive (runs smallSdk smallDerive (smallSteps event)) := by
  intro e he e' he' row row' hr hr' _ _ _ _ _ _ _ _ _
  rw [small_rawEvents, List.mem_singleton] at he he'
  subst he he'
  exact hr.unique hr'

theorem small_reads :
    parseEvent smallSdk smallCommitment = some (.commitment ⟨"1", 0, 0, []⟩) := by
  decide +kernel

theorem small_digestible :
    Digestible smallSdk smallDerive (runs smallSdk smallDerive (smallSteps smallCommitment)) where
  storable event he := by
    rw [small_rawEvents, List.mem_singleton] at he
    subst he
    exact ⟨_, small_reads, nofun⟩
  nullifiers := small_unrepeated _ _
  commitments := small_unrepeated _ _
  leaves := small_unrepeated _ _
  readable _ _ _ _ _ _ := ⟨_, rfl⟩

theorem settles_iff_small :
    (∃ fuel t', processLocalState smallSdk smallDerive fuel
        (runs smallSdk smallDerive (smallSteps smallCommitment)) = (.ok (), t')) ∧
      ¬ ∃ fuel t', processLocalState smallSdk smallDerive fuel
        (runs smallSdk smallDerive (smallSteps smallBlocked)) = (.ok (), t') := by
  constructor
  · exact (settles_iff smallSdk smallDerive (smallSteps smallCommitment) (small_keysStable _)
      (small_differ _)).mpr small_digestible
  · intro hends
    have hd := (settles_iff smallSdk smallDerive (smallSteps smallBlocked) (small_keysStable _)
      (small_differ _)).mp hends
    obtain ⟨ev, hparse, hother⟩ := hd.storable smallBlocked (List.mem_singleton_self _)
    have hblocked : parseEvent smallSdk smallBlocked = some (.other "2") := by decide +kernel
    exact hother "2" (Option.some.inj (hparse.symm.trans hblocked))

end Storage

end PrivacyWallet
