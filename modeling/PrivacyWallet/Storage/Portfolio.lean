import PrivacyWallet.Storage.Settling

/-!
# The notes that are listed

`list_unspent_user_notes` joins the notes with the events of their
commitments. Where processing came to its end the list is exact: it has the
commitments of the pool that are for the account and whose nullifier the pool
has not published, each once (`listUnspentUserNotes_iff`).

- **the joins** (`summary_eq`): a note has one commitment row, and the row one
  event, so the summary is that of the event;
- **nothing wrong is listed**: a note opens its commitment with keys of its
  account (`Inv`), and one without a nullifier is unspent, because behind the
  marks no published nullifier was missed (`Settled.nullifierId_eq_none`);
- **nothing is missing** (`Settled.note_of_owned`): the account has seen every
  commitment, so one that it can take apart has a note - its own, as no two
  accounts can take apart the same one (`OneOwner`) and notes of different
  commitments expect different nullifiers;
- **each once** (`Inv.list_nodup`): a commitment has one note.

What is listed can be spent (`listUnspentUserNotes_opens`): the wallet's own
derivation opens the commitment with the amount that is shown, and watches
for the nullifier that the circuit makes.
-/

namespace PrivacyWallet

namespace Storage

open Circuits InvokeM Planner Prover Watermark

variable {V E : Type} {sdk : ScValSdk V} {derive : DeriveNoteFn E} {t t' : Tables E}

/-! ## The list -/

structure UserNoteSummary where
  id : Fr
  poolContractId : String
  amount : NoteAmount
  leafIndex : Nat
  createdAtLedger : Nat
  spent : Bool
deriving DecidableEq

/-- A note joined with its commitment and the event of the commitment. -/
def summary (t : Tables E) (note : UserNoteRow) : Option UserNoteSummary := do
  let commitment ← (numbered t.poolCommitments).find? fun row => row.2 = note.commitmentId
  let event ← t.rawEvents.find? fun event => event.id = commitment.1.id
  some
    { id := note.id, poolContractId := event.contractId, amount := note.amount
      leafIndex := commitment.1.index, createdAtLedger := event.ledger
      spent := note.nullifierId.isSome }

/-- The notes of an address. -/
def notesOf (t : Tables E) (address : String) : List UserNoteRow :=
  t.userNotes.filter fun note =>
    decide (address ∈ t.accounts) && decide (note.accountId = accountId t address)

/-- `ORDER BY r.ledger DESC` -/
def newestFirst (notes : List UserNoteSummary) : List UserNoteSummary :=
  notes.mergeSort fun a b => decide (b.createdAtLedger ≤ a.createdAtLedger)

/-- The unspent notes of an address. -/
def unspentOf (t : Tables E) (address : String) : List UserNoteSummary :=
  ((notesOf t address).filter fun note => note.nullifierId = none).filterMap (summary t)

/-- `list_unspent_user_notes` -/
def listUnspentUserNotes (t : Tables E) (pool address : String) : List UserNoteSummary :=
  newestFirst ((unspentOf t address).filter fun s => s.poolContractId = pool)

/-! ## What should be listed -/

/-- At most one account can take a commitment's ciphertext apart. -/
def OneOwner (sdk : ScValSdk V) (derive : DeriveNoteFn E) (t : Tables E) : Prop :=
  ∀ event ∈ t.rawEvents, ∀ row, Reads sdk commitmentKind event row →
    ∀ a ∈ t.keypairs, ∀ b ∈ t.keypairs, ∀ d d', derive a.keys row = .ok (some d) →
      derive b.keys row = .ok (some d') → a.accountId = b.accountId

theorem SameInput.oneOwner (h : SameInput t t') (ho : OneOwner sdk derive t) :
    OneOwner sdk derive t' := by
  unfold OneOwner
  rw [h.rawEvents, h.keypairs]
  exact ho

/-- The pool has published the nullifier. -/
def Published (sdk : ScValSdk V) (raw : List ContractEvent) (pool : String) (nullifier : Fr) :
    Prop :=
  ∃ event ∈ raw, event.contractId = pool ∧
    ∃ row, Reads sdk nullifierKind event row ∧ row.nullifier = nullifier

/-- The event is a commitment of the pool for an account with the keys. -/
structure Owned (sdk : ScValSdk V) (derive : DeriveNoteFn E) (raw : List ContractEvent)
    (pool : String) (keys : StoredUserKeys E) (event : ContractEvent) (row : NewCommitmentEvent)
    (derived : DerivedUserNote) : Prop where
  mem : event ∈ raw
  pool : event.contractId = pool
  reads : Reads sdk commitmentKind event row
  derives : derive keys row = .ok (some derived)

/-! ## Joins -/

theorem summary_eq (h : Stored sdk t) {note : UserNoteRow} {row : NewCommitmentEvent}
    {event : ContractEvent} (hrow : (row, note.commitmentId) ∈ numbered t.poolCommitments)
    (he : event ∈ t.rawEvents) (hreads : Reads sdk commitmentKind event row) :
    summary t note = some ⟨note.id, event.contractId, note.amount, row.index, event.ledger,
      note.nullifierId.isSome⟩ := by
  have hcommitment : (numbered t.poolCommitments).find? (fun r => r.2 = note.commitmentId)
      = some (row, note.commitmentId) := by
    refine Table.find?_eq_of_unique hrow (decide_eq_true rfl) ?_
    rintro ⟨row', i⟩ hmem hi
    obtain rfl := of_decide_eq_true hi
    rw [numbered_inj hmem hrow]
  have hevent : t.rawEvents.find? (fun e => e.id = row.id) = some event :=
    Table.find?_eq_of_unique he (decide_eq_true hreads.eventId.symm) fun e hmem hid =>
      List.inj_on_of_nodup_map h.ids hmem he ((of_decide_eq_true hid).trans hreads.eventId)
  rw [summary, hcommitment]
  show (t.rawEvents.find? (fun e => e.id = row.id)).bind _ = _
  rw [hevent]
  rfl

theorem mem_newestFirst {notes : List UserNoteSummary} {s : UserNoteSummary} :
    s ∈ newestFirst notes ↔ s ∈ notes :=
  List.mem_mergeSort

theorem mem_notesOf {address : String} {note : UserNoteRow} (ha : address ∈ t.accounts) :
    note ∈ notesOf t address ↔ note ∈ t.userNotes ∧ note.accountId = accountId t address := by
  simp [notesOf, ha]

theorem mem_listUnspentUserNotes {pool address : String} (ha : address ∈ t.accounts)
    {s : UserNoteSummary} : s ∈ listUnspentUserNotes t pool address ↔
      ∃ note ∈ t.userNotes, note.accountId = accountId t address ∧ note.nullifierId = none ∧
        summary t note = some s ∧ s.poolContractId = pool := by
  simp only [listUnspentUserNotes, unspentOf, mem_newestFirst, List.mem_filter, List.mem_filterMap,
    mem_notesOf ha, decide_eq_true_eq]
  constructor
  · rintro ⟨⟨note, ⟨⟨hnote, hacc⟩, hnone⟩, hs⟩, hpool⟩
    exact ⟨note, hnote, hacc, hnone, hs, hpool⟩
  · rintro ⟨note, hnote, hacc, hnone, hs, hpool⟩
    exact ⟨⟨note, ⟨⟨hnote, hacc⟩, hnone⟩, hs⟩, hpool⟩

/-! ## Exactness -/

/-- A note is without a nullifier exactly if its pool has not published it. -/
theorem Settled.nullifierId_eq_none (hs : Settled t) (h : Inv sdk derive t) {note : UserNoteRow}
    (hnote : note ∈ t.userNotes) {row : NewCommitmentEvent} {event : ContractEvent}
    (hrow : (row, note.commitmentId) ∈ numbered t.poolCommitments) (he : event ∈ t.rawEvents)
    (hreads : Reads sdk commitmentKind event row) :
    note.nullifierId = none ↔
      ¬ Published sdk t.rawEvents event.contractId note.expectedNullifier := by
  obtain ⟨-, hpool⟩ := mem_scanPools h.stored he (mem_of_mem_numbered hrow) hreads
  constructor
  · rintro hnone ⟨event', he', hpool', row', hreads', hnullifier⟩
    have hrow' := hs.nullifier_mem h.stored he' hreads'
    have hspent : spentIn t event.contractId row' = true :=
      decide_eq_true ((contractOf_eq_some h.stored.ids rfl).mpr
        ⟨event', he', hreads'.eventId.symm, hpool'⟩)
    obtain ⟨i, hi⟩ := mem_numbered_of_mem hrow'
    have hlt := h.noted.unspent note hnote hnone event.contractId row' i
      ⟨hi, (noteIn_iff hrow).mpr hpool, hspent, hnullifier⟩
    have hmem : event.contractId ∈ nullifierPools t :=
      List.mem_filter.mpr ⟨h.stored.contracts event he,
        List.any_eq_true.mpr ⟨row', hrow', hspent⟩⟩
    have hle := pending_eq_nil_iff.mp (hs.reconciled _ hmem) row' i hi hspent
    omega
  · intro hnot
    cases hid : note.nullifierId with
    | none => rfl
    | some i =>
        obtain ⟨pool, row', hs'⟩ := h.noted.spent note hnote i hid
        obtain rfl := ofPool_unique ((noteIn_iff hrow).mp hs'.noteIn) hpool
        obtain ⟨event', he', hreads'⟩ :=
          h.stored.nullifiers.source row' (mem_of_mem_numbered hs'.mem)
        obtain ⟨event'', he'', hid'', hpool''⟩ :=
          (contractOf_eq_some h.stored.ids rfl).mp (of_decide_eq_true hs'.spentIn)
        have heq : event'' = event' :=
          List.inj_on_of_nodup_map h.stored.ids he'' he' (hid''.trans hreads'.eventId)
        exact absurd ⟨event', he', heq ▸ hpool'', row', hreads', hs'.nullifier⟩ hnot

/-- The note of a commitment that an account derives. -/
theorem Settled.note_of_owned (hs : Settled t) (h : Inv sdk derive t) (hk : KeysStable t)
    (hn : NullifiersDiffer sdk derive t) (ho : OneOwner sdk derive t) {pool : String}
    {account : Nat × StoredUserKeys E} (haccount : account ∈ accountsWithLatestKeypairs t)
    {event : ContractEvent} {row : NewCommitmentEvent} {derived : DerivedUserNote}
    (hd : Owned sdk derive t.rawEvents pool account.2 event row derived) :
    ∃ note ∈ t.userNotes, note.accountId = account.1 ∧
      Opens derive t note row account.2 derived := by
  have hheld := held_accounts t account haccount
  obtain ⟨i, derived?, hnum, hderive, hnotes⟩ := hs.derived h hk hd.mem hd.reads haccount
  cases hderive.symm.trans hd.derives
  obtain ⟨note, hnote, hor⟩ := hnotes derived rfl
  obtain ⟨row', keys, derived', hopens⟩ := h.noted.opens note hnote
  obtain ⟨event', he', hreads'⟩ :=
    h.stored.commitments.source row' (mem_of_mem_numbered hopens.mem)
  have hrow : row' = row := by
    rcases hor with hid | hnull
    · exact numbered_inj (hid ▸ hopens.mem) hnum
    · exact hn event' he' event hd.mem row' row hreads' hd.reads _ hopens.held _ hheld
        derived' derived hopens.derives hd.derives (hopens.expectedNullifier.symm.trans hnull)
  subst hrow
  have hacc : note.accountId = account.1 := ho event hd.mem row' hd.reads _ hopens.held _ hheld
    derived' derived hopens.derives hd.derives
  have hkeys : keys = account.2 := hk _ hopens.held _ hheld hacc
  subst hkeys
  cases hopens.derives.symm.trans hd.derives
  exact ⟨note, hnote, hacc, hopens⟩

/-! ## Each note once -/

theorem summary_id {note : UserNoteRow} {s : UserNoteSummary} (h : summary t note = some s) :
    s.id = note.id := by
  obtain ⟨_, -, h⟩ := Option.bind_eq_some_iff.mp h
  obtain ⟨_, -, h⟩ := Option.bind_eq_some_iff.mp h
  cases h
  rfl

theorem summary_ids : ∀ (notes : List UserNoteRow),
    ((notes.filterMap (summary t)).map UserNoteSummary.id).Sublist (notes.map UserNoteRow.id)
  | [] => List.Sublist.refl _
  | note :: notes => by
      have hrec := summary_ids notes
      rw [List.map_cons]
      cases hs : summary t note with
      | none =>
          rw [List.filterMap_cons_none hs]
          exact hrec.cons _
      | some s =>
          rw [List.filterMap_cons_some hs, List.map_cons, summary_id hs]
          exact hrec.cons_cons _

/-- A commitment has one note. -/
theorem Inv.ids_nodup (h : Inv sdk derive t) : (t.userNotes.map UserNoteRow.id).Nodup :=
  h.nodup_of_row _ fun _ _ _ _ _ _ _ _ ho ho' heq =>
    List.inj_on_of_nodup_map h.stored.commitments.keys (mem_of_mem_numbered ho.mem)
      (mem_of_mem_numbered ho'.mem) (ho.id.symm.trans (heq.trans ho'.id))

theorem Inv.list_nodup (h : Inv sdk derive t) (pool address : String) :
    ((listUnspentUserNotes t pool address).map UserNoteSummary.id).Nodup := by
  have hperm := List.mergeSort_perm ((unspentOf t address).filter fun s =>
    s.poolContractId = pool) fun a b => decide (b.createdAtLedger ≤ a.createdAtLedger)
  refine (hperm.map UserNoteSummary.id).nodup_iff.mpr (h.ids_nodup.sublist ?_)
  refine (List.filter_sublist.map _).trans ((summary_ids _).trans ?_)
  exact (List.filter_sublist.trans List.filter_sublist).map _

/-! ## The result -/

theorem SameInput.getUserKeys (h : SameInput t t') (address : String) :
    getUserKeys t' address = getUserKeys t address := by
  unfold Storage.getUserKeys accountId latestKeys
  rw [h.accounts, h.keypairs]

theorem mem_accounts_of_keys {address : String} {keys : StoredUserKeys E}
    (h : getUserKeys t address = some keys) : address ∈ t.accounts ∧
      (accountId t address, keys) ∈ accountsWithLatestKeypairs t := by
  unfold getUserKeys at h
  split at h
  · rename_i hmem
    refine ⟨hmem, List.mem_filterMap.mpr ⟨accountId t address, ?_, by rw [h]; rfl⟩⟩
    have hlt := List.idxOf_lt_length_of_mem hmem
    rw [List.mem_range'_1, accountId]
    omega
  · cases h

/-- Where processing came to its end, the list of unspent notes of an address
has the commitments of the pool that its keys open and whose nullifier the pool
has not published, each once.

Where processing came to its end, a note is stored for each commitment that the
keys open and its nullifier is joined if it was published, so the two sides
name the same rows. -/
theorem listUnspentUserNotes_iff (sdk : ScValSdk V) (derive : DeriveNoteFn E)
    (steps : List (Step E)) (hk : KeysStable (runs sdk derive steps))
    (hn : NullifiersDiffer sdk derive (runs sdk derive steps))
    (ho : OneOwner sdk derive (runs sdk derive steps)) (fuel : Nat) (t' : Tables E)
    (hrun : processLocalState sdk derive fuel (runs sdk derive steps) = (.ok (), t'))
    (address : String) (keys : StoredUserKeys E)
    (hkeys : getUserKeys (runs sdk derive steps) address = some keys) (pool : String) :
    (∀ s, s ∈ listUnspentUserNotes t' pool address ↔ ∃ event row derived,
      Owned sdk derive (runs sdk derive steps).rawEvents pool keys event row derived ∧
        ¬ Published sdk (runs sdk derive steps).rawEvents pool derived.expectedNullifier ∧
        s = ⟨row.commitment, pool, derived.amount, row.index, event.ledger, false⟩) ∧
      ((listUnspentUserNotes t' pool address).map UserNoteSummary.id).Nodup := by
  obtain ⟨h, hsame, hs⟩ := processLocalState_ok (Inv.run steps) hrun
  replace hk := hsame.keysStable hk
  replace hn := hsame.nullifiersDiffer hn
  replace ho := hsame.oneOwner ho
  rw [← hsame.getUserKeys] at hkeys
  rw [← hsame.rawEvents]
  obtain ⟨haddress, haccount⟩ := mem_accounts_of_keys hkeys
  refine ⟨fun s => ?_, h.list_nodup pool address⟩
  rw [mem_listUnspentUserNotes haddress]
  constructor
  · rintro ⟨note, hnote, hacc, hnone, hsummary, rfl⟩
    obtain ⟨row, keys', derived, hopens⟩ := h.noted.opens note hnote
    obtain ⟨event, he, hreads⟩ :=
      h.stored.commitments.source row (mem_of_mem_numbered hopens.mem)
    have hkeys' : keys' = keys := hk _ hopens.held _ (held_accounts t' _ haccount) hacc
    subst hkeys'
    have hjoin := summary_eq h.stored hopens.mem he hreads
    obtain rfl := Option.some.inj (hsummary.symm.trans hjoin)
    refine ⟨event, row, derived, ⟨he, rfl, hreads, hopens.derives⟩, ?_, ?_⟩
    · rw [← hopens.expectedNullifier]
      exact (hs.nullifierId_eq_none h hnote hopens.mem he hreads).mp hnone
    · rw [hopens.id, hopens.amount, hnone]
      rfl
  · rintro ⟨event, row, derived, howned, hnot, rfl⟩
    obtain ⟨note, hnote, hacc, hopens⟩ := hs.note_of_owned h hk hn ho haccount howned
    have hnone : note.nullifierId = none := by
      refine (hs.nullifierId_eq_none h hnote hopens.mem howned.mem howned.reads).mpr ?_
      rw [howned.pool, hopens.expectedNullifier]
      exact hnot
    refine ⟨note, hnote, hacc, hnone, ?_, rfl⟩
    rw [summary_eq h.stored hopens.mem howned.mem howned.reads, hopens.id, hopens.amount, hnone,
      howned.pool]
    rfl

/-- With the wallet's own derivation, what is listed can be spent: the keys of
the address open the commitment with the amount that is listed, and the pool has
not published the nullifier that the circuit makes for it. -/
theorem listUnspentUserNotes_opens (sdk : ScValSdk V) (P : Permutation)
    (decryptOutputNote : E → List UInt8 → Except StorageError (Option (NoteAmount × Fr)))
    (steps : List (Step E)) :
    let derive := deriveUserNote P decryptOutputNote
    KeysStable (runs sdk derive steps) → NullifiersDiffer sdk derive (runs sdk derive steps) →
    OneOwner sdk derive (runs sdk derive steps) → ∀ fuel t',
      processLocalState sdk derive fuel (runs sdk derive steps) = (.ok (), t') →
      ∀ address keys, getUserKeys (runs sdk derive steps) address = some keys →
        ∀ pool, ∀ s ∈ listUnspentUserNotes t' pool address, s.amount.val ≠ 0 ∧ ∃ blinding,
          P.commitment (fieldOfNote s.amount) (bytesToScalar keys.noteKeypair.publicKey) blinding
            = s.id ∧
          ¬ Published sdk (runs sdk derive steps).rawEvents pool
            (P.nullifier (bytesToScalar keys.noteKeypair.privateKey) s.id (.ofNat s.leafIndex)) := by
  intro derive hk hn ho fuel t' hrun address keys hkeys pool s hs
  obtain ⟨event, row, derived, howned, hnot, rfl⟩ :=
    ((listUnspentUserNotes_iff sdk derive steps hk hn ho fuel t' hrun address keys hkeys
      pool).1 s).mp hs
  obtain ⟨decrypted, -, hderived⟩ := Checks.bind_ok.mp howned.derives
  obtain ⟨hamount, hopens, hnullifier⟩ := tryDeriveUserNote_eq_some P (Except.ok.inj hderived)
  exact ⟨hamount, derived.blinding, hopens, hnullifier ▸ hnot⟩

theorem small_oneOwner (event : ContractEvent) :
    OneOwner smallSdk smallDerive (runs smallSdk smallDerive (smallSteps event)) := by
  intro _ _ _ _ a ha b hb _ _ _ _
  rw [small_keypairs, List.mem_singleton] at ha hb
  rw [ha, hb]

theorem listUnspentUserNotes_iff_small : ∃ fuel t',
    processLocalState smallSdk smallDerive fuel
        (runs smallSdk smallDerive (smallSteps smallCommitment)) = (.ok (), t') ∧
      ⟨0, "pool", .zero, 0, 7, false⟩ ∈ listUnspentUserNotes t' "pool" "G" := by
  obtain ⟨fuel, t', hrun⟩ := small_digestible.settles (Inv.run _) (small_differ _)
  refine ⟨fuel, t', hrun, ?_⟩
  refine ((listUnspentUserNotes_iff smallSdk smallDerive (smallSteps smallCommitment)
    (small_keysStable _) (small_differ _) (small_oneOwner _) fuel t' hrun "G" smallKeys rfl
    "pool").1 _).mpr ⟨smallCommitment, ⟨"1", 0, 0, []⟩, ⟨.zero, 0, 0⟩, ⟨List.mem_singleton_self _,
      rfl, ⟨_, small_reads, rfl⟩, rfl⟩, ?_, rfl⟩
  rintro ⟨event, he, -, row, ⟨ev, hparse, hof⟩, -⟩
  rw [small_rawEvents, List.mem_singleton] at he
  subst he
  cases small_reads.symm.trans hparse
  cases hof

end Storage

end PrivacyWallet
