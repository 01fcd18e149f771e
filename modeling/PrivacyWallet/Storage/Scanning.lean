import PrivacyWallet.Storage.Invariant

/-!
# Scanning

One turn of an account finds the notes of a batch of commitments and moves its
mark over the batch (`scanAccount_ok`). It keeps the invariant, and so does the
pass over all pools, whichever of its transactions are rolled back. A pass that
succeeds either brings some account closer to its end, or all were there
(`scanCommitmentsForUserNotes_ok`).
-/

namespace PrivacyWallet

namespace Storage

open Circuits InvokeM Planner Prover Watermark

variable {V E : Type} {sdk : ScValSdk V} {derive : DeriveNoteFn E} {t t' : Tables E}

/-! ## Notes and marks -/

/-- Other notes and marks over the same tables. -/
def rescanned (t : Tables E) (notes : List UserNoteRow) (scan : String → Nat → Nat)
    (reconciled : String → Nat) : Tables E :=
  { t with userNotes := notes, lastCommitmentId := scan, lastNullifierId := reconciled }

variable {notes : List UserNoteRow} {scan : String → Nat → Nat} {reconciled : String → Nat}

theorem Opens.rescanned {note : UserNoteRow} {row : NewCommitmentEvent} {keys : StoredUserKeys E}
    {derived : DerivedUserNote} (h : Opens derive t note row keys derived) :
    Opens derive (rescanned t notes scan reconciled) note row keys derived :=
  ⟨h.mem, h.held, h.derives, h.id, h.expectedNullifier, h.blinding, h.amount⟩

theorem spentBy_rescanned {note : UserNoteRow} {pool : String} {row : NewNullifierEvent}
    {i : Nat} :
    SpentBy (rescanned t notes scan reconciled) note pool row i ↔ SpentBy t note pool row i :=
  ⟨fun h => ⟨h.mem, h.noteIn, h.spentIn, h.nullifier⟩,
    fun h => ⟨h.mem, h.noteIn, h.spentIn, h.nullifier⟩⟩

/-- Notes with a commitment or a nullifier of an old one. -/
def Covers (notes notes' : List UserNoteRow) : Prop :=
  ∀ note ∈ notes, ∃ note' ∈ notes', note'.commitmentId = note.commitmentId ∧
    note'.expectedNullifier = note.expectedNullifier

theorem covers_of_subset {notes notes' : List UserNoteRow} (h : notes ⊆ notes') :
    Covers notes notes' := fun note hnote => ⟨note, h hnote, rfl, rfl⟩

theorem Seen.rescanned {account : Nat} {row : NewCommitmentEvent × Nat}
    (h : Seen derive t account row) (hc : Covers t.userNotes notes) :
    Seen derive (rescanned t notes scan reconciled) account row := by
  obtain ⟨keys, derived?, hkeys, hderive, hnote⟩ := h
  refine ⟨keys, derived?, hkeys, hderive, fun derived hd => ?_⟩
  obtain ⟨note, hmem, heq⟩ := hnote derived hd
  obtain ⟨note', hmem', hid, hnull⟩ := hc note hmem
  exact ⟨note', hmem', heq.imp hid.trans hnull.trans⟩

theorem Stored.rescanned (h : Stored sdk t) (notes : List UserNoteRow)
    (hscan : ∀ pool account, scan pool account ≤ t.poolCommitments.length)
    (hrec : ∀ pool, reconciled pool ≤ t.poolNullifiers.length) :
    Stored sdk (rescanned t notes scan reconciled) :=
  ⟨h.ids, h.contracts, h.contractsNodup, h.nullifiers, h.commitments, h.publicKeys, h.leaves,
    hscan, hrec⟩

/-! ## One commitment -/

theorem mem_insertNote {note n : UserNoteRow} (h : n ∈ insertNote notes note) :
    n ∈ notes ∨ n = note := by
  unfold insertNote at h
  split at h
  · exact Or.inl h
  · rwa [List.mem_append, List.mem_singleton] at h

theorem subset_insertNote {note : UserNoteRow} : notes ⊆ insertNote notes note := by
  unfold insertNote
  split
  · exact List.Subset.refl notes
  · exact List.subset_append_left notes [note]

theorem insertNote_nodup {note : UserNoteRow} (h : (notes.map UserNoteRow.commitmentId).Nodup) :
    ((insertNote notes note).map UserNoteRow.commitmentId).Nodup := by
  unfold insertNote
  split
  · exact h
  · rename_i hnone
    rw [List.map_append, List.map_singleton, List.nodup_append]
    refine ⟨h, List.nodup_singleton _, fun a ha b hb hab => hnone ?_⟩
    obtain ⟨n, hn, rfl⟩ := List.mem_map.mp ha
    rw [List.mem_singleton] at hb
    rw [List.any_eq_true]
    exact ⟨n, hn, by simp [hab, hb]⟩

/-- The note is in the table, or one that excludes it is. -/
theorem insertNote_conflict (notes : List UserNoteRow) (note : UserNoteRow) :
    note ∈ insertNote notes note ∨ ∃ n ∈ notes, n.id = note.id ∨
      n.commitmentId = note.commitmentId ∨
        n.nullifierId.isSome = true ∧ n.nullifierId = note.nullifierId := by
  unfold insertNote
  split
  · rename_i hany
    obtain ⟨n, hn, hconflict⟩ := List.any_eq_true.mp hany
    refine Or.inr ⟨n, hn, ?_⟩
    simpa [or_assoc] using hconflict
  · exact Or.inl (List.mem_append_right _ (List.mem_singleton_self note))

theorem publishedId_eq_some {pool : String} {nullifier : Fr} {i : Nat}
    (h : publishedId t pool nullifier = some i) :
    ∃ row, (row, i) ∈ numbered t.poolNullifiers ∧ spentIn t pool row = true ∧
      row.nullifier = nullifier := by
  obtain ⟨⟨row, j⟩, hfind, rfl⟩ := Option.map_eq_some_iff.mp h
  have hp := List.find?_some hfind
  rw [Bool.and_eq_true, decide_eq_true_eq] at hp
  exact ⟨row, List.mem_of_find?_eq_some hfind, hp.1, hp.2⟩

theorem publishedId_eq_none {pool : String} {nullifier : Fr}
    (h : publishedId t pool nullifier = none) {row : NewNullifierEvent} {i : Nat}
    (hrow : (row, i) ∈ numbered t.poolNullifiers) (hspent : spentIn t pool row = true) :
    row.nullifier ≠ nullifier := by
  rw [publishedId, Option.map_eq_none_iff, List.find?_eq_none] at h
  intro heq
  exact h (row, i) hrow (by simp [hspent, heq])

theorem scanRow_eq_ok {pool : String} {account : Nat × StoredUserKeys E}
    {row : NewCommitmentEvent × Nat} :
    scanRow derive pool account row t = (.ok (), t') ↔
      ∃ derived?, derive account.2 row.1 = .ok derived? ∧
        withNote t pool account.1 row derived? = t' := by
  unfold scanRow
  cases derive account.2 row.1 with
  | error e => exact ⟨nofun, nofun⟩
  | ok derived? => simp [orFail]

/-- The pool of a commitment. -/
theorem ofPool_unique {row : NewCommitmentEvent} {pool pool' : String}
    (h : ofPool t pool row = true) (h' : ofPool t pool' row = true) : pool = pool' := by
  rw [ofPool, decide_eq_true_eq] at h h'
  exact Option.some.inj (h.symm.trans h')

section Row

variable {pool : String} {account : Nat × StoredUserKeys E} {row : NewCommitmentEvent}
  {i : Nat} {derived? : Option DerivedUserNote}

/-- Scanning a commitment keeps the invariant, and the account has seen it. A
new note is an opening of its commitment and has the nullifier that the pool
has published for it, if any; a note that is in the way has the same
commitment, or the same published nullifier. -/
theorem Inv.withNote (h : Inv sdk derive t) (hrow : (row, i) ∈ numbered t.poolCommitments)
    (hpool : ofPool t pool row = true) (hkeys : ⟨account.1, account.2⟩ ∈ t.keypairs)
    (hderive : derive account.2 row = .ok derived?) :
    Inv sdk derive (withNote t pool account.1 (row, i) derived?) ∧
      Seen derive (withNote t pool account.1 (row, i) derived?) account.1 (row, i) := by
  cases derived? with
  | none => exact ⟨h, account.2, none, hkeys, hderive, nofun⟩
  | some derived =>
      have hn := h.noted
      have hstored := h.stored.rescanned
        (insertNote t.userNotes (noteRow t pool account.1 (row, i) derived)) h.stored.scanMarks
        h.stored.nullifierMarks
      refine ⟨⟨hstored, ?_⟩, account.2, some derived, hkeys, hderive, ?_⟩
      · exact
          { opens := by
              intro note hnote
              rcases mem_insertNote hnote with hold | rfl
              · obtain ⟨_, _, _, ho⟩ := hn.opens note hold
                exact ⟨_, _, _, ho.rescanned⟩
              · exact ⟨row, account.2, derived, hrow, hkeys, hderive, rfl, rfl, rfl, rfl⟩
            commitmentIds := insertNote_nodup hn.commitmentIds
            spent := by
              intro note hnote j hj
              rcases mem_insertNote hnote with hold | rfl
              · obtain ⟨_, _, hs⟩ := hn.spent note hold j hj
                exact ⟨_, _, spentBy_rescanned.mpr hs⟩
              · obtain ⟨nullifier, hmem, hspent, heq⟩ := publishedId_eq_some hj
                exact ⟨pool, nullifier, spentBy_rescanned.mpr
                  ⟨hmem, (noteIn_iff hrow).mpr hpool, hspent, heq⟩⟩
            unspent := by
              intro note hnote hnone pool' nullifier j hs
              have hs : SpentBy t note pool' nullifier j := spentBy_rescanned.mp hs
              rcases mem_insertNote hnote with hold | rfl
              · exact hn.unspent note hold hnone pool' nullifier j hs
              · -- what the pool has published was looked up
                have hin : ofPool t pool' row = true := (noteIn_iff hrow).mp hs.noteIn
                obtain rfl := ofPool_unique hpool hin
                exact absurd hs.nullifier (publishedId_eq_none hnone hs.mem hs.spentIn)
            scanned := fun pool' account' row' j hrow' hpool' hj =>
              (hn.scanned pool' account' row' j hrow' hpool' hj).rescanned
                (covers_of_subset subset_insertNote) }
      · intro _ hd
        cases hd
        rcases insertNote_conflict t.userNotes
          (noteRow t pool account.1 (row, i) derived) with hmem | ⟨n, hmem, hconflict⟩
        · exact ⟨_, hmem, Or.inl rfl⟩
        · refine ⟨n, subset_insertNote hmem, ?_⟩
          rcases hconflict with hid | hid | ⟨hsome, hid⟩
          · -- a commitment has one row
            obtain ⟨row', _, _, ho⟩ := hn.opens n hmem
            have hsame : row' = row := List.inj_on_of_nodup_map h.stored.commitments.keys
              (mem_of_mem_numbered ho.mem) (mem_of_mem_numbered hrow) (ho.id.symm.trans hid)
            exact Or.inl (number_unique (List.Nodup.of_map _ h.stored.commitments.keys)
              (hsame ▸ ho.mem) hrow)
          · exact Or.inl hid
          · obtain ⟨j, hj⟩ := Option.isSome_iff_exists.mp hsome
            obtain ⟨_, nullifier, hs⟩ := hn.spent n hmem j hj
            obtain ⟨nullifier', hmem', -, heq⟩ := publishedId_eq_some (hid.symm.trans hj)
            rw [numbered_inj hs.mem hmem'] at hs
            exact Or.inr (hs.nullifier.symm.trans heq)

end Row

/-! ## One account -/

theorem withNote_eq {pool : String} {account : Nat} {row : NewCommitmentEvent × Nat}
    {derived? : Option DerivedUserNote} : ∃ notes, t.userNotes ⊆ notes ∧
      withNote t pool account row derived?
        = rescanned t notes t.lastCommitmentId t.lastNullifierId := by
  cases derived? with
  | none => exact ⟨t.userNotes, List.Subset.refl _, rfl⟩
  | some derived => exact ⟨_, subset_insertNote, rfl⟩

/-- What a pass over commitments does: notes are added and marks move. -/
structure Scans (t t' : Tables E) : Prop where
  same : ∃ notes scan, t' = rescanned t notes scan t.lastNullifierId
  notes : t.userNotes ⊆ t'.userNotes
  marks : ∀ pool account, t.lastCommitmentId pool account ≤ t'.lastCommitmentId pool account

theorem Scans.refl (t : Tables E) : Scans t t :=
  ⟨⟨t.userNotes, t.lastCommitmentId, rfl⟩, List.Subset.refl _, fun _ _ => le_rfl⟩

theorem Scans.trans {t'' : Tables E} (h : Scans t t') (h' : Scans t' t'') : Scans t t'' := by
  obtain ⟨_, _, rfl⟩ := h.same
  obtain ⟨notes, scan, rfl⟩ := h'.same
  exact ⟨⟨notes, scan, rfl⟩, List.Subset.trans h.notes h'.notes,
    fun pool account => (h.marks pool account).trans (h'.marks pool account)⟩

/-- The commitments are the same, so what is left is a piece of what was. -/
theorem Scans.unscanned_length (h : Scans t t') (pool : String) (account : Nat) :
    (unscanned t' pool account).length ≤ (unscanned t pool account).length := by
  have hmark := h.marks pool account
  obtain ⟨_, _, rfl⟩ := h.same
  exact pending_length_anti hmark

section Account

variable {pool : String} {quota n : Nat} {account : Nat × StoredUserKeys E}

/-- The mark may move over a batch of which the account has seen every
commitment: what lies behind the new mark lay behind the old one or is in the
batch. -/
theorem Inv.afterTurn (h : Inv sdk derive t) {limit : Nat}
    (hseen : ∀ row ∈ (unscanned t pool account.1).take limit, Seen derive t account.1 row) :
    Inv sdk derive (setScanned pool account.1
      (mark (t.lastCommitmentId pool account.1) ((unscanned t pool account.1).take limit)) t) := by
  have hn := h.noted
  have hle : mark (t.lastCommitmentId pool account.1) ((unscanned t pool account.1).take limit)
      ≤ t.poolCommitments.length :=
    mark_le (h.stored.scanMarks _ _) fun row hrow =>
      number_le (mem_pending.mp (List.mem_of_mem_take hrow)).1
  refine ⟨h.stored.rescanned t.userNotes (fun p a => ?_) h.stored.nullifierMarks, ?_⟩
  · show (if _ then _ else _) ≤ _
    split
    · exact hle
    · exact h.stored.scanMarks p a
  exact
    { opens := fun note hnote => by
        obtain ⟨_, _, _, ho⟩ := hn.opens note hnote
        exact ⟨_, _, _, ho.rescanned⟩
      commitmentIds := hn.commitmentIds
      spent := fun note hnote i hi => by
        obtain ⟨_, _, hs⟩ := hn.spent note hnote i hi
        exact ⟨_, _, spentBy_rescanned.mpr hs⟩
      unspent := fun note hnote hnone p row i hs =>
        hn.unspent note hnote hnone p row i (spentBy_rescanned.mp hs)
      scanned := fun p a row i hrow hp hi => by
        refine Seen.rescanned ?_ (covers_of_subset (List.Subset.refl _))
        by_cases hturn : p = pool ∧ a = account.1
        · obtain ⟨rfl, rfl⟩ := hturn
          by_cases hold : i ≤ t.lastCommitmentId p account.1
          · exact hn.scanned p account.1 row i hrow hp hold
          · have hi' : i ≤ mark (t.lastCommitmentId p account.1)
                ((unscanned t p account.1).take limit) := by
              simpa [Storage.setScanned] using hi
            exact hseen (row, i) (mem_batch hrow hp (by omega) hi')
        · have hi' : i ≤ t.lastCommitmentId p a := by
            simpa [Storage.setScanned, hturn] using hi
          exact hn.scanned p a row i hrow hp hi' }

/-- A turn of an account keeps the invariant, and takes from the front of what
the account has not scanned. The loop over the batch carries the invariant and
that the account has seen what was done (`Inv.withNote`); then the mark may
move over the batch (`Inv.afterTurn`). -/
theorem scanAccount_ok (h : Inv sdk derive t) (hkeys : ⟨account.1, account.2⟩ ∈ t.keypairs)
    (hrun : scanAccount derive pool quota account t = (.ok n, t')) :
    Inv sdk derive t' ∧ Scans t t' ∧
      n = ((unscanned t pool account.1).take (min quota accountChunk)).length ∧
      unscanned t' pool account.1 = (unscanned t pool account.1).drop n ∧ (n = 0 → t' = t) := by
  unfold scanAccount at hrun
  rw [read_bind] at hrun
  split at hrun
  · rename_i hempty
    obtain ⟨rfl, rfl⟩ := pure_eq_ok.mp hrun
    rw [List.isEmpty_iff] at hempty
    exact ⟨h, Scans.refl t, by rw [hempty]; rfl, rfl, fun _ => rfl⟩
  · rename_i hsome
    obtain ⟨_, t₁, hloop, hrun⟩ := bind_eq_ok.mp hrun
    obtain ⟨_, t₂, hset, hrun⟩ := bind_eq_ok.mp hrun
    obtain ⟨rfl, rfl⟩ := pure_eq_ok.mp hrun
    obtain rfl := update_eq_ok.mp hset
    have hinv : ∃ notes, t.userNotes ⊆ notes ∧
        t₁ = rescanned t notes t.lastCommitmentId t.lastNullifierId ∧ Inv sdk derive t₁ ∧
        ∀ row ∈ (unscanned t pool account.1).take (min quota accountChunk),
          Seen derive t₁ account.1 row := by
      refine forEach_ok (P := fun done s => ∃ notes, t.userNotes ⊆ notes ∧
        s = rescanned t notes t.lastCommitmentId t.lastNullifierId ∧ Inv sdk derive s ∧
        ∀ row ∈ done, Seen derive s account.1 row) ?_
        ⟨t.userNotes, List.Subset.refl _, rfl, h, nofun⟩ hloop
      rintro done ⟨row, i⟩ s s' ⟨notes, hsub, rfl, hI, hdone⟩ hmem hrow
      obtain ⟨hnum, hpool, -⟩ := mem_pending.mp (List.mem_of_mem_take hmem)
      obtain ⟨derived?, hderive, rfl⟩ := scanRow_eq_ok.mp hrow
      obtain ⟨hI', hseen⟩ := hI.withNote hnum hpool hkeys hderive
      obtain ⟨notes', hsub', heq⟩ := @withNote_eq _
        (rescanned t notes t.lastCommitmentId t.lastNullifierId) pool account.1 (row, i) derived?
      refine ⟨notes', List.Subset.trans hsub hsub', heq, hI', ?_⟩
      rw [List.forall_mem_append]
      refine ⟨fun r hr => ?_, by simpa using hseen⟩
      rw [heq]
      exact (hdone r hr).rescanned (covers_of_subset hsub')
    obtain ⟨notes, hsub, rfl, hI, hseen⟩ := hinv
    refine ⟨hI.afterTurn hseen, ⟨⟨notes, _, rfl⟩, hsub, fun p a => ?_⟩, rfl, ?_, fun hzero => ?_⟩
    · show _ ≤ if _ then _ else _
      split
      · rename_i hturn
        rw [hturn.1, hturn.2]
        exact le_mark _ _
      · exact le_rfl
    · show pending (ofPool t pool) t.poolCommitments (if _ then _ else _) = _
      rw [if_pos ⟨rfl, rfl⟩]
      refine (pending_mark ..).trans ?_
      show (unscanned t pool account.1).drop _ = _
      rw [List.length_take]
      exact List.drop_eq_drop_iff.mpr (by omega)
    · exact absurd (List.isEmpty_iff_length_eq_zero.mpr hzero) hsome

theorem scanAccount_succeeds (quota : Nat)
    (hread : ∀ row ∈ unscanned t pool account.1,
      ∃ derived?, derive account.2 row.1 = .ok derived?) :
    ∃ n t', scanAccount derive pool quota account t = (.ok n, t') := by
  unfold scanAccount
  rw [read_bind]
  split
  · exact ⟨_, _, rfl⟩
  · obtain ⟨t₁, hloop⟩ := forEach_succeeds (f := scanRow derive pool account)
      (l := (unscanned t pool account.1).take (min quota accountChunk)) (fun row hrow s => by
        obtain ⟨derived?, hderive⟩ := hread row (List.mem_of_mem_take hrow)
        exact ⟨_, scanRow_eq_ok.mpr ⟨derived?, hderive, rfl⟩⟩) t
    exact ⟨_, _, bind_of_ok hloop⟩

end Account

/-! ## One pool -/

/-- The accounts are accounts of the database. -/
def Held (t : Tables E) (accounts : List (Nat × StoredUserKeys E)) : Prop :=
  ∀ account ∈ accounts, ⟨account.1, account.2⟩ ∈ t.keypairs

/-- The accounts can read what they have not scanned of the pool. -/
def Readable (derive : DeriveNoteFn E) (t : Tables E) (pool : String)
    (accounts : List (Nat × StoredUserKeys E)) : Prop :=
  ∀ account ∈ accounts, ∀ row ∈ unscanned t pool account.1,
    ∃ derived?, derive account.2 row.1 = .ok derived?

/-- An account of the list has less to scan than before. -/
def Advanced (t t' : Tables E) (pool : String) (accounts : List (Nat × StoredUserKeys E)) : Prop :=
  ∃ account ∈ accounts,
    (unscanned t' pool account.1).length < (unscanned t pool account.1).length

variable {pool : String} {accounts : List (Nat × StoredUserKeys E)}

theorem Scans.held (h : Scans t t') (hk : Held t accounts) : Held t' accounts := by
  obtain ⟨_, _, rfl⟩ := h.same
  exact hk

theorem Scans.readable (h : Scans t t') (hr : Readable derive t pool accounts) :
    Readable derive t' pool accounts := by
  intro account haccount row hrow
  refine hr account haccount row ?_
  have hmark := h.marks pool account.1
  obtain ⟨_, _, rfl⟩ := h.same
  obtain ⟨hnum, hpool, hlt⟩ := mem_pending.mp hrow
  exact mem_pending.mpr ⟨hnum, hpool, hmark.trans_lt hlt⟩

theorem Advanced.before {t'' : Tables E} (h : Scans t t') (ha : Advanced t' t'' pool accounts) :
    Advanced t t'' pool accounts := by
  obtain ⟨account, haccount, hlt⟩ := ha
  exact ⟨account, haccount, hlt.trans_le (h.unscanned_length pool account.1)⟩

theorem Advanced.after {t'' : Tables E} (ha : Advanced t t' pool accounts) (h : Scans t' t'') :
    Advanced t t'' pool accounts := by
  obtain ⟨account, haccount, hlt⟩ := ha
  exact ⟨account, haccount, (h.unscanned_length pool account.1).trans_lt hlt⟩

theorem scanCycle_ok {quota left : Nat} {progressed : Bool} (h : Inv sdk derive t)
    (hk : Held t accounts)
    (hrun : scanCycle derive pool accounts quota t = (.ok (left, progressed), t')) :
    Inv sdk derive t' ∧ Scans t t' ∧ left ≤ quota ∧
      (progressed = true → Advanced t t' pool accounts ∧ left < quota) ∧
      (progressed = false → 0 < quota → t' = t ∧
        ∀ account ∈ accounts, unscanned t pool account.1 = []) := by
  induction accounts generalizing t quota left progressed with
  | nil =>
      obtain ⟨heq, rfl⟩ := pure_eq_ok.mp hrun
      cases heq
      exact ⟨h, Scans.refl t, le_rfl, nofun, fun _ _ => ⟨rfl, nofun⟩⟩
  | cons account accounts ih =>
      rw [scanCycle] at hrun
      split at hrun
      · rename_i hzero
        obtain ⟨heq, rfl⟩ := pure_eq_ok.mp hrun
        cases heq
        exact ⟨h, Scans.refl t, le_rfl, nofun, fun _ hpos => absurd hzero hpos.ne'⟩
      · rename_i hpos
        obtain ⟨n, t₁, hfirst, hrun⟩ := bind_eq_ok.mp hrun
        obtain ⟨⟨left', progressed'⟩, t₂, hrest, hrun⟩ := bind_eq_ok.mp hrun
        obtain ⟨heq, rfl⟩ := pure_eq_ok.mp hrun
        cases heq
        obtain ⟨h₁, hs₁, hn, hdrop, hsame⟩ :=
          scanAccount_ok h (hk account List.mem_cons_self) hfirst
        obtain ⟨h₂, hs₂, hle, hprog, hidle⟩ := ih h₁
          (fun a ha => hs₁.held hk a (List.mem_cons_of_mem account ha)) hrest
        rw [List.length_take] at hn
        have hlen := congrArg List.length hdrop
        rw [List.length_drop] at hlen
        have hchunk : accountChunk = 4 := rfl
        refine ⟨h₂, hs₁.trans hs₂, by omega, fun hp => ?_, fun hp _ => ?_⟩
        · by_cases hzero : n = 0
          · rw [hzero] at hp
            obtain ⟨⟨a, ha, hlt⟩, hless⟩ := hprog (by simpa using hp)
            obtain rfl := hsame hzero
            exact ⟨⟨a, List.mem_cons_of_mem account ha, hlt⟩, by omega⟩
          · refine ⟨⟨account, List.mem_cons_self, ?_⟩, by omega⟩
            have hafter := hs₂.unscanned_length pool account.1
            omega
        · rw [Bool.or_eq_false_iff, decide_eq_false_iff_not, not_not] at hp
          obtain ⟨hzero, hp⟩ := hp
          obtain rfl := hsame hzero
          obtain ⟨heq, hall⟩ := hidle hp (by omega)
          refine ⟨heq, List.forall_mem_cons.mpr ⟨?_, hall⟩⟩
          exact List.eq_nil_of_length_eq_zero (by omega)

theorem scanCycle_succeeds (quota : Nat) (h : Inv sdk derive t) (hk : Held t accounts)
    (hr : Readable derive t pool accounts) :
    ∃ r t', scanCycle derive pool accounts quota t = (.ok r, t') := by
  induction accounts generalizing t quota with
  | nil => exact ⟨_, _, rfl⟩
  | cons account accounts ih =>
      rw [scanCycle]
      split
      · exact ⟨_, _, rfl⟩
      · obtain ⟨n, t₁, hfirst⟩ := scanAccount_succeeds quota
          (hr account List.mem_cons_self)
        obtain ⟨h₁, hs₁, -⟩ := scanAccount_ok h (hk account List.mem_cons_self) hfirst
        obtain ⟨r, t₂, hrest⟩ := ih (quota - n) h₁
          (fun a ha => hs₁.held hk a (List.mem_cons_of_mem account ha))
          (fun a ha => hs₁.readable hr a (List.mem_cons_of_mem account ha))
        exact ⟨_, _, (bind_of_ok hfirst).trans (bind_of_ok hrest)⟩

theorem scanCycles_ok {fuel quota : Nat} {progressed : Bool} (h : Inv sdk derive t)
    (hk : Held t accounts)
    (hrun : scanCycles derive pool accounts fuel quota t = (.ok progressed, t')) :
    Inv sdk derive t' ∧ Scans t t' ∧ (progressed = true → Advanced t t' pool accounts) ∧
      (progressed = false → 0 < fuel → 0 < quota → t' = t ∧
        ∀ account ∈ accounts, unscanned t pool account.1 = []) := by
  induction fuel generalizing t quota progressed with
  | zero =>
      obtain ⟨heq, rfl⟩ := pure_eq_ok.mp hrun
      cases heq
      exact ⟨h, Scans.refl t, nofun, fun _ hpos => absurd hpos (Nat.lt_irrefl 0)⟩
  | succ fuel ih =>
      rw [scanCycles] at hrun
      split at hrun
      · rename_i hzero
        obtain ⟨heq, rfl⟩ := pure_eq_ok.mp hrun
        cases heq
        exact ⟨h, Scans.refl t, nofun, fun _ _ hpos => absurd hzero hpos.ne'⟩
      · obtain ⟨⟨left, moved⟩, t₁, hcycle, hrun⟩ := bind_eq_ok.mp hrun
        obtain ⟨h₁, hs₁, -, hprog, hidle⟩ := scanCycle_ok h hk hcycle
        cases moved with
        | false =>
            obtain ⟨heq, rfl⟩ := pure_eq_ok.mp hrun
            cases heq
            exact ⟨h₁, hs₁, nofun, fun _ _ hpos => hidle rfl hpos⟩
        | true =>
            obtain ⟨b, t₂, hrest, hrun⟩ := bind_eq_ok.mp hrun
            obtain ⟨heq, rfl⟩ := pure_eq_ok.mp hrun
            cases heq
            obtain ⟨h₂, hs₂, -⟩ := ih h₁ (hs₁.held hk) hrest
            exact ⟨h₂, hs₁.trans hs₂, fun _ => (hprog rfl).1.after hs₂, nofun⟩

theorem scanCycles_succeeds (fuel quota : Nat) (h : Inv sdk derive t) (hk : Held t accounts)
    (hr : Readable derive t pool accounts) :
    ∃ b t', scanCycles derive pool accounts fuel quota t = (.ok b, t') := by
  induction fuel generalizing t quota with
  | zero => exact ⟨_, _, rfl⟩
  | succ fuel ih =>
      rw [scanCycles]
      split
      · exact ⟨_, _, rfl⟩
      · obtain ⟨⟨left, moved⟩, t₁, hcycle⟩ := scanCycle_succeeds quota h hk hr
        obtain ⟨h₁, hs₁, -⟩ := scanCycle_ok h hk hcycle
        cases moved with
        | false => exact ⟨_, _, bind_of_ok hcycle⟩
        | true =>
            obtain ⟨b, t₂, hrest⟩ := ih left h₁ (hs₁.held hk) (hs₁.readable hr)
            exact ⟨_, _, (bind_of_ok hcycle).trans (bind_of_ok hrest)⟩

/-- A cycle that goes on takes from the quota, so more fuel than the quota
changes nothing. -/
theorem scanCycles_fuel {fuel fuel' quota : Nat} (h : Inv sdk derive t) (hk : Held t accounts)
    (hfuel : quota ≤ fuel) (hfuel' : quota ≤ fuel') :
    scanCycles derive pool accounts fuel quota t
      = scanCycles derive pool accounts fuel' quota t := by
  induction fuel generalizing t quota fuel' with
  | zero =>
      obtain rfl : quota = 0 := by omega
      cases fuel' with
      | zero => rfl
      | succ fuel' => rw [scanCycles, scanCycles, if_pos rfl]
  | succ fuel ih =>
      cases fuel' with
      | zero =>
          obtain rfl : quota = 0 := by omega
          rw [scanCycles, scanCycles, if_pos rfl]
      | succ fuel' =>
          rw [scanCycles, scanCycles]
          split
          · rfl
          · refine bind_congr rfl fun r t₁ hcycle => ?_
            obtain ⟨h₁, hs₁, -, hprog, -⟩ := scanCycle_ok h hk hcycle
            obtain ⟨left, moved⟩ := r
            cases moved with
            | false => rfl
            | true =>
                have hless := (hprog rfl).2
                exact bind_congr (ih h₁ (hs₁.held hk) (by omega) (by omega)) fun _ _ _ => rfl

/-! ## All pools -/

theorem spreadRemainder_length : ∀ (remainder next : Nat) (quotas : List Nat),
    (spreadRemainder remainder next quotas).length = quotas.length
  | 0, _, _ => rfl
  | remainder + 1, next, quotas => by
      rw [spreadRemainder, spreadRemainder_length, List.length_modify]

theorem spreadRemainder_pos : ∀ (remainder next : Nat) {quotas : List Nat}, (∀ q ∈ quotas, 0 < q) →
    ∀ q ∈ spreadRemainder remainder next quotas, 0 < q
  | 0, _, _, h => h
  | remainder + 1, next, quotas, h => by
      refine spreadRemainder_pos remainder _ fun q hq => ?_
      obtain ⟨i, hi, rfl⟩ := List.mem_iff_getElem.mp hq
      rw [List.getElem_modify]
      rw [List.length_modify] at hi
      split
      · exact Nat.succ_pos _
      · exact h _ (List.getElem_mem hi)

theorem quotasOf_length (totalLimit pools : Nat) : (quotasOf totalLimit pools).length = pools := by
  simp only [quotasOf, spreadRemainder_length, List.length_replicate]

/-- Every pool gets a part of the limit. -/
theorem quotasOf_pos {totalLimit pools : Nat} (hpools : 0 < pools) :
    ∀ q ∈ quotasOf totalLimit pools, 0 < q := by
  refine spreadRemainder_pos _ _ fun q hq => ?_
  rw [List.eq_of_mem_replicate hq]
  split
  · rename_i hle
    exact Nat.div_pos hle hpools
  · exact Nat.one_pos

theorem scanEach_keeps : ∀ (pairs : List (String × Nat)),
    Keeps (fun s => Inv sdk derive s ∧ Held s accounts) (scanEach derive accounts pairs)
  | [] => .pure false
  | (pool, quota) :: rest => by
      refine Keeps.bind (.revert fun s b s' hs hrun => ?_) fun _ =>
        (scanEach_keeps rest).bind fun _ => .pure _
      obtain ⟨h', hscans, -⟩ := scanCycles_ok hs.1 hs.2 hrun
      exact ⟨h', hscans.held hs.2⟩

theorem scanEach_ok {pairs : List (String × Nat)} {progressed : Bool} (h : Inv sdk derive t)
    (hk : Held t accounts) (hquota : ∀ p ∈ pairs, 0 < p.2)
    (hrun : scanEach derive accounts pairs t = (.ok progressed, t')) :
    Inv sdk derive t' ∧ Scans t t' ∧
      (progressed = true → ∃ p ∈ pairs, Advanced t t' p.1 accounts) ∧
      (progressed = false → t' = t ∧
        ∀ p ∈ pairs, ∀ account ∈ accounts, unscanned t p.1 account.1 = []) := by
  induction pairs generalizing t progressed with
  | nil =>
      obtain ⟨heq, rfl⟩ := pure_eq_ok.mp hrun
      cases heq
      exact ⟨h, Scans.refl t, nofun, fun _ => ⟨rfl, nofun⟩⟩
  | cons pair pairs ih =>
      obtain ⟨pool, quota⟩ := pair
      obtain ⟨b, t₁, hfirst, hrun⟩ := bind_eq_ok.mp hrun
      obtain ⟨b', t₂, hrest, hrun⟩ := bind_eq_ok.mp hrun
      obtain ⟨heq, rfl⟩ := pure_eq_ok.mp hrun
      cases heq
      obtain ⟨h₁, hs₁, hprog, hidle⟩ := scanCycles_ok h hk (revert_eq_ok.mp hfirst)
      obtain ⟨h₂, hs₂, hprog', hidle'⟩ := ih h₁ (hs₁.held hk)
        (fun p hp => hquota p (List.mem_cons_of_mem _ hp)) hrest
      have hpos : 0 < quota := hquota _ List.mem_cons_self
      refine ⟨h₂, hs₁.trans hs₂, fun hp => ?_, fun hp => ?_⟩
      · rcases Bool.or_eq_true_iff.mp hp with hb | hb
        · exact ⟨_, List.mem_cons_self, (hprog hb).after hs₂⟩
        · obtain ⟨p, hmem, hadv⟩ := hprog' hb
          exact ⟨p, List.mem_cons_of_mem _ hmem, hadv.before hs₁⟩
      · obtain ⟨hb, hb'⟩ := Bool.or_eq_false_iff.mp hp
        obtain ⟨rfl, hall⟩ := hidle hb hpos hpos
        obtain ⟨heq, hall'⟩ := hidle' hb'
        exact ⟨heq, List.forall_mem_cons.mpr ⟨hall, hall'⟩⟩

theorem scanEach_succeeds {pairs : List (String × Nat)} (h : Inv sdk derive t)
    (hk : Held t accounts) (hr : ∀ p ∈ pairs, Readable derive t p.1 accounts) :
    ∃ b t', scanEach derive accounts pairs t = (.ok b, t') := by
  induction pairs generalizing t with
  | nil => exact ⟨_, _, rfl⟩
  | cons pair pairs ih =>
      obtain ⟨pool, quota⟩ := pair
      obtain ⟨b, t₁, hfirst⟩ := scanCycles_succeeds quota quota h hk (hr _ List.mem_cons_self)
      obtain ⟨h₁, hs₁, -⟩ := scanCycles_ok h hk hfirst
      obtain ⟨b', t₂, hrest⟩ := ih h₁ (hs₁.held hk) fun p hp =>
        hs₁.readable (hr p (List.mem_cons_of_mem _ hp))
      exact ⟨_, _, (bind_of_ok (revert_of_ok hfirst)).trans (bind_of_ok hrest)⟩

theorem mem_of_latestKeys {account : Nat} {keys : StoredUserKeys E}
    (h : latestKeys t account = some keys) : ⟨account, keys⟩ ∈ t.keypairs := by
  obtain ⟨row, hrow, rfl⟩ := Option.map_eq_some_iff.mp h
  obtain ⟨hmem, haccount⟩ := List.mem_filter.mp (List.mem_of_getLast? hrow)
  rw [decide_eq_true_eq] at haccount
  exact haccount ▸ hmem

theorem held_accounts (t : Tables E) : Held t (accountsWithLatestKeypairs t) := by
  rintro ⟨account, keys⟩ hmem
  obtain ⟨a, -, hlatest⟩ := List.mem_filterMap.mp hmem
  obtain ⟨keys', hkeys, heq⟩ := Option.map_eq_some_iff.mp hlatest
  cases heq
  exact mem_of_latestKeys hkeys

theorem Inv.scanCommitmentsForUserNotes (h : Inv sdk derive t) (totalLimit : Nat) :
    Inv sdk derive (scanCommitmentsForUserNotes derive totalLimit t).2 := by
  unfold Storage.scanCommitmentsForUserNotes
  rw [read_bind]
  split
  · exact h
  · exact ((scanEach_keeps _).keep t ⟨h, held_accounts t⟩).1

/-- Every pool and every account is at its end. -/
def AllScanned (t : Tables E) : Prop :=
  ∀ pool ∈ scanPools t, ∀ account ∈ accountsWithLatestKeypairs t, unscanned t pool account.1 = []

theorem mem_zip_quotas {totalLimit : Nat} {pools : List String} {p : String × Nat}
    (hp : p ∈ pools.zip (quotasOf totalLimit pools.length)) : p.1 ∈ pools ∧ 0 < p.2 := by
  obtain ⟨pool, quota⟩ := p
  have hmem := (List.of_mem_zip hp).1
  exact ⟨hmem, quotasOf_pos (List.length_pos_of_mem hmem) _ (List.of_mem_zip hp).2⟩

theorem exists_zip_quotas (totalLimit : Nat) {pools : List String} (hpool : pool ∈ pools) :
    ∃ quota, (pool, quota) ∈ pools.zip (quotasOf totalLimit pools.length) := by
  obtain ⟨i, hi, rfl⟩ := List.mem_iff_getElem.mp hpool
  have hlen := quotasOf_length totalLimit pools.length
  refine ⟨(quotasOf totalLimit pools.length)[i], List.mem_iff_getElem.mpr ⟨i, ?_, ?_⟩⟩
  · rw [List.length_zip, hlen]
    omega
  · rw [List.getElem_zip]

theorem scanCommitmentsForUserNotes_ok {totalLimit : Nat} {progressed : Bool}
    (h : Inv sdk derive t) (hlimit : 0 < totalLimit)
    (hrun : scanCommitmentsForUserNotes derive totalLimit t = (.ok progressed, t')) :
    Inv sdk derive t' ∧ Scans t t' ∧
      (progressed = true → ∃ pool ∈ scanPools t,
        Advanced t t' pool (accountsWithLatestKeypairs t)) ∧
      (progressed = false → t' = t ∧ AllScanned t) := by
  unfold scanCommitmentsForUserNotes at hrun
  rw [read_bind] at hrun
  split at hrun
  · rename_i hnone
    obtain ⟨heq, rfl⟩ := pure_eq_ok.mp hrun
    cases heq
    refine ⟨h, Scans.refl t, nofun, fun _ => ⟨rfl, fun pool hpool account haccount => ?_⟩⟩
    simp only [Bool.or_eq_true, List.isEmpty_iff, decide_eq_true_eq] at hnone
    rcases hnone with (hnone | hnone) | hnone
    · rw [hnone] at haccount
      cases haccount
    · omega
    · rw [hnone] at hpool
      cases hpool
  · obtain ⟨h', hs, hprog, hidle⟩ := scanEach_ok h (held_accounts t)
      (fun p hp => (mem_zip_quotas hp).2) hrun
    refine ⟨h', hs, fun hp => ?_, fun hp => ?_⟩
    · obtain ⟨p, hmem, hadv⟩ := hprog hp
      exact ⟨p.1, (mem_zip_quotas hmem).1, hadv⟩
    · obtain ⟨heq, hall⟩ := hidle hp
      refine ⟨heq, fun pool hpool => ?_⟩
      obtain ⟨quota, hmem⟩ := exists_zip_quotas totalLimit hpool
      exact hall _ hmem

theorem scanCommitmentsForUserNotes_succeeds {totalLimit : Nat} (h : Inv sdk derive t)
    (hr : ∀ pool ∈ scanPools t, Readable derive t pool (accountsWithLatestKeypairs t)) :
    ∃ b t', scanCommitmentsForUserNotes derive totalLimit t = (.ok b, t') := by
  unfold scanCommitmentsForUserNotes
  rw [read_bind]
  split
  · exact ⟨_, _, rfl⟩
  · exact scanEach_succeeds h (held_accounts t) fun p hp => hr p.1 (mem_zip_quotas hp).1

end Storage

end PrivacyWallet
