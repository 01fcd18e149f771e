import PrivacyWallet.Storage.Scanning

/-!
# Reconciling nullifiers

A round of a pool marks the notes that a batch of its nullifiers spends, and
moves the mark of the pool over the batch (`reconcilePool_ok`). An update that
would give two notes one nullifier fails; notes that expect different
nullifiers never meet it (`reconcilePool_succeeds`).
-/

namespace PrivacyWallet

namespace Storage

open Circuits InvokeM Planner Prover Watermark

variable {V E : Type} {sdk : ScValSdk V} {derive : DeriveNoteFn E} {t t' : Tables E}
  {pool : String} {row : NewNullifierEvent × Nat}

/-! ## One nullifier -/

/-- A note after the update. -/
def spend (t : Tables E) (pool : String) (row : NewNullifierEvent × Nat) (note : UserNoteRow) :
    UserNoteRow :=
  if isHit t pool row note then { note with nullifierId := some row.2 } else note

theorem isHit_iff {note : UserNoteRow} : isHit t pool row note = true ↔
    note.nullifierId = none ∧ note.expectedNullifier = row.1.nullifier ∧
      noteIn t pool note = true := by
  simp [isHit, and_assoc]

/-- The update touches the mark only. -/
theorem spend_same (t : Tables E) (pool : String) (row : NewNullifierEvent × Nat)
    (note : UserNoteRow) : (spend t pool row note).id = note.id ∧
      (spend t pool row note).accountId = note.accountId ∧
      (spend t pool row note).commitmentId = note.commitmentId ∧
      (spend t pool row note).expectedNullifier = note.expectedNullifier ∧
      (spend t pool row note).blinding = note.blinding ∧
      (spend t pool row note).amount = note.amount := by
  unfold spend
  split <;> exact ⟨rfl, rfl, rfl, rfl, rfl, rfl⟩

theorem spend_nullifierId {note : UserNoteRow} (h : (spend t pool row note).nullifierId = none) :
    spend t pool row note = note ∧ isHit t pool row note = false := by
  unfold spend at h ⊢
  split at h
  · cases h
  · rename_i hmiss
    rw [if_neg hmiss]
    exact ⟨rfl, Bool.eq_false_iff.mpr hmiss⟩

def noConflict (t : Tables E) (pool : String) (row : NewNullifierEvent × Nat) : Prop :=
  ¬ (t.userNotes.filter (isHit t pool row) ≠ [] ∧ 1 < (t.userNotes.filter (isHit t pool row)).length
    + (t.userNotes.filter fun note => note.nullifierId = some row.2).length)

theorem markSpent_eq_ok : markSpent pool row t = (.ok (), t') ↔ noConflict t pool row ∧
    rescanned t (t.userNotes.map (spend t pool row)) t.lastCommitmentId t.lastNullifierId = t' := by
  unfold markSpent
  rw [read_bind]
  refine bind_eq_ok.trans ?_
  constructor
  · rintro ⟨_, s, hreject, hupdate⟩
    obtain ⟨hno, rfl⟩ := rejectIf_eq_ok.mp hreject
    exact ⟨hno, update_eq_ok.mp hupdate⟩
  · rintro ⟨hno, hupdate⟩
    exact ⟨(), t, rejectIf_eq_ok.mpr ⟨hno, rfl⟩, update_eq_ok.mpr hupdate⟩

theorem spentBy_spend {note : UserNoteRow} {p : String} {r : NewNullifierEvent} {i : Nat} :
    SpentBy t (spend t pool row note) p r i ↔ SpentBy t note p r i := by
  obtain ⟨-, -, hid, hnull, -⟩ := spend_same t pool row note
  have hin : noteIn t p (spend t pool row note) = noteIn t p note := by
    simp only [noteIn, hid]
  exact ⟨fun h => ⟨h.mem, hin ▸ h.noteIn, h.spentIn, h.nullifier.trans hnull⟩,
    fun h => ⟨h.mem, hin.symm ▸ h.noteIn, h.spentIn, h.nullifier.trans hnull.symm⟩⟩

theorem Opens.spend {note : UserNoteRow} {r : NewCommitmentEvent} {keys : StoredUserKeys E}
    {derived : DerivedUserNote} (h : Opens derive t note r keys derived) :
    Opens derive t (spend t pool row note) r keys derived := by
  obtain ⟨hid, hacc, hcom, hnull, hblind, hamount⟩ := spend_same t pool row note
  exact ⟨hcom ▸ h.mem, hacc ▸ h.held, h.derives, hid.trans h.id,
    hnull.trans h.expectedNullifier, hblind.trans h.blinding, hamount.trans h.amount⟩

theorem covers_spend : Covers t.userNotes (t.userNotes.map (spend t pool row)) := by
  intro note hnote
  obtain ⟨-, -, hcom, hnull, -⟩ := spend_same t pool row note
  exact ⟨_, List.mem_map_of_mem hnote, hcom, hnull⟩

/-- Marking the notes of a nullifier keeps the invariant: a marked note had
none and is spent by this one, and the others are as they were. -/
theorem Inv.markSpent (h : Inv sdk derive t) (hrow : row ∈ numbered t.poolNullifiers)
    (hspent : spentIn t pool row.1 = true) :
    Inv sdk derive (rescanned t (t.userNotes.map (spend t pool row)) t.lastCommitmentId
      t.lastNullifierId) := by
  have hn := h.noted
  refine ⟨h.stored.rescanned _ h.stored.scanMarks h.stored.nullifierMarks, ?_⟩
  exact
    { opens := by
        intro note' hnote'
        obtain ⟨note, hnote, rfl⟩ := List.mem_map.mp hnote'
        obtain ⟨_, _, _, ho⟩ := hn.opens note hnote
        exact ⟨_, _, _, ho.spend.rescanned⟩
      commitmentIds := by
        have hsame : (t.userNotes.map (spend t pool row)).map UserNoteRow.commitmentId
            = t.userNotes.map UserNoteRow.commitmentId := by
          rw [List.map_map]
          exact List.map_congr_left fun note _ => (spend_same t pool row note).2.2.1
        show ((t.userNotes.map (spend t pool row)).map UserNoteRow.commitmentId).Nodup
        rw [hsame]
        exact hn.commitmentIds
      spent := by
        intro note' hnote' i hi
        obtain ⟨note, hnote, rfl⟩ := List.mem_map.mp hnote'
        by_cases hhit : isHit t pool row note = true
        · obtain ⟨-, heq, hin⟩ := isHit_iff.mp hhit
          rw [spend, if_pos hhit] at hi
          cases hi
          exact ⟨pool, row.1, spentBy_rescanned.mpr
            (spentBy_spend.mpr ⟨hrow, hin, hspent, heq.symm⟩)⟩
        · rw [spend, if_neg hhit] at hi
          obtain ⟨_, _, hs⟩ := hn.spent note hnote i hi
          exact ⟨_, _, spentBy_rescanned.mpr (spentBy_spend.mpr hs)⟩
      unspent := by
        intro note' hnote' hnone p r i hs
        obtain ⟨note, hnote, rfl⟩ := List.mem_map.mp hnote'
        have hold := (spend_nullifierId hnone).1
        rw [hold] at hnone
        exact hn.unspent note hnote hnone p r i (spentBy_spend.mp (spentBy_rescanned.mp hs))
      scanned := fun p a r i hr hp hi =>
        (hn.scanned p a r i hr hp hi).rescanned covers_spend }

/-! ## One pool -/

/-- What a pass over nullifiers does: notes are marked, and so are pools. -/
structure Reconciles (t t' : Tables E) : Prop where
  same : ∃ notes reconciled, t' = rescanned t notes t.lastCommitmentId reconciled
  marks : ∀ pool, t.lastNullifierId pool ≤ t'.lastNullifierId pool

theorem Reconciles.refl (t : Tables E) : Reconciles t t :=
  ⟨⟨t.userNotes, t.lastNullifierId, rfl⟩, fun _ => le_rfl⟩

theorem Reconciles.trans {t'' : Tables E} (h : Reconciles t t') (h' : Reconciles t' t'') :
    Reconciles t t'' := by
  obtain ⟨_, _, rfl⟩ := h.same
  obtain ⟨notes, reconciled, rfl⟩ := h'.same
  exact ⟨⟨notes, reconciled, rfl⟩, fun pool => (h.marks pool).trans (h'.marks pool)⟩

theorem Reconciles.unreconciled_length (h : Reconciles t t') (pool : String) :
    (unreconciled t' pool).length ≤ (unreconciled t pool).length := by
  have hmark := h.marks pool
  obtain ⟨_, _, rfl⟩ := h.same
  exact pending_length_anti hmark

/-- The mark may move over a batch of which no nullifier is that of an unspent
note: such a note could only be spent by a nullifier behind the mark. -/
theorem Inv.afterRound (h : Inv sdk derive t) {limit : Nat}
    (hdone : ∀ r ∈ (unreconciled t pool).take limit, ∀ note ∈ t.userNotes,
      note.nullifierId = none → noteIn t pool note = true →
        r.1.nullifier ≠ note.expectedNullifier) :
    Inv sdk derive (setReconciled pool
      (mark (t.lastNullifierId pool) ((unreconciled t pool).take limit)) t) := by
  have hn := h.noted
  have hle : mark (t.lastNullifierId pool) ((unreconciled t pool).take limit)
      ≤ t.poolNullifiers.length :=
    mark_le (h.stored.nullifierMarks _) fun r hr =>
      number_le (mem_pending.mp (List.mem_of_mem_take hr)).1
  refine ⟨h.stored.rescanned t.userNotes h.stored.scanMarks fun p => ?_, ?_⟩
  · show (if _ then _ else _) ≤ _
    split
    · exact hle
    · exact h.stored.nullifierMarks p
  · exact
      { opens := fun note hnote => by
          obtain ⟨_, _, _, ho⟩ := hn.opens note hnote
          exact ⟨_, _, _, ho.rescanned⟩
        commitmentIds := hn.commitmentIds
        spent := fun note hnote i hi => by
          obtain ⟨_, _, hs⟩ := hn.spent note hnote i hi
          exact ⟨_, _, spentBy_rescanned.mpr hs⟩
        unspent := fun note hnote hnone p r i hs => by
          have hs : SpentBy t note p r i := spentBy_rescanned.mp hs
          have hlt := hn.unspent note hnote hnone p r i hs
          show (if _ then _ else _) < i
          split
          · rename_i hp
            subst hp
            by_contra hge
            exact hdone _ (mem_batch hs.mem hs.spentIn hlt (not_lt.mp hge)) note hnote hnone
              hs.noteIn hs.nullifier
          · exact hlt
        scanned := fun p a r i hr hp hi =>
          (hn.scanned p a r i hr hp hi).rescanned (covers_of_subset (List.Subset.refl _)) }

/-- A round of a pool keeps the invariant, and takes from the front of what the
pool has not reconciled. The loop over the batch carries the invariant, and
that no unspent note of the pool has one of the nullifiers done so far; then
the mark may move over the batch (`Inv.afterRound`). -/
theorem reconcilePool_ok {limit : Nat} {did : Bool} (h : Inv sdk derive t) (hlimit : 0 < limit)
    (hrun : reconcilePool limit pool t = (.ok did, t')) :
    Inv sdk derive t' ∧ Reconciles t t' ∧
      (did = true → (unreconciled t' pool).length < (unreconciled t pool).length) ∧
      (did = false → unreconciled t pool = []) := by
  unfold reconcilePool at hrun
  rw [read_bind] at hrun
  obtain ⟨_, t₁, hloop, hrun⟩ := bind_eq_ok.mp hrun
  obtain ⟨_, t₂, hset, hrun⟩ := bind_eq_ok.mp hrun
  obtain ⟨rfl, rfl⟩ := pure_eq_ok.mp hrun
  obtain rfl := update_eq_ok.mp hset
  have hinv : ∃ notes, t₁ = rescanned t notes t.lastCommitmentId t.lastNullifierId ∧
      Inv sdk derive t₁ ∧ ∀ r ∈ (unreconciled t pool).take limit, ∀ note ∈ t₁.userNotes,
        note.nullifierId = none → noteIn t pool note = true →
          r.1.nullifier ≠ note.expectedNullifier := by
    refine forEach_ok (P := fun done s => ∃ notes,
      s = rescanned t notes t.lastCommitmentId t.lastNullifierId ∧ Inv sdk derive s ∧
      ∀ r ∈ done, ∀ note ∈ s.userNotes, note.nullifierId = none → noteIn t pool note = true →
        r.1.nullifier ≠ note.expectedNullifier) ?_
      ⟨t.userNotes, rfl, h, nofun⟩ hloop
    rintro done r s s' ⟨notes, rfl, hI, hdone⟩ hmem hrow
    obtain ⟨hnum, hspent, -⟩ := mem_pending.mp (List.mem_of_mem_take hmem)
    obtain ⟨-, rfl⟩ := markSpent_eq_ok.mp hrow
    refine ⟨_, rfl, hI.markSpent hnum hspent, ?_⟩
    intro r' hr' note' hnote' hnone hin
    obtain ⟨note, hnote, rfl⟩ := List.mem_map.mp hnote'
    obtain ⟨hsame, hmiss⟩ := spend_nullifierId hnone
    rw [hsame] at hnone hin ⊢
    rcases List.mem_append.mp hr' with hold | hnew
    · exact hdone r' hold note hnote hnone hin
    · -- the note would have been hit
      rw [List.mem_singleton.mp hnew]
      intro heq
      have hhit : isHit (rescanned t notes t.lastCommitmentId t.lastNullifierId) pool r note
          = true := isHit_iff.mpr ⟨hnone, heq.symm, hin⟩
      exact Bool.false_ne_true (hmiss.symm.trans hhit)
  obtain ⟨notes, rfl, hI, hdone⟩ := hinv
  have hunrec : unreconciled (setReconciled pool (mark (t.lastNullifierId pool)
      ((unreconciled t pool).take limit)) (rescanned t notes t.lastCommitmentId
        t.lastNullifierId)) pool = (unreconciled t pool).drop limit := by
    show pending (spentIn t pool) t.poolNullifiers (if _ then _ else _) = _
    rw [if_pos rfl]
    exact pending_mark ..
  refine ⟨hI.afterRound hdone, ⟨⟨notes, _, rfl⟩, fun p => ?_⟩, fun hsome => ?_, fun hnone => ?_⟩
  · show _ ≤ if _ then _ else _
    split
    · rename_i hp
      rw [hp]
      exact le_mark _ _
    · exact le_rfl
  · rw [hunrec, List.length_drop]
    have hne : ((unreconciled t pool).take limit).length ≠ 0 := by
      intro hzero
      rw [List.isEmpty_iff_length_eq_zero.mpr hzero] at hsome
      cases hsome
    rw [List.length_take] at hne
    omega
  · rw [Bool.not_eq_false', List.isEmpty_iff, List.take_eq_nil_iff] at hnone
    exact hnone.resolve_left (by omega)

/-- No two notes expect one nullifier. -/
def Distinct (t : Tables E) : Prop := (t.userNotes.map UserNoteRow.expectedNullifier).Nodup

theorem noConflict_of_distinct (h : Inv sdk derive t) (hd : Distinct t)
    (hrow : row ∈ numbered t.poolNullifiers) : noConflict t pool row := by
  rintro ⟨hne, hlt⟩
  have hexpect : ∀ note ∈ t.userNotes.filter (isHit t pool row),
      note.expectedNullifier = row.1.nullifier := fun note hnote =>
    (isHit_iff.mp (List.mem_filter.mp hnote).2).2.1
  have hhits : (t.userNotes.filter (isHit t pool row)).length ≤ 1 := by
    have hnodup : ((t.userNotes.filter (isHit t pool row)).map
        UserNoteRow.expectedNullifier).Nodup := hd.sublist (List.filter_sublist.map _)
    rw [List.map_congr_left (g := fun _ => row.1.nullifier) hexpect, List.map_const'] at hnodup
    exact List.nodup_replicate.mp hnodup
  obtain ⟨note, hnote⟩ := List.exists_mem_of_ne_nil _ hne
  obtain ⟨hmem, hhit⟩ := List.mem_filter.mp hnote
  have hholders : t.userNotes.filter (fun note => note.nullifierId = some row.2) = [] := by
    rw [List.filter_eq_nil_iff]
    intro holder hholder hid
    rw [decide_eq_true_eq] at hid
    obtain ⟨_, r, hs⟩ := h.noted.spent holder hholder row.2 hid
    have hr : r = row.1 := numbered_inj hs.mem hrow
    have hsame : holder = note := List.inj_on_of_nodup_map hd hholder hmem
      (hs.nullifier.symm.trans ((congrArg _ hr).trans (hexpect note hnote).symm))
    rw [hsame, (isHit_iff.mp hhit).1] at hid
    cases hid
  rw [hholders, List.length_nil] at hlt
  omega

theorem distinct_spend (hd : Distinct t) : Distinct (rescanned t
    (t.userNotes.map (spend t pool row)) t.lastCommitmentId t.lastNullifierId) := by
  have hsame : (t.userNotes.map (spend t pool row)).map UserNoteRow.expectedNullifier
      = t.userNotes.map UserNoteRow.expectedNullifier := by
    rw [List.map_map]
    exact List.map_congr_left fun note _ => (spend_same t pool row note).2.2.2.1
  show ((t.userNotes.map (spend t pool row)).map UserNoteRow.expectedNullifier).Nodup
  rw [hsame]
  exact hd

theorem reconcilePool_succeeds (limit : Nat) (h : Inv sdk derive t) (hd : Distinct t) :
    ∃ b t', reconcilePool limit pool t = (.ok b, t') ∧ Distinct t' := by
  suffices hall : ∀ (rows : List (NewNullifierEvent × Nat)) (s : Tables E), Inv sdk derive s →
      Distinct s → (∀ r ∈ rows, r ∈ numbered s.poolNullifiers ∧ spentIn s pool r.1 = true) →
        ∃ s', forEach (markSpent pool) rows s = (.ok (), s') ∧ Distinct s' by
    obtain ⟨t₁, hloop, hd₁⟩ := hall ((unreconciled t pool).take limit) t h hd fun r hr => by
      obtain ⟨hnum, hspent, -⟩ := mem_pending.mp (List.mem_of_mem_take hr)
      exact ⟨hnum, hspent⟩
    exact ⟨_, _, bind_of_ok hloop, hd₁⟩
  intro rows
  induction rows with
  | nil => exact fun s _ hs _ => ⟨s, rfl, hs⟩
  | cons r rows ih =>
      intro s hI hs hrows
      obtain ⟨hnum, hspent⟩ := hrows r List.mem_cons_self
      have hfree : noConflict s pool r := noConflict_of_distinct hI hs hnum
      have hstep := markSpent_eq_ok.mpr ⟨hfree, rfl⟩
      obtain ⟨s', hloop, hs'⟩ := ih _ (hI.markSpent hnum hspent) (distinct_spend hs)
        fun r' hr' => hrows r' (List.mem_cons_of_mem r hr')
      exact ⟨s', (bind_of_ok hstep).trans hloop, hs'⟩

/-! ## All pools -/

theorem reconcileEach_keeps {limit : Nat} (hlimit : 0 < limit) : ∀ (pools : List String),
    Keeps (fun s : Tables E => Inv sdk derive s) (reconcileEach limit pools)
  | [] => .pure false
  | _ :: pools =>
      Keeps.bind (.revert fun _ _ _ hs hrun => (reconcilePool_ok hs hlimit hrun).1) fun _ =>
        (reconcileEach_keeps hlimit pools).bind fun _ => .pure _

theorem Inv.reconcileNullifiers (h : Inv sdk derive t) (limit : Nat) :
    Inv sdk derive (reconcileNullifiers limit t).2 := by
  unfold Storage.reconcileNullifiers
  split
  · exact h
  · exact (reconcileEach_keeps (by omega) _).keep t h

theorem reconcileEach_ok {limit : Nat} {pools : List String} {did : Bool} (h : Inv sdk derive t)
    (hlimit : 0 < limit) (hrun : reconcileEach limit pools t = (.ok did, t')) :
    Inv sdk derive t' ∧ Reconciles t t' ∧
      (did = true → ∃ pool ∈ pools,
        (unreconciled t' pool).length < (unreconciled t pool).length) ∧
      (did = false → ∀ pool ∈ pools, unreconciled t' pool = []) := by
  induction pools generalizing t did with
  | nil =>
      obtain ⟨heq, rfl⟩ := pure_eq_ok.mp hrun
      cases heq
      exact ⟨h, Reconciles.refl t, nofun, fun _ => nofun⟩
  | cons pool pools ih =>
      obtain ⟨b, t₁, hfirst, hrun⟩ := bind_eq_ok.mp hrun
      obtain ⟨b', t₂, hrest, hrun⟩ := bind_eq_ok.mp hrun
      obtain ⟨heq, rfl⟩ := pure_eq_ok.mp hrun
      cases heq
      obtain ⟨h₁, hr₁, hprog, hidle⟩ := reconcilePool_ok h hlimit (revert_eq_ok.mp hfirst)
      obtain ⟨h₂, hr₂, hprog', hidle'⟩ := ih h₁ hrest
      refine ⟨h₂, hr₁.trans hr₂, fun hp => ?_, fun hp => ?_⟩
      · rcases Bool.or_eq_true_iff.mp hp with hb | hb
        · exact ⟨pool, List.mem_cons_self, (hr₂.unreconciled_length pool).trans_lt (hprog hb)⟩
        · obtain ⟨p, hmem, hlt⟩ := hprog' hb
          exact ⟨p, List.mem_cons_of_mem _ hmem, hlt.trans_le (hr₁.unreconciled_length p)⟩
      · obtain ⟨hb, hb'⟩ := Bool.or_eq_false_iff.mp hp
        refine List.forall_mem_cons.mpr ⟨List.eq_nil_of_length_eq_zero ?_, hidle' hb'⟩
        have hle := (hr₁.trans hr₂).unreconciled_length pool
        rw [hidle hb, List.length_nil] at hle
        omega

theorem reconcileEach_succeeds {limit : Nat} {pools : List String} (h : Inv sdk derive t)
    (hlimit : 0 < limit) (hd : Distinct t) :
    ∃ b t', reconcileEach limit pools t = (.ok b, t') := by
  induction pools generalizing t with
  | nil => exact ⟨_, _, rfl⟩
  | cons pool pools ih =>
      obtain ⟨b, t₁, hfirst, hd₁⟩ :
          ∃ b t', reconcilePool limit pool t = (.ok b, t') ∧ Distinct t' :=
        reconcilePool_succeeds limit h hd
      obtain ⟨b', t₂, hrest⟩ := ih (reconcilePool_ok h hlimit hfirst).1 hd₁
      exact ⟨_, _, (bind_of_ok (revert_of_ok hfirst)).trans (bind_of_ok hrest)⟩

end Storage

end PrivacyWallet
