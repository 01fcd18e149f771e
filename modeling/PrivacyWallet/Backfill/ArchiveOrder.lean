import PrivacyWallet.Backfill.Fetch

/-!
# The order of archive rows

`compareArchiveOrder` packs the place of a row into a TOID again and
compares these, then the event indices; the database compares ledger,
transaction, operation and event index field by field. The two agree because
the fields of a mapped row fit their widths (`Mapped.fits`), so no field
spills into the next one.

The arithmetic is done once: a TOID is what its fields make
(`toidOf_decomposeToid`), and one place is before another if its TOID is
smaller, or its event index within one operation (`place_lt_iff`). The three
answers of the comparison follow, and with the library's fact that a total
order leaves one sorted list, the sorted fixture is the list that the
database would give (`sorted_eq_orderByPosition`).

Of two rows at one place the script puts the one with the smaller contract
id first, which the database does not look at
(`one_place_ordered_by_contract`).
-/

namespace PrivacyWallet

namespace Backfill

open Indexer

/-! ## Packing -/

/-- `(ledger << 32n) | (txIndex << 12n) | opIndex` -/
def packToid (p : ToidParts) : Nat := (p.ledger <<< 32) ||| (p.txIndex <<< 12) ||| p.opIndex

theorem packToid_eq {p : ToidParts} (htx : p.txIndex < 2 ^ 20) (hop : p.opIndex < 2 ^ 12) :
    packToid p = toidOf p.ledger p.txIndex p.opIndex := by
  have htx' : p.txIndex <<< 12 < 2 ^ 32 := by
    rw [Nat.shiftLeft_eq]
    omega
  have hhigh : p.ledger <<< 32 ||| p.txIndex <<< 12 = (p.ledger * 2 ^ 20 + p.txIndex) * 2 ^ 12 := by
    rw [Nat.shiftLeft_eq p.ledger, Nat.mul_comm, ← Nat.two_pow_add_eq_or_of_lt htx',
      Nat.shiftLeft_eq]
    omega
  rw [packToid, hhigh, Nat.mul_comm, ← Nat.two_pow_add_eq_or_of_lt hop, toidOf]
  omega

/-- A TOID is what its fields make, and they fit. -/
theorem toidOf_decomposeToid (toid : Nat) :
    toidOf (decomposeToid toid).ledger (decomposeToid toid).txIndex (decomposeToid toid).opIndex
        = toid ∧
      (decomposeToid toid).txIndex < 2 ^ 20 ∧ (decomposeToid toid).opIndex < 2 ^ 12 := by
  have hledger : toid >>> (opOrderBits + txOrderBits) = toid / 2 ^ 12 / 2 ^ 20 := by
    rw [opOrderBits, txOrderBits, Nat.shiftRight_eq_div_pow]
    omega
  have htx : (toid >>> opOrderBits) &&& txOrderMask = toid / 2 ^ 12 % 2 ^ 20 := by
    rw [opOrderBits, txOrderMask, show 0xfffff = 2 ^ 20 - 1 from rfl,
      Nat.and_two_pow_sub_one_eq_mod, Nat.shiftRight_eq_div_pow]
  have hop : toid &&& opOrderMask = toid % 2 ^ 12 := by
    rw [opOrderMask, show 0xfff = 2 ^ 12 - 1 from rfl, Nat.and_two_pow_sub_one_eq_mod]
  rw [decomposeToid, hledger, htx, hop, toidOf]
  dsimp only
  omega

theorem packToid_decomposeToid (toid : Nat) : packToid (decomposeToid toid) = toid := by
  obtain ⟨heq, htx, hop⟩ := toidOf_decomposeToid toid
  rw [packToid_eq htx hop, heq]

theorem decomposeToid_ledger_lt {toid : Nat} (h : toid < 2 ^ 64) :
    (decomposeToid toid).ledger < 2 ^ 32 := by
  obtain ⟨heq, -, -⟩ := toidOf_decomposeToid toid
  rw [toidOf] at heq
  omega

theorem decomposeToid_txToidForEvent (toid : Nat) :
    decomposeToid (txToidForEvent toid) = { decomposeToid toid with opIndex := 0 } := by
  obtain ⟨heq, htx, hop⟩ := toidOf_decomposeToid toid
  have hclear : txToidForEvent toid
      = toidOf (decomposeToid toid).ledger (decomposeToid toid).txIndex 0 := by
    rw [← txToidForEvent_toidOf hop, heq]
  rw [hclear, decomposeToid_toidOf htx (by decide)]

/-! ## The two comparisons -/

/-- The row's place, by which the database orders. -/
def place (r : RawEvent) : Nat ×ₗ Nat ×ₗ Nat ×ₗ Nat := (toNewEventRow r).position

/-- The fields of the row fit the widths of a TOID. -/
structure Fits (r : RawEvent) : Prop where
  tx : r.txIndex < 2 ^ 20
  op : r.opIndex < 2 ^ 12

/-- A row that the script makes of an archive record. -/
def Mapped (r : RawEvent) : Prop :=
  ∃ record txHash, mapArchiveRecordToRawEvent record txHash = .ok r

theorem Mapped.fits {r : RawEvent} (h : Mapped r) : Fits r := by
  obtain ⟨record, txHash, h⟩ := h
  rw [mapArchiveRecordToRawEvent] at h
  obtain ⟨toid, -, h⟩ := Checks.bind_ok.mp h
  obtain ⟨eventIndex, -, h⟩ := Checks.bind_ok.mp h
  cases h
  obtain ⟨-, htx, hop⟩ := toidOf_decomposeToid toid
  exact ⟨htx, hop⟩

theorem compareArchiveOrder_packed {a b : RawEvent} (ha : Fits a) (hb : Fits b) :
    compareArchiveOrder a b
      = (compare (toidOf a.ledger a.txIndex a.opIndex) (toidOf b.ledger b.txIndex b.opIndex)).then
          ((compare a.eventIndex b.eventIndex).then (compare a.contractId b.contractId)) := by
  rw [← @packToid_eq ⟨a.ledger, a.txIndex, a.opIndex⟩ ha.tx ha.op,
    ← @packToid_eq ⟨b.ledger, b.txIndex, b.opIndex⟩ hb.tx hb.op]
  rfl

/-- One place comes before another: an earlier TOID, or a smaller event index
in one operation. -/
theorem place_lt_iff {a b : RawEvent} (ha : Fits a) (hb : Fits b) :
    place a < place b ↔
      toidOf a.ledger a.txIndex a.opIndex < toidOf b.ledger b.txIndex b.opIndex ∨
        toidOf a.ledger a.txIndex a.opIndex = toidOf b.ledger b.txIndex b.opIndex ∧
          a.eventIndex < b.eventIndex := by
  have hatx := ha.tx
  have haop := ha.op
  have hbtx := hb.tx
  have hbop := hb.op
  simp only [place, EventRow.position, toNewEventRow, Prod.Lex.toLex_lt_toLex, toidOf]
  omega

theorem place_eq_iff {a b : RawEvent} (ha : Fits a) (hb : Fits b) :
    place a = place b ↔
      toidOf a.ledger a.txIndex a.opIndex = toidOf b.ledger b.txIndex b.opIndex ∧
        a.eventIndex = b.eventIndex := by
  have hatx := ha.tx
  have haop := ha.op
  have hbtx := hb.tx
  have hbop := hb.op
  simp only [place, EventRow.position, toNewEventRow, toLex_inj, Prod.mk.injEq, toidOf]
  omega

section

variable {a b : RawEvent} (ha : Fits a) (hb : Fits b)
include ha hb

theorem compareArchiveOrder_of_lt (h : place a < place b) : compareArchiveOrder a b = .lt := by
  rw [compareArchiveOrder_packed ha hb]
  rcases (place_lt_iff ha hb).mp h with htoid | ⟨htoid, hindex⟩
  · rw [Nat.compare_eq_lt.mpr htoid]
    rfl
  · rw [Nat.compare_eq_eq.mpr htoid, Nat.compare_eq_lt.mpr hindex]
    rfl

theorem compareArchiveOrder_of_gt (h : place b < place a) : compareArchiveOrder a b = .gt := by
  rw [compareArchiveOrder_packed ha hb]
  rcases (place_lt_iff hb ha).mp h with htoid | ⟨htoid, hindex⟩
  · rw [Nat.compare_eq_gt.mpr htoid]
    rfl
  · rw [Nat.compare_eq_eq.mpr htoid.symm, Nat.compare_eq_gt.mpr hindex]
    rfl

/-- Rows at one place are told apart by their contracts. -/
theorem compareArchiveOrder_of_eq (h : place a = place b) :
    compareArchiveOrder a b = compare a.contractId b.contractId := by
  obtain ⟨htoid, hindex⟩ := (place_eq_iff ha hb).mp h
  rw [compareArchiveOrder_packed ha hb, Nat.compare_eq_eq.mpr htoid, Nat.compare_eq_eq.mpr hindex]
  rfl

theorem compareArchiveOrder_lt_iff (hne : place a ≠ place b) :
    compareArchiveOrder a b = .lt ↔ place a < place b := by
  refine ⟨fun h => ?_, compareArchiveOrder_of_lt ha hb⟩
  by_contra hnot
  have hgt := compareArchiveOrder_of_gt ha hb (lt_of_le_of_ne (not_lt.mp hnot) hne.symm)
  rw [h] at hgt
  cases hgt

theorem compareArchiveOrder_gt_iff (hne : place a ≠ place b) :
    compareArchiveOrder a b = .gt ↔ place b < place a := by
  refine ⟨fun h => ?_, compareArchiveOrder_of_gt ha hb⟩
  by_contra hnot
  have hlt := compareArchiveOrder_of_lt ha hb (lt_of_le_of_ne (not_lt.mp hnot) hne)
  rw [h] at hlt
  cases hlt

end

/-! ## Rows at places of their own -/

theorem compareArchiveOrder_self {a : RawEvent} (ha : Fits a) : compareArchiveOrder a a = .eq := by
  rw [compareArchiveOrder_of_eq ha ha rfl]
  exact Std.ReflCmp.compare_self

section

variable {rows : List RawEvent} (hrows : ∀ r ∈ rows, Fits r) (hplaces : (rows.map place).Nodup)
include hplaces

theorem eq_or_place_ne {a b : RawEvent} (ha : a ∈ rows) (hb : b ∈ rows) :
    a = b ∨ place a ≠ place b := by
  by_cases h : place a = place b
  · exact Or.inl (List.inj_on_of_nodup_map hplaces ha hb h)
  · exact Or.inr h

include hrows

theorem before_iff {a b : RawEvent} (ha : a ∈ rows) (hb : b ∈ rows) :
    compareArchiveOrder a b = .lt ↔ place a < place b := by
  rcases eq_or_place_ne hplaces ha hb with rfl | hne
  · simp [compareArchiveOrder_self (hrows a ha)]
  · exact compareArchiveOrder_lt_iff (hrows a ha) (hrows b hb) hne

theorem isLE_iff {a b : RawEvent} (ha : a ∈ rows) (hb : b ∈ rows) :
    (compareArchiveOrder a b).isLE = true ↔ place a ≤ place b := by
  rcases eq_or_place_ne hplaces ha hb with rfl | hne
  · simp [compareArchiveOrder_self (hrows a ha)]
  · rw [le_iff_lt_or_eq, or_iff_left hne, ← before_iff hrows hplaces ha hb]
    have hgt := compareArchiveOrder_gt_iff (hrows a ha) (hrows b hb) hne
    have hlt := before_iff hrows hplaces ha hb
    rcases lt_or_gt_of_ne hne with h | h
    · simp [hlt.mpr h]
    · simp [hgt.mpr h]

theorem before_strictTotal :
    IsStrictTotalOrder {r // r ∈ rows} fun a b => compareArchiveOrder a.val b.val = .lt where
  trichotomous a b hab hba := by
    rw [before_iff hrows hplaces a.property b.property] at hab
    rw [before_iff hrows hplaces b.property a.property] at hba
    rcases eq_or_place_ne hplaces a.property b.property with heq | hne
    · exact Subtype.ext heq
    · exact absurd (lt_or_gt_of_ne hne) (not_or.mpr ⟨hab, hba⟩)
  irrefl a h := by
    rw [before_iff hrows hplaces a.property a.property] at h
    exact lt_irrefl _ h
  trans a b c hab hbc := by
    rw [before_iff hrows hplaces a.property b.property] at hab
    rw [before_iff hrows hplaces b.property c.property] at hbc
    rw [before_iff hrows hplaces a.property c.property]
    exact hab.trans hbc

/-- The sorted fixture is in the order of the database. -/
theorem sorted_eq_orderByPosition :
    (rows.insertionSort fun a b => (compareArchiveOrder a b).isLE = true).map toNewEventRow
      = orderByPosition (rows.map toNewEventRow) :=
  List.map_insertionSort _ _ _ _ fun _ ha _ hb => isLE_iff hrows hplaces ha hb

end

/-- A TOID is what its fields make, and its transaction's TOID differs from it
in the operation alone. Mapped rows at different places are ordered as the
database orders them, those at one place by their contract ids; so rows with
places of their own are strictly ordered, and the sorted fixture is loaded in
the order in which cursors page. -/
theorem archive_order_is_database_order :
    (∀ toid : Nat, toid < 2 ^ 64 →
      packToid (decomposeToid toid) = toid ∧ (decomposeToid toid).ledger < 2 ^ 32 ∧
      (decomposeToid toid).txIndex < 2 ^ 20 ∧ (decomposeToid toid).opIndex < 2 ^ 12 ∧
      decomposeToid (txToidForEvent toid) = { decomposeToid toid with opIndex := 0 }) ∧
    (∀ a b : RawEvent, Mapped a → Mapped b →
      (place a ≠ place b → (compareArchiveOrder a b = .lt ↔ place a < place b) ∧
        (compareArchiveOrder a b = .gt ↔ place b < place a)) ∧
      (place a = place b → compareArchiveOrder a b = compare a.contractId b.contractId)) ∧
    ∀ rows : List RawEvent, (∀ r ∈ rows, Mapped r) → (rows.map place).Nodup →
      IsStrictTotalOrder {r // r ∈ rows} (fun a b => compareArchiveOrder a.val b.val = .lt) ∧
      (rows.insertionSort fun a b => (compareArchiveOrder a b).isLE = true).map toNewEventRow
        = orderByPosition (rows.map toNewEventRow) := by
  refine ⟨fun toid htoid => ?_, fun a b ha hb => ?_, fun rows hrows hplaces => ?_⟩
  · obtain ⟨-, htx, hop⟩ := toidOf_decomposeToid toid
    exact ⟨packToid_decomposeToid toid, decomposeToid_ledger_lt htoid, htx, hop,
      decomposeToid_txToidForEvent toid⟩
  · exact ⟨fun hne => ⟨compareArchiveOrder_lt_iff ha.fits hb.fits hne,
      compareArchiveOrder_gt_iff ha.fits hb.fits hne⟩, compareArchiveOrder_of_eq ha.fits hb.fits⟩
  · have hfits : ∀ r ∈ rows, Fits r := fun r hr => (hrows r hr).fits
    exact ⟨before_strictTotal hfits hplaces, sorted_eq_orderByPosition hfits hplaces⟩

/-- The record of the pool's first event, as of another contract. -/
def poolRecord (contract : String) : ArchiveEventRecord :=
  { poolEvent.archived with contract := contract }

/-- Records of two contracts with one id: the script orders their rows, whose
places are the same. -/
theorem one_place_ordered_by_contract :
    ∃ a b, mapArchiveRecordToRawEvent (poolRecord "CA") poolEvent.txHash = .ok a ∧
      mapArchiveRecordToRawEvent (poolRecord "CB") poolEvent.txHash = .ok b ∧
      compareArchiveOrder a b = .lt ∧ ¬place a < place b := by
  refine ⟨{ poolEvent.row 1 with contractId := "CA" }, { poolEvent.row 1 with contractId := "CB" },
    rfl, rfl, by decide, ?_⟩
  exact lt_irrefl _

end Backfill

end PrivacyWallet
