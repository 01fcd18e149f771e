import Mathlib.Data.List.Nodup
import Mathlib.Data.Nat.Basic
import Mathlib.Order.Basic

/-!
# Reading a growing table up to a mark

Rows are numbered from one in the order of their insertion. A reader keeps the
number of the last row it has read; `pending` are the rows of its kind after
it, and a batch is a piece of them from the front. With the mark moved over a
batch, what is pending is what the batch left (`pending_mark`).
-/

namespace PrivacyWallet

namespace Watermark

variable {α : Type}

/-- The rows with their numbers. -/
def numbered (table : List α) : List (α × Nat) := table.zipIdx 1

theorem mem_numbered {table : List α} {a : α} {i : Nat} :
    (a, i) ∈ numbered table ↔ 1 ≤ i ∧ table[i - 1]? = some a :=
  List.mem_zipIdx_iff_le_and_getElem?_sub

theorem mem_numbered_of_mem {table : List α} {a : α} (h : a ∈ table) :
    ∃ i, (a, i) ∈ numbered table := by
  obtain ⟨k, hk⟩ := List.mem_iff_getElem?.mp h
  exact ⟨k + 1, mem_numbered.mpr ⟨Nat.le_add_left .., hk⟩⟩

theorem mem_of_mem_numbered {table : List α} {a : α} {i : Nat} (h : (a, i) ∈ numbered table) :
    a ∈ table :=
  List.mem_of_getElem? (mem_numbered.mp h).2

theorem number_le {table : List α} {a : α} {i : Nat} (h : (a, i) ∈ numbered table) :
    i ≤ table.length := by
  obtain ⟨-, hget⟩ := mem_numbered.mp h
  have := (List.getElem?_eq_some_iff.mp hget).1
  omega

/-- A number is of one row. -/
theorem numbered_inj {table : List α} {a b : α} {i : Nat} (ha : (a, i) ∈ numbered table)
    (hb : (b, i) ∈ numbered table) : a = b :=
  Option.some.inj ((mem_numbered.mp ha).2.symm.trans (mem_numbered.mp hb).2)

/-- A row that is there once has one number. -/
theorem number_unique {table : List α} (h : table.Nodup) {a : α} {i j : Nat}
    (hi : (a, i) ∈ numbered table) (hj : (a, j) ∈ numbered table) : i = j := by
  obtain ⟨hi, hgeti⟩ := mem_numbered.mp hi
  obtain ⟨hj, hgetj⟩ := mem_numbered.mp hj
  obtain ⟨hlti, hgeti⟩ := List.getElem?_eq_some_iff.mp hgeti
  obtain ⟨hltj, hgetj⟩ := List.getElem?_eq_some_iff.mp hgetj
  have := (List.Nodup.getElem_inj_iff h).mp (hgeti.trans hgetj.symm)
  omega

/-- Rows keep their numbers. -/
theorem mem_numbered_append {table new : List α} {a : α} {i : Nat} :
    (a, i) ∈ numbered (table ++ new) ↔
      (a, i) ∈ numbered table ∨ (a, i) ∈ new.zipIdx (table.length + 1) := by
  rw [numbered, List.zipIdx_append, List.mem_append, numbered, Nat.add_comm 1]

theorem numbered_mono {table table' : List α} (h : table <+: table') {a : α} {i : Nat}
    (ha : (a, i) ∈ numbered table) : (a, i) ∈ numbered table' := by
  obtain ⟨new, rfl⟩ := h
  exact mem_numbered_append.mpr (Or.inl ha)

theorem mem_numbered_of_le {table table' : List α} (h : table <+: table') {a : α} {i : Nat}
    (hi : i ≤ table.length) (ha : (a, i) ∈ numbered table') : (a, i) ∈ numbered table := by
  obtain ⟨new, rfl⟩ := h
  refine (mem_numbered_append.mp ha).resolve_right fun hnew => ?_
  have := (List.mem_zipIdx hnew).1
  omega

/-! ## Pending rows -/

variable (p : α → Bool)

/-- The rows of the kind after the mark. -/
def pending (table : List α) (last : Nat) : List (α × Nat) :=
  (numbered table).filter fun row => p row.1 && decide (last < row.2)

/-- The mark after a batch. -/
def mark (last : Nat) (batch : List (α × Nat)) : Nat :=
  batch.foldl (fun m row => max m row.2) last

variable {p}

theorem mem_pending {table : List α} {last i : Nat} {a : α} :
    (a, i) ∈ pending p table last ↔ (a, i) ∈ numbered table ∧ p a = true ∧ last < i := by
  simp [pending]

theorem pending_pairwise (table : List α) (last : Nat) :
    (pending p table last).Pairwise fun a b => a.2 < b.2 := by
  refine List.Pairwise.sublist List.filter_sublist ?_
  rw [numbered, List.pairwise_iff_getElem]
  intro i j hi hj hij
  simpa [List.getElem_zipIdx] using hij

/-- A reader at the end has nothing pending. -/
theorem pending_eq_nil_iff {table : List α} {last : Nat} :
    pending p table last = [] ↔ ∀ a i, (a, i) ∈ numbered table → p a = true → i ≤ last := by
  rw [List.eq_nil_iff_forall_not_mem]
  constructor
  · intro h a i ha hp
    by_contra hlt
    exact h (a, i) (mem_pending.mpr ⟨ha, hp, by omega⟩)
  · rintro h ⟨a, i⟩ hmem
    obtain ⟨ha, hp, hlt⟩ := mem_pending.mp hmem
    have := h a i ha hp
    omega

theorem mark_nil (last : Nat) : mark last ([] : List (α × Nat)) = last := rfl

theorem mark_of_pairwise : ∀ {batch : List (α × Nat)} {last : Nat} (_ : ∀ row ∈ batch, last < row.2)
    (_ : batch.Pairwise fun a b => a.2 < b.2) {row : α × Nat},
      row ∈ batch.getLast? → mark last batch = row.2
  | [], _, _, _, _, h => by cases h
  | [a], last, hlast, _, row, h => by
      cases h
      exact Nat.max_eq_right (hlast a List.mem_cons_self).le
  | a :: b :: batch, last, hlast, hpair, row, h => by
      have hfirst : mark last (a :: b :: batch) = mark (max last a.2) (b :: batch) := rfl
      rw [hfirst, Nat.max_eq_right (hlast a List.mem_cons_self).le]
      rw [List.getLast?_cons_cons] at h
      exact mark_of_pairwise (fun r hr => List.rel_of_pairwise_cons hpair hr) hpair.of_cons h

theorem le_mark (last : Nat) (batch : List (α × Nat)) : last ≤ mark last batch := by
  induction batch generalizing last with
  | nil => exact le_rfl
  | cons row batch ih => exact (Nat.le_max_left last row.2).trans (ih _)

theorem mark_le {last n : Nat} {batch : List (α × Nat)} (hlast : last ≤ n)
    (h : ∀ row ∈ batch, row.2 ≤ n) : mark last batch ≤ n := by
  induction batch generalizing last with
  | nil => exact hlast
  | cons row batch ih =>
      exact ih (Nat.max_le.mpr ⟨hlast, h row List.mem_cons_self⟩)
        fun r hr => h r (List.mem_cons_of_mem row hr)

/-- With the mark moved over a batch, the rest is pending. The rows come in the
order of their numbers, so the last one of the batch has the largest, and
behind it lies what was not taken. -/
theorem pending_mark (table : List α) (last limit : Nat) :
    pending p table (mark last ((pending p table last).take limit))
      = (pending p table last).drop limit := by
  have hpair := pending_pairwise (p := p) table last
  have habove : ∀ row ∈ pending p table last, last < row.2 := fun row hrow =>
    (mem_pending.mp hrow).2.2
  have hagain (m : Nat) (hm : last ≤ m) :
      pending p table m = (pending p table last).filter fun row => decide (m < row.2) := by
    rw [pending, pending, List.filter_filter]
    refine List.filter_congr fun row _ => ?_
    by_cases hlt : m < row.2
    · simp [hlt, hm.trans_lt hlt]
    · simp [hlt]
  rw [hagain _ (le_mark _ _)]
  cases hbatch : ((pending p table last).take limit).getLast? with
  | none =>
      rw [List.getLast?_eq_none_iff] at hbatch
      rw [hbatch, mark_nil, List.filter_eq_self.mpr fun row hrow => by simp [habove row hrow]]
      rcases List.take_eq_nil_iff.mp hbatch with hzero | hnil
      · rw [hzero, List.drop_zero]
      · rw [hnil, List.drop_nil]
  | some row =>
      have hmark : mark last ((pending p table last).take limit) = row.2 :=
        mark_of_pairwise (fun r hr => habove r (List.mem_of_mem_take hr))
          (hpair.sublist (List.take_sublist ..)) hbatch
      have hsplit := List.take_append_drop limit (pending p table last)
      have hlast : row ∈ (pending p table last).take limit := List.mem_of_getLast? hbatch
      rw [← hsplit, List.pairwise_append] at hpair
      conv_lhs => rw [← hsplit]
      rw [List.filter_append, hsplit, hmark, List.filter_eq_nil_iff.mpr, List.nil_append,
        List.filter_eq_self.mpr]
      · intro r hr
        simpa using hpair.2.2 row hlast r hr
      · intro r hr
        rw [decide_eq_true_eq, not_lt]
        obtain ⟨init, hinit⟩ := List.getLast?_eq_some_iff.mp hbatch
        rw [hinit, List.pairwise_append] at hpair
        rw [hinit, List.mem_append, List.mem_singleton] at hr
        rcases hr with hr | rfl
        · exact (hpair.1.2.2 r hr row (List.mem_singleton_self row)).le
        · exact le_rfl

/-- A row behind the new mark was behind the old one or in the batch. -/
theorem mem_batch {table : List α} {last limit i : Nat} {a : α} (ha : (a, i) ∈ numbered table)
    (hp : p a = true) (hlt : last < i)
    (hle : i ≤ mark last ((pending p table last).take limit)) :
    (a, i) ∈ (pending p table last).take limit := by
  have hmem : (a, i) ∈ pending p table last := mem_pending.mpr ⟨ha, hp, hlt⟩
  rw [← List.take_append_drop limit (pending p table last), List.mem_append] at hmem
  refine hmem.resolve_right fun hdrop => ?_
  rw [← pending_mark] at hdrop
  have := (mem_pending.mp hdrop).2.2
  omega

theorem pending_length_anti {table : List α} {last last' : Nat} (h : last ≤ last') :
    (pending p table last').length ≤ (pending p table last).length := by
  refine List.Sublist.length_le ?_
  refine List.monotone_filter_right _ fun row hrow => ?_
  rw [Bool.and_eq_true, decide_eq_true_eq] at hrow ⊢
  exact ⟨hrow.1, h.trans_lt hrow.2⟩

end Watermark

end PrivacyWallet
