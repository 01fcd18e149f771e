import Mathlib.Data.List.Dedup
import Mathlib.Tactic.Common

/-!
# Keyed tables

A database table as the list of its rows. `insertNew` is an insert that
does nothing when the key is taken. On rows that their key determines
(`KeyedBy`) a table filled by `insertNew` is a set of rows: a row offered
twice is held once (`insertAllNew_perm_dedup`), a selection of the rows is
filled by the selected offers (`filter_insertAllNew`), and offers that walk
along a list fill the table with a longer and longer piece of it
(`insertAllNew_window`).
-/

namespace PrivacyWallet

namespace Table

variable {α κ : Type} [DecidableEq κ] (key : α → κ)

/-- Insert a row; do nothing on a conflict of its key. -/
def insertNew (table : List α) (row : α) : List α :=
  if key row ∈ table.map key then table else table ++ [row]

/-- Insert rows one after the other. -/
def insertAllNew (table rows : List α) : List α := rows.foldl (insertNew key) table

/-- The key determines the row, among the rows `D`. -/
def KeyedBy (D : α → Prop) : Prop := ∀ a b, D a → D b → key a = key b → a = b

variable {key}

omit [DecidableEq κ] in
theorem keyedBy_of_nodup {rows : List α} (h : (rows.map key).Nodup) :
    KeyedBy key (· ∈ rows) :=
  fun _ _ ha hb hab => List.inj_on_of_nodup_map h ha hb hab

theorem insertAllNew_append (table l m : List α) :
    insertAllNew key table (l ++ m) = insertAllNew key (insertAllNew key table l) m :=
  List.foldl_append ..

theorem insertAllNew_cons (table : List α) (row : α) (rows : List α) :
    insertAllNew key table (row :: rows)
      = insertAllNew key (insertNew key table row) rows := rfl

/-- On a conflict with itself a row is skipped. -/
theorem insertNew_of_mem {table : List α} {row : α} (h : row ∈ table) :
    insertNew key table row = table :=
  if_pos (List.mem_map_of_mem h)

theorem prefix_insertNew {table : List α} {row : α} : table <+: insertNew key table row := by
  unfold insertNew
  split
  · exact List.prefix_refl table
  · exact List.prefix_append table [row]

theorem prefix_insertAllNew {table rows : List α} : table <+: insertAllNew key table rows := by
  induction rows generalizing table with
  | nil => exact List.prefix_refl table
  | cons row rows ih =>
      rw [insertAllNew_cons]
      exact prefix_insertNew.trans ih

/-- No key is held twice. -/
theorem nodup_keys_insertNew {table : List α} {row : α} (h : (table.map key).Nodup) :
    ((insertNew key table row).map key).Nodup := by
  unfold insertNew
  split
  · exact h
  · rename_i hnot
    rw [List.map_append, List.map_singleton, List.nodup_append]
    refine ⟨h, List.nodup_singleton _, fun a ha b hb hab => ?_⟩
    rw [List.mem_singleton] at hb
    exact hnot (hb ▸ hab ▸ ha)

/-- The row with a property that it shares with no other. -/
theorem find?_eq_of_unique {table : List α} {p : α → Bool} {row : α} (hrow : row ∈ table)
    (hp : p row = true) (huniq : ∀ r ∈ table, p r = true → r = row) :
    table.find? p = some row := by
  cases hfind : table.find? p with
  | none => exact absurd hp (List.find?_eq_none.mp hfind row hrow)
  | some r => rw [huniq r (List.mem_of_find?_eq_some hfind) (List.find?_some hfind)]

theorem mem_keys_insertNew {table : List α} {row : α} {k : κ} :
    k ∈ (insertNew key table row).map key ↔ k ∈ table.map key ∨ k = key row := by
  unfold insertNew
  split
  · rename_i h
    constructor
    · exact Or.inl
    · rintro (hk | rfl)
      · exact hk
      · exact h
  · rw [List.map_append, List.mem_append, List.map_singleton, List.mem_singleton]

/-- Every offered key is taken afterwards. -/
theorem mem_keys_insertAllNew {table rows : List α} {k : κ} :
    k ∈ (insertAllNew key table rows).map key ↔ k ∈ table.map key ∨ k ∈ rows.map key := by
  induction rows generalizing table with
  | nil => simp [insertAllNew]
  | cons row rows ih =>
      rw [insertAllNew_cons, ih, mem_keys_insertNew, List.map_cons, List.mem_cons, or_assoc]

theorem mem_of_mem_insertAllNew {table rows : List α} {x : α}
    (hx : x ∈ insertAllNew key table rows) : x ∈ table ∨ x ∈ rows := by
  induction rows generalizing table with
  | nil => exact Or.inl hx
  | cons row rows ih =>
      rcases ih hx with h | h
      · unfold insertNew at h
        split at h
        · exact Or.inl h
        · rw [List.mem_append, List.mem_singleton] at h
          rcases h with h | rfl
          · exact Or.inl h
          · exact Or.inr List.mem_cons_self
      · exact Or.inr (List.mem_cons_of_mem _ h)

theorem mem_insertAllNew_of_mem_table {table rows : List α} {x : α} (hx : x ∈ table) :
    x ∈ insertAllNew key table rows := by
  induction rows generalizing table with
  | nil => exact hx
  | cons row rows ih =>
      refine ih ?_
      unfold insertNew
      split
      · exact hx
      · exact List.mem_append_left _ hx

/-- An offered row whose key no other row has is held. -/
theorem mem_insertAllNew_of_mem_rows {table rows : List α} {row : α} (hrow : row ∈ rows)
    (hunique : ∀ r, r ∈ table ∨ r ∈ rows → key r = key row → r = row) :
    row ∈ insertAllNew key table rows := by
  obtain ⟨r, hr, hkey⟩ := List.mem_map.mp
    (mem_keys_insertAllNew.mpr (Or.inr (List.mem_map_of_mem (f := key) hrow)))
  rw [← hunique r (mem_of_mem_insertAllNew hr) hkey]
  exact hr

/-- Rows with keys of their own are all inserted. -/
theorem insertAllNew_of_nodup {table rows : List α} (h : ((table ++ rows).map key).Nodup) :
    insertAllNew key table rows = table ++ rows := by
  induction rows generalizing table with
  | nil => exact (List.append_nil table).symm
  | cons row rows ih =>
      have hnew : key row ∉ table.map key := by
        rw [List.map_append] at h
        intro hmem
        exact (List.nodup_append.mp h).2.2 _ hmem _ List.mem_cons_self rfl
      rw [List.append_cons] at h ⊢
      rw [insertAllNew_cons, insertNew, if_neg hnew, ih h]

section Keyed

variable {D : α → Prop} (hD : KeyedBy key D)
include hD

/-- Among keyed rows only the same row conflicts. -/
theorem insertNew_of_notMem {table : List α} {row : α} (htable : ∀ r ∈ table, D r)
    (hrow : D row) (h : row ∉ table) : insertNew key table row = table ++ [row] := by
  refine if_neg fun hmem => ?_
  obtain ⟨r, hr, heq⟩ := List.mem_map.mp hmem
  rw [hD r row (htable r hr) hrow heq] at hr
  exact h hr

theorem mem_insertNew {table : List α} {row x : α} (htable : ∀ r ∈ table, D r)
    (hrow : D row) : x ∈ insertNew key table row ↔ x ∈ table ∨ x = row := by
  by_cases h : row ∈ table
  · rw [insertNew_of_mem h]
    constructor
    · exact Or.inl
    · rintro (hx | rfl)
      · exact hx
      · exact h
  · rw [insertNew_of_notMem hD htable hrow h, List.mem_append, List.mem_singleton]

theorem nodup_insertNew {table : List α} {row : α} (htable : ∀ r ∈ table, D r)
    (hrow : D row) (h : table.Nodup) : (insertNew key table row).Nodup := by
  by_cases hmem : row ∈ table
  · rw [insertNew_of_mem hmem]
    exact h
  · rw [insertNew_of_notMem hD htable hrow hmem]
    exact List.nodup_append.mpr ⟨h, List.nodup_singleton _,
      fun a ha b hb heq => hmem (List.mem_singleton.mp hb ▸ heq ▸ ha)⟩

theorem forall_insertNew {table : List α} {row : α} (htable : ∀ r ∈ table, D r)
    (hrow : D row) : ∀ r ∈ insertNew key table row, D r := by
  intro r hr
  rcases (mem_insertNew hD htable hrow).mp hr with hr | rfl
  · exact htable r hr
  · exact hrow

theorem mem_insertAllNew {table rows : List α} (hrows : ∀ r ∈ rows, D r)
    (htable : ∀ r ∈ table, D r) (x : α) :
    x ∈ insertAllNew key table rows ↔ x ∈ table ∨ x ∈ rows := by
  induction rows generalizing table with
  | nil => simp [insertAllNew]
  | cons row rows ih =>
      have hrow : D row := hrows row List.mem_cons_self
      rw [insertAllNew_cons, ih (fun r hr => hrows r (List.mem_cons_of_mem _ hr))
        (forall_insertNew hD htable hrow), mem_insertNew hD htable hrow, List.mem_cons,
        or_assoc]

theorem nodup_insertAllNew {table rows : List α} (hrows : ∀ r ∈ rows, D r)
    (htable : ∀ r ∈ table, D r) (h : table.Nodup) :
    (insertAllNew key table rows).Nodup := by
  induction rows generalizing table with
  | nil => exact h
  | cons row rows ih =>
      have hrow : D row := hrows row List.mem_cons_self
      exact ih (fun r hr => hrows r (List.mem_cons_of_mem _ hr))
        (forall_insertNew hD htable hrow) (nodup_insertNew hD htable hrow h)

/-- A table filled from empty holds every offered row once. -/
theorem insertAllNew_perm_dedup [DecidableEq α] {rows : List α}
    (hrows : ∀ r ∈ rows, D r) : (insertAllNew key [] rows).Perm rows.dedup := by
  have hempty : ∀ r ∈ ([] : List α), D r := fun r hr => by cases hr
  have hnodup := nodup_insertAllNew hD hrows hempty List.nodup_nil
  refine (List.perm_ext_iff_of_nodup hnodup rows.nodup_dedup).mpr fun x => ?_
  rw [mem_insertAllNew hD hrows hempty, List.mem_dedup]
  simp

theorem filter_insertNew {table : List α} {row : α} (p : α → Bool)
    (htable : ∀ r ∈ table, D r) (hrow : D row) :
    (insertNew key table row).filter p
      = if p row then insertNew key (table.filter p) row else table.filter p := by
  have hfilter : ∀ r ∈ table.filter p, D r := fun r hr => htable r (List.mem_of_mem_filter hr)
  by_cases hmem : row ∈ table
  · rw [insertNew_of_mem hmem]
    split
    · rename_i hp
      rw [insertNew_of_mem (List.mem_filter.mpr ⟨hmem, hp⟩)]
    · rfl
  · rw [insertNew_of_notMem hD htable hrow hmem, List.filter_append]
    split
    · rename_i hp
      rw [insertNew_of_notMem hD hfilter hrow fun h => hmem (List.mem_of_mem_filter h)]
      simp [hp]
    · rename_i hp
      simp [hp]

/-- A selection of a filled table is filled by the selected rows. -/
theorem filter_insertAllNew (p : α → Bool) {rows : List α} (hrows : ∀ r ∈ rows, D r) :
    ∀ {table : List α}, (∀ r ∈ table, D r) →
      (insertAllNew key table rows).filter p
        = insertAllNew key (table.filter p) (rows.filter p) := by
  induction rows with
  | nil =>
      intro table _
      rfl
  | cons row rows ih =>
      intro table htable
      have hrow : D row := hrows row List.mem_cons_self
      rw [insertAllNew_cons, ih (fun r hr => hrows r (List.mem_cons_of_mem _ hr))
        (forall_insertNew hD htable hrow), filter_insertNew hD p htable hrow]
      by_cases hp : p row = true
      · rw [if_pos hp, List.filter_cons_of_pos hp, insertAllNew_cons]
      · rw [if_neg hp, List.filter_cons_of_neg hp]

end Keyed

/-- Offers that walk along `m` from a place already covered extend the
piece of `m` that the table holds. -/
theorem insertAllNew_window {m : List α} (hm : (m.map key).Nodup) {n a : Nat}
    (ha : a ≤ n) (k : Nat) :
    insertAllNew key (m.take n) ((m.drop a).take k) = m.take (max n (a + k)) := by
  have hD := keyedBy_of_nodup hm
  have hnodup : m.Nodup := List.Nodup.of_map key hm
  induction k with
  | zero =>
      rw [List.take_zero, Nat.add_zero, Nat.max_eq_left ha]
      rfl
  | succ k ih =>
      rw [List.take_add_one, insertAllNew_append, ih, List.getElem?_drop]
      by_cases hlt : a + k < m.length
      · rw [List.getElem?_eq_getElem hlt]
        simp only [Option.toList_some, insertAllNew, List.foldl_cons, List.foldl_nil]
        by_cases hn : a + k < n
        · -- the row is already there
          rw [insertNew_of_mem, show max n (a + k) = max n (a + (k + 1)) by omega]
          exact List.mem_take_iff_getElem.mpr ⟨a + k, by omega, rfl⟩
        · rw [insertNew_of_notMem hD (fun r hr => List.mem_of_mem_take hr)
            (List.getElem_mem hlt), show max n (a + k) = a + k by omega,
            show max n (a + (k + 1)) = a + k + 1 by omega,
            List.take_succ_eq_append_getElem hlt]
          intro hmem
          obtain ⟨i, hi, heq⟩ := List.mem_take_iff_getElem.mp hmem
          have := (hnodup.getElem_inj_iff).mp heq
          omega
      · rw [List.getElem?_eq_none (by omega)]
        simp only [Option.toList_none, insertAllNew, List.foldl_nil]
        rw [List.take_of_length_le (by omega), List.take_of_length_le (by omega)]

/-- A selection that starts at `m` and takes everything from there. -/
theorem filter_eq_drop {p : α → Bool} {l : List α} {m : Nat}
    (hbefore : ∀ x ∈ l.take m, p x = false) (hafter : ∀ x ∈ l.drop m, p x = true) :
    l.filter p = l.drop m := by
  have hsplit : (l.take m).filter p ++ (l.drop m).filter p = l.filter p := by
    rw [← List.filter_append, List.take_append_drop]
  rw [← hsplit, List.filter_eq_nil_iff.mpr fun x hx => by simp [hbefore x hx],
    List.filter_eq_self.mpr hafter, List.nil_append]

/-- Two consecutive pieces of `l` are one. -/
theorem pieces_append (l : List α) {j m n : Nat} (hj : j ≤ m) (hm : m ≤ n) :
    (l.take m).drop j ++ (l.take n).drop m = (l.take n).drop j := by
  have hsplit : l.take m ++ (l.take n).drop m = l.take n := by
    have h := List.take_append_drop m (l.take n)
    rwa [List.take_take, Nat.min_eq_left hm] at h
  conv_rhs => rw [← hsplit, List.drop_append]
  by_cases hlen : j ≤ l.length
  · rw [List.length_take, show j - min m l.length = 0 by omega, List.drop_zero]
  · have hnone : (l.take n).drop m = [] := by
      rw [List.drop_eq_nil_iff, List.length_take]
      omega
    rw [hnone, List.drop_nil]

/-- A non-empty page of a piece of `l` ends at some element of `l`. -/
theorem page_of_window {l rest : List α} {a : α} {m n limit : Nat}
    (h : a :: rest = ((l.take n).drop m).take limit) :
    ∃ k r, m < k + 1 ∧ l[k]? = some r ∧ rest.getLastD a = r ∧
      a :: rest = (l.take (k + 1)).drop m := by
  have hpage : a :: rest = (l.take (min (min (m + limit) n) l.length)).drop m := by
    have hcut : l.take (min (m + limit) n) = l.take (min (min (m + limit) n) l.length) :=
      List.take_eq_take_iff.mpr (by omega)
    rw [h, List.take_drop, List.take_take, hcut]
  have hlen := congrArg List.length hpage
  rw [List.length_cons, List.length_drop, List.length_take] at hlen
  obtain ⟨k, hk⟩ : ∃ k, min (min (m + limit) n) l.length = k + 1 :=
    Nat.exists_eq_add_of_lt (show 0 < min (min (m + limit) n) l.length by omega) |>.imp
      fun k hk => by omega
  have hlt : k < l.length := by omega
  rw [hk] at hpage
  refine ⟨k, l[k], by omega, List.getElem?_eq_getElem hlt, ?_, hpage⟩
  have hlast : (a :: rest).getLast? = some l[k] := by
    rw [hpage, List.getLast?_drop, List.length_take, if_neg (by omega), List.getLast?_take,
      if_neg (Nat.succ_ne_zero k), Nat.add_sub_cancel, List.getElem?_eq_getElem hlt]
    rfl
  rw [List.getLast?_cons, Option.some.injEq] at hlast
  rw [List.getLastD_eq_getLast?, hlast]

/-- What follows the element with the key of the `k`-th one. -/
theorem tail_dropWhile_key {l : List α} (hl : (l.map key).Nodup) {k : Nat} {a : α}
    (ha : l[k]? = some a) :
    (l.dropWhile fun x => decide (key x ≠ key a)).tail = l.drop (k + 1) := by
  obtain ⟨hlt, hget⟩ := List.getElem?_eq_some_iff.mp ha
  have hsplit : l = l.take k ++ a :: l.drop (k + 1) := by
    rw [← hget, List.getElem_cons_drop, List.take_append_drop]
  have hbefore : ∀ x ∈ l.take k, decide (key x ≠ key a) = true := by
    intro x hx
    rw [decide_eq_true_eq]
    intro hkey
    obtain ⟨i, hi, rfl⟩ := List.mem_take_iff_getElem.mp hx
    have hik : i = k := by
      have hi' : i < (l.map key).length := by rw [List.length_map]; omega
      have hk' : k < (l.map key).length := by rwa [List.length_map]
      exact (@List.Nodup.getElem_inj_iff _ _ hl i hi' k hk').mp (by simpa [hget] using hkey)
    omega
  calc (l.dropWhile fun x => decide (key x ≠ key a)).tail
      = ((l.take k ++ a :: l.drop (k + 1)).dropWhile fun x => decide (key x ≠ key a)).tail := by
        rw [← hsplit]
    _ = l.drop (k + 1) := by
        rw [List.dropWhile_append_of_pos hbefore, List.dropWhile_cons_of_neg (by simp)]
        rfl

end Table

end PrivacyWallet
