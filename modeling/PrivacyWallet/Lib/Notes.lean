import Mathlib.Algebra.BigOperators.Group.List.Basic
import Mathlib.Algebra.GroupWithZero.Nat
import Mathlib.Data.List.Nodup
import Mathlib.Data.Set.Function
import Mathlib.Tactic.Common

/-!
# Notes with nullifiers

The accounting of a shielded pool, with nothing but its combinatorics: a
list of notes `K`, an amount for each, a nullifier for each, and a set of
spent nullifiers. `unspentTotal` is the total of the notes whose nullifier
is not spent.

`unspentTotal_spend` says what publishing a list of nullifiers takes away:
the amounts of the notes behind them, each once, provided that nullifiers
tell notes apart and that a nullifier that is not behind a note of the
list is behind a note of amount zero. `unspentTotal_append` says what new
notes add.
-/

namespace PrivacyWallet

namespace Notes

variable {K V : Type} (nul : K → V) (amt : K → Nat)

/-- The total amount of the notes that are not spent. -/
def unspentTotal (spent : V → Bool) (notes : List K) : Nat :=
  ((notes.filter fun k => !spent (nul k)).map amt).sum

/-- The total amount of notes. -/
def total (notes : List K) : Nat := (notes.map amt).sum

variable {nul amt} {spent : V → Bool}

theorem total_cons (k : K) (notes : List K) :
    total amt (k :: notes) = amt k + total amt notes := by
  rw [total, total, List.map_cons, List.sum_cons]

theorem unspentTotal_cons (k : K) (notes : List K) :
    unspentTotal nul amt spent (k :: notes)
      = (if spent (nul k) = true then 0 else amt k)
        + unspentTotal nul amt spent notes := by
  unfold unspentTotal
  cases hk : spent (nul k) with
  | true => simp [hk]
  | false => simp [hk]

/-- New notes add their amounts, when none of them that has an amount is
spent already. -/
theorem unspentTotal_append {notes new : List K}
    (hnew : ∀ k ∈ new, amt k ≠ 0 → spent (nul k) = false) :
    unspentTotal nul amt spent (notes ++ new)
      = unspentTotal nul amt spent notes + total amt new := by
  have hadd : unspentTotal nul amt spent new = total amt new := by
    induction new with
    | nil => rfl
    | cons k new ih =>
        rw [unspentTotal_cons, ih fun j hj => hnew j (List.mem_cons_of_mem k hj)]
        rw [total_cons]
        split
        · rename_i hk
          have hzero : amt k = 0 := by
            by_contra hne
            rw [hnew k (List.mem_cons_self ..) hne] at hk
            cases hk
          rw [hzero]
        · rfl
  rw [← hadd, unspentTotal, unspentTotal, unspentTotal, List.filter_append,
    List.map_append, List.sum_append]

variable [DecidableEq V]

/-- Nullifiers that no note of the list has do not change its total. -/
theorem unspentTotal_of_notMem {v : V} {notes : List K}
    (h : ∀ k ∈ notes, amt k ≠ 0 → nul k ≠ v) :
    unspentTotal nul amt (fun x => spent x || decide (x = v)) notes
      = unspentTotal nul amt spent notes := by
  induction notes with
  | nil => rfl
  | cons k notes ih =>
      rw [unspentTotal_cons, unspentTotal_cons,
        ih fun j hj => h j (List.mem_cons_of_mem k hj)]
      congr 1
      by_cases hk : amt k = 0
      · rw [hk, ite_self, ite_self]
      · have hne := h k (List.mem_cons_self ..) hk
        simp [hne]

/-- Spending one nullifier takes away the amount of the note behind it. -/
theorem unspentTotal_spend_one {N : Set K} (hinj : Set.InjOn nul N) {k : K}
    {notes : List K} (hk : k ∈ N) (hnotes : ∀ j ∈ notes, j ∈ N) (hnodup : notes.Nodup)
    (hfresh : spent (nul k) = false) (hmem : amt k ≠ 0 → k ∈ notes) :
    unspentTotal nul amt (fun x => spent x || decide (x = nul k)) notes + amt k
      = unspentTotal nul amt spent notes := by
  by_cases hz : amt k = 0
  · -- a note without an amount: whoever has its nullifier has no amount either
    rw [hz, Nat.add_zero]
    refine unspentTotal_of_notMem fun j hj hne heq => hne ?_
    rw [hinj (hnotes j hj) hk heq]
    exact hz
  · obtain ⟨pre, post, rfl⟩ := List.append_of_mem (hmem hz)
    have hother : ∀ j ∈ pre ++ post, nul j ≠ nul k := by
      intro j hj heq
      have hjk : j = k := by
        refine hinj (hnotes j ?_) hk heq
        rcases List.mem_append.mp hj with hpre | hpost
        · exact List.mem_append_left _ hpre
        · exact List.mem_append_right _ (List.mem_cons_of_mem k hpost)
      subst hjk
      exact (List.nodup_cons.mp (List.nodup_middle.mp hnodup)).1 hj
    have hsplit : ∀ sp : V → Bool, unspentTotal nul amt sp (pre ++ k :: post)
        = unspentTotal nul amt sp (k :: (pre ++ post)) := by
      intro sp
      have hperm : (pre ++ k :: post).Perm (k :: (pre ++ post)) := List.perm_middle
      exact ((hperm.filter _).map amt).sum_eq
    rw [hsplit, hsplit, unspentTotal_cons, unspentTotal_cons,
      unspentTotal_of_notMem fun j hj _ => hother j hj, hfresh]
    simp [Nat.add_comm]

/-- Spending the nullifiers of the notes `inputs` takes away their total. -/
theorem unspentTotal_spend {N : Set K} (hinj : Set.InjOn nul N) {notes : List K}
    (hnotes : ∀ j ∈ notes, j ∈ N) (hnodup : notes.Nodup) :
    ∀ (inputs : List K) (spent : V → Bool), (∀ k ∈ inputs, k ∈ N) →
      (inputs.map nul).Nodup → (∀ k ∈ inputs, spent (nul k) = false) →
      (∀ k ∈ inputs, amt k ≠ 0 → k ∈ notes) →
        unspentTotal nul amt (fun x => spent x || decide (x ∈ inputs.map nul)) notes
          + total amt inputs = unspentTotal nul amt spent notes
  | [], spent, _, _, _, _ => by simp [total]
  | k :: inputs, spent, hN, hnd, hfresh, hmem => by
      rw [List.map_cons, List.nodup_cons] at hnd
      have hone := unspentTotal_spend_one hinj (hN k (List.mem_cons_self ..)) hnotes
        hnodup (hfresh k (List.mem_cons_self ..)) (hmem k (List.mem_cons_self ..))
      have hrest := unspentTotal_spend hinj hnotes hnodup
        inputs (fun x => spent x || decide (x = nul k))
        (fun j hj => hN j (List.mem_cons_of_mem k hj)) hnd.2
        (fun j hj => by
          have hne : nul j ≠ nul k := fun heq =>
            hnd.1 (List.mem_map.mpr ⟨j, hj, heq⟩)
          simp [hfresh j (List.mem_cons_of_mem k hj), hne])
        (fun j hj => hmem j (List.mem_cons_of_mem k hj))
      have hspent : (fun x => (spent x || decide (x = nul k))
            || decide (x ∈ inputs.map nul))
          = fun x => spent x || decide (x ∈ (k :: inputs).map nul) := by
        funext x
        simp [Bool.or_assoc]
      rw [hspent] at hrest
      rw [total_cons, ← hone, ← hrest]
      omega

end Notes

end PrivacyWallet
