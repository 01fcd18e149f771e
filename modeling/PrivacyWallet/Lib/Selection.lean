import Mathlib.Algebra.Order.BigOperators.Group.List
import Mathlib.Algebra.Order.Monoid.Canonical.Defs
import Mathlib.Data.List.Perm.Subperm
import Mathlib.Tactic.Common

/-!
# Choosing elements by weight

Two arguments about lists that are ordered by weight. Of all choices of `n`
elements the first `n` of a list with the heaviest in front weigh the most
(`weight_le_take_of_subperm`). And a search for a pair may walk a window
inwards from both ends, if what leaves the window is settled (`Settled`).
-/

namespace PrivacyWallet

namespace Selection

/-! ## The heaviest elements -/

section Weight

variable {α M : Type} [AddCommMonoid M] (w : α → M)

/-- What the elements weigh together. -/
def weight (l : List α) : M := (l.map w).sum

@[simp] theorem weight_nil : weight w [] = 0 := rfl

@[simp] theorem weight_cons (a : α) (l : List α) : weight w (a :: l) = w a + weight w l := by
  simp [weight]

@[simp] theorem weight_append (l m : List α) : weight w (l ++ m) = weight w l + weight w m := by
  simp [weight]

theorem weight_perm {l m : List α} (h : l.Perm m) : weight w l = weight w m :=
  (h.map w).sum_eq

variable [PartialOrder M]

/-- The heaviest in front. -/
def Descending (l : List α) : Prop := l.Pairwise fun a b => w b ≤ w a

variable {w} [IsOrderedAddMonoid M] {l s : List α} {a : α}

/-- A heavy element may replace the last of some lighter ones. -/
theorem weight_take_succ_le (h : Descending w (a :: l)) {n : Nat} (hn : n < l.length) :
    weight w (l.take (n + 1)) ≤ w a + weight w (l.take n) := by
  have hlast : w l[n] ≤ w a := List.rel_of_pairwise_cons h (List.getElem_mem hn)
  rw [List.take_add_one, List.getElem?_eq_getElem hn, Option.toList_some, weight_append,
    weight_cons, weight_nil, add_zero, add_comm]
  gcongr

/-- No sublist weighs more than as many elements from the front. -/
theorem weight_le_take (h : Descending w l) (hs : s.Sublist l) :
    weight w s ≤ weight w (l.take s.length) := by
  induction hs with
  | slnil => exact le_refl _
  | @cons s l a hs ih =>
      refine (ih h.of_cons).trans ?_
      cases hlen : s.length with
      | zero => exact le_refl _
      | succ n =>
          have hle := hs.length_le
          rw [List.take_succ_cons, weight_cons]
          exact weight_take_succ_le h (by omega)
  | cons_cons a hs ih =>
      rw [List.length_cons, List.take_succ_cons, weight_cons, weight_cons]
      gcongr
      exact ih h.of_cons

theorem weight_le_take_of_subperm (h : Descending w l) (hs : s.Subperm l) :
    weight w s ≤ weight w (l.take s.length) := by
  obtain ⟨s', hperm, hsub⟩ := hs
  rw [← weight_perm w hperm, ← hperm.length_eq]
  exact weight_le_take h hsub

/-- A part weighs at most the whole, if nothing weighs less than nothing. -/
theorem weight_le_of_subperm [CanonicallyOrderedAdd M] (hs : s.Subperm l) :
    weight w s ≤ weight w l := by
  obtain ⟨s', hperm, hsub⟩ := hs
  rw [← weight_perm w hperm]
  exact (hsub.map w).sum_le_sum fun _ _ => zero_le

end Weight

/-! ## A window that closes -/

section Window

variable {P Q : Nat → Nat → Prop} {n left right : Nat}

/-- Of the pairs of positions below `n`, those that do not lie in the window
are settled. -/
def Settled (P : Nat → Nat → Prop) (n left right : Nat) : Prop :=
  ∀ i j, i < j → j < n → i < left ∨ right < j → P i j

theorem settled_start (P : Nat → Nat → Prop) (n : Nat) : Settled P n 0 (n - 1) := by
  intro i j _ hj hout
  omega

theorem Settled.imp (h : Settled P n left right) (hPQ : ∀ i j, j < n → P i j → Q i j) :
    Settled Q n left right :=
  fun i j hij hj hout => hPQ i j hj (h i j hij hj hout)

/-- The left end may go when its pairs in the window are settled. -/
theorem Settled.succ_left (h : Settled P n left right)
    (hl : ∀ j, left < j → j ≤ right → P left j) : Settled P n (left + 1) right := by
  intro i j hij hj hout
  by_cases hin : i < left ∨ right < j
  · exact h i j hij hj hin
  · obtain rfl : i = left := by omega
    exact hl j hij (by omega)

/-- So may the right end. -/
theorem Settled.pred_right (h : Settled P n left (right + 1))
    (hr : ∀ i, left ≤ i → i ≤ right → P i (right + 1)) : Settled P n left right := by
  intro i j hij hj hout
  by_cases hin : i < left ∨ right + 1 < j
  · exact h i j hij hj hin
  · obtain rfl : j = right + 1 := by omega
    exact hr i (by omega) (by omega)

/-- A window without a pair in it settles all. -/
theorem Settled.all (h : Settled P n left right) (hle : right ≤ left) :
    ∀ i j, i < j → j < n → P i j :=
  fun i j hij hj => h i j hij hj (by omega)

end Window

end Selection

end PrivacyWallet
