import Mathlib.Data.List.Basic
import Mathlib.Data.Nat.ModEq
import Mathlib.Tactic.Common

/-!
# Ring buffers that remember the last entries of a growing list

`Ring.Holds n xs slots` says what a ring buffer of `n` slots contains after
the entries `xs` were written to it in order, one after the other, the
`m`-th into slot `m % n`: slot `j` holds the last entry written there, and
a slot that was never written is empty.

`holds_push` is the step (one more entry), and `exists_slot_iff` reads the
buffer back: what can be found in some slot is exactly the last `n` entries.
-/

namespace PrivacyWallet

namespace Ring

variable {α : Type}

/-- Slot `j` holds entry number `m` of `xs` exactly when `m` is the last
number up to the end of `xs` that falls on `j`. -/
def Holds (n : Nat) (xs : List α) (slots : Nat → Option α) : Prop :=
  ∀ j, j < n → ∀ x, slots j = some x ↔
    ∃ m, xs[m]? = some x ∧ m % n = j ∧ xs.length ≤ m + n

/-- The first entry goes into slot `0` of an empty buffer. -/
theorem holds_single {n : Nat} (hn : 0 < n) (x : α) {slots : Nat → Option α}
    (h0 : slots 0 = some x) (hrest : ∀ j, j ≠ 0 → slots j = none) :
    Holds n [x] slots := by
  intro j hj y
  constructor
  · intro hy
    have hj0 : j = 0 := by
      by_contra hne
      simp [hrest j hne] at hy
    subst hj0
    have hxy : x = y := by simpa [h0] using hy
    exact ⟨0, by simp [hxy], Nat.zero_mod n, by simp; omega⟩
  · rintro ⟨m, hm, hmod, -⟩
    have hm0 : m = 0 := by
      have := (List.getElem?_eq_some_iff.mp hm).1
      simp at this; exact this
    subst hm0
    rw [Nat.zero_mod] at hmod
    simpa [← hmod, h0] using hm

/-- Writing the next entry into the slot its number falls on. An older entry of
that slot is more than the ring's length behind; in the other slots nothing
becomes that old but what falls on the slot that was written. -/
theorem holds_push {n : Nat} {xs : List α} {x : α}
    {slots : Nat → Option α} (h : Holds n xs slots) :
    Holds n (xs ++ [x]) (Function.update slots (xs.length % n) (some x)) := by
  intro j hj y
  rw [List.length_append, List.length_singleton]
  by_cases hjs : j = xs.length % n
  · subst hjs
    rw [Function.update_self]
    constructor
    · intro hy
      exact ⟨xs.length, by simpa using hy, rfl, by omega⟩
    · rintro ⟨m, hm, hmod, hle⟩
      -- the slot's number is taken over by the new entry
      have hmlt : m < xs.length + 1 := by
        simpa using (List.getElem?_eq_some_iff.mp hm).1
      have hmeq : m = xs.length := by
        by_contra hne
        have hdvd : n ∣ xs.length - m :=
          (Nat.modEq_iff_dvd' (by omega)).mp hmod
        have := Nat.le_of_dvd (by omega) hdvd
        omega
      subst hmeq
      simpa using hm
  · rw [Function.update_of_ne hjs]
    rw [h j hj y]
    constructor
    · rintro ⟨m, hm, hmod, hle⟩
      have hmlt := (List.getElem?_eq_some_iff.mp hm).1
      refine ⟨m, by rw [List.getElem?_append_left hmlt]; exact hm, hmod, ?_⟩
      by_contra hlt
      have : xs.length = m + n := by omega
      exact hjs (by rw [this, Nat.add_mod_right]; exact hmod.symm)
    · rintro ⟨m, hm, hmod, hle⟩
      have hmlt : m < xs.length := by
        have hm1 : m < xs.length + 1 := by
          simpa using (List.getElem?_eq_some_iff.mp hm).1
        rcases Nat.lt_or_eq_of_le (Nat.le_of_lt_succ hm1) with hlt | rfl
        · exact hlt
        · exact absurd hmod.symm hjs
      exact ⟨m, by rw [List.getElem?_append_left hmlt] at hm; exact hm, hmod,
        by omega⟩

/-- What some slot holds is one of the last `n` entries. -/
theorem exists_slot_iff {n : Nat} (hn : 0 < n) {xs : List α}
    {slots : Nat → Option α} (h : Holds n xs slots) (x : α) :
    (∃ j, j < n ∧ slots j = some x) ↔ x ∈ xs.drop (xs.length - n) := by
  constructor
  · rintro ⟨j, hj, hx⟩
    obtain ⟨m, hm, -, hle⟩ := (h j hj x).mp hx
    have hmlt := (List.getElem?_eq_some_iff.mp hm).1
    refine List.mem_of_getElem? (i := m - (xs.length - n)) ?_
    rw [List.getElem?_drop, show xs.length - n + (m - (xs.length - n)) = m by omega]
    exact hm
  · intro hx
    obtain ⟨i, hi⟩ := List.mem_iff_getElem?.mp hx
    rw [List.getElem?_drop] at hi
    refine ⟨(xs.length - n + i) % n, Nat.mod_lt _ hn, ?_⟩
    exact (h _ (Nat.mod_lt _ hn) x).mpr ⟨_, hi, rfl, by omega⟩

/-- The slot of the newest entry holds it. -/
theorem newest {n : Nat} (hn : 0 < n) {xs : List α} {slots : Nat → Option α}
    (h : Holds n xs slots) {x : α} (hx : xs.getLast? = some x) :
    slots ((xs.length - 1) % n) = some x := by
  refine (h _ (Nat.mod_lt _ hn) x).mpr ⟨xs.length - 1, ?_, rfl, by omega⟩
  rwa [← List.getLast?_eq_getElem?]

/-- Starting anywhere, `n` consecutive slots are all the slots. -/
theorem exists_offset {n : Nat} {cur j : Nat} (hc : cur < n) (hj : j < n) :
    ∃ t, t < n ∧ (cur + t) % n = j := by
  rcases Nat.lt_or_ge j cur with hlt | hge
  · exact ⟨n + j - cur, by omega, by
      rw [show cur + (n + j - cur) = j + n by omega, Nat.add_mod_right,
        Nat.mod_eq_of_lt hj]⟩
  · exact ⟨j - cur, by omega, by
      rw [show cur + (j - cur) = j by omega, Nat.mod_eq_of_lt hj]⟩

/-- Consecutive slots are distinct until the scan is back where it began. -/
theorem offset_injective {n : Nat} {cur t u : Nat} (ht : t < n)
    (hu : u < n) (h : (cur + t) % n = (cur + u) % n) : t = u := by
  have := Nat.ModEq.add_left_cancel' cur h
  rwa [Nat.ModEq, Nat.mod_eq_of_lt ht, Nat.mod_eq_of_lt hu] at this

end Ring

end PrivacyWallet
