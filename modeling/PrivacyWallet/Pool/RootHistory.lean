import Mathlib.Data.List.Nodup
import PrivacyWallet.Lib.Ring
import PrivacyWallet.Pool.MerkleTree

/-!
# The root history is the last ninety roots

The slots of the root ring, with the sequence of all roots the tree ever
had as the growing list behind them. `Grown` is that sequence: the initial
root, and for each successful insertion the hash its path ended in. The
ring is a `Ring.Holds` of the sequence (`HistoryInv.holds`), which an insertion
keeps (`HistoryInv.insert`). The search of `isKnownRoot` goes on from the
current slot until it is there again; by induction on the slots still to come
(`search_outcome`), it looks at each of them once, and finds a root exactly if
one of them holds it. So what is known are the last ninety of the sequence,
without the zero, which is refused before the search.

The hash function is arbitrary here: it may collide, and the zero hashes
need not fit it.
-/

namespace PrivacyWallet

namespace Merkle

open InvokeM

variable {U : Type}

/-- The storages a tree of depth `levels` can be in, with the chronological
sequence of its roots. -/
inductive Grown (compress : U → U → Option U) (zeros : List U) (levels : Nat) :
    List U → MerkleStorage U → Prop where
  | init {root0 : U} {s : MerkleStorage U}
      (hinit : Merkle.init zeros levels .empty = (.ok (), s))
      (hroot : zeros[levels]? = some root0) :
      Grown compress zeros levels [root0] s
  | insert {roots : List U} {s s' t : MerkleStorage U} {a b hash : U}
      {index : Nat × Nat} (h : Grown compress zeros levels roots s)
      (hpath : pathHash compress levels index.1 a b s = (.ok hash, t))
      (hins : insertTwoLeaves compress a b s = (.ok index, s')) :
      Grown compress zeros levels (roots ++ [hash]) s'

/-- The ring of a grown tree, with the slot that holds the newest root. -/
structure HistoryInv (levels : Nat) (roots : List U) (s : MerkleStorage U) :
    Prop where
  nonempty : roots ≠ []
  counters : ∃ n, Counters levels n ((roots.length - 1) % rootHistorySize) s
  holds : Ring.Holds rootHistorySize roots s.root

theorem HistoryInv.length_pos {levels : Nat} {roots : List U} {s : MerkleStorage U}
    (h : HistoryInv levels roots s) : 0 < roots.length :=
  List.length_pos_iff.mpr h.nonempty

/-- A successful insertion writes the next root into the next slot. -/
theorem HistoryInv.insert {compress : U → U → Option U} {levels : Nat}
    {roots : List U} {s s' t : MerkleStorage U} (h : HistoryInv levels roots s)
    {a b hash : U} {index : Nat × Nat}
    (hpath : pathHash compress levels index.1 a b s = (.ok hash, t))
    (hins : insertTwoLeaves compress a b s = (.ok index, s')) :
    HistoryInv levels (roots ++ [hash]) s' := by
  obtain ⟨n, hcount⟩ := h.counters
  have hpos := h.length_pos
  obtain ⟨rfl, -, hash', t', hpath', ht, rfl, hcount'⟩ := insertTwoLeaves_ok hcount hins
  obtain ⟨rfl, rfl⟩ : hash' = hash ∧ t' = t := by
    rw [hpath'] at hpath
    simpa using hpath
  have hslot : ((roots.length - 1) % rootHistorySize + 1) % rootHistorySize
      = roots.length % rootHistorySize := by
    rw [Nat.mod_add_mod, Nat.sub_add_cancel hpos]
  refine ⟨by simp, ⟨n + 2, ?_⟩, ?_⟩
  · rw [List.length_append, List.length_singleton, Nat.add_sub_cancel, ← hslot]
    exact hcount'
  · have hroot : t'.root = s.root :=
      (congrArg MerkleStorage.root ht : t'.fixed.root = s.fixed.root)
    have hpush := Ring.holds_push (x := hash') h.holds
    rw [← hslot, ← hroot] at hpush
    exact hpush

theorem Grown.inv {compress : U → U → Option U} {zeros : List U} {levels : Nat}
    {roots : List U} {s : MerkleStorage U}
    (h : Grown compress zeros levels roots s) : HistoryInv levels roots s := by
  induction h with
  | init hinit hroot =>
      obtain ⟨hcount, ⟨r, hr, hslot⟩, hrest, -⟩ := init_ok hinit
      obtain rfl := Option.some.inj (hroot.symm.trans hr)
      exact ⟨by simp, ⟨0, hcount⟩, Ring.holds_single (by decide) _ hslot hrest⟩
  | insert h hpath hins ih => exact ih.insert hpath hins

/-! ## The search loop -/

theorem searchRound_run [DecidableEq U] (r : U) (current : Nat) {i : Nat}
    (hi : i < rootHistorySize) (s : MerkleStorage U) :
    searchRound r current i s =
      (.ok (if s.root i = some r then .inl true
        else if (i + 1) % rootHistorySize = current then .inl false
        else .inr ((i + 1) % rootHistorySize)), s) := by
  have hadd : checkedAddU32 i 1 = some (i + 1) :=
    if_pos (by rw [rootHistorySize] at hi; omega)
  rw [searchRound, read_bind, hadd]
  split
  · rfl
  · rw [okOr_some_bind]
    split <;> rfl

/-- The search from `t` slots past the current one, with `d` more slots to
go after it, ends. It finds `r` if one of these slots holds it, and looks at
them in order. -/
structure Searched [DecidableEq U] (r : U) (current t d fuel : Nat) (s : MerkleStorage U)
    (found : Bool) : Prop where
  run : loop (searchRound r current) fuel ((current + t) % rootHistorySize) s = (.ok found, s)
  found_iff : found = true ↔ ∃ u, t ≤ u ∧ u < rootHistorySize ∧
    s.root ((current + u) % rootHistorySize) = some r
  visits : loopVisits (searchRound r current) fuel ((current + t) % rootHistorySize) s
    <+: (List.range' t (d + 1)).map fun u => (current + u) % rootHistorySize

/-- The first slot holds `r`. -/
theorem Searched.here [DecidableEq U] {r : U} {current t : Nat} {s : MerkleStorage U}
    (ht : t < rootHistorySize) (hslot : s.root ((current + t) % rootHistorySize) = some r)
    (d fuel : Nat) : Searched r current t d (fuel + 1) s true := by
  have hround := searchRound_run r current
    (Nat.mod_lt (current + t) (by decide : 0 < rootHistorySize)) s
  rw [if_pos hslot] at hround
  refine ⟨loop_leave hround, iff_of_true rfl ⟨t, le_refl _, ht, hslot⟩, ?_⟩
  rw [loopVisits_leave hround]
  simp [List.range'_succ]

/-- The last slot does not hold `r`. -/
theorem Searched.nowhere [DecidableEq U] {r : U} {current t : Nat} {s : MerkleStorage U}
    (hc : current < rootHistorySize) (ht : t + 1 = rootHistorySize)
    (hslot : s.root ((current + t) % rootHistorySize) ≠ some r) (fuel : Nat) :
    Searched r current t 0 (fuel + 1) s false := by
  have hround := searchRound_run r current
    (Nat.mod_lt (current + t) (by decide : 0 < rootHistorySize)) s
  have hlast : ((current + t) % rootHistorySize + 1) % rootHistorySize = current := by
    rw [Nat.mod_add_mod, Nat.add_assoc, ht, Nat.add_mod_right, Nat.mod_eq_of_lt hc]
  rw [if_neg hslot, if_pos hlast] at hround
  refine ⟨loop_leave hround, iff_of_false (by simp) ?_, ?_⟩
  · rintro ⟨u, hu1, hu2, hu⟩
    obtain rfl : u = t := by omega
    exact hslot hu
  · rw [loopVisits_leave hround]
    simp

/-- The first slot does not hold `r`, and the search goes on with the next. -/
theorem Searched.next [DecidableEq U] {r : U} {current t d fuel : Nat}
    {s : MerkleStorage U} {found : Bool} (hc : current < rootHistorySize)
    (ht : t + 1 < rootHistorySize)
    (hslot : s.root ((current + t) % rootHistorySize) ≠ some r)
    (hs : Searched r current (t + 1) d fuel s found) :
    Searched r current t (d + 1) (fuel + 1) s found := by
  have hround := searchRound_run r current
    (Nat.mod_lt (current + t) (by decide : 0 < rootHistorySize)) s
  have hnext : ((current + t) % rootHistorySize + 1) % rootHistorySize
      = (current + (t + 1)) % rootHistorySize := Nat.mod_add_mod ..
  have hne : (current + (t + 1)) % rootHistorySize ≠ current := by
    intro heq
    have h0 : (current + (t + 1)) % rootHistorySize = (current + 0) % rootHistorySize := by
      rw [heq, Nat.add_zero, Nat.mod_eq_of_lt hc]
    have := Ring.offset_injective ht (by decide) h0
    omega
  rw [if_neg hslot, hnext, if_neg hne] at hround
  refine ⟨(loop_go_on hround).trans hs.run, hs.found_iff.trans ?_, ?_⟩
  · constructor
    · rintro ⟨u, hu1, hu2, hu⟩
      exact ⟨u, by omega, hu2, hu⟩
    · rintro ⟨u, hu1, hu2, hu⟩
      have hut : u ≠ t := by
        rintro rfl
        exact hslot hu
      exact ⟨u, by omega, hu2, hu⟩
  · rw [loopVisits_go_on hround, List.range'_succ, List.map_cons]
    exact List.prefix_cons_inj _ |>.mpr hs.visits

theorem search_outcome [DecidableEq U] (r : U) {current : Nat}
    (hc : current < rootHistorySize) (s : MerkleStorage U) :
    ∀ (d t fuel : Nat), t + d + 1 = rootHistorySize → d < fuel →
      ∃ found, Searched r current t d fuel s found := by
  intro d
  induction d with
  | zero =>
      intro t fuel ht hfuel
      obtain ⟨fuel, rfl⟩ : ∃ m, fuel = m + 1 := ⟨fuel - 1, by omega⟩
      by_cases hslot : s.root ((current + t) % rootHistorySize) = some r
      · exact ⟨true, .here (by omega) hslot 0 fuel⟩
      · exact ⟨false, .nowhere hc ht hslot fuel⟩
  | succ d ih =>
      intro t fuel ht hfuel
      obtain ⟨fuel, rfl⟩ : ∃ m, fuel = m + 1 := ⟨fuel - 1, by omega⟩
      by_cases hslot : s.root ((current + t) % rootHistorySize) = some r
      · exact ⟨true, .here (by omega) hslot (d + 1) fuel⟩
      · obtain ⟨found, hs⟩ := ih (t + 1) fuel (by omega) (by omega)
        exact ⟨found, hs.next hc (by omega) hslot⟩

/-- The whole search, from the current slot. -/
theorem search_all [DecidableEq U] (r : U) {current : Nat}
    (hc : current < rootHistorySize) (s : MerkleStorage U) :
    (∃ found, loop (searchRound r current) searchBudget current s = (.ok found, s) ∧
      (found = true ↔ ∃ j, j < rootHistorySize ∧ s.root j = some r)) ∧
      (loopVisits (searchRound r current) searchBudget current s).Nodup ∧
      ∀ j ∈ loopVisits (searchRound r current) searchBudget current s,
        j < rootHistorySize := by
  obtain ⟨found, hloop, hiff, hvisits⟩ :=
    search_outcome r hc s 89 0 searchBudget (by decide) (by decide)
  rw [Nat.add_zero, Nat.mod_eq_of_lt hc] at hloop hvisits
  refine ⟨⟨found, hloop, ?_⟩, ?_, fun j hj => ?_⟩
  · rw [hiff]
    constructor
    · rintro ⟨u, -, -, hslot⟩
      exact ⟨_, Nat.mod_lt _ (by decide), hslot⟩
    · rintro ⟨j, hj, hslot⟩
      obtain ⟨t, ht, rfl⟩ := Ring.exists_offset hc hj
      exact ⟨t, Nat.zero_le _, ht, hslot⟩
  · refine hvisits.sublist.nodup ?_
    refine List.Nodup.map_on ?_ List.nodup_range'
    intro t ht u hu heq
    rw [List.mem_range'_1] at ht hu
    exact Ring.offset_injective (by rw [rootHistorySize]; omega)
      (by rw [rootHistorySize]; omega) heq
  · obtain ⟨u, -, rfl⟩ := List.mem_map.mp (hvisits.subset hj)
    exact Nat.mod_lt _ (by decide)

theorem isKnownRoot_run [DecidableEq U] [Zero U] {levels : Nat} {roots : List U}
    {s : MerkleStorage U} (h : HistoryInv levels roots s) (r : U) :
    ∃ known, isKnownRoot r s = (.ok known, s) ∧
      (known = true ↔ r ≠ 0 ∧ r ∈ roots.drop (roots.length - rootHistorySize)) := by
  obtain ⟨n, hcount⟩ := h.counters
  obtain ⟨⟨found, hloop, hiff⟩, -⟩ := search_all r hcount.current_lt s
  by_cases hr : r = 0
  · refine ⟨false, ?_, by simp [hr]⟩
    rw [isKnownRoot, if_pos hr]
    rfl
  · refine ⟨found, ?_, ?_⟩
    · rw [isKnownRoot, if_neg hr, read_bind, hcount.current_eq, okOr_some_bind]
      exact hloop
    · rw [hiff, Ring.exists_slot_iff (by decide) h.holds, and_iff_right hr]

theorem getLastRoot_run {levels : Nat} {roots : List U} {s : MerkleStorage U}
    (h : HistoryInv levels roots s) :
    ∃ r, roots.getLast? = some r ∧ getLastRoot s = (.ok r, s) := by
  obtain ⟨n, hcount⟩ := h.counters
  obtain ⟨r, hr⟩ := Option.isSome_iff_exists.mp
    (List.getLast?_isSome.mpr h.nonempty)
  refine ⟨r, hr, ?_⟩
  rw [getLastRoot, read_bind, hcount.current_eq, okOr_some_bind,
    Ring.newest (by decide) h.holds hr]
  rfl

/-- A successful insertion makes some root the newest one. -/
theorem HistoryInv.grow {compress : U → U → Option U} {levels : Nat} {roots : List U}
    {s s' : MerkleStorage U} (h : HistoryInv levels roots s) {a b : U}
    {index : Nat × Nat} (hins : insertTwoLeaves compress a b s = (.ok index, s')) :
    ∃ hash, HistoryInv levels (roots ++ [hash]) s' ∧ getLastRoot s' = (.ok hash, s') := by
  obtain ⟨n, hcount⟩ := h.counters
  obtain ⟨rfl, -, hash, t, hpath, -⟩ := insertTwoLeaves_ok hcount hins
  have hinv := h.insert hpath hins
  obtain ⟨r, hr, hlast⟩ := getLastRoot_run hinv
  obtain rfl : hash = r := by simpa using hr
  exact ⟨hash, hinv, hlast⟩

/-! ## Refused insertions -/

theorem climbRound_err {compress : U → U → Option U} {lvl index : Nat} {hash : U}
    {s s' : MerkleStorage U} {e : MerkleError}
    (h : climbRound compress lvl hash index s = (.error (.err e), s')) :
    e = .notInitialized := by
  rw [climbRound] at h
  split at h
  · rw [read_bind] at h
    cases hl : s.filledSubtree lvl with
    | none =>
        rw [hl, okOr_none_bind] at h
        cases h
        rfl
    | some left =>
        rw [hl, okOr_some_bind] at h
        cases hc : compress left hash <;> simp [hc] at h
  · rw [update_bind, read_bind] at h
    cases hz : (s.setFilled lvl hash).zeroes lvl with
    | none =>
        rw [hz, okOr_none_bind] at h
        cases h
        rfl
    | some zero =>
        rw [hz, okOr_some_bind] at h
        cases hc : compress hash zero <;> simp [hc] at h

theorem climb_err {compress : U → U → Option U} {e : MerkleError} :
    ∀ {m lvl index : Nat} {hash : U} {s s' : MerkleStorage U},
      climb compress m lvl hash index s = (.error (.err e), s') → e = .notInitialized
  | 0, _, _, _, _, _, h => by cases h
  | m + 1, lvl, index, hash, s, s', h => by
      rw [climb] at h
      rcases hround : climbRound compress lvl hash index s with ⟨e' | up, t⟩
      · rw [bind_of_error hround] at h
        obtain rfl : e' = .err e := by
          have := congrArg Prod.fst h
          simpa using this
        exact climbRound_err hround
      · rw [bind_of_ok hround] at h
        exact climb_err h

theorem pathHash_err {compress : U → U → Option U} {levels n : Nat} {a b : U}
    {s s' : MerkleStorage U} {e : MerkleError}
    (h : pathHash compress levels n a b s = (.error (.err e), s')) :
    e = .notInitialized := by
  rw [pathHash] at h
  cases hc : compress a b with
  | none =>
      rw [hc] at h
      cases h
  | some hash =>
      rw [hc, orTrap_some_bind] at h
      exact climb_err h

/-- `MerkleTreeFull` is answered before anything is written. -/
theorem insertTwoLeaves_refused {compress : U → U → Option U} {levels n c : Nat}
    {s s' : MerkleStorage U} (h : Counters levels n c s) {a b : U}
    (href : insertTwoLeaves compress a b s = (.error (.err .merkleTreeFull), s')) :
    s' = s := by
  by_cases hfull : n = 2 ^ levels
  · rw [insertTwoLeaves_full h hfull] at href
    exact (congrArg Prod.snd href).symm
  · rw [insertTwoLeaves_of_room h (h.room hfull)] at href
    rcases hpath : pathHash compress levels n a b s with ⟨e | hash, t⟩
    · rw [bind_of_error hpath] at href
      obtain rfl : e = .err .merkleTreeFull := by
        have := congrArg Prod.fst href
        simpa using this
      have := pathHash_err hpath
      cases this
    · rw [bind_of_ok hpath] at href
      cases href

/-- A root is known exactly when it is one of the last ninety of the
chronological sequence and not zero; the newest root is the last of it; a
refused insertion changes nothing; the search looks at no slot twice.

`HistoryInv` ties the slots and the counter to the sequence of roots, so the
answers are those of the library's ring; the search visits the slots backwards
from the newest, each once (`search_all`). -/
theorem root_history_exact [DecidableEq U] [Zero U] {compress : U → U → Option U}
    {zeros : List U} {levels : Nat} {roots : List U} {s : MerkleStorage U}
    (h : Grown compress zeros levels roots s) :
    (∀ r, ∃ known, isKnownRoot r s = (.ok known, s) ∧
      (known = true ↔ r ≠ 0 ∧ r ∈ roots.drop (roots.length - rootHistorySize))) ∧
    (∃ r, roots.getLast? = some r ∧ getLastRoot s = (.ok r, s)) ∧
    (∀ a b s', insertTwoLeaves compress a b s = (.error (.err .merkleTreeFull), s') →
      s' = s) ∧
    ∀ r current, s.currentRootIndex = some current →
      (loopVisits (searchRound r current) searchBudget current s).Nodup ∧
      ∀ j ∈ loopVisits (searchRound r current) searchBudget current s,
        j < rootHistorySize := by
  have hinv := h.inv
  obtain ⟨n, hcount⟩ := hinv.counters
  refine ⟨isKnownRoot_run hinv, getLastRoot_run hinv,
    fun a b s' => insertTwoLeaves_refused hcount, fun r current hcur => ?_⟩
  rw [hcount.current_eq] at hcur
  obtain rfl := Option.some.inj hcur
  exact (search_all r hcount.current_lt s).2

/-! ## A tree of ninety-one insertions -/

/-- The greater of two naturals, as a hash. -/
def greater (x y : Nat) : Option Nat := some (max x y)

def noughts : List Nat := List.replicate 9 0

theorem full_max_le {leaf : Nat → Nat} {bound : Nat} (h : ∀ j, leaf j ≤ bound) :
    ∀ d i, BinaryTree.full max leaf d i ≤ bound
  | 0, i => h i
  | d + 1, i => max_le (full_max_le h d (2 * i)) (full_max_le h d (2 * i + 1))

theorem le_full_max (leaf : Nat → Nat) (j : Nat) :
    ∀ d, leaf j ≤ BinaryTree.full max leaf d (j / 2 ^ d)
  | 0 => by rw [pow_zero, Nat.div_one]; rfl
  | d + 1 => by
      have ih := le_full_max leaf j d
      rw [BinaryTree.full, ← div_pow_succ]
      rcases Nat.mod_two_eq_zero_or_one (j / 2 ^ d) with heven | hodd
      · rw [show 2 * (j / 2 ^ d / 2) = j / 2 ^ d by omega]
        exact ih.trans (le_max_left _ _)
      · rw [show 2 * (j / 2 ^ d / 2) + 1 = j / 2 ^ d by omega]
        exact ih.trans (le_max_right _ _)

/-- The pairs `(1, 1)`, `(2, 2)` and so on are inserted: the roots are `0`,
`1`, `2` and so on. -/
theorem grown_greater : ∀ k, k ≤ 128 → ∃ s c leaves,
    Grown greater noughts 8 (List.range (k + 1)) s ∧
    TreeInv greater (fun i => noughts.getD i 0) 8 c leaves s ∧ leaves.length = 2 * k ∧
    ∀ x ∈ leaves, x ≤ k := by
  have hpad : BinaryTree.IsPadding greater (fun i => noughts.getD i 0) 8 := by
    unfold BinaryTree.IsPadding
    decide
  intro k
  induction k with
  | zero =>
      intro _
      obtain ⟨s, hinit⟩ := @init_total Nat noughts 8 (by decide) (by decide) (by decide)
      exact ⟨s, 0, [], .init hinit rfl, init_inv hinit hpad, rfl, by simp⟩
  | succ k ih =>
      intro hk
      obtain ⟨s, c, leaves, hgrown, hinv, hlen, hle⟩ := ih (by omega)
      have hroom : leaves.length + 2 ≤ 2 ^ 8 := by omega
      rcases insertTwoLeaves_inv hinv hpad hroom (k + 1) (k + 1) with
        ⟨s', hins, hinv'⟩ | ⟨x, y, -, hnone, -⟩
      swap
      · cases hnone
      rcases pathHash_outcome hinv hpad (k + 1) (k + 1) with
        ⟨hash, t, hpath, hclimbed⟩ | ⟨x, y, -, hnone, -⟩
      swap
      · cases hnone
      -- the root is the greatest leaf, which is the newest
      have hnode := hclimbed.node_eq
      rw [Nat.div_eq_of_lt (by omega)] at hnode
      have hfull := @BinaryTree.node_eq_full Nat max Nat greater id (fun _ _ => rfl)
        (BinaryTree.padded (leaves ++ [k + 1, k + 1]) 0) 8 0
      have hhash : hash = k + 1 := by
        have heq : some hash = some (BinaryTree.full max
          (BinaryTree.padded (leaves ++ [k + 1, k + 1]) 0) 8 0) := hnode.symm.trans hfull
        rw [Option.some.inj heq]
        refine Nat.le_antisymm (full_max_le (fun j => ?_) 8 0) ?_
        · rcases Nat.lt_or_ge j (leaves ++ [k + 1, k + 1]).length with hj | hj
          · rw [BinaryTree.padded_of_lt hj]
            rcases List.mem_append.mp (List.getElem_mem hj) with hmem | hmem
            · exact (hle _ hmem).trans (Nat.le_succ k)
            · simp only [List.mem_cons, List.not_mem_nil, or_false, or_self] at hmem
              exact hmem.le
          · rw [BinaryTree.padded_of_le hj]
            exact Nat.zero_le _
        · have hlast := le_full_max (BinaryTree.padded (leaves ++ [k + 1, k + 1]) 0)
            leaves.length 8
          rw [Nat.div_eq_of_lt (by omega), BinaryTree.padded_of_lt (by simp),
            List.getElem_append_right (le_refl _)] at hlast
          simpa using hlast
      subst hhash
      refine ⟨s', _, leaves ++ [k + 1, k + 1], ?_, hinv', by simp [hlen]; omega, ?_⟩
      · rw [List.range_succ]
        exact .insert hgrown hpath hins
      · intro x hx
        rcases List.mem_append.mp hx with hmem | hmem
        · exact (hle _ hmem).trans (Nat.le_succ k)
        · simp only [List.mem_cons, List.not_mem_nil, or_false, or_self] at hmem
          exact hmem.le

/-- After ninety-one insertions the root `2` is the oldest that is known: `1`
was overwritten, and the newest is `91`. -/
theorem root_history_exact_ninety_one :
    ∃ s, Grown greater noughts 8 (List.range 92) s ∧
      isKnownRoot 2 s = (.ok true, s) ∧ isKnownRoot 1 s = (.ok false, s) ∧
      getLastRoot s = (.ok 91, s) := by
  obtain ⟨s, -, -, hgrown, -⟩ := grown_greater 91 (by decide)
  obtain ⟨hknown, ⟨last, hlast, hget⟩, -⟩ := root_history_exact hgrown
  obtain ⟨known, hrun, hiff⟩ := hknown 2
  obtain ⟨known', hrun', hiff'⟩ := hknown 1
  have hin : known = true := hiff.mpr (by decide +kernel)
  have hout : known' = false := by
    rw [← Bool.not_eq_true, hiff']
    decide +kernel
  have hninety : last = 91 := by
    rw [List.getLast?_range] at hlast
    cases hlast
    rfl
  subst hin hout hninety
  exact ⟨s, hgrown, hrun, hrun', hget⟩

end Merkle

end PrivacyWallet
