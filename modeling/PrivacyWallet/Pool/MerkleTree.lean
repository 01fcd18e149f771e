import PrivacyWallet.Lib.BinaryTree
import PrivacyWallet.Pool.Merkle

/-!
# The incremental tree computes the full tree

`insertTwoLeaves` touches one node per level; the tree it maintains is the
complete binary tree of depth `levels` on all the leaves inserted so far,
padded with the zero leaf. `TreeInv` says what the stored entries mean for
the number of leaves: at a level where the next pair will arrive as a right
child, the stored sibling is the finished subtree to its left, and at a
level where it arrives as a left child the entry is stale and not read.

The proof goes up from the arithmetic of positions:

- **positions** (`add_two_div_pow`): two more leaves move the position at a
  level by a carry or not at all, and a carry leaves an even one - so a level
  whose sibling is due has it stored by the pair before;
- **one walk** (`climb_outcome`): from a level on, the walk to the root
  panics in the hash, or succeeds with the node above and with just the
  entries of its left children overwritten (`Climbed`). The induction is on
  the number of levels; it never reads an entry that is missing or stale;
- **one insertion** (`insertTwoLeaves_inv`): the walk computes the root of
  the tree with the pair in it, because nodes that end before the new leaves
  are nodes of the old tree (`node_append`), and the siblings it leaves fit
  the new tree (`pathHash_outcome`);
- **a run** (`insertAll_inv`): the invariant along any successful
  insertions, from `init_inv`.

That insertions do succeed while there is room, and that a full tree refuses
before it writes, is counted apart from the tree (`Counters`,
`insertTwoLeaves_full`, `insertAll_total`). The hash may refuse inputs
throughout; only totality asks that it does not.
-/

namespace PrivacyWallet

namespace Merkle

open InvokeM PrivacyWallet.BinaryTree

variable {U : Type}

/-! ## Arithmetic of the path -/

theorem div_pow_succ (n l : Nat) : n / 2 ^ l / 2 = n / 2 ^ (l + 1) := by
  rw [Nat.div_div_eq_div_mul, pow_succ]

/-- Two more leaves move the position at level `l ≥ 1` by a carry or not
at all, and a carry leaves an even position. -/
theorem add_two_div_pow {n : Nat} (hn : n % 2 = 0) :
    ∀ {l : Nat}, 1 ≤ l →
      (n + 2) / 2 ^ l = n / 2 ^ l ∨ (n + 2) / 2 ^ l = n / 2 ^ l + 1
  | 1, _ => by rw [pow_one]; omega
  | l + 2, _ => by
      rcases add_two_div_pow hn (l := l + 1) (by omega) with h | h <;>
        rw [← div_pow_succ, ← div_pow_succ n, h] <;> omega

theorem one_le_of_odd {q : Nat} (h : q % 2 = 1) : 1 ≤ q := by omega

theorem div_pow_mul_le (n l : Nat) : n / 2 ^ l * 2 ^ l ≤ n :=
  Nat.div_mul_le_self n (2 ^ l)

theorem lt_div_pow_succ_mul (n l : Nat) : n < (n / 2 ^ l + 1) * 2 ^ l := by
  have := Nat.lt_div_mul_add (a := n) (Nat.two_pow_pos l)
  rw [Nat.add_mul, Nat.one_mul]; exact this

/-- The block of `2 ^ l` leaves around an even position reaches past it. -/
theorem add_two_le_block {n l : Nat} (hn : n % 2 = 0) (hl : 1 ≤ l) :
    n + 2 ≤ (n / 2 ^ l + 1) * 2 ^ l := by
  obtain ⟨m, rfl⟩ : ∃ m, l = m + 1 := ⟨l - 1, by omega⟩
  have := lt_div_pow_succ_mul n (m + 1)
  rw [pow_succ, ← Nat.mul_assoc] at this ⊢
  omega

/-! ## The walk to the root -/

@[simp] theorem MerkleStorage.setFilled_self (s : MerkleStorage U) (lvl : Nat)
    (v : U) : (s.setFilled lvl v).filledSubtree lvl = some v :=
  Function.update_self ..

theorem MerkleStorage.setFilled_of_ne (s : MerkleStorage U) {lvl l : Nat}
    (v : U) (h : l ≠ lvl) :
    (s.setFilled lvl v).filledSubtree l = s.filledSubtree l :=
  Function.update_of_ne h ..

/-- What a successful walk from level `lvl` over `m` levels leaves behind:
the node above it, and the entries of the levels where it was a left child
overwritten by its own nodes. -/
structure Climbed (compress : U → U → Option U) (leaf : Nat → U)
    (n lvl m : Nat) (hash : U) (s s' : MerkleStorage U) : Prop where
  node_eq : node compress leaf (lvl + m) (n / 2 ^ (lvl + m)) = some hash
  rest : s' = { s with filledSubtree := s'.filledSubtree }
  filled : ∀ l, s'.filledSubtree l =
    if lvl ≤ l ∧ l < lvl + m ∧ n / 2 ^ l % 2 = 0 then
      node compress leaf l (n / 2 ^ l)
    else s.filledSubtree l

/-- One level as a left child: the node is stored there and hashed with padding. -/
theorem climbRound_left (compress : U → U → Option U) {lvl index : Nat}
    (hash : U) {zero : U} {s : MerkleStorage U} (heven : index % 2 = 0)
    (hz : s.zeroes lvl = some zero) :
    climbRound compress lvl hash index s
      = orTrap (compress hash zero) (s.setFilled lvl hash) := by
  rw [climbRound, if_neg (by omega)]
  simp [MerkleStorage.setFilled, hz]

/-- One level as a right child: the stored sibling is read and hashed from the left. -/
theorem climbRound_right (compress : U → U → Option U) {lvl index : Nat}
    (hash : U) {left : U} {s : MerkleStorage U} (hodd : index % 2 = 1)
    (hl : s.filledSubtree lvl = some left) :
    climbRound compress lvl hash index s = orTrap (compress left hash) s := by
  rw [climbRound, if_pos hodd]
  simp [hl]

/-- The node above a left child. -/
theorem node_above_left {compress : U → U → Option U} {leaf : Nat → U} {n lvl : Nat}
    {hash right : U} (heven : n / 2 ^ lvl % 2 = 0)
    (hnode : node compress leaf lvl (n / 2 ^ lvl) = some hash)
    (hright : node compress leaf lvl (n / 2 ^ lvl + 1) = some right) :
    node compress leaf (lvl + 1) (n / 2 ^ (lvl + 1)) = compress hash right := by
  rw [← div_pow_succ]
  refine node_succ_of ?_ ?_
  · rw [show 2 * (n / 2 ^ lvl / 2) = n / 2 ^ lvl by omega]
    exact hnode
  · rw [show 2 * (n / 2 ^ lvl / 2) + 1 = n / 2 ^ lvl + 1 by omega]
    exact hright

/-- The node above a right child. -/
theorem node_above_right {compress : U → U → Option U} {leaf : Nat → U} {n lvl : Nat}
    {left hash : U} (hodd : n / 2 ^ lvl % 2 = 1)
    (hleft : node compress leaf lvl (n / 2 ^ lvl - 1) = some left)
    (hnode : node compress leaf lvl (n / 2 ^ lvl) = some hash) :
    node compress leaf (lvl + 1) (n / 2 ^ (lvl + 1)) = compress left hash := by
  rw [← div_pow_succ]
  refine node_succ_of ?_ ?_
  · rw [show 2 * (n / 2 ^ lvl / 2) = n / 2 ^ lvl - 1 by omega]
    exact hleft
  · rw [show 2 * (n / 2 ^ lvl / 2) + 1 = n / 2 ^ lvl by omega]
    exact hnode

/-- A walk that starts with a left child, whose node it stores. -/
theorem Climbed.of_left {compress : U → U → Option U} {leaf : Nat → U} {n lvl m : Nat}
    {hash hash' : U} {s s' : MerkleStorage U} (heven : n / 2 ^ lvl % 2 = 0)
    (hnode : node compress leaf lvl (n / 2 ^ lvl) = some hash)
    (hcl : Climbed compress leaf n (lvl + 1) m hash' (s.setFilled lvl hash) s') :
    Climbed compress leaf n lvl (m + 1) hash' s s' where
  node_eq := by
    rw [show lvl + (m + 1) = lvl + 1 + m by omega]
    exact hcl.node_eq
  rest := by
    rw [hcl.rest]
    rfl
  filled := by
    intro l
    rw [hcl.filled l]
    by_cases hlv : l = lvl
    · subst hlv
      rw [if_neg (by omega), if_pos ⟨le_refl _, by omega, heven⟩, hnode,
        MerkleStorage.setFilled_self]
    · rw [s.setFilled_of_ne hash hlv]
      congr 1
      simp only [eq_iff_iff]
      constructor <;> rintro ⟨h1, h2, h3⟩ <;> exact ⟨by omega, by omega, h3⟩

/-- A walk that starts with a right child, which is not stored. -/
theorem Climbed.of_right {compress : U → U → Option U} {leaf : Nat → U} {n lvl m : Nat}
    {hash' : U} {s s' : MerkleStorage U} (hodd : n / 2 ^ lvl % 2 = 1)
    (hcl : Climbed compress leaf n (lvl + 1) m hash' s s') :
    Climbed compress leaf n lvl (m + 1) hash' s s' where
  node_eq := by
    rw [show lvl + (m + 1) = lvl + 1 + m by omega]
    exact hcl.node_eq
  rest := hcl.rest
  filled := by
    intro l
    rw [hcl.filled l]
    congr 1
    simp only [eq_iff_iff]
    constructor
    · rintro ⟨h1, h2, h3⟩
      exact ⟨by omega, by omega, h3⟩
    · rintro ⟨h1, h2, h3⟩
      have hne : l ≠ lvl := by
        rintro rfl
        omega
      exact ⟨by omega, by omega, h3⟩

/-- The walk succeeds as `Climbed` describes or the hash panics. It never
reads an entry that is not there, when the left siblings it needs are
stored (`hleft`) and its right siblings are padding (`hright`). -/
theorem climb_outcome {compress : U → U → Option U} {leaf : Nat → U}
    {zf : Nat → U} {n : Nat} :
    ∀ (m lvl : Nat) (hash : U) (s : MerkleStorage U),
      node compress leaf lvl (n / 2 ^ lvl) = some hash →
      (∀ l, lvl ≤ l → l < lvl + m → s.zeroes l = some (zf l)) →
      (∀ l, lvl ≤ l → l < lvl + m → n / 2 ^ l % 2 = 0 →
        node compress leaf l (n / 2 ^ l + 1) = some (zf l)) →
      (∀ l, lvl ≤ l → l < lvl + m → n / 2 ^ l % 2 = 1 →
        ∃ v, s.filledSubtree l = some v ∧
          node compress leaf l (n / 2 ^ l - 1) = some v) →
      (∃ hash' s', climb compress m lvl hash (n / 2 ^ lvl) s = (.ok hash', s') ∧
          Climbed compress leaf n lvl m hash' s s')
        ∨ ∃ x y s', compress x y = none ∧
          climb compress m lvl hash (n / 2 ^ lvl) s = (.error .trap, s') := by
  intro m
  induction m with
  | zero =>
      intro lvl hash s hnode _ _ _
      refine Or.inl ⟨hash, s, rfl, ⟨hnode, rfl, fun l => ?_⟩⟩
      rw [if_neg (by omega)]
  | succ m ih =>
      intro lvl hash s hnode hzero hright hleft
      rw [climb, div_pow_succ n lvl]
      rcases Nat.mod_two_eq_zero_or_one (n / 2 ^ lvl) with heven | hodd
      · -- a left child: its node is stored and paired with the zero hash
        have hup := node_above_left heven hnode (hright lvl (le_refl _) (by omega) heven)
        have hround := climbRound_left compress hash heven
          (hzero lvl (le_refl _) (by omega))
        cases hc : compress hash (zf lvl) with
        | none =>
            rw [hc] at hround
            exact Or.inr ⟨_, _, _, hc, bind_of_error hround⟩
        | some up =>
            rw [hc] at hround
            rw [bind_of_ok hround]
            rcases ih (lvl + 1) up (s.setFilled lvl hash) (hup.trans hc)
              (fun l hl hl' => hzero l (by omega) (by omega))
              (fun l hl hl' => hright l (by omega) (by omega))
              (fun l hl hl' hpar => by
                obtain ⟨v, hv, hvn⟩ := hleft l (by omega) (by omega) hpar
                exact ⟨v, (s.setFilled_of_ne hash (by omega)).trans hv, hvn⟩)
              with ⟨hash', s', hok, hcl⟩ | hpanic
            · exact Or.inl ⟨hash', s', hok, hcl.of_left heven hnode⟩
            · exact Or.inr hpanic
      · -- a right child: its left sibling is stored
        obtain ⟨v, hv, hvn⟩ := hleft lvl (le_refl _) (by omega) hodd
        have hup := node_above_right hodd hvn hnode
        have hround := climbRound_right compress hash hodd hv
        cases hc : compress v hash with
        | none =>
            rw [hc] at hround
            exact Or.inr ⟨_, _, _, hc, bind_of_error hround⟩
        | some up =>
            rw [hc] at hround
            rw [bind_of_ok hround]
            rcases ih (lvl + 1) up s (hup.trans hc)
              (fun l hl hl' => hzero l (by omega) (by omega))
              (fun l hl hl' => hright l (by omega) (by omega))
              (fun l hl hl' => hleft l (by omega) (by omega))
              with ⟨hash', s', hok, hcl⟩ | hpanic
            · exact Or.inl ⟨hash', s', hok, hcl.of_right hodd⟩
            · exact Or.inr hpanic

/-! ## One insertion -/

/-- The storage of a tree of depth `levels` after `n` leaves, with the
current root in slot `c`. -/
structure Counters (levels n c : Nat) (s : MerkleStorage U) : Prop where
  levels_eq : s.levels = some levels
  next_eq : s.nextIndex = some n
  current_eq : s.currentRootIndex = some c
  levels_pos : 1 ≤ levels
  levels_le : levels ≤ 32
  even : n % 2 = 0
  le : n ≤ 2 ^ levels
  current_lt : c < rootHistorySize

theorem Counters.le_capacity {levels n c : Nat} {s : MerkleStorage U}
    (h : Counters levels n c s) : n ≤ 2 ^ 32 :=
  h.le.trans (Nat.pow_le_pow_right (by omega) h.levels_le)

/-- `2 ^ levels` is even, so there is room for a pair or none at all. -/
theorem Counters.room {levels n c : Nat} {s : MerkleStorage U}
    (h : Counters levels n c s) (hne : n ≠ 2 ^ levels) : n + 2 ≤ 2 ^ levels := by
  have hl := h.levels_pos
  have he := h.even
  have hle := h.le
  obtain ⟨m, rfl⟩ : ∃ m, levels = m + 1 := ⟨levels - 1, by omega⟩
  rw [pow_succ] at *
  omega

/-- A full tree refuses the pair before anything is written. -/
theorem insertTwoLeaves_full {compress : U → U → Option U} {levels n c : Nat}
    {s : MerkleStorage U} (h : Counters levels n c s) (hfull : n = 2 ^ levels)
    (a b : U) :
    insertTwoLeaves compress a b s = (.error (.err .merkleTreeFull), s) := by
  have hcap := h.le_capacity
  have hl := h.levels_le
  rw [insertTwoLeaves, read_bind, h.levels_eq, okOr_some_bind, h.next_eq,
    okOr_some_bind, h.current_eq, okOr_some_bind,
    show checkedShlOneU64 levels = some (2 ^ levels) from if_pos (by omega),
    okOr_some_bind, rejectIf_bind_of_not (by have := h.even; omega),
    show checkedAddU64 n 2 = some (n + 2) from if_pos (by omega),
    okOr_some_bind, rejectIf_bind_of (by omega)]

/-- With room left, an insertion is the path hash followed by the writes of
the new root and the new index, which cannot fail. -/
theorem insertTwoLeaves_of_room {compress : U → U → Option U}
    {levels n c : Nat} {s : MerkleStorage U} (h : Counters levels n c s)
    (hroom : n + 2 ≤ 2 ^ levels) (a b : U) :
    insertTwoLeaves compress a b s
      = (pathHash compress levels n a b >>= fun hash => do
          update fun t => t.setRoot ((c + 1) % rootHistorySize) hash
          update fun t => { t with nextIndex := some (n + 2) }
          pure (n, n + 1)) s := by
  have hcap := h.le_capacity
  have hl := h.levels_le
  have hpow : 2 ^ levels ≤ 2 ^ 32 := Nat.pow_le_pow_right (by omega) hl
  have hc := h.current_lt
  rw [rootHistorySize] at hc
  rw [insertTwoLeaves, read_bind, h.levels_eq, okOr_some_bind, h.next_eq,
    okOr_some_bind, h.current_eq, okOr_some_bind,
    show checkedShlOneU64 levels = some (2 ^ levels) from if_pos (by omega),
    okOr_some_bind, rejectIf_bind_of_not (by have := h.even; omega),
    show checkedAddU64 n 2 = some (n + 2) from if_pos (by omega),
    okOr_some_bind, rejectIf_bind_of_not (by omega)]
  refine bind_congr rfl fun hash t _ => ?_
  rw [show checkedAddU32 c 1 = some (c + 1) from if_pos (by omega),
    okOr_some_bind, update_bind, okOr_some_bind, update_bind,
    show u32TryFrom n = some n from if_pos (by omega), okOr_some_bind,
    show checkedAddU64 n 1 = some (n + 1) from if_pos (by omega),
    okOr_some_bind, show u32TryFrom (n + 1) = some (n + 1) from if_pos (by omega),
    okOr_some_bind]
  rfl

/-- Everything but the left siblings, which is what hashing a path leaves
alone. -/
def MerkleStorage.fixed (s : MerkleStorage U) : MerkleStorage U :=
  { s with filledSubtree := fun _ => none }

theorem climbRound_frame (compress : U → U → Option U) (lvl : Nat) (hash : U)
    (index : Nat) :
    Frame MerkleStorage.fixed (climbRound compress lvl hash index) := by
  unfold climbRound
  refine Frame.ite ?_ ?_
  · exact Frame.read.bind fun s => (Frame.okOr ..).bind fun _ => Frame.orTrap _
  · refine Frame.bind (Frame.update fun s => rfl) fun _ => ?_
    exact Frame.read.bind fun s => (Frame.okOr ..).bind fun _ => Frame.orTrap _

theorem climb_frame (compress : U → U → Option U) :
    ∀ (m lvl : Nat) (hash : U) (index : Nat),
      Frame MerkleStorage.fixed (climb compress m lvl hash index)
  | 0, _, _, _ => Frame.pure _
  | m + 1, lvl, hash, index =>
      (climbRound_frame compress lvl hash index).bind fun up =>
        climb_frame compress m (lvl + 1) up (index / 2)

theorem pathHash_frame (compress : U → U → Option U) (levels n : Nat) (a b : U) :
    Frame MerkleStorage.fixed (pathHash compress levels n a b) :=
  (Frame.orTrap _).bind fun _ => climb_frame ..

theorem Counters.of_fixed {levels n c : Nat} {s t : MerkleStorage U}
    (h : Counters levels n c s) (ht : t.fixed = s.fixed) :
    Counters levels n c t where
  levels_eq := (congrArg MerkleStorage.levels ht).trans h.levels_eq
  next_eq := (congrArg MerkleStorage.nextIndex ht).trans h.next_eq
  current_eq := (congrArg MerkleStorage.currentRootIndex ht).trans h.current_eq
  levels_pos := h.levels_pos
  levels_le := h.levels_le
  even := h.even
  le := h.le
  current_lt := h.current_lt

/-- The storage after a pair was inserted: the new root in the next slot of
the ring, and an index that is two higher. -/
def MerkleStorage.pushed (t : MerkleStorage U) (n c : Nat) (hash : U) :
    MerkleStorage U :=
  { t.setRoot ((c + 1) % rootHistorySize) hash with nextIndex := some (n + 2) }

/-- Counting does not look at the tree: a pair takes two indices and one slot of the
ring. -/
theorem Counters.pushed {levels n c : Nat} {t : MerkleStorage U}
    (h : Counters levels n c t) (hroom : n + 2 ≤ 2 ^ levels) (hash : U) :
    Counters levels (n + 2) ((c + 1) % rootHistorySize) (t.pushed n c hash) where
  levels_eq := h.levels_eq
  next_eq := rfl
  current_eq := rfl
  levels_pos := h.levels_pos
  levels_le := h.levels_le
  even := by have := h.even; omega
  le := hroom
  current_lt := Nat.mod_lt _ (by decide)

/-- A successful insertion, whatever the hash is. -/
theorem insertTwoLeaves_ok {compress : U → U → Option U} {levels n c : Nat}
    {s s' : MerkleStorage U} (h : Counters levels n c s) {a b : U}
    {index : Nat × Nat} (hok : insertTwoLeaves compress a b s = (.ok index, s')) :
    index = (n, n + 1) ∧ n + 2 ≤ 2 ^ levels ∧
      ∃ hash t, pathHash compress levels n a b s = (.ok hash, t) ∧
        t.fixed = s.fixed ∧ s' = t.pushed n c hash ∧
        Counters levels (n + 2) ((c + 1) % rootHistorySize) s' := by
  have hne : n ≠ 2 ^ levels := fun hfull => by
    rw [insertTwoLeaves_full h hfull] at hok
    cases hok
  have hroom := h.room hne
  rw [insertTwoLeaves_of_room h hroom, bind_eq_ok] at hok
  obtain ⟨hash, t, hpath, hrest⟩ := hok
  have ht : t.fixed = s.fixed := (pathHash_frame ..).eq_of_ok hpath
  rw [update_bind, update_bind, pure_eq_ok] at hrest
  obtain ⟨rfl, rfl⟩ := hrest
  exact ⟨rfl, hroom, hash, t, hpath, ht, rfl, (h.of_fixed ht).pushed hroom hash⟩

/-! ## What the stored siblings mean -/

/-- The storage holds the complete tree on `leaves`: `zf l` is the padding
hash of depth `l`, the sibling stored at a level where the next pair arrives
on the right is the finished subtree on the left, and the current root is
the root of the whole tree. -/
structure TreeInv (compress : U → U → Option U) (zf : Nat → U) (levels c : Nat)
    (leaves : List U) (s : MerkleStorage U) : Prop
    extends Counters levels leaves.length c s where
  zeroes_eq : ∀ l, l ≤ levels → s.zeroes l = some (zf l)
  filled : ∀ l, 1 ≤ l → l < levels → leaves.length / 2 ^ l % 2 = 1 →
    ∃ v, s.filledSubtree l = some v ∧
      node compress (padded leaves (zf 0)) l (leaves.length / 2 ^ l - 1) = some v
  root_eq : ∃ r, s.root c = some r ∧
    BinaryTree.root compress (padded leaves (zf 0)) levels = some r

/-- Nodes that end before the new leaves are nodes of the old tree. -/
theorem node_append {compress : U → U → Option U} {leaves more : List U} {z : U}
    {l i : Nat} (hi : (i + 1) * 2 ^ l ≤ leaves.length) :
    node compress (padded (leaves ++ more) z) l i
      = node compress (padded leaves z) l i :=
  node_congr fun j _ hj => padded_append_of_lt (by omega)

/-- Hashing the path of a new pair: it panics, or it computes the root of the
tree with the pair in it and leaves siblings that fit that tree. The walk
starts as a left or a right child, by the digit of the index, and goes up level
by level. -/
theorem pathHash_outcome {compress : U → U → Option U} {zf : Nat → U}
    {levels c : Nat} {leaves : List U} {s : MerkleStorage U}
    (h : TreeInv compress zf levels c leaves s)
    (hz : IsPadding compress zf levels) (a b : U) :
    (∃ hash t, pathHash compress levels leaves.length a b s = (.ok hash, t) ∧
        Climbed compress (padded (leaves ++ [a, b]) (zf 0)) leaves.length 1
          (levels - 1) hash s t)
      ∨ ∃ x y t, compress x y = none ∧
        pathHash compress levels leaves.length a b s = (.error .trap, t) := by
  have hl := h.levels_pos
  have hnode : node compress (padded (leaves ++ [a, b]) (zf 0)) 1
      (leaves.length / 2) = compress a b := by
    have heven := h.even
    refine node_succ_of ?_ ?_
    · rw [show 2 * (leaves.length / 2) = leaves.length by omega]
      simp [node, padded_of_lt]
    · rw [show 2 * (leaves.length / 2) + 1 = leaves.length + 1 by omega]
      simp [node, padded_of_lt]
  rw [pathHash]
  cases hc : compress a b with
  | none => exact Or.inr ⟨a, b, s, hc, rfl⟩
  | some hash =>
      rw [orTrap_some_bind]
      rw [hc] at hnode
      have hout := @climb_outcome _ compress (padded (leaves ++ [a, b]) (zf 0)) zf
        leaves.length (levels - 1) 1 hash s (by rw [pow_one]; exact hnode)
        (fun l _ hl' => h.zeroes_eq l (by omega))
        (fun l hl1 hl' _ => node_padding hz (by omega) fun j hj _ => padded_of_le (by
          have := add_two_le_block h.even hl1
          simp only [List.length_append, List.length_cons, List.length_nil]
          omega))
        (fun l hl1 hl' hodd => by
          obtain ⟨v, hv, hvn⟩ := h.filled l hl1 (by omega) hodd
          refine ⟨v, hv, (node_append ?_).trans hvn⟩
          rw [Nat.sub_add_cancel (one_le_of_odd hodd)]
          exact div_pow_mul_le leaves.length l)
      rw [pow_one] at hout
      exact hout

/-- One insertion into a tree with room: it panics, or the storage holds the
tree with the pair in it. A level above the leaves either had its left sibling
already, which the walk leaves, or the pair completes one there, which the walk
stores: the digits of the next index tell which (`add_two_div_pow`). -/
theorem insertTwoLeaves_inv {compress : U → U → Option U} {zf : Nat → U}
    {levels c : Nat} {leaves : List U} {s : MerkleStorage U}
    (h : TreeInv compress zf levels c leaves s)
    (hz : IsPadding compress zf levels) (hroom : leaves.length + 2 ≤ 2 ^ levels)
    (a b : U) :
    (∃ s', insertTwoLeaves compress a b s
          = (.ok (leaves.length, leaves.length + 1), s') ∧
        TreeInv compress zf levels ((c + 1) % rootHistorySize) (leaves ++ [a, b]) s')
      ∨ ∃ x y s', compress x y = none ∧
        insertTwoLeaves compress a b s = (.error .trap, s') := by
  rw [insertTwoLeaves_of_room h.toCounters hroom]
  rcases pathHash_outcome h hz a b with ⟨hash, t, hpath, hcl⟩ | ⟨x, y, t, hc, htrap⟩
  · refine Or.inl ⟨t.pushed leaves.length c hash, ?_, ?_⟩
    · rw [bind_of_ok hpath]; rfl
    have ht : t.fixed = s.fixed := (pathHash_frame ..).eq_of_ok hpath
    have hl := h.levels_pos
    have hlen : (leaves ++ [a, b]).length = leaves.length + 2 := by simp
    have hcount := (h.toCounters.of_fixed ht).pushed hroom hash
    rw [← hlen] at hcount
    refine { toCounters := hcount, zeroes_eq := fun l hl' => ?_,
             filled := fun l hl1 hl' hodd => ?_, root_eq := ⟨hash, ?_, ?_⟩ }
    · exact (congrFun (congrArg MerkleStorage.zeroes ht) l).trans (h.zeroes_eq l hl')
    · rw [hlen] at hodd ⊢
      show ∃ v, t.filledSubtree l = some v ∧ _
      rw [hcl.filled l]
      rcases add_two_div_pow h.even hl1 with hsame | hcarry
      · -- no carry: the sibling was already there and was not overwritten
        rw [hsame] at hodd ⊢
        rw [if_neg (by omega)]
        obtain ⟨v, hv, hvn⟩ := h.filled l hl1 hl' hodd
        refine ⟨v, hv, (node_append ?_).trans hvn⟩
        rw [Nat.sub_add_cancel (one_le_of_odd hodd)]
        exact div_pow_mul_le leaves.length l
      · -- a carry: the walk has just stored the finished left sibling
        rw [hcarry] at hodd ⊢
        rw [if_pos ⟨hl1, by omega, by omega⟩, Nat.add_sub_cancel]
        have hroot := hcl.node_eq
        rw [show 1 + (levels - 1) = l + (levels - l) by omega] at hroot
        obtain ⟨v, hv⟩ := node_path_some hroot
        exact ⟨v, hv, hv⟩
    · exact Function.update_self ..
    · have hroot := hcl.node_eq
      rw [show 1 + (levels - 1) = levels by omega,
        Nat.div_eq_of_lt (by omega)] at hroot
      exact hroot
  · exact Or.inr ⟨x, y, t, hc, bind_of_error htrap⟩

/-! ## From initialization through any number of insertions -/

theorem forEach_initLevel_ok {zeros : List U} :
    ∀ {l : List Nat} {s s' : MerkleStorage U} {u : Unit},
      forEach (initLevel zeros) l s = (.ok u, s') →
        (∀ i ∈ l, s'.zeroes i = zeros[i]? ∧ (zeros[i]?).isSome = true) ∧
        (∀ i, i ∉ l → s'.zeroes i = s.zeroes i) ∧
        s'.levels = s.levels ∧ s'.root = s.root
  | [], s, s', u, h => by
      obtain ⟨-, rfl⟩ := pure_eq_ok.mp h
      simp
  | j :: l, s, s', u, h => by
      obtain ⟨u', t, hj, hl⟩ := bind_eq_ok.mp h
      obtain ⟨z, t', hz, ht⟩ := bind_eq_ok.mp hj
      obtain ⟨hzj, rfl⟩ := okOr_eq_ok.mp hz
      obtain rfl := update_eq_ok.mp ht
      obtain ⟨hmem, hout, hlev, hroot⟩ := forEach_initLevel_ok hl
      refine ⟨fun i hi => ?_, fun i hi => ?_, hlev, hroot⟩
      · by_cases hil : i ∈ l
        · exact hmem i hil
        · obtain rfl : i = j := by simpa [hil] using hi
          rw [hout i hil, hzj]
          exact ⟨Function.update_self .., rfl⟩
      · rw [List.mem_cons, not_or] at hi
        rw [hout i hi.2]
        exact Function.update_of_ne hi.1 ..

/-- A successful initialization of an empty storage. -/
theorem init_ok {zeros : List U} {levels : Nat} {s : MerkleStorage U} {u : Unit}
    (h : init zeros levels .empty = (.ok u, s)) :
    Counters levels 0 0 s ∧
      (∃ root0, zeros[levels]? = some root0 ∧ s.root 0 = some root0) ∧
      (∀ j, j ≠ 0 → s.root j = none) ∧
      ∀ i, i ≤ levels → s.zeroes i = zeros[i]? ∧ (zeros[i]?).isSome = true := by
  obtain ⟨_, s₁, h1, h⟩ := bind_eq_ok.mp h
  obtain ⟨hrange, rfl⟩ := rejectIf_eq_ok.mp h1
  obtain ⟨_, s₂, h2, h⟩ := bind_eq_ok.mp h
  obtain ⟨rfl, rfl⟩ := read_eq_ok.mp h2
  obtain ⟨_, s₃, h3, h⟩ := bind_eq_ok.mp h
  obtain ⟨-, rfl⟩ := rejectIf_eq_ok.mp h3
  rw [update_bind] at h
  obtain ⟨_, s₄, h4, h⟩ := bind_eq_ok.mp h
  obtain ⟨hmem, -, hlev, hroot⟩ := forEach_initLevel_ok h4
  obtain ⟨root0, s₅, h5, h⟩ := bind_eq_ok.mp h
  obtain ⟨hz0, rfl⟩ := okOr_eq_ok.mp h5
  rw [update_bind, update_eq_ok] at h
  subst h
  refine ⟨⟨hlev, rfl, rfl, by omega, by omega, rfl, Nat.zero_le _, by decide⟩,
    ⟨root0, hz0, ?_⟩, fun j hj => ?_, fun i hi => ?_⟩
  · show Function.update s₄.root 0 (some root0) 0 = some root0
    rw [Function.update_self]
  · show Function.update s₄.root 0 (some root0) j = none
    rw [Function.update_of_ne hj, hroot]
    rfl
  · exact hmem i (List.mem_range.mpr (by omega))

/-- `get_zeroes` lists padding hashes: each entry is the hash of the entry
before it with itself. -/
def ZerosOk (compress : U → U → Option U) (zeros : List U) : Prop :=
  ∀ i z z', zeros[i]? = some z → zeros[i + 1]? = some z' → compress z z = some z'

theorem ZerosOk.isPadding {compress : U → U → Option U} {zeros : List U}
    (hz : ZerosOk compress zeros) {levels : Nat} {z0 : U}
    (hlen : ∀ i, i ≤ levels → (zeros[i]?).isSome = true) :
    IsPadding compress (fun i => zeros.getD i z0) levels := by
  intro d hd
  obtain ⟨z, hzd⟩ := Option.isSome_iff_exists.mp (hlen d (by omega))
  obtain ⟨z', hzd'⟩ := Option.isSome_iff_exists.mp (hlen (d + 1) (by omega))
  simp only [List.getD_eq_getElem?_getD, hzd, hzd', Option.getD_some]
  exact hz d z z' hzd hzd'

/-- The tree right after initialization is the tree on no leaves. -/
theorem init_inv {compress : U → U → Option U} {zeros : List U} {levels : Nat}
    {s : MerkleStorage U} {u : Unit}
    (h : init zeros levels .empty = (.ok u, s)) {z0 : U}
    (hpad : IsPadding compress (fun i => zeros.getD i z0) levels) :
    TreeInv compress (fun i => zeros.getD i z0) levels 0 [] s := by
  obtain ⟨hcount, ⟨root0, hr, hs⟩, -, hzero⟩ := init_ok h
  refine { toCounters := hcount, zeroes_eq := fun l hl => ?_,
           filled := fun l _ _ hodd => ?_, root_eq := ⟨root0, hs, ?_⟩ }
  · obtain ⟨heq, hsome⟩ := hzero l hl
    obtain ⟨z, hz⟩ := Option.isSome_iff_exists.mp hsome
    rw [heq, hz, List.getD_eq_getElem?_getD, hz, Option.getD_some]
  · rw [List.length_nil, Nat.zero_div] at hodd
    cases hodd
  · rw [BinaryTree.root, node_padding hpad (le_refl _) fun j _ _ => padded_of_le (by simp)]
    rw [List.getD_eq_getElem?_getD, hr, Option.getD_some]

/-- A sequence of successful insertions, with the index pairs they return. -/
def insertAll (compress : U → U → Option U) :
    List (U × U) → MerkleM U (List (Nat × Nat))
  | [] => pure []
  | p :: ps => do
      let index ← insertTwoLeaves compress p.1 p.2
      let rest ← insertAll compress ps
      pure (index :: rest)

/-- The leaves of inserted pairs, in order. -/
def leavesOf (ps : List (U × U)) : List U := ps.flatMap fun p => [p.1, p.2]

theorem leavesOf_length (ps : List (U × U)) :
    (leavesOf ps).length = 2 * ps.length := by
  induction ps with
  | nil => rfl
  | cons p ps ih =>
      rw [leavesOf, List.flatMap_cons, List.length_append, ← leavesOf, ih]
      simp; omega

/-- The index pairs of `k` insertions into a tree of `n` leaves. -/
def indexPairs (n k : Nat) : List (Nat × Nat) :=
  (List.range k).map fun i => (n + 2 * i, n + 2 * i + 1)

theorem indexPairs_succ (n k : Nat) :
    indexPairs n (k + 1) = (n, n + 1) :: indexPairs (n + 2) k := by
  rw [indexPairs, List.range_succ_eq_map, List.map_cons, List.map_map]
  refine congrArg₂ List.cons rfl (List.map_congr_left fun i _ => ?_)
  simp only [Function.comp_apply, Prod.mk.injEq, Nat.succ_eq_add_one]
  omega

/-- The invariant along a whole run of insertions. -/
theorem insertAll_inv {compress : U → U → Option U} {zf : Nat → U} {levels : Nat}
    (hz : IsPadding compress zf levels) :
    ∀ {ps : List (U × U)} {c : Nat} {leaves : List U} {s s' : MerkleStorage U}
      {indices : List (Nat × Nat)},
      TreeInv compress zf levels c leaves s →
      insertAll compress ps s = (.ok indices, s') →
        (∃ c', TreeInv compress zf levels c' (leaves ++ leavesOf ps) s') ∧
        indices = indexPairs leaves.length ps.length
  | [], c, leaves, s, s', indices, h, hrun => by
      obtain ⟨rfl, rfl⟩ := pure_eq_ok.mp hrun
      exact ⟨⟨c, by simpa [leavesOf] using h⟩, rfl⟩
  | p :: ps, c, leaves, s, s', indices, h, hrun => by
      obtain ⟨index, s₁, hins, hrest⟩ := bind_eq_ok.mp hrun
      obtain ⟨rest, s₂, hall, hret⟩ := bind_eq_ok.mp hrest
      obtain ⟨rfl, rfl⟩ := pure_eq_ok.mp hret
      obtain ⟨rfl, hroom, -⟩ := insertTwoLeaves_ok h.toCounters hins
      rcases insertTwoLeaves_inv h hz hroom p.1 p.2 with ⟨s₃, hok, hinv⟩ | ⟨x, y, s₃, -, htrap⟩
      · obtain rfl : s₃ = s₁ := by
          rw [hok] at hins; exact congrArg Prod.snd hins
        obtain ⟨⟨c', hinv'⟩, hidx⟩ := insertAll_inv hz hinv hall
        refine ⟨⟨c', ?_⟩, ?_⟩
        · simpa [leavesOf, List.append_assoc] using hinv'
        · rw [hidx, List.length_cons, indexPairs_succ]
          simp
      · rw [htrap] at hins
        cases hins

theorem getLastRoot_of_inv {compress : U → U → Option U} {zf : Nat → U}
    {levels c : Nat} {leaves : List U} {s : MerkleStorage U}
    (h : TreeInv compress zf levels c leaves s) :
    ∃ r, getLastRoot s = (.ok r, s) ∧
      BinaryTree.root compress (padded leaves (zf 0)) levels = some r := by
  obtain ⟨r, hr, hroot⟩ := h.root_eq
  refine ⟨r, ?_, hroot⟩
  rw [getLastRoot, read_bind, h.current_eq, okOr_some_bind, hr]
  rfl

/-- What a further insertion can answer, from any tree on `leaves`. -/
theorem insertTwoLeaves_answers {compress : U → U → Option U} {zf : Nat → U}
    {levels c : Nat} {leaves : List U} {s : MerkleStorage U}
    (h : TreeInv compress zf levels c leaves s)
    (hz : IsPadding compress zf levels) (a b : U) :
    (∀ e, (insertTwoLeaves compress a b s).1 = .error (.err e) ↔
        e = .merkleTreeFull ∧ leaves.length = 2 ^ levels) ∧
      ((∀ x y, (compress x y).isSome = true) → leaves.length ≠ 2 ^ levels →
        (insertTwoLeaves compress a b s).1
          = .ok (leaves.length, leaves.length + 1)) := by
  by_cases hfull : leaves.length = 2 ^ levels
  · rw [insertTwoLeaves_full h.toCounters hfull]
    refine ⟨fun e => ?_, fun _ hne => absurd hfull hne⟩
    simp only [Except.error.injEq, Fail.err.injEq]
    exact ⟨fun he => ⟨he.symm, hfull⟩, fun he => he.1.symm⟩
  · have hroom := h.room hfull
    rcases insertTwoLeaves_inv h hz hroom a b with ⟨s', hok, -⟩ | ⟨x, y, s', hc, htrap⟩
    · rw [hok]
      simp [hfull]
    · refine ⟨fun e => by rw [htrap]; simp [hfull], fun htotal _ => ?_⟩
      have hsome := htotal x y
      rw [hc] at hsome
      cases hsome

/-- A hash that refuses no pair makes every insertion that fits succeed. -/
theorem insertAll_total {compress : U → U → Option U} {zf : Nat → U} {levels : Nat}
    (hz : IsPadding compress zf levels)
    (htotal : ∀ x y, (compress x y).isSome = true) :
    ∀ (ps : List (U × U)) {c : Nat} {leaves : List U} {s : MerkleStorage U},
      TreeInv compress zf levels c leaves s →
      leaves.length + 2 * ps.length ≤ 2 ^ levels →
        ∃ indices s', insertAll compress ps s = (.ok indices, s')
  | [], _, _, s, _, _ => ⟨[], s, rfl⟩
  | p :: ps, c, leaves, s, h, hroom => by
      rw [List.length_cons] at hroom
      rcases insertTwoLeaves_inv h hz (by omega) p.1 p.2
        with ⟨s₁, hok, hinv⟩ | ⟨x, y, s₁, hc, -⟩
      · obtain ⟨rest, s', hrest⟩ := insertAll_total hz htotal ps hinv (by
          simp only [List.length_append, List.length_cons, List.length_nil]
          omega)
        refine ⟨(leaves.length, leaves.length + 1) :: rest, s', ?_⟩
        rw [insertAll, bind_of_ok hok, bind_of_ok hrest]
        rfl
      · have hsome := htotal x y
        rw [hc] at hsome
        cases hsome

theorem forEach_initLevel_total {zeros : List U} :
    ∀ {l : List Nat} (s : MerkleStorage U), (∀ i ∈ l, (zeros[i]?).isSome = true) →
      ∃ s', forEach (initLevel zeros) l s = (.ok (), s')
  | [], s, _ => ⟨s, rfl⟩
  | i :: l, s, h => by
      obtain ⟨z, hz⟩ := Option.isSome_iff_exists.mp (h i (List.mem_cons_self ..))
      have hstep : initLevel zeros i s = (.ok (), (s.setFilled i z).setZero i z) := by
        rw [initLevel, hz]
        rfl
      obtain ⟨s', hs'⟩ := forEach_initLevel_total ((s.setFilled i z).setZero i z)
        fun j hj => h j (List.mem_cons_of_mem _ hj)
      refine ⟨s', ?_⟩
      rw [forEach, bind_of_ok hstep]
      exact hs'

theorem getElem?_isSome {l : List U} {i : Nat} (h : i < l.length) :
    (l[i]?).isSome = true := by
  rw [List.getElem?_eq_getElem h]
  rfl

/-- A legal depth and a long enough table make the initialization succeed: every
level it writes has its padding hash. -/
theorem init_total {zeros : List U} {levels : Nat} (hpos : 1 ≤ levels)
    (hle : levels ≤ 32) (hlen : levels < zeros.length) :
    ∃ s, init zeros levels .empty = (.ok (), s) := by
  have hget : ∀ i, i ≤ levels → (zeros[i]?).isSome = true :=
    fun i hi => getElem?_isSome (hi.trans_lt hlen)
  obtain ⟨s, hs⟩ := forEach_initLevel_total
    ({ MerkleStorage.empty with levels := some levels } : MerkleStorage U)
    (l := List.range (levels + 1))
    fun i hi => hget i (Nat.le_of_lt_succ (List.mem_range.mp hi))
  obtain ⟨root0, hroot⟩ := Option.isSome_iff_exists.mp (hget levels (le_refl _))
  refine ⟨{ s.setRoot 0 root0 with nextIndex := some 0 }, ?_⟩
  rw [init, rejectIf_bind_of_not (by omega), read_bind,
    rejectIf_bind_of_not (by simp [MerkleStorage.empty]), update_bind, bind_of_ok hs,
    hroot]
  rfl

/-- Initialization followed by any number of insertions holds the complete
tree on the inserted leaves, hands out the indices in order, and refuses a
pair exactly when the tree is full.

The invariant says of the tree what a full tree on the leaves so far would
have at the same places. It holds after the constructor (`init_inv`), each
insertion keeps it (`insertAll_inv`), and the root is one of these places
(`getLastRoot_of_inv`). -/
theorem incremental_tree_eq_full_tree (compress : U → U → Option U)
    (zeros : List U) (levels : Nat) (hpos : 1 ≤ levels) (hle : levels ≤ 32)
    (hlen : levels < zeros.length) (hz : ZerosOk compress zeros) :
    ∃ zero s₀, zeros[0]? = some zero ∧ init zeros levels .empty = (.ok (), s₀) ∧
      ((∀ x y, (compress x y).isSome = true) →
        ∀ ps, ps.length ≤ 2 ^ (levels - 1) →
          ∃ indices s, insertAll compress ps s₀ = (.ok indices, s)) ∧
      ∀ ps indices s, insertAll compress ps s₀ = (.ok indices, s) →
        (∃ r, getLastRoot s = (.ok r, s) ∧
          BinaryTree.root compress (padded (leavesOf ps) zero) levels = some r) ∧
        indices = indexPairs 0 ps.length ∧
        ∀ a b,
          (∀ e, (insertTwoLeaves compress a b s).1 = .error (.err e) ↔
            e = .merkleTreeFull ∧ (leavesOf ps).length = 2 ^ levels) ∧
          ((∀ x y, (compress x y).isSome = true) →
            (leavesOf ps).length ≠ 2 ^ levels →
              (insertTwoLeaves compress a b s).1
                = .ok (2 * ps.length, 2 * ps.length + 1)) := by
  obtain ⟨s₀, hinit⟩ := init_total hpos hle hlen
  obtain ⟨zero, hzero⟩ := Option.isSome_iff_exists.mp
    (getElem?_isSome ((Nat.zero_le levels).trans_lt hlen))
  have hpad : IsPadding compress (fun i => zeros.getD i zero) levels :=
    hz.isPadding fun i hi => getElem?_isSome (hi.trans_lt hlen)
  have hinv := init_inv hinit hpad
  have hzf : zeros.getD 0 zero = zero := by
    rw [List.getD_eq_getElem?_getD, hzero, Option.getD_some]
  refine ⟨zero, s₀, hzero, hinit, fun htotal ps hps => ?_, fun ps indices s hrun => ?_⟩
  · refine insertAll_total hpad htotal ps hinv ?_
    obtain ⟨m, rfl⟩ : ∃ m, levels = m + 1 := ⟨levels - 1, by omega⟩
    rw [Nat.add_sub_cancel] at hps
    rw [pow_succ, List.length_nil]
    omega
  · obtain ⟨⟨c, hinv'⟩, hidx⟩ := insertAll_inv hpad hinv hrun
    rw [List.nil_append] at hinv'
    obtain ⟨r, hr, hroot⟩ := getLastRoot_of_inv hinv'
    refine ⟨⟨r, hr, ?_⟩, hidx, fun a b => ?_⟩
    · rw [hzf] at hroot
      exact hroot
    · have hans := insertTwoLeaves_answers hinv' hpad a b
      rw [← leavesOf_length]
      exact hans

/-- Two pairs in a tree of two levels over a toy hash. -/
theorem incremental_tree_eq_full_tree_small :
    ∃ s₀ r s, init [0, 0, 0] 2 .empty = (.ok (), s₀) ∧
      insertAll (fun x y => some (x + 2 * y)) [(3, 4), (5, 6)] s₀
        = (.ok [(0, 1), (2, 3)], s) ∧
      getLastRoot s = (.ok r, s) ∧
      BinaryTree.root (fun x y => some (x + 2 * y)) (padded [3, 4, 5, 6] 0) 2
        = some r := by
  obtain ⟨z, s₀, hz, hinit, htotal, hrun⟩ :=
    incremental_tree_eq_full_tree (fun x y => some (x + 2 * y)) [0, 0, 0] 2
      (by decide) (by decide) (by decide) (by
        intro i z z' h h'
        match i with
        | 0 | 1 => simp at h h'; simp [← h, ← h']
        | i + 2 => simp at h')
  obtain rfl : 0 = z := by simpa using hz
  obtain ⟨indices, s, hall⟩ := htotal (fun _ _ => rfl) [(3, 4), (5, 6)] (by decide)
  obtain ⟨⟨r, hr, hroot⟩, rfl, -⟩ := hrun _ indices s hall
  exact ⟨s₀, r, s, hinit, hall, hr, hroot⟩

end Merkle

end PrivacyWallet
