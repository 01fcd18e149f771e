import Mathlib.Data.List.Basic
import Mathlib.Logic.Function.Basic
import Mathlib.Tactic.Common

/-!
# Sparse trees in canonical form

A binary trie of entries: a subtree without entries is `empty`, a subtree
with one entry is that entry's `leaf` at the highest level where it is
alone, everything else is a `node`. A key takes the path of its bits
(`Keying`), and keys that agree on all bits are equal.

`Canon` is the form that insertion and deletion keep. Its point is
`Canon.ext`: two canonical trees with the same entries are the same tree,
so whatever is computed from the tree (a root hash, say) depends on the
entries alone and not on the order of updates that led to them.
-/

namespace PrivacyWallet

inductive SparseTree (K V : Type) where
  | empty
  | leaf (k : K) (v : V)
  | node (l r : SparseTree K V)
deriving DecidableEq, Repr

/-- How keys are read bit by bit: `depth` bits tell them apart. -/
structure Keying (K : Type) where
  bit : K → Nat → Bool
  depth : Nat
  ext : ∀ {k k'}, (∀ i < depth, bit k i = bit k' i) → k = k'

namespace SparseTree

variable {K V : Type}

/-- The tree holds the entry. -/
def Mem (k : K) (v : V) : SparseTree K V → Prop
  | empty => False
  | leaf k' v' => k = k' ∧ v = v'
  | node l r => Mem k v l ∨ Mem k v r

def HasKey (k : K) (t : SparseTree K V) : Prop := ∃ v, Mem k v t

/-- The number of entries. -/
def size : SparseTree K V → Nat
  | empty => 0
  | leaf _ _ => 1
  | node l r => size l + size r

@[simp] theorem not_hasKey_empty {k : K} : ¬HasKey k (empty : SparseTree K V) :=
  fun ⟨_, h⟩ => h

@[simp] theorem hasKey_leaf {k k' : K} {v : V} : HasKey k (leaf k' v) ↔ k = k' :=
  ⟨fun ⟨_, h⟩ => h.1, fun h => ⟨v, h, rfl⟩⟩

@[simp] theorem hasKey_node {k : K} {l r : SparseTree K V} :
    HasKey k (node l r) ↔ HasKey k l ∨ HasKey k r := by
  simp only [HasKey, Mem]
  exact exists_or

theorem Mem.hasKey {k : K} {v : V} {t : SparseTree K V} (h : Mem k v t) : HasKey k t := ⟨v, h⟩

theorem exists_mem_of_size_pos : ∀ {t : SparseTree K V}, 0 < size t → ∃ k v, Mem k v t
  | empty, h => absurd h (Nat.lt_irrefl 0)
  | leaf k v, _ => ⟨k, v, rfl, rfl⟩
  | node l r, h => by
      rw [size] at h
      rcases Nat.eq_zero_or_pos (size l) with hl | hl
      · obtain ⟨k, v, hm⟩ := exists_mem_of_size_pos (t := r) (by omega)
        exact ⟨k, v, .inr hm⟩
      · obtain ⟨k, v, hm⟩ := exists_mem_of_size_pos hl
        exact ⟨k, v, .inl hm⟩

/-! ## Canonical trees -/

variable (key : Keying K)

/-- Every key sits on the side of its bit, and no node holds fewer than two
entries. `d` is the level of the tree's top. -/
def Canon : Nat → SparseTree K V → Prop
  | _, empty => True
  | _, leaf _ _ => True
  | d, node l r =>
      Canon (d + 1) l ∧ Canon (d + 1) r ∧ 2 ≤ size l + size r ∧
        (∀ k, HasKey k l → key.bit k d = false) ∧ ∀ k, HasKey k r → key.bit k d = true

/-- All keys of the tree agree with `k` above level `d`. -/
def Under (d : Nat) (k : K) (t : SparseTree K V) : Prop :=
  ∀ k', HasKey k' t → ∀ i < d, key.bit k' i = key.bit k i

variable {key}

theorem under_zero {k : K} {t : SparseTree K V} : Under key 0 k t :=
  fun _ _ _ hi => absurd hi (Nat.not_lt_zero _)

/-- One level down, towards `k`. -/
theorem Under.left {d : Nat} {k : K} {l r : SparseTree K V} (hu : Under key d k (node l r))
    (hc : Canon key d (node l r)) (hb : key.bit k d = false) : Under key (d + 1) k l := by
  intro k' hk' i hi
  rcases Nat.lt_succ_iff_lt_or_eq.mp hi with hlt | rfl
  · exact hu k' (hasKey_node.mpr (.inl hk')) i hlt
  · rw [hb]
    exact hc.2.2.2.1 k' hk'

theorem Under.right {d : Nat} {k : K} {l r : SparseTree K V} (hu : Under key d k (node l r))
    (hc : Canon key d (node l r)) (hb : key.bit k d = true) : Under key (d + 1) k r := by
  intro k' hk' i hi
  rcases Nat.lt_succ_iff_lt_or_eq.mp hi with hlt | rfl
  · exact hu k' (hasKey_node.mpr (.inr hk')) i hlt
  · rw [hb]
    exact hc.2.2.2.2 k' hk'

/-- A node has two entries with different keys. -/
theorem Canon.two_keys : ∀ {t : SparseTree K V} {d : Nat}, Canon key d t → 2 ≤ size t →
    ∃ k k', k ≠ k' ∧ HasKey k t ∧ HasKey k' t
  | empty, _, _, h => by simp [size] at h
  | leaf _ _, _, _, h => by simp [size] at h
  | node l r, d, hc, h => by
      obtain ⟨hl, hr, -, hleft, hright⟩ := hc
      rw [size] at h
      rcases Nat.eq_zero_or_pos (size l) with hl0 | hlpos
      · obtain ⟨k, k', hne, hk, hk'⟩ := Canon.two_keys hr (by omega)
        exact ⟨k, k', hne, hasKey_node.mpr (.inr hk), hasKey_node.mpr (.inr hk')⟩
      rcases Nat.eq_zero_or_pos (size r) with hr0 | hrpos
      · obtain ⟨k, k', hne, hk, hk'⟩ := Canon.two_keys hl (by omega)
        exact ⟨k, k', hne, hasKey_node.mpr (.inl hk), hasKey_node.mpr (.inl hk')⟩
      · obtain ⟨k, v, hk⟩ := exists_mem_of_size_pos hlpos
        obtain ⟨k', v', hk'⟩ := exists_mem_of_size_pos hrpos
        refine ⟨k, k', ?_, hasKey_node.mpr (.inl hk.hasKey), hasKey_node.mpr (.inr hk'.hasKey)⟩
        rintro rfl
        have h0 := hleft k hk.hasKey
        rw [hright k hk'.hasKey] at h0
        cases h0

/-- A node is above the level where its keys part. -/
theorem Canon.level_lt {d : Nat} {k : K} {l r : SparseTree K V}
    (hc : Canon key d (node l r)) (hu : Under key d k (node l r)) : d < key.depth := by
  obtain ⟨k₁, k₂, hne, h₁, h₂⟩ := hc.two_keys hc.2.2.1
  by_contra hge
  exact hne (key.ext fun i hi =>
    (hu k₁ h₁ i (by omega)).trans (hu k₂ h₂ i (by omega)).symm)

/-- The entries on one side are the entries with that bit. -/
theorem Canon.mem_left {l r : SparseTree K V} {d : Nat} (hc : Canon key d (node l r)) {k : K}
    {v : V} : Mem k v l ↔ Mem k v (node l r) ∧ key.bit k d = false := by
  constructor
  · intro h
    exact ⟨.inl h, hc.2.2.2.1 k h.hasKey⟩
  · rintro ⟨h | h, hb⟩
    · exact h
    · rw [hc.2.2.2.2 k h.hasKey] at hb
      cases hb

theorem Canon.mem_right {l r : SparseTree K V} {d : Nat} (hc : Canon key d (node l r)) {k : K}
    {v : V} : Mem k v r ↔ Mem k v (node l r) ∧ key.bit k d = true := by
  constructor
  · intro h
    exact ⟨.inr h, hc.2.2.2.2 k h.hasKey⟩
  · rintro ⟨h | h, hb⟩
    · rw [hc.2.2.2.1 k h.hasKey] at hb
      cases hb
    · exact h

/-- A canonical tree is determined by its entries. -/
theorem Canon.ext : ∀ {t t' : SparseTree K V} {d : Nat}, Canon key d t → Canon key d t' →
    (∀ k v, Mem k v t ↔ Mem k v t') → t = t'
  | empty, empty, _, _, _, _ => rfl
  | empty, leaf k v, _, _, _, h => ((h k v).mpr ⟨rfl, rfl⟩).elim
  | leaf k v, empty, _, _, _, h => ((h k v).mp ⟨rfl, rfl⟩).elim
  | leaf k v, leaf k' v', _, _, _, h => by
      obtain ⟨rfl, rfl⟩ := (h k v).mp ⟨rfl, rfl⟩
      rfl
  | empty, node l r, _, _, hc', h => by
      obtain ⟨k, v, hm⟩ := exists_mem_of_size_pos (t := node l r)
        (Nat.lt_of_lt_of_le Nat.zero_lt_two hc'.2.2.1)
      exact ((h k v).mpr hm).elim
  | node l r, empty, _, hc, _, h => by
      obtain ⟨k, v, hm⟩ := exists_mem_of_size_pos (t := node l r)
        (Nat.lt_of_lt_of_le Nat.zero_lt_two hc.2.2.1)
      exact ((h k v).mp hm).elim
  | leaf k v, node l r, _, _, hc', h => by
      obtain ⟨k₁, k₂, hne, ⟨v₁, h₁⟩, ⟨v₂, h₂⟩⟩ := hc'.two_keys hc'.2.2.1
      exact absurd (((h k₁ v₁).mpr h₁).1.trans ((h k₂ v₂).mpr h₂).1.symm) hne
  | node l r, leaf k v, _, hc, _, h => by
      obtain ⟨k₁, k₂, hne, ⟨v₁, h₁⟩, ⟨v₂, h₂⟩⟩ := hc.two_keys hc.2.2.1
      exact absurd (((h k₁ v₁).mp h₁).1.trans ((h k₂ v₂).mp h₂).1.symm) hne
  | node l r, node l' r', d, hc, hc', h => by
      have hl : l = l' := Canon.ext hc.1 hc'.1 fun k v => by
        rw [hc.mem_left, hc'.mem_left, h]
      have hr : r = r' := Canon.ext hc.2.1 hc'.2.1 fun k v => by
        rw [hc.mem_right, hc'.mem_right, h]
      rw [hl, hr]

/-! ## Looking up -/

variable (key)

/-- Follow the bits of `k` from level `d` to the end of its path. -/
def terminal (k : K) : Nat → SparseTree K V → SparseTree K V
  | _, empty => empty
  | _, leaf k' v => leaf k' v
  | d, node l r => if key.bit k d then terminal k (d + 1) r else terminal k (d + 1) l

/-- The subtrees that hang off that path, the highest first. -/
def siblings (k : K) : Nat → SparseTree K V → List (SparseTree K V)
  | _, empty => []
  | _, leaf _ _ => []
  | d, node l r =>
      if key.bit k d then l :: siblings k (d + 1) r else r :: siblings k (d + 1) l

/-- The value of `k`. -/
def get [DecidableEq K] (k : K) (d : Nat) (t : SparseTree K V) : Option V :=
  match terminal key k d t with
  | leaf k' v => if k = k' then some v else none
  | _ => none

variable {key}

theorem terminal_left {k : K} {d : Nat} {l r : SparseTree K V} (hb : key.bit k d = false) :
    terminal key k d (node l r) = terminal key k (d + 1) l := by simp [terminal, hb]

theorem terminal_right {k : K} {d : Nat} {l r : SparseTree K V} (hb : key.bit k d = true) :
    terminal key k d (node l r) = terminal key k (d + 1) r := by simp [terminal, hb]

theorem siblings_left {k : K} {d : Nat} {l r : SparseTree K V} (hb : key.bit k d = false) :
    siblings key k d (node l r) = r :: siblings key k (d + 1) l := by simp [siblings, hb]

theorem siblings_right {k : K} {d : Nat} {l r : SparseTree K V} (hb : key.bit k d = true) :
    siblings key k d (node l r) = l :: siblings key k (d + 1) r := by simp [siblings, hb]

variable (key) in
/-- A path ends in a leaf or in nothing. -/
theorem terminal_cases (k : K) : ∀ (t : SparseTree K V) (d : Nat),
    terminal key k d t = empty ∨ ∃ k' v, terminal key k d t = leaf k' v
  | empty, _ => .inl rfl
  | leaf k' v, _ => .inr ⟨k', v, rfl⟩
  | node l r, d => by
      cases hb : key.bit k d with
      | false => rw [terminal_left hb]; exact terminal_cases k l (d + 1)
      | true => rw [terminal_right hb]; exact terminal_cases k r (d + 1)

/-- Entries on the path of `k` are at its end. -/
theorem mem_terminal {k : K} {v : V} : ∀ {t : SparseTree K V} {d : Nat}, Canon key d t →
    (Mem k v (terminal key k d t) ↔ Mem k v t)
  | empty, _, _ => Iff.rfl
  | leaf _ _, _, _ => Iff.rfl
  | node l r, d, hc => by
      cases hb : key.bit k d with
      | false =>
          rw [terminal_left hb, mem_terminal hc.1, hc.mem_left]
          exact and_iff_left hb
      | true =>
          rw [terminal_right hb, mem_terminal hc.2.1, hc.mem_right]
          exact and_iff_left hb

/-- The end of the path is part of the tree. -/
theorem Mem.of_terminal {k k' : K} {v : V} : ∀ {t : SparseTree K V} {d : Nat},
    Mem k' v (terminal key k d t) → Mem k' v t
  | empty, _, h => h
  | leaf _ _, _, h => h
  | node l r, d, h => by
      cases hb : key.bit k d with
      | false => rw [terminal_left hb] at h; exact .inl (Mem.of_terminal h)
      | true => rw [terminal_right hb] at h; exact .inr (Mem.of_terminal h)

theorem get_eq_some [DecidableEq K] {k : K} {v : V} {d : Nat} {t : SparseTree K V}
    (hc : Canon key d t) : get key k d t = some v ↔ Mem k v t := by
  rw [← mem_terminal hc, get]
  rcases terminal_cases key k t d with h | ⟨k', v', h⟩
  · rw [h]
    simp [Mem]
  · rw [h]
    simp only [Mem, Option.ite_none_right_eq_some, Option.some.injEq]
    exact and_congr_right fun _ => eq_comm

theorem get_eq_none [DecidableEq K] {k : K} {d : Nat} {t : SparseTree K V}
    (hc : Canon key d t) : get key k d t = none ↔ ¬HasKey k t := by
  rw [Option.eq_none_iff_forall_not_mem]
  simp only [Option.mem_def, get_eq_some hc, HasKey, not_exists]

/-! ## Branches

A node seen from a key: the half the key is in, and the other half. -/

/-- The node with `below` on the side `b`. -/
def branch (b : Bool) (sib below : SparseTree K V) : SparseTree K V :=
  if b then node sib below else node below sib

/-- Induction along the path of `k`. -/
theorem path_induction (key : Keying K) (k : K) {motive : SparseTree K V → Nat → Prop}
    (empty : ∀ d, motive empty d) (leaf : ∀ k' v d, motive (leaf k' v) d)
    (branch : ∀ sib below d, motive below (d + 1) →
      motive (branch (key.bit k d) sib below) d) : ∀ t d, motive t d
  | .empty, d => empty d
  | .leaf k' v, d => leaf k' v d
  | node l r, d => by
      have hl := path_induction key k empty leaf branch l (d + 1)
      have hr := path_induction key k empty leaf branch r (d + 1)
      have hb := branch l r d hr
      have hb' := branch r l d hl
      cases hk : key.bit k d with
      | false => rwa [hk] at hb'
      | true => rwa [hk] at hb

/-- What a tree is, seen from `k`. -/
theorem branch_cases (key : Keying K) (k : K) (d : Nat) (t : SparseTree K V) :
    t = empty ∨ (∃ k' v, t = leaf k' v) ∨ ∃ sib below, t = branch (key.bit k d) sib below := by
  cases t with
  | empty => exact .inl rfl
  | leaf k' v => exact .inr (.inl ⟨k', v, rfl⟩)
  | node l r =>
      cases hb : key.bit k d with
      | false => exact .inr (.inr ⟨r, l, rfl⟩)
      | true => exact .inr (.inr ⟨l, r, rfl⟩)

section Branch

variable {b : Bool} {k k' : K} {v : V} {d : Nat} {sib below : SparseTree K V}

theorem branch_false : branch false sib below = node below sib := rfl

theorem branch_true : branch true sib below = node sib below := rfl

theorem branch_ne_empty : branch b sib below ≠ empty := by cases b <;> simp [branch]

@[simp] theorem mem_branch : Mem k v (branch b sib below) ↔ Mem k v sib ∨ Mem k v below := by
  cases b with
  | false => exact or_comm
  | true => exact Iff.rfl

@[simp] theorem hasKey_branch :
    HasKey k (branch b sib below) ↔ HasKey k sib ∨ HasKey k below := by
  cases b with
  | false => exact hasKey_node.trans or_comm
  | true => exact hasKey_node

theorem size_branch :
    size (branch b sib below) = size sib + size below := by
  cases b with
  | false => exact Nat.add_comm _ _
  | true => rfl

theorem siblings_branch (hb : key.bit k d = b) :
    siblings key k d (branch b sib below) = sib :: siblings key k (d + 1) below := by
  cases b with
  | false => exact siblings_left hb
  | true => exact siblings_right hb

theorem terminal_branch (hb : key.bit k d = b) :
    terminal key k d (branch b sib below) = terminal key k (d + 1) below := by
  cases b with
  | false => exact terminal_left hb
  | true => exact terminal_right hb

/-- A canonical branch. -/
theorem canon_branch : Canon key d (branch b sib below) ↔
    Canon key (d + 1) sib ∧ Canon key (d + 1) below ∧ 2 ≤ size sib + size below ∧
      (∀ k, HasKey k below → key.bit k d = b) ∧ ∀ k, HasKey k sib → key.bit k d = !b := by
  cases b with
  | false =>
      rw [branch_false, Canon, Nat.add_comm (size below)]
      exact ⟨fun ⟨h1, h2, h3, h4, h5⟩ => ⟨h2, h1, h3, h4, h5⟩,
        fun ⟨h1, h2, h3, h4, h5⟩ => ⟨h2, h1, h3, h4, h5⟩⟩
  | true =>
      rw [branch_true, Canon]
      exact ⟨fun ⟨h1, h2, h3, h4, h5⟩ => ⟨h1, h2, h3, h5, h4⟩,
        fun ⟨h1, h2, h3, h4, h5⟩ => ⟨h1, h2, h3, h5, h4⟩⟩

theorem Canon.level_lt_branch (hc : Canon key d (branch b sib below))
    (hu : Under key d k (branch b sib below)) : d < key.depth := by
  cases b with
  | false => exact hc.level_lt hu
  | true => exact hc.level_lt hu

theorem Under.branch (hu : Under key d k (branch b sib below))
    (hc : Canon key d (SparseTree.branch b sib below)) (hb : key.bit k d = b) :
    Under key (d + 1) k below := by
  cases b with
  | false => exact hu.left hc hb
  | true => exact hu.right hc hb

/-- The key is not among the siblings. -/
theorem Canon.not_hasKey_sib (hc : Canon key d (branch b sib below)) (hb : key.bit k d = b) :
    ¬HasKey k sib := by
  intro h
  have hs := (canon_branch.mp hc).2.2.2.2 k h
  rw [hb] at hs
  cases b <;> cases hs

end Branch

/-! ## Insertion -/

variable (key)

/-- Two leaves that part at the first level from `d` on where their keys
differ; `n` levels are left. -/
def join (k k' : K) (new old : SparseTree K V) : Nat → Nat → SparseTree K V
  | 0, _ => new
  | n + 1, d =>
      match key.bit k d, key.bit k' d with
      | false, true => node new old
      | true, false => node old new
      | false, false => node (join k k' new old n (d + 1)) empty
      | true, true => node empty (join k k' new old n (d + 1))

/-- Write the entry into a tree whose top is at level `d`. -/
def insert [DecidableEq K] (k : K) (v : V) : Nat → SparseTree K V → SparseTree K V
  | _, empty => leaf k v
  | d, leaf k' v' =>
      if k = k' then leaf k v else join key k k' (leaf k v) (leaf k' v') (key.depth - d) d
  | d, node l r =>
      if key.bit k d then node l (insert k v (d + 1) r) else node (insert k v (d + 1) l) r

variable {key}

theorem insert_left [DecidableEq K] {k : K} {v : V} {d : Nat} {l r : SparseTree K V}
    (hb : key.bit k d = false) :
    insert key k v d (node l r) = node (insert key k v (d + 1) l) r := by simp [insert, hb]

theorem insert_right [DecidableEq K] {k : K} {v : V} {d : Nat} {l r : SparseTree K V}
    (hb : key.bit k d = true) :
    insert key k v d (node l r) = node l (insert key k v (d + 1) r) := by simp [insert, hb]

section Join

variable {k k' : K} {v v' : V} {n d : Nat}

theorem join_apart_left {new old : SparseTree K V} (hb : key.bit k d = false)
    (hb' : key.bit k' d = true) : join key k k' new old (n + 1) d = node new old := by
  rw [join, hb, hb']

theorem join_apart_right {new old : SparseTree K V} (hb : key.bit k d = true)
    (hb' : key.bit k' d = false) : join key k k' new old (n + 1) d = node old new := by
  rw [join, hb, hb']

theorem join_both_left {new old : SparseTree K V} (hb : key.bit k d = false)
    (hb' : key.bit k' d = false) :
    join key k k' new old (n + 1) d = node (join key k k' new old n (d + 1)) empty := by
  rw [join, hb, hb']

theorem join_both_right {new old : SparseTree K V} (hb : key.bit k d = true)
    (hb' : key.bit k' d = true) :
    join key k k' new old (n + 1) d = node empty (join key k k' new old n (d + 1)) := by
  rw [join, hb, hb']

theorem join_apart {b : Bool} {new old : SparseTree K V} (hb : key.bit k d = b)
    (hb' : key.bit k' d ≠ b) : join key k k' new old (n + 1) d = branch b old new := by
  cases b with
  | false => exact join_apart_left hb (by simpa using hb')
  | true => exact join_apart_right hb (by simpa using hb')

theorem join_both {b : Bool} {new old : SparseTree K V} (hb : key.bit k d = b)
    (hb' : key.bit k' d = b) : join key k k' new old (n + 1) d
      = branch b empty (join key k k' new old n (d + 1)) := by
  cases b with
  | false => exact join_both_left hb hb'
  | true => exact join_both_right hb hb'

/-- Another leaf at the end of the path parts from the key below. -/
theorem under_leaf (hu : Under key d k (leaf k' v')) :
    ∀ i < d, key.bit k i = key.bit k' i :=
  fun i hi => (hu k' (hasKey_leaf.mpr rfl) i hi).symm

/-- Different keys that agree above level `d` differ below it. -/
theorem Keying.levels_left (hne : k ≠ k') (hpre : ∀ i < d, key.bit k i = key.bit k' i) :
    d < key.depth := by
  by_contra hge
  exact hne (key.ext fun i hi => hpre i (by omega))

theorem hasKey_join {old : SparseTree K V} : ∀ n d, HasKey k (join key k k' (leaf k v) old n d)
  | 0, _ => hasKey_leaf.mpr rfl
  | n + 1, d => by
      by_cases hb : key.bit k' d = key.bit k d
      · rw [join_both rfl hb]
        exact hasKey_branch.mpr (.inr (hasKey_join n _))
      · rw [join_apart rfl hb]
        exact hasKey_branch.mpr (.inr (hasKey_leaf.mpr rfl))

/-- Keys that agree on one more level. -/
theorem agree_succ (hpre : ∀ i < d, key.bit k i = key.bit k' i)
    (hd : key.bit k d = key.bit k' d) : ∀ i < d + 1, key.bit k i = key.bit k' i := by
  intro i hi
  rcases Nat.lt_succ_iff_lt_or_eq.mp hi with hlt | rfl
  · exact hpre i hlt
  · exact hd

/-- What the join of two leaves is. -/
theorem join_spec (v v' : V) (hne : k ≠ k') : ∀ {n d : Nat}, n + d = key.depth →
    (∀ i < d, key.bit k i = key.bit k' i) →
    Canon key d (join key k k' (leaf k v) (leaf k' v') n d) ∧
      size (join key k k' (leaf k v) (leaf k' v') n d) = 2 ∧
      ∀ k₀ v₀, Mem k₀ v₀ (join key k k' (leaf k v) (leaf k' v') n d)
        ↔ (k₀ = k ∧ v₀ = v) ∨ k₀ = k' ∧ v₀ = v'
  | 0, d, hn, hpre => by
      have := Keying.levels_left hne hpre
      omega
  | n + 1, d, hn, hpre => by
      cases hb : key.bit k d <;> cases hb' : key.bit k' d
      · have hpre' := agree_succ hpre (hb.trans hb'.symm)
        obtain ⟨hc, hs, hm⟩ := join_spec v v' (n := n) hne (by omega) hpre'
        rw [join_both_left hb hb']
        refine ⟨⟨hc, trivial, by rw [hs]; simp [size], fun k₀ ⟨v₀, h₀⟩ => ?_, by simp⟩,
          by simp [size, hs], fun k₀ v₀ => by simp [Mem, hm]⟩
        rcases (hm k₀ v₀).mp h₀ with ⟨rfl, -⟩ | ⟨rfl, -⟩
        · exact hb
        · exact hb'
      · rw [join_apart_left hb hb']
        exact ⟨⟨trivial, trivial, by simp [size], by simp [hb], by simp [hb']⟩, by simp [size],
          fun k₀ v₀ => by simp [Mem]⟩
      · rw [join_apart_right hb hb']
        exact ⟨⟨trivial, trivial, by simp [size], by simp [hb'], by simp [hb]⟩, by simp [size],
          fun k₀ v₀ => by simp [Mem, or_comm]⟩
      · have hpre' := agree_succ hpre (hb.trans hb'.symm)
        obtain ⟨hc, hs, hm⟩ := join_spec v v' (n := n) hne (by omega) hpre'
        rw [join_both_right hb hb']
        refine ⟨⟨trivial, hc, by rw [hs]; simp [size], by simp, fun k₀ ⟨v₀, h₀⟩ => ?_⟩,
          by simp [size, hs], fun k₀ v₀ => by simp [Mem, hm]⟩
        rcases (hm k₀ v₀).mp h₀ with ⟨rfl, -⟩ | ⟨rfl, -⟩
        · exact hb
        · exact hb'

end Join

section Update

variable [DecidableEq K] {k : K} {v : V}

theorem insert_branch {b : Bool} {d : Nat} {sib below : SparseTree K V} (hb : key.bit k d = b) :
    insert key k v d (branch b sib below) = branch b sib (insert key k v (d + 1) below) := by
  cases b with
  | false => exact insert_left hb
  | true => exact insert_right hb

theorem insert_leaf_of_ne {k₁ : K} {v₁ : V} {d : Nat} (hne : k ≠ k₁) :
    insert key k v d (leaf k₁ v₁)
      = join key k k₁ (leaf k v) (leaf k₁ v₁) (key.depth - d) d := if_neg hne

/-- Where the path ends in nothing the new leaf has the same siblings. -/
theorem siblings_insert_of_empty {t : SparseTree K V} {d : Nat} :
    terminal key k d t = empty → siblings key k d (insert key k v d t) = siblings key k d t := by
  induction t, d using path_induction key k with
  | empty d => exact fun _ => rfl
  | leaf k₁ v₁ d => exact fun h => nomatch h
  | branch sib below d ih =>
      intro h
      rw [terminal_branch rfl] at h
      rw [insert_branch rfl, siblings_branch rfl, siblings_branch rfl, ih h]

/-- The entry is written and the others are kept. -/
theorem mem_insert {t : SparseTree K V} {d : Nat} : Canon key d t → Under key d k t →
    ∀ k' v', Mem k' v' (insert key k v d t) ↔ (k' = k ∧ v' = v) ∨ k' ≠ k ∧ Mem k' v' t := by
  induction t, d using path_induction key k with
  | empty d => simp [insert, Mem]
  | leaf k₁ v₁ d =>
      intro _ hu k' v'
      by_cases hne : k = k₁
      · subst hne
        rw [insert, if_pos rfl]
        simp only [Mem]
        exact ⟨.inl, fun h => h.elim id fun ⟨hne, heq, _⟩ => absurd heq hne⟩
      · have hlt := Keying.levels_left hne (under_leaf hu)
        obtain ⟨-, -, hm⟩ := join_spec v v₁ (n := key.depth - d) hne
          (by omega) (under_leaf hu)
        rw [insert_leaf_of_ne hne, hm]
        refine or_congr_right ⟨?_, And.right⟩
        rintro ⟨rfl, rfl⟩
        exact ⟨Ne.symm hne, rfl, rfl⟩
  | branch sib below d ih =>
      intro hc hu k' v'
      have hsib := hc.not_hasKey_sib rfl
      rw [insert_branch rfl, mem_branch, mem_branch,
        ih (canon_branch.mp hc).2.1 (hu.branch hc rfl)]
      constructor
      · rintro (h | h | ⟨hne, h⟩)
        · exact .inr ⟨fun heq => hsib (heq ▸ h.hasKey), .inl h⟩
        · exact .inl h
        · exact .inr ⟨hne, .inr h⟩
      · rintro (h | ⟨hne, h | h⟩)
        · exact .inr (.inl h)
        · exact .inl h
        · exact .inr (.inr ⟨hne, h⟩)

theorem size_le_insert {t : SparseTree K V} {d : Nat} : Canon key d t → Under key d k t →
    size t ≤ size (insert key k v d t) := by
  induction t, d using path_induction key k with
  | empty d => exact fun _ _ => Nat.zero_le _
  | leaf k₁ v₁ d =>
      intro _ hu
      by_cases hne : k = k₁
      · rw [insert, if_pos hne]
        exact Nat.le_refl _
      · have hlt := Keying.levels_left hne (under_leaf hu)
        obtain ⟨-, hs, -⟩ := join_spec v v₁ (n := key.depth - d) hne
          (by omega) (under_leaf hu)
        rw [insert_leaf_of_ne hne, hs]
        exact Nat.le_succ 1
  | branch sib below d ih =>
      intro hc hu
      rw [insert_branch rfl, size_branch, size_branch]
      exact Nat.add_le_add_left (ih (canon_branch.mp hc).2.1 (hu.branch hc rfl)) _

/-- Who is in the tree after an insertion. -/
theorem hasKey_insert {t : SparseTree K V} {d : Nat} (hc : Canon key d t)
    (hu : Under key d k t) {k' : K} :
    HasKey k' (insert key k v d t) ↔ k' = k ∨ HasKey k' t := by
  simp only [HasKey, mem_insert hc hu]
  constructor
  · rintro ⟨v', ⟨rfl, -⟩ | ⟨-, h⟩⟩
    · exact .inl rfl
    · exact .inr ⟨v', h⟩
  · rintro (rfl | ⟨v', h⟩)
    · exact ⟨v, .inl ⟨rfl, rfl⟩⟩
    · by_cases heq : k' = k
      · exact ⟨v, .inl ⟨heq, rfl⟩⟩
      · exact ⟨v', .inr ⟨heq, h⟩⟩

theorem canon_insert {t : SparseTree K V} {d : Nat} : Canon key d t → Under key d k t →
    Canon key d (insert key k v d t) := by
  induction t, d using path_induction key k with
  | empty d => exact fun _ _ => trivial
  | leaf k₁ v₁ d =>
      intro _ hu
      by_cases hne : k = k₁
      · rw [insert, if_pos hne]
        trivial
      · have hlt := Keying.levels_left hne (under_leaf hu)
        rw [insert_leaf_of_ne hne]
        exact (join_spec v v₁ hne (by omega) (under_leaf hu)).1
  | branch sib below d ih =>
      intro hc hu
      obtain ⟨hsib, hbelow, hsize, hin, hout⟩ := canon_branch.mp hc
      have hub := hu.branch hc rfl
      have hle := size_le_insert (v := v) hbelow hub
      rw [insert_branch rfl]
      refine canon_branch.mpr ⟨hsib, ih hbelow hub, by omega, fun k' hk' => ?_, hout⟩
      rcases (hasKey_insert hbelow hub).mp hk' with rfl | hk'
      · rfl
      · exact hin k' hk'

end Update

/-! ## Deletion -/

/-- A node, unless what it would hold is a single entry or nothing. -/
def mk : SparseTree K V → SparseTree K V → SparseTree K V
  | empty, empty => empty
  | leaf k v, empty => leaf k v
  | empty, leaf k v => leaf k v
  | l, r => node l r

variable (key)

/-- Remove the entry of `k` from a tree whose top is at level `d`. -/
def erase [DecidableEq K] (k : K) : Nat → SparseTree K V → SparseTree K V
  | _, empty => empty
  | _, leaf k' v => if k = k' then empty else leaf k' v
  | d, node l r =>
      if key.bit k d then mk l (erase k (d + 1) r) else mk (erase k (d + 1) l) r

variable {key}

@[simp] theorem mk_empty_empty : mk (empty : SparseTree K V) empty = empty := rfl

@[simp] theorem mk_leaf_empty {k : K} {v : V} : mk (leaf k v) empty = leaf k v := rfl

@[simp] theorem mk_empty_leaf {k : K} {v : V} : mk empty (leaf k v) = leaf k v := rfl

@[simp] theorem mk_node_left {l r s : SparseTree K V} : mk (node l r) s = node (node l r) s := by
  cases s <;> rfl

@[simp] theorem mk_node_right {l r s : SparseTree K V} : mk s (node l r) = node s (node l r) := by
  cases s <;> rfl

@[simp] theorem mk_leaf_leaf {k k' : K} {v v' : V} :
    mk (leaf k v) (leaf k' v') = node (leaf k v) (leaf k' v') := rfl

@[simp] theorem mem_mk {l r : SparseTree K V} {k : K} {v : V} :
    Mem k v (mk l r) ↔ Mem k v l ∨ Mem k v r := by
  cases l <;> cases r <;> simp [Mem]

theorem canon_mk {l r : SparseTree K V} {d : Nat} (hl : Canon key (d + 1) l)
    (hr : Canon key (d + 1) r) (hleft : ∀ k, HasKey k l → key.bit k d = false)
    (hright : ∀ k, HasKey k r → key.bit k d = true) : Canon key d (mk l r) := by
  cases l with
  | empty =>
      cases r with
      | empty => trivial
      | leaf k v => trivial
      | node r₁ r₂ =>
          rw [mk_node_right]
          exact ⟨hl, hr, Nat.le_trans hr.2.2.1 (Nat.le_add_left ..), hleft, hright⟩
  | leaf k v =>
      cases r with
      | empty => trivial
      | leaf k' v' => exact ⟨hl, hr, Nat.le_refl _, hleft, hright⟩
      | node r₁ r₂ =>
          rw [mk_node_right]
          exact ⟨hl, hr, Nat.le_trans hr.2.2.1 (Nat.le_add_left ..), hleft, hright⟩
  | node l₁ l₂ =>
      rw [mk_node_left]
      exact ⟨hl, hr, Nat.le_trans hl.2.2.1 (Nat.le_add_right ..), hleft, hright⟩

/-- The branch without its lone entry. -/
def mkBranch (b : Bool) (sib below : SparseTree K V) : SparseTree K V :=
  if b then mk sib below else mk below sib

theorem mem_mkBranch {b : Bool} {sib below : SparseTree K V} {k : K} {v : V} :
    Mem k v (mkBranch b sib below) ↔ Mem k v sib ∨ Mem k v below := by
  cases b with
  | false => exact mem_mk.trans or_comm
  | true => exact mem_mk

theorem canon_mkBranch {b : Bool} {sib below : SparseTree K V} {d : Nat}
    (hsib : Canon key (d + 1) sib) (hbelow : Canon key (d + 1) below)
    (hin : ∀ k, HasKey k below → key.bit k d = b)
    (hout : ∀ k, HasKey k sib → key.bit k d = !b) : Canon key d (mkBranch b sib below) := by
  cases b with
  | false => exact canon_mk hbelow hsib hin hout
  | true => exact canon_mk hsib hbelow hout hin

theorem mkBranch_empty_leaf {b : Bool} {k : K} {v : V} :
    mkBranch b empty (leaf k v) = leaf k v := by cases b <;> rfl

theorem mkBranch_leaf_empty {b : Bool} {k : K} {v : V} :
    mkBranch b (leaf k v) empty = leaf k v := by cases b <;> rfl

/-- More than one entry makes a branch. -/
theorem mkBranch_eq_branch {b : Bool} : ∀ {sib below : SparseTree K V},
    (sib ≠ empty ∧ below ≠ empty) ∨ (∃ l r, sib = node l r) ∨ (∃ l r, below = node l r) →
      mkBranch b sib below = branch b sib below
  | node _ _, below, _ => by cases b <;> simp [mkBranch, branch]
  | sib, node _ _, _ => by cases b <;> simp [mkBranch, branch]
  | leaf _ _, leaf _ _, _ => by cases b <;> rfl
  | empty, empty, h => by simp at h
  | empty, leaf _ _, h => by simp at h
  | leaf _ _, empty, h => by simp at h

section Update

variable [DecidableEq K] {k : K}

theorem erase_left {d : Nat} {l r : SparseTree K V} (hb : key.bit k d = false) :
    erase key k d (node l r) = mk (erase key k (d + 1) l) r := by simp [erase, hb]

theorem erase_right {d : Nat} {l r : SparseTree K V} (hb : key.bit k d = true) :
    erase key k d (node l r) = mk l (erase key k (d + 1) r) := by simp [erase, hb]

theorem erase_branch {b : Bool} {d : Nat} {sib below : SparseTree K V} (hb : key.bit k d = b) :
    erase key k d (branch b sib below) = mkBranch b sib (erase key k (d + 1) below) := by
  cases b with
  | false => exact erase_left hb
  | true => exact erase_right hb

theorem mem_erase {t : SparseTree K V} {d : Nat} : Canon key d t →
    ∀ k' v', Mem k' v' (erase key k d t) ↔ k' ≠ k ∧ Mem k' v' t := by
  induction t, d using path_induction key k with
  | empty d => simp [erase, Mem]
  | leaf k₁ v₁ d =>
      intro _ k' v'
      rw [erase]
      split
      · rename_i heq
        subst heq
        simp only [Mem, false_iff, not_and]
        exact fun hne heq => absurd heq hne
      · rename_i hne
        refine ⟨fun h => ⟨?_, h⟩, And.right⟩
        rintro rfl
        exact hne h.1
  | branch sib below d ih =>
      intro hc k' v'
      rw [erase_branch rfl, mem_mkBranch, ih (canon_branch.mp hc).2.1, mem_branch, and_or_left]
      refine or_congr_left ⟨fun h => ⟨?_, h⟩, And.right⟩
      rintro rfl
      exact hc.not_hasKey_sib rfl h.hasKey

theorem hasKey_erase {t : SparseTree K V} {d : Nat} (hc : Canon key d t) {k' : K} :
    HasKey k' (erase key k d t) ↔ k' ≠ k ∧ HasKey k' t := by
  simp only [HasKey, mem_erase hc, exists_and_left]

theorem canon_erase {t : SparseTree K V} {d : Nat} : Canon key d t →
    Canon key d (erase key k d t) := by
  induction t, d using path_induction key k with
  | empty d => exact fun _ => trivial
  | leaf k₁ v₁ d =>
      intro _
      rw [erase]
      split
      · trivial
      · trivial
  | branch sib below d ih =>
      intro hc
      obtain ⟨hsib, hbelow, -, hin, hout⟩ := canon_branch.mp hc
      rw [erase_branch rfl]
      exact canon_mkBranch hsib (ih hbelow)
        (fun k' hk' => hin k' ((hasKey_erase hbelow).mp hk').2) hout

end Update

/-! ## The map of a tree -/

section Map

variable [DecidableEq K] {k : K} {v : V} {t : SparseTree K V}

theorem get_insert (hc : Canon key 0 t) :
    (fun k' => get key k' 0 (insert key k v 0 t))
      = Function.update (fun k' => get key k' 0 t) k (some v) := by
  funext k'
  refine Option.ext fun v' => ?_
  rw [get_eq_some (canon_insert hc under_zero), mem_insert hc under_zero,
    Function.update_apply]
  by_cases heq : k' = k
  · simp only [heq, true_and, ne_eq, not_true_eq_false, false_and, or_false, if_pos,
      Option.some.injEq]
    exact eq_comm
  · simp only [heq, false_and, ne_eq, not_false_eq_true, true_and, false_or, if_neg,
      get_eq_some hc]

theorem get_erase (hc : Canon key 0 t) :
    (fun k' => get key k' 0 (erase key k 0 t))
      = Function.update (fun k' => get key k' 0 t) k none := by
  funext k'
  refine Option.ext fun v' => ?_
  rw [get_eq_some (canon_erase hc), mem_erase hc, Function.update_apply]
  by_cases heq : k' = k
  · simp [heq]
  · simp only [heq, ne_eq, not_false_eq_true, true_and, if_neg, get_eq_some hc]

/-- Trees that answer every lookup alike are the same tree. -/
theorem Canon.eq_of_get {t' : SparseTree K V} (hc : Canon key 0 t) (hc' : Canon key 0 t')
    (h : ∀ k, get key k 0 t = get key k 0 t') : t = t' :=
  Canon.ext hc hc' fun k v => by rw [← get_eq_some hc, ← get_eq_some hc', h]

end Map

end SparseTree

end PrivacyWallet
