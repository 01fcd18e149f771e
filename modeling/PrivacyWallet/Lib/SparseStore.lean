import PrivacyWallet.Lib.SparseTree

/-!
# Sparse trees in a store of hashed nodes

A sparse tree is published by its root hash and kept in a store that maps
the hash of each node to the node's row. `Digests` holds the two hash
functions, `digest` is the hash of a tree, `Stored` says that a store has
every row of a tree.

Nothing of this works when hashes collide, and a hash function on words
does have collisions. What a development can assume is that none occurs
among the inputs that were actually hashed: `CollisionFree log` for a list
of inputs. Trees whose inputs are all in such a log (`Known`) are told
apart by their hashes (`digest_inj`), so writing one row (`Stored.write`)
or removing a foreign one (`Stored.remove`) leaves a stored tree alone.
-/

namespace PrivacyWallet

variable {K V U R : Type}

/-- What the hash of a node is computed from. -/
inductive NodeInput (K V U : Type) where
  | leaf (k : K) (v : V)
  | node (l r : U)
deriving DecidableEq, Repr

/-- The hash functions of a sparse tree; `zero` stands for no entries. -/
structure Digests (K V U : Type) where
  zero : U
  ofLeaf : K → V → U
  ofNode : U → U → U

open SparseTree

namespace Digests

variable (h : Digests K V U)

/-- The hash of an input. -/
def image : NodeInput K V U → U
  | .leaf k v => h.ofLeaf k v
  | .node l r => h.ofNode l r

/-- The hash of a tree. -/
def digest : SparseTree K V → U
  | empty => h.zero
  | leaf k v => h.ofLeaf k v
  | node l r => h.ofNode (digest l) (digest r)

/-- No two inputs of the log have the same hash, and none has the hash of
the empty tree. -/
structure CollisionFree (log : List (NodeInput K V U)) : Prop where
  inj : ∀ p ∈ log, ∀ q ∈ log, h.image p = h.image q → p = q
  nonzero : ∀ p ∈ log, h.image p ≠ h.zero

/-- The log has every input of the tree's hashes. -/
def Known (log : List (NodeInput K V U)) : SparseTree K V → Prop
  | empty => True
  | leaf k v => .leaf k v ∈ log
  | node l r => .node (h.digest l) (h.digest r) ∈ log ∧ Known log l ∧ Known log r

/-- The store has every row of the tree. -/
def Stored (row : NodeInput K V U → R) (store : U → Option R) : SparseTree K V → Prop
  | empty => True
  | leaf k v => store (h.ofLeaf k v) = some (row (.leaf k v))
  | node l r =>
      store (h.ofNode (h.digest l) (h.digest r)) = some (row (.node (h.digest l) (h.digest r))) ∧
        Stored row store l ∧ Stored row store r

variable {h} {log log' : List (NodeInput K V U)} {row : NodeInput K V U → R}
  {store : U → Option R} {t t' : SparseTree K V}

theorem CollisionFree.mono (hf : h.CollisionFree log') (hsub : log ⊆ log') :
    h.CollisionFree log :=
  ⟨fun p hp q hq => hf.inj p (hsub hp) q (hsub hq), fun p hp => hf.nonzero p (hsub hp)⟩

theorem Known.mono (hsub : log ⊆ log') : ∀ {t : SparseTree K V}, h.Known log t → h.Known log' t
  | empty, _ => trivial
  | leaf _ _, hk => hsub hk
  | node _ _, hk => ⟨hsub hk.1, Known.mono hsub hk.2.1, Known.mono hsub hk.2.2⟩

/-- Only the empty tree has the empty hash. -/
theorem digest_eq_zero (hf : h.CollisionFree log) (hk : h.Known log t) :
    h.digest t = h.zero ↔ t = empty := by
  constructor
  · intro heq
    cases t with
    | empty => rfl
    | leaf k v => exact absurd heq (hf.nonzero _ hk)
    | node l r => exact absurd heq (hf.nonzero _ hk.1)
  · rintro rfl
    rfl

/-- Known trees are told apart by their hashes. -/
theorem digest_inj (hf : h.CollisionFree log) : ∀ {t t' : SparseTree K V}, h.Known log t →
    h.Known log t' → h.digest t = h.digest t' → t = t'
  | empty, _, _, hk', heq => ((digest_eq_zero hf hk').mp heq.symm).symm
  | leaf _ _, empty, hk, _, heq => (digest_eq_zero hf hk).mp heq
  | node _ _, empty, hk, _, heq => (digest_eq_zero hf hk).mp heq
  | leaf _ _, leaf _ _, hk, hk', heq => by
      have := hf.inj _ hk _ hk' heq
      cases this
      rfl
  | leaf _ _, node _ _, hk, hk', heq => by
      have := hf.inj _ hk _ hk'.1 heq
      cases this
  | node _ _, leaf _ _, hk, hk', heq => by
      have := hf.inj _ hk.1 _ hk' heq
      cases this
  | node l r, node l' r', hk, hk', heq => by
      have hpair := hf.inj _ hk.1 _ hk'.1 heq
      injection hpair with hl hr
      rw [digest_inj hf hk.2.1 hk'.2.1 hl, digest_inj hf hk.2.2 hk'.2.2 hr]

end Digests

/-! ## Subtrees -/

namespace SparseTree

/-- The subtrees that have entries. -/
def subs : SparseTree K V → List (SparseTree K V)
  | empty => []
  | leaf k v => [leaf k v]
  | node l r => node l r :: (subs l ++ subs r)

/-- The trees share no subtree. -/
def Apart (t q : SparseTree K V) : Prop := ∀ p ∈ subs t, p ∉ subs q

variable {key : Keying K} {t p q l r : SparseTree K V} {d : Nat}

theorem hasKey_of_mem_subs : ∀ {t p : SparseTree K V} {k : K}, p ∈ subs t → HasKey k p →
    HasKey k t
  | leaf _ _, p, k, hp, hk => by
      rw [subs, List.mem_singleton] at hp
      exact hp ▸ hk
  | node l r, p, k, hp, hk => by
      rw [subs, List.mem_cons, List.mem_append] at hp
      rcases hp with rfl | hp | hp
      · exact hk
      · exact hasKey_node.mpr (.inl (hasKey_of_mem_subs hp hk))
      · exact hasKey_node.mpr (.inr (hasKey_of_mem_subs hp hk))

theorem sizeOf_le_of_mem_subs : ∀ {t p : SparseTree K V}, p ∈ subs t → sizeOf p ≤ sizeOf t
  | leaf _ _, p, hp => by
      rw [subs, List.mem_singleton] at hp
      exact hp ▸ Nat.le_refl _
  | node l r, p, hp => by
      rw [subs, List.mem_cons, List.mem_append] at hp
      simp only [node.sizeOf_spec]
      rcases hp with rfl | hp | hp
      · exact Nat.le_refl _
      · have := sizeOf_le_of_mem_subs hp
        omega
      · have := sizeOf_le_of_mem_subs hp
        omega

/-- A tree is not part of its left half. -/
theorem node_notMem_subs_left : node l r ∉ subs l := by
  intro h
  have := sizeOf_le_of_mem_subs h
  simp only [node.sizeOf_spec] at this
  omega

theorem node_notMem_subs_right : node l r ∉ subs r := by
  intro h
  have := sizeOf_le_of_mem_subs h
  simp only [node.sizeOf_spec] at this
  omega

theorem mem_subs_branch {b : Bool} {sib below : SparseTree K V} :
    p ∈ subs (branch b sib below) ↔
      p = branch b sib below ∨ p ∈ subs sib ∨ p ∈ subs below := by
  cases b with
  | false => rw [branch_false, subs, List.mem_cons, List.mem_append, or_comm (a := p ∈ subs sib)]
  | true => rw [branch_true, subs, List.mem_cons, List.mem_append]

theorem branch_notMem_subs_sib {b : Bool} {sib below : SparseTree K V} :
    branch b sib below ∉ subs sib := by
  cases b with
  | false => exact node_notMem_subs_right
  | true => exact node_notMem_subs_left

theorem branch_notMem_subs_below {b : Bool} {sib below : SparseTree K V} :
    branch b sib below ∉ subs below := by
  cases b with
  | false => exact node_notMem_subs_left
  | true => exact node_notMem_subs_right

/-- A tree with a foreign key is not part of the other. -/
theorem notMem_subs_of_key {k : K} (hp : HasKey k p) (ht : ¬HasKey k t) : p ∉ subs t :=
  fun h => ht (hasKey_of_mem_subs h hp)

theorem Canon.exists_key_of_mem_subs : ∀ {t p : SparseTree K V} {d : Nat}, Canon key d t →
    p ∈ subs t → ∃ k, HasKey k p
  | leaf k v, p, _, _, hp => by
      rw [subs, List.mem_singleton] at hp
      exact ⟨k, hp ▸ hasKey_leaf.mpr rfl⟩
  | node l r, p, d, hc, hp => by
      rw [subs, List.mem_cons, List.mem_append] at hp
      rcases hp with rfl | hp | hp
      · obtain ⟨k, -, -, hk, -⟩ := hc.two_keys hc.2.2.1
        exact ⟨k, hk⟩
      · exact hc.1.exists_key_of_mem_subs hp
      · exact hc.2.1.exists_key_of_mem_subs hp

theorem mem_subs_join {k k' : K} {v : V} {old : SparseTree K V} : ∀ {n d : Nat},
    p ∈ subs (join key k k' (leaf k v) old n d) → HasKey k p ∨ p ∈ subs old
  | 0, d, hp => by
      rw [join, subs, List.mem_singleton] at hp
      exact .inl (hp ▸ hasKey_leaf.mpr rfl)
  | n + 1, d, hp => by
      by_cases hb : key.bit k' d = key.bit k d
      · rw [join_both rfl hb] at hp
        rcases mem_subs_branch.mp hp with rfl | hp | hp
        · exact .inl (hasKey_branch.mpr (.inr (hasKey_join n _)))
        · cases hp
        · exact mem_subs_join hp
      · rw [join_apart rfl hb] at hp
        rcases mem_subs_branch.mp hp with rfl | hp | hp
        · exact .inl (hasKey_branch.mpr (.inr (hasKey_leaf.mpr rfl)))
        · exact .inr hp
        · rw [subs, List.mem_singleton] at hp
          exact .inl (hp ▸ hasKey_leaf.mpr rfl)

/-- An insertion makes new subtrees on the path of its key only. -/
theorem mem_subs_insert [DecidableEq K] {k : K} {v : V} {t : SparseTree K V} {d : Nat} :
    Canon key d t → Under key d k t → p ∈ subs (insert key k v d t) →
      HasKey k p ∨ p ∈ subs t := by
  induction t, d using path_induction key k with
  | empty d =>
      intro _ _ hp
      rw [insert, subs, List.mem_singleton] at hp
      exact .inl (hp ▸ hasKey_leaf.mpr rfl)
  | leaf k' v' d =>
      intro _ _ hp
      by_cases hne : k = k'
      · rw [insert, if_pos hne, subs, List.mem_singleton] at hp
        exact .inl (hp ▸ hasKey_leaf.mpr rfl)
      · rw [insert_leaf_of_ne hne] at hp
        exact mem_subs_join hp
  | branch sib below d ih =>
      intro hc hu hp
      have hcb := (canon_branch.mp hc).2.1
      have hub := hu.branch hc rfl
      rw [insert_branch rfl] at hp
      rcases mem_subs_branch.mp hp with rfl | hp | hp
      · exact .inl (hasKey_branch.mpr (.inr ((hasKey_insert hcb hub).mpr (.inl rfl))))
      · exact .inr (mem_subs_branch.mpr (.inr (.inl hp)))
      · exact (ih hcb hub hp).imp_right fun h => mem_subs_branch.mpr (.inr (.inr h))

/-- A branch and what is below it are apart from whatever it is apart from. -/
theorem Apart.branch {b : Bool} {sib below : SparseTree K V} (ha : Apart (branch b sib below) q) :
    Apart below q ∧ SparseTree.branch b sib below ∉ subs q := by
  cases b with
  | false =>
      exact ⟨fun p hp => ha p (List.mem_cons_of_mem _ (List.mem_append_left _ hp)),
        ha _ List.mem_cons_self⟩
  | true =>
      exact ⟨fun p hp => ha p (List.mem_cons_of_mem _ (List.mem_append_right _ hp)),
        ha _ List.mem_cons_self⟩

/-- The two sides of a canonical branch share nothing. -/
theorem Canon.apart_branch {b : Bool} {sib below : SparseTree K V}
    (hc : Canon key d (SparseTree.branch b sib below)) : Apart below sib := by
  intro p hp hp'
  obtain ⟨-, hbelow, -, hin, hout⟩ := canon_branch.mp hc
  obtain ⟨k, hk⟩ := hbelow.exists_key_of_mem_subs hp
  have h0 := hin k (hasKey_of_mem_subs hp hk)
  rw [hout k (hasKey_of_mem_subs hp' hk)] at h0
  cases b <;> cases h0

end SparseTree

/-! ## Reading and writing rows -/

namespace Digests

variable {h : Digests K V U} {log : List (NodeInput K V U)} {row : NodeInput K V U → R}
  {store : U → Option R} {t p : SparseTree K V} [DecidableEq U]

/-- A row written under its own hash disturbs no stored tree. -/
theorem Stored.write (hf : h.CollisionFree log) {p : NodeInput K V U} (hp : p ∈ log) :
    ∀ {t : SparseTree K V}, h.Known log t → h.Stored row store t →
      h.Stored row (Function.update store (h.image p) (some (row p))) t := by
  have hset : ∀ q ∈ log, store (h.image q) = some (row q) →
      Function.update store (h.image p) (some (row p)) (h.image q) = some (row q) := by
    intro q hq hs
    rw [Function.update_apply]
    split
    · rename_i heq
      rw [hf.inj q hq p hp heq]
    · exact hs
  intro t
  induction t with
  | empty => exact fun _ _ => trivial
  | leaf k v => exact fun hk hs => hset _ hk hs
  | node l r ihl ihr =>
      exact fun hk hs => ⟨hset _ hk.1 hs.1, ihl hk.2.1 hs.2.1, ihr hk.2.2 hs.2.2⟩

/-- Removing the row of a tree that is not part of a stored tree. -/
theorem Stored.remove (hf : h.CollisionFree log) (hp : h.Known log p) :
    ∀ {t : SparseTree K V}, h.Known log t → p ∉ subs t → h.Stored row store t →
      h.Stored row (Function.update store (h.digest p) none) t := by
  intro t
  induction t with
  | empty => exact fun _ _ _ => trivial
  | leaf k v =>
      intro hk hn hs
      have hne : h.digest (.leaf k v) ≠ h.digest p := fun heq =>
        hn (digest_inj hf hk hp heq ▸ List.mem_singleton.mpr rfl)
      exact (Function.update_of_ne hne none store).trans hs
  | node l r ihl ihr =>
      intro hk hn hs
      rw [subs, List.mem_cons, List.mem_append, not_or, not_or] at hn
      have hne : h.digest (.node l r) ≠ h.digest p := fun heq =>
        hn.1 (digest_inj hf hk hp heq).symm
      exact ⟨(Function.update_of_ne hne none store).trans hs.1, ihl hk.2.1 hn.2.1 hs.2.1,
        ihr hk.2.2 hn.2.2 hs.2.2⟩

/-! ## Climbing a path -/

omit [DecidableEq U]

/-- The input of a branch: the sibling is on the side away from `b`. -/
def branchInput (b : Bool) (sib below : U) : NodeInput K V U :=
  if b then .node sib below else .node below sib

variable (h)

/-- Hash upwards from `below` along the bits of `k`, past the siblings from
level `d` on. -/
def climb (key : Keying K) (k : K) : Nat → List U → U → U
  | _, [], below => below
  | d, s :: ss, below =>
      h.image (branchInput (key.bit k d) s (climb key k (d + 1) ss below))

/-- The inputs that `climb` hashes. -/
def climbInputs (key : Keying K) (k : K) : Nat → List U → U → List (NodeInput K V U)
  | _, [], _ => []
  | d, s :: ss, below =>
      branchInput (key.bit k d) s (h.climb key k (d + 1) ss below)
        :: climbInputs key k (d + 1) ss below

variable {h} {key : Keying K} {k : K} {b : Bool} {sib below : SparseTree K V}

theorem digest_branch : h.digest (branch b sib below)
    = h.image (branchInput b (h.digest sib) (h.digest below)) := by
  cases b <;> rfl

theorem known_branch : h.Known log (branch b sib below) ↔
    branchInput b (h.digest sib) (h.digest below) ∈ log ∧ h.Known log sib ∧
      h.Known log below := by
  cases b with
  | false => exact and_congr_right fun _ => and_comm
  | true => exact Iff.rfl

theorem stored_branch : h.Stored row store (branch b sib below) ↔
    store (h.image (branchInput b (h.digest sib) (h.digest below)))
        = some (row (branchInput b (h.digest sib) (h.digest below))) ∧
      h.Stored row store sib ∧ h.Stored row store below := by
  cases b with
  | false => exact and_congr_right fun _ => and_comm
  | true => exact Iff.rfl

theorem branchInput_inj {s u s' u' : U}
    (heq : (branchInput b s u : NodeInput K V U) = branchInput b s' u') : s = s' ∧ u = u' := by
  cases b with
  | false =>
      injection heq with hu hs
      exact ⟨hs, hu⟩
  | true =>
      injection heq with hs hu
      exact ⟨hs, hu⟩

theorem branchInput_ne_leaf {s u : U} {v : V} : branchInput b s u ≠ NodeInput.leaf k v := by
  cases b <;> simp [branchInput]

/-- A tree's own path leads to its hash. -/
theorem climb_siblings (t : SparseTree K V) (d : Nat) :
    h.climb key k d ((siblings key k d t).map h.digest) (h.digest (terminal key k d t))
      = h.digest t := by
  induction t, d using path_induction key k with
  | empty d => rfl
  | leaf k' v d => rfl
  | branch sib below d ih =>
      rw [siblings_branch rfl, terminal_branch rfl, List.map_cons, climb, ih, digest_branch]

/-- A path that leads to a tree's hash from the hash of a leaf, or of
nothing, is that tree's own path. -/
theorem climb_sound (hf : h.CollisionFree log) {e : SparseTree K V} (he : h.Known log e)
    (hend : ∀ l r, e ≠ node l r) : ∀ {t : SparseTree K V} {d : Nat} {ss : List U},
    h.Known log t → h.climbInputs key k d ss (h.digest e) ⊆ log →
      h.climb key k d ss (h.digest e) = h.digest t →
        terminal key k d t = e ∧ (siblings key k d t).map h.digest = ss
  | t, d, [], hk, _, heq => by
      obtain rfl := digest_inj hf he hk heq
      cases e with
      | empty => exact ⟨rfl, rfl⟩
      | leaf k v => exact ⟨rfl, rfl⟩
      | node l r => exact absurd rfl (hend l r)
  | t, d, s :: ss, hk, hlog, heq => by
      rw [climbInputs, List.cons_subset] at hlog
      rw [climb] at heq
      rcases branch_cases key k d t with rfl | ⟨k', v, rfl⟩ | ⟨sib, below, rfl⟩
      · exact absurd heq (hf.nonzero _ hlog.1)
      · exact absurd (hf.inj _ hlog.1 _ hk heq) branchInput_ne_leaf
      · obtain ⟨hin, -, hbelow⟩ := known_branch.mp hk
        rw [digest_branch] at heq
        obtain ⟨hs, hu⟩ := branchInput_inj (hf.inj _ hlog.1 _ hin heq)
        obtain ⟨hterm, hsib⟩ := climb_sound hf he hend hbelow hlog.2 hu
        rw [terminal_branch rfl, siblings_branch rfl, List.map_cons, hsib, hs]
        exact ⟨hterm, rfl⟩

end Digests

/-! ## The siblings of a path -/

namespace SparseTree

variable {key : Keying K} {k : K} {t q : SparseTree K V} {d : Nat}

theorem Canon.not_hasKey_of_mem_siblings : Canon key d t → q ∈ siblings key k d t →
    ¬HasKey k q := by
  induction t, d using path_induction key k with
  | empty d => exact fun _ hq => nomatch hq
  | leaf k' v d => exact fun _ hq => nomatch hq
  | branch sib below d ih =>
      intro hc hq
      rw [siblings_branch rfl, List.mem_cons] at hq
      rcases hq with rfl | hq
      · exact hc.not_hasKey_sib rfl
      · exact ih (canon_branch.mp hc).2.1 hq

/-- The last sibling of a leaf has entries. -/
theorem Canon.getLast_siblings_ne_empty {k' : K} {v : V} : Canon key d t →
    terminal key k d t = leaf k' v → (siblings key k d t).getLast? = some q → q ≠ empty := by
  induction t, d using path_induction key k with
  | empty d => exact fun _ _ hq => nomatch hq
  | leaf k' v d => exact fun _ _ hq => nomatch hq
  | branch sib below d ih =>
      intro hc hterm hq
      obtain ⟨-, hcb, hsize, -, -⟩ := canon_branch.mp hc
      rw [terminal_branch rfl] at hterm
      rw [siblings_branch rfl] at hq
      rcases branch_cases key k (d + 1) below with rfl | ⟨k', v', rfl⟩ | ⟨sib', below', rfl⟩
      · cases hterm
      · rintro rfl
        simp only [siblings, List.getLast?_singleton, Option.some.injEq] at hq
        rw [hq] at hsize
        simp [size] at hsize
      · rw [siblings_branch rfl, List.getLast?_cons_cons, ← siblings_branch rfl] at hq
        exact ih hcb hterm hq

/-- Deletion leaves something of a branch. -/
theorem Canon.erase_branch_ne_empty [DecidableEq K] {b : Bool} {sib below : SparseTree K V}
    (hc : Canon key d (branch b sib below)) : erase key k d (branch b sib below) ≠ empty := by
  obtain ⟨-, -, hsize, -, -⟩ := canon_branch.mp hc
  rw [← size_branch (b := b)] at hsize
  obtain ⟨k₁, k₂, hne, h₁, h₂⟩ := hc.two_keys hsize
  have hother : ∃ k', k' ≠ k ∧ HasKey k' (branch b sib below) := by
    by_cases heq : k₁ = k
    · exact ⟨k₂, fun h => hne (heq.trans h.symm), h₂⟩
    · exact ⟨k₁, heq, h₁⟩
  obtain ⟨k', hne', hk'⟩ := hother
  intro hempty
  have := (hasKey_erase hc (k := k)).mpr ⟨hne', hk'⟩
  rw [hempty] at this
  exact not_hasKey_empty this

end SparseTree

namespace Digests

variable {h : Digests K V U} {log : List (NodeInput K V U)} {row : NodeInput K V U → R}
  {store : U → Option R} {key : Keying K} {k : K} {t q : SparseTree K V} {d : Nat}

theorem Known.of_mem_siblings : h.Known log t → q ∈ siblings key k d t → h.Known log q := by
  induction t, d using path_induction key k with
  | empty d => exact fun _ hq => nomatch hq
  | leaf k' v d => exact fun _ hq => nomatch hq
  | branch sib below d ih =>
      intro hk hq
      obtain ⟨-, hsib, hbelow⟩ := known_branch.mp hk
      rw [siblings_branch rfl, List.mem_cons] at hq
      rcases hq with rfl | hq
      · exact hsib
      · exact ih hbelow hq

theorem Known.terminal : h.Known log t → h.Known log (terminal key k d t) := by
  induction t, d using path_induction key k with
  | empty d => exact id
  | leaf k' v d => exact id
  | branch sib below d ih =>
      intro hk
      rw [terminal_branch rfl]
      exact ih (known_branch.mp hk).2.2

theorem Stored.of_mem_siblings : h.Stored row store t → q ∈ siblings key k d t →
    h.Stored row store q := by
  induction t, d using path_induction key k with
  | empty d => exact fun _ hq => nomatch hq
  | leaf k' v d => exact fun _ hq => nomatch hq
  | branch sib below d ih =>
      intro hs hq
      obtain ⟨-, hsib, hbelow⟩ := stored_branch.mp hs
      rw [siblings_branch rfl, List.mem_cons] at hq
      rcases hq with rfl | hq
      · exact hsib
      · exact ih hbelow hq

end Digests

end PrivacyWallet
