import Mathlib.Algebra.Order.Ring.Nat
import Mathlib.Data.Nat.Bitwise
import Mathlib.Data.Set.Function
import Mathlib.Tactic.Ring
import Mathlib.Tactic.Linarith

/-!
# Complete binary trees over a partial 2-to-1 hash

`node compress leaf d i` is the hash of the `i`-th subtree of depth `d` of
the infinite row of leaves `leaf`: its leaves are `i * 2^d` up to
`(i + 1) * 2^d`. The hash may refuse a pair (`none`), and a node above a
refused pair is `none` too. `root` is the node at the top of a tree.

Two facts carry every argument about incremental trees: a node depends
only on its own leaves (`node_congr`), and a subtree that holds nothing
but the padding leaf is the padding hash of its depth (`node_padding`).

`full` is the node for a hash that refuses nothing, and `climb` hashes
upwards from a leaf along given siblings. If no two of the pairs that the
tree and the climb hash collide, a climb that ends in the root started from
the leaf at its place (`climb_sound`). `pathTo` are the siblings on the way up.
-/

namespace PrivacyWallet

namespace BinaryTree

variable {U : Type}

/-- The hash of the `i`-th subtree of depth `d`. -/
def node (compress : U → U → Option U) (leaf : Nat → U) : Nat → Nat → Option U
  | 0, i => some (leaf i)
  | d + 1, i => do
      let l ← node compress leaf d (2 * i)
      let r ← node compress leaf d (2 * i + 1)
      compress l r

/-- The hash of the complete tree of depth `d` on leaves `0 .. 2^d`. -/
def root (compress : U → U → Option U) (leaf : Nat → U) (d : Nat) : Option U :=
  node compress leaf d 0

/-- A finite list of leaves, padded on the right with `pad`. -/
def padded (leaves : List U) (pad : U) : Nat → U := fun i => leaves.getD i pad

variable {compress : U → U → Option U} {leaf leaf' : Nat → U}

theorem node_succ (d i : Nat) :
    node compress leaf (d + 1) i
      = (node compress leaf d (2 * i)).bind fun l =>
          (node compress leaf d (2 * i + 1)).bind fun r => compress l r := rfl

theorem node_succ_of {d i : Nat} {l r : U}
    (hl : node compress leaf d (2 * i) = some l)
    (hr : node compress leaf d (2 * i + 1) = some r) :
    node compress leaf (d + 1) i = compress l r := by
  rw [node_succ, hl, hr]; rfl

/-- Below a node that has a hash every node has one: here along the path
above leaf `n`. -/
theorem node_path_some {n l : Nat} : ∀ {k : Nat} {r : U},
    node compress leaf (l + k) (n / 2 ^ (l + k)) = some r →
      ∃ v, node compress leaf l (n / 2 ^ l) = some v
  | 0, r, h => ⟨r, h⟩
  | k + 1, r, h => by
      rw [← Nat.add_assoc, node_succ] at h
      obtain ⟨x, hx, h⟩ := Option.bind_eq_some_iff.mp h
      obtain ⟨y, hy, -⟩ := Option.bind_eq_some_iff.mp h
      have hidx : n / 2 ^ (l + k + 1) = n / 2 ^ (l + k) / 2 := by
        rw [Nat.div_div_eq_div_mul, pow_succ]
      rw [hidx] at hx hy
      generalize hq : n / 2 ^ (l + k) = q at hx hy
      have hpath : ∃ v, node compress leaf (l + k) q = some v := by
        rcases Nat.mod_two_eq_zero_or_one q with h0 | h1
        · exact ⟨x, by rwa [show 2 * (q / 2) = q by omega] at hx⟩
        · exact ⟨y, by rwa [show 2 * (q / 2) + 1 = q by omega] at hy⟩
      obtain ⟨v, hv⟩ := hpath
      exact node_path_some (hq ▸ hv)

/-- A node reads only the leaves below it. -/
theorem node_congr : ∀ {d i : Nat},
    (∀ j, i * 2 ^ d ≤ j → j < (i + 1) * 2 ^ d → leaf j = leaf' j) →
      node compress leaf d i = node compress leaf' d i
  | 0, i, h => by
      simp only [node, Option.some.injEq]
      exact h i (by simp) (by simp)
  | d + 1, i, h => by
      have hl : node compress leaf d (2 * i) = node compress leaf' d (2 * i) :=
        node_congr fun j hj hj' => h j
          (by rw [pow_succ]; nlinarith) (by rw [pow_succ]; nlinarith)
      have hr : node compress leaf d (2 * i + 1)
          = node compress leaf' d (2 * i + 1) :=
        node_congr fun j hj hj' => h j
          (by rw [pow_succ]; nlinarith) (by rw [pow_succ]; nlinarith)
      rw [node_succ, node_succ, hl, hr]

/-- `zs` lists the hashes of subtrees that hold only the padding leaf
`zs 0`, up to depth `n`. -/
def IsPadding (compress : U → U → Option U) (zs : Nat → U) (n : Nat) : Prop :=
  ∀ d, d < n → compress (zs d) (zs d) = some (zs (d + 1))

theorem node_padding {zs : Nat → U} {n : Nat} (hz : IsPadding compress zs n) :
    ∀ {d i : Nat}, d ≤ n →
      (∀ j, i * 2 ^ d ≤ j → j < (i + 1) * 2 ^ d → leaf j = zs 0) →
        node compress leaf d i = some (zs d)
  | 0, i, _, h => by
      simp only [node, Option.some.injEq]
      exact h i (by simp) (by simp)
  | d + 1, i, hd, h => by
      have hl : node compress leaf d (2 * i) = some (zs d) :=
        node_padding hz (by omega) fun j hj hj' => h j
          (by rw [pow_succ]; nlinarith) (by rw [pow_succ]; nlinarith)
      have hr : node compress leaf d (2 * i + 1) = some (zs d) :=
        node_padding hz (by omega) fun j hj hj' => h j
          (by rw [pow_succ]; nlinarith) (by rw [pow_succ]; nlinarith)
      rw [node_succ_of hl hr]
      exact hz d (by omega)

theorem padded_of_lt {leaves : List U} {pad : U} {i : Nat}
    (h : i < leaves.length) : padded leaves pad i = leaves[i] := by
  simp [padded, List.getD_eq_getElem?_getD, h]

theorem padded_of_le {leaves : List U} {pad : U} {i : Nat}
    (h : leaves.length ≤ i) : padded leaves pad i = pad := by
  simp [padded, List.getD_eq_getElem?_getD, h]

/-- Appending leaves does not touch the leaves before them. -/
theorem padded_append_of_lt {leaves more : List U} {pad : U} {i : Nat}
    (h : i < leaves.length) :
    padded (leaves ++ more) pad i = padded leaves pad i := by
  rw [padded_of_lt h, padded_of_lt (by simp; omega), List.getElem_append_left h]

/-! ## A hash that refuses nothing -/

variable {hash : U → U → U}

/-- The hash of the `i`-th subtree of depth `d`. -/
def full (hash : U → U → U) (leaf : Nat → U) : Nat → Nat → U
  | 0, i => leaf i
  | d + 1, i => hash (full hash leaf d (2 * i)) (full hash leaf d (2 * i + 1))

/-- A partial hash that accepts the images of `f` and hashes them as `hash`
does has the nodes of `hash`. -/
theorem node_eq_full {V : Type} {compress : V → V → Option V} {f : U → V}
    (hf : ∀ a b, compress (f a) (f b) = some (f (hash a b))) {leaf : Nat → U} :
    ∀ d i, node compress (fun j => f (leaf j)) d i = some (f (full hash leaf d i))
  | 0, _ => rfl
  | d + 1, i => by
      rw [node_succ, node_eq_full hf d (2 * i), node_eq_full hf d (2 * i + 1)]
      exact hf _ _

/-- Hash upwards from `cur`: each step has the side it comes from, `true`
for the right, and the sibling. -/
def climb (hash : U → U → U) : List (Bool × U) → U → U
  | [], cur => cur
  | (b, sib) :: path, cur => climb hash path (if b then hash sib cur else hash cur sib)

/-- The pairs that `climb` hashes. -/
def climbInputs (hash : U → U → U) : List (Bool × U) → U → List (U × U)
  | [], _ => []
  | (b, sib) :: path, cur =>
      (if b then (sib, cur) else (cur, sib))
        :: climbInputs hash path (if b then hash sib cur else hash cur sib)

/-- The pairs hashed in a tree of depth `d`. -/
def fullInputs (hash : U → U → U) (leaf : Nat → U) (d : Nat) : Set (U × U) :=
  {p | ∃ l < d, ∃ i, p = (full hash leaf l (2 * i), full hash leaf l (2 * i + 1))}

/-- The path follows the bits of a position. -/
def Follows (i : Nat) (path : List (Bool × U)) : Prop :=
  ∀ k (h : k < path.length), path[k].1 = i.testBit k

theorem Follows.tail {i : Nat} {b : Bool} {sib : U} {path : List (Bool × U)}
    (h : Follows i ((b, sib) :: path)) : b = decide (i % 2 = 1) ∧ Follows (i / 2) path := by
  constructor
  · have h0 := h 0 (Nat.succ_pos _)
    rw [List.getElem_cons_zero, Nat.testBit_zero] at h0
    exact h0
  · intro k hk
    have hk' := h (k + 1) (Nat.succ_lt_succ hk)
    rw [List.getElem_cons_succ, Nat.testBit_succ] at hk'
    exact hk'

/-- The two halves of the node above position `i`. -/
theorem full_above (leaf : Nat → U) (l i : Nat) :
    full hash leaf (l + 1) (i / 2)
      = hash (full hash leaf l (2 * (i / 2))) (full hash leaf l (2 * (i / 2) + 1)) := rfl

/-- A climb that ends in the node above a position started from the node at
that position. -/
theorem climb_sound {S : Set (U × U)} (hinj : Set.InjOn (fun p : U × U => hash p.1 p.2) S)
    {leaf : Nat → U} {d : Nat} (htree : fullInputs hash leaf d ⊆ S) :
    ∀ {path : List (Bool × U)} {l i : Nat} {cur : U}, Follows i path → l + path.length = d →
      (∀ p ∈ climbInputs hash path cur, p ∈ S) →
      climb hash path cur = full hash leaf d (i / 2 ^ path.length) →
        cur = full hash leaf l i
  | [], l, i, cur, _, hd, _, heq => by
      rw [List.length_nil, Nat.add_zero] at hd
      rw [List.length_nil, pow_zero, Nat.div_one, ← hd] at heq
      exact heq
  | (b, sib) :: path, l, i, cur, hfol, hd, hlog, heq => by
      obtain ⟨hb, hfol'⟩ := hfol.tail
      rw [climbInputs, List.forall_mem_cons] at hlog
      rw [climb] at heq
      rw [List.length_cons] at hd
      rw [List.length_cons, pow_succ', ← Nat.div_div_eq_div_mul] at heq
      have hup := climb_sound hinj htree (l := l + 1) hfol' (by omega) hlog.2 heq
      have hin : (full hash leaf l (2 * (i / 2)), full hash leaf l (2 * (i / 2) + 1)) ∈ S :=
        htree ⟨l, by omega, i / 2, rfl⟩
      rw [full_above] at hup
      -- which half the climb came from
      by_cases hodd : i % 2 = 1
      · rw [decide_eq_true hodd] at hb
        subst hb
        have hpair := hinj hlog.1 hin hup
        rw [show i = 2 * (i / 2) + 1 by omega]
        exact congrArg Prod.snd hpair
      · rw [decide_eq_false hodd] at hb
        subst hb
        have hpair := hinj hlog.1 hin hup
        rw [show i = 2 * (i / 2) by omega]
        exact congrArg Prod.fst hpair

theorem padded_map {V : Type} (f : U → V) (leaves : List U) (pad : U) :
    padded (leaves.map f) (f pad) = fun j => f (padded leaves pad j) := by
  funext j
  simp [padded, List.getD_eq_getElem?_getD, Option.getD_map]

/-! ## Siblings -/

/-- The sides and siblings on the way up from position `i` of level `l`. -/
def pathTo (hash : U → U → U) (leaf : Nat → U) : Nat → Nat → Nat → List (Bool × U)
  | _, 0, _ => []
  | l, k + 1, i =>
      (decide (i % 2 = 1), full hash leaf l (i ^^^ 1)) :: pathTo hash leaf (l + 1) k (i / 2)

end BinaryTree

end PrivacyWallet
