import PrivacyWallet.Asp.Membership
import PrivacyWallet.Pool.MerkleTree

/-!
# The contract as a list of allowed leaves

`Allowlist` is what the contract is for: an administrator, a flag, and the
leaves in the order of their insertion. `Holds` connects it to the storage,
whose root is that of the complete tree on the leaves. From construction on
any calls do to the storage what they do to the list, and end the same way
(`run_allowlist`).

The tree is the pool's, with one leaf at a time where the pool inserts a
pair. So its walk to the root is the pool's walk, started one level lower
(`insertLoop_run`), and what is known of that walk carries over:

- **the walk** (`Holds.walk`): it computes the root of the tree with the new
  leaf; `add_one_div_pow` is the pool's fact about positions for one leaf;
- **the storage** (`Holds.inserted`): the writes after the walk make it the
  tree of the longer list;
- **a call** (`call_refines`): who may insert (`mayInsert_bind`), what is no
  field element (`insertRound_outside`), and when the tree is full are told
  apart before the walk; the other calls write entries that the tree does not
  have (`Holds.of_eq`);
- **the constructor** (`constructor_represents`): its loop stores the padding
  hashes, which is all that the empty tree needs.

No assumption on the hash is left: the compression refuses no field elements,
and the stored hashes stay among them (`InField`).
-/

namespace PrivacyWallet

namespace Asp

namespace Membership

open InvokeM Merkle PrivacyWallet.BinaryTree

variable {A : Type} {p : Poseidon2} {s : Storage A}

/-! ## The walk to the root -/

/-- The compression on field elements, which refuses none. -/
def compress (p : Poseidon2) (a b : U256) : Option U256 := some (p.compressed a b)

/-- The part of the storage that the walk works on, as the pool has it. -/
def Storage.tree (s : Storage A) : MerkleStorage U256 where
  levels := s.levels
  currentRootIndex := none
  nextIndex := s.nextIndex
  filledSubtree := s.filledSubtrees
  zeroes := s.zeroes
  root := fun _ => none

/-- The storage after the walk. -/
def Storage.walked (s : Storage A) (t : MerkleStorage U256) : Storage A :=
  { s with filledSubtrees := t.filledSubtree }

/-- The stored hashes are field elements. -/
structure InField (s : Storage A) : Prop where
  filled : ∀ l v, s.filledSubtrees l = some v → v < bn256Modulus
  zeroes : ∀ l v, s.zeroes l = some v → v < bn256Modulus

theorem InField.setFilled (h : InField s) {v : U256} (hv : v < bn256Modulus) (lvl : Nat) :
    InField (s.setFilled lvl v) where
  filled := by
    intro l u hu
    by_cases hl : l = lvl
    · subst hl
      obtain rfl : v = u := by simpa [Storage.setFilled] using hu
      exact hv
    · have hkept : (s.setFilled lvl v).filledSubtrees l = s.filledSubtrees l :=
        Function.update_of_ne hl _ _
      exact h.filled l u (hkept ▸ hu)
  zeroes := h.zeroes

/-- One round of the walk is a round of the pool's. -/
theorem insertRound_run {lvl index : Nat} {hash up : U256} {t : MerkleStorage U256}
    (hin : InField s) (hhash : hash < bn256Modulus)
    (hrun : climbRound (compress p) lvl hash index s.tree = (.ok up, t)) :
    insertRound p lvl hash index s = (.ok up, s.walked t) ∧ up < bn256Modulus ∧
      InField (s.walked t) ∧ (s.walked t).tree = t := by
  unfold climbRound at hrun
  unfold insertRound
  split at hrun
  · rename_i hodd
    rw [if_pos hodd, read_bind]
    obtain ⟨_, _, hread, hrun⟩ := bind_eq_ok.mp hrun
    obtain ⟨rfl, rfl⟩ := read_eq_ok.mp hread
    obtain ⟨left, _, hget, hrun⟩ := bind_eq_ok.mp hrun
    obtain ⟨hleft, rfl⟩ := okOr_eq_ok.mp hget
    obtain ⟨hup, rfl⟩ := orTrap_eq_ok.mp hrun
    obtain rfl := Option.some.inj hup
    have hstored : s.filledSubtrees lvl = some left := hleft
    rw [hstored, okOr_some_bind, p.compress_eq (hin.filled _ _ hleft) hhash]
    exact ⟨rfl, p.compressed_lt _ _, hin, rfl⟩
  · rename_i heven
    rw [if_neg heven, update_bind, read_bind]
    rw [update_bind] at hrun
    obtain ⟨_, _, hread, hrun⟩ := bind_eq_ok.mp hrun
    obtain ⟨rfl, rfl⟩ := read_eq_ok.mp hread
    obtain ⟨zero, _, hget, hrun⟩ := bind_eq_ok.mp hrun
    obtain ⟨hzero, rfl⟩ := okOr_eq_ok.mp hget
    obtain ⟨hup, rfl⟩ := orTrap_eq_ok.mp hrun
    obtain rfl := Option.some.inj hup
    have hstored : (s.setFilled lvl hash).zeroes lvl = some zero := hzero
    rw [hstored, okOr_some_bind, p.compress_eq hhash (hin.zeroes _ _ hzero)]
    exact ⟨rfl, p.compressed_lt _ _, hin.setFilled hhash lvl, rfl⟩

/-- The walk is the pool's. -/
theorem insertLoop_run : ∀ {n lvl index : Nat} {hash hash' : U256} {s : Storage A}
    {t : MerkleStorage U256}, InField s → hash < bn256Modulus →
      climb (compress p) n lvl hash index s.tree = (.ok hash', t) →
      insertLoop p n lvl hash index s = (.ok hash', s.walked t) ∧ hash' < bn256Modulus ∧
        InField (s.walked t)
  | 0, _, _, hash, _, s, _, hin, hhash, hrun => by
      obtain ⟨rfl, rfl⟩ := pure_eq_ok.mp hrun
      exact ⟨rfl, hhash, hin⟩
  | n + 1, lvl, index, hash, hash', s, t, hin, hhash, hrun => by
      obtain ⟨up, t₁, hround, hrest⟩ := bind_eq_ok.mp hrun
      obtain ⟨hround', hup, hin₁, htree⟩ := insertRound_run hin hhash hround
      rw [← htree] at hrest
      obtain ⟨hrest', hlt, hin'⟩ := insertLoop_run hin₁ hup hrest
      refine ⟨?_, hlt, hin'⟩
      rw [insertLoop, bind_of_ok hround', hrest']
      rfl

/-- A leaf outside the field makes the first hash panic. -/
theorem insertRound_outside {lvl index : Nat} {hash v z : U256} (hhash : ¬hash < bn256Modulus)
    (hleft : index % 2 = 1 → s.filledSubtrees lvl = some v) (hzero : s.zeroes lvl = some z) :
    (insertRound p lvl hash index s).1 = .error .trap := by
  have hrefuse : ∀ a b, ¬(a < bn256Modulus ∧ b < bn256Modulus) → p.compress a b = none := by
    intro a b h
    rw [Option.eq_none_iff_forall_not_mem]
    intro u hu
    obtain ⟨ha, hb, -⟩ := p.compress_eq_some.mp hu
    exact h ⟨ha, hb⟩
  unfold insertRound
  split
  · rename_i hodd
    rw [read_bind, hleft hodd, okOr_some_bind, hrefuse v hash fun h => hhash h.2]
    rfl
  · have hstored : (s.setFilled lvl hash).zeroes lvl = some z := hzero
    rw [update_bind, read_bind, hstored, okOr_some_bind, hrefuse hash z fun h => hhash h.1]
    rfl

/-! ## The tree in storage -/

/-- The storage holds the complete tree on the leaves; `zf l` is the padding
hash of depth `l`. -/
structure Holds (p : Poseidon2) (zf : Nat → U256) (levels : Nat) (leaves : List U256)
    (s : Storage A) : Prop where
  levels_eq : s.levels = some levels
  next_eq : s.nextIndex = some leaves.length
  levels_pos : 1 ≤ levels
  levels_le : levels ≤ 32
  le : leaves.length ≤ 2 ^ levels
  inField : InField s
  zeroes_eq : ∀ l, l ≤ levels → s.zeroes l = some (zf l)
  filled : ∀ l, l < levels → leaves.length / 2 ^ l % 2 = 1 →
    ∃ v, s.filledSubtrees l = some v ∧
      node (compress p) (padded leaves (zf 0)) l (leaves.length / 2 ^ l - 1) = some v
  root_eq : ∃ r, s.root = some r ∧
    BinaryTree.root (compress p) (padded leaves (zf 0)) levels = some r

variable {zf : Nat → U256} {levels : Nat} {leaves : List U256} {leaf : U256}

/-- One more leaf moves the position at a level by a carry or not at all,
and a carry to an odd position leaves an even one. -/
theorem add_one_div_pow (n l : Nat) :
    (n + 1) / 2 ^ l = n / 2 ^ l ∨ (n + 1) / 2 ^ l = n / 2 ^ l + 1 := by
  rw [Nat.succ_div]
  split
  · exact Or.inr rfl
  · exact Or.inl rfl

/-- The walk of a new leaf computes the root of the tree with it. -/
theorem Holds.walk (h : Holds p zf levels leaves s) (hpad : IsPadding (compress p) zf levels)
    (hleaf : leaf < bn256Modulus) :
    ∃ hash t, insertLoop p levels 0 leaf leaves.length s = (.ok hash, s.walked t) ∧
      InField (s.walked t) ∧
      Climbed (compress p) (padded (leaves ++ [leaf]) (zf 0)) leaves.length 0 levels hash
        s.tree t := by
  have hnode : node (compress p) (padded (leaves ++ [leaf]) (zf 0)) 0 (leaves.length / 2 ^ 0)
      = some leaf := by
    simp [node, padded_of_lt]
  have hout := climb_outcome levels 0 leaf s.tree hnode
    (fun l _ hl => h.zeroes_eq l (by omega))
    (fun l _ hl _ => node_padding hpad (by omega) fun j hj _ => padded_of_le (by
      have hblock := lt_div_pow_succ_mul leaves.length l
      rw [List.length_append, List.length_singleton]
      omega))
    (fun l _ hl hodd => by
      obtain ⟨v, hv, hvn⟩ := h.filled l (by omega) hodd
      refine ⟨v, hv, (node_append ?_).trans hvn⟩
      rw [Nat.sub_add_cancel (one_le_of_odd hodd)]
      exact div_pow_mul_le leaves.length l)
  rw [pow_zero, Nat.div_one] at hout
  rcases hout with ⟨hash, t, hrun, hcl⟩ | ⟨x, y, t, hc, -⟩
  · obtain ⟨hloop, -, hin⟩ := insertLoop_run h.inField hleaf hrun
    exact ⟨hash, t, hloop, hin, hcl⟩
  · cases hc

/-- The storage after an insertion. -/
def Storage.inserted (s : Storage A) (t : MerkleStorage U256) (leaf hash : U256) (n : Nat) :
    Storage A :=
  { s.walked t with
    root := some hash
    events := s.events ++ [.leafAdded leaf n hash]
    nextIndex := some (n + 1) }

/-- The storage after the walk holds the tree with the new leaf. On each level
the sibling was there and was not overwritten, or the leaf completes one, which
the walk has just stored. -/
theorem Holds.inserted (h : Holds p zf levels leaves s) (hroom : leaves.length < 2 ^ levels)
    {hash : U256} {t : MerkleStorage U256} (hin : InField (s.walked t))
    (hcl : Climbed (compress p) (padded (leaves ++ [leaf]) (zf 0)) leaves.length 0 levels hash
      s.tree t) :
    Holds p zf levels (leaves ++ [leaf]) (s.inserted t leaf hash leaves.length) where
  levels_eq := h.levels_eq
  next_eq := by
    rw [List.length_append, List.length_singleton]
    rfl
  levels_pos := h.levels_pos
  levels_le := h.levels_le
  le := by
    rw [List.length_append, List.length_singleton]
    omega
  inField := ⟨hin.filled, hin.zeroes⟩
  zeroes_eq := h.zeroes_eq
  filled := by
    intro l hl hodd
    rw [List.length_append, List.length_singleton] at hodd ⊢
    show ∃ v, t.filledSubtree l = some v ∧ _
    rw [hcl.filled l]
    rcases add_one_div_pow leaves.length l with hsame | hcarry
    · -- no carry: the sibling was already there and was not overwritten
      rw [hsame] at hodd ⊢
      rw [if_neg (by omega)]
      obtain ⟨v, hv, hvn⟩ := h.filled l hl hodd
      refine ⟨v, hv, (node_append ?_).trans hvn⟩
      rw [Nat.sub_add_cancel (one_le_of_odd hodd)]
      exact div_pow_mul_le leaves.length l
    · -- a carry: the walk has just stored the finished left sibling
      rw [hcarry] at hodd ⊢
      rw [if_pos ⟨Nat.zero_le _, by omega, by omega⟩, Nat.add_sub_cancel]
      have hroot := hcl.node_eq
      rw [show 0 + levels = l + (levels - l) by omega] at hroot
      obtain ⟨v, hv⟩ := node_path_some hroot
      exact ⟨v, hv, hv⟩
  root_eq := by
    have hroot := hcl.node_eq
    rw [Nat.zero_add, Nat.div_eq_of_lt hroom] at hroot
    exact ⟨hash, rfl, hroot⟩

/-! ## The list -/

/-- Who administers the list, whether anyone may insert, and the leaves. -/
structure Allowlist (A : Type) where
  admin : A
  adminOnly : Bool
  leaves : List U256

variable [DecidableEq A]

/-- One call on the list, in a tree with room for `capacity` leaves. -/
def Allowlist.call (capacity : Nat) (b : Allowlist A) (auth : List A) :
    Call A → Except (Fail Error) (Allowlist A)
  | .insertLeaf leaf =>
      if b.adminOnly = true ∧ b.admin ∉ auth then .error .trap
      else if b.leaves.length = capacity then .error (.err .merkleTreeFull)
      else if leaf < bn256Modulus then .ok { b with leaves := b.leaves ++ [leaf] }
      else .error .trap
  | .updateAdmin newAdmin =>
      if b.admin ∉ auth then .error .trap else .ok { b with admin := newAdmin }
  | .setAdminInsertOnly adminOnly =>
      if b.admin ∉ auth then .error .trap else .ok { b with adminOnly }

/-- A call that fails leaves no trace. -/
def Allowlist.step (capacity : Nat) (b : Allowlist A) (c : List A × Call A) : Allowlist A :=
  match b.call capacity c.1 c.2 with
  | .ok b' => b'
  | .error _ => b

def Allowlist.answer (capacity : Nat) (b : Allowlist A) (c : List A × Call A) :
    List (Except (Fail Error) Unit) :=
  [(b.call capacity c.1 c.2).map fun _ => ()]

/-- No leaves yet, and only the administrator may insert. -/
def Allowlist.new (admin : A) : Allowlist A := ⟨admin, true, []⟩

/-- The storage keeps the list. -/
structure Represents (p : Poseidon2) (zf : Nat → U256) (levels : Nat) (s : Storage A)
    (b : Allowlist A) : Prop where
  admin : s.admin = some b.admin
  adminOnly : s.adminInsertOnly = some b.adminOnly
  tree : Holds p zf levels b.leaves s

variable {b : Allowlist A} {auth : List A}

/-- Whoever may insert passes the first check, nobody else does. -/
theorem mayInsert_bind {α : Type} (h : Represents p zf levels s b) (k : Unit → MembershipM A α) :
    ((when (s.adminInsertOnly.getD true = true) do
        let admin ← okOr s.admin .notInitialized
        requireAuth auth admin) >>= k) s
      = if b.adminOnly = true ∧ b.admin ∉ auth then (.error .trap, s) else k () s := by
  rw [h.adminOnly, Option.getD_some, h.admin]
  cases b.adminOnly with
  | false =>
      rw [if_neg (by simp)]
      rfl
  | true =>
      by_cases hauth : b.admin ∈ auth
      · rw [if_neg (by simp [hauth]), when_run_of rfl]
        show (requireAuth auth b.admin >>= k) s = _
        rw [requireAuth, if_pos hauth]
        rfl
      · rw [if_pos ⟨rfl, hauth⟩, when_run_of rfl]
        show (requireAuth auth b.admin >>= k) s = _
        rw [requireAuth, if_neg hauth]
        rfl

/-- What a call does and how it ends is what it does to the list. -/
def Refines (p : Poseidon2) (zf : Nat → U256) (levels : Nat) (s : Storage A)
    (c : List A × Call A) : Except (Fail Error) (Allowlist A) → Prop
  | .ok b' => ∃ s', callBody p c.1 c.2 s = (.ok (), s') ∧ Represents p zf levels s' b'
  | .error e => (callBody p c.1 c.2 s).1 = .error e

theorem insertLeaf_refines (hpad : IsPadding (compress p) zf levels)
    (h : Represents p zf levels s b) (leaf : U256) :
    Refines p zf levels s (auth, .insertLeaf leaf)
      (b.call (2 ^ levels) auth (.insertLeaf leaf)) := by
  have ht := h.tree
  have hpow : 2 ^ levels ≤ 2 ^ 32 := Nat.pow_le_pow_right (by omega) ht.levels_le
  have hcap : checkedShlOneU64 levels = some (2 ^ levels) :=
    if_pos (by have := ht.levels_le; omega)
  rw [Allowlist.call]
  by_cases hauth : b.adminOnly = true ∧ b.admin ∉ auth
  · rw [if_pos hauth]
    show (insertLeaf p auth leaf s).1 = _
    rw [insertLeaf, read_bind, mayInsert_bind h, if_pos hauth]
  rw [if_neg hauth]
  by_cases hfull : b.leaves.length = 2 ^ levels
  · rw [if_pos hfull]
    show (insertLeaf p auth leaf s).1 = _
    rw [insertLeaf, read_bind, mayInsert_bind h, if_neg hauth, ht.levels_eq, okOr_some_bind,
      ht.next_eq, okOr_some_bind, hcap, okOr_some_bind, rejectIf_bind_of hfull.ge]
  have hroom : b.leaves.length < 2 ^ levels := lt_of_le_of_ne ht.le hfull
  rw [if_neg hfull]
  by_cases hleaf : leaf < bn256Modulus
  · rw [if_pos hleaf]
    obtain ⟨hash, t, hloop, hin, hcl⟩ := ht.walk hpad hleaf
    refine ⟨s.inserted t leaf hash b.leaves.length, ?_, h.admin, h.adminOnly,
      ht.inserted hroom hin hcl⟩
    have hnext : checkedAddU64 b.leaves.length 1 = some (b.leaves.length + 1) :=
      if_pos (by omega)
    show insertLeaf p auth leaf s = _
    rw [insertLeaf, read_bind, mayInsert_bind h, if_neg hauth, ht.levels_eq, okOr_some_bind,
      ht.next_eq, okOr_some_bind, hcap, okOr_some_bind, rejectIf_bind_of_not (not_le.mpr hroom),
      bind_of_ok hloop, update_bind, update_bind, hnext, okOr_some_bind]
    rfl
  · rw [if_neg hleaf]
    have htrap : (insertRound p 0 leaf b.leaves.length s).1 = .error .trap := by
      by_cases hodd : b.leaves.length % 2 = 1
      · obtain ⟨v, hv, -⟩ := ht.filled 0 ht.levels_pos (by simpa using hodd)
        exact insertRound_outside hleaf (fun _ => hv) (ht.zeroes_eq 0 (Nat.zero_le _))
      · exact insertRound_outside (v := leaf) hleaf (fun h => absurd h hodd)
          (ht.zeroes_eq 0 (Nat.zero_le _))
    obtain ⟨n, hn⟩ : ∃ n, levels = n + 1 := ⟨levels - 1, by have := ht.levels_pos; omega⟩
    have hloop : insertLoop p levels 0 leaf b.leaves.length s
        = (.error .trap, (insertRound p 0 leaf b.leaves.length s).2) := by
      rw [hn, insertLoop]
      exact bind_of_error (Prod.ext htrap rfl)
    show (insertLeaf p auth leaf s).1 = _
    rw [insertLeaf, read_bind, mayInsert_bind h, if_neg hauth, ht.levels_eq, okOr_some_bind,
      ht.next_eq, okOr_some_bind, hcap, okOr_some_bind, rejectIf_bind_of_not (not_le.mpr hroom),
      bind_of_error hloop]

omit [DecidableEq A] in
/-- A change of another entry keeps the tree. -/
theorem Holds.of_eq {s' : Storage A} {leaves : List U256} (h : Holds p zf levels leaves s)
    (hlevels : s'.levels = s.levels) (hnext : s'.nextIndex = s.nextIndex)
    (hfilled : s'.filledSubtrees = s.filledSubtrees) (hzeroes : s'.zeroes = s.zeroes)
    (hroot : s'.root = s.root) : Holds p zf levels leaves s' where
  levels_eq := hlevels.trans h.levels_eq
  next_eq := hnext.trans h.next_eq
  levels_pos := h.levels_pos
  levels_le := h.levels_le
  le := h.le
  inField := ⟨hfilled ▸ h.inField.filled, hzeroes ▸ h.inField.zeroes⟩
  zeroes_eq := hzeroes ▸ h.zeroes_eq
  filled := hfilled ▸ h.filled
  root_eq := hroot ▸ h.root_eq

/-- Each call does to the storage what it does to the list. The two that change
the settings need the admin and leave the tree. -/
theorem call_refines (hpad : IsPadding (compress p) zf levels)
    (h : Represents p zf levels s b) (c : List A × Call A) :
    Refines p zf levels s c (b.call (2 ^ levels) c.1 c.2) := by
  obtain ⟨auth, call⟩ := c
  cases call with
  | insertLeaf leaf => exact insertLeaf_refines hpad h leaf
  | updateAdmin newAdmin =>
      show Refines p zf levels s _ (b.call (2 ^ levels) auth (.updateAdmin newAdmin))
      rw [Allowlist.call]
      by_cases hauth : b.admin ∈ auth
      · rw [if_neg (not_not.mpr hauth)]
        refine ⟨{ s with admin := some newAdmin }, ?_, rfl, h.adminOnly,
          h.tree.of_eq rfl rfl rfl rfl rfl⟩
        show updateAdmin auth newAdmin s = _
        rw [updateAdmin, read_bind, h.admin, rejectIf_bind_of_not (by simp), orTrap_some_bind,
          requireAuth, if_pos hauth]
        rfl
      · rw [if_pos hauth]
        show (updateAdmin auth newAdmin s).1 = _
        rw [updateAdmin, read_bind, h.admin, rejectIf_bind_of_not (by simp), orTrap_some_bind,
          requireAuth, if_neg hauth]
        rfl
  | setAdminInsertOnly adminOnly =>
      show Refines p zf levels s _ (b.call (2 ^ levels) auth (.setAdminInsertOnly adminOnly))
      rw [Allowlist.call]
      by_cases hauth : b.admin ∈ auth
      · rw [if_neg (not_not.mpr hauth)]
        refine ⟨{ s with adminInsertOnly := some adminOnly }, ?_, h.admin, rfl,
          h.tree.of_eq rfl rfl rfl rfl rfl⟩
        have hget : (okOr s.admin .notInitialized : MembershipM A A) = pure b.admin := by
          rw [h.admin]
          rfl
        show setAdminInsertOnly auth adminOnly s = _
        rw [setAdminInsertOnly, read_bind, hget]
        show (requireAuth auth b.admin >>= _) s = _
        rw [requireAuth, if_pos hauth]
        rfl
      · rw [if_pos hauth]
        show (setAdminInsertOnly auth adminOnly s).1 = _
        rw [setAdminInsertOnly, read_bind, h.admin, okOr_some_bind, requireAuth, if_neg hauth]
        rfl

theorem step_refines (hpad : IsPadding (compress p) zf levels)
    (h : Represents p zf levels s b) (c : List A × Call A) :
    Represents p zf levels (step p s c) (b.step (2 ^ levels) c) ∧
      answer p s c = b.answer (2 ^ levels) c := by
  have hcall := call_refines hpad h c
  unfold Allowlist.step Allowlist.answer answer
  cases hb : b.call (2 ^ levels) c.1 c.2 with
  | ok b' =>
      rw [hb] at hcall
      obtain ⟨s', hrun, hrep⟩ := hcall
      have hs : step p s c = s' := by rw [step, revert_of_ok hrun]
      rw [hs, hrun]
      exact ⟨hrep, rfl⟩
  | error e =>
      rw [hb] at hcall
      have hfail : (callBody p c.1 c.2 s).1 = .error e := hcall
      have hs : step p s c = s := by rw [step, revert_of_error (Prod.ext hfail rfl)]
      rw [hs, hfail]
      exact ⟨h, rfl⟩

/-! ## Runs -/

omit [DecidableEq A] in
theorem InField.setZero (h : InField s) {v : U256} (hv : v < bn256Modulus) (lvl : Nat) :
    InField (s.setZero lvl v) where
  filled := h.filled
  zeroes := by
    intro l u hu
    by_cases hl : l = lvl
    · subst hl
      obtain rfl : v = u := by simpa [Storage.setZero] using hu
      exact hv
    · have hkept : (s.setZero lvl v).zeroes l = s.zeroes l := Function.update_of_ne hl _ _
      exact h.zeroes l u (hkept ▸ hu)

omit [DecidableEq A] in
/-- The loop of the constructor stores the padding hashes. -/
theorem forEach_initLevel {zeros : List U256} :
    ∀ {l : List Nat} {s : Storage A},
      (∀ i ∈ l, ∃ z, zeros[i]? = some z ∧ z < bn256Modulus) → InField s →
      ∃ filled zeroes, forEach (initLevel zeros) l s
          = (.ok (), { s with filledSubtrees := filled, zeroes }) ∧
        InField { s with filledSubtrees := filled, zeroes } ∧
        (∀ i ∈ l, zeroes i = zeros[i]?) ∧ ∀ i, i ∉ l → zeroes i = s.zeroes i
  | [], s, _, hin => ⟨s.filledSubtrees, s.zeroes, rfl, hin, by simp, fun _ _ => rfl⟩
  | i :: l, s, hz, hin => by
      obtain ⟨z, hget, hlt⟩ := hz i (List.mem_cons_self ..)
      have hround : initLevel zeros i s = (.ok (), (s.setFilled i z).setZero i z) := by
        rw [initLevel, hget]
        rfl
      obtain ⟨filled, zeroes, hrun, hin', hmem, hout⟩ :=
        forEach_initLevel (fun j hj => hz j (List.mem_cons_of_mem _ hj))
          ((hin.setFilled hlt i).setZero hlt i)
      refine ⟨filled, zeroes, ?_, ⟨hin'.filled, hin'.zeroes⟩, fun j hj => ?_, fun j hj => ?_⟩
      · rw [forEach, bind_of_ok hround, hrun]
        rfl
      · by_cases hjl : j ∈ l
        · exact hmem j hjl
        · obtain rfl : j = i := by simpa [hjl] using hj
          rw [hout j hjl, hget]
          exact Function.update_self ..
      · rw [List.mem_cons, not_or] at hj
        rw [hout j hj.2]
        exact Function.update_of_ne hj.1 ..

omit [DecidableEq A] in
/-- A table that `compress` computes holds field elements, up to its last
entry. -/
theorem zeros_lt {zeros : List U256} (hz : ZerosOk p.compress zeros) {levels : Nat}
    (hpos : 1 ≤ levels) (hlen : levels < zeros.length) :
    ∀ i, i ≤ levels → ∃ z, zeros[i]? = some z ∧ z < bn256Modulus := by
  intro i hi
  obtain ⟨z, hget⟩ : ∃ z, zeros[i]? = some z := ⟨_, List.getElem?_eq_getElem (by omega)⟩
  refine ⟨z, hget, ?_⟩
  by_cases hlast : i = levels
  · obtain ⟨j, rfl⟩ : ∃ j, i = j + 1 := ⟨i - 1, by omega⟩
    obtain ⟨y, hy⟩ : ∃ y, zeros[j]? = some y := ⟨_, List.getElem?_eq_getElem (by omega)⟩
    obtain ⟨-, -, rfl⟩ := p.compress_eq_some.mp (hz j y z hy hget)
    exact p.compressed_lt _ _
  · obtain ⟨z', hz'⟩ : ∃ z', zeros[i + 1]? = some z' :=
      ⟨_, List.getElem?_eq_getElem (by omega)⟩
    exact (p.compress_eq_some.mp (hz i z z' hget hz')).1

omit [DecidableEq A] in
theorem zerosOk_compress {zeros : List U256} (hz : ZerosOk p.compress zeros) :
    ZerosOk (compress p) zeros := by
  intro i z z' hget hget'
  obtain ⟨-, -, rfl⟩ := p.compress_eq_some.mp (hz i z z' hget hget')
  rfl

omit [DecidableEq A] in
/-- The zeros of the constructor pad a tree of its levels. -/
theorem zeros_isPadding {zeros : List U256} {levels : Nat} (hpos : 1 ≤ levels)
    (hlen : levels < zeros.length) (hz : ZerosOk p.compress zeros) :
    IsPadding (compress p) (fun i => zeros.getD i 0) levels :=
  (zerosOk_compress hz).isPadding fun i hi => by
    obtain ⟨z, hget, -⟩ := zeros_lt hz hpos hlen i hi
    rw [hget]
    rfl

/-- The storage when the loop of the constructor starts. -/
def Storage.begun (admin : A) (levels : Nat) : Storage A :=
  { (.empty : Storage A) with
    admin := some admin, levels := some levels, nextIndex := some 0,
    adminInsertOnly := some true }

omit [DecidableEq A] in
/-- The constructor makes an empty list. -/
theorem constructor_represents {zeros : List U256} {levels : Nat} (admin : A)
    (hpos : 1 ≤ levels) (hle : levels ≤ 32) (hlen : levels < zeros.length)
    (hz : ZerosOk p.compress zeros) :
    ∃ s₀, constructor zeros admin levels .empty = (.ok (), s₀) ∧
      Represents p (fun i => zeros.getD i 0) levels s₀ (Allowlist.new admin) := by
  have hlt := zeros_lt hz hpos hlen
  have hpad := zeros_isPadding hpos hlen hz
  have hin₁ : InField (Storage.begun admin levels) := by
    constructor <;> intro _ _ h <;> cases h
  obtain ⟨filled, zeroes, hloop, hin, hmem, -⟩ := forEach_initLevel (l := List.range (levels + 1))
    (fun i hi => hlt i (Nat.le_of_lt_succ (List.mem_range.mp hi))) hin₁
  obtain ⟨top, htop, -⟩ := hlt levels (le_refl _)
  refine ⟨{ Storage.begun admin levels with
      filledSubtrees := filled, zeroes, root := some top }, ?_, rfl, rfl,
    ⟨rfl, rfl, hpos, hle, Nat.zero_le _, ⟨hin.filled, hin.zeroes⟩, fun l hl => ?_,
      fun l _ hodd => ?_, top, rfl, ?_⟩⟩
  · rw [constructor, rejectIf_bind_of_not (by omega), update_bind]
    show (forEach _ _ >>= _) (Storage.begun admin levels) = _
    rw [bind_of_ok hloop, htop]
    rfl
  · obtain ⟨z, hget, -⟩ := hlt l hl
    show zeroes l = _
    rw [hmem l (List.mem_range.mpr (by omega)), hget, List.getD_eq_getElem?_getD, hget,
      Option.getD_some]
  · rw [Allowlist.new, List.length_nil, Nat.zero_div] at hodd
    cases hodd
  · rw [BinaryTree.root, node_padding hpad (le_refl _) fun j _ _ => padded_of_le (by
      rw [Allowlist.new, List.length_nil]
      exact Nat.zero_le j)]
    rw [List.getD_eq_getElem?_getD, htop, Option.getD_some]

/-- The list after the calls. -/
abbrev Allowlist.run (levels : Nat) (admin : A) (calls : List (List A × Call A)) :
    Allowlist A :=
  Run.run (Allowlist.step (2 ^ levels)) (Allowlist.new admin) calls

/-- The leaves of a list are field elements. -/
theorem Allowlist.run_lt (levels : Nat) (admin : A) (calls : List (List A × Call A)) :
    ∀ leaf ∈ (Allowlist.run levels admin calls).leaves, leaf < bn256Modulus := by
  refine @Run.invariant _ _ (Allowlist.step (2 ^ levels))
    (fun b : Allowlist A => ∀ leaf ∈ b.leaves, leaf < bn256Modulus) _ _
    (fun _ h => absurd h List.not_mem_nil) fun b c hb => ?_
  obtain ⟨auth, call⟩ := c
  cases call with
  | insertLeaf leaf =>
      rw [Allowlist.step, Allowlist.call]
      split_ifs with _ _ hlt
      · exact hb
      · exact hb
      · intro x hx
        rcases List.mem_append.mp hx with hx | hx
        · exact hb x hx
        · exact List.mem_singleton.mp hx ▸ hlt
      · exact hb
  | updateAdmin newAdmin =>
      rw [Allowlist.step, Allowlist.call]
      split_ifs <;> exact hb
  | setAdminInsertOnly adminOnly =>
      rw [Allowlist.step, Allowlist.call]
      split_ifs <;> exact hb

/-- Any calls keep the storage in step with the list. -/
theorem Represents.run {p : Poseidon2} {zeros : Nat → U256} {levels : Nat} {admin : A}
    {s₀ : Storage A} (hpad : IsPadding (compress p) zeros levels)
    (h : Represents p zeros levels s₀ (Allowlist.new admin))
    (calls : List (List A × Call A)) :
    Represents p zeros levels (Run.run (step p) s₀ calls) (Allowlist.run levels admin calls) ∧
      Run.history (step p) (answer p) s₀ calls
        = Run.history (Allowlist.step (2 ^ levels)) (Allowlist.answer (2 ^ levels))
          (Allowlist.new admin) calls := by
  induction calls using List.reverseRecOn with
  | nil => exact ⟨h, rfl⟩
  | append_singleton calls c ih =>
      obtain ⟨hrun, hhist⟩ := ih
      obtain ⟨hstep, hans⟩ := step_refines hpad hrun c
      rw [Allowlist.run, Run.run_snoc, Run.run_snoc, Run.history_snoc, Run.history_snoc, hhist,
        hans]
      exact ⟨hstep, rfl⟩

/-- From construction on, any calls do to the storage what they do to the
list, whose tree the published root is of, and end the same way.

The relation is that of the incremental tree to its leaves: the constructor
establishes it, each insertion keeps it, and the other calls write nothing of
the tree. -/
theorem run_allowlist (p : Poseidon2) (zeros : List U256) (levels : Nat) (admin : A)
    (hpos : 1 ≤ levels) (hle : levels ≤ 32) (hlen : levels < zeros.length)
    (hz : ZerosOk p.compress zeros) :
    ∃ s₀, constructor zeros admin levels .empty = (.ok (), s₀) ∧
      ∀ calls : List (List A × Call A),
        Represents p (fun i => zeros.getD i 0) levels (Run.run (step p) s₀ calls)
            (Allowlist.run levels admin calls) ∧
          Run.history (step p) (answer p) s₀ calls
            = Run.history (Allowlist.step (2 ^ levels)) (Allowlist.answer (2 ^ levels))
              (Allowlist.new admin) calls := by
  obtain ⟨s₀, hinit, hrep⟩ := constructor_represents admin hpos hle hlen hz
  exact ⟨s₀, hinit, hrep.run (zeros_isPadding hpos hlen hz)⟩

/-- The padding hashes of a tree of two levels. -/
def smallZeros : List U256 :=
  [0, smallHash.compressed 0 0,
    smallHash.compressed (smallHash.compressed 0 0) (smallHash.compressed 0 0)]

theorem smallZeros_ok : ZerosOk smallHash.compress smallZeros := by
  intro i z z' hget hget'
  match i with
  | 0 =>
      obtain rfl := Option.some.inj hget
      obtain rfl := Option.some.inj hget'
      exact smallHash.compress_eq (by decide) (by decide)
  | 1 =>
      obtain rfl := Option.some.inj hget
      obtain rfl := Option.some.inj hget'
      exact smallHash.compress_eq (smallHash.compressed_lt _ _) (smallHash.compressed_lt _ _)
  | i + 2 => simp [smallZeros] at hget'

theorem run_allowlist_small :
    ∃ s₀, constructor smallZeros 1 2 .empty = (.ok (), s₀) ∧
      ∀ calls : List (List Nat × Call Nat),
        Represents smallHash (fun i => smallZeros.getD i 0) 2
            (Run.run (step smallHash) s₀ calls) (Allowlist.run 2 1 calls) ∧
          Run.history (step smallHash) (answer smallHash) s₀ calls
            = Run.history (Allowlist.step (2 ^ 2)) (Allowlist.answer (2 ^ 2))
              (Allowlist.new 1) calls :=
  run_allowlist smallHash smallZeros 2 1 (by decide) (by decide) (by decide) smallZeros_ok

end Membership

end Asp

end PrivacyWallet
