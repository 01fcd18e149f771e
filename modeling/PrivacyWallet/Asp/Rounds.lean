import PrivacyWallet.Asp.NonMembership

/-!
# What one round does to the stored tree

The storage of the blocked keys seen as a sparse tree: the hash functions
(`digests`), the rows (`row`), the bits of a key (`keying`). Below, each
piece of the contract runs on hashes of trees whose inputs are known: the
search finds the end of the tree's own path (`findKeyInternal_eq`), a round
of a loop hashes one level and writes or removes its rows.
-/

namespace PrivacyWallet

namespace Asp

open InvokeM SparseTree Digests

abbrev Tree : Type := SparseTree U256 U256

/-- The hashes of leaves and inner nodes. -/
def digests (p : Poseidon2) : Digests U256 U256 U256 where
  zero := 0
  ofLeaf key value := p.permuteT3 key value U256.one
  ofNode := p.compressed

/-- The stored row of a node. -/
def row : NodeInput U256 U256 U256 → List U256
  | .leaf key value => [U256.one, key, value]
  | .node l r => [l, r]

/-- Keys are read from the least significant bit on. -/
def keying : Keying U256 where
  bit key i := key.val.testBit i
  depth := 256
  ext := by
    intro k k' h
    refine U256.ext_val (Nat.eq_of_testBit_eq fun i => ?_)
    by_cases hi : i < 256
    · exact h i hi
    · have hpow : 2 ^ 256 ≤ 2 ^ i := Nat.pow_le_pow_right Nat.two_pos (Nat.le_of_not_lt hi)
      rw [Nat.testBit_lt_two_pow (k.lt.trans_le hpow),
        Nat.testBit_lt_two_pow (k'.lt.trans_le hpow)]

variable {A : Type} {p : Poseidon2} {s : Storage A}

/-! ## Bits -/

theorem splitBitsLoop_get : ∀ {n i : Nat} (k : Nat), i < n →
    (splitBitsLoop n k)[i]? = some (k.testBit i)
  | n + 1, 0, k, _ => by
      rw [splitBitsLoop, List.getElem?_cons_zero, Nat.testBit_zero]
      rfl
  | n + 1, i + 1, k, h => by
      rw [splitBitsLoop, List.getElem?_cons_succ, splitBitsLoop_get _ (by omega),
        Nat.testBit_succ]

theorem splitBitsLoop_length : ∀ n k, (splitBitsLoop n k).length = n
  | 0, _ => rfl
  | n + 1, k => congrArg (· + 1) (splitBitsLoop_length n (k / 2))

theorem splitBits_get (key : U256) {i : Nat} (hi : i < 256) :
    (splitBits key)[i]? = some (keying.bit key i) := splitBitsLoop_get _ hi

theorem splitBits_drop (key : U256) {i : Nat} (hi : i < 256) :
    (splitBits key).drop i = keying.bit key i :: (splitBits key).drop (i + 1) := by
  have hlen : i < (splitBits key).length := by
    rw [splitBits, splitBitsLoop_length]
    exact hi
  have hget : (splitBits key)[i] = keying.bit key i := by
    rw [← Option.some.injEq, ← List.getElem?_eq_getElem hlen, splitBits_get key hi]
  rw [List.drop_eq_getElem_cons hlen, hget]

/-! ## Hashes -/

theorem zero_lt_modulus : (0 : U256) < bn256Modulus := bn256Modulus_pos

theorem one_lt_modulus : U256.one < bn256Modulus := by decide

theorem image_lt (i : NodeInput U256 U256 U256) : (digests p).image i < bn256Modulus := by
  cases i with
  | leaf k v => exact p.permuteT3_lt _ _ _
  | node l r => exact p.compressed_lt _ _

theorem digest_empty : (digests p).digest empty = 0 := rfl

theorem digest_lt (t : Tree) : (digests p).digest t < bn256Modulus := by
  cases t with
  | empty => exact zero_lt_modulus
  | leaf k v => exact p.permuteT3_lt _ _ _
  | node l r => exact p.compressed_lt _ _

theorem hashLeaf_run {key value : U256} (hk : key < bn256Modulus) (hv : value < bn256Modulus) :
    hashLeaf p key value s
      = (.ok ((digests p).image (.leaf key value)), s.log (.leaf key value)) := by
  rw [hashLeaf, p.hash2_eq hk hv one_lt_modulus]
  rfl

/-- A key or value outside the field makes the hash panic. -/
theorem hashLeaf_trap {key value : U256} (h : ¬(key < bn256Modulus ∧ value < bn256Modulus)) :
    hashLeaf p key value s = (.error .trap, s) := by
  have hnone : p.hash2 key value (some U256.one) = none := by
    rw [Option.eq_none_iff_forall_not_mem]
    intro u hu
    obtain ⟨hk, hv, -⟩ := p.hash2_eq_some.mp hu
    exact h ⟨hk, hv⟩
  rw [hashLeaf, hnone]
  rfl

theorem hashInternal_run {l r : U256} (hl : l < bn256Modulus) (hr : r < bn256Modulus) :
    hashInternal p l r s = (.ok ((digests p).image (.node l r)), s.log (.node l r)) := by
  rw [hashInternal, p.compress_eq hl hr]
  rfl

/-! ## The search -/

variable {log : List (NodeInput U256 U256 U256)}

variable (p) in
/-- What the search reports on a tree. -/
def found (key : U256) (d : Nat) (t : Tree) : FindResult :=
  let siblings := (siblings keying key d t).map (digests p).digest
  match terminal keying key d t with
  | leaf k v =>
      if k = key then
        { found := true, siblings, foundValue := v, notFoundKey := 0, notFoundValue := 0,
          isOld0 := false }
      else
        { found := false, siblings, foundValue := 0, notFoundKey := k, notFoundValue := v,
          isOld0 := false }
  | _ =>
      { found := false, siblings, foundValue := 0, notFoundKey := key, notFoundValue := 0,
        isOld0 := true }

/-- The report on a branch is that on the half the key is in, with one more
sibling. -/
theorem found_branch {key : U256} {d : Nat} {sib below : Tree} :
    found p key d (branch (keying.bit key d) sib below) =
      { found p key (d + 1) below with
        siblings := (digests p).digest sib :: (found p key (d + 1) below).siblings } := by
  simp only [found, terminal_branch rfl, siblings_branch rfl, List.map_cons]
  rcases terminal_cases keying key below (d + 1) with h | ⟨k, v, h⟩
  · rw [h]
  · rw [h]
    dsimp only
    split <;> rfl

/-- The search follows the stored tree. By induction on the path of the key:
the row of a node gives the hashes of both halves, and the bit tells which one
the search goes on with; it stops at the empty hash or at a row of a leaf. -/
theorem findKeyInternal_eq (hf : (digests p).CollisionFree log) {key : U256} {t : Tree}
    {d : Nat} : Canon keying d t → Under keying d key t → (digests p).Known log t →
      (digests p).Stored row s.node t →
        findKeyInternal s.node key ((splitBits key).drop d) ((digests p).digest t)
          = .ok (found p key d t) := by
  induction t, d using path_induction keying key with
  | empty d =>
      intro _ _ _ _
      rw [findKeyInternal, if_pos (digest_empty (p := p))]
      rfl
  | leaf k v d =>
      intro _ _ hk hs
      have hne : (digests p).digest (leaf k v) ≠ 0 := hf.nonzero _ hk
      have hrow : s.node ((digests p).digest (leaf k v)) = some [U256.one, k, v] := hs
      rw [findKeyInternal, if_neg hne, hrow]
      dsimp only
      rw [if_pos rfl]
      by_cases heq : k = key
      · simp [heq, found, terminal, siblings]
      · simp [heq, found, terminal, siblings]
  | branch sib below d ih =>
      intro hc hu hk hs
      obtain ⟨hin, -, hkbelow⟩ := known_branch.mp hk
      obtain ⟨hrow, -, hsbelow⟩ := stored_branch.mp hs
      have hne : (digests p).digest (branch (keying.bit key d) sib below) ≠ 0 := by
        rw [digest_branch]
        exact hf.nonzero _ hin
      have hd : d < 256 := hc.level_lt_branch hu
      have ihb := ih (canon_branch.mp hc).2.1 (hu.branch hc rfl) hkbelow hsbelow
      rw [found_branch, findKeyInternal, if_neg hne, splitBits_drop key hd, digest_branch, hrow]
      -- the row tells which half the search goes on with
      cases keying.bit key d with
      | false =>
          dsimp only [branchInput, row, Bool.false_eq_true, if_false]
          simp only [Bool.false_eq_true, if_false]
          rw [ihb]
          rfl
      | true =>
          dsimp only [branchInput, row, if_true]
          simp only [if_true]
          rw [ihb]
          rfl

/-! ## Rounds -/

section Round

variable {len i : Nat} {addedOne b : Bool} {path : List U256} {keyBits : List Bool}
  {sibling : U256} {acc : Build}

theorem hashLevel_run {below : U256} (hs : sibling < bn256Modulus)
    (hb : below < bn256Modulus) :
    (if b then hashInternal p sibling below else hashInternal p below sibling) s
      = (.ok ((digests p).image (branchInput b sibling below)),
          s.log (branchInput b sibling below)) := by
  cases b with
  | false => exact hashInternal_run hb hs
  | true => exact hashInternal_run hs hb

/-- Write the row of a level. -/
def Storage.writeLevel (s : Storage A) (p : Poseidon2) (b : Bool) (sibling below : U256) :
    Storage A :=
  (s.log (branchInput b sibling below)).setNode
    ((digests p).image (branchInput b sibling below)) (row (branchInput b sibling below))

/-- Hash a level and remove its row. -/
def Storage.removeLevel (s : Storage A) (p : Poseidon2) (b : Bool) (sibling below : U256) :
    Storage A :=
  (s.log (branchInput b sibling below)).removeNode
    ((digests p).image (branchInput b sibling below))

/-- The part of a round that all loops share. -/
theorem buildLevel_run {α : Type} {below : U256} (hs : sibling < bn256Modulus)
    (hb : below < bn256Modulus) (k : U256 → AspM A α) :
    (do
      let rt ← hashInternal p (if b then sibling else below) (if b then below else sibling)
      update fun s => s.setNode rt [if b then sibling else below, if b then below else sibling]
      k rt) s
      = k ((digests p).image (branchInput b sibling below)) (s.writeLevel p b sibling below) := by
  cases b with
  | false =>
      simp only [Bool.false_eq_true, if_false]
      rw [bind_of_ok (hashInternal_run hb hs)]
      rfl
  | true =>
      simp only [if_true]
      rw [bind_of_ok (hashInternal_run hs hb)]
      rfl

/-- Outside the old tree a round only builds. -/
theorem insertRound_build (hbit : keyBits[i]? = some b) (hs : sibling < bn256Modulus)
    (hrt : acc.rt < bn256Modulus)
    (hmode : (addedOne = true ∧ i = len - 1) ∨ acc.mixed = false ∧ sibling = 0) :
    insertRound p len addedOne path keyBits i sibling acc s
      = (.ok { acc with rt := (digests p).image (branchInput b sibling acc.rt) },
          s.writeLevel p b sibling acc.rt) := by
  have hmixed : (if (!(addedOne && i == len - 1)) = true ∧ i < len - 1 ∧ sibling ≠ 0 then true
      else acc.mixed) = acc.mixed := by
    rcases hmode with ⟨hadd, hi⟩ | ⟨-, hz⟩
    · simp [hadd, hi]
    · simp [hz]
  have hkeep : ¬(acc.mixed = true ∧ (!(addedOne && i == len - 1)) = true) := by
    rcases hmode with ⟨hadd, hi⟩ | ⟨hm, -⟩
    · simp [hadd, hi]
    · simp [hm]
  unfold insertRound
  dsimp only
  rw [hmixed, if_neg hkeep, hbit]
  exact buildLevel_run hs hrt _

/-- On the old path a round removes the old node and builds the new one. -/
theorem insertRound_replace (hbit : keyBits[i]? = some b) (hpath : path[i]? = some sibling)
    (hs : sibling < bn256Modulus) (hrt : acc.rt < bn256Modulus)
    (hold : acc.rtOld < bn256Modulus) (hlast : addedOne = true → i < len - 1)
    (hmixed : acc.mixed = true ∨ i < len - 1 ∧ sibling ≠ 0) :
    insertRound p len addedOne path keyBits i sibling acc s
      = (.ok { rt := (digests p).image (branchInput b sibling acc.rt),
               rtOld := (digests p).image (branchInput b sibling acc.rtOld), mixed := true },
          (s.removeLevel p b sibling acc.rtOld).writeLevel p b sibling acc.rt) := by
  have hnotLast : (!(addedOne && i == len - 1)) = true := by
    cases addedOne with
    | false => rfl
    | true =>
        have := hlast rfl
        simp
        omega
  have hmix : (if (!(addedOne && i == len - 1)) = true ∧ i < len - 1 ∧ sibling ≠ 0 then true
      else acc.mixed) = true := by
    split
    · rfl
    · rename_i hcond
      exact hmixed.resolve_right fun h => hcond ⟨hnotLast, h⟩
  have hlen : i < path.length := (List.getElem?_eq_some_iff.mp hpath).1
  unfold insertRound
  dsimp only
  rw [hmix, if_pos ⟨rfl, hnotLast⟩, if_pos hlen, hpath, hbit]
  simp only [okOr_some_bind]
  cases b with
  | false =>
      simp only [Bool.false_eq_true, if_false]
      rw [bind_of_ok (hashInternal_run hold hs)]
      exact buildLevel_run (b := false) hs hrt _
  | true =>
      simp only [if_true]
      rw [bind_of_ok (hashInternal_run hs hold)]
      exact buildLevel_run (b := true) hs hrt _

/-- From the first sibling on that is not empty, a round of the deletion
removes the old node and builds a new one. -/
theorem deleteRound_replace (hbit : keyBits[i]? = some b) (hs : sibling < bn256Modulus)
    (hrt : acc.rt < bn256Modulus) (hold : acc.rtOld < bn256Modulus)
    (hm : sibling ≠ 0 ∨ acc.mixed = true) :
    deleteRound p keyBits i sibling acc s
      = (.ok { rt := (digests p).image (branchInput b sibling acc.rt),
               rtOld := (digests p).image (branchInput b sibling acc.rtOld), mixed := true },
          (s.removeLevel p b sibling acc.rtOld).writeLevel p b sibling acc.rt) := by
  have hmixed : (if sibling ≠ 0 then true else acc.mixed) = true := by
    split
    · rfl
    · rename_i hz
      exact hm.resolve_left hz
  unfold deleteRound
  rw [hbit, okOr_some_bind]
  dsimp only
  rw [hmixed]
  cases b with
  | false =>
      simp only [Bool.false_eq_true, if_false]
      rw [bind_of_ok (hashInternal_run hold hs)]
      exact buildLevel_run (b := false) hs hrt _
  | true =>
      simp only [if_true]
      rw [bind_of_ok (hashInternal_run hs hold)]
      exact buildLevel_run (b := true) hs hrt _

/-- Below it, a round only removes. -/
theorem deleteRound_skip (hbit : keyBits[i]? = some b) (hold : acc.rtOld < bn256Modulus)
    (hm : acc.mixed = false) :
    deleteRound p keyBits i 0 acc s
      = (.ok { rt := acc.rt, rtOld := (digests p).image (branchInput b 0 acc.rtOld),
               mixed := false },
          s.removeLevel p b 0 acc.rtOld) := by
  have hmixed : (if (0 : U256) ≠ 0 then true else acc.mixed) = false := by
    rw [if_neg (not_not.mpr rfl), hm]
  unfold deleteRound
  rw [hbit, okOr_some_bind]
  dsimp only
  rw [hmixed]
  cases b with
  | false =>
      simp only [Bool.false_eq_true, if_false]
      rw [bind_of_ok (hashInternal_run hold zero_lt_modulus)]
      rfl
  | true =>
      simp only [if_true, Bool.false_eq_true, if_false]
      rw [bind_of_ok (hashInternal_run zero_lt_modulus hold)]
      rfl

end Round

end Asp

end PrivacyWallet
