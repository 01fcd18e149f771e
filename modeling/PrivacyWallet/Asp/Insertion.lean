import PrivacyWallet.Asp.Rounds

/-!
# Insertion into the stored tree

The loop of `insert_leaf` follows the siblings of the *new* tree from the
leaf up. Below the end of the old path it only builds (`joinLoop_run`); on
the old path each round removes the row of the old subtree and writes that
of the new one (`insertLoop_run`). `Built` is what holds at each level: the
new subtree is stored, and so is every tree that shares nothing with what
was removed.
-/

namespace PrivacyWallet

namespace Asp

open InvokeM SparseTree Digests

variable {A : Type} {p : Poseidon2} {s s' s₁ : Storage A}
  {log log₀ : List (NodeInput U256 U256 U256)}

/-! ## Storage between the rounds -/

/-- The loops write rows and the log, nothing else. -/
structure Passed (s s' : Storage A) : Prop where
  admin : s'.admin = s.admin
  root : s'.root = s.root
  events : s'.events = s.events
  hashed : s.hashed ⊆ s'.hashed

theorem Passed.refl (s : Storage A) : Passed s s := ⟨rfl, rfl, rfl, List.Subset.refl _⟩

theorem Passed.trans {s'' : Storage A} (h : Passed s s') (h' : Passed s' s'') :
    Passed s s'' :=
  ⟨h'.admin.trans h.admin, h'.root.trans h.root, h'.events.trans h.events,
    List.Subset.trans h.hashed h'.hashed⟩

theorem Passed.writeLevel (s : Storage A) (p : Poseidon2) (b : Bool) (x y : U256) :
    Passed s (s.writeLevel p b x y) := ⟨rfl, rfl, rfl, List.subset_append_left _ _⟩

theorem Passed.removeLevel (s : Storage A) (p : Poseidon2) (b : Bool) (x y : U256) :
    Passed s (s.removeLevel p b x y) := ⟨rfl, rfl, rfl, List.subset_append_left _ _⟩

def isNode : Tree → Bool
  | node _ _ => true
  | _ => false

variable {b : Bool} {sib below old : Tree}

/-! ## What a loop has built -/

/-- The tree is stored, and every stored tree that is `safe` still is. -/
structure Built (p : Poseidon2) (log : List (NodeInput U256 U256 U256)) (s s' : Storage A)
    (t : Tree) (safe : Tree → Prop) : Prop where
  known : (digests p).Known log t
  stored : (digests p).Stored row s'.node t
  kept : ∀ q, safe q → (digests p).Known log q → (digests p).Stored row s.node q →
    (digests p).Stored row s'.node q

/-- One level more, without a removal. -/
theorem Built.write {safe : Tree → Prop} (h : Built p log s s₁ below safe)
    (hf : (digests p).CollisionFree log) (hk : (digests p).Known log sib)
    (hs : (digests p).Stored row s₁.node sib)
    (hi : branchInput b ((digests p).digest sib) ((digests p).digest below) ∈ log) :
    Built p log s (s₁.writeLevel p b ((digests p).digest sib) ((digests p).digest below))
      (branch b sib below) safe where
  known := known_branch.mpr ⟨hi, hk, h.known⟩
  stored := stored_branch.mpr ⟨Function.update_self _ _ _, hs.write hf hi hk,
    h.stored.write hf hi h.known⟩
  kept q hq hkq hsq := (h.kept q hq hkq hsq).write hf hi hkq

/-- One level removed. -/
theorem Built.remove {safe safe' : Tree → Prop} (h : Built p log s s₁ below safe)
    (hf : (digests p).CollisionFree log)
    (hold : (digests p).Known log (branch b sib old)) (hn : branch b sib old ∉ subs below)
    (hsafe : ∀ q, safe' q → safe q ∧ branch b sib old ∉ subs q) :
    Built p log s (s₁.removeLevel p b ((digests p).digest sib) ((digests p).digest old)) below
      safe' where
  known := h.known
  stored := by
    have hrem := h.stored.remove hf hold h.known hn
    rwa [digest_branch] at hrem
  kept q hq hkq hsq := by
    have hrem := (h.kept q (hsafe q hq).1 hkq hsq).remove hf hold hkq (hsafe q hq).2
    rwa [digest_branch] at hrem

/-- The old level gives way to the new one. -/
theorem Built.replace {safe safe' : Tree → Prop} (h : Built p log s s₁ below safe)
    (hf : (digests p).CollisionFree log)
    (hold : (digests p).Known log (branch b sib old)) (hn : branch b sib old ∉ subs below)
    (hsafe : ∀ q, safe' q → safe q ∧ branch b sib old ∉ subs q)
    (hs : (digests p).Stored row s₁.node sib)
    (hi : branchInput b ((digests p).digest sib) ((digests p).digest below) ∈ log) :
    Built p log s
      ((s₁.removeLevel p b ((digests p).digest sib) ((digests p).digest old)).writeLevel p b
        ((digests p).digest sib) ((digests p).digest below))
      (branch b sib below) safe' := by
  have hk := (known_branch.mp hold).2.1
  have hsib := hs.remove hf hold hk branch_notMem_subs_sib
  rw [digest_branch] at hsib
  exact (h.remove hf hold hn hsafe).write hf hk hsib hi

/-! ## Below the old path -/

section Join

variable {key value k' v' rtOld : U256} {len : Nat} {path : List U256}

/-- The end of a path that parts two leaves: every round only builds, so
nothing that was stored is lost. By induction on the levels that are left;
where the bits of the two keys agree the sibling is empty, and where they part
it is the other leaf. -/
theorem joinLoop_run (hne : key ≠ k') : ∀ {n d : Nat} {s : Storage A}, n + d = 256 →
    (∀ i < d, keying.bit key i = keying.bit k' i) →
    len = d + (siblings keying key d
      (join keying key k' (leaf key value) (leaf k' v') n d)).length →
    ∃ s', insertLoop p len true path (splitBits key) d
        ((siblings keying key d
          (join keying key k' (leaf key value) (leaf k' v') n d)).map (digests p).digest)
        { rt := (digests p).digest (leaf key value), rtOld, mixed := false } s
      = (.ok { rt := (digests p).digest
                  (join keying key k' (leaf key value) (leaf k' v') n d),
               rtOld, mixed := false }, s') ∧
      Passed s s' ∧
      ∀ log, (digests p).CollisionFree log → s'.hashed ⊆ log →
        (digests p).Known log (leaf key value) → (digests p).Known log (leaf k' v') →
        (digests p).Stored row s.node (leaf key value) →
        (digests p).Stored row s.node (leaf k' v') →
        Built p log s s' (join keying key k' (leaf key value) (leaf k' v') n d) fun _ => True
  | 0, d, s, hn, hpre, _ => by
      have := Keying.levels_left hne hpre
      have hdepth : keying.depth = 256 := rfl
      omega
  | n + 1, d, s, hn, hpre, hlen => by
      have hbit := splitBits_get key (i := d) (by omega)
      by_cases hb : keying.bit k' d = keying.bit key d
      · rw [join_both rfl hb] at hlen ⊢
        rw [siblings_branch rfl, List.length_cons] at hlen
        rw [siblings_branch rfl, List.map_cons]
        obtain ⟨s₁, hrun, hpass, hpost⟩ := joinLoop_run hne (s := s) (n := n) (d := d + 1)
          (by omega) (agree_succ hpre hb.symm) (by omega)
        refine ⟨s₁.writeLevel p (keying.bit key d) ((digests p).digest empty)
          ((digests p).digest (join keying key k' (leaf key value) (leaf k' v') n (d + 1))), ?_,
          hpass.trans (Passed.writeLevel _ _ _ _ _), ?_⟩
        · rw [insertLoop, bind_of_ok hrun, digest_branch]
          exact insertRound_build hbit zero_lt_modulus (digest_lt _) (.inr ⟨rfl, rfl⟩)
        · intro log hf hsub hk hk' hs hs'
          have hlog : s₁.hashed ⊆ log :=
            List.Subset.trans (Passed.writeLevel s₁ p _ _ _).hashed hsub
          exact (hpost log hf hlog hk hk' hs hs').write hf trivial trivial
            (hsub (List.mem_append_right _ List.mem_cons_self))
      · rw [join_apart rfl hb] at hlen ⊢
        rw [siblings_branch rfl] at hlen ⊢
        refine ⟨s.writeLevel p (keying.bit key d) ((digests p).digest (leaf k' v'))
          ((digests p).digest (leaf key value)), ?_,
          Passed.writeLevel _ _ _ _ _, ?_⟩
        · rw [digest_branch]
          exact insertRound_build hbit (digest_lt _) (digest_lt _)
            (.inl ⟨rfl, by rw [hlen]; rfl⟩)
        · intro log hf hsub hk hk' hs hs'
          have hbase : Built p log s s (leaf key value) fun _ => True := ⟨hk, hs, fun _ _ _ h => h⟩
          exact hbase.write hf hk' hs' (hsub (List.mem_append_right _ List.mem_cons_self))

end Join

/-! ## On the old path -/

section Insert

variable {key : U256} {t : Tree} {d : Nat}

theorem siblings_join_ne_nil {k' : U256} {new old : Tree} {n : Nat} :
    siblings keying key d (join keying key k' new old (n + 1) d) ≠ [] := by
  by_cases hb : keying.bit k' d = keying.bit key d
  · rw [join_both rfl hb, siblings_branch rfl]
    exact List.cons_ne_nil _ _
  · rw [join_apart rfl hb, siblings_branch rfl]
    exact List.cons_ne_nil _ _

/-- In a collision the new leaf gets at least one sibling below. -/
theorem siblings_insert_ne_nil (value : U256) (hu : Under keying d key t) (hno : ¬HasKey key t)
    (hterm : terminal keying key d t ≠ empty) :
    siblings keying key d (insert keying key value d t) ≠ [] := by
  rcases branch_cases keying key d t with rfl | ⟨k', v', rfl⟩ | ⟨sib, below, rfl⟩
  · exact absurd rfl hterm
  · have hne : key ≠ k' := fun heq => hno (hasKey_leaf.mpr heq)
    have hlt : d < 256 := Keying.levels_left hne (under_leaf hu)
    have hn : keying.depth - d = 255 - d + 1 := by
      have : keying.depth = 256 := rfl
      omega
    rw [insert_leaf_of_ne hne, hn]
    exact siblings_join_ne_nil
  · rw [insert_branch rfl, siblings_branch rfl]
    exact List.cons_ne_nil _ _

/-- The loop of `insert_leaf` from level `d` on: it ends in the hash of the new
subtree.

By induction on the path of the key. It ends in an empty place, where nothing
is left to do, or at another leaf, where the two leaves are pushed down until
their bits differ (`joinLoop_run`). A level of the old tree on the way is
removed and written with the new subtree; that the old node is no part of the
new tree follows as it lacks the key. -/
theorem insertLoop_run (value : U256) (len : Nat) (path : List U256) (mixed addedOne : Bool)
    (hf₀ : (digests p).CollisionFree log₀) : ∀ {s : Storage A},
    Canon keying d t → Under keying d key t → ¬HasKey key t → (digests p).Known log₀ t →
    (∀ i, path[d + i]? = ((siblings keying key d t).map (digests p).digest)[i]?) →
    len = d + (siblings keying key d (insert keying key value d t)).length →
    (addedOne = true ↔ terminal keying key d t ≠ empty) →
    (terminal keying key d t ≠ empty → mixed = false) →
    (terminal keying key d t = empty → t ≠ empty → mixed = true) →
    ∃ s', insertLoop p len addedOne path (splitBits key) d
        ((siblings keying key d (insert keying key value d t)).map (digests p).digest)
        { rt := (digests p).digest (leaf key value),
          rtOld := (digests p).digest (terminal keying key d t), mixed } s
      = (.ok { rt := (digests p).digest (insert keying key value d t),
               rtOld := (digests p).digest t, mixed := isNode t || mixed }, s') ∧
      Passed s s' ∧
      ∀ log, (digests p).CollisionFree log → s'.hashed ⊆ log →
        (digests p).Known log t → (digests p).Known log (leaf key value) →
        (digests p).Stored row s.node t → (digests p).Stored row s.node (leaf key value) →
        Built p log s s' (insert keying key value d t) (Apart t) := by
  induction t, d using path_induction keying key with
  | empty d =>
      intro s _ _ _ _ _ _ _ _ _
      exact ⟨s, rfl, Passed.refl s, fun log _ _ _ hk _ hs => ⟨hk, hs, fun _ _ _ h => h⟩⟩
  | leaf k' v' d =>
      intro s _ hu hno _ _ hlen hadd hmix _
      have hne : key ≠ k' := fun heq => hno (hasKey_leaf.mpr heq)
      have hlt : d < 256 := Keying.levels_left hne (under_leaf hu)
      obtain rfl : addedOne = true := hadd.mpr (by simp [terminal])
      obtain rfl : mixed = false := hmix (by simp [terminal])
      rw [insert_leaf_of_ne hne] at hlen ⊢
      obtain ⟨s', hrun, hpass, hpost⟩ := joinLoop_run (p := p) (s := s) hne
        (by show 256 - d + d = 256; omega) (under_leaf hu) hlen
      refine ⟨s', hrun, hpass, fun log hf hsub hkt hk hst hs => ?_⟩
      obtain ⟨hknown, hstored, hkept⟩ := hpost log hf hsub hk hkt hs hst
      exact ⟨hknown, hstored, fun q _ => hkept q trivial⟩
  | branch sib below d ih =>
      intro s hc hu hno hk₀ hpath hlen hadd hmix hmix'
      obtain ⟨-, hcb, hsize, -, -⟩ := canon_branch.mp hc
      obtain ⟨-, hksib₀, hkb₀⟩ := known_branch.mp hk₀
      have hub := hu.branch hc rfl
      have hnob : ¬HasKey key below := fun h => hno (hasKey_branch.mpr (.inr h))
      have hd : d < 256 := hc.level_lt_branch hu
      rw [siblings_branch rfl, List.map_cons] at hpath
      rw [insert_branch rfl, siblings_branch rfl] at hlen ⊢
      rw [terminal_branch rfl] at hadd hmix hmix' ⊢
      rw [List.length_cons] at hlen
      obtain ⟨s₁, hrun, hpass, hpost⟩ := ih (s := s) hcb hub hnob hkb₀
        (fun i => by
          have := hpath (i + 1)
          rwa [List.getElem?_cons_succ, ← Nat.add_assoc, Nat.add_right_comm] at this)
        (by omega) hadd hmix fun hterm _ => hmix' hterm branch_ne_empty
      have hlast : terminal keying key (d + 1) below ≠ empty → d < len - 1 := by
        intro hterm
        have := List.length_pos_of_ne_nil
          (siblings_insert_ne_nil value hub hnob hterm)
        omega
      -- the sibling of the old leaf is not empty: the old tree was canonical
      have hmixed : (isNode below || mixed) = true ∨
          d < len - 1 ∧ (digests p).digest sib ≠ 0 := by
        cases below with
        | empty => exact .inl (hmix' rfl branch_ne_empty)
        | leaf k' v' =>
            refine .inr ⟨hlast (by simp [terminal]), fun hz => ?_⟩
            rw [(digest_eq_zero hf₀ hksib₀).mp hz] at hsize
            simp [size] at hsize
        | node l r => exact .inl rfl
      have hpath0 := hpath 0
      refine ⟨(s₁.removeLevel p (keying.bit key d) ((digests p).digest sib)
          ((digests p).digest below)).writeLevel p (keying.bit key d) ((digests p).digest sib)
          ((digests p).digest (insert keying key value (d + 1) below)), ?_,
        (hpass.trans (Passed.removeLevel ..)).trans (Passed.writeLevel ..), ?_⟩
      · have hnode : (isNode (branch (keying.bit key d) sib below) || mixed) = true := by
          cases keying.bit key d <;> rfl
        rw [List.map_cons, insertLoop, bind_of_ok hrun, digest_branch, digest_branch, hnode]
        exact insertRound_replace (splitBits_get key hd) hpath0 (digest_lt _) (digest_lt _)
          (digest_lt _) (fun h => hlast (hadd.mp h)) hmixed
      · intro log hf hsub hkt hk hst hs
        obtain ⟨-, hksib, hkb⟩ := known_branch.mp hkt
        obtain ⟨-, hssib, hsb⟩ := stored_branch.mp hst
        have hlog := List.Subset.trans (Passed.writeLevel ..).hashed hsub
        have hbuilt := hpost log hf
          (List.Subset.trans (Passed.removeLevel ..).hashed hlog) hkb hk hsb hs
        have hn : branch (keying.bit key d) sib below
            ∉ subs (insert keying key value (d + 1) below) := fun h =>
          (mem_subs_insert hcb hub h).elim hno branch_notMem_subs_below
        exact hbuilt.replace hf hkt hn (fun q hq => hq.branch)
          (hbuilt.kept sib hc.apart_branch hksib hssib)
          (hsub (List.mem_append_right _ List.mem_cons_self))

end Insert

end Asp

end PrivacyWallet
