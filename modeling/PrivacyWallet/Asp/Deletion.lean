import PrivacyWallet.Asp.Insertion

/-!
# Deletion from the stored tree

`delete_leaf` starts from what takes the leaf's place (`promoted`): the
sibling if that is a leaf itself, else nothing. Going up, empty siblings
are skipped until the first one that is not (`deleteLoop_run`, by induction
on the siblings). `Deleted` says what the loop leaves at one level, and the
induction has one lemma for each thing that can stand beside the path there:
`Deleted.skip` for an empty sibling, `Deleted.replace` for any other.

When a sibling was promoted, the loop starts one level too high with the
hash of the removed leaf, so what it removes are not the rows of the old
path. It does no harm: whatever it removes is the hash of a tree with the
deleted key in it, and no tree that stays has that key. The rows of the old
path stay behind as garbage.
-/

namespace PrivacyWallet

namespace Asp

open InvokeM SparseTree Digests

variable {A : Type} {p : Poseidon2} {s : Storage A} {log₀ : List (NodeInput U256 U256 U256)}
  {key v : U256} {t : Tree} {d : Nat}

/-- What takes the place of the leaf of `key`, and the siblings to build on. -/
def promoted (siblings : List Tree) : Tree × List Tree :=
  match siblings.getLast? with
  | some (leaf k v) => (leaf k v, siblings.dropLast)
  | _ => (empty, siblings)

theorem promoted_cons {sib : Tree} {sibs : List Tree} (h : sibs ≠ []) :
    promoted (sib :: sibs) = ((promoted sibs).1, sib :: (promoted sibs).2) := by
  obtain ⟨q, qs, rfl⟩ := List.exists_cons_of_ne_nil h
  unfold promoted
  rw [List.getLast?_cons_cons, List.dropLast_cons_cons]
  split <;> rfl

theorem isNode_branch {b : Bool} {sib below : Tree} : isNode (branch b sib below) = true := by
  cases b <;> rfl

theorem exists_of_isNode : ∀ {t : Tree}, isNode t = true → ∃ l r, t = node l r
  | node l r, _ => ⟨l, r, rfl⟩

/-- How the loop of `delete_leaf` over the subtree `t` of level `d` leaves the
storage. The hash that it carries for the old subtree is that of `phantom`, of
which all that matters is that it has the deleted key. -/
structure Deleted (p : Poseidon2) (key : U256) (d : Nat) (t phantom : Tree) (s s' : Storage A) :
    Prop where
  hasKey : HasKey key phantom
  passed : Passed s s'
  built : ∀ log, (digests p).CollisionFree log → s'.hashed ⊆ log → (digests p).Known log t →
    (∀ q ∈ siblings keying key d t, (digests p).Stored row s.node q) →
      (digests p).Known log phantom ∧
        Built p log s s' (erase keying key d t) fun q => ¬HasKey key q

/-- Of the leaf itself nothing is left. -/
theorem Deleted.leaf : Deleted p key d (leaf key v) (leaf key v) s s where
  hasKey := hasKey_leaf.mpr rfl
  passed := Passed.refl s
  built log _ _ hk _ := by
    rw [erase, if_pos rfl]
    exact ⟨hk, trivial, trivial, fun _ _ _ h => h⟩

section Level

variable {s₁ : Storage A} {sib below phantom : Tree}

/-- What a round removes has the deleted key in it. -/
theorem Deleted.notMem_subs (h : Deleted p key (d + 1) below phantom s s₁) {q : Tree}
    (hq : ¬HasKey key q) : branch (keying.bit key d) sib phantom ∉ subs q :=
  notMem_subs_of_key (hasKey_branch.mpr (.inr h.hasKey)) hq

/-- A round that writes its level anew. -/
theorem Deleted.replace (h : Deleted p key (d + 1) below phantom s s₁)
    (hc : Canon keying d (branch (keying.bit key d) sib below))
    (hbranch : mkBranch (keying.bit key d) sib (erase keying key (d + 1) below)
      = branch (keying.bit key d) sib (erase keying key (d + 1) below)) :
    Deleted p key d (branch (keying.bit key d) sib below) (branch (keying.bit key d) sib phantom) s
      ((s₁.removeLevel p (keying.bit key d) ((digests p).digest sib)
        ((digests p).digest phantom)).writeLevel p (keying.bit key d) ((digests p).digest sib)
        ((digests p).digest (erase keying key (d + 1) below))) where
  hasKey := hasKey_branch.mpr (.inr h.hasKey)
  passed := (h.passed.trans (Passed.removeLevel ..)).trans (Passed.writeLevel ..)
  built log hf hsub hkt hst := by
    obtain ⟨-, hksib, hkb⟩ := known_branch.mp hkt
    rw [siblings_branch rfl] at hst
    have hlog := List.Subset.trans (Passed.writeLevel ..).hashed hsub
    obtain ⟨hkph, hbuilt⟩ := h.built log hf
      (List.Subset.trans (Passed.removeLevel ..).hashed hlog) hkb
      fun q hq => hst q (List.mem_cons_of_mem _ hq)
    have hold : (digests p).Known log (branch (keying.bit key d) sib phantom) :=
      known_branch.mpr ⟨hlog (List.mem_append_right _ List.mem_cons_self), hksib, hkph⟩
    have hgone : ¬HasKey key (erase keying key (d + 1) below) := fun hin =>
      ((hasKey_erase (canon_branch.mp hc).2.1).mp hin).1 rfl
    rw [erase_branch rfl, hbranch]
    exact ⟨hold, hbuilt.replace hf hold (h.notMem_subs hgone)
      (fun q hq => ⟨hq, h.notMem_subs hq⟩)
      (hbuilt.kept sib (hc.not_hasKey_sib rfl) hksib (hst _ List.mem_cons_self))
      (hsub (List.mem_append_right _ List.mem_cons_self))⟩

/-- A round that passes its level over. -/
theorem Deleted.skip (h : Deleted p key (d + 1) below phantom s s₁)
    (hc : Canon keying d (branch (keying.bit key d) empty below))
    (hlone : mkBranch (keying.bit key d) empty (erase keying key (d + 1) below)
      = erase keying key (d + 1) below) :
    Deleted p key d (branch (keying.bit key d) empty below)
      (branch (keying.bit key d) empty phantom) s
      (s₁.removeLevel p (keying.bit key d) 0 ((digests p).digest phantom)) where
  hasKey := hasKey_branch.mpr (.inr h.hasKey)
  passed := h.passed.trans (Passed.removeLevel ..)
  built log hf hsub hkt hst := by
    obtain ⟨-, hksib, hkb⟩ := known_branch.mp hkt
    rw [siblings_branch rfl] at hst
    obtain ⟨hkph, hbuilt⟩ := h.built log hf
      (List.Subset.trans (Passed.removeLevel ..).hashed hsub) hkb
      fun q hq => hst q (List.mem_cons_of_mem _ hq)
    have hold : (digests p).Known log (branch (keying.bit key d) empty phantom) :=
      known_branch.mpr ⟨hsub (List.mem_append_right _ List.mem_cons_self), hksib, hkph⟩
    have hgone : ¬HasKey key (erase keying key (d + 1) below) := fun hin =>
      ((hasKey_erase (canon_branch.mp hc).2.1).mp hin).1 rfl
    rw [erase_branch rfl, hlone]
    exact ⟨hold, hbuilt.remove hf hold (h.notMem_subs hgone)
      fun q hq => ⟨hq, h.notMem_subs hq⟩⟩

end Level

/-- The loop of `delete_leaf` from level `d` on: it ends in the hash of what is
left of the subtree.

By induction on the path to the deleted leaf. If its sibling is a leaf, that one
is promoted and the level is gone; else the level is written with nothing in the
leaf's place. A level above is written anew, or passed over where a lone leaf
stands beside an empty sibling. -/
theorem deleteLoop_run (hf₀ : (digests p).CollisionFree log₀) : ∀ {s : Storage A},
    Canon keying d t → Under keying d key t → terminal keying key d t = leaf key v →
    isNode t = true → (digests p).Known log₀ t →
    ∃ phantom s', deleteLoop p (splitBits key) d
        ((promoted (siblings keying key d t)).2.map (digests p).digest)
        { rt := (digests p).digest (promoted (siblings keying key d t)).1,
          rtOld := (digests p).digest (leaf key v), mixed := false } s
      = (.ok { rt := (digests p).digest (erase keying key d t),
               rtOld := (digests p).digest phantom,
               mixed := isNode (erase keying key d t) }, s') ∧
      Deleted p key d t phantom s s' := by
  induction t, d using path_induction keying key with
  | empty d => exact fun _ _ _ hn => nomatch hn
  | leaf k' v' d => exact fun _ _ _ hn => nomatch hn
  | branch sib below d ih =>
      intro s hc hu hterm _ hk₀
      obtain ⟨-, hcb, hsize, -, -⟩ := canon_branch.mp hc
      obtain ⟨-, hksib₀, hkb₀⟩ := known_branch.mp hk₀
      have hd : d < 256 := hc.level_lt_branch hu
      have hbit := splitBits_get key hd
      rw [terminal_branch rfl] at hterm
      rw [siblings_branch rfl, erase_branch rfl]
      rcases branch_cases keying key (d + 1) below with rfl | ⟨k', v', rfl⟩ | ⟨sib', below', rfl⟩
      · cases hterm
      · -- the leaf itself: its sibling is promoted, or stays below a node
        simp only [terminal] at hterm
        obtain ⟨rfl, rfl⟩ : k' = key ∧ v' = v := by simpa using hterm
        have hbase : Deleted p k' (d + 1) (leaf k' v') (leaf k' v') s s := Deleted.leaf
        have hnone : erase keying k' (d + 1) (leaf k' v') = empty := by rw [erase, if_pos rfl]
        cases sib with
        | empty => simp [size] at hsize
        | leaf k₁ v₁ =>
            rw [hnone, mkBranch_leaf_empty]
            refine ⟨leaf k' v', s, rfl, hbase.hasKey, hbase.passed, ?_⟩
            intro log _ _ hkt hst
            obtain ⟨-, hksib, hkb⟩ := known_branch.mp hkt
            rw [siblings_branch rfl] at hst
            rw [erase_branch rfl, hnone, mkBranch_leaf_empty]
            exact ⟨hkb, hksib, hst _ List.mem_cons_self, fun _ _ _ h => h⟩
        | node l r =>
            have hne : (digests p).digest (node l r) ≠ 0 := fun hz => by
              have := (digest_eq_zero hf₀ hksib₀).mp hz
              cases this
            have hbranch : mkBranch (keying.bit k' d) (node l r)
                (erase keying k' (d + 1) (leaf k' v'))
                  = branch (keying.bit k' d) (node l r) (erase keying k' (d + 1) (leaf k' v')) :=
              mkBranch_eq_branch (.inr (.inl ⟨l, r, rfl⟩))
            refine ⟨_, _, ?_, hbase.replace hc hbranch⟩
            rw [hnone] at hbranch ⊢
            rw [hbranch, isNode_branch, digest_branch, digest_branch]
            exact deleteRound_replace hbit (digest_lt _) (digest_lt (p := p) empty) (digest_lt _)
              (.inl hne)
      · have hpb : isNode (branch (keying.bit key (d + 1)) sib' below') = true := isNode_branch
        generalize hbelow : branch (keying.bit key (d + 1)) sib' below' = below at *
        obtain ⟨phantom, s₁, hrun, hdeleted⟩ := ih (s := s) hcb (hu.branch hc rfl) hterm hpb hkb₀
        have hsibs : siblings keying key (d + 1) below ≠ [] := by
          rw [← hbelow, siblings_branch rfl]
          exact List.cons_ne_nil _ _
        have hleft : erase keying key (d + 1) below ≠ empty := by
          rw [← hbelow] at hcb ⊢
          exact hcb.erase_branch_ne_empty
        rw [promoted_cons hsibs]
        by_cases hm : (digests p).digest sib ≠ 0
            ∨ isNode (erase keying key (d + 1) below) = true
        · have hbranch : mkBranch (keying.bit key d) sib (erase keying key (d + 1) below)
              = branch (keying.bit key d) sib (erase keying key (d + 1) below) := by
            refine mkBranch_eq_branch (hm.imp (fun hne => ⟨?_, hleft⟩) fun hnode => .inr ?_)
            · rintro rfl
              exact hne digest_empty
            · exact exists_of_isNode hnode
          refine ⟨_, _, ?_, hdeleted.replace hc hbranch⟩
          rw [hbranch, isNode_branch, List.map_cons, deleteLoop, bind_of_ok hrun, digest_branch,
            digest_branch]
          exact deleteRound_replace hbit (digest_lt _) (digest_lt _) (digest_lt _) hm
        · rw [not_or, not_not] at hm
          obtain rfl := (digest_eq_zero hf₀ hksib₀).mp hm.1
          have hlone : mkBranch (keying.bit key d) empty (erase keying key (d + 1) below)
              = erase keying key (d + 1) below := by
            cases herase : erase keying key (d + 1) below with
            | empty => exact absurd herase hleft
            | leaf k₁ v₁ => exact mkBranch_empty_leaf
            | node l r => exact absurd (congrArg isNode herase) hm.2
          have hmixed : isNode (erase keying key (d + 1) below) = false :=
            Bool.eq_false_iff.mpr hm.2
          refine ⟨_, _, ?_, hdeleted.skip hc hlone⟩
          rw [hlone, List.map_cons, deleteLoop, bind_of_ok hrun, digest_branch, hmixed]
          exact deleteRound_skip hbit (digest_lt _) rfl

end Asp

end PrivacyWallet
