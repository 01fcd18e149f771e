import PrivacyWallet.Asp.Refinement

/-!
# Searches and proofs of absence

What the two views of the contract return after a run. `find_key` always
finds the stored path, and its report proves itself: its siblings lead from
the end of the path to the root (`findKey_run`). Conversely a path that
leads to the root from one entry, or from nothing, decides every key whose
bits it follows (`path_decides`). `verify_non_membership` accepts the report
of `find_key` and nothing else, and not even that where the path ends in
another key with the value 0 (`verifyNonMembership_run`).

- **finding**: after a run the storage keeps a tree (`Holds`), and the search
  of the contract is the descent in that tree (`Holds.findKey`);
- **deciding** (`Holds.path_unique`): a climb from some end along the bits of
  a key hashes inputs; if they do not collide with those of the tree, the
  climb is the tree's own path, so it ends where the key's path ends;
- **checking** (`verifyLoop_run`, `Holds.check`): the loop of the contract is
  that climb, so it reaches the root from the end of the stored path only
  (`Holds.climb_eq_root`). It starts at the reported entry, or at nothing if
  the entry's value is 0 - the one place where a true report is refused
  (`checkStart_found`).

The inputs of a path that somebody presents are no inputs of the run, so the
assumption names both: nothing collides among what the run hashed and what
the path hashes.
-/

namespace PrivacyWallet

namespace Asp

open InvokeM SparseTree Digests

variable {A : Type} [DecidableEq A] {p : Poseidon2} {s : Storage A} {t : Tree}
variable {b : Blocklist A} {key : U256}

/-! ## The search -/

/-- The end of a path: nothing, or the entry that is found there. -/
def tip : Option (U256 × U256) → Tree
  | none => SparseTree.empty
  | some (k, v) => leaf k v

/-- The end of the path that a report describes. -/
def FindResult.ending (r : FindResult) (key : U256) : Option (U256 × U256) :=
  if r.isOld0 then none
  else if r.found then some (key, r.foundValue)
  else some (r.notFoundKey, r.notFoundValue)

omit [DecidableEq A] in
theorem ending_found (p : Poseidon2) (key : U256) (t : Tree) :
    tip ((found p key 0 t).ending key) = terminal keying key 0 t := by
  rcases terminal_cases keying key t 0 with h | ⟨k, v, h⟩
  · rw [found_empty h, h]
    rfl
  · by_cases heq : k = key
    · subst heq
      rw [found_key h, h]
      rfl
    · rw [found_collision h heq, h]
      rfl

omit [DecidableEq A] in
theorem found_foundValue (p : Poseidon2) (key : U256) (t : Tree) :
    (found p key 0 t).foundValue = (SparseTree.get keying key 0 t).getD 0 := by
  unfold SparseTree.get
  rcases terminal_cases keying key t 0 with h | ⟨k, v, h⟩
  · rw [found_empty h, h]
    rfl
  · rw [h]
    dsimp only
    by_cases heq : k = key
    · subst heq
      rw [found_key h, if_pos rfl]
      rfl
    · rw [found_collision h heq, if_neg (Ne.symm heq)]
      rfl

omit [DecidableEq A] in
/-- The search of the contract reports the end of the path in the stored tree. -/
theorem Holds.findKey (h : Holds p s t) (hf : (digests p).CollisionFree s.hashed) (key : U256) :
    findKey s key = .ok (found p key 0 t) := by
  rw [Asp.findKey, h.getD_root]
  exact h.find hf key

/-- After a run every search succeeds, says whether the key is blocked, and
reports a path from the entry at its end to the root.

The storage holds the canonical tree of the map, so the search walks that tree:
it ends in what stands at the end of the key's bits, and the siblings that it
met lead back to the root. -/
theorem findKey_run (p : Poseidon2) (admin : A) (calls : List (List A × Call A))
    (hf : (digests p).CollisionFree (run p admin calls).hashed) (key : U256) :
    ∃ r, findKey (run p admin calls) key = .ok r ∧
      r.found = ((Blocklist.run admin calls).entries key).isSome ∧
      r.foundValue = ((Blocklist.run admin calls).entries key).getD 0 ∧
      (∀ e ∈ r.ending key, (Blocklist.run admin calls).entries e.1 = some e.2) ∧
      (digests p).climb keying key 0 r.siblings ((digests p).digest (tip (r.ending key)))
        = (run p admin calls).root.getD 0 := by
  obtain ⟨-, t, ht, hget⟩ := represents_run hf
  refine ⟨_, ht.findKey hf key, ?_, ?_, fun e he => ?_, ?_⟩
  · rw [found_found, hget]
  · rw [found_foundValue, hget]
  · have hterm := ending_found p key t
    rw [Option.mem_def] at he
    rw [he] at hterm
    have hmem : Mem e.1 e.2 t := mem_of_terminal hterm.symm
    rw [← hget, get_eq_some ht.canon]
    exact hmem
  · rw [found_siblings, ending_found, climb_siblings, ht.getD_root]

/-- A search for a key that came and went. -/
theorem findKey_run_small :
    ∃ r, findKey (run smallHash 1 smallCalls) ⟨1, by decide⟩ = .ok r ∧
      r.found = ((Blocklist.run 1 smallCalls).entries ⟨1, by decide⟩).isSome ∧
      r.foundValue = ((Blocklist.run 1 smallCalls).entries ⟨1, by decide⟩).getD 0 ∧
      (∀ e ∈ r.ending ⟨1, by decide⟩,
        (Blocklist.run 1 smallCalls).entries e.1 = some e.2) ∧
      (digests smallHash).climb keying ⟨1, by decide⟩ 0 r.siblings
          ((digests smallHash).digest (tip (r.ending ⟨1, by decide⟩)))
        = (run smallHash 1 smallCalls).root.getD 0 :=
  findKey_run smallHash 1 smallCalls smallCalls_collisionFree ⟨1, by decide⟩

/-! ## Paths to the root -/

/-- The inputs of the hashes of a path from its end to the root. -/
def pathInputs (p : Poseidon2) (key : U256) (siblings : List U256)
    (e : Option (U256 × U256)) : List (NodeInput U256 U256 U256) :=
  e.elim [] (fun kv => [.leaf kv.1 kv.2])
    ++ (digests p).climbInputs keying key 0 siblings ((digests p).digest (tip e))

omit [DecidableEq A] in
/-- Paths along the bits of one key that lead to one root end alike: level by level the
hashes have equal inputs, as none collide. -/
theorem Holds.path_unique (h : Holds p s t) {siblings : List U256} {e : Option (U256 × U256)}
    (hf : (digests p).CollisionFree (s.hashed ++ pathInputs p key siblings e))
    (hroot : (digests p).climb keying key 0 siblings ((digests p).digest (tip e))
      = s.root.getD 0) :
    terminal keying key 0 t = tip e ∧
      (SparseTree.siblings keying key 0 t).map (digests p).digest = siblings := by
  have hlog : pathInputs p key siblings e ⊆ s.hashed ++ pathInputs p key siblings e :=
    List.subset_append_right _ _
  have htip : (digests p).Known (s.hashed ++ pathInputs p key siblings e) (tip e) := by
    cases e with
    | none => trivial
    | some kv => exact hlog (List.mem_append_left _ List.mem_cons_self)
  refine climb_sound hf htip (fun l r heq => ?_) (h.known.mono (List.subset_append_left _ _))
    (List.Subset.trans (List.subset_append_right _ _) hlog) (hroot.trans h.getD_root)
  cases e with
  | none => cases heq
  | some kv => cases heq

/-- A path that leads to the root from an entry, or from nothing, decides
whether the key whose bits it follows is blocked.

Where nothing collides, a path to the root is the one path of the tree along
these bits (`path_unique`), so its end is what the tree has there. -/
theorem path_decides (p : Poseidon2) (admin : A) (calls : List (List A × Call A))
    (key : U256) (siblings : List U256) (e : Option (U256 × U256))
    (hf : (digests p).CollisionFree
      ((run p admin calls).hashed ++ pathInputs p key siblings e))
    (hroot : (digests p).climb keying key 0 siblings ((digests p).digest (tip e))
      = (run p admin calls).root.getD 0) :
    (Blocklist.run admin calls).entries key
        = (e.filter fun kv => kv.1 = key).map Prod.snd ∧
      ∀ kv ∈ e, (Blocklist.run admin calls).entries kv.1 = some kv.2 := by
  obtain ⟨-, t, ht, hget⟩ := represents_run (hf.mono (List.subset_append_left _ _))
  obtain ⟨hterm, -⟩ := ht.path_unique hf hroot
  constructor
  · rw [← hget, SparseTree.get, hterm]
    cases e with
    | none => rfl
    | some kv =>
        obtain ⟨k, v⟩ := kv
        by_cases heq : k = key
        · simp [tip, heq]
        · simp [tip, heq, Ne.symm heq]
  · rintro ⟨k, v⟩ he
    rw [Option.mem_def] at he
    rw [he] at hterm
    rw [← hget, get_eq_some ht.canon]
    exact mem_of_terminal hterm

/-- Another key at the root blocks no second one. -/
theorem path_decides_small :
    (Blocklist.run 1 (smallCalls.take 1)).entries ⟨2, by decide⟩
        = ((some (⟨1, by decide⟩, ⟨10, by decide⟩) : Option (U256 × U256)).filter
            fun kv => kv.1 = ⟨2, by decide⟩).map Prod.snd ∧
      ∀ kv ∈ (some (⟨1, by decide⟩, ⟨10, by decide⟩) : Option (U256 × U256)),
        (Blocklist.run 1 (smallCalls.take 1)).entries kv.1 = some kv.2 :=
  path_decides smallHash 1 (smallCalls.take 1) ⟨2, by decide⟩ []
    (some (⟨1, by decide⟩, ⟨10, by decide⟩)) ⟨by decide +kernel, by decide +kernel⟩
    (by decide +kernel)

/-! ## The contract's own check -/

omit [DecidableEq A] in
/-- The loop climbs the path. -/
theorem verifyLoop_run (s : Storage A) : ∀ (d : Nat) (siblings : List U256) (start : U256),
    d + siblings.length ≤ 256 → (∀ q ∈ siblings, q < bn256Modulus) → start < bn256Modulus →
      ∃ s', verifyLoop p (splitBits key) d siblings start s
          = (.ok ((digests p).climb keying key d siblings start), s') ∧
        (digests p).climb keying key d siblings start < bn256Modulus
  | _, [], _, _, _, hstart => ⟨s, rfl, hstart⟩
  | d, q :: rest, start, hlen, hin, hstart => by
      rw [List.length_cons] at hlen
      rw [List.forall_mem_cons] at hin
      obtain ⟨s₁, hrun, hlt⟩ := verifyLoop_run s (d + 1) rest start (by omega) hin.2 hstart
      refine ⟨s₁.log (branchInput (keying.bit key d) q
        ((digests p).climb keying key (d + 1) rest start)), ?_, image_lt _⟩
      rw [verifyLoop, bind_of_ok hrun, splitBits_get key (by omega), okOr_some_bind]
      exact hashLevel_run hin.1 hlt

omit [DecidableEq A] in
/-- No path is longer than the bits of a key. -/
theorem siblings_length_le {d : Nat} : Canon keying d t → Under keying d key t → d ≤ 256 →
    d + (siblings keying key d t).length ≤ 256 := by
  induction t, d using path_induction keying key with
  | empty d => exact fun _ _ hd => hd
  | leaf k v d => exact fun _ _ hd => hd
  | branch sib below d ih =>
      intro hc hu _
      have hd : d < 256 := hc.level_lt_branch hu
      have ihb := ih (canon_branch.mp hc).2.1 (hu.branch hc rfl) hd
      rw [siblings_branch rfl, List.length_cons]
      omega

omit [DecidableEq A] in
/-- The reported path leads to the root from the end of the stored path
only. -/
theorem Holds.climb_eq_root (h : Holds p s t) {e : Option (U256 × U256)}
    (hf : (digests p).CollisionFree
      (s.hashed ++ pathInputs p key (found p key 0 t).siblings e)) :
    (digests p).climb keying key 0 (found p key 0 t).siblings ((digests p).digest (tip e))
        = (digests p).digest t ↔
      terminal keying key 0 t = tip e := by
  constructor
  · exact fun hroot => (h.path_unique hf (hroot.trans h.getD_root.symm)).1
  · intro hterm
    rw [← hterm, found_siblings, climb_siblings]

/-- Where the check starts to climb. -/
def checkStart (key notFoundKey notFoundValue : U256) : Option (U256 × U256) :=
  if notFoundKey ≠ key ∧ notFoundValue ≠ 0 then some (notFoundKey, notFoundValue) else none

omit [DecidableEq A] in
/-- The start is the end of the stored path, unless a zero value hides the
entry there. -/
theorem checkStart_found (hno : (found p key 0 t).found = false) :
    terminal keying key 0 t
        = tip (checkStart key (found p key 0 t).notFoundKey (found p key 0 t).notFoundValue) ↔
      (found p key 0 t).notFoundKey = key ∨ (found p key 0 t).notFoundValue ≠ 0 := by
  rcases terminal_cases keying key t 0 with h | ⟨k, v, h⟩
  · rw [found_empty h, h]
    simp [checkStart, tip]
  · have hne : k ≠ key := by
      rintro rfl
      rw [found_key h] at hno
      cases hno
    rw [found_collision h hne, h]
    by_cases hv : v = 0
    · simp [checkStart, tip, hne, hv]
    · simp [checkStart, tip, hne, hv]

omit [DecidableEq A] in
theorem found_siblings_lt : ∀ q ∈ (found p key 0 t).siblings, q < bn256Modulus := by
  rw [found_siblings]
  intro q hq
  obtain ⟨t', -, rfl⟩ := List.mem_map.mp hq
  exact digest_lt t'

omit [DecidableEq A] in
/-- The climb of the check, on the reported path. -/
theorem Holds.check (h : Holds p s t) {e : Option (U256 × U256)}
    (hf : (digests p).CollisionFree
      (s.hashed ++ pathInputs p key (found p key 0 t).siblings e)) (s' : Storage A) :
    ((do
        let computedRoot ← verifyLoop p (splitBits key) 0 (found p key 0 t).siblings
          ((digests p).digest (tip e))
        rejectIf (computedRoot ≠ (digests p).digest t) .invalidProof
        pure true : AspM A Bool) s').1
      = if terminal keying key 0 t = tip e then .ok true else .error (.err .invalidProof) := by
  have hlen : 0 + (found p key 0 t).siblings.length ≤ 256 := by
    rw [found_siblings, List.length_map]
    exact siblings_length_le h.canon under_zero (Nat.zero_le _)
  obtain ⟨s₁, hrun, -⟩ := verifyLoop_run s' 0 _ _ hlen found_siblings_lt (digest_lt (tip e))
  rw [bind_of_ok hrun]
  by_cases hterm : terminal keying key 0 t = tip e
  · rw [rejectIf_bind_of_not (not_not.mpr ((h.climb_eq_root hf).mpr hterm)), if_pos hterm]
    rfl
  · rw [rejectIf_bind_of (mt (h.climb_eq_root hf).mp hterm), if_neg hterm]

omit [DecidableEq A] in
theorem Holds.other_inField (h : Holds p s t) (hno : (found p key 0 t).found = false)
    (hother : (found p key 0 t).notFoundKey ≠ key) :
    (found p key 0 t).notFoundKey < bn256Modulus ∧
      (found p key 0 t).notFoundValue < bn256Modulus := by
  rcases terminal_cases keying key t 0 with hterm | ⟨k, v, hterm⟩
  · rw [found_empty hterm] at hother
    exact absurd rfl hother
  · have hne : k ≠ key := by
      rintro rfl
      rw [found_key hterm] at hno
      cases hno
    rw [found_collision hterm hne]
    exact h.inField k v (mem_of_terminal hterm)

/-- The proof is the one that a search reports, and does not end in another
key with the value 0. -/
abbrev FindResult.Admits (r : FindResult) (key : U256) (siblings : List U256)
    (notFoundKey notFoundValue : U256) : Prop :=
  r.siblings = siblings ∧ r.notFoundKey = notFoundKey ∧ r.notFoundValue = notFoundValue ∧
    (notFoundKey = key ∨ notFoundValue ≠ 0)

/-- The contract's check after a run: a blocked key is reported as such, the
report of a search is accepted unless it ends in another key with the value
0, and everything else is refused.

The contract searches for the key itself and compares the report with what it
found, field by field and in its own order; the comparisons are gone through
one after the other. -/
theorem verifyNonMembership_run (p : Poseidon2) (admin : A)
    (calls : List (List A × Call A)) (key : U256) (siblings : List U256)
    (notFoundKey notFoundValue : U256)
    (hf : (digests p).CollisionFree ((run p admin calls).hashed
      ++ pathInputs p key siblings (checkStart key notFoundKey notFoundValue))) :
    ∃ r, findKey (run p admin calls) key = .ok r ∧
      r.found = ((Blocklist.run admin calls).entries key).isSome ∧
      (verifyNonMembership p key siblings notFoundKey notFoundValue (run p admin calls)).1
        = if r.found then .ok false
          else if r.Admits key siblings notFoundKey notFoundValue then .ok true
          else .error (.err .invalidProof) := by
  have hf₀ := hf.mono (List.subset_append_left _ (pathInputs p key siblings
    (checkStart key notFoundKey notFoundValue)))
  obtain ⟨-, t, ht, hget⟩ := represents_run hf₀
  refine ⟨found p key 0 t, ht.findKey hf₀ key, by rw [found_found, hget], ?_⟩
  rw [verifyNonMembership, read_bind, ht.getD_root, orFail_bind (ht.find hf₀ key)]
  cases hno : (found p key 0 t).found with
  | true => rfl
  | false =>
      rw [if_neg Bool.false_ne_true, if_neg Bool.false_ne_true]
      -- the comparisons with the report
      by_cases hsib : (found p key 0 t).siblings = siblings
      swap
      · have hrefused : ¬(found p key 0 t).Admits key siblings notFoundKey notFoundValue :=
          fun h => hsib h.1
        rw [if_neg hrefused]
        by_cases hlen : (found p key 0 t).siblings.length = siblings.length
        · rw [rejectIf_bind_of_not (not_not.mpr hlen), rejectIf_bind_of hsib]
        · rw [rejectIf_bind_of hlen]
      rw [rejectIf_bind_of_not (not_not.mpr (congrArg List.length hsib)),
        rejectIf_bind_of_not (not_not.mpr hsib)]
      by_cases hend : (found p key 0 t).notFoundKey = notFoundKey ∧
          (found p key 0 t).notFoundValue = notFoundValue
      swap
      · have hrefused : ¬(found p key 0 t).Admits key siblings notFoundKey notFoundValue :=
          fun h => hend ⟨h.2.1, h.2.2.1⟩
        rw [if_neg hrefused, rejectIf_bind_of (not_and_or.mp hend)]
      rw [rejectIf_bind_of_not (not_or.mpr ⟨not_not.mpr hend.1, not_not.mpr hend.2⟩)]
      obtain ⟨rfl, rfl⟩ := hend
      subst hsib
      have hadmits : (found p key 0 t).Admits key (found p key 0 t).siblings
          (found p key 0 t).notFoundKey (found p key 0 t).notFoundValue ↔
          terminal keying key 0 t = tip (checkStart key (found p key 0 t).notFoundKey
            (found p key 0 t).notFoundValue) := by
        rw [checkStart_found hno]
        exact ⟨fun h => h.2.2.2, fun h => ⟨rfl, rfl, rfl, h⟩⟩
      refine Eq.trans ?_ (if_congr hadmits rfl rfl).symm
      by_cases hstart : (found p key 0 t).notFoundKey ≠ key ∧ (found p key 0 t).notFoundValue ≠ 0
      · have hsome : checkStart key (found p key 0 t).notFoundKey (found p key 0 t).notFoundValue
            = some ((found p key 0 t).notFoundKey, (found p key 0 t).notFoundValue) :=
          if_pos hstart
        obtain ⟨hk, hv⟩ := ht.other_inField hno hstart.1
        rw [hsome] at hf
        rw [if_pos hstart, hsome, bind_of_ok (hashLeaf_run hk hv)]
        exact ht.check hf _
      · have hnone : checkStart key (found p key 0 t).notFoundKey
            (found p key 0 t).notFoundValue = none := if_neg hstart
        rw [hnone] at hf
        rw [if_neg hstart, hnone]
        exact ht.check hf _

/-- The report on an absent key, as its proof. -/
theorem verifyNonMembership_run_small :
    ∃ r, findKey (run smallHash 1 (smallCalls.take 1)) ⟨2, by decide⟩ = .ok r ∧
      r.found = ((Blocklist.run 1 (smallCalls.take 1)).entries ⟨2, by decide⟩).isSome ∧
      (verifyNonMembership smallHash ⟨2, by decide⟩ [] ⟨1, by decide⟩ ⟨10, by decide⟩
          (run smallHash 1 (smallCalls.take 1))).1
        = if r.found then .ok false
          else if r.Admits ⟨2, by decide⟩ [] ⟨1, by decide⟩ ⟨10, by decide⟩ then .ok true
          else .error (.err .invalidProof) :=
  verifyNonMembership_run smallHash 1 (smallCalls.take 1) ⟨2, by decide⟩ [] ⟨1, by decide⟩
    ⟨10, by decide⟩ ⟨by decide +kernel, by decide +kernel⟩

end Asp

end PrivacyWallet
