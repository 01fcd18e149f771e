import PrivacyWallet.Asp.Deletion

/-!
# The contract as a map of blocked keys

`Blocklist` is what the contract is for: an administrator and a finite map
from keys to values, changed by the administrator alone. `Holds` connects it
to the storage: the stored rows are those of the canonical tree of the map,
and the root is that tree's hash.

Each entry point is run here once for each way it can end:

- **insertion** (`insertLeaf_run`): the search reports where the path of the
  new key parts from the stored one, and the contract extends the siblings
  it got to those of the *new* tree (`extendSiblings_insert`), along which the
  loop of `Asp.Insertion` builds;
- **deletion** (`deleteLeaf_run`): the leaf is at the end of its path
  (`terminal_of_mem`), its last sibling is promoted if it is a leaf
  (`promote_run`), and the loop of `Asp.Deletion` goes up from there;
- **refusals** (`insertLeaf_unauthorized`, `insertLeaf_exists`,
  `insertLeaf_outside`, `deleteLeaf_unauthorized`, `deleteLeaf_absent`): each
  leaves the storage as it was.

All of it holds as long as no two inputs hashed on the way collide; the
trees are canonical, so the map alone determines rows and root.
-/

namespace PrivacyWallet

namespace Asp

open InvokeM SparseTree Digests

variable {A : Type} {p : Poseidon2} {s : Storage A} {t : Tree} {key value : U256}

/-! ## The map -/

/-- Who administers the list, and the value of each blocked key. -/
structure Blocklist (A : Type) where
  admin : A
  entries : U256 → Option U256

/-- One call on the map. -/
def Blocklist.call [DecidableEq A] (b : Blocklist A) (auth : List A) :
    Call A → Except (Fail Error) (Blocklist A)
  | .insertLeaf key value =>
      if b.admin ∉ auth then .error .trap
      else if (b.entries key).isSome then .error (.err .keyAlreadyExists)
      else if key < bn256Modulus ∧ value < bn256Modulus then
        .ok { b with entries := Function.update b.entries key (some value) }
      else .error .trap
  | .deleteLeaf key =>
      if b.admin ∉ auth then .error .trap
      else if (b.entries key).isSome then
        .ok { b with entries := Function.update b.entries key none }
      else .error (.err .keyNotFound)
  | .updateAdmin newAdmin =>
      if b.admin ∉ auth then .error .trap else .ok { b with admin := newAdmin }

/-- A call that fails leaves no trace. -/
def Blocklist.step [DecidableEq A] (b : Blocklist A) (c : List A × Call A) : Blocklist A :=
  match b.call c.1 c.2 with
  | .ok b' => b'
  | .error _ => b

def Blocklist.answer [DecidableEq A] (b : Blocklist A) (c : List A × Call A) :
    List (Except (Fail Error) Unit) :=
  [(b.call c.1 c.2).map fun _ => ()]

/-- A list with no keys. -/
def Blocklist.new (admin : A) : Blocklist A := ⟨admin, fun _ => none⟩

/-! ## The map in storage -/

/-- The storage keeps the tree. -/
structure Holds (p : Poseidon2) (s : Storage A) (t : Tree) : Prop where
  canon : Canon keying 0 t
  inField : ∀ k v, Mem k v t → k < bn256Modulus ∧ v < bn256Modulus
  known : (digests p).Known s.hashed t
  stored : (digests p).Stored row s.node t
  root : s.root = some ((digests p).digest t)

/-- The storage keeps the map. -/
structure Represents (p : Poseidon2) (s : Storage A) (b : Blocklist A) : Prop where
  admin : s.admin = some b.admin
  tree : ∃ t, Holds p s t ∧ ∀ k, SparseTree.get keying k 0 t = b.entries k

theorem Holds.find (h : Holds p s t) (hf : (digests p).CollisionFree s.hashed) (key : U256) :
    findKeyInternal s.node key (splitBits key) ((digests p).digest t) = .ok (found p key 0 t) :=
  findKeyInternal_eq hf h.canon under_zero h.known h.stored

/-- A key is found if the tree has it. -/
theorem found_found : (found p key 0 t).found = (SparseTree.get keying key 0 t).isSome := by
  unfold found SparseTree.get
  rcases terminal_cases keying key t 0 with h | ⟨k, v, h⟩
  · rw [h]; rfl
  · rw [h]
    dsimp only
    by_cases heq : k = key
    · rw [if_pos heq, if_pos heq.symm]; rfl
    · rw [if_neg heq, if_neg (Ne.symm heq)]; rfl

theorem found_siblings : (found p key 0 t).siblings
    = (siblings keying key 0 t).map (digests p).digest := by
  unfold found
  rcases terminal_cases keying key t 0 with h | ⟨k, v, h⟩
  · rw [h]
  · rw [h]
    dsimp only
    split <;> rfl

/-- What the search reports where the path ends in nothing. -/
theorem found_empty (h : terminal keying key 0 t = empty) :
    found p key 0 t =
      { found := false, siblings := (siblings keying key 0 t).map (digests p).digest,
        foundValue := 0, notFoundKey := key, notFoundValue := 0, isOld0 := true } := by
  rw [found, h]

/-- What it reports in a collision. -/
theorem found_collision {k v : U256} (h : terminal keying key 0 t = leaf k v) (hne : k ≠ key) :
    found p key 0 t =
      { found := false, siblings := (siblings keying key 0 t).map (digests p).digest,
        foundValue := 0, notFoundKey := k, notFoundValue := v, isOld0 := false } := by
  rw [found, h]
  exact if_neg hne

/-- What it reports for a key of the tree. -/
theorem found_key {v : U256} (h : terminal keying key 0 t = leaf key v) :
    found p key 0 t =
      { found := true, siblings := (siblings keying key 0 t).map (digests p).digest,
        foundValue := v, notFoundKey := 0, notFoundValue := 0, isOld0 := false } := by
  rw [found, h]
  exact if_pos rfl

theorem found_isOld0 (p : Poseidon2) (key : U256) (t : Tree) :
    (found p key 0 t).isOld0 = true ↔ terminal keying key 0 t = empty := by
  rcases terminal_cases keying key t 0 with h | ⟨k, v, h⟩
  · rw [found_empty h, h]
    simp
  · rw [found, h]
    dsimp only
    split <;> simp

/-! ## Insertion -/

/-- The zeros and the old leaf that the contract appends are the siblings
of the two leaves' join. -/
theorem extendSiblings_join (value : U256) {k' v' : U256} (hne : key ≠ k') :
    ∀ {n d : Nat} (pre : List U256), n + d = 256 → (∀ i < d, keying.bit key i = keying.bit k' i) →
      extendSiblings ((splitBits k').drop d) ((splitBits key).drop d) pre
          ++ [(digests p).digest (leaf k' v')]
        = pre ++ (siblings keying key d
            (join keying key k' (leaf key value) (leaf k' v') n d)).map (digests p).digest
  | 0, d, pre, hn, hpre => by
      have : d < 256 := Keying.levels_left hne hpre
      omega
  | n + 1, d, pre, hn, hpre => by
      rw [splitBits_drop k' (by omega), splitBits_drop key (by omega), extendSiblings]
      by_cases hb : keying.bit k' d = keying.bit key d
      · rw [if_pos hb,
          extendSiblings_join value hne (n := n) _ (by omega) (agree_succ hpre hb.symm),
          join_both rfl hb, siblings_branch rfl, List.map_cons, List.append_assoc]
        rfl
      · rw [if_neg hb, join_apart rfl hb, siblings_branch rfl]
        rfl

/-- The siblings to build on are those of the new tree. -/
theorem extendSiblings_insert (value : U256) {k' v' : U256} (hne : key ≠ k') {d : Nat} :
    ∀ pre : List U256, Canon keying d t → Under keying d key t →
      terminal keying key d t = leaf k' v' →
      extendSiblings ((splitBits k').drop (d + (siblings keying key d t).length))
          ((splitBits key).drop (d + (siblings keying key d t).length))
          (pre ++ (siblings keying key d t).map (digests p).digest)
          ++ [(digests p).digest (leaf k' v')]
        = pre ++ (siblings keying key d (SparseTree.insert keying key value d t)).map
            (digests p).digest := by
  induction t, d using path_induction keying key with
  | empty d => exact fun _ _ _ h => nomatch h
  | leaf k₁ v₁ d =>
      intro pre _ hu h
      obtain ⟨rfl, rfl⟩ : k₁ = k' ∧ v₁ = v' := by simpa [terminal] using h
      have hlt : d < 256 := Keying.levels_left hne (under_leaf hu)
      rw [insert_leaf_of_ne hne, siblings, List.map_nil, List.append_nil]
      exact extendSiblings_join value hne pre (by show 256 - d + d = 256; omega) (under_leaf hu)
  | branch sib below d ih =>
      intro pre hc hu h
      rw [terminal_branch rfl] at h
      have ihb := ih (pre ++ [(digests p).digest sib]) (canon_branch.mp hc).2.1
        (hu.branch hc rfl) h
      rw [insert_branch rfl, siblings_branch rfl, siblings_branch rfl, List.map_cons,
        List.map_cons, List.length_cons]
      rw [List.append_assoc, List.append_assoc, Nat.add_right_comm] at ihb
      exact ihb

/-- The leaf at the end of a path is an entry. -/
theorem mem_of_terminal {k v : U256} (h : terminal keying key 0 t = leaf k v) : Mem k v t := by
  have hend : Mem k v (terminal keying key 0 t) := by
    rw [h]
    exact ⟨rfl, rfl⟩
  exact hend.of_terminal

theorem insertSiblings_run (value : U256) (h : Holds p s t) (hno : ¬HasKey key t) :
    ∃ s₁, insertSiblings p (splitBits key) (found p key 0 t) s
        = (.ok ((siblings keying key 0 (SparseTree.insert keying key value 0 t)).map
              (digests p).digest,
            (digests p).digest (terminal keying key 0 t)), s₁) ∧
      Passed s s₁ ∧ s₁.node = s.node := by
  rcases terminal_cases keying key t 0 with hterm | ⟨k', v', hterm⟩
  · refine ⟨s, ?_, Passed.refl s, rfl⟩
    rw [found_empty hterm, insertSiblings, if_pos rfl, hterm,
      siblings_insert_of_empty hterm]
    rfl
  · have hmem : Mem k' v' t := mem_of_terminal hterm
    have hne : key ≠ k' := fun heq => hno (heq ▸ hmem.hasKey)
    obtain ⟨hk, hv⟩ := h.inField k' v' hmem
    have hext := extendSiblings_insert (p := p) value hne [] h.canon under_zero
      hterm
    rw [Nat.zero_add, List.nil_append, List.nil_append] at hext
    refine ⟨s.log (.leaf k' v'), ?_, ⟨rfl, rfl, rfl, List.subset_append_left _ _⟩, rfl⟩
    rw [found_collision hterm (Ne.symm hne), insertSiblings, if_neg Bool.false_ne_true]
    dsimp only
    rw [bind_of_ok (hashLeaf_run hk hv), List.length_map, ← hext, hterm]
    rfl

theorem siblings_ne_nil (ht : t ≠ empty) (hterm : terminal keying key 0 t = empty) :
    siblings keying key 0 t ≠ [] := by
  rcases branch_cases keying key 0 t with rfl | ⟨k, v, rfl⟩ | ⟨sib, below, rfl⟩
  · exact absurd rfl ht
  · cases hterm
  · rw [siblings_branch rfl]
    exact List.cons_ne_nil _ _

variable [DecidableEq A] {auth : List A} {a : A}

theorem requireAuth_bind {α : Type} (hauth : a ∈ auth) (k : Unit → AspM A α) :
    (requireAuth auth a >>= k) s = k () s := by
  rw [requireAuth, if_pos hauth]
  rfl

theorem requireAuth_bind_trap {α : Type} (hauth : a ∉ auth) (k : Unit → AspM A α) :
    (requireAuth auth a >>= k) s = (.error .trap, s) := by
  rw [requireAuth, if_neg hauth]
  rfl

omit [DecidableEq A] in
theorem orFail_bind {α β : Type} {r : Except Error α} {x : α} (h : r = .ok x)
    (k : α → AspM A β) : (orFail r >>= k) s = k x s := by
  rw [h]
  rfl

/-- An insertion that the map allows. The search finds the end of the key's
bits, the new siblings are those of the tree with the key
(`insertSiblings_run`), and the loop goes up through them (`insertLoop_run`);
its side conditions are what the search reported. -/
theorem insertLeaf_run (hf : (digests p).CollisionFree s.hashed) (h : Holds p s t)
    (hadmin : s.admin = some a) (hauth : a ∈ auth) (hno : ¬HasKey key t)
    (hkey : key < bn256Modulus) (hvalue : value < bn256Modulus) :
    ∃ s', insertLeaf p auth key value s = (.ok (), s') ∧ s'.admin = s.admin ∧
      s'.events = s.events ++ [.leafInserted key value
        ((digests p).digest (SparseTree.insert keying key value 0 t))] ∧
      ((digests p).CollisionFree s'.hashed →
        Holds p s' (SparseTree.insert keying key value 0 t)) := by
  have hget : SparseTree.get keying key 0 t = none := (get_eq_none h.canon).mpr hno
  have hfound : (found p key 0 t).found = false := by rw [found_found, hget]; rfl
  obtain ⟨s₁, hsib, hpass₁, hnode₁⟩ := insertSiblings_run value h hno
  -- the new leaf, before the loop
  let s₂ : Storage A := (s₁.log (.leaf key value)).setNode ((digests p).digest (leaf key value))
    [U256.one, key, value]
  have hpass₂ : Passed s₁ s₂ := ⟨rfl, rfl, rfl, List.subset_append_left _ _⟩
  have hold := found_isOld0 p key t
  obtain ⟨s₃, hrun, hpass₃, hpost⟩ := insertLoop_run (s := s₂) value
    ((siblings keying key 0 (SparseTree.insert keying key value 0 t)).map
      (digests p).digest).length (found p key 0 t).siblings
    ((found p key 0 t).isOld0 &&
      !((siblings keying key 0 (SparseTree.insert keying key value 0 t)).map
        (digests p).digest).isEmpty)
    (!(found p key 0 t).isOld0) hf h.canon under_zero hno h.known
    (fun i => by rw [found_siblings, Nat.zero_add])
    (by rw [List.length_map, Nat.zero_add])
    (by rw [Bool.not_eq_true', ← Bool.not_eq_true, hold])
    (fun hterm => by
      rw [ne_eq, ← hold, Bool.not_eq_true] at hterm
      rw [hterm, Bool.false_and])
    (fun hterm hne => by
      rw [hold.mpr hterm, siblings_insert_of_empty hterm]
      simpa using siblings_ne_nil hne hterm)
  refine ⟨{ s₃ with
      root := some ((digests p).digest (SparseTree.insert keying key value 0 t))
      events := s₃.events ++ [.leafInserted key value
        ((digests p).digest (SparseTree.insert keying key value 0 t))] }, ?_, ?_, ?_, ?_⟩
  · rw [insertLeaf, read_bind, hadmin, okOr_some_bind, requireAuth_bind hauth, h.root,
      Option.getD_some, orFail_bind (h.find hf key),
      rejectIf_bind_of_not (by rw [hfound]; exact Bool.false_ne_true), bind_of_ok hsib]
    dsimp only
    rw [bind_of_ok (hashLeaf_run hkey hvalue), update_bind]
    exact bind_of_ok hrun
  · exact hpass₃.admin.trans hpass₁.admin
  · show s₃.events ++ _ = _
    rw [hpass₃.events]
    exact congrArg (· ++ _) hpass₁.events
  · intro hf'
    have hlog : s₂.hashed ⊆ s₃.hashed := hpass₃.hashed
    have hin : NodeInput.leaf key value ∈ s₂.hashed :=
      List.mem_append_right _ List.mem_cons_self
    have hleaf : (digests p).Known s₃.hashed (leaf key value) := hlog hin
    have hknown : (digests p).Known s₃.hashed t :=
      h.known.mono (List.Subset.trans hpass₁.hashed (List.Subset.trans hpass₂.hashed hlog))
    have hst : (digests p).Stored row s₂.node t := by
      have hs₁ : (digests p).Stored row s₁.node t := hnode₁ ▸ h.stored
      exact hs₁.write hf' (hlog hin) hknown
    obtain ⟨hk', hs', -⟩ := hpost _ hf' (List.Subset.refl _) hknown hleaf hst
      (Function.update_self _ _ _)
    refine ⟨canon_insert h.canon under_zero, fun k v hm => ?_, hk', hs', rfl⟩
    rcases (mem_insert h.canon under_zero k v).mp hm with ⟨rfl, rfl⟩ | ⟨-, hm⟩
    · exact ⟨hkey, hvalue⟩
    · exact h.inField k v hm

/-- Who may not insert. -/
theorem insertLeaf_unauthorized (hadmin : s.admin = some a) (hauth : a ∉ auth) :
    insertLeaf p auth key value s = (.error .trap, s) := by
  rw [insertLeaf, read_bind, hadmin, okOr_some_bind, requireAuth_bind_trap hauth]

theorem insertLeaf_exists (hf : (digests p).CollisionFree s.hashed) (h : Holds p s t)
    (hadmin : s.admin = some a) (hauth : a ∈ auth) (hkey : HasKey key t) :
    insertLeaf p auth key value s = (.error (.err .keyAlreadyExists), s) := by
  have hget : SparseTree.get keying key 0 t ≠ none := fun hn =>
    (get_eq_none h.canon).mp hn hkey
  have hfound : (found p key 0 t).found = true := by
    rw [found_found, Option.isSome_iff_ne_none]
    exact hget
  rw [insertLeaf, read_bind, hadmin, okOr_some_bind, requireAuth_bind hauth, h.root,
    Option.getD_some, orFail_bind (h.find hf key), rejectIf_bind_of hfound]

/-- A key or a value that is no field element makes the hash panic. -/
theorem insertLeaf_outside (hf : (digests p).CollisionFree s.hashed) (h : Holds p s t)
    (hadmin : s.admin = some a) (hauth : a ∈ auth) (hno : ¬HasKey key t)
    (hout : ¬(key < bn256Modulus ∧ value < bn256Modulus)) :
    (insertLeaf p auth key value s).1 = .error .trap := by
  have hfound : (found p key 0 t).found = false := by
    rw [found_found, (get_eq_none h.canon).mpr hno]
    rfl
  obtain ⟨s₁, hsib, -, -⟩ := insertSiblings_run value h hno
  rw [insertLeaf, read_bind, hadmin, okOr_some_bind, requireAuth_bind hauth, h.root,
    Option.getD_some, orFail_bind (h.find hf key),
    rejectIf_bind_of_not (by rw [hfound]; exact Bool.false_ne_true), bind_of_ok hsib]
  dsimp only
  rw [bind_of_error (hashLeaf_trap hout)]

/-! ## Deletion -/

omit [DecidableEq A] in
/-- The leaf of an entry is at the end of its path. -/
theorem terminal_of_mem {k v : U256} (hc : Canon keying 0 t) (hm : Mem k v t) :
    terminal keying k 0 t = leaf k v := by
  have hend := (mem_terminal hc).mpr hm
  rcases terminal_cases keying k t 0 with h | ⟨k', v', h⟩
  · rw [h] at hend
    exact hend.elim
  · rw [h] at hend ⊢
    obtain ⟨rfl, rfl⟩ := hend
    rfl

omit [DecidableEq A] in
/-- What `promote` decides from the last sibling's row. -/
theorem promote_run {sibs : List Tree}
    (hlast : ∀ q, sibs.getLast? = some q → q ≠ empty ∧ (digests p).Stored row s.node q) :
    promote (sibs.map (digests p).digest) s
      = (.ok ((digests p).digest (promoted sibs).1,
          (promoted sibs).2.map (digests p).digest), s) := by
  rw [promote, List.getLast?_map, promoted]
  cases hq : sibs.getLast? with
  | none => rfl
  | some q =>
      obtain ⟨hne, hs⟩ := hlast q hq
      rw [Option.map_some]
      dsimp only
      rw [read_bind]
      cases q with
      | empty => exact absurd rfl hne
      | leaf k v =>
          have hrow : s.node ((digests p).digest (leaf k v)) = some [U256.one, k, v] := hs
          rw [hrow]
          dsimp only
          rw [if_pos rfl, ← List.map_dropLast]
          rfl
      | node l r =>
          have hrow : s.node ((digests p).digest (node l r))
              = some [(digests p).digest l, (digests p).digest r] := hs.1
          rw [hrow]
          rfl

omit [DecidableEq A] in
/-- The loop of `delete_leaf` over the whole path. -/
theorem deletePath_run {log₀ : List (NodeInput U256 U256 U256)}
    (hf₀ : (digests p).CollisionFree log₀) (hc : Canon keying 0 t)
    (hk₀ : (digests p).Known log₀ t) {v : U256}
    (hterm : terminal keying key 0 t = leaf key v) :
    ∃ acc s', deleteLoop p (splitBits key) 0
        ((promoted (siblings keying key 0 t)).2.map (digests p).digest)
        { rt := (digests p).digest (promoted (siblings keying key 0 t)).1,
          rtOld := (digests p).digest (leaf key v), mixed := false } s = (.ok acc, s') ∧
      acc.rt = (digests p).digest (SparseTree.erase keying key 0 t) ∧ Passed s s' ∧
      ((digests p).CollisionFree s'.hashed → (digests p).Known s'.hashed t →
        (∀ q ∈ siblings keying key 0 t, (digests p).Stored row s.node q) →
        (digests p).Known s'.hashed (SparseTree.erase keying key 0 t) ∧
          (digests p).Stored row s'.node (SparseTree.erase keying key 0 t)) := by
  rcases branch_cases keying key 0 t with rfl | ⟨k', v', rfl⟩ | ⟨sib, below, rfl⟩
  · cases hterm
  · obtain ⟨rfl, rfl⟩ : k' = key ∧ v' = v := by simpa [terminal] using hterm
    refine ⟨_, s, rfl, ?_, Passed.refl s, fun _ _ _ => ?_⟩
    · rw [SparseTree.erase, if_pos rfl]
      rfl
    · rw [SparseTree.erase, if_pos rfl]
      exact ⟨trivial, trivial⟩
  · obtain ⟨phantom, s', hrun, hdeleted⟩ := deleteLoop_run (s := s) hf₀ hc under_zero
      hterm isNode_branch hk₀
    refine ⟨_, s', hrun, rfl, hdeleted.passed, fun hf hk hst => ?_⟩
    obtain ⟨-, hknown, hstored, -⟩ := hdeleted.built _ hf (List.Subset.refl _) hk hst
    exact ⟨hknown, hstored⟩

/-- A deletion that the map allows. The siblings of the search stay stored when
the leaf's row is removed, as they lack its key; the lowest of them is promoted
(`promote_run`), and the loop goes up from there (`deletePath_run`). -/
theorem deleteLeaf_run (hf : (digests p).CollisionFree s.hashed) (h : Holds p s t)
    (hadmin : s.admin = some a) (hauth : a ∈ auth) {v : U256} (hmem : Mem key v t) :
    ∃ s', deleteLeaf p auth key s = (.ok (), s') ∧ s'.admin = s.admin ∧
      s'.events = s.events ++ [.leafDeleted key
        ((digests p).digest (SparseTree.erase keying key 0 t))] ∧
      ((digests p).CollisionFree s'.hashed →
        Holds p s' (SparseTree.erase keying key 0 t)) := by
  obtain ⟨hkey, hv⟩ := h.inField key v hmem
  have hterm := terminal_of_mem h.canon hmem
  have hfind := h.find hf key
  rw [found_key hterm] at hfind
  have hleaf : (digests p).Known s.hashed (leaf key v) := hterm ▸ h.known.terminal
  -- the leaf's row is removed; its siblings' rows stay
  let s₂ : Storage A := (s.log (.leaf key v)).removeNode ((digests p).digest (leaf key v))
  have hpass₂ : Passed s s₂ := ⟨rfl, rfl, rfl, List.subset_append_left _ _⟩
  have hst : ∀ q ∈ siblings keying key 0 t, (digests p).Stored row s₂.node q := fun q hq =>
    (h.stored.of_mem_siblings hq).remove hf hleaf (h.known.of_mem_siblings hq)
      (notMem_subs_of_key (hasKey_leaf.mpr rfl) (h.canon.not_hasKey_of_mem_siblings hq))
  have hlast (q : Tree) (hq : (siblings keying key 0 t).getLast? = some q) :
      q ≠ empty ∧ (digests p).Stored row s₂.node q :=
    ⟨h.canon.getLast_siblings_ne_empty hterm hq, hst q (List.mem_of_getLast? hq)⟩
  have hprom := promote_run hlast
  obtain ⟨acc, s₃, hrun, hrt, hpass₃, hpost⟩ := deletePath_run (s := s₂) hf h.canon h.known hterm
  refine ⟨{ s₃ with root := some acc.rt, events := s₃.events ++ [.leafDeleted key acc.rt] },
    ?_, ?_, ?_, ?_⟩
  · rw [deleteLeaf, read_bind, hadmin, okOr_some_bind, requireAuth_bind hauth, h.root,
      okOr_some_bind, orFail_bind hfind, rejectIf_bind_of_not (by simp)]
    dsimp only
    rw [bind_of_ok (hashLeaf_run hkey hv), update_bind]
    refine (bind_of_ok hprom).trans ?_
    exact bind_of_ok hrun
  · exact hpass₃.admin
  · show s₃.events ++ _ = _
    rw [hpass₃.events, hrt]
    rfl
  · intro hf'
    have hknown : (digests p).Known s₃.hashed t :=
      h.known.mono (List.Subset.trans hpass₂.hashed hpass₃.hashed)
    obtain ⟨hk', hs'⟩ := hpost hf' hknown hst
    refine ⟨canon_erase h.canon, fun k v hm => ?_, hk', hs', congrArg some hrt⟩
    exact h.inField k v ((mem_erase h.canon k v).mp hm).2

/-- Who may not delete. -/
theorem deleteLeaf_unauthorized (hadmin : s.admin = some a) (hauth : a ∉ auth) :
    deleteLeaf p auth key s = (.error .trap, s) := by
  rw [deleteLeaf, read_bind, hadmin, okOr_some_bind, requireAuth_bind_trap hauth]

theorem deleteLeaf_absent (hf : (digests p).CollisionFree s.hashed) (h : Holds p s t)
    (hadmin : s.admin = some a) (hauth : a ∈ auth) (hno : ¬HasKey key t) :
    deleteLeaf p auth key s = (.error (.err .keyNotFound), s) := by
  have hfound : (found p key 0 t).found = false := by
    rw [found_found, (get_eq_none h.canon).mpr hno]
    rfl
  rw [deleteLeaf, read_bind, hadmin, okOr_some_bind, requireAuth_bind hauth, h.root,
    okOr_some_bind, orFail_bind (h.find hf key), rejectIf_bind_of hfound]

end Asp

end PrivacyWallet
