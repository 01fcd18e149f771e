import PrivacyWallet.Asp.BlockedKeys

/-!
# The contract over its runs

From the storage that the constructor leaves, any list of calls answers as
the map of blocked keys does, and the storage keeps the map (`run_refines`).
So two runs have the same root exactly if they have the same map
(`root_eq_iff`).

The only assumption is on the inputs that the run hashed: no two of them
collide. It is stated once, of the storage at the end, and used of every
storage before it, because `hashed` only grows: each piece of the contract
appends to that log and removes nothing from it (the lemmas `.._appends`,
composed to `step_hashed` and `run_hashed`).

- **one call** (`step_refines`): each entry point was run on a stored tree in
  `Asp.BlockedKeys`; what is left is to match its outcome with the map's, one
  case for each way it can end (`insertLeaf_refines`, `deleteLeaf_refines`,
  `updateAdmin_refines`);
- **a run** (`represents_earlier`, `represents_run`): by induction on the
  calls, for every prefix at once;
- **the root**: equal maps have equal canonical trees, so equal roots, with no
  assumption; equal roots have equal trees, as the inputs of both are among
  those that do not collide, and a canonical tree has one map.
-/

namespace PrivacyWallet

namespace Asp

open InvokeM SparseTree Digests

variable {A : Type} [DecidableEq A] {p : Poseidon2} {s : Storage A} {t : Tree}
variable {b : Blocklist A} {auth : List A} {key value : U256}

/-! ## The log of hashes grows -/

omit [DecidableEq A] in
theorem hashLeaf_appends (key value : U256) :
    Appends (·.hashed) (hashLeaf p key value : AspM A U256) :=
  Appends.bind (.of_frame (.orTrap _)) fun _ =>
    .bind (.update fun _ => List.prefix_append _ _) fun _ => .of_frame (.pure _)

omit [DecidableEq A] in
theorem hashInternal_appends (left right : U256) :
    Appends (·.hashed) (hashInternal p left right : AspM A U256) :=
  Appends.bind (.of_frame (.orTrap _)) fun _ =>
    .bind (.update fun _ => List.prefix_append _ _) fun _ => .of_frame (.pure _)

omit [DecidableEq A] in
theorem update_appends {g : Storage A → Storage A} (hg : ∀ s, (g s).hashed = s.hashed) :
    Appends (·.hashed) (update g : AspM A Unit) :=
  .of_frame (.update hg)

omit [DecidableEq A] in
theorem orFail_frame {α : Type} (r : Except Error α) :
    Frame (·.hashed) (orFail r : AspM A α) := by
  cases r with
  | error e => exact .fail e
  | ok a => exact .pure a

theorem requireAuth_frame (a : A) : Frame (·.hashed) (requireAuth auth a) :=
  .ite (.pure ()) .trap

omit [DecidableEq A] in
theorem insertRound_appends {len : Nat} {addedOne : Bool} {path : List U256}
    {keyBits : List Bool} {i : Nat} {sibling : U256} {acc : Build} :
    Appends (·.hashed) (insertRound p len addedOne path keyBits i sibling acc : AspM A Build) := by
  unfold insertRound
  dsimp only
  -- every branch is a chain of lookups, hashes and writes
  repeat' first
    | exact hashInternal_appends _ _
    | exact update_appends fun _ => rfl
    | exact .of_frame (.okOr _ _)
    | exact .of_frame (.pure _)
    | apply Appends.ite
    | refine Appends.bind ?_ fun _ => ?_

omit [DecidableEq A] in
theorem insertLoop_appends {len : Nat} {addedOne : Bool} {path : List U256}
    {keyBits : List Bool} : ∀ {siblings : List U256} {i : Nat} {acc : Build},
      Appends (·.hashed) (insertLoop p len addedOne path keyBits i siblings acc : AspM A Build)
  | [], _, _ => .of_frame (.pure _)
  | _ :: _, _, _ => .bind insertLoop_appends fun _ => insertRound_appends

omit [DecidableEq A] in
theorem insertSiblings_appends {keyBits : List Bool} {r : FindResult} :
    Appends (·.hashed) (insertSiblings p keyBits r : AspM A (List U256 × U256)) :=
  .ite (.of_frame (.pure _)) (.bind (hashLeaf_appends _ _) fun _ => .of_frame (.pure _))

theorem insertLeaf_appends : Appends (·.hashed) (insertLeaf p auth key value) :=
  Appends.bind (.of_frame .read) fun _ => .bind (.of_frame (.okOr _ _)) fun _ =>
    .bind (.of_frame (requireAuth_frame _)) fun _ => .bind (.of_frame (orFail_frame _)) fun _ =>
    .bind (.of_frame (.rejectIf _ _)) fun _ => .bind insertSiblings_appends fun _ =>
    .bind (hashLeaf_appends _ _) fun _ => .bind (update_appends fun _ => rfl) fun _ =>
    .bind insertLoop_appends fun _ => .bind (update_appends fun _ => rfl) fun _ =>
    update_appends fun _ => rfl

omit [DecidableEq A] in
theorem deleteRound_appends {keyBits : List Bool} {level : Nat} {sibling : U256} {acc : Build} :
    Appends (·.hashed) (deleteRound p keyBits level sibling acc : AspM A Build) := by
  unfold deleteRound
  dsimp only
  refine .bind (.of_frame (.okOr _ _)) fun _ => .ite
    (.bind (hashInternal_appends _ _) fun _ => ?_) (.bind (hashInternal_appends _ _) fun _ => ?_)
  all_goals
    refine .bind (update_appends fun _ => rfl) fun _ => .ite ?_ (.of_frame (.pure _))
    exact .bind (hashInternal_appends _ _) fun _ => .bind (update_appends fun _ => rfl) fun _ =>
      .of_frame (.pure _)

omit [DecidableEq A] in
theorem deleteLoop_appends {keyBits : List Bool} :
    ∀ {siblings : List U256} {level : Nat} {acc : Build},
      Appends (·.hashed) (deleteLoop p keyBits level siblings acc : AspM A Build)
  | [], _, _ => .of_frame (.pure _)
  | _ :: _, _, _ => .bind deleteLoop_appends fun _ => deleteRound_appends

omit [DecidableEq A] in
theorem promote_frame (siblings : List U256) :
    Frame (·.hashed) (promote siblings : AspM A (U256 × List U256)) := by
  unfold promote
  split
  · exact .pure _
  · refine .bind .read fun s => ?_
    split
    · exact .ite (.pure _) (.fail _)
    · exact .pure _
    · exact .fail _

theorem deleteLeaf_appends : Appends (·.hashed) (deleteLeaf p auth key) :=
  Appends.bind (.of_frame .read) fun _ => .bind (.of_frame (.okOr _ _)) fun _ =>
    .bind (.of_frame (requireAuth_frame _)) fun _ => .bind (.of_frame (.okOr _ _)) fun _ =>
    .bind (.of_frame (orFail_frame _)) fun _ => .bind (.of_frame (.rejectIf _ _)) fun _ =>
    .bind (hashLeaf_appends _ _) fun _ => .bind (update_appends fun _ => rfl) fun _ =>
    .bind (.of_frame (promote_frame _)) fun _ => .bind deleteLoop_appends fun _ =>
    .bind (update_appends fun _ => rfl) fun _ => update_appends fun _ => rfl

theorem updateAdmin_frame (newAdmin : A) : Frame (·.hashed) (updateAdmin auth newAdmin) :=
  .bind .read fun _ => .bind (.orTrap _) fun _ => .bind (requireAuth_frame _) fun _ =>
    .update fun _ => rfl

/-- What was hashed before a call is hashed after it. -/
theorem step_hashed (s : Storage A) (c : List A × Call A) : s.hashed <+: (step p s c).hashed := by
  obtain ⟨auth, call⟩ := c
  cases call with
  | insertLeaf key value => exact (Appends.revert insertLeaf_appends).pre s
  | deleteLeaf key => exact (Appends.revert deleteLeaf_appends).pre s
  | updateAdmin newAdmin => exact (Appends.revert (.of_frame (updateAdmin_frame newAdmin))).pre s

theorem run_hashed (s : Storage A) {calls calls' : List (List A × Call A)}
    (h : calls <+: calls') :
    (Run.run (step p) s calls).hashed ⊆ (Run.run (step p) s calls').hashed := by
  obtain ⟨rest, rfl⟩ := h
  rw [Run.run_append]
  exact @Run.invariant _ _ (step p) (fun s' => (Run.run (step p) s calls).hashed ⊆ s'.hashed)
    _ rest (List.Subset.refl _) fun s' c h => List.Subset.trans h (step_hashed s' c).subset

/-! ## One call -/

/-- The call ends as it does on the map, and keeps the map if it succeeds. -/
def Refines (p : Poseidon2) (s : Storage A) (c : List A × Call A) :
    Except (Fail Error) (Blocklist A) → Prop
  | .ok b' => ∃ s', callBody p c.1 c.2 s = (.ok (), s') ∧
      ((digests p).CollisionFree s'.hashed → Represents p s' b')
  | .error e => (callBody p c.1 c.2 s).1 = .error e

omit [DecidableEq A] in
/-- A key is in the map if the tree has it. -/
theorem isSome_entries (hc : Canon keying 0 t)
    (hget : ∀ k, SparseTree.get keying k 0 t = b.entries k) (key : U256) :
    (b.entries key).isSome = true ↔ HasKey key t := by
  rw [← hget, Option.isSome_iff_ne_none, ne_eq, get_eq_none hc, not_not]

/-- An insertion ends as on the map: it is refused to a stranger, refuses a key that is
there, panics on a number that is no field element, and otherwise adds the key. -/
theorem insertLeaf_refines (hf : (digests p).CollisionFree s.hashed) (h : Represents p s b) :
    Refines p s (auth, .insertLeaf key value) (b.call auth (.insertLeaf key value)) := by
  obtain ⟨hadmin, t, ht, hget⟩ := h
  rw [Blocklist.call]
  by_cases hauth : b.admin ∈ auth
  swap
  · rw [if_pos hauth]
    exact congrArg Prod.fst (insertLeaf_unauthorized hadmin hauth)
  rw [if_neg (not_not.mpr hauth)]
  by_cases hkey : HasKey key t
  · rw [if_pos ((isSome_entries ht.canon hget key).mpr hkey)]
    exact congrArg Prod.fst (insertLeaf_exists hf ht hadmin hauth hkey)
  rw [if_neg (mt (isSome_entries ht.canon hget key).mp hkey)]
  by_cases hin : key < bn256Modulus ∧ value < bn256Modulus
  · rw [if_pos hin]
    obtain ⟨s', hrun, hadmin', -, hpost⟩ := insertLeaf_run hf ht hadmin hauth hkey hin.1 hin.2
    refine ⟨s', hrun, fun hf' => ⟨hadmin'.trans hadmin, _, hpost hf', fun k => ?_⟩⟩
    rw [congrFun (get_insert ht.canon) k, funext hget]
  · rw [if_neg hin]
    exact insertLeaf_outside hf ht hadmin hauth hkey hin

/-- A deletion ends as on the map: refused to a stranger or for a key that is not there,
and otherwise the key is gone. -/
theorem deleteLeaf_refines (hf : (digests p).CollisionFree s.hashed) (h : Represents p s b) :
    Refines p s (auth, .deleteLeaf key) (b.call auth (.deleteLeaf key)) := by
  obtain ⟨hadmin, t, ht, hget⟩ := h
  rw [Blocklist.call]
  by_cases hauth : b.admin ∈ auth
  swap
  · rw [if_pos hauth]
    exact congrArg Prod.fst (deleteLeaf_unauthorized hadmin hauth)
  rw [if_neg (not_not.mpr hauth)]
  by_cases hkey : HasKey key t
  · rw [if_pos ((isSome_entries ht.canon hget key).mpr hkey)]
    obtain ⟨v, hmem⟩ := hkey
    obtain ⟨s', hrun, hadmin', -, hpost⟩ := deleteLeaf_run hf ht hadmin hauth hmem
    refine ⟨s', hrun, fun hf' => ⟨hadmin'.trans hadmin, _, hpost hf', fun k => ?_⟩⟩
    rw [congrFun (get_erase ht.canon) k, funext hget]
  · rw [if_neg (mt (isSome_entries ht.canon hget key).mp hkey)]
    exact congrArg Prod.fst (deleteLeaf_absent hf ht hadmin hauth hkey)

theorem updateAdmin_refines (newAdmin : A) (h : Represents p s b) :
    Refines p s (auth, .updateAdmin newAdmin) (b.call auth (.updateAdmin newAdmin)) := by
  obtain ⟨hadmin, t, ht, hget⟩ := h
  rw [Blocklist.call]
  by_cases hauth : b.admin ∈ auth
  · rw [if_neg (not_not.mpr hauth)]
    refine ⟨{ s with admin := some newAdmin }, ?_, fun _ =>
      ⟨rfl, t, ⟨ht.canon, ht.inField, ht.known, ht.stored, ht.root⟩, hget⟩⟩
    show updateAdmin auth newAdmin s = _
    rw [updateAdmin, read_bind, hadmin, orTrap_some_bind, requireAuth_bind hauth]
    rfl
  · rw [if_pos hauth]
    show (updateAdmin auth newAdmin s).1 = _
    rw [updateAdmin, read_bind, hadmin, orTrap_some_bind, requireAuth_bind_trap hauth]

theorem call_refines (hf : (digests p).CollisionFree s.hashed) (h : Represents p s b)
    (c : List A × Call A) : Refines p s c (b.call c.1 c.2) := by
  obtain ⟨auth, call⟩ := c
  cases call with
  | insertLeaf key value => exact insertLeaf_refines hf h
  | deleteLeaf key => exact deleteLeaf_refines hf h
  | updateAdmin newAdmin => exact updateAdmin_refines newAdmin h

/-- A call does to the storage what it does to the map, and answers alike. -/
theorem step_refines {c : List A × Call A} (hf : (digests p).CollisionFree (step p s c).hashed)
    (h : Represents p s b) :
    Represents p (step p s c) (b.step c) ∧ answer p s c = b.answer c := by
  have hcall := call_refines (hf.mono (step_hashed s c).subset) h c
  unfold Blocklist.step Blocklist.answer answer
  cases hb : b.call c.1 c.2 with
  | ok b' =>
      rw [hb] at hcall
      obtain ⟨s', hrun, hpost⟩ := hcall
      have hs : step p s c = s' := by rw [step, revert_of_ok hrun]
      rw [hs] at hf ⊢
      rw [hrun]
      exact ⟨hpost hf, rfl⟩
  | error e =>
      rw [hb] at hcall
      have hfail : (callBody p c.1 c.2 s).1 = .error e := hcall
      have hs : step p s c = s := by rw [step, revert_of_error (Prod.ext hfail rfl)]
      rw [hs, hfail]
      exact ⟨h, rfl⟩

/-! ## Runs -/

/-- The calls of a run. -/
abbrev run (p : Poseidon2) (admin : A) (calls : List (List A × Call A)) : Storage A :=
  Run.run (step p) (constructed admin) calls

/-- The same calls on the map. -/
abbrev Blocklist.run (admin : A) (calls : List (List A × Call A)) : Blocklist A :=
  Run.run Blocklist.step (Blocklist.new admin) calls

omit [DecidableEq A] in
theorem represents_constructed (admin : A) :
    Represents p (constructed admin) (Blocklist.new admin) :=
  ⟨rfl, SparseTree.empty, ⟨trivial, fun _ _ h => h.elim, trivial, trivial, rfl⟩, fun _ => rfl⟩

/-- Every prefix of a run keeps the map. -/
theorem represents_earlier {admin : A} {calls : List (List A × Call A)}
    (hf : (digests p).CollisionFree (run p admin calls).hashed) :
    ∀ l, l <+: calls → Represents p (run p admin l) (Blocklist.run admin l) := by
  intro l
  induction l using List.reverseRecOn with
  | nil => exact fun _ => represents_constructed admin
  | append_singleton l c ih =>
      intro hl
      have hstep : (digests p).CollisionFree (run p admin (l ++ [c])).hashed :=
        hf.mono (run_hashed _ hl)
      rw [run, Run.run_snoc] at hstep ⊢
      rw [Blocklist.run, Run.run_snoc]
      exact (step_refines hstep (ih ((List.prefix_append l [c]).trans hl))).1

/-- The storage keeps the map that the calls make, if nothing that they hashed collides. -/
theorem represents_run {admin : A} {calls : List (List A × Call A)}
    (hf : (digests p).CollisionFree (run p admin calls).hashed) :
    Represents p (run p admin calls) (Blocklist.run admin calls) :=
  represents_earlier hf calls (List.prefix_refl _)

/-- The answers along a run are those of the map. -/
theorem history_prefix {admin : A} {calls : List (List A × Call A)}
    (hf : (digests p).CollisionFree (run p admin calls).hashed) :
    ∀ l, l <+: calls → Run.history (step p) (answer p) (constructed admin) l
      = Run.history Blocklist.step Blocklist.answer (Blocklist.new admin) l := by
  intro l
  induction l using List.reverseRecOn with
  | nil => exact fun _ => rfl
  | append_singleton l c ih =>
      intro hl
      have hl' : l <+: calls := (List.prefix_append l [c]).trans hl
      have hstep : (digests p).CollisionFree (run p admin (l ++ [c])).hashed :=
        hf.mono (run_hashed _ hl)
      rw [run, Run.run_snoc] at hstep
      rw [Run.history_snoc, Run.history_snoc, ih hl',
        (step_refines hstep (represents_earlier hf l hl')).2]

/-- From construction on, any calls do to the storage what they do to the
map and end the same way, if nothing that was hashed collides.

By induction over the calls, with `Represents` between the storage and the
map's canonical tree (`represents_run`). -/
theorem run_refines (p : Poseidon2) (admin : A) (calls : List (List A × Call A))
    (hf : (digests p).CollisionFree (run p admin calls).hashed) :
    Represents p (run p admin calls) (Blocklist.run admin calls) ∧
      Run.history (step p) (answer p) (constructed admin) calls
        = Run.history Blocklist.step Blocklist.answer (Blocklist.new admin) calls :=
  ⟨represents_run hf, history_prefix hf calls (List.prefix_refl _)⟩

/-- Two keys that part at the second bit; then the first one goes. -/
def smallCalls : List (List Nat × Call Nat) :=
  [([1], .insertLeaf (U256.fromParts 0 0 0 1) (U256.fromParts 0 0 0 10)),
    ([1], .insertLeaf (U256.fromParts 0 0 0 3) (U256.fromParts 0 0 0 20)),
    ([2], .deleteLeaf (U256.fromParts 0 0 0 3)),
    ([1], .deleteLeaf (U256.fromParts 0 0 0 1))]

theorem smallCalls_collisionFree :
    (digests smallHash).CollisionFree (run smallHash 1 smallCalls).hashed where
  inj := by decide +kernel
  nonzero := by decide +kernel

theorem run_refines_small :
    Represents smallHash (run smallHash 1 smallCalls) (Blocklist.run 1 smallCalls) ∧
      Run.history (step smallHash) (answer smallHash) (constructed 1) smallCalls
        = Run.history Blocklist.step Blocklist.answer (Blocklist.new 1) smallCalls :=
  run_refines smallHash 1 smallCalls smallCalls_collisionFree

/-! ## Roots -/

omit [DecidableEq A] in
theorem Holds.getD_root (h : Holds p s t) : s.root.getD 0 = (digests p).digest t := by
  rw [h.root, Option.getD_some]

/-- Two runs end with the same root if and only if they end with the same
map, in whatever order their calls came.

A root is the digest of a canonical tree, and where nothing collides a digest
has one tree (`digest_inj`); a canonical tree is determined by its map. -/
theorem root_eq_iff (p : Poseidon2) (admin admin' : A) (calls calls' : List (List A × Call A))
    (hf : (digests p).CollisionFree
      ((run p admin calls).hashed ++ (run p admin' calls').hashed)) :
    (run p admin calls).root = (run p admin' calls').root ↔
      (Blocklist.run admin calls).entries = (Blocklist.run admin' calls').entries := by
  obtain ⟨-, t, ht, hget⟩ := represents_run (hf.mono (List.subset_append_left _ _))
  obtain ⟨-, t', ht', hget'⟩ := represents_run (hf.mono (List.subset_append_right _ _))
  rw [ht.root, ht'.root, Option.some.injEq]
  constructor
  · intro hroot
    obtain rfl := digest_inj hf (ht.known.mono (List.subset_append_left _ _))
      (ht'.known.mono (List.subset_append_right _ _)) hroot
    funext k
    rw [← hget, ← hget']
  · intro hentries
    have heq : t = t' := ht.canon.eq_of_get ht'.canon fun k => by rw [hget, hget', hentries]
    rw [heq]

/-- The two keys in the other order. -/
theorem root_eq_iff_small :
    (run smallHash 1 (smallCalls.take 2)).root
        = (run smallHash 1 (smallCalls.take 2).reverse).root ↔
      (Blocklist.run 1 (smallCalls.take 2)).entries
        = (Blocklist.run 1 (smallCalls.take 2).reverse).entries :=
  root_eq_iff smallHash 1 1 _ _ ⟨by decide +kernel, by decide +kernel⟩

end Asp

end PrivacyWallet
