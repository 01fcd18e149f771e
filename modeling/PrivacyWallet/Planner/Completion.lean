import PrivacyWallet.Planner.Chains
import PrivacyWallet.Planner.Session

/-!
# Sessions run to their end

A merged note is found by its amount alone, so another note of that amount
would end a session half way. It cannot exist: in its place the plan would
have used that note and fewer others (`Ready.merge`). So a session that was
set up finds the inputs of every step, and a ledger of unspent notes accepts
its transactions one after the other (`session_completes`).

`Ready` is what holds between two steps: the session has the wallet `W` and the
merged note, the notes still to come are in the wallet, and no fewer notes of
`W` would do in the place of the merged one and those to come. The constructor
of a session makes it true of the plan's choice, which has as few notes as
possible (`PickedNotes.ready`).

- **resolving** (`Ready.resolve`): both inputs of the next step are in the
  wallet, and nothing else there has the amount that is looked for;
- **merging** (`Ready.merge`): the new note is again the only one of its amount,
  since another one would shorten the choice;
- **the ledger** (`apply_eq`): it accepts a transaction that spends notes it has
  and balances, and has the outputs in their place;
- **the end** (`completes_final`, `completes_of_ready`): by induction on the
  steps that are left, the last of which pays.
-/

namespace PrivacyWallet

namespace Planner

open Checks Selection

variable {F K E : Type} [DecidableEq F]

/-! ## The ledger -/

/-- The notes with the commitments. -/
def inputsOf (notes : List (SpendableNote F)) (commitments : List F) :
    List (SpendableNote F) :=
  notes.filter fun note => decide (note.commitment ∈ commitments)

/-- What a ledger of unspent notes does with a transaction: the inputs are
different notes of the ledger, they pay for the outputs and for what leaves,
and they are gone afterwards. -/
def Transact.apply (notes : List (SpendableNote F)) (tx : Transact F K E) (outs : F × F) :
    Option (List (SpendableNote F)) :=
  if tx.inputCommitments.Nodup ∧
      (∀ c ∈ tx.inputCommitments, c ∈ notes.map SpendableNote.commitment) ∧
      (worth (inputsOf notes tx.inputCommitments) : Int) + tx.extAmount.val
        = tx.outputAmounts.1.val + tx.outputAmounts.2.val then
    some (notes.filter (fun note => decide (note.commitment ∉ tx.inputCommitments))
      ++ [⟨outs.1, tx.outputAmounts.1⟩, ⟨outs.2, tx.outputAmounts.2⟩])
  else none

/-- One transaction after the other. -/
def applyAll (notes : List (SpendableNote F)) :
    List (Transact F K E × F × F) → Option (List (SpendableNote F))
  | [] => some notes
  | (tx, outs) :: later => (tx.apply notes outs).bind fun notes => applyAll notes later

variable {W ledger spent : List (SpendableNote F)} {n m : SpendableNote F}

omit [DecidableEq F] in
/-- A commitment tells a note. -/
theorem eq_of_commitment (h : (W.map SpendableNote.commitment).Nodup) (hn : n ∈ W) (hm : m ∈ W)
    (heq : n.commitment = m.commitment) : n = m :=
  List.inj_on_of_nodup_map h hn hm heq

theorem inputsOf_perm (h : (ledger.map SpendableNote.commitment).Nodup) (hspent : spent.Nodup)
    (hsub : ∀ n ∈ spent, n ∈ ledger) :
    (inputsOf ledger (spent.map SpendableNote.commitment)).Perm spent := by
  refine (List.perm_ext_iff_of_nodup (h.of_map.filter _) hspent).mpr fun n => ?_
  rw [List.mem_filter, decide_eq_true_iff, List.mem_map]
  constructor
  · rintro ⟨hn, m, hm, heq⟩
    rwa [eq_of_commitment h hn (hsub m hm) heq.symm]
  · exact fun hn => ⟨hsub n hn, n, hn, rfl⟩

omit [DecidableEq F] in
theorem nodup_commitments (h : (ledger.map SpendableNote.commitment).Nodup)
    (hspent : spent.Nodup) (hsub : ∀ n ∈ spent, n ∈ ledger) :
    (spent.map SpendableNote.commitment).Nodup :=
  List.Nodup.map_on (fun _ hn _ hm heq => eq_of_commitment h (hsub _ hn) (hsub _ hm) heq) hspent

/-- The ledger after a transaction. -/
def ledgerAfter (ledger spent : List (SpendableNote F)) (outs : F × F)
    (amounts : NoteAmount × NoteAmount) : List (SpendableNote F) :=
  ledger.filter (fun note => decide (note.commitment ∉ spent.map SpendableNote.commitment))
    ++ [⟨outs.1, amounts.1⟩, ⟨outs.2, amounts.2⟩]

/-- The ledger accepts a transaction that spends notes it has and balances. -/
theorem apply_eq {tx : Transact F K E} {outs : F × F}
    (h : (ledger.map SpendableNote.commitment).Nodup) (hspent : spent.Nodup)
    (hsub : ∀ n ∈ spent, n ∈ ledger)
    (htx : tx.inputCommitments = spent.map SpendableNote.commitment)
    (hbal : (worth spent : Int) + tx.extAmount.val
      = tx.outputAmounts.1.val + tx.outputAmounts.2.val) :
    tx.apply ledger outs = some (ledgerAfter ledger spent outs tx.outputAmounts) := by
  rw [Transact.apply, htx]
  refine if_pos ⟨nodup_commitments h hspent hsub, fun c hc => ?_, ?_⟩
  · obtain ⟨n, hn, rfl⟩ := List.mem_map.mp hc
    exact List.mem_map_of_mem (hsub n hn)
  · rw [worth, weight_perm _ (inputsOf_perm h hspent hsub)]
    exact hbal

theorem ledgerAfter_nodup {outs : F × F} {amounts : NoteAmount × NoteAmount} {fresh : List F}
    (h : (ledger.map SpendableNote.commitment ++ outs.1 :: outs.2 :: fresh).Nodup) :
    ((ledgerAfter ledger spent outs amounts).map SpendableNote.commitment ++ fresh).Nodup := by
  have hsub : (ledgerAfter ledger spent outs amounts).map SpendableNote.commitment ++ fresh
      = (ledger.filter (fun note =>
          decide (note.commitment ∉ spent.map SpendableNote.commitment))).map
          SpendableNote.commitment ++ outs.1 :: outs.2 :: fresh := by
    simp [ledgerAfter]
  rw [hsub]
  exact h.sublist (((List.filter_sublist).map _).append_right _)

/-! ## Removing notes -/

theorem mem_removeSpent : ∀ {spent W : List (SpendableNote F)},
    n ∈ removeSpent W spent ↔ n ∈ W ∧ ∀ m ∈ spent, n.commitment ≠ m.commitment
  | [], W => by simp [removeSpent]
  | m :: spent, W => by
      rw [removeSpent, List.foldl_cons, ← removeSpent, mem_removeSpent, List.mem_filter,
        decide_eq_true_iff, List.forall_mem_cons, and_assoc]

/-- Where commitments differ, exactly the notes given are removed. -/
theorem mem_removeSpent_of_nodup (h : (W.map SpendableNote.commitment).Nodup)
    (hsub : ∀ n ∈ spent, n ∈ W) : n ∈ removeSpent W spent ↔ n ∈ W ∧ n ∉ spent := by
  rw [mem_removeSpent]
  refine and_congr_right fun hn => ⟨fun hne hmem => hne n hmem rfl, fun hnot m hm heq => ?_⟩
  exact hnot (eq_of_commitment h hn (hsub m hm) heq ▸ hm)

theorem removeSpent_sublist : ∀ {spent W : List (SpendableNote F)},
    (removeSpent W spent).Sublist W
  | [], W => List.Sublist.refl W
  | m :: spent, W => by
      rw [removeSpent, List.foldl_cons, ← removeSpent]
      exact removeSpent_sublist.trans List.filter_sublist

/-! ## Where a session stands -/

/-- The session holds `W` and has gathered `m`, which the next step knows as
`prev`; the notes `rest` are still to come. No choice of notes of `W` with
fewer notes reaches the goal. -/
structure Ready (goal : Nat) (W : List (SpendableNote F)) (prev : StepNote F)
    (m : SpendableNote F) (rest : List (SpendableNote F)) : Prop where
  nodup : (W.map SpendableNote.commitment).Nodup
  pickedNodup : (m :: rest).Nodup
  picked : ∀ n ∈ m :: rest, n ∈ W
  prev : prev = .fromSpendable m ∨
    (prev = .fromAmount m.amount ∧ ∀ n ∈ W, n.amount = m.amount → n = m)
  reaches : goal ≤ worth (m :: rest)
  fewest : 2 ≤ rest.length → ∀ other : List (SpendableNote F), other.Nodup →
    (∀ n ∈ other, n ∈ W) → goal ≤ worth other → rest.length + 1 ≤ other.length
  descending : 2 ≤ rest.length → rest.Pairwise fun a b => b.amount.val ≤ a.amount.val

variable {goal : Nat} {prev : StepNote F} {next : SpendableNote F}
  {rest : List (SpendableNote F)}

omit [DecidableEq F] in
@[simp] theorem worth_cons (n : SpendableNote F) (l : List (SpendableNote F)) :
    worth (n :: l) = n.amount.val + worth l := weight_cons _ n l

theorem resolve_known (h : (W.map SpendableNote.commitment).Nodup) (hm : m ∈ W)
    (sibling : Option (StepNote F)) :
    resolveInputNote (.fromSpendable m) W sibling = .ok m := by
  have hfind : W.find? (fun note => decide (note.commitment = m.commitment)) = some m := by
    have hsome : (W.find? fun note => decide (note.commitment = m.commitment)).isSome = true :=
      List.find?_isSome.mpr ⟨m, hm, decide_eq_true rfl⟩
    obtain ⟨n, hn⟩ := Option.isSome_iff_exists.mp hsome
    have heq : n.commitment = m.commitment := by simpa using List.find?_some hn
    rw [hn, eq_of_commitment h (List.mem_of_find?_eq_some hn) hm heq]
  rw [resolveInputNote]
  simp only [StepNote.fromSpendable, hfind]
  exact if_neg (not_not.mpr rfl)

theorem resolve_amount (h : (W.map SpendableNote.commitment).Nodup) (hm : m ∈ W)
    (honly : ∀ n ∈ W, n.amount = m.amount → n = m) {sibling : StepNote F}
    (hsibling : sibling.commitment ≠ some m.commitment) :
    resolveInputNote (.fromAmount m.amount) W (some sibling) = .ok m := by
  have hfound : ((W.filter fun note =>
      decide (note.amount = (StepNote.fromAmount m.amount : StepNote F).amount)).filter
      fun note => decide (sibling.commitment ≠ some note.commitment)) = [m] := by
    refine List.perm_singleton.mp ((List.perm_ext_iff_of_nodup ((h.of_map.filter _).filter _)
      (List.nodup_singleton m)).mpr fun n => ?_)
    rw [List.mem_filter, List.mem_filter, decide_eq_true_iff, decide_eq_true_iff,
      List.mem_singleton]
    constructor
    · exact fun hn => honly n hn.1.1 hn.1.2
    · rintro rfl
      exact ⟨⟨hm, rfl⟩, hsibling⟩
  unfold resolveInputNote
  dsimp only [StepNote.fromAmount, Option.bind_some] at hfound ⊢
  rw [hfound]

/-- The two inputs of the next step are in the wallet, and nothing can be
taken for them. -/
theorem Ready.resolve (h : Ready goal W prev m (next :: rest)) (action : StepAction) :
    (PlannedStep.mk (prev, some (.fromSpendable next)) action).resolve W = .ok [m, next] := by
  have hm := h.picked m (List.mem_cons_self ..)
  have hnext := h.picked next (List.mem_cons_of_mem _ (List.mem_cons_self ..))
  have hne : m ≠ next := fun heq =>
    (List.nodup_cons.mp h.pickedNodup).1 (heq ▸ List.mem_cons_self ..)
  have hfirst : resolveInputNote prev W (some (.fromSpendable next)) = .ok m := by
    rcases h.prev with rfl | ⟨rfl, honly⟩
    · exact resolve_known h.nodup hm _
    · refine resolve_amount h.nodup hm honly fun heq => hne ?_
      exact (eq_of_commitment h.nodup hnext hm (Option.some.inj heq)).symm
  have hsecond := resolve_known h.nodup hnext (some prev)
  rw [PlannedStep.resolve]
  dsimp only
  rw [hfirst]
  show (resolveInputNote (.fromSpendable next) W (some prev) >>= fun second => _) = _
  rw [hsecond]
  rfl

/-- What the wallet keeps of its notes when the two are merged. -/
theorem Ready.mem_removeSpent (h : Ready goal W prev m (next :: rest)) (n : SpendableNote F) :
    n ∈ removeSpent W [m, next] ↔ n ∈ W ∧ n ≠ m ∧ n ≠ next := by
  have hpair : ∀ n ∈ [m, next], n ∈ W := fun n hn =>
    h.picked n (List.Sublist.subset (by simp) hn)
  rw [mem_removeSpent_of_nodup h.nodup hpair]
  simp

/-- No note of the wallet has the merged amount: it could take the place of the
two, so that fewer notes would have reached the goal. If it is among those still
to come, as they are in descending order, these reach the goal without the first
one. -/
theorem Ready.amount_ne (h : Ready goal W prev m (next :: rest)) (hne : rest ≠ [])
    {n : SpendableNote F} (hn : n ∈ W) : n.amount.val ≠ m.amount.val + next.amount.val := by
  intro hval
  obtain ⟨-, hnodup⟩ := List.nodup_cons.mp h.pickedNodup
  obtain ⟨-, hrest⟩ := List.nodup_cons.mp hnodup
  have hlen : 2 ≤ (next :: rest).length := by
    rw [List.length_cons]
    have := List.length_pos_iff.mpr hne
    omega
  have hreach := h.reaches
  rw [worth_cons, worth_cons] at hreach
  by_cases hin : n ∈ rest
  · have hle := List.rel_of_pairwise_cons (h.descending hlen) hin
    have hshort := h.fewest hlen (next :: rest) hnodup
      (fun n hn => h.picked n (List.mem_cons_of_mem _ hn)) (by rw [worth_cons]; omega)
    rw [List.length_cons] at hshort
    omega
  · have hrestW : ∀ n ∈ rest, n ∈ W := fun n hn =>
      h.picked n (List.mem_cons_of_mem _ (List.mem_cons_of_mem _ hn))
    have hshort := h.fewest hlen (n :: rest) (List.nodup_cons.mpr ⟨hin, hrest⟩)
      (List.forall_mem_cons.mpr ⟨hn, hrestW⟩) (by rw [worth_cons]; omega)
    rw [List.length_cons, List.length_cons] at hshort
    omega

/-- The rest is of fewest notes again: a choice of the new wallet becomes one of
the old when the two merged notes are put in the place of the new one. -/
theorem Ready.fewest_merged {out : F} {sum : NoteAmount}
    (h : Ready goal W prev m (next :: rest)) (hne : rest ≠ [])
    (hsum : sum.val = m.amount.val + next.amount.val) {other : List (SpendableNote F)}
    (hother : other.Nodup) (hsub : ∀ n ∈ other, n ∈ removeSpent W [m, next] ++ [⟨out, sum⟩])
    (hgoal : goal ≤ worth other) : rest.length + 1 ≤ other.length := by
  have hlen : 2 ≤ (next :: rest).length := by
    rw [List.length_cons]
    have := List.length_pos_iff.mpr hne
    omega
  have hfewest := h.fewest hlen
  rw [List.length_cons] at hfewest
  by_cases hin : (⟨out, sum⟩ : SpendableNote F) ∈ other
  · have hperm := List.perm_cons_erase hin
    have herase : ∀ n ∈ other.erase ⟨out, sum⟩, n ∈ W ∧ n ≠ m ∧ n ≠ next := by
      intro n hn
      obtain ⟨hne', hn⟩ := (hother.mem_erase_iff).mp hn
      rcases List.mem_append.mp (hsub n hn) with hn | hn
      · exact (h.mem_removeSpent n).mp hn
      · exact absurd (List.mem_singleton.mp hn) hne'
    have hworth : worth other = sum.val + worth (other.erase ⟨out, sum⟩) := by
      rw [worth, weight_perm _ hperm, weight_cons]
    have hmfresh : m ∉ next :: other.erase ⟨out, sum⟩ := by
      intro hm
      rcases List.mem_cons.mp hm with heq | hm
      · exact (List.nodup_cons.mp h.pickedNodup).1 (heq ▸ List.mem_cons_self ..)
      · exact (herase _ hm).2.1 rfl
    have hlonger := hfewest (m :: next :: other.erase ⟨out, sum⟩)
      (List.nodup_cons.mpr ⟨hmfresh, List.nodup_cons.mpr ⟨fun hn =>
        (herase _ hn).2.2 rfl, hother.erase _⟩⟩)
      (List.forall_mem_cons.mpr ⟨h.picked m (by simp), List.forall_mem_cons.mpr
        ⟨h.picked next (by simp), fun n hn => (herase n hn).1⟩⟩)
      (by rw [worth_cons, worth_cons]; omega)
    rw [hperm.length_eq]
    rw [List.length_cons, List.length_cons] at hlonger
    rw [List.length_cons]
    omega
  · have hlonger := hfewest other hother (fun n hn => ?_) hgoal
    · omega
    · rcases List.mem_append.mp (hsub n hn) with hn' | hn'
      · exact ((h.mem_removeSpent n).mp hn').1
      · exact absurd (List.mem_singleton.mp hn' ▸ hn) hin

/-- After a merge the session is ready for the next step: the new note is the
only one of its amount (`Ready.amount_ne`), and the rest is of fewest notes
again (`Ready.fewest_merged`). -/
theorem Ready.merge {out : F} {sum : NoteAmount} (h : Ready goal W prev m (next :: rest))
    (hne : rest ≠ []) (hsum : sum.val = m.amount.val + next.amount.val)
    (hout : out ∉ W.map SpendableNote.commitment) :
    Ready goal (removeSpent W [m, next] ++ [⟨out, sum⟩]) (.fromAmount sum) ⟨out, sum⟩ rest := by
  have hnew (n : SpendableNote F) (hn : n ∈ W) : n ≠ ⟨out, sum⟩ := fun heq =>
    hout (List.mem_map.mpr ⟨n, hn, congrArg SpendableNote.commitment heq⟩)
  obtain ⟨hmfresh, hnodup⟩ := List.nodup_cons.mp h.pickedNodup
  obtain ⟨hnfresh, hrest⟩ := List.nodup_cons.mp hnodup
  have hrestW : ∀ n ∈ rest, n ∈ W := fun n hn =>
    h.picked n (List.mem_cons_of_mem _ (List.mem_cons_of_mem _ hn))
  have hlen : 2 ≤ (next :: rest).length := by
    rw [List.length_cons]
    have := List.length_pos_iff.mpr hne
    omega
  have hreach := h.reaches
  rw [worth_cons, worth_cons] at hreach
  refine ⟨?_, ?_, ?_, Or.inr ⟨rfl, ?_⟩, ?_, fun _ _ hother hsub hgoal =>
    h.fewest_merged hne hsum hother hsub hgoal, fun _ => (h.descending hlen).of_cons⟩
  · rw [List.map_append, List.map_singleton]
    refine List.Nodup.append ((removeSpent_sublist.map _).nodup h.nodup)
      (List.nodup_singleton _) ?_
    rw [List.disjoint_singleton]
    exact fun hin => hout ((removeSpent_sublist.map _).subset hin)
  · exact List.nodup_cons.mpr ⟨fun hin => hnew _ (hrestW _ hin) rfl, hrest⟩
  · intro n hn
    rcases List.mem_cons.mp hn with rfl | hn
    · exact List.mem_append_right _ (List.mem_singleton_self _)
    · refine List.mem_append_left _ ((h.mem_removeSpent n).mpr ⟨hrestW n hn, ?_, ?_⟩)
      · rintro rfl
        exact hmfresh (List.mem_cons_of_mem _ hn)
      · rintro rfl
        exact hnfresh hn
  · intro n hn hamount
    rcases List.mem_append.mp hn with hn | hn
    · refine absurd ?_ (h.amount_ne hne ((h.mem_removeSpent n).mp hn).1)
      rw [hamount, hsum]
    · exact List.mem_singleton.mp hn
  · rw [worth_cons]
    show goal ≤ sum.val + _
    omega

/-! ## The last transaction -/

/-- The transaction brings the amount to the target and the change back. -/
def Pays (outputs : NoteAmount × Option NoteAmount) (tx : Transact F K E) :
    SpendTarget K E → Prop
  | .transfer recipientNote recipientEnc =>
      tx.extAmount = 0 ∧ tx.outputAmounts = (outputs.1, outputs.2.getD .zero) ∧
        tx.outRecipientNotePubkeys.1 = some recipientNote ∧
        tx.outRecipientEncryptionPubkeys.1 = some recipientEnc ∧
        (outputs.2.isSome = true → tx.outRecipientNotePubkeys.2 = none)
  | .withdraw recipient =>
      tx.extAmount.val = -(outputs.1.val : Int) ∧ tx.extRecipient = recipient ∧
        tx.outputAmounts = (outputs.2.getD .zero, .zero) ∧
        tx.outRecipientNotePubkeys = (none, none)

/-- A withdrawal must fit in the amount that leaves the pool. -/
def Withdrawable (amount : NoteAmount) : SpendTarget K E → Prop
  | .transfer _ _ => True
  | .withdraw _ => amount.val < 2 ^ 127

variable {outputs : NoteAmount × Option NoteAmount}

theorem ofInt?_of_bounds {v : Int} (hlo : -2 ^ 127 ≤ v) (hhi : v < 2 ^ 127) :
    ∃ a : I128, (Signed.ofInt? v : Option I128) = some a ∧ a.val = v := by
  cases hres : (Signed.ofInt? v : Option I128) with
  | some a => exact ⟨a, rfl, Signed.ofInt?_eq_some.mp hres⟩
  | none =>
      have hout := Signed.ofInt?_eq_none.mp hres
      norm_num at hout hlo hhi
      omega

omit [DecidableEq F] in
theorem withdrawnAmount_eq {amount : NoteAmount} (h : amount.val < 2 ^ 127) :
    ∃ ext : I128, withdrawnAmount (F := F) amount = .ok ext ∧ ext.val = -(amount.val : Int) := by
  have hcast : (amount.val : Int) < 2 ^ 127 := by exact_mod_cast h
  have hnonneg : (0 : Int) ≤ amount.val := Int.natCast_nonneg _
  obtain ⟨ext, hext, hval⟩ : ∃ ext, ExtAmount.tryFrom amount = some ext ∧ _ :=
    ofInt?_of_bounds (by omega) hcast
  obtain ⟨neg, hneg, hval'⟩ : ∃ neg, ExtAmount.checkedNeg ext = some neg ∧ _ :=
    ofInt?_of_bounds (by omega) (by omega)
  refine ⟨neg, ?_, hval'.trans (congrArg Neg.neg hval)⟩
  rw [withdrawnAmount, hext]
  exact orError_ok.mpr hneg

theorem getD_val (change : Option NoteAmount) :
    (change.getD .zero).val = change.elim 0 NoteAmount.val := by
  cases change <;> rfl

omit [DecidableEq F] in
theorem materialize_final {inputs : StepNote F × Option (StepNote F)} {poolAddress : String}
    {target : SpendTarget K E} (hext : Withdrawable outputs.1 target)
    (hworth : worth spent = (StepAction.final outputs).outputTotal) :
    ∃ tx, materializeStep ⟨inputs, .final outputs⟩ poolAddress target spent = .ok tx ∧
      tx.inputCommitments = spent.map SpendableNote.commitment ∧ Pays outputs tx target ∧
      (worth spent : Int) + tx.extAmount.val
        = tx.outputAmounts.1.val + tx.outputAmounts.2.val := by
  have hzero : ((NoteAmount.zero.val : Nat) : Int) = 0 := rfl
  have hchange := getD_val outputs.2
  have hsum : worth spent = outputs.1.val + outputs.2.elim 0 NoteAmount.val := hworth
  cases target with
  | transfer recipientNote recipientEnc =>
      refine ⟨_, rfl, rfl, ⟨rfl, rfl, rfl, rfl, fun h => if_pos h⟩, ?_⟩
      show (worth spent : Int) + 0 = outputs.1.val + (outputs.2.getD .zero).val
      omega
  | withdraw recipient =>
      obtain ⟨ext, hrun, hval⟩ := withdrawnAmount_eq (F := F) hext
      refine ⟨⟨spent.map SpendableNote.commitment, (outputs.2.getD .zero, .zero), ext, recipient,
        (none, none), (none, none)⟩, ?_, rfl, ⟨hval, rfl, rfl, rfl⟩, ?_⟩
      · show (withdrawnAmount outputs.1 >>= fun extAmount => _) = _
        rw [hrun]
        rfl
      · show (worth spent : Int) + ext.val = (outputs.2.getD .zero).val + NoteAmount.zero.val
        omega

/-! ## Whole sessions -/

/-- How a session goes on from `s` with the transactions `txs`: the ledger
accepts them in order, all but the last one keep everything with the owner,
the last one pays, and the wallet is left without the notes `gone`. -/
structure Completes (outputs : NoteAmount × Option NoteAmount)
    (ledger gone : List (SpendableNote F)) (outs : List (F × F)) (s : SpendSession F K E)
    (txs : List (Transact F K E)) (s' : SpendSession F K E) : Prop where
  run : s.execute outs = .ok (txs, s')
  length : txs.length = outs.length
  done : s'.isDone = true
  wallet : ∀ n, n ∈ s'.wallet ↔ n ∈ s.wallet ∧ n ∉ gone
  accepted : (applyAll ledger (txs.zip outs)).isSome = true
  merges : ∀ tx ∈ txs.dropLast, tx.extAmount = 0 ∧ tx.outRecipientNotePubkeys = (none, none)
  pays : ∃ tx, txs.getLast? = some tx ∧ Pays outputs tx s.target

variable {s s' : SpendSession F K E} {step : PlannedStep F} {tx : Transact F K E}
  {txs : List (Transact F K E)} {out : F × F} {outs : List (F × F)}

theorem step_eq (hstep : s.steps[s.stepIndex]? = some step)
    (hresolve : step.resolve s.wallet = .ok spent)
    (htx : materializeStep step s.poolAddress s.target spent = .ok tx) (out : F × F) :
    s.step = .ok (some tx) ∧ s.completeStep out = .ok (s.completed step spent out) := by
  constructor
  · rw [SpendSession.step, hstep]
    dsimp only
    rw [hresolve]
    show (materializeStep step s.poolAddress s.target spent >>= fun tx => _) = _
    rw [htx]
    rfl
  · rw [SpendSession.completeStep, hstep]
    dsimp only
    rw [hresolve]
    rfl

theorem execute_cons (hstep : s.steps[s.stepIndex]? = some step)
    (hresolve : step.resolve s.wallet = .ok spent)
    (htx : materializeStep step s.poolAddress s.target spent = .ok tx)
    (hlater : (s.completed step spent out).execute outs = .ok (txs, s')) :
    s.execute (out :: outs) = .ok (tx :: txs, s') := by
  obtain ⟨hnow, hnext⟩ := step_eq hstep hresolve htx out
  rw [SpendSession.execute, hnow]
  show (s.completeStep out >>= fun s => _) = _
  rw [hnext]
  show ((s.completed step spent out).execute outs >>= fun r => _) = _
  rw [hlater]
  rfl

omit [DecidableEq F] in
theorem getElem?_of_drop {l : List (PlannedStep F)} {i : Nat} {later : List (PlannedStep F)}
    (h : l.drop i = step :: later) : l[i]? = some step ∧ l.drop (i + 1) = later := by
  constructor
  · rw [← List.head?_drop, h]
    rfl
  · rw [← List.drop_drop, h]
    rfl

/-- The last step ends the session. -/
theorem completes_final {ledger : List (SpendableNote F)}
    {inputs : StepNote F × Option (StepNote F)}
    (hsteps : s.steps.drop s.stepIndex = [⟨inputs, .final outputs⟩])
    (hnodup : (s.wallet.map SpendableNote.commitment).Nodup) (hspent : spent.Nodup)
    (hsub : ∀ n ∈ spent, n ∈ s.wallet)
    (hledger : (ledger.map SpendableNote.commitment).Nodup)
    (hheld : ∀ n ∈ s.wallet, n ∈ ledger)
    (hresolve : (PlannedStep.mk inputs (.final outputs)).resolve s.wallet = .ok spent)
    (hext : Withdrawable outputs.1 s.target)
    (hworth : worth spent = (StepAction.final outputs).outputTotal) :
    ∃ txs s', Completes outputs ledger spent [out] s txs s' := by
  obtain ⟨hstep, hdrop⟩ := getElem?_of_drop hsteps
  obtain ⟨tx, htx, hinputs, hpays, hbal⟩ :=
    materialize_final hext hworth
  refine ⟨[tx], s.completed _ spent out, execute_cons hstep hresolve htx rfl, rfl, ?_,
    fun n => ?_, ?_, ?_, tx, rfl, hpays⟩
  · exact decide_eq_true (List.drop_eq_nil_iff.mp hdrop)
  · exact mem_removeSpent_of_nodup hnodup hsub
  · rw [List.zip_cons_cons, List.zip_nil_right, applyAll,
      apply_eq hledger hspent (fun n hn => hheld n (hsub n hn)) hinputs hbal]
    rfl
  · intro tx' htx'
    cases htx'

/-- A merge that the ledger accepts comes before what follows it. The session
and the ledger lose the same two notes and gain the same one, so what holds of
the rest from there holds of the whole from here; the payment is still the last
transaction. -/
theorem Completes.merge {ledger : List (SpendableNote F)}
    {inputs : StepNote F × Option (StepNote F)} {sum : NoteAmount}
    (hstep : s.steps[s.stepIndex]? = some ⟨inputs, .consolidate sum⟩)
    (hresolve : (PlannedStep.mk inputs (.consolidate sum)).resolve s.wallet = .ok [m, next])
    (hnodup : (s.wallet.map SpendableNote.commitment).Nodup)
    (hledger : (ledger.map SpendableNote.commitment).Nodup)
    (hheld : ∀ n ∈ s.wallet, n ∈ ledger) (hpair : [m, next].Nodup)
    (hpicked : ∀ n ∈ [m, next], n ∈ s.wallet)
    (hsum : sum.val = m.amount.val + next.amount.val)
    (hout : out.1 ∉ s.wallet.map SpendableNote.commitment)
    (h : Completes outputs (ledgerAfter ledger [m, next] out (sum, .zero)) (⟨out.1, sum⟩ :: rest)
      outs (s.completed ⟨inputs, .consolidate sum⟩ [m, next] out) txs s') :
    ∃ tx, Completes outputs ledger (m :: next :: rest) (out :: outs) s (tx :: txs) s' := by
  obtain ⟨tx, htx, hinputs, hamounts, hext, hkeys⟩ : ∃ tx : Transact F K E,
      materializeStep ⟨inputs, .consolidate sum⟩ s.poolAddress s.target [m, next] = .ok tx ∧
        tx.inputCommitments = [m, next].map SpendableNote.commitment ∧
        tx.outputAmounts = (sum, .zero) ∧ tx.extAmount = 0 ∧
        tx.outRecipientNotePubkeys = (none, none) := ⟨_, rfl, rfl, rfl, rfl, rfl⟩
  have hbal : (worth [m, next] : Int) + tx.extAmount.val
      = tx.outputAmounts.1.val + tx.outputAmounts.2.val := by
    have hzero : NoteAmount.zero.val = 0 := rfl
    have hnil : worth ([] : List (SpendableNote F)) = 0 := rfl
    rw [hamounts, hext, worth_cons, worth_cons, Signed.val_zero, hnil]
    show _ = (sum.val : Int) + NoteAmount.zero.val
    omega
  have hmem (n : SpendableNote F) :
      n ∈ removeSpent s.wallet [m, next] ↔ n ∈ s.wallet ∧ n ≠ m ∧ n ≠ next := by
    rw [mem_removeSpent_of_nodup hnodup hpicked]
    simp
  obtain ⟨last, hlast, hpays⟩ := h.pays
  have hne : txs ≠ [] := by
    rintro rfl
    cases hlast
  refine ⟨tx, execute_cons hstep hresolve htx h.run, congrArg Nat.succ h.length, h.done,
    fun n => ?_, ?_, ?_, last, ?_, hpays⟩
  · rw [h.wallet n]
    show n ∈ removeSpent s.wallet [m, next] ++ [⟨out.1, sum⟩] ∧ _ ↔ _
    rw [List.mem_append, hmem, List.mem_singleton, List.mem_cons, List.mem_cons, List.mem_cons]
    constructor
    · rintro ⟨⟨hn, hm, hnext⟩ | hnew, hnot⟩
      · exact ⟨hn, fun hin => hin.elim hm fun hin => hin.elim hnext fun hin =>
          hnot (Or.inr hin)⟩
      · exact absurd (Or.inl hnew) hnot
    · rintro ⟨hn, hnot⟩
      refine ⟨Or.inl ⟨hn, fun hm => hnot (Or.inl hm), fun hnext => hnot (Or.inr (Or.inl hnext))⟩,
        fun hin => hin.elim (fun hnew => hout ?_) fun hin => hnot (Or.inr (Or.inr hin))⟩
      exact List.mem_map.mpr ⟨n, hn, congrArg SpendableNote.commitment hnew⟩
  · rw [List.zip_cons_cons, applyAll,
      apply_eq hledger hpair (fun n hn => hheld n (hpicked n hn)) hinputs hbal, hamounts]
    exact h.accepted
  · rw [List.dropLast_cons_of_ne_nil hne]
    exact List.forall_mem_cons.mpr ⟨⟨hext, hkeys⟩, h.merges⟩
  · rw [List.getLast?_cons, hlast]
    rfl

/-- From where it stands, a session runs to its end. By induction on the plan:
the last step is a payment (`completes_final`), an earlier one merges two
notes, after which the session is ready for the rest (`Ready.merge`). -/
theorem completes_of_ready {goal : Nat} {prev : StepNote F} {rest : List (SpendableNote F)}
    {steps : List (PlannedStep F)} (h : Gathers outputs prev rest steps) :
    ∀ {s : SpendSession F K E} {m : SpendableNote F} {ledger : List (SpendableNote F)}
      {outs : List (F × F)}, s.steps.drop s.stepIndex = steps →
      Ready goal s.wallet prev m rest → (∀ n ∈ s.wallet, n ∈ ledger) →
      (ledger.map SpendableNote.commitment ++ outs.flatMap fun o => [o.1, o.2]).Nodup →
      outs.length = steps.length → prev.amount = m.amount → Withdrawable outputs.1 s.target →
      worth (m :: rest) = (StepAction.final outputs).outputTotal →
      ∃ txs s', Completes outputs ledger (m :: rest) outs s txs s' := by
  induction h with
  | @last prev next =>
      intro s m ledger outs hsteps hready hheld hfresh hlen _ hext hworth
      obtain ⟨out, rfl⟩ := List.length_eq_one_iff.mp hlen
      exact completes_final hsteps hready.nodup hready.pickedNodup hready.picked
        hfresh.of_append_left hheld (hready.resolve _) hext hworth
  | @merge prev next rest steps sum hne hsum _ ih =>
      intro s m ledger outs hsteps hready hheld hfresh hlen hprev hext hworth
      cases outs with
      | nil => cases hlen
      | cons out outs =>
          obtain ⟨hstep, hdrop⟩ := getElem?_of_drop hsteps
          have hpicked : ∀ n ∈ [m, next], n ∈ s.wallet := fun n hn =>
            hready.picked n (List.Sublist.subset (by simp) hn)
          have hpair : ([m, next] : List (SpendableNote F)).Nodup :=
            hready.pickedNodup.sublist (by simp)
          have hout : out.1 ∉ ledger.map SpendableNote.commitment := fun hin =>
            List.disjoint_of_nodup_append hfresh hin (by simp)
          have hwallet : out.1 ∉ s.wallet.map SpendableNote.commitment := by
            intro hin
            obtain ⟨n, hn, heq⟩ := List.mem_map.mp hin
            exact hout (heq ▸ List.mem_map_of_mem (hheld n hn))
          rw [hprev] at hsum
          have hmerged := hready.merge hne hsum hwallet
          have hheld' : ∀ n ∈ removeSpent s.wallet [m, next] ++ [⟨out.1, sum⟩],
              n ∈ ledgerAfter ledger [m, next] out (sum, .zero) := by
            intro n hn
            rcases List.mem_append.mp hn with hn | hn
            · obtain ⟨hn, hnew⟩ := mem_removeSpent.mp hn
              refine List.mem_append_left _ (List.mem_filter.mpr ⟨hheld n hn, ?_⟩)
              refine decide_eq_true fun hin => ?_
              obtain ⟨m', hm', heq⟩ := List.mem_map.mp hin
              exact hnew m' hm' heq.symm
            · obtain rfl := List.mem_singleton.mp hn
              exact List.mem_append_right _ (List.mem_cons_self ..)
          rw [worth_cons, worth_cons] at hworth
          obtain ⟨txs, s', hlater⟩ := ih
            (s := s.completed ⟨(prev, some (.fromSpendable next)), .consolidate sum⟩ [m, next] out)
            hdrop hmerged hheld'
            (ledgerAfter_nodup hfresh) (Nat.succ.inj hlen) rfl hext
            (show worth (⟨out.1, sum⟩ :: rest) = _ by
              rw [worth_cons, ← hworth, ← Nat.add_assoc, ← hsum])
          obtain ⟨tx, htx⟩ := hlater.merge hstep (hready.resolve _) hready.nodup
            hfresh.of_append_left hheld hpair hpicked hsum hwallet
          exact ⟨tx :: txs, s', htx⟩

omit [DecidableEq F] in
/-- A plan is made for notes of which none can be spared. -/
theorem PickedNotes.ready {wallet : List (SpendableNote F)} {amount : NoteAmount}
    {change : Option NoteAmount} (h : PickedNotes wallet amount (m :: rest) change)
    (hnodup : (wallet.map SpendableNote.commitment).Nodup) :
    Ready amount.val wallet (.fromSpendable m) m rest := by
  have hpicked : (m :: rest).Nodup := by
    obtain ⟨l, hperm, hsub⟩ := h.subperm
    exact hperm.nodup_iff.mp (hnodup.of_map.sublist hsub)
  refine ⟨hnodup, hpicked, fun n hn => h.subperm.subset hn, Or.inl rfl, ?_, ?_, ?_⟩
  · have hworth := h.worth_eq
    omega
  · intro hlen other hother hsub hgoal
    have hcons : (m :: rest).length = rest.length + 1 := rfl
    by_cases hnil : other = []
    · -- nothing to pay: then one note was enough
      subst hnil
      have hone := h.fewest [m] (List.cons_ne_nil m [])
        (List.singleton_subperm_iff.mpr (h.subperm.subset (List.mem_cons_self ..)))
        (hgoal.trans (Nat.zero_le _))
      rw [List.length_singleton] at hone
      omega
    · have hfewest := h.fewest other hnil (hother.subperm hsub) hgoal
      omega
  · intro hlen
    exact (h.descending (by rw [List.length_cons]; omega)).of_cons

omit [DecidableEq F] in
theorem fromPlan_eq_ok {α : Type} {r : Except (PlanError F) α} {a : α} :
    fromPlan r = .ok a ↔ r = .ok a := by
  cases r with
  | ok b => exact ⟨fun h => congrArg _ (Except.ok.inj h), fun h => congrArg _ (Except.ok.inj h)⟩
  | error e => exact ⟨nofun, nofun⟩

/-- A session that was set up runs to its end: if the outputs get commitments
of their own, every step finds its inputs, the ledger accepts the transactions
one after the other, only the last one pays, and the chosen notes are gone.

A single note needs one transaction (`completes_final`), more notes a chain,
along which the invariant is that the wallet holds the notes that the rest of
the plan spends (`completes_of_ready`). -/
theorem session_completes (sort : UnstableSort) (wallet : List (SpendableNote F))
    (amount : NoteAmount) (poolAddress : String) (target : SpendTarget K E)
    (s : SpendSession F K E) (outs : List (F × F))
    (hsetup : SpendSession.setup sort wallet amount poolAddress target = .ok s)
    (hfresh : (wallet.map SpendableNote.commitment ++ outs.flatMap fun o => [o.1, o.2]).Nodup)
    (hlen : outs.length = s.steps.length) (hext : Withdrawable amount target) :
    ∃ picked change txs s', PickedNotes wallet amount picked change ∧
      Completes (amount, change) wallet picked outs s txs s' := by
  obtain ⟨_, -, hplan⟩ := bind_ok.mp hsetup
  obtain ⟨p, hp, hs⟩ := bind_ok.mp hplan
  cases hs
  obtain ⟨picked, change, hpicked, -, hsteps⟩ := plan_ok (fromPlan_eq_ok.mp hp)
  have hnodup := hfresh.of_append_left
  have hspends := spends_of_planSteps hpicked.nonempty hsteps
  generalize p.steps = steps at hspends hlen
  cases hspends with
  | @single note =>
      have hnote : ∀ n ∈ [note], n ∈ wallet := fun n hn => hpicked.subperm.subset hn
      have hresolve : (PlannedStep.mk (.fromSpendable note, none)
          (.final (amount, change))).resolve wallet = .ok [note] := by
        rw [PlannedStep.resolve]
        dsimp only
        rw [resolve_known hnodup (hnote note (List.mem_singleton_self _))]
        rfl
      obtain ⟨out, rfl⟩ := List.length_eq_one_iff.mp hlen
      obtain ⟨txs, s', h⟩ := completes_final (s := ⟨_, wallet, poolAddress, target, 0⟩) rfl hnodup
        (List.nodup_singleton _) hnote hnodup (fun _ hn => hn) hresolve hext hpicked.worth_eq
      exact ⟨[note], change, txs, s', hpicked, h⟩
  | @chain m rest _ h =>
      obtain ⟨txs, s', h⟩ := completes_of_ready (s := ⟨steps, wallet, poolAddress, target, 0⟩)
        h rfl (hpicked.ready hnodup) (fun _ hn => hn) hfresh hlen rfl hext hpicked.worth_eq
      exact ⟨m :: rest, change, txs, s', hpicked, h⟩

/-- The three notes are merged and sent on in two transactions. -/
theorem session_completes_small : ∃ s : SpendSession Nat Nat Nat,
    SpendSession.setup insertionSort smallWallet ten "pool" (.transfer 1 2) = .ok s ∧
      ∃ picked change txs s', PickedNotes smallWallet ten picked change ∧
        Completes (ten, change) smallWallet picked [(201, 202), (203, 204)] s txs s' := by
  obtain ⟨s, hs⟩ : ∃ s : SpendSession Nat Nat Nat,
      SpendSession.setup insertionSort smallWallet ten "pool" (.transfer 1 2) = .ok s := ⟨_, rfl⟩
  have hlen : 2 = s.steps.length := by
    cases hs
    rfl
  exact ⟨s, hs, session_completes insertionSort smallWallet ten "pool" (.transfer 1 2) s
    [(201, 202), (203, 204)] hs (by decide) hlen trivial⟩

end Planner

end PrivacyWallet
