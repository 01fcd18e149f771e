import PrivacyWallet.Pool.Runs

/-!
# The liabilities counter is exact

`TotalLiabilities` is written in two places, once with a checked addition
and once with a subtraction clamped at zero. Along a run it is the sum of
the accepted deposits minus the sum of the accepted withdrawals, as long as
the withdrawals never exceed the deposits (`liabilities_exact`).

One transaction adds its external amount to the counter, unless that would
be negative (`Transacted.liabilities`): of the two writes only one is
reached, by the sign of the amount. Over a run that is never overdrawn the
counter equals what is left in the pool, so the clamp is never the larger
side and the equation carries over (`ExactLiabilities.exec`).

The rest of the claim is about what does *not* write the counter:

- **the vault** - every helper that calls it leaves the pool's storage as it
  was, also where it fails (`ensureIdle_frame`, `maybeInvest_frame`,
  `collectYield_frame`), each composed of the frames of its parts;
- **an error** - the subtraction is total (`subLiabilities_total`), and the
  addition fails exactly on an overflow (`addLiabilities_error_iff`).
-/

namespace PrivacyWallet

namespace Pool

open InvokeM

variable {A L X : Type} [DecidableEq A] {h : Host A L X} {w w' : World A L X}

/-- The sum of the deposits among the transactions. -/
def deposited (txs : List (Tx A)) : Int :=
  (txs.map fun tx => max tx.extData.extAmount.val 0).sum

/-- The sum of the withdrawals among the transactions. -/
def withdrawn (txs : List (Tx A)) : Int :=
  (txs.map fun tx => max (-tx.extData.extAmount.val) 0).sum

omit [DecidableEq A] in
@[simp] theorem deposited_append (l m : List (Tx A)) :
    deposited (l ++ m) = deposited l + deposited m := by
  simp [deposited]

omit [DecidableEq A] in
@[simp] theorem withdrawn_append (l m : List (Tx A)) :
    withdrawn (l ++ m) = withdrawn l + withdrawn m := by
  simp [withdrawn]

omit [DecidableEq A] in
/-- One transaction moves the balance of deposits and withdrawals by its
external amount. -/
theorem deposited_sub_withdrawn_single (tx : Tx A) :
    deposited [tx] - withdrawn [tx] = tx.extData.extAmount.val := by
  simp only [deposited, withdrawn, List.map_cons, List.map_nil, List.sum_cons,
    List.sum_nil]
  omega

/-! ## The counter in one transaction -/

/-- The payout lowers the counter by its amount, but not below zero. -/
theorem WithdrawalPaid.liabilities {extData : ExtData A} {v : I128}
    (hp : WithdrawalPaid h extData w w') (hv : w.storage.totalLiabilities = some v) :
    ∃ v' : I128, w'.storage.totalLiabilities = some v' ∧
      ((0 ≤ extData.extAmount.val ∧ v'.val = v.val) ∨
        (extData.extAmount.val < 0 ∧ v'.val = max (v.val + extData.extAmount.val) 0)) := by
  cases hp with
  | none hext => exact ⟨v, hv, Or.inl ⟨hext, rfl⟩⟩
  | @paid token a next w₁ w₂ hext _ ha _ _ _ hnext =>
      refine ⟨next, rfl, Or.inr ⟨hext, ?_⟩⟩
      rw [hnext, Storage.liabilities, hv, Option.getD_some, ha, sub_neg_eq_add]

/-- Booking a deposit raises the counter by its amount. -/
theorem DepositSettled.liabilities {extData : ExtData A} {v : I128}
    (hs : DepositSettled h extData w w') (hv : w.storage.totalLiabilities = some v) :
    ∃ v' : I128, w'.storage.totalLiabilities = some v' ∧
      v'.val = v.val + max extData.extAmount.val 0 := by
  cases hs with
  | none hext => exact ⟨v, hv, by rw [max_eq_right hext, add_zero]⟩
  | @settled a next _ hext ha hnext hmove =>
      refine ⟨next, ?_, ?_⟩
      · rw [hmove.storage]
        rfl
      · rw [hnext, Storage.liabilities, hv, Option.getD_some, ha, max_eq_left hext.le]

/-- An accepted transaction adds its external amount; a withdrawal that
exceeds the counter leaves zero. -/
theorem Transacted.liabilities {auth : List A} {proof : Proof} {extData : ExtData A}
    {sender : A} {w₁ w₂ w₃ : World A L X}
    (ht : Transacted h auth proof extData sender w w₁ w₂ w₃ w') {v : I128}
    (hv : w.storage.totalLiabilities = some v) :
    ∃ v' : I128, w'.storage.totalLiabilities = some v' ∧
      ((0 ≤ extData.extAmount.val ∧ v'.val = v.val + extData.extAmount.val) ∨
        (extData.extAmount.val < 0 ∧ v'.val = max (v.val + extData.extAmount.val) 0)) := by
  have hv₁ : (w₁.spend proof.inputNullifiers).storage.totalLiabilities = some v := by
    show w₁.storage.totalLiabilities = some v
    rw [ht.taken.storage]
    exact hv
  obtain ⟨v₂, hv₂, hcases⟩ := ht.paid.liabilities hv₁
  obtain ⟨index, t, es, -, hw₃⟩ := ht.inserted
  have hv₃ : w₃.storage.totalLiabilities = some v₂ := by
    rw [hw₃]
    exact hv₂
  obtain ⟨v', hv', hval⟩ := ht.settled.liabilities hv₃
  refine ⟨v', hv', ?_⟩
  rcases hcases with ⟨hext, heq⟩ | ⟨hext, heq⟩
  · exact Or.inl ⟨hext, by rw [hval, heq, max_eq_left hext]⟩
  · exact Or.inr ⟨hext, by rw [hval, heq, max_eq_right hext.le, add_zero]⟩

/-! ## What the vault cannot reach -/

/-- The part of the world that is the pool's own storage. -/
abbrev storageOf (w : World A L X) : Storage A := w.storage

theorem tryVault_frame {β : Type} (granted : List (Transfer A))
    (call : L × X → Outcome (X × List (Transfer A) × β)) :
    Frame storageOf (tryVault h granted call) := by
  refine Frame.read.bind fun w => ?_
  rcases call w.outside with ⟨x, ts, b⟩ | _ | _
  · dsimp only
    exact Frame.bind (Frame.update fun _ => rfl) fun _ => Frame.pure _
  · exact Frame.pure _
  · exact Frame.pure _

theorem tokenBalance_frame (token id : A) :
    Frame storageOf (tokenBalance h token id) :=
  Frame.read.bind fun _ => Frame.pure _

theorem tokenTransfer_frame (t : Transfer A) :
    Frame storageOf (tokenTransfer h t) := by
  refine Frame.read.bind fun w => ?_
  cases h.token.transfer t w.ledger with
  | none => exact Frame.trap
  | some l => exact Frame.update fun _ => rfl

omit [DecidableEq A] in
theorem getInvestParams_frame : Frame storageOf (getInvestParams : PoolM A L X _) :=
  ((load_frame _).bind fun _ => (load_frame _).bind fun _ => Frame.pure _).of_id

theorem ensureIdle_frame (required : I128) :
    Frame storageOf (ensureIdle h required) := by
  refine ((load_frame _).of_id).bind fun token => ?_
  refine (tokenBalance_frame token h.this).bind fun idle => ?_
  refine Frame.ite (Frame.pure _) ?_
  refine ((load_frame _).of_id).bind fun vault => ?_
  refine getInvestParams_frame.bind fun params => ?_
  refine ((callView_frame _).of_id).bind fun shares => ?_
  refine (Frame.rejectIf ..).bind fun _ => ?_
  refine ((callView_frame _).of_id).bind fun quote => ?_
  refine (Frame.okOr ..).bind fun perProbe => ?_
  refine (Frame.rejectIf ..).bind fun _ => ?_
  refine (Frame.orTrap _).bind fun deficit => ?_
  refine (Frame.okOr ..).bind fun desired => ?_
  refine (Frame.okOr ..).bind fun numerator => ?_
  refine (tryVault_frame ..).bind fun out => ?_
  refine (Frame.okOr ..).bind fun answer => ?_
  refine (Frame.okOr ..).bind fun _ => ?_
  exact (tokenBalance_frame ..).bind fun _ => Frame.rejectIf ..

theorem maybeInvest_frame : Frame storageOf (maybeInvest h) := by
  refine Frame.read.bind fun w => ?_
  rcases w.storage.investSetup with _ | ⟨token, vault, threshold, buffer⟩
  · exact Frame.pure _
  · refine (tokenBalance_frame ..).bind fun idle => ?_
    refine Frame.ite (Frame.pure _) ?_
    refine (Frame.orTrap _).bind fun amount => ?_
    refine Frame.ite (Frame.pure _) ?_
    exact (tryVault_frame ..).bind fun _ => Frame.pure _

theorem getSurplus_frame : Frame storageOf (getSurplus h) := by
  refine ((load_frame _).of_id).bind fun token => ?_
  refine (tokenBalance_frame ..).bind fun idle => ?_
  have hposition : Frame storageOf (vaultPositionValue h) := by
    refine ((load_frame _).of_id).bind fun vault => ?_
    refine ((callView_frame _).of_id).bind fun shares => ?_
    exact Frame.ite (Frame.pure _)
      (((callView_frame _).of_id).bind fun _ => Frame.pure _)
  refine hposition.bind fun position => ?_
  refine (Frame.okOr ..).bind fun assets => ?_
  refine Frame.bind (Frame.read.bind fun _ => Frame.pure _) fun liabilities => ?_
  exact (Frame.orTrap _).bind fun _ => Frame.pure _

theorem collectYield_frame (auth : List A) (dst : A) :
    Frame storageOf (collectYield h auth dst) := by
  refine ((load_frame _).of_id).bind fun admin => ?_
  refine Frame.bind (Frame.ite (Frame.pure _) Frame.trap) fun _ => ?_
  refine getSurplus_frame.bind fun surplus => ?_
  refine Frame.ite (Frame.pure _) ?_
  refine (ensureIdle_frame surplus).bind fun _ => ?_
  refine ((load_frame _).of_id).bind fun token => ?_
  refine getSurplus_frame.bind fun surplus' => ?_
  refine (tokenBalance_frame ..).bind fun idle => ?_
  exact (Frame.when _ (tokenTransfer_frame _)).bind fun _ => Frame.pure _

/-! ## Exactness along runs -/

/-- The counter is deposits minus withdrawals. -/
def ExactLiabilities (w : World A L X) (txs : List (Tx A)) : Prop :=
  ∃ v : I128, w.storage.totalLiabilities = some v ∧
    v.val = deposited txs - withdrawn txs

/-- On every prefix of the run, no more was withdrawn than deposited. -/
def NeverOverdrawn (h : Host A L X) (w₀ : World A L X) (steps : List (Step A L X)) :
    Prop :=
  ∀ pre, pre <+: steps →
    withdrawn (accepted h w₀ pre) ≤ deposited (accepted h w₀ pre)

theorem NeverOverdrawn.mono {w₀ : World A L X} {steps pre : List (Step A L X)}
    (hn : NeverOverdrawn h w₀ steps) (hpre : pre <+: steps) :
    NeverOverdrawn h w₀ pre :=
  fun l hl => hn l (hl.trans hpre)

/-- A step of a run that is not overdrawn afterwards: the counter was what the pool
held, so a withdrawal among it is no more than the counter and the clamp is idle. -/
theorem ExactLiabilities.exec {txs : List (Tx A)} (he : ExactLiabilities w txs)
    (s : Step A L X)
    (hn : withdrawn (txs ++ acceptedBy h w s) ≤ deposited (txs ++ acceptedBy h w s)) :
    ExactLiabilities (exec h w s) (txs ++ acceptedBy h w s) := by
  have hcases := step_cases (h := h) w s
  generalize Pool.exec h w s = w' at hcases ⊢
  generalize acceptedBy h w s = new at hcases hn ⊢
  obtain ⟨v, hv, hval⟩ := he
  cases hcases with
  | nothing => exact ⟨v, hv, by simpa using hval⟩
  | @transact _ proof extData _ _ _ _ _ ht =>
      obtain ⟨v', hv', hcases⟩ := ht.liabilities hv
      have hone := deposited_sub_withdrawn_single ⟨proof, extData⟩
      rw [withdrawn_append, deposited_append] at hn
      dsimp only at hone
      refine ⟨v', hv', ?_⟩
      rw [withdrawn_append, deposited_append]
      rcases hcases with ⟨-, heq⟩ | ⟨-, heq⟩
      · omega
      · rw [heq, max_eq_left (by omega)]
        omega
  | collectYield hy => exact ⟨v, by rw [hy.storage]; exact hv, by simpa using hval⟩
  | administer ha => exact ⟨v, ha.totalLiabilities.trans hv, by simpa using hval⟩
  | outside => exact ⟨v, hv, by simpa using hval⟩

/-- Along the run, by induction on its steps; the constructor starts the counter at
zero. -/
theorem Constructed.exactLiabilities {c : Config A} {w₀ : World A L X}
    (hc : Constructed h c w₀) {steps : List (Step A L X)}
    (hn : NeverOverdrawn h w₀ steps) :
    ExactLiabilities (runs h w₀ steps) (accepted h w₀ steps) := by
  have h0 : ExactLiabilities w₀ [] := by
    obtain ⟨-, -, -, -, hliab, -⟩ := constructed_ok hc
    exact ⟨0, hliab, rfl⟩
  refine Run.prefix_invariant h0 fun pre s hpre he => he.exec s ?_
  have := hn (pre ++ [s]) hpre
  rw [accepted_snoc] at this
  exact this

omit [DecidableEq A] in
/-- The clamped subtraction always succeeds: the counter stays below its bound. -/
theorem subLiabilities_total {a : I128} (ha : 0 ≤ a.val)
    (hw : 0 ≤ w.storage.liabilities.val) :
    ∃ w', subLiabilities a w = (.ok (), w') := by
  have hhi := w.storage.liabilities.hi
  have hlo := a.hi
  obtain ⟨next, hnext⟩ : ∃ next : I128,
      next.val = w.storage.liabilities.val - a.val :=
    ⟨⟨w.storage.liabilities.val - a.val, by omega, by omega⟩, rfl⟩
  exact ⟨_, bind_eq_ok.mpr ⟨_, w, getLiabilities_eq_ok.mpr ⟨rfl, rfl⟩,
    bind_eq_ok.mpr ⟨next, w, orTrap_eq_ok.mpr
      ⟨Signed.checkedSub_eq_some.mpr hnext, rfl⟩, store_eq_ok.mpr rfl⟩⟩⟩

omit [DecidableEq A] in
/-- The checked addition has one way to fail, and it fails there. -/
theorem addLiabilities_error_iff {a : I128} (ha : 0 ≤ a.val)
    (hw : 0 ≤ w.storage.liabilities.val) (e : Fail Error) :
    (addLiabilities a w).1 = .error e ↔
      e = .err .overflow ∧ 2 ^ 127 ≤ w.storage.liabilities.val + a.val := by
  have hget : (getLiabilities w : Except (Fail Error) I128 × World A L X)
      = (.ok w.storage.liabilities, w) := rfl
  rw [addLiabilities, bind_of_ok hget]
  cases hadd : Signed.checkedAdd w.storage.liabilities a with
  | none =>
      rw [okOr_none_bind]
      have hover := Signed.ofInt?_eq_none.mp hadd
      simp only [Except.error.injEq]
      constructor
      · rintro rfl
        exact ⟨rfl, by norm_num at hover ⊢; omega⟩
      · rintro ⟨rfl, -⟩
        rfl
  | some next =>
      rw [okOr_some_bind]
      have hval := Signed.checkedAdd_eq_some.mp hadd
      have hhi := next.hi
      constructor
      · intro hstore
        cases hstore
      · rintro ⟨-, hover⟩
        norm_num at hhi
        omega

/-- Along a run that is never overdrawn the counter is deposits minus
withdrawals, no accepted withdrawal exceeds it, only the checked addition
can fail, and no vault outcome touches it.

The equation is the invariant `ExactLiabilities`, which is carried over a run
that is never overdrawn. That no withdrawal exceeds the counter follows from it
by looking one step ahead, and the vault's share are the frames of the helpers
that call it. -/
theorem liabilities_exact (h : Host A L X) (c : Config A) (w₀ : World A L X)
    (hc : Constructed h c w₀) (steps : List (Step A L X))
    (hn : NeverOverdrawn h w₀ steps) :
    (∃ v : I128, (runs h w₀ steps).storage.totalLiabilities = some v ∧
      v.val = deposited (accepted h w₀ steps) - withdrawn (accepted h w₀ steps)) ∧
    (∀ pre s, pre ++ [s] <+: steps → ∀ tx ∈ acceptedBy h (runs h w₀ pre) s,
      -tx.extData.extAmount.val ≤ (runs h w₀ pre).storage.liabilities.val) ∧
    (∀ a : I128, 0 ≤ a.val →
      (∃ w', subLiabilities a (runs h w₀ steps) = (.ok (), w')) ∧
      ∀ e, (addLiabilities a (runs h w₀ steps)).1 = .error e ↔
        e = .err .overflow ∧
          2 ^ 127 ≤ (runs h w₀ steps).storage.liabilities.val + a.val) ∧
    ∀ (w : World A L X) (required : I128) (auth : List A) (dst : A),
      (ensureIdle h required w).2.storage.totalLiabilities
          = w.storage.totalLiabilities ∧
        (maybeInvest h w).2.storage.totalLiabilities = w.storage.totalLiabilities ∧
        (collectYield h auth dst w).2.storage.totalLiabilities
          = w.storage.totalLiabilities := by
  have hexact := hc.exactLiabilities hn
  have hnonneg : 0 ≤ (runs h w₀ steps).storage.liabilities.val := by
    obtain ⟨v, hv, hval⟩ := hexact
    have := hn steps (List.prefix_refl _)
    rw [Storage.liabilities, hv, Option.getD_some]
    omega
  refine ⟨hexact, fun pre s hpre tx htx => ?_, fun a ha =>
    ⟨subLiabilities_total ha hnonneg, addLiabilities_error_iff ha hnonneg⟩,
    fun w required auth dst => ⟨?_, ?_, ?_⟩⟩
  · have hpre' : pre <+: steps := (List.prefix_append pre [s]).trans hpre
    obtain ⟨v, hv, hval⟩ := hc.exactLiabilities (hn.mono hpre')
    have hover := hn (pre ++ [s]) hpre
    rw [accepted_snoc, withdrawn_append, deposited_append] at hover
    have hsingle : acceptedBy h (runs h w₀ pre) s = [tx] := by
      have hcases := step_cases (h := h) (runs h w₀ pre) s
      generalize Pool.exec h (runs h w₀ pre) s = w' at hcases
      generalize acceptedBy h (runs h w₀ pre) s = new at hcases htx
      cases hcases with
      | transact => rw [List.mem_singleton.mp htx]
      | nothing => cases htx
      | collectYield => cases htx
      | administer => cases htx
      | outside => cases htx
    have hone := deposited_sub_withdrawn_single tx
    rw [hsingle] at hover
    rw [Storage.liabilities, hv, Option.getD_some]
    omega
  · exact congrArg Storage.totalLiabilities ((ensureIdle_frame required).eq w)
  · exact congrArg Storage.totalLiabilities (maybeInvest_frame.eq w)
  · exact congrArg Storage.totalLiabilities ((collectYield_frame auth dst).eq w)

/-- The run of one deposit. -/
theorem liabilities_exact_table :
    ∃ v : I128,
      (runs tableHost tableWorld [tableDeposit]).storage.totalLiabilities = some v ∧
        v.val = 150 := by
  have hn : NeverOverdrawn tableHost tableWorld [tableDeposit] := by
    intro pre hpre
    rcases List.prefix_cons_iff.mp hpre with rfl | ⟨l, rfl, hl⟩
    · decide
    · rw [List.prefix_nil] at hl
      rw [hl, tableDeposit_accepted]
      decide
  obtain ⟨v, hv, hval⟩ := (liabilities_exact tableHost tableConfig tableWorld
    tableWorld_constructed [tableDeposit] hn).1
  refine ⟨v, hv, ?_⟩
  rw [hval, tableDeposit_accepted]
  decide

end Pool

end PrivacyWallet
