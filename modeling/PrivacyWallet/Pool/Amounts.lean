import PrivacyWallet.Pool.VaultOutage

/-!
# The proven amount is the moved amount

The external amount of a transaction is converted for the proof
(`calculatePublicAmount`), for the deposit and for the payout, each time
with its own range. `calculatePublicAmount_range` says which amounts have a
public amount and that it determines them: an integer below 2²⁴⁸ is told from
its residue, as the modulus is above 2²⁵³.

What an accepted transaction moves is one transfer, from the sender or to the
recipient, or none (`Moved`), by the sign of the external amount; each case is
read off the chain of the call's steps (`Transacted.moved`). So it moves, and
books, the one integer behind the public amount that was verified
(`transact_movesProven`). Two withdrawals are exceptions (`booked`, `gained`):
one above the liabilities, which stop at zero, and one to the pool itself,
which is booked though nothing leaves (`booked_differs_from_moved`).
-/

namespace PrivacyWallet

namespace Pool

open InvokeM

variable {A L X : Type} {w w' : World A L X} {u : Unit}

/-! ## The public amount -/

/-- Integers below half the modulus are told apart by their residues. -/
theorem eq_of_residue_eq {v v' : Int} (hv : |v| < 2 ^ 248) (hv' : |v'| < 2 ^ 248)
    (heq : v % bn256Modulus.val = v' % bn256Modulus.val) : v = v' := by
  have hdvd : (bn256Modulus.val : Int) ∣ v - v' :=
    Int.dvd_of_emod_eq_zero (Int.emod_eq_emod_iff_emod_sub_eq_zero.mp heq)
  have hmod : (2 ^ 253 : Int) < bn256Modulus.val := by exact_mod_cast two_pow_253_lt_modulus
  have habs : |v - v'| < bn256Modulus.val := by
    rw [abs_lt] at hv hv' ⊢
    omega
  have hzero := Int.eq_zero_of_abs_lt_dvd hdvd habs
  omega

theorem calculatePublicAmount_run {v : I256} (hv : |v.val| < 2 ^ 248) :
    ∃ p, (calculatePublicAmount v : PoolM A L X U256) w = (.ok p, w) := by
  rw [abs_lt] at hv
  have hmod := two_pow_253_lt_modulus
  by_cases hnn : 0 ≤ v
  · have hnn' : 0 ≤ v.val := hnn
    have hval := Signed.toU256_val hnn'
    refine ⟨v.toU256, bind_eq_ok.mpr ⟨v.toU256, w, ?_, bind_eq_ok.mpr ⟨(), w, ?_, ?_⟩⟩⟩
    · refine bind_eq_ok.mpr ⟨v, w, ?_, rfl⟩
      rw [if_pos hnn]
      rfl
    · rw [rejectIf_eq_ok, U256.le_def, maxExtAmount_val]
      exact ⟨by omega, rfl⟩
    · rw [if_pos hnn]
      rfl
  · have hneg : v.val < 0 := not_le.mp hnn
    let n : I256 := ⟨-v.val, by norm_num; omega, by norm_num; omega⟩
    have hnval : (n.toU256.val : Int) = -v.val := Signed.toU256_val (by show 0 ≤ -v.val; omega)
    have hn : (negI256 v : PoolM A L X I256) w = (.ok n, w) := negI256_eq_ok.mpr ⟨rfl, rfl⟩
    let p : U256 := ⟨bn256Modulus.val - n.toU256.val, by have := bn256Modulus.lt; omega⟩
    refine ⟨p, bind_eq_ok.mpr ⟨n.toU256, w, ?_, bind_eq_ok.mpr ⟨(), w, ?_, ?_⟩⟩⟩
    · refine bind_eq_ok.mpr ⟨n, w, ?_, rfl⟩
      rw [if_neg hnn]
      exact hn
    · rw [rejectIf_eq_ok, U256.le_def, maxExtAmount_val]
      exact ⟨by omega, rfl⟩
    · rw [if_neg hnn]
      refine bind_eq_ok.mpr ⟨n, w, hn, orTrap_eq_ok.mpr ⟨?_, rfl⟩⟩
      exact U256.checkedSub_eq_some.mpr ⟨by omega, rfl⟩

/-- An amount has a public amount exactly below 2^248 in absolute value. It
is the amount's canonical residue, and no other amount has it. -/
theorem calculatePublicAmount_range (v : I256) (w : World A L X) :
    ((∃ p w', (calculatePublicAmount v : PoolM A L X U256) w = (.ok p, w')) ↔
        |v.val| < 2 ^ 248) ∧
      ∀ p w', (calculatePublicAmount v : PoolM A L X U256) w = (.ok p, w') →
        w' = w ∧ p < bn256Modulus ∧ (p.val : Int) = v.val % bn256Modulus.val ∧
        ∀ v' : I256, (calculatePublicAmount v' : PoolM A L X U256) w = (.ok p, w') → v' = v := by
  refine ⟨⟨?_, fun hv => ?_⟩, fun p w' hok => ?_⟩
  · rintro ⟨p, w', hok⟩
    obtain ⟨-, hlo, hhi, -⟩ := calculatePublicAmount_ok hok
    exact abs_lt.mpr ⟨hlo, hhi⟩
  · obtain ⟨p, hok⟩ := calculatePublicAmount_run (w := w) hv
    exact ⟨p, w, hok⟩
  · obtain ⟨rfl, hlo, hhi, hp⟩ := calculatePublicAmount_ok hok
    refine ⟨rfl, ?_, hp, fun v' hok' => ?_⟩
    · have hpos : (0 : Int) < bn256Modulus.val := by exact_mod_cast bn256Modulus_pos
      have hlt := Int.emod_lt_of_pos v.val hpos
      rw [U256.lt_def]
      omega
    · obtain ⟨-, hlo', hhi', hp'⟩ := calculatePublicAmount_ok hok'
      exact Signed.ext_val (eq_of_residue_eq (abs_lt.mpr ⟨hlo', hhi'⟩) (abs_lt.mpr ⟨hlo, hhi⟩)
        (hp'.symm.trans hp))

/-! ## The amount that is moved -/

variable [DecidableEq A] {h : Host A L X} {auth : List A} {proof : Proof}
  {extData : ExtData A} {sender token : A}

/-- How an interaction changes the balance of `a`. -/
def Interaction.flow (h : Host A L X) (token a : A) (i : Interaction A L X) : Int :=
  (h.token.balance token a i.after.1).val - (h.token.balance token a i.before.1).val

/-- The pool's own transfers in a transaction that moves `v` into the pool:
one of that amount, from the sender or to the recipient, or none. -/
inductive Moved (h : Host A L X) (token sender recipient : A) :
    Int → List (Interaction A L X) → Prop where
  | nothing : Moved h token sender recipient 0 []
  | deposit {a : I128} {o o' : L × X} (hpos : 0 < a.val)
      (ht : h.token.transfer ⟨token, sender, h.this, a⟩ o.1 = some o'.1) :
      Moved h token sender recipient a.val [⟨.transfer ⟨token, sender, h.this, a⟩, o, o'⟩]
  | withdrawal {a : I128} {o o' : L × X} (hpos : 0 < a.val)
      (ht : h.token.transfer ⟨token, h.this, recipient, a⟩ o.1 = some o'.1) :
      Moved h token sender recipient (-a.val)
        [⟨.transfer ⟨token, h.this, recipient, a⟩, o, o'⟩]

/-- What the pool gains when `v` is moved into it: nothing by a payout to
itself. -/
def gained (h : Host A L X) (recipient : A) (v : Int) : Int :=
  if v < 0 ∧ recipient = h.this then 0 else v

/-- The two sides of the movement: what the pool gains, the user loses. -/
theorem Moved.flow {recipient : A} {v : Int} {own : List (Interaction A L X)}
    (hm : Moved h token sender recipient v own) (hsender : sender ≠ h.this) :
    (own.map (Interaction.flow h token h.this)).sum = gained h recipient v ∧
      (own.map (Interaction.flow h token (if 0 ≤ v then sender else recipient))).sum
        = -gained h recipient v := by
  cases hm with
  | nothing =>
      rw [gained, if_neg fun hv => lt_irrefl _ hv.1]
      exact ⟨rfl, rfl⟩
  | @deposit a o o' hpos ht =>
      have hpool := h.token.balance_transfer ht token h.this
      have huser := h.token.balance_transfer ht token sender
      rw [Transfer.delta, if_pos rfl, if_pos rfl, if_neg hsender.symm] at hpool
      rw [Transfer.delta, if_pos rfl, if_neg hsender, if_pos rfl] at huser
      rw [if_pos hpos.le, gained, if_neg fun hv => lt_asymm hpos hv.1]
      simp only [List.map_cons, List.map_nil, List.sum_cons, List.sum_nil, Interaction.flow]
      dsimp only at hpool huser
      omega
  | @withdrawal a o o' hpos ht =>
      have hpool := h.token.balance_transfer ht token h.this
      have huser := h.token.balance_transfer ht token recipient
      have hneg : -a.val < 0 := by omega
      rw [if_neg (not_le.mpr hneg), gained]
      simp only [List.map_cons, List.map_nil, List.sum_cons, List.sum_nil, Interaction.flow]
      by_cases hself : recipient = h.this
      · -- what the pool sends it receives
        subst hself
        rw [Transfer.delta, if_pos rfl, if_pos rfl] at hpool
        rw [if_pos ⟨hneg, rfl⟩]
        dsimp only at hpool
        omega
      · rw [Transfer.delta, if_pos rfl, if_neg (Ne.symm hself), if_pos rfl] at hpool
        rw [Transfer.delta, if_pos rfl, if_pos rfl, if_neg hself] at huser
        rw [if_neg fun hv => hself hv.2]
        dsimp only at hpool huser
        omega

omit [DecidableEq A] in
theorem ownTransfers_transfer (t : Transfer A) (o : L × X) :
    (w.moved (.transfer t) o).ownTransfers
      = w.ownTransfers ++ [⟨.transfer t, w.outside, o⟩] := by
  simp [World.ownTransfers]

omit [DecidableEq A] in
theorem VaultMove.ownTransfers (hm : VaultMove w w') : w'.ownTransfers = w.ownTransfers := by
  rcases hm with rfl | ⟨o, rfl⟩
  · rfl
  · simp [World.ownTransfers]

/-- What an accepted transaction books: a payout larger than the liabilities
takes them to zero. -/
def booked (liabilities v : Int) : Int := if 0 ≤ v then liabilities + v else max (liabilities + v) 0

section Steps

variable {w₁ w₂ w₃ : World A L X}

theorem Transacted.moved_deposit (htoken : w.storage.token = some token)
    (ht : Transacted h auth proof extData sender w w₁ w₂ w₃ w')
    (hext : 0 < extData.extAmount.val) :
    extData.extAmount.val < 2 ^ 127 ∧
      w'.storage.liabilities.val
        = w.storage.liabilities.val + extData.extAmount.val ∧
      ∃ own, w'.ownTransfers = w.ownTransfers ++ own ∧
        Moved h token sender extData.recipient extData.extAmount.val own := by
  obtain ⟨index, t, es, -, rfl⟩ := ht.inserted
  have hpaid := ht.paid
  have hsettled := ht.settled
  have hstorage := ht.taken.storage
  cases hpaid with
  | paid hlt => omega
  | none =>
  cases hsettled with
  | none hle => omega
  | @settled a next _ _ ha hnext hmove =>
  have htaken := ht.taken
  cases htaken with
  | none hle => omega
  | @taken token' b _ _ htoken' hb htransfer =>
      obtain rfl : token' = token := Option.some.inj (htoken'.symm.trans htoken)
      obtain ⟨l, hl, rfl⟩ := htransfer
      have hhi : b.val < 2 ^ 127 := b.hi
      refine ⟨by omega, ?_, [⟨.transfer ⟨token', sender, h.this, b⟩, w.outside, (l, w.others)⟩],
        ?_, ?_⟩
      · rw [hmove.storage]
        show next.val = _
        rw [hnext, ha]
        rfl
      · rw [hmove.ownTransfers]
        exact ownTransfers_transfer _ _
      · rw [← hb]
        exact .deposit (by omega) hl

/-- A withdrawal pays the amount in one transfer of the pool's own, and lowers
the liabilities by it, to zero at the least. -/
theorem Transacted.moved_withdrawal (htoken : w.storage.token = some token)
    (ht : Transacted h auth proof extData sender w w₁ w₂ w₃ w')
    (hext : extData.extAmount.val < 0) :
    -2 ^ 127 < extData.extAmount.val ∧
      w'.storage.liabilities.val
        = max (w.storage.liabilities.val + extData.extAmount.val) 0 ∧
      ∃ own, w'.ownTransfers = w.ownTransfers ++ own ∧
        Moved h token sender extData.recipient extData.extAmount.val own := by
  obtain ⟨index, t, es, -, rfl⟩ := ht.inserted
  have hpaid := ht.paid
  have hsettled := ht.settled
  have htaken := ht.taken
  cases hsettled with
  | settled hlt => omega
  | none =>
  cases htaken with
  | taken hlt => omega
  | none =>
  cases hpaid with
  | none hle => omega
  | @paid token' a next v₁ v₂ _ htoken' ha hmove _ htransfer hnext =>
      obtain rfl : token' = token := Option.some.inj (htoken'.symm.trans htoken)
      obtain ⟨l, hl, rfl⟩ := htransfer
      have hhi : a.val < 2 ^ 127 := a.hi
      refine ⟨by omega, ?_, [⟨.transfer ⟨token', h.this, extData.recipient, a⟩, v₁.outside,
        (l, v₁.others)⟩], ?_, ?_⟩
      · show next.val = _
        have hliab : (w.spend proof.inputNullifiers).storage.liabilities
            = w.storage.liabilities := rfl
        rw [hliab] at hnext
        omega
      · have hown : v₁.ownTransfers = w.ownTransfers := hmove.ownTransfers
        rw [← hown]
        exact ownTransfers_transfer _ _
      · have hv : extData.extAmount.val = -a.val := by omega
        rw [hv]
        exact .withdrawal (by omega) hl

/-- Every accepted transaction moves and books its external amount. -/
theorem Transacted.moved (htoken : w.storage.token = some token)
    (ht : Transacted h auth proof extData sender w w₁ w₂ w₃ w') :
    |extData.extAmount.val| < 2 ^ 127 ∧
      w'.storage.liabilities.val
        = booked w.storage.liabilities.val extData.extAmount.val ∧
      ∃ own, w'.ownTransfers = w.ownTransfers ++ own ∧
        Moved h token sender extData.recipient extData.extAmount.val own := by
  rcases lt_trichotomy extData.extAmount.val 0 with hneg | hzero | hpos
  · obtain ⟨hlo, hliab, hmoved⟩ := ht.moved_withdrawal htoken hneg
    refine ⟨abs_lt.mpr ⟨hlo, by omega⟩, ?_, hmoved⟩
    rw [hliab, booked, if_neg (not_le.mpr hneg)]
  · -- a transfer inside the pool
    obtain ⟨index, t, es, -, rfl⟩ := ht.inserted
    have hpaid := ht.paid
    have hsettled := ht.settled
    have htaken := ht.taken
    rw [hzero]
    cases hsettled with
    | settled hlt => omega
    | none =>
    cases htaken with
    | taken hlt => omega
    | none =>
    cases hpaid with
    | paid hlt => omega
    | none =>
        refine ⟨by norm_num, ?_, [], (List.append_nil _).symm, .nothing⟩
        rw [booked, if_pos (le_refl _), Int.add_zero]
        rfl
  · obtain ⟨hhi, hliab, hmoved⟩ := ht.moved_deposit htoken hpos
    refine ⟨abs_lt.mpr ⟨by omega, hhi⟩, ?_, hmoved⟩
    rw [hliab, booked, if_pos hpos.le]

end Steps

/-- A transaction is rejected and leaves no trace. -/
def Rejected (h : Host A L X) (auth : List A) (proof : Proof) (extData : ExtData A)
    (sender : A) (w : World A L X) : Prop :=
  ∃ e, revert (transact h auth proof extData sender) w = (.error e, w)

theorem rejected_of_not_ok
    (hno : ∀ u w', transact h auth proof extData sender w ≠ (.ok u, w')) :
    Rejected h auth proof extData sender w := by
  rcases hrun : transact h auth proof extData sender w with ⟨e | u, w'⟩
  · exact ⟨e, revert_of_error hrun⟩
  · exact absurd hrun (hno u w')

theorem transact_token (hok : transact h auth proof extData sender w = (.ok u, w')) :
    ∃ token, w.storage.token = some token := by
  obtain ⟨-, w₁, w₂, w₃, h1, -⟩ := transact_steps hok
  obtain ⟨token, v₁, h2, -⟩ := bind_eq_ok.mp h1
  exact ⟨token, (load_eq_ok.mp h2).1⟩

/-- An accepted deposit is within the maximum. -/
theorem transact_le_maximum (hext : 0 < extData.extAmount.val) {maximum : U256}
    (hmax : w.storage.maximumDepositAmount = some maximum)
    (hok : transact h auth proof extData sender w = (.ok u, w')) :
    extData.extAmount.val ≤ maximum.val := by
  obtain ⟨-, w₁, w₂, w₃, h1, -⟩ := transact_steps hok
  have hpos : 0 < extData.extAmount := hext
  obtain ⟨token, v₁, h2, h1⟩ := bind_eq_ok.mp h1
  obtain ⟨-, rfl⟩ := load_eq_ok.mp h2
  rw [when_run_of hpos] at h1
  obtain ⟨limit, v₂, h3, h1⟩ := bind_eq_ok.mp h1
  obtain ⟨hlimit, rfl⟩ := load_eq_ok.mp h3
  obtain rfl : limit = maximum := Option.some.inj (hlimit.symm.trans hmax)
  obtain ⟨_, v₃, h4, -⟩ := bind_eq_ok.mp h1
  obtain ⟨hle, -⟩ := rejectIf_eq_ok.mp h4
  have hval := Signed.toU256_val hext.le
  rw [U256.lt_def, not_lt] at hle
  omega

/-- An accepted transaction moved and booked the one integer `v` below 2^127
in absolute value that has the verified public amount as its residue; a payout
to the pool itself is booked, but nothing leaves. -/
def MovesProven (h : Host A L X) (proof : Proof) (extData : ExtData A) (sender : A)
    (w w' : World A L X) : Prop :=
  ∃ token v, w.storage.token = some token ∧ |v| < 2 ^ 127 ∧
    (∀ v', |v'| < 2 ^ 127 ∧ (proof.publicAmount.val : Int) = v' % bn256Modulus.val ↔ v' = v) ∧
    (∃ o flags verifier,
      h.verify verifier proof.proof (publicInputs proof flags) o = .value true) ∧
    w'.storage.liabilities.val = booked w.storage.liabilities.val v ∧
    ∃ own, w'.ownTransfers = w.ownTransfers ++ own ∧
      Moved h token sender extData.recipient v own ∧
      (own.map (Interaction.flow h token h.this)).sum = gained h extData.recipient v ∧
      (own.map (Interaction.flow h token (if 0 ≤ v then sender else extData.recipient))).sum
        = -gained h extData.recipient v

theorem transact_movesProven (hok : transact h auth proof extData sender w = (.ok u, w')) :
    MovesProven h proof extData sender w w' := by
  obtain ⟨token, htoken⟩ := transact_token hok
  obtain ⟨w₁, w₂, w₃, ht⟩ := transact_ok hok
  obtain ⟨hlt, hliab, own, hown, hmoved⟩ := ht.moved htoken
  obtain ⟨flags, verifier, -, -, hverify⟩ := ht.checked.verified
  have hwide : ∀ v : Int, |v| < 2 ^ 127 → |v| < 2 ^ 248 := fun v hv => hv.trans (by norm_num)
  refine ⟨token, extData.extAmount.val, htoken, hlt, fun v' => ⟨?_, ?_⟩,
    ⟨w₁.outside, flags, verifier, hverify⟩, hliab, own, hown, hmoved,
    hmoved.flow ht.sender_ne⟩
  · rintro ⟨hv', hres⟩
    exact eq_of_residue_eq (hwide v' hv') (hwide _ hlt)
      (hres.symm.trans ht.checked.publicAmount)
  · rintro rfl
    exact ⟨hlt, ht.checked.publicAmount⟩

/-- The proven amount is the moved amount. An amount has a public amount
exactly below 2^248 in absolute value, and that is its canonical residue,
which determines it. What an accepted transaction moves and books is the
integer behind its public amount, except that a withdrawal larger than the
liabilities takes them to zero, and that a withdrawal to the pool itself moves
nothing. A deposit above the maximum and an amount that does not fit are
rejected.

The first half is the arithmetic of `calculatePublicAmount_range`. For the
second, an accepted transaction is the chain of its steps (`transact_ok`): its
check ties the public amount to the external one, and its transfers and its
booking are read off by the sign of that amount (`Transacted.moved`). -/
theorem proven_amount_is_moved (h : Host A L X) (w : World A L X) :
    (∀ v : I256, ((∃ p w', (calculatePublicAmount v : PoolM A L X U256) w = (.ok p, w')) ↔
          |v.val| < 2 ^ 248) ∧
        ∀ p w', (calculatePublicAmount v : PoolM A L X U256) w = (.ok p, w') →
          w' = w ∧ p < bn256Modulus ∧ (p.val : Int) = v.val % bn256Modulus.val ∧
          ∀ v' : I256, (calculatePublicAmount v' : PoolM A L X U256) w = (.ok p, w') →
            v' = v) ∧
      ∀ (auth : List A) (proof : Proof) (extData : ExtData A) (sender : A),
        (∀ u w', transact h auth proof extData sender w = (.ok u, w') →
          MovesProven h proof extData sender w w') ∧
        (∀ maximum, w.storage.maximumDepositAmount = some maximum →
          maximum.val < extData.extAmount.val → Rejected h auth proof extData sender w) ∧
        (2 ^ 127 ≤ |extData.extAmount.val| → Rejected h auth proof extData sender w) := by
  refine ⟨fun v => calculatePublicAmount_range v w, fun auth proof extData sender =>
    ⟨fun u w' hok => transact_movesProven hok, fun maximum hmax hgt => ?_, fun hbig => ?_⟩⟩
  · refine rejected_of_not_ok fun u w' hok => ?_
    have hle := transact_le_maximum (by omega) hmax hok
    omega
  · refine rejected_of_not_ok fun u w' hok => ?_
    obtain ⟨token, htoken⟩ := transact_token hok
    obtain ⟨w₁, w₂, w₃, ht⟩ := transact_ok hok
    exact absurd (ht.moved htoken).1 (not_lt.mpr hbig)

/-- A withdrawal of `200` after the deposit of `150` of the small instance. -/
def overdrawnProof : Proof :=
  { tableProof with
    inputNullifiers := [⟨21, twentyOne_fits⟩, ⟨22, twentyTwo_fits⟩]
    publicAmount := ⟨bn256Modulus.val - 200, by decide⟩ }

def overdrawnExt : ExtData Nat :=
  { tableExt with extAmount := ⟨-200, by norm_num, by norm_num⟩ }

/-- A withdrawal of `120` to the pool itself. -/
def selfProof : Proof :=
  { overdrawnProof with publicAmount := ⟨bn256Modulus.val - 120, by decide⟩ }

def selfExt : ExtData Nat :=
  { tableExt with extAmount := ⟨-120, by norm_num, by norm_num⟩, recipient := tableHost.this }

/-- The withdrawal, after the deposit. -/
def tableWithdrawal (proof : Proof) (extData : ExtData Nat) :
    Except (Fail Error) Unit × World Nat (Nat → Nat → Nat) Nat :=
  transact tableHost [7] proof extData 7 (runs tableHost tableWorld [tableDeposit])

/-- What the pool gains by its own transfers there. -/
def gainedBy (proof : Proof) (extData : ExtData Nat) : Int :=
  (((tableWithdrawal proof extData).2.ownTransfers.drop
    (runs tableHost tableWorld [tableDeposit]).ownTransfers.length).map
      (Interaction.flow tableHost tableConfig.token tableHost.this)).sum

/-- A verifier that accepts them lets `200` go while the liabilities fall by
`150`, and lets the liabilities fall by `120` while nothing goes. -/
theorem booked_differs_from_moved :
    (runs tableHost tableWorld [tableDeposit]).storage.liabilities.val = 150 ∧
    ((tableWithdrawal overdrawnProof overdrawnExt).1 = .ok () ∧ overdrawnExt.extAmount.val = -200 ∧
      gainedBy overdrawnProof overdrawnExt = -200 ∧
      (tableWithdrawal overdrawnProof overdrawnExt).2.storage.liabilities.val = 0) ∧
    (tableWithdrawal selfProof selfExt).1 = .ok () ∧ selfExt.extAmount.val = -120 ∧
      gainedBy selfProof selfExt = 0 ∧
      (tableWithdrawal selfProof selfExt).2.storage.liabilities.val = 30 :=
  ⟨by decide +kernel, ⟨by decide +kernel, rfl, by decide +kernel, by decide +kernel⟩,
    by decide +kernel, rfl, by decide +kernel, by decide +kernel⟩

end Pool

end PrivacyWallet
