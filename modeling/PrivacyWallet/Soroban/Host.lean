import PrivacyWallet.Soroban.Words
import Mathlib.Algebra.Order.BigOperators.Group.List

/-!
# Tokens and calls to other contracts

What a contract can rely on when it calls out. A token contract keeps
balances that only move by transfers (`Token`, its laws are those of the
token interface). Any other contract is adversarial: its call ends in a
value, in an error or in a trap, and while it runs it may move tokens of
its own choice. What it cannot do is debit the calling contract beyond
the transfers that one authorized beforehand (`runTransfers`).
-/

namespace PrivacyWallet

variable {A L : Type}

/-- How a call to another contract ends. -/
inductive Outcome (α : Type) where
  | value (a : α)
  | error
  | trap
deriving DecidableEq, Repr

/-- A call `transfer(src, dst, amount)` of the token at `contract`. -/
structure Transfer (A : Type) where
  contract : A
  src : A
  dst : A
  amount : I128
deriving DecidableEq

/-- How much a transfer changes the balance of `a` at the token `c`. -/
def Transfer.delta [DecidableEq A] (t : Transfer A) (c a : A) : Int :=
  if c = t.contract then
    (if a = t.dst then t.amount.val else 0) - (if a = t.src then t.amount.val else 0)
  else 0

/-- The token contracts, over a ledger `L`. A transfer may fail for any
reason; one that succeeds moves a non-negative amount that was there, and
nothing else. -/
structure Token (A L : Type) [DecidableEq A] where
  balance : A → A → L → I128
  transfer : Transfer A → L → Option L
  balance_nonneg : ∀ c a l, 0 ≤ (balance c a l).val
  transfer_nonneg : ∀ {t l l'}, transfer t l = some l' → 0 ≤ t.amount.val
  balance_transfer : ∀ {t l l'}, transfer t l = some l' → ∀ c a,
    (balance c a l').val = (balance c a l).val + t.delta c a

namespace Token

variable [DecidableEq A] (tok : Token A L)

/-- The part of a called contract's transfers that takes effect. `auth`
lists what the caller `this` authorized: each entry covers one transfer. -/
def runTransfers (this : A) : List (Transfer A) → List (Transfer A) → L → L
  | _, [], l => l
  | auth, t :: ts, l =>
      if t.src = this ∧ t ∉ auth then runTransfers this auth ts l
      else
        match tok.transfer t l with
        | some l' => runTransfers this (auth.erase t) ts l'
        | none => runTransfers this auth ts l

variable {tok}

/-- A transfer from someone else never lowers a balance. -/
theorem delta_nonneg_of_src_ne {t : Transfer A} {c a : A} (h : t.src ≠ a)
    (ht : 0 ≤ t.amount.val) : 0 ≤ t.delta c a := by
  unfold Transfer.delta
  rw [if_neg h.symm]
  split_ifs <;> omega

theorem delta_ge_neg_amount {t : Transfer A} {c a : A} (ht : 0 ≤ t.amount.val) :
    -t.amount.val ≤ t.delta c a := by
  unfold Transfer.delta
  split_ifs <;> omega

/-- The most an authorization list lets a called contract take. -/
def authorized (auth : List (Transfer A)) : Int :=
  (auth.map fun t => max 0 t.amount.val).sum

omit [DecidableEq A] in
theorem authorized_nonneg (auth : List (Transfer A)) : 0 ≤ authorized auth := by
  refine List.sum_nonneg fun x hx => ?_
  obtain ⟨t, -, rfl⟩ := List.mem_map.mp hx
  exact le_max_left _ _

theorem authorized_erase {auth : List (Transfer A)} {t : Transfer A}
    (h : t ∈ auth) :
    authorized auth = max 0 t.amount.val + authorized (auth.erase t) := by
  have hperm := (List.perm_cons_erase h).map fun t => max 0 t.amount.val
  exact hperm.sum_eq

/-- A called contract takes at most what was authorized. -/
theorem balance_runTransfers (this c : A) :
    ∀ (ts auth : List (Transfer A)) (l : L),
      (tok.balance c this l).val - authorized auth
        ≤ (tok.balance c this (tok.runTransfers this auth ts l)).val
  | [], auth, l => by
      have := authorized_nonneg auth
      simp only [runTransfers]
      omega
  | t :: ts, auth, l => by
      rw [runTransfers]
      split
      · exact balance_runTransfers this c ts auth l
      · rename_i hauth
        split
        · rename_i l' hl'
          have hrec := balance_runTransfers this c ts (auth.erase t) l'
          have hbal := tok.balance_transfer hl' c this
          have hnn := tok.transfer_nonneg hl'
          by_cases hsrc : t.src = this
          · -- a debit of the caller uses up its entry
            have hmem : t ∈ auth := by
              by_contra hmem
              exact hauth ⟨hsrc, hmem⟩
            have hsum := authorized_erase hmem
            have hge := delta_ge_neg_amount (c := c) (a := this) hnn
            omega
          · have hge := delta_nonneg_of_src_ne (c := c) hsrc hnn
            have hsum : authorized (auth.erase t) ≤ authorized auth := by
              by_cases hmem : t ∈ auth
              · have := authorized_erase hmem
                omega
              · rw [List.erase_of_not_mem hmem]
            omega
        · exact balance_runTransfers this c ts auth l

/-- Who neither sends nor receives keeps its balances. -/
theorem balance_runTransfers_of_not_named (this c a : A) :
    ∀ {ts : List (Transfer A)}, (∀ t ∈ ts, t.src ≠ a ∧ t.dst ≠ a) →
      ∀ (auth : List (Transfer A)) (l : L),
        (tok.balance c a (tok.runTransfers this auth ts l)).val = (tok.balance c a l).val
  | [], _, _, _ => rfl
  | t :: ts, hts, auth, l => by
      have hrest := fun t ht => hts t (List.mem_cons_of_mem _ ht)
      rw [runTransfers]
      split
      · exact balance_runTransfers_of_not_named this c a hrest auth l
      · split
        · rename_i l' hl'
          obtain ⟨hsrc, hdst⟩ := hts t List.mem_cons_self
          have hdelta : t.delta c a = 0 := by
            rw [Transfer.delta, if_neg (Ne.symm hsrc), if_neg (Ne.symm hdst)]
            simp
          rw [balance_runTransfers_of_not_named this c a hrest, tok.balance_transfer hl',
            hdelta, Int.add_zero]
        · exact balance_runTransfers_of_not_named this c a hrest auth l

/-- One transfer of the called contract's own. -/
theorem runTransfers_single {this : A} {t : Transfer A} {l l' : L} (hsrc : t.src ≠ this)
    (ht : tok.transfer t l = some l') (auth : List (Transfer A)) :
    tok.runTransfers this auth [t] l = l' := by
  rw [runTransfers, if_neg fun hc => hsrc hc.1, ht]
  rfl

/-! ## A token contract -/

/-- The balance of a table entry, which a table holds as a number. -/
def tableBalance (n : Nat) : I128 :=
  if h : n < 2 ^ 127 then ⟨n, by omega, by norm_num; omega⟩ else 0

theorem tableBalance_val {n : Nat} (hn : n < 2 ^ 127) : (tableBalance n).val = n := by
  rw [tableBalance, dif_pos hn]

theorem tableBalance_nonneg (n : Nat) : 0 ≤ (tableBalance n).val := by
  rw [tableBalance]
  split
  · exact Int.natCast_nonneg n
  · exact le_refl 0

/-- The table after a transfer. -/
def tableMove (t : Transfer A) (l : A → A → Nat) : A → A → Nat :=
  let n := t.amount.val.toNat
  let debited := Function.update (l t.contract) t.src (l t.contract t.src - n)
  Function.update l t.contract (Function.update debited t.dst (debited t.dst + n))

/-- A covered transfer moves the balances of its token by `delta`. -/
theorem tableMove_balance {t : Transfer A} {l : A → A → Nat} (hnn : 0 ≤ t.amount.val)
    (hle : t.amount.val ≤ l t.contract t.src) (hsrc : l t.contract t.src < 2 ^ 127)
    (hdst : l t.contract t.dst < 2 ^ 127)
    (hnew : tableMove t l t.contract t.dst < 2 ^ 127) (a : A) :
    (tableBalance (tableMove t l t.contract a)).val
      = (tableBalance (l t.contract a)).val + t.delta t.contract a := by
  rw [Transfer.delta, if_pos rfl]
  have hn : ((t.amount.val.toNat : Nat) : Int) = t.amount.val := Int.toNat_of_nonneg hnn
  simp only [tableMove, Function.update_self] at hnew ⊢
  by_cases had : a = t.dst
  · subst had
    rw [Function.update_self, if_pos rfl]
    by_cases hds : t.dst = t.src
    · rw [hds, Function.update_self, if_pos rfl,
        show l t.contract t.src - t.amount.val.toNat + t.amount.val.toNat
          = l t.contract t.src by omega]
      omega
    · rw [Function.update_of_ne hds, if_neg hds] at *
      rw [tableBalance_val hnew, tableBalance_val hdst]
      omega
  · rw [Function.update_of_ne had, if_neg had]
    by_cases has : a = t.src
    · subst has
      rw [Function.update_self, if_pos rfl, tableBalance_val hsrc,
        tableBalance_val (by omega)]
      omega
    · rw [Function.update_of_ne has, if_neg has]
      omega

/-- The entries of the token after a transfer. -/
theorem tableMove_entry (t : Transfer A) (l : A → A → Nat) (a : A) :
    tableMove t l t.contract a
      = if a = t.dst then
          (if t.dst = t.src then l t.contract t.src - t.amount.val.toNat
            else l t.contract t.dst) + t.amount.val.toNat
        else if a = t.src then l t.contract t.src - t.amount.val.toNat
        else l t.contract a := by
  simp only [tableMove, Function.update_self, Function.update_apply]

/-- A token contract that keeps its balances in a table and refuses a
transfer that is negative, not covered, or too large for the recipient. -/
def table (A : Type) [DecidableEq A] : Token A (A → A → Nat) where
  balance c a l := tableBalance (l c a)
  transfer t l :=
    if 0 ≤ t.amount.val ∧ t.amount.val ≤ l t.contract t.src ∧
        l t.contract t.src < 2 ^ 127 ∧ l t.contract t.dst < 2 ^ 127 ∧
        tableMove t l t.contract t.dst < 2 ^ 127 then
      some (tableMove t l)
    else none
  balance_nonneg c a l := by
    unfold tableBalance
    split
    · exact Int.natCast_nonneg _
    · exact le_refl _
  transfer_nonneg := by
    intro t l l' h
    split at h
    · rename_i hc
      exact hc.1
    · cases h
  balance_transfer := by
    intro t l l' h c a
    split at h
    · rename_i hc
      obtain ⟨hnn, hle, hsrc, hdst, hnew⟩ := hc
      cases h
      by_cases hcc : c = t.contract
      · subst hcc
        exact tableMove_balance hnn hle hsrc hdst hnew a
      · rw [Transfer.delta, if_neg hcc, tableMove, Function.update_of_ne hcc,
          Int.add_zero]
    · cases h

/-- When a table moves a transfer, and what it becomes. -/
theorem table_transfer_eq_some {t : Transfer A} {l l' : A → A → Nat} :
    (table A).transfer t l = some l' ↔
      (0 ≤ t.amount.val ∧ t.amount.val ≤ l t.contract t.src ∧
        l t.contract t.src < 2 ^ 127 ∧ l t.contract t.dst < 2 ^ 127 ∧
        tableMove t l t.contract t.dst < 2 ^ 127) ∧ tableMove t l = l' := by
  unfold table
  dsimp only
  split
  · rename_i hc
    rw [Option.some.injEq]
    exact ⟨fun heq => ⟨hc, heq⟩, fun heq => heq.2⟩
  · rename_i hc
    exact ⟨(fun hnone => by cases hnone), fun heq => absurd heq.1 hc⟩

end Token

end PrivacyWallet
