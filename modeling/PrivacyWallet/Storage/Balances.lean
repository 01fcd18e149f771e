import PrivacyWallet.Storage.Portfolio

/-!
# Balances

`list_portfolio_balances` adds up the unspent notes of an address, pool by
pool. It fails only if the notes of a pool, enabled or not, are worth more than
an amount can be; otherwise the balance of an enabled pool is what
`list_unspent_user_notes` lists of it (`listPortfolioBalances_ok`). Taking a
balance removes it, so a pool that the configuration has twice is empty the
second time.

Two loops are followed by what they have made of the notes so far. The first
fills a map from pools to count and amount: `Totals` says that the map has, for
each pool, what the notes seen so far are worth there, one more note keeps it
(`Totals.addNote`), and it stops at an overflow and nowhere else
(`Totals.foldlM_some`, as a part of the notes is not worth more than all of
them). The second goes through the configuration and takes entries out of the
map; the induction generalizes over the pools that were seen before
(`takeBalances_balances`).
-/

namespace PrivacyWallet

namespace Storage

open Planner

variable {E : Type}

/-! ## The configuration -/

inductive AssetDescriptor where
  | native
  | classic (code issuer : String)
  | contract (contractId symbol : String)
deriving DecidableEq

/-- What is read of a `PoolConfigEntry`. -/
structure PoolConfigEntry where
  poolContractId : String
  tokenContractId : String
  enabled : Bool
  asset : AssetDescriptor
deriving DecidableEq

def PoolConfigEntry.tokenLabel (pool : PoolConfigEntry) : String :=
  match pool.asset with
  | .native => "XLM"
  | .classic code _ => code
  | .contract _ symbol => symbol

structure PortfolioBalance where
  poolContractId : String
  tokenContractId : String
  tokenLabel : String
  amount : NoteAmount
  noteCount : Nat
deriving DecidableEq

/-! ## Adding up -/

/-- The map from pools to the count and the amount of their notes. -/
abbrev Entries : Type := String → Option (Nat × NoteAmount)

def Entries.get (entries : Entries) (pool : String) : Nat × NoteAmount :=
  (entries pool).getD (0, .zero)

theorem Entries.get_eq {entries : Entries} {pool : String} {entry : Option (Nat × NoteAmount)}
    (h : entries pool = entry) : entries.get pool = entry.getD (0, .zero) := by
  rw [Entries.get, h]

/-- `saturating_add` of a `u32` -/
def saturatingSucc (n : Nat) : Nat := min (n + 1) (2 ^ 32 - 1)

def addNote (entries : Entries) (note : UserNoteSummary) : Option Entries := do
  let entry := entries.get note.poolContractId
  let amount ← entry.2.checkedAdd note.amount
  some fun pool =>
    if pool = note.poolContractId then some (saturatingSucc entry.1, amount) else entries pool

/-- `ORDER BY pool.address` -/
def byPool (notes : List UserNoteSummary) : List UserNoteSummary :=
  notes.mergeSort fun a b => decide (a.poolContractId ≤ b.poolContractId)

/-- Each pool takes its entry out of the map. -/
def takeBalances : List PoolConfigEntry → Entries → List PortfolioBalance
  | [], _ => []
  | pool :: pools, entries =>
      let entry := entries.get pool.poolContractId
      { poolContractId := pool.poolContractId
        tokenContractId := pool.tokenContractId
        tokenLabel := pool.tokenLabel
        amount := entry.2
        noteCount := entry.1 } ::
      takeBalances pools fun p => if p = pool.poolContractId then none else entries p

/-- `list_portfolio_balances` -/
def listPortfolioBalances (t : Tables E) (address : String) (pools : List PoolConfigEntry) :
    Option (List PortfolioBalance) := do
  let entries ← (byPool (unspentOf t address)).foldlM addNote fun _ => none
  some (takeBalances (pools.filter PoolConfigEntry.enabled) entries)

/-! ## Totals -/

def inPool (pool : String) (notes : List UserNoteSummary) : List UserNoteSummary :=
  notes.filter fun note => note.poolContractId = pool

/-- What notes are worth. -/
def total (notes : List UserNoteSummary) : Nat := (notes.map fun note => note.amount.val).sum

/-- The map after the notes. -/
def Totals (notes : List UserNoteSummary) (entries : Entries) : Prop :=
  ∀ pool, (entries.get pool).1 = min (inPool pool notes).length (2 ^ 32 - 1) ∧
    (entries.get pool).2.val = total (inPool pool notes)

theorem total_append (notes notes' : List UserNoteSummary) :
    total (notes ++ notes') = total notes + total notes' := by
  rw [total, List.map_append, List.sum_append]
  rfl

theorem inPool_append (pool : String) (notes notes' : List UserNoteSummary) :
    inPool pool (notes ++ notes') = inPool pool notes ++ inPool pool notes' :=
  List.filter_append ..

theorem total_perm {notes notes' : List UserNoteSummary} (h : notes.Perm notes') :
    total notes = total notes' :=
  (h.map _).sum_nat

theorem totals_nil : Totals [] fun _ => none := fun _ => ⟨rfl, rfl⟩

variable {notes rest : List UserNoteSummary} {note : UserNoteSummary} {entries entries' : Entries}

/-- A note goes to its pool. -/
theorem Totals.addNote (h : Totals notes entries) (hadd : addNote entries note = some entries') :
    Totals (notes ++ [note]) entries' := by
  obtain ⟨amount, hamount, hentries⟩ := Option.bind_eq_some_iff.mp hadd
  cases hentries
  rw [NoteAmount.checkedAdd_eq_some] at hamount
  intro pool
  obtain ⟨hcount, hworth⟩ := h pool
  rw [inPool_append, List.length_append, total_append]
  by_cases hpool : note.poolContractId = pool
  · subst hpool
    have hone : inPool note.poolContractId [note] = [note] := by simp [inPool]
    simp only [Entries.get, if_true, Option.getD_some] at hcount hworth hamount ⊢
    rw [hone, hcount, hamount, hworth]
    refine ⟨?_, rfl⟩
    rw [saturatingSucc, List.length_singleton]
    omega
  · have hnone : inPool pool [note] = [] := by simp [inPool, hpool]
    simp only [Entries.get, if_neg (Ne.symm hpool)] at hcount hworth ⊢
    rw [hnone]
    exact ⟨hcount, hworth⟩

theorem Totals.addNote_some (h : Totals notes entries)
    (hfit : total (inPool note.poolContractId (notes ++ [note])) < 2 ^ 128) :
    ∃ entries', Storage.addNote entries note = some entries' := by
  have hone : inPool note.poolContractId [note] = [note] := by simp [inPool]
  rw [inPool_append, total_append, hone, ← (h note.poolContractId).2] at hfit
  cases hadd : (entries.get note.poolContractId).2.checkedAdd note.amount with
  | none =>
      have hfull := NoteAmount.checkedAdd_eq_none.mp hadd
      have hnote : total [note] = note.amount.val := Nat.add_zero _
      omega
  | some amount => exact ⟨_, Option.bind_eq_some_iff.mpr ⟨amount, hadd, rfl⟩⟩

theorem Totals.foldlM (h : Totals notes entries)
    (hrun : rest.foldlM Storage.addNote entries = some entries') :
    Totals (notes ++ rest) entries' := by
  induction rest generalizing notes entries with
  | nil =>
      cases hrun
      rwa [List.append_nil]
  | cons note rest ih =>
      rw [List.foldlM_cons] at hrun
      obtain ⟨entries₁, hadd, hrest⟩ := Option.bind_eq_some_iff.mp hrun
      have hall := ih (h.addNote hadd) hrest
      rwa [List.append_assoc, List.singleton_append] at hall

/-- A part of the notes is not worth more. -/
theorem total_inPool_le (pool : String) (notes rest : List UserNoteSummary) :
    total (inPool pool notes) ≤ total (inPool pool (notes ++ rest)) := by
  rw [inPool_append, total_append]
  exact Nat.le_add_right _ _

theorem Totals.foldlM_some (h : Totals notes entries)
    (hfit : ∀ pool, total (inPool pool (notes ++ rest)) < 2 ^ 128) :
    ∃ entries', rest.foldlM Storage.addNote entries = some entries' := by
  induction rest generalizing notes entries with
  | nil => exact ⟨_, rfl⟩
  | cons note rest ih =>
      rw [← List.singleton_append, ← List.append_assoc] at hfit
      obtain ⟨entries₁, hadd⟩ := h.addNote_some ((total_inPool_le _ _ _).trans_lt (hfit _))
      obtain ⟨entries', hrest⟩ := ih (h.addNote hadd) hfit
      refine ⟨entries', ?_⟩
      rw [List.foldlM_cons]
      exact Option.bind_eq_some_iff.mpr ⟨_, hadd, hrest⟩

/-! ## Balances -/

/-- The balance of a pool is what is listed of it. -/
structure BalanceOf (t : Tables E) (address : String) (pool : PoolConfigEntry)
    (balance : PortfolioBalance) : Prop where
  noteCount : balance.noteCount
    = min (listUnspentUserNotes t pool.poolContractId address).length (2 ^ 32 - 1)
  amount : balance.amount.val = total (listUnspentUserNotes t pool.poolContractId address)

/-- The balances of the pools in order, of a pool that has been seen nothing. -/
inductive Balances (t : Tables E) (address : String) :
    List String → List PoolConfigEntry → List PortfolioBalance → Prop where
  | nil {seen} : Balances t address seen [] []
  | cons {seen pool pools balance balances}
      (poolContractId : balance.poolContractId = pool.poolContractId)
      (tokenContractId : balance.tokenContractId = pool.tokenContractId)
      (tokenLabel : balance.tokenLabel = pool.tokenLabel)
      (first : pool.poolContractId ∉ seen → BalanceOf t address pool balance)
      (again : pool.poolContractId ∈ seen → balance.amount = .zero ∧ balance.noteCount = 0)
      (rest : Balances t address (pool.poolContractId :: seen) pools balances) :
      Balances t address seen (pool :: pools) (balance :: balances)

theorem takeBalances_balances {t : Tables E} {address : String} {entries₀ : Entries}
    (h : Totals (byPool (unspentOf t address)) entries₀) : ∀ (pools : List PoolConfigEntry)
      (seen : List String) (entries : Entries), (∀ pool ∉ seen, entries pool = entries₀ pool) →
        (∀ pool ∈ seen, entries pool = none) →
          Balances t address seen pools (takeBalances pools entries)
  | [], _, _, _, _ => .nil
  | pool :: pools, seen, entries, hnew, hseen => by
      refine .cons rfl rfl rfl (fun hfirst => ?_) (fun hagain => ?_) ?_
      · obtain ⟨hcount, hworth⟩ := h pool.poolContractId
        have hperm : (inPool pool.poolContractId (byPool (unspentOf t address))).Perm
            (listUnspentUserNotes t pool.poolContractId address) :=
          ((List.mergeSort_perm ..).filter _).trans (List.mergeSort_perm ..).symm
        rw [hperm.length_eq] at hcount
        rw [total_perm hperm] at hworth
        have hentry : entries.get pool.poolContractId = entries₀.get pool.poolContractId :=
          Entries.get_eq (hnew _ hfirst)
        exact ⟨(congrArg Prod.fst hentry).trans hcount,
          (congrArg (fun entry => entry.2.val) hentry).trans hworth⟩
      · have hentry : entries.get pool.poolContractId = (0, .zero) :=
          Entries.get_eq (hseen _ hagain)
        exact ⟨congrArg Prod.snd hentry, congrArg Prod.fst hentry⟩
      · refine takeBalances_balances h pools _ _ (fun p hp => ?_) (fun p hp => ?_)
        · rw [List.mem_cons, not_or] at hp
          rw [if_neg hp.1]
          exact hnew p hp.2
        · rcases List.mem_cons.mp hp with rfl | hold
          · exact if_pos rfl
          · split
            · rfl
            · exact hseen p hold

/-- The balances are there exactly if the notes of every pool can be added up,
and then they are the sums of what is listed.

The sums per pool are those of the list in any order, as sorting and grouping
permute it (`total_perm`), and the additions succeed exactly where they fit. -/
theorem listPortfolioBalances_ok (t : Tables E) (address : String) (pools : List PoolConfigEntry) :
    ((∃ balances, listPortfolioBalances t address pools = some balances) ↔
        ∀ pool, total (listUnspentUserNotes t pool address) < 2 ^ 128) ∧
      ∀ balances, listPortfolioBalances t address pools = some balances →
        Balances t address [] (pools.filter PoolConfigEntry.enabled) balances := by
  have hlisted (pool : String) : total (inPool pool (byPool (unspentOf t address)))
      = total (listUnspentUserNotes t pool address) :=
    total_perm (((List.mergeSort_perm ..).filter _).trans (List.mergeSort_perm ..).symm)
  have htotals {entries : Entries}
      (hrun : (byPool (unspentOf t address)).foldlM addNote (fun _ => none) = some entries) :
      Totals (byPool (unspentOf t address)) entries := totals_nil.foldlM hrun
  refine ⟨⟨?_, fun hfit => ?_⟩, ?_⟩
  · rintro ⟨balances, hrun⟩ pool
    obtain ⟨entries, hfold, -⟩ := Option.bind_eq_some_iff.mp hrun
    rw [← hlisted, ← (htotals hfold pool).2]
    exact (entries.get pool).2.lt
  · obtain ⟨entries, hfold⟩ :
        ∃ entries, (byPool (unspentOf t address)).foldlM addNote (fun _ => none) = some entries :=
      totals_nil.foldlM_some fun pool => by
        rw [List.nil_append, hlisted]
        exact hfit pool
    exact ⟨_, Option.bind_eq_some_iff.mpr ⟨entries, hfold, rfl⟩⟩
  · intro balances hrun
    obtain ⟨entries, hfold, heq⟩ := Option.bind_eq_some_iff.mp hrun
    cases heq
    exact takeBalances_balances (htotals hfold) _ _ _ (fun _ _ => rfl) nofun

end Storage

end PrivacyWallet
