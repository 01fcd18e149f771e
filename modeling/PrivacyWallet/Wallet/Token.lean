import PrivacyWallet.Wallet.CtState

/-!
# What the token documents

The client's comments and the circuits say what the contract does with the
balances of an account: commitments are added point by point, an operation of
the owner replaces the spendable one, and it is accepted with a proof of its
circuit over the contract's own state. Under these rules the openings that the
chain replays to are openings of the account's commitments
(`TokenContract.Documented.opens`).
-/

namespace PrivacyWallet

namespace Wallet

open Indexer

variable {Point : Type} [AddCommGroup Point]

/-! ## The rules -/

/-- What a call does to the balances of an account. -/
def OnChainAccount.after (c : CtCrypto Point) (me : String) (acc : OnChainAccount Point) :
    TokenCall Point → OnChainAccount Point
  | .deposit _ dst amount =>
      if dst = me then { acc with receivingBalance := acc.receivingBalance + commit c amount 0 }
      else acc
  | .merge account =>
      if account = me then
        { acc with
          spendableBalance := acc.spendableBalance + acc.receivingBalance
          receivingBalance := 0 }
      else acc
  | .withdraw src _ _ payload =>
      if src = me then { acc with spendableBalance := payload.cSpendNew } else acc
  | .transfer src dst payload =>
      let acc := if src = me then { acc with spendableBalance := payload.cSpendNew } else acc
      if dst = me then { acc with receivingBalance := acc.receivingBalance + payload.cTx } else acc
  | .register _ _ _ _ => acc
  | .compliance _ _ => acc

/-- Does the call register the account, or change its balances? -/
def TokenCall.Concerns (me : String) : TokenCall Point → Prop
  | .register account _ _ _ => account = me
  | .deposit _ dst _ => dst = me
  | .merge account => account = me
  | .withdraw src _ _ _ => src = me
  | .transfer src dst _ => src = me ∨ dst = me
  | .compliance _ _ => False

instance (me : String) : (call : TokenCall Point) → Decidable (call.Concerns me)
  | .register account _ _ _ => inferInstanceAs (Decidable (account = me))
  | .deposit _ dst _ => inferInstanceAs (Decidable (dst = me))
  | .merge account => inferInstanceAs (Decidable (account = me))
  | .withdraw src _ _ _ => inferInstanceAs (Decidable (src = me))
  | .transfer src dst _ => inferInstanceAs (Decidable (src = me ∨ dst = me))
  | .compliance _ _ => inferInstanceAs (Decidable False)

/-- The public inputs of a withdrawal's proof. -/
structure WithdrawInputs.Publishes (i : WithdrawInputs Point) (addrF : Nat)
    (acc : OnChainAccount Point) (payload : WithdrawPayload Point) : Prop where
  y : i.y = acc.spendingKey
  addrF : i.addrF = addrF
  cSpend : i.cSpend = acc.spendableBalance
  cSpendNew : i.cSpendNew = payload.cSpendNew
  bTilde : i.bTilde = payload.bTilde
  sigma : i.sigma = payload.sigma

/-- The public inputs of a transfer's proof. -/
structure TransferInputs.Publishes (i : TransferInputs Point) (addrF : Nat)
    (sender recipient : OnChainAccount Point) (payload : TransferPayload Point) : Prop where
  y : i.y = sender.spendingKey
  addrF : i.addrF = addrF
  cSpend : i.cSpend = sender.spendableBalance
  pvkB : i.pvkB = recipient.viewingPublicKey
  cSpendNew : i.cSpendNew = payload.cSpendNew
  cTx : i.cTx = payload.cTx
  rEPoint : i.rEPoint = payload.rE
  vTilde : i.vTilde = payload.vTilde
  bTilde : i.bTilde = payload.bTilde
  sigma : i.sigma = payload.sigma

/-- The documented behaviour of the contract. -/
structure TokenContract.Documented [DecidableEq Point] (token : TokenContract Point)
    (c : CtCrypto Point) (addrF : Nat) : Prop where
  empty : ∀ me, token.account [] me = none
  /-- an account registers once, with both balances zero -/
  register : ∀ chain tx me auditorId y pvk, token.accepts chain tx = true →
    tx.call = .register me auditorId y pvk →
    token.account chain me = none ∧
      token.account (chain ++ [tx]) me = some ⟨y, pvk, 0, 0, auditorId⟩
  /-- before, no call is accepted that would change them -/
  unregistered : ∀ chain tx me, token.accepts chain tx = true → token.account chain me = none →
    (∀ auditorId y pvk, tx.call ≠ .register me auditorId y pvk) →
    token.account (chain ++ [tx]) me = none ∧ ¬ tx.call.Concerns me
  registered : ∀ chain tx me acc, token.accepts chain tx = true →
    token.account chain me = some acc →
    token.account (chain ++ [tx]) me = some (acc.after c me tx.call)
  /-- a withdrawal is accepted with a proof -/
  withdraw : ∀ chain tx src dst amount payload, token.accepts chain tx = true →
    tx.call = .withdraw src dst amount payload →
    ∃ acc, token.account chain src = some acc ∧
      ∃ i : WithdrawInputs Point, i.main c = true ∧ i.Publishes addrF acc payload
  /-- and so is a transfer, to a registered account -/
  transfer : ∀ chain tx src dst payload, token.accepts chain tx = true →
    tx.call = .transfer src dst payload →
    ∃ sender recipient, token.account chain src = some sender ∧
      token.account chain dst = some recipient ∧
      ∃ i : TransferInputs Point, i.main c = true ∧ i.Publishes addrF sender recipient payload

/-! ## Replaying the chain -/

variable [DecidableEq Point]

/-- Apply the events of the calls. -/
def CtRail.apply (rail : CtRail Point) (state : AccountState) (txs : List (Landed Point)) :
    Except String AccountState :=
  (txs.map Landed.event).foldlM (applyEvent rail) state

/-- The state that a first sync of these calls arrives at. -/
def CtRail.replay (rail : CtRail Point) (chain : List (Landed Point)) :
    Except String AccountState :=
  rail.apply (freshState rail.address) chain

/-- A registration of the account carries the rail's keys. -/
def CtRail.Registers (rail : CtRail Point) : TokenCall Point → Prop
  | .register account _ y pvk =>
      account = rail.address → y = rail.keys.Y ∧ pvk = rail.keys.PVK
  | _ => True

/-- The call may come next: the token accepts it, and nobody else registers
the account. -/
def CtRail.Next (rail : CtRail Point) (before : List (Landed Point)) (tx : Landed Point) : Prop :=
  rail.token.accepts before tx = true ∧ rail.Registers tx.call

variable {rail : CtRail Point}

theorem CtRail.apply_append (state : AccountState) (l m : List (Landed Point)) :
    rail.apply state (l ++ m) = rail.apply state l >>= fun mid => rail.apply mid m := by
  simp only [CtRail.apply, List.map_append, List.foldlM_append]

theorem applyEvent_ok {state state' : AccountState} {tx : Landed Point}
    (h : applyEvent rail state tx.event = .ok state') :
    ∃ mid, applyBody rail state tx.call.body = .ok mid ∧
      state' = { mid with syncedLedger := max mid.syncedLedger tx.ledger } := by
  obtain ⟨mid, hmid, hstate'⟩ := Checks.bind_ok.mp h
  cases hstate'
  exact ⟨mid, hmid, rfl⟩

theorem CtRail.apply_snoc {state state' : AccountState} {l : List (Landed Point)}
    {tx : Landed Point} (h : rail.apply state (l ++ [tx]) = .ok state') :
    ∃ mid, rail.apply state l = .ok mid ∧ applyEvent rail mid tx.event = .ok state' := by
  rw [CtRail.apply_append] at h
  obtain ⟨mid, hmid, hlast⟩ := Checks.bind_ok.mp h
  obtain ⟨last, hlast, hstate'⟩ := Checks.bind_ok.mp hlast
  cases hstate'
  exact ⟨mid, hmid, hlast⟩

/-- What a transfer does to the openings: the sender's are replaced, the
recipient's grow by what it decrypts. -/
theorem applyBody_transfer_ok {state state' : AccountState} {src dst : String}
    {payload : TransferPayload Point} :
    applyBody rail state (TokenCall.transfer src dst payload).body = .ok state' ↔
      ∃ received : Opening,
        (dst = state.address → decryptIncoming rail.crypto rail.keys.vk payload.rE payload.vTilde
          payload.sigma = .ok received) ∧
        state' = { state with
          spendable := if src = state.address then
              openSpendable rail.crypto rail.keys.vk payload.bTilde payload.sigma
            else state.spendable
          receiving := if dst = state.address then
              ⟨state.receiving.v + received.v, fpAdd state.receiving.r received.r⟩
            else state.receiving } := by
  have hsent : (if src = state.address then
        { state with
          spendable := openSpendable rail.crypto rail.keys.vk payload.bTilde payload.sigma }
      else state) = { state with
        spendable := if src = state.address then
            openSpendable rail.crypto rail.keys.vk payload.bTilde payload.sigma
          else state.spendable } := by
    split <;> rfl
  simp only [TokenCall.body, applyBody, hsent]
  by_cases hdst : dst = state.address
  · simp only [if_pos hdst]
    constructor
    · intro h
      obtain ⟨received, hreceived, hstate'⟩ := Checks.bind_ok.mp h
      cases hstate'
      exact ⟨received, fun _ => hreceived, rfl⟩
    · rintro ⟨received, hreceived, rfl⟩
      exact Checks.bind_ok.mpr ⟨received, hreceived hdst, rfl⟩
  · simp only [if_neg hdst]
    constructor
    · intro h
      cases h
      exact ⟨⟨0, 0⟩, fun hdst' => absurd hdst' hdst, rfl⟩
    · rintro ⟨received, -, rfl⟩
      rfl

theorem applyBody_address {state state' : AccountState} {call : TokenCall Point}
    (h : applyBody rail state call.body = .ok state') : state'.address = state.address := by
  cases call with
  | register account auditorId y pvk =>
      cases h
      split <;> rfl
  | deposit src dst amount =>
      cases h
      split <;> rfl
  | merge account =>
      cases h
      split <;> rfl
  | withdraw src dst amount payload =>
      cases h
      split <;> rfl
  | compliance type account =>
      cases h
      rfl
  | transfer src dst payload =>
      obtain ⟨received, -, rfl⟩ := applyBody_transfer_ok.mp h
      rfl

/-! ## The openings of an account -/

/-- The state opens the account's commitments. -/
structure OnChainAccount.OpenedBy (acc : OnChainAccount Point) (c : CtCrypto Point)
    (state : AccountState) : Prop where
  spendable : commit c state.spendable.v state.spendable.r = acc.spendableBalance
  receiving : commit c state.receiving.v state.receiving.r = acc.receivingBalance

omit [DecidableEq Point] in
theorem commit_deposit {c : CtCrypto Point} (v amount : Int) (r : Nat) :
    commit c (v + amount) r = commit c v r + commit c amount 0 := by
  rw [commit_eq, commit_eq, commit_eq, Nat.cast_zero, zero_zsmul, add_zsmul]
  abel

omit [DecidableEq Point] in
theorem OnChainAccount.after_transfer (c : CtCrypto Point) (me : String)
    (acc : OnChainAccount Point) (src dst : String) (payload : TransferPayload Point) :
    acc.after c me (.transfer src dst payload) = { acc with
      spendableBalance := if src = me then payload.cSpendNew else acc.spendableBalance
      receivingBalance := if dst = me then acc.receivingBalance + payload.cTx
        else acc.receivingBalance } := by
  simp only [OnChainAccount.after]
  split <;> split <;> rfl

/-- One event, for a registered account. A deposit and a merge are additions of
commitments; for a withdrawal and a transfer it is the circuit that says what
the new commitment opens to, and the keys of the account that make the engine
compute that opening. -/
theorem OnChainAccount.OpenedBy.step {acc : OnChainAccount Point} {state state' : AccountState}
    {chain : List (Landed Point)} {tx : Landed Point}
    (hdoc : rail.token.Documented rail.crypto rail.addrF)
    (haccepts : rail.token.accepts chain tx = true)
    (hacc : rail.token.account chain rail.address = some acc)
    (hY : acc.spendingKey = rail.keys.Y) (hPVK : acc.viewingPublicKey = rail.keys.PVK)
    (haddr : state.address = rail.address) (hopen : acc.OpenedBy rail.crypto state)
    (h : applyBody rail state tx.call.body = .ok state') :
    (acc.after rail.crypto rail.address tx.call).OpenedBy rail.crypto state' := by
  cases hcall : tx.call with
  | register account auditorId y pvk =>
      rw [hcall] at h
      cases h
      split
      · exact ⟨hopen.spendable, hopen.receiving⟩
      · exact hopen
  | compliance type account =>
      rw [hcall] at h
      cases h
      exact hopen
  | deposit src dst amount =>
      rw [hcall] at h
      cases h
      rw [haddr, OnChainAccount.after]
      split
      · refine ⟨hopen.spendable, ?_⟩
        rw [commit_deposit, hopen.receiving]
      · exact hopen
  | merge account =>
      rw [hcall] at h
      cases h
      rw [haddr, OnChainAccount.after]
      split
      · refine ⟨?_, commit_zero⟩
        rw [commit_add, hopen.spendable, hopen.receiving]
      · exact hopen
  | withdraw src dst amount payload =>
      obtain ⟨sender, hsender, i, hmain, hpublic⟩ := hdoc.withdraw _ _ _ _ _ _ haccepts hcall
      rw [hcall] at h
      cases h
      rw [haddr, OnChainAccount.after]
      split
      next hsrc =>
        rw [hsrc, hacc, Option.some.injEq] at hsender
        have hopens := WithdrawInputs.opens hmain rail.sk_lt (hpublic.y.trans (hsender ▸ hY))
          hpublic.addrF
        rw [hpublic.bTilde, hpublic.sigma, hpublic.cSpendNew] at hopens
        exact ⟨hopens, hopen.receiving⟩
      next => exact hopen
  | transfer src dst payload =>
      obtain ⟨sender, recipient, hsender, hrecipient, i, hmain, hpublic⟩ :=
        hdoc.transfer _ _ _ _ _ haccepts hcall
      rw [hcall] at h
      obtain ⟨received, hreceived, rfl⟩ := applyBody_transfer_ok.mp h
      rw [haddr] at hreceived
      rw [OnChainAccount.after_transfer]
      simp only [haddr]
      constructor
      · dsimp only
        split
        next hsrc =>
          rw [hsrc, hacc, Option.some.injEq] at hsender
          have hopens := TransferInputs.opens hmain rail.sk_lt (hpublic.y.trans (hsender ▸ hY))
            hpublic.addrF
          rw [hpublic.bTilde, hpublic.sigma, hpublic.cSpendNew] at hopens
          exact hopens
        next => exact hopen.spendable
      · dsimp only
        split
        next hdst =>
          rw [hdst, hacc, Option.some.injEq] at hrecipient
          have hdecrypted := hreceived hdst
          rw [← hpublic.rEPoint, ← hpublic.vTilde, ← hpublic.sigma] at hdecrypted
          have hdecrypts := TransferInputs.decrypts hmain
            (hpublic.pvkB.trans (hrecipient ▸ hPVK)) hdecrypted
          rw [commit_add, hopen.receiving, hdecrypts, hpublic.cTx]
        next => exact hopen.receiving

omit [DecidableEq Point] in
theorem OnChainAccount.after_keys (c : CtCrypto Point) (me : String) (acc : OnChainAccount Point)
    (call : TokenCall Point) :
    (acc.after c me call).spendingKey = acc.spendingKey ∧
      (acc.after c me call).viewingPublicKey = acc.viewingPublicKey := by
  cases call with
  | transfer src dst payload =>
      rw [OnChainAccount.after_transfer]
      exact ⟨rfl, rfl⟩
  | register account auditorId y pvk => exact ⟨rfl, rfl⟩
  | compliance type account => exact ⟨rfl, rfl⟩
  | deposit src dst amount =>
      rw [OnChainAccount.after]
      split <;> exact ⟨rfl, rfl⟩
  | merge account =>
      rw [OnChainAccount.after]
      split <;> exact ⟨rfl, rfl⟩
  | withdraw src dst amount payload =>
      rw [OnChainAccount.after]
      split <;> exact ⟨rfl, rfl⟩

/-- An event of others leaves the openings. -/
theorem applyBody_unconcerned {state state' : AccountState} {call : TokenCall Point}
    (hcall : (∃ auditorId y pvk, call = .register state.address auditorId y pvk) ∨
      ¬ call.Concerns state.address)
    (h : applyBody rail state call.body = .ok state') :
    state'.spendable = state.spendable ∧ state'.receiving = state.receiving := by
  cases call with
  | register account auditorId y pvk =>
      cases h
      split <;> exact ⟨rfl, rfl⟩
  | compliance type account =>
      cases h
      exact ⟨rfl, rfl⟩
  | deposit src dst amount =>
      have hdst : ¬ dst = state.address := by simpa [TokenCall.Concerns] using hcall
      cases h
      rw [if_neg hdst]
      exact ⟨rfl, rfl⟩
  | merge account =>
      have haccount : ¬ account = state.address := by simpa [TokenCall.Concerns] using hcall
      cases h
      rw [if_neg haccount]
      exact ⟨rfl, rfl⟩
  | withdraw src dst amount payload =>
      have hsrc : ¬ src = state.address := by simpa [TokenCall.Concerns] using hcall
      cases h
      rw [if_neg hsrc]
      exact ⟨rfl, rfl⟩
  | transfer src dst payload =>
      have hnot : ¬ src = state.address ∧ ¬ dst = state.address := by
        simpa [TokenCall.Concerns, not_or] using hcall
      obtain ⟨received, -, rfl⟩ := applyBody_transfer_ok.mp h
      rw [if_neg hnot.1, if_neg hnot.2]
      exact ⟨rfl, rfl⟩

theorem CtRail.apply_address {state state' : AccountState} {txs : List (Landed Point)}
    (h : rail.apply state txs = .ok state') : state'.address = state.address := by
  induction txs using List.reverseRecOn generalizing state' with
  | nil =>
      cases h
      rfl
  | append_singleton l tx ih =>
      obtain ⟨mid, hmid, hlast⟩ := CtRail.apply_snoc h
      obtain ⟨body, hbody, rfl⟩ := applyEvent_ok hlast
      exact (applyBody_address hbody).trans (ih hmid)

/-- The state opens what the contract answers of the account; before it is
registered, it is zero. -/
def CtRail.Opens (rail : CtRail Point) (account : Option (OnChainAccount Point))
    (state : AccountState) : Prop :=
  match account with
  | none => state.spendable = ⟨0, 0⟩ ∧ state.receiving = ⟨0, 0⟩
  | some acc =>
      acc.spendingKey = rail.keys.Y ∧ acc.viewingPublicKey = rail.keys.PVK ∧
        acc.OpenedBy rail.crypto state

/-- The chain replays to openings of the account. By induction on the chain:
for a registered account each event is a step of `OpenedBy.step`; the
registration starts from nothing; and before it no event concerns the account.
-/
theorem TokenContract.Documented.opens (hdoc : rail.token.Documented rail.crypto rail.addrF)
    {chain : List (Landed Point)} {full : AccountState} (hchain : Run.Along rail.Next chain)
    (h : rail.replay chain = .ok full) :
    rail.Opens (rail.token.account chain rail.address) full := by
  induction chain using List.reverseRecOn generalizing full with
  | nil =>
      cases h
      rw [hdoc.empty]
      exact ⟨rfl, rfl⟩
  | append_singleton chain tx ih =>
      obtain ⟨mid, hmid, hlast⟩ := CtRail.apply_snoc h
      obtain ⟨body, hbody, rfl⟩ := applyEvent_ok hlast
      have hopens := ih (hchain.of_prefix (List.prefix_append ..)) hmid
      obtain ⟨haccepts, hregisters⟩ := hchain chain tx (List.prefix_refl _)
      have haddr : mid.address = rail.address := CtRail.apply_address hmid
      cases hacc : rail.token.account chain rail.address with
      | some acc =>
          rw [hacc] at hopens
          obtain ⟨hY, hPVK, hopen⟩ := hopens
          have hstep := hopen.step hdoc haccepts hacc hY hPVK haddr hbody
          have hkeys := acc.after_keys rail.crypto rail.address tx.call
          rw [hdoc.registered _ _ _ _ haccepts hacc]
          exact ⟨hkeys.1.trans hY, hkeys.2.trans hPVK, hstep.spendable, hstep.receiving⟩
      | none =>
          rw [hacc] at hopens
          by_cases hcall : ∃ auditorId y pvk,
              tx.call = .register rail.address auditorId y pvk
          · have hsame := applyBody_unconcerned (Or.inl (haddr ▸ hcall)) hbody
            obtain ⟨auditorId, y, pvk, hcall⟩ := hcall
            rw [hcall] at hregisters
            rw [(hdoc.register _ _ _ _ _ _ haccepts hcall).2]
            refine ⟨(hregisters rfl).1, (hregisters rfl).2, ?_, ?_⟩
            · dsimp only
              rw [hsame.1, hopens.1]
              exact commit_zero
            · dsimp only
              rw [hsame.2, hopens.2]
              exact commit_zero
          · have hother : ∀ auditorId y pvk,
                tx.call ≠ .register rail.address auditorId y pvk :=
              fun auditorId y pvk hreg => hcall ⟨auditorId, y, pvk, hreg⟩
            obtain ⟨hnone, hnot⟩ := hdoc.unregistered _ _ _ haccepts hacc hother
            have hsame := applyBody_unconcerned (Or.inr (haddr.symm ▸ hnot)) hbody
            rw [hnone]
            exact ⟨hsame.1.trans hopens.1, hsame.2.trans hopens.2⟩

/-! ## A contract that keeps the rules -/

instance (i : WithdrawInputs Point) (addrF : Nat) (acc : OnChainAccount Point)
    (payload : WithdrawPayload Point) : Decidable (i.Publishes addrF acc payload) :=
  decidable_of_iff (i.y = acc.spendingKey ∧ i.addrF = addrF ∧ i.cSpend = acc.spendableBalance ∧
      i.cSpendNew = payload.cSpendNew ∧ i.bTilde = payload.bTilde ∧ i.sigma = payload.sigma)
    ⟨fun ⟨h₁, h₂, h₃, h₄, h₅, h₆⟩ => ⟨h₁, h₂, h₃, h₄, h₅, h₆⟩,
      fun ⟨h₁, h₂, h₃, h₄, h₅, h₆⟩ => ⟨h₁, h₂, h₃, h₄, h₅, h₆⟩⟩

instance (i : TransferInputs Point) (addrF : Nat) (sender recipient : OnChainAccount Point)
    (payload : TransferPayload Point) :
    Decidable (i.Publishes addrF sender recipient payload) :=
  decidable_of_iff (i.y = sender.spendingKey ∧ i.addrF = addrF ∧
      i.cSpend = sender.spendableBalance ∧ i.pvkB = recipient.viewingPublicKey ∧
      i.cSpendNew = payload.cSpendNew ∧ i.cTx = payload.cTx ∧ i.rEPoint = payload.rE ∧
      i.vTilde = payload.vTilde ∧ i.bTilde = payload.bTilde ∧ i.sigma = payload.sigma)
    ⟨fun ⟨h₁, h₂, h₃, h₄, h₅, h₆, h₇, h₈, h₉, h₁₀⟩ =>
        ⟨h₁, h₂, h₃, h₄, h₅, h₆, h₇, h₈, h₉, h₁₀⟩,
      fun ⟨h₁, h₂, h₃, h₄, h₅, h₆, h₇, h₈, h₉, h₁₀⟩ =>
        ⟨h₁, h₂, h₃, h₄, h₅, h₆, h₇, h₈, h₉, h₁₀⟩⟩

/-- The inputs that proofs were made for. -/
structure Proved (Point : Type) where
  withdrawals : List (WithdrawInputs Point)
  transfers : List (TransferInputs Point)

/-- The accounts of a chain, by the rules. -/
def ledgerAccount (c : CtCrypto Point) (chain : List (Landed Point)) (me : String) :
    Option (OnChainAccount Point) :=
  chain.foldl (fun account tx => match account with
    | some acc => some (acc.after c me tx.call)
    | none => match tx.call with
      | .register account auditorId y pvk =>
          if account = me then some ⟨y, pvk, 0, 0, auditorId⟩ else none
      | _ => none) none

/-- A call is accepted when it concerns registered accounts, and a proof has
been made for it. -/
def ledgerAccepts (c : CtCrypto Point) (addrF : Nat) (proved : Proved Point)
    (chain : List (Landed Point)) (tx : Landed Point) : Bool :=
  match tx.call with
  | .register account _ _ _ => (ledgerAccount c chain account).isNone
  | .deposit _ dst _ => (ledgerAccount c chain dst).isSome
  | .merge account => (ledgerAccount c chain account).isSome
  | .withdraw src _ _ payload => (ledgerAccount c chain src).any fun acc =>
      proved.withdrawals.any fun i => i.main c && decide (i.Publishes addrF acc payload)
  | .transfer src dst payload => (ledgerAccount c chain src).any fun sender =>
      (ledgerAccount c chain dst).any fun recipient =>
        proved.transfers.any fun i =>
          i.main c && decide (i.Publishes addrF sender recipient payload)
  | .compliance _ _ => true

def ledgerToken (c : CtCrypto Point) (addrF : Nat) (proved : Proved Point) :
    TokenContract Point :=
  ⟨ledgerAccepts c addrF proved, ledgerAccount c⟩

theorem ledgerToken_documented (c : CtCrypto Point) (addrF : Nat) (proved : Proved Point) :
    (ledgerToken c addrF proved).Documented c addrF where
  empty _ := rfl
  register chain tx me auditorId y pvk haccepts hcall := by
    have hnone : ledgerAccount c chain me = none := by
      simpa [ledgerToken, ledgerAccepts, hcall] using haccepts
    refine ⟨hnone, ?_⟩
    change ledgerAccount c (chain ++ [tx]) me = _
    rw [ledgerAccount, List.foldl_concat, ← ledgerAccount, hnone]
    simp [hcall]
  registered chain tx me acc _ hacc := by
    change ledgerAccount c (chain ++ [tx]) me = _
    change ledgerAccount c chain me = _ at hacc
    rw [ledgerAccount, List.foldl_concat, ← ledgerAccount, hacc]
  unregistered chain tx me haccepts hnone hother := by
    change ledgerAccount c chain me = _ at hnone
    have hstays : ledgerAccount c (chain ++ [tx]) me = none := by
      rw [ledgerAccount, List.foldl_concat, ← ledgerAccount, hnone]
      cases hcall : tx.call with
      | register account auditorId y pvk =>
          have haccount : ¬ account = me := by
            rintro rfl
            exact hother auditorId y pvk hcall
          simp [haccount]
      | deposit src dst amount => rfl
      | merge account => rfl
      | withdraw src dst amount payload => rfl
      | transfer src dst payload => rfl
      | compliance type account => rfl
    refine ⟨hstays, ?_⟩
    change ledgerAccepts c addrF proved chain tx = true at haccepts
    rw [ledgerAccepts] at haccepts
    cases hcall : tx.call with
    | register account auditorId y pvk =>
        rintro rfl
        exact hother auditorId y pvk hcall
    | deposit src dst amount =>
        simp only [hcall] at haccepts
        rintro rfl
        rw [hnone] at haccepts
        cases haccepts
    | merge account =>
        simp only [hcall] at haccepts
        rintro rfl
        rw [hnone] at haccepts
        cases haccepts
    | withdraw src dst amount payload =>
        simp only [hcall] at haccepts
        rintro rfl
        rw [hnone] at haccepts
        cases haccepts
    | transfer src dst payload =>
        simp only [hcall] at haccepts
        rintro (rfl | rfl)
        · rw [hnone] at haccepts
          cases haccepts
        · rw [hnone] at haccepts
          simp at haccepts
    | compliance type account => exact not_false
  withdraw chain tx src dst amount payload haccepts hcall := by
    change ledgerAccepts c addrF proved chain tx = true at haccepts
    rw [ledgerAccepts, hcall] at haccepts
    obtain ⟨acc, hacc, hproof⟩ := (Option.any_eq_true _ _).mp haccepts
    obtain ⟨i, -, hi⟩ := List.any_eq_true.mp hproof
    obtain ⟨hmain, hpublic⟩ := Bool.and_eq_true_iff.mp hi
    exact ⟨acc, hacc, i, hmain, of_decide_eq_true hpublic⟩
  transfer chain tx src dst payload haccepts hcall := by
    change ledgerAccepts c addrF proved chain tx = true at haccepts
    rw [ledgerAccepts, hcall] at haccepts
    obtain ⟨sender, hsender, hproof⟩ := (Option.any_eq_true _ _).mp haccepts
    obtain ⟨recipient, hrecipient, hproof⟩ := (Option.any_eq_true _ _).mp hproof
    obtain ⟨i, -, hi⟩ := List.any_eq_true.mp hproof
    obtain ⟨hmain, hpublic⟩ := Bool.and_eq_true_iff.mp hi
    exact ⟨sender, recipient, hsender, hrecipient, i, hmain, of_decide_eq_true hpublic⟩

end Wallet

end PrivacyWallet
