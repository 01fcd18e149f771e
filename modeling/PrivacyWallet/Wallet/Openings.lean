import PrivacyWallet.Wallet.Token

/-!
# Stored openings and the chain

A stored state is `Derived` when it is what the events before its cursor
replay to, but for an optimistic spendable opening that an event after the
cursor is to replace. A sync of a derived state gives a derived state, whatever
else is stored meanwhile (`Derived.sync`); `setSpendable` does too, as long as
the state that it loads is not past its own operation's event, or still holds
the opening that it left (`Derived.setSpendable`). It is the one writer that
can break the property.
-/

namespace PrivacyWallet

namespace Wallet

open Indexer

variable {Point : Type} [AddCommGroup Point] [DecidableEq Point] {rail : CtRail Point}

/-! ## Two states side by side -/

/-- The spendable opening that an operation of the account leaves, as its event
tells it. -/
def CtRail.left (rail : CtRail Point) : TokenCall Point → Option Opening
  | .withdraw src _ _ payload =>
      if src = rail.address then
        some (openSpendable rail.crypto rail.keys.vk payload.bTilde payload.sigma)
      else none
  | .transfer src _ payload =>
      if src = rail.address then
        some (openSpendable rail.crypto rail.keys.vk payload.bTilde payload.sigma)
      else none
  | .register _ _ _ _ => none
  | .deposit _ _ _ => none
  | .merge _ => none
  | .compliance _ _ => none

/-- States of one account that differ in the spendable opening at most, among
what a replay reads. -/
structure Beside (a b : AccountState) : Prop where
  address : a.address = b.address
  receiving : a.receiving = b.receiving

/-- One event takes them to such states, and an operation of the account to
equal openings. By cases on the call: what it adds to the receiving side is the
same on both, and only the account's own operations replace the spendable
opening, by one that they carry. -/
theorem Beside.step {a b a' : AccountState} {call : TokenCall Point} (hab : Beside a b)
    (ha : a.address = rail.address) (h : applyBody rail a call.body = .ok a') :
    ∃ b', applyBody rail b call.body = .ok b' ∧ Beside a' b' ∧
      (a.spendable = b.spendable ∨ (rail.left call).isSome = true →
        a'.spendable = b'.spendable) := by
  have hb : b.address = rail.address := hab.address.symm.trans ha
  cases call with
  | register account auditorId y pvk =>
      refine ⟨_, rfl, ?_, ?_⟩
      · cases h
        rw [ha, hb]
        split
        · exact ⟨rfl, hab.receiving⟩
        · exact hab
      · cases h
        rw [ha, hb]
        rintro (hsame | hleft)
        · split <;> exact hsame
        · cases hleft
  | compliance type account =>
      cases h
      refine ⟨_, rfl, hab, ?_⟩
      rintro (hsame | hleft)
      · exact hsame
      · cases hleft
  | deposit src dst amount =>
      refine ⟨_, rfl, ?_, ?_⟩
      · cases h
        rw [ha, hb]
        split
        · refine ⟨rfl, ?_⟩
          rw [hab.receiving]
        · exact hab
      · cases h
        rw [ha, hb]
        rintro (hsame | hleft)
        · split <;> exact hsame
        · cases hleft
  | merge account =>
      refine ⟨_, rfl, ?_, ?_⟩
      · cases h
        rw [ha, hb]
        split
        · exact ⟨rfl, rfl⟩
        · exact hab
      · cases h
        rw [ha, hb]
        rintro (hsame | hleft)
        · split
          · dsimp only
            rw [hsame, hab.receiving]
          · exact hsame
        · cases hleft
  | withdraw src dst amount payload =>
      refine ⟨_, rfl, ?_, ?_⟩
      · cases h
        rw [ha, hb]
        split
        · exact ⟨rfl, hab.receiving⟩
        · exact hab
      · cases h
        rw [ha, hb, CtRail.left]
        intro hsame
        split
        next => rfl
        next hsrc =>
          rw [if_neg hsrc] at hsame
          simpa using hsame
  | transfer src dst payload =>
      obtain ⟨received, hreceived, rfl⟩ := applyBody_transfer_ok.mp h
      refine ⟨_, applyBody_transfer_ok.mpr ⟨received, ?_, rfl⟩, ⟨hab.address, ?_⟩, ?_⟩
      · rw [← hab.address]
        exact hreceived
      · dsimp only
        rw [hab.address, hab.receiving]
      · dsimp only
        rw [ha, hb, CtRail.left]
        intro hsame
        split
        next => rfl
        next hsrc =>
          rw [if_neg hsrc] at hsame
          simpa using hsame

/-- The same for a list of events. -/
theorem Beside.apply {a b a' : AccountState} {txs : List (Landed Point)} (hab : Beside a b)
    (ha : a.address = rail.address) (h : rail.apply a txs = .ok a') :
    ∃ b', rail.apply b txs = .ok b' ∧ Beside a' b' ∧
      (a.spendable = b.spendable ∨ (∃ tx ∈ txs, (rail.left tx.call).isSome = true) →
        a'.spendable = b'.spendable) := by
  induction txs using List.reverseRecOn generalizing a' with
  | nil =>
      cases h
      refine ⟨b, rfl, hab, ?_⟩
      rintro (hsame | ⟨tx, htx, -⟩)
      · exact hsame
      · cases htx
  | append_singleton txs tx ih =>
      obtain ⟨mid, hmid, hlast⟩ := CtRail.apply_snoc h
      obtain ⟨body, hbody, rfl⟩ := applyEvent_ok hlast
      obtain ⟨mid', hmid', hbeside, hsame⟩ := ih hmid
      obtain ⟨body', hbody', hstep, hsame'⟩ :=
        hbeside.step ((CtRail.apply_address hmid).trans ha) hbody
      refine ⟨{ body' with syncedLedger := max body'.syncedLedger tx.ledger }, ?_,
        ⟨hstep.address, hstep.receiving⟩, ?_⟩
      · rw [CtRail.apply_append, hmid']
        refine Checks.bind_ok.mpr ⟨mid', rfl, Checks.bind_ok.mpr ⟨_, ?_, rfl⟩⟩
        exact Checks.bind_ok.mpr ⟨body', hbody', rfl⟩
      · rintro (hab' | ⟨tx', htx', hleft⟩)
        · exact hsame' (Or.inl (hsame (Or.inl hab')))
        · rcases List.mem_append.mp htx' with hbefore | hhere
          · exact hsame' (Or.inl (hsame (Or.inr ⟨tx', hbefore, hleft⟩)))
          · cases List.mem_singleton.mp hhere
            exact hsame' (Or.inr hleft)

/-! ## Derived states -/

/-- How many events the state is past. -/
def AccountState.past (state : AccountState) : Nat := state.cursor.getD 0

/-- The state is what the events before its cursor replay to, or it differs in
a spendable opening that an event after it replaces. -/
structure Derived (rail : CtRail Point) (chain : List (Landed Point)) (state : AccountState) :
    Prop where
  address : state.address = rail.address
  past_le : state.past ≤ chain.length
  replayed : ∃ full, rail.replay (chain.take state.past) = .ok full ∧ Beside state full ∧
    (state.spendable = full.spendable ∨
      ∃ tx ∈ chain.drop state.past, (rail.left tx.call).isSome = true)

theorem derived_fresh (chain : List (Landed Point)) :
    Derived rail chain (freshState rail.address) :=
  ⟨rfl, Nat.zero_le _, _, rfl, ⟨rfl, rfl⟩, Or.inl rfl⟩

theorem take_stable {α : Type} {l m : List α} {n : Nat} (h : l <+: m) (hn : n ≤ l.length) :
    m.take n = l.take n := by
  obtain ⟨k, rfl⟩ := h
  exact List.take_append_of_le_length hn

/-- The chain may grow. -/
theorem Derived.mono {chain chain' : List (Landed Point)} {state : AccountState}
    (h : Derived rail chain state) (hchain : chain <+: chain') : Derived rail chain' state := by
  obtain ⟨full, hfull, hbeside, hspendable⟩ := h.replayed
  refine ⟨h.address, h.past_le.trans hchain.length_le, full, ?_, hbeside, ?_⟩
  · rw [take_stable hchain h.past_le]
    exact hfull
  · refine hspendable.imp_right fun ⟨tx, htx, hleft⟩ => ⟨tx, ?_, hleft⟩
    obtain ⟨k, rfl⟩ := hchain
    rw [List.drop_append_of_le_length h.past_le]
    exact List.mem_append_left _ htx

/-- A sync of a derived state gives a derived state. -/
theorem Derived.sync {chain : List (Landed Point)} {state state' : AccountState} {upTo : Nat}
    (h : Derived rail chain state) (hupTo : state.past ≤ upTo) (hle : upTo ≤ chain.length)
    (happly : rail.apply state ((chain.take upTo).drop state.past) = .ok state')
    (syncedLedger : Nat) :
    Derived rail chain { state' with cursor := some upTo, syncedLedger := syncedLedger } := by
  obtain ⟨full, hfull, hbeside, hspendable⟩ := h.replayed
  obtain ⟨full', hfull', hbeside', hsame⟩ := hbeside.apply h.address happly
  have hsplit : chain.take upTo
      = chain.take state.past ++ (chain.take upTo).drop state.past := by
    conv_lhs => rw [← List.take_append_drop state.past (chain.take upTo)]
    rw [List.take_take, Nat.min_eq_left hupTo]
  refine ⟨(CtRail.apply_address happly).trans h.address, hle, full', ?_,
    ⟨hbeside'.address, hbeside'.receiving⟩, ?_⟩
  · change rail.replay (chain.take upTo) = .ok full'
    rw [CtRail.replay, hsplit, CtRail.apply_append]
    exact Checks.bind_ok.mpr ⟨full, hfull, hfull'⟩
  · rcases hspendable with heq | ⟨tx, htx, hleft⟩
    · exact Or.inl (hsame (Or.inl heq))
    · have hrest : chain.drop state.past
          = (chain.take upTo).drop state.past ++ chain.drop upTo := by
        conv_lhs => rw [← List.take_append_drop upTo chain]
        rw [List.drop_append_of_le_length]
        rw [List.length_take]
        exact le_min hupTo h.past_le
      rw [hrest] at htx
      rcases List.mem_append.mp htx with hbefore | hafter
      · exact Or.inl (hsame (Or.inr ⟨tx, hbefore, hleft⟩))
      · exact Or.inr ⟨tx, hafter, hleft⟩

/-- A state that is past the whole chain opens the account. -/
theorem Derived.opens {chain : List (Landed Point)} {state : AccountState}
    (h : Derived rail chain state) (hdoc : rail.token.Documented rail.crypto rail.addrF)
    (hchain : Run.Along rail.Next chain) (hpast : chain.length ≤ state.past) :
    rail.Opens (rail.token.account chain rail.address) state := by
  obtain ⟨full, hfull, hbeside, hspendable⟩ := h.replayed
  rw [List.take_of_length_le hpast] at hfull
  rw [List.drop_of_length_le hpast] at hspendable
  have hsame : state.spendable = full.spendable := by
    rcases hspendable with heq | ⟨tx, htx, -⟩
    · exact heq
    · cases htx
  have hopens := hdoc.opens hchain hfull
  cases hacc : rail.token.account chain rail.address with
  | none =>
      rw [hacc] at hopens
      exact ⟨hsame.trans hopens.1, hbeside.receiving.trans hopens.2⟩
  | some acc =>
      rw [hacc] at hopens
      obtain ⟨hY, hPVK, hopen⟩ := hopens
      refine ⟨hY, hPVK, ?_, ?_⟩
      · rw [hsame]
        exact hopen.spendable
      · rw [hbeside.receiving]
        exact hopen.receiving

/-! ## Saves of `setSpendable` -/

/-- The event at `p` is an operation of the account that left `next`. -/
def CtRail.LeftAt (rail : CtRail Point) (chain : List (Landed Point)) (next : Opening) (p : Nat) :
    Prop :=
  ∃ tx, chain[p]? = some tx ∧ rail.left tx.call = some ⟨frMod next.v, next.r⟩

/-- The state is past an event of the account that came after `p`. -/
def CtRail.Later (rail : CtRail Point) (chain : List (Landed Point)) (state : AccountState)
    (p : Nat) : Prop :=
  ∃ q tx, p < q ∧ q < state.past ∧ chain[q]? = some tx ∧ tx.call.Concerns rail.address

instance (chain : List (Landed Point)) (next : Opening) (p : Nat) :
    Decidable (rail.LeftAt chain next p) :=
  decidable_of_iff (chain[p]?.bind (fun tx => rail.left tx.call) = some ⟨frMod next.v, next.r⟩)
    Option.bind_eq_some_iff

instance (chain : List (Landed Point)) (state : AccountState) (p : Nat) :
    Decidable (rail.Later chain state p) :=
  decidable_of_iff (∃ q, q < state.past ∧ p < q ∧
      chain[q]?.any (fun tx => decide (tx.call.Concerns rail.address)) = true)
    ⟨fun ⟨q, hq, hpq, hany⟩ =>
        let ⟨tx, htx, hconcerns⟩ := (Option.any_eq_true _ _).mp hany
        ⟨q, tx, hpq, hq, htx, of_decide_eq_true hconcerns⟩,
      fun ⟨q, tx, hpq, hq, htx, hconcerns⟩ =>
        ⟨q, hq, hpq, (Option.any_eq_true _ _).mpr ⟨tx, htx, decide_eq_true hconcerns⟩⟩⟩

/-- When `setSpendable` loads a state that is past its operation's own event,
the events up to there still leave the opening that it is to write; and while
it runs, nobody stores a state that is past a later event of the account. -/
structure SpendableSave.Fits (rail : CtRail Point) (chain : List (Landed Point))
    (save : SpendableSave) : Prop where
  loaded : ∀ p < save.loaded.past, rail.LeftAt chain save.next p →
    ∀ full, rail.replay (chain.take save.loaded.past) = .ok full → full.spendable = save.next
  overwritten : ∀ state, save.overwritten = some state → state = save.loaded ∨
    ∀ p, rail.LeftAt chain save.next p → ¬ rail.Later chain state p

/-- The save wrote over a state that is past later events of the account than
the operation's own, and what it wrote is not what those events lead to. -/
def SpendableSave.Loses (rail : CtRail Point) (chain : List (Landed Point))
    (save : SpendableSave) : Prop :=
  ∃ state p full, save.overwritten = some state ∧ rail.LeftAt chain save.next p ∧
    rail.Later chain state p ∧ rail.replay (chain.take state.past) = .ok full ∧
    ¬ (save.loaded.past = state.past ∧ save.next = full.spendable ∧
      save.loaded.receiving = full.receiving)

omit [DecidableEq Point] in
theorem CtRail.LeftAt.mono {chain chain' : List (Landed Point)} {next : Opening} {p : Nat}
    (h : rail.LeftAt chain next p) (hchain : chain <+: chain') : rail.LeftAt chain' next p := by
  obtain ⟨tx, htx, hleft⟩ := h
  obtain ⟨k, rfl⟩ := hchain
  obtain ⟨hp, -⟩ := List.getElem?_eq_some_iff.mp htx
  refine ⟨tx, ?_, hleft⟩
  rw [List.getElem?_append_left hp]
  exact htx

omit [DecidableEq Point] in
theorem CtRail.Later.mono {chain chain' : List (Landed Point)} {state : AccountState} {p : Nat}
    (h : rail.Later chain state p) (hchain : chain <+: chain') : rail.Later chain' state p := by
  obtain ⟨q, tx, hpq, hq, htx, hconcerns⟩ := h
  obtain ⟨k, rfl⟩ := hchain
  obtain ⟨hlt, -⟩ := List.getElem?_eq_some_iff.mp htx
  refine ⟨q, tx, hpq, hq, ?_, hconcerns⟩
  rw [List.getElem?_append_left hlt]
  exact htx

/-- What fits the grown chain fits the chain. -/
theorem SpendableSave.Fits.before {chain chain' : List (Landed Point)} {save : SpendableSave}
    (h : save.Fits rail chain') (hchain : chain <+: chain')
    (hpast : save.loaded.past ≤ chain.length) : save.Fits rail chain := by
  refine ⟨fun p hp hleft full hfull => ?_, fun state hstate => ?_⟩
  · refine h.loaded p hp (hleft.mono hchain) full ?_
    rw [take_stable hchain hpast]
    exact hfull
  · exact (h.overwritten state hstate).imp_right fun hnot p hleft hlater =>
      hnot p (hleft.mono hchain) (hlater.mono hchain)

/-- `setSpendable` gives a derived state, when its save fits. -/
theorem Derived.setSpendable {chain : List (Landed Point)} {save : SpendableSave}
    (h : Derived rail chain save.loaded) (hfits : save.Fits rail chain) {p : Nat}
    (hleft : rail.LeftAt chain save.next p) :
    Derived rail chain { save.loaded with spendable := save.next } := by
  obtain ⟨full, hfull, hbeside, -⟩ := h.replayed
  refine ⟨h.address, h.past_le, full, hfull, ⟨hbeside.address, hbeside.receiving⟩, ?_⟩
  rcases Nat.lt_or_ge p save.loaded.past with hp | hp
  · exact Or.inl (hfits.loaded p hp hleft full hfull).symm
  · obtain ⟨tx, htx, hopening⟩ := hleft
    refine Or.inr ⟨tx, ?_, by rw [hopening]; rfl⟩
    rw [List.mem_iff_getElem?]
    refine ⟨p - save.loaded.past, ?_⟩
    rw [List.getElem?_drop, AccountState.past, ← htx]
    congr 1
    exact Nat.add_sub_cancel' hp

/-- A save that fits loses nothing. -/
theorem SpendableSave.Fits.not_loses {chain : List (Landed Point)} {save : SpendableSave}
    (hfits : save.Fits rail chain) (h : Derived rail chain save.loaded) :
    ¬ save.Loses rail chain := by
  rintro ⟨state, p, full, hstate, hleft, hlater, hfull, hnot⟩
  rcases hfits.overwritten state hstate with rfl | hnone
  · obtain ⟨full', hfull', hbeside, -⟩ := h.replayed
    cases hfull.symm.trans hfull'
    obtain ⟨q, tx, hpq, hq, -, -⟩ := hlater
    have hspendable := hfits.loaded p (hpq.trans hq) hleft full hfull
    exact hnot ⟨rfl, hspendable.symm, hbeside.receiving⟩
  · exact hnone p hleft hlater

end Wallet

end PrivacyWallet
