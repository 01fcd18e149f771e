import Mathlib.Data.ZMod.Basic
import PrivacyWallet.Wallet.Openings

/-!
# Calls of the rail among each other

Any number of tabs run the rail's calls over one store, while the chain grows.
The stored state stays derived from the chain as long as every save of
`setSpendable` fits (`CtWorld.Sound`), and so it opens the account's
commitments after one more sync (`tracks_of_fits`). The run at the end has one
save that does not fit: a merge is synced between a withdrawal's landing and
its save, and the account can no longer prove.

The invariant is one of the world, with what the calls in flight hold
(`CtWorld.Holds`), and it is conditional: it says nothing as soon as one save
did not fit. What the steps of others may do is one relation
(`CtWorld.Grows`): the chain gets longer, and the saves are added to. It is
reflexive and transitive, and what a call holds survives it
(`CtWorld.Holds.mono`).

Each part of the rail is then shown to keep the invariant among others that
do (`Keeps`), with what it returns: `keeps_sync` a derived state,
`keeps_setSpendable` the saved one if it fits, `keeps_invoke` a submission
that is in the chain. `Keeps.bind` chains them along the code, so a call is
proved in the order in which it is written (`keeps_transfer`,
`keeps_withdraw`, `keeps_refresh`), and interleavings do not show in these
proofs. `played_sound` is the run.

What tracks means is read off at the end: a derived state, after one more
complete sync, holds the openings of the whole chain
(`CtWorld.Sound.tracks`).
-/

namespace PrivacyWallet

namespace Wallet

open Indexer

variable {Point : Type} [AddCommGroup Point] [DecidableEq Point] {rail : CtRail Point}

/-! ## The sources -/

/-- What was fetched is the part of the chain from the cursor up to the next. -/
structure FetchedEvents.From (fetched : FetchedEvents Point) (start upTo : Nat)
    (chain : List (Landed Point)) : Prop where
  start_le : start ≤ upTo
  upTo_le : upTo ≤ chain.length
  events : fetched.events = ((chain.take upTo).drop start).map Landed.event
  cursor : fetched.cursor = some upTo

/-- The sources leave nothing out: what they return is every event from the
cursor on up to the one that they return with it. -/
def CtOutside.Complete (outside : CtOutside Point) : Prop :=
  ∀ chain startCursor fetched, outside.fetchEvents chain startCursor = .ok fetched →
    startCursor.getD 0 ≤ chain.length → ∃ upTo, fetched.From (startCursor.getD 0) upTo chain

/-- They are complete, and show the whole chain. -/
def CtOutside.UpToDate (outside : CtOutside Point) (chain : List (Landed Point)) : Prop :=
  ∀ startCursor fetched, outside.fetchEvents chain startCursor = .ok fetched →
    startCursor.getD 0 ≤ chain.length → fetched.From (startCursor.getD 0) chain.length chain

/-! ## The invariant -/

/-- What `current` loads. -/
def CtWorld.stored (w : CtWorld Point) (rail : CtRail Point) : AccountState :=
  w.store.getD (freshState rail.address)

/-- What no step takes back. -/
structure CtWorld.Grows (w w' : CtWorld Point) : Prop where
  chain : w.chain <+: w'.chain
  saves : w.saves <+: w'.saves

/-- All saves so far fit. -/
def CtWorld.Fits (w : CtWorld Point) (rail : CtRail Point) : Prop :=
  ∀ save ∈ w.saves, save.Fits rail w.chain

structure CtWorld.Sound (rail : CtRail Point) (w : CtWorld Point) : Prop where
  chain : Run.Along rail.Next w.chain
  sources : w.outside.Complete
  past_le : (w.stored rail).past ≤ w.chain.length
  saved : ∀ save ∈ w.saves, save.loaded.past ≤ w.chain.length ∧
    ∃ p, rail.LeftAt w.chain save.next p
  derived : w.Fits rail → Derived rail w.chain (w.stored rail) ∧
    ∀ save ∈ w.saves, Derived rail w.chain save.loaded

omit [AddCommGroup Point] [DecidableEq Point] in
theorem CtWorld.Grows.refl (w : CtWorld Point) : w.Grows w :=
  ⟨List.prefix_refl _, List.prefix_refl _⟩

omit [AddCommGroup Point] [DecidableEq Point] in
theorem CtWorld.Grows.trans (w₁ w₂ w₃ : CtWorld Point) (h : w₁.Grows w₂) (h' : w₂.Grows w₃) :
    w₁.Grows w₃ :=
  ⟨h.chain.trans h'.chain, h.saves.trans h'.saves⟩

/-- The saves up to an earlier moment fitted then. -/
theorem CtWorld.Grows.fits {w w' : CtWorld Point} (h : w.Grows w') (hw : w.Sound rail)
    (hfits : w'.Fits rail) : w.Fits rail :=
  fun save hsave => (hfits save (h.saves.subset hsave)).before h.chain (hw.saved save hsave).1

/-- A state that some call holds: if all saves fit, it is derived. -/
structure CtWorld.Holds (rail : CtRail Point) (state : AccountState) (w : CtWorld Point) :
    Prop where
  past_le : state.past ≤ w.chain.length
  derived : w.Fits rail → Derived rail w.chain state

theorem CtWorld.Holds.mono {state : AccountState} {w w' : CtWorld Point}
    (h : CtWorld.Holds rail state w) (hw : w.Sound rail) (hgrows : w.Grows w') :
    CtWorld.Holds rail state w' :=
  ⟨h.past_le.trans hgrows.chain.length_le, fun hfits =>
    (h.derived (hgrows.fits hw hfits)).mono hgrows.chain⟩

theorem CtWorld.Sound.holds {w : CtWorld Point} (hw : w.Sound rail) :
    CtWorld.Holds rail (w.stored rail) w :=
  ⟨hw.past_le, fun hfits => (hw.derived hfits).1⟩

/-- The chain grows by calls that may come next, and the store is left. -/
theorem CtWorld.Sound.grow {w w' : CtWorld Point} (hw : w.Sound rail)
    (hchain : w.chain <+: w'.chain) (hnext : Run.Along rail.Next w'.chain)
    (hsources : w'.outside.Complete) (hstore : w'.store = w.store) (hsaves : w'.saves = w.saves) :
    w'.Sound rail := by
  have hgrows : w.Grows w' := ⟨hchain, hsaves ▸ List.prefix_refl _⟩
  have hstored : w'.stored rail = w.stored rail := by rw [CtWorld.stored, hstore, CtWorld.stored]
  refine ⟨hnext, hsources, ?_, ?_, ?_⟩
  · rw [hstored]
    exact hw.past_le.trans hchain.length_le
  · rw [hsaves]
    intro save hsave
    obtain ⟨hpast, p, hleft⟩ := hw.saved save hsave
    exact ⟨hpast.trans hchain.length_le, p, hleft.mono hchain⟩
  · intro hfits
    obtain ⟨hderived, hloaded⟩ := hw.derived (hgrows.fits hw hfits)
    rw [hstored, hsaves]
    exact ⟨hderived.mono hchain, fun save hsave => (hloaded save hsave).mono hchain⟩

/-- A state that a call holds may be stored. -/
theorem CtWorld.Sound.store {w : CtWorld Point} (hw : w.Sound rail) {state : AccountState}
    (hstate : CtWorld.Holds rail state w) : CtWorld.Sound rail { w with store := some state } :=
  ⟨hw.chain, hw.sources, hstate.past_le, hw.saved, fun hfits =>
    ⟨hstate.derived hfits, (hw.derived hfits).2⟩⟩

/-- And it may be stored with the opening that an operation in the chain left. -/
theorem CtWorld.Sound.save {w : CtWorld Point} (hw : w.Sound rail) (save : SpendableSave)
    (hloaded : CtWorld.Holds rail save.loaded w) {p : Nat}
    (hleft : rail.LeftAt w.chain save.next p) :
    CtWorld.Sound rail { w with
      store := some { save.loaded with spendable := save.next }
      saves := w.saves ++ [save] } := by
  refine ⟨hw.chain, hw.sources, hloaded.past_le, ?_, ?_⟩
  · intro save' hsave'
    rcases List.mem_append.mp hsave' with hbefore | hhere
    · exact hw.saved save' hbefore
    · cases List.mem_singleton.mp hhere
      exact ⟨hloaded.past_le, p, hleft⟩
  · intro hfits
    have hbefore : w.Fits rail := fun save' hsave' => hfits save' (List.mem_append_left _ hsave')
    have hhere : save.Fits rail w.chain :=
      hfits save (List.mem_append_right _ (List.mem_singleton_self save))
    have hderived := hloaded.derived hbefore
    refine ⟨hderived.setSpendable hhere hleft, ?_⟩
    intro save' hsave'
    rcases List.mem_append.mp hsave' with hold | hnew
    · exact (hw.derived hbefore).2 save' hold
    · cases List.mem_singleton.mp hnew
      exact hderived

/-! ## The programs keep it -/

/-- Among others that keep the invariant, the program keeps it. -/
abbrev Keeps {α : Type} (rail : CtRail Point) (Q : α → CtWorld Point → Prop) (x : CtOp Point α)
    (w : CtWorld Point) : Prop :=
  Async.SafeT (CtWorld.Sound rail) CtWorld.Grows Q x w

section

variable {w : CtWorld Point} {α β : Type} {Q : α → CtWorld Point → Prop}
  {Q' : β → CtWorld Point → Prop}

theorem Keeps.bind {x : CtOp Point α} {k : α → CtOp Point β} (hx : Keeps rail Q x w)
    (hw : w.Sound rail)
    (hk : ∀ a w', w.Grows w' → w'.Sound rail → Q a w' → Keeps rail Q' (k a) w') :
    Keeps rail Q' (x >>= k) w :=
  Async.SafeT.bind CtWorld.Grows.refl CtWorld.Grows.trans hx hw hk


theorem keeps_world : Keeps rail (fun found w' => found = w') world w :=
  Async.safeT_access fun w' _ hw' => ⟨hw', CtWorld.Grows.refl w', rfl⟩

theorem keeps_answer {result : Except String α} (h : ∀ a, result = .ok a → Q a w) :
    Keeps rail Q (answer result) w :=
  Async.safeT_ofExcept h

theorem keeps_pure {a : α} (h : Q a w) : Keeps rail Q (pure a) w := Async.safeT_pure h

theorem keeps_throw (message : String) : Keeps rail Q (throw message) w :=
  Async.safeT_throw message

theorem keeps_loadState (hw : w.Sound rail) :
    Keeps rail (fun prior w' => CtWorld.Holds rail (prior.getD (freshState rail.address)) w')
      loadState w := by
  refine Keeps.bind keeps_world hw fun found w' _ hw' hfound => ?_
  refine keeps_pure ?_
  subst hfound
  exact hw'.holds

theorem keeps_current (hw : w.Sound rail) :
    Keeps rail (fun loaded w' => CtWorld.Holds rail loaded w') (current rail) w := by
  refine Keeps.bind (keeps_loadState hw) hw fun prior w' _ hw' hprior => ?_
  exact keeps_pure hprior

theorem keeps_fetchEvents (hw : w.Sound rail) {startCursor : Option Nat}
    (hstart : startCursor.getD 0 ≤ w.chain.length) :
    Keeps rail (fun fetched w' => ∃ upTo, fetched.From (startCursor.getD 0) upTo w'.chain)
      (fetchEvents startCursor) w := by
  refine Keeps.bind keeps_world hw fun found w' hgrows hw' hfound => ?_
  subst hfound
  exact keeps_answer fun fetched hfetched =>
    hw'.sources _ _ _ hfetched (hstart.trans hgrows.chain.length_le)

theorem keeps_sync (hw : w.Sound rail) : Keeps rail (fun _ _ => True) (sync rail) w := by
  refine Keeps.bind (keeps_loadState hw) hw fun prior w₁ _ hw₁ hprior => ?_
  dsimp only
  generalize prior.getD (freshState rail.address) = state at hprior ⊢
  refine Keeps.bind (keeps_fetchEvents hw₁ hprior.past_le) hw₁
    fun fetched w₂ hgrows₂ hw₂ ⟨upTo, hfetched⟩ => ?_
  have hstate := hprior.mono hw₁ hgrows₂
  refine Keeps.bind (Q := fun state' w' => CtWorld.Holds rail
    { state' with
      cursor := some upTo
      syncedLedger := max state'.syncedLedger fetched.latestLedger } w')
    (keeps_answer fun state' happly => ?_) hw₂ fun state' w₃ _ hw₃ hstate' => ?_
  · rw [hfetched.events] at happly
    exact ⟨hfetched.upTo_le, fun hfits =>
      (hstate.derived hfits).sync hfetched.start_le hfetched.upTo_le happly _⟩
  · rw [hfetched.cursor]
    refine Keeps.bind (Q := fun _ _ => True) (Async.safeT_access fun w₄ hgrows₄ hw₄ => ?_) hw₃
      fun _ w₄ _ _ _ => keeps_pure True.intro
    exact ⟨hw₄.store (hstate'.mono hw₃ hgrows₄), ⟨List.prefix_refl _, List.prefix_refl _⟩,
      True.intro⟩

theorem keeps_setSpendable (hw : w.Sound rail) {next : Opening} {p : Nat}
    (hleft : rail.LeftAt w.chain next p) :
    Keeps rail (fun _ _ => True) (setSpendable rail next) w := by
  refine Keeps.bind (keeps_current hw) hw fun loaded w₁ hgrows₁ hw₁ hloaded => ?_
  dsimp only
  refine Keeps.bind (Q := fun _ _ => True) (Async.safeT_access fun w₂ hgrows₂ hw₂ => ?_) hw₁
    fun _ w₂ _ _ _ => keeps_pure True.intro
  have hleft₂ := hleft.mono (hgrows₁.chain.trans hgrows₂.chain)
  exact ⟨hw₂.save ⟨loaded, w₂.store, next⟩ (hloaded.mono hw₁ hgrows₂) hleft₂,
    ⟨List.prefix_refl _, List.prefix_append _ _⟩, True.intro⟩

/-- A submission that is answered with success is in the chain. -/
theorem keeps_invoke (hw : w.Sound rail) {call : TokenCall Point} (hcall : rail.Registers call) :
    Keeps rail
      (fun _ w' => ∃ (p : Nat) (tx : Landed Point), w'.chain[p]? = some tx ∧ tx.call = call)
      (invoke rail call) w := by
  refine Keeps.bind (Q := fun (result : Except String String) w' => ∀ hash, result = .ok hash →
      ∃ (p : Nat) (tx : Landed Point), w'.chain[p]? = some tx ∧ tx.call = call)
    (Async.safeT_access fun w₁ _ hw₁ => ?_) hw fun result w₁ _ hw₁ hlanded => ?_
  · by_cases hlands : w₁.lands rail call = true
    · simp only [if_pos hlands]
      have haccepts : rail.token.accepts w₁.chain (w₁.tx call) = true :=
        (Bool.and_eq_true_iff.mp hlands).2
      refine ⟨hw₁.grow (List.prefix_append _ _)
        (Run.along_snoc hw₁.chain ⟨haccepts, hcall⟩) hw₁.sources rfl rfl,
        ⟨List.prefix_append _ _, List.prefix_refl _⟩, fun _ _ => ?_⟩
      exact ⟨w₁.chain.length, w₁.tx call, by simp, rfl⟩
    · rw [Bool.not_eq_true] at hlands
      simp only [hlands, Bool.false_eq_true, if_false, Bool.false_and]
      refine ⟨hw₁, CtWorld.Grows.refl w₁, fun hash hhash => ?_⟩
      cases hhash
  · refine Keeps.bind keeps_world hw₁ fun _ w₂ hgrows₂ _ _ => keeps_answer fun hash hhash => ?_
    obtain ⟨p, tx, htx, rfl⟩ := hlanded hash hhash
    obtain ⟨hp, -⟩ := List.getElem?_eq_some_iff.mp htx
    obtain ⟨k, hk⟩ := hgrows₂.chain
    refine ⟨p, tx, ?_, rfl⟩
    rw [← hk, List.getElem?_append_left hp]
    exact htx

theorem keeps_confidentialBalance (hw : w.Sound rail) (address : String) :
    Keeps rail (fun _ _ => True) (confidentialBalance rail address) w := by
  refine Keeps.bind keeps_world hw fun found w' _ _ _ => ?_
  split
  · exact keeps_pure True.intro
  · exact keeps_pure True.intro

theorem keeps_auditorKey (hw : w.Sound rail) (auditorId : Nat) :
    Keeps rail (fun _ _ => True) (auditorKey auditorId) w :=
  Keeps.bind keeps_world hw fun _ _ _ _ _ => keeps_answer fun _ _ => True.intro

theorem keeps_transfer (hw : w.Sound rail) (dst : String) (amount : Int) :
    Keeps rail (fun _ _ => True) (transfer rail dst amount) w := by
  refine Keeps.bind (keeps_confidentialBalance hw dst) hw fun recipient w₁ _ hw₁ _ => ?_
  cases recipient with
  | none => exact keeps_throw _
  | some recipient =>
  refine Keeps.bind (keeps_auditorKey hw₁ _) hw₁ fun kAudR w₂ _ hw₂ _ => ?_
  refine Keeps.bind (keeps_auditorKey hw₂ _) hw₂ fun kAudS w₃ _ hw₃ _ => ?_
  refine Keeps.bind (keeps_sync hw₃) hw₃ fun s w₄ _ hw₄ _ => ?_
  split
  · exact keeps_throw _
  refine Keeps.bind keeps_world hw₄ fun drawn w₅ _ hw₅ _ => ?_
  refine Keeps.bind (Q := fun witness _ =>
      openSpendable rail.crypto rail.keys.vk witness.payload.bTilde witness.payload.sigma
        = ⟨frMod witness.next.v, witness.next.r⟩)
    (keeps_answer fun witness hwitness => buildTransferWitness_opens hwitness) hw₅
    fun witness w₆ _ hw₆ hopens => ?_
  refine Keeps.bind keeps_world hw₆ fun up w₇ _ hw₇ _ => ?_
  refine Keeps.bind (Q := fun _ _ => True) (keeps_answer fun _ _ => True.intro) hw₇
    fun _ w₈ _ hw₈ _ => ?_
  split
  · exact keeps_throw _
  refine Keeps.bind (keeps_invoke hw₈ True.intro) hw₈ fun hash w₉ _ hw₉ hlanded => ?_
  obtain ⟨p, tx, htx, hcall⟩ := hlanded
  have hleft : rail.LeftAt w₉.chain witness.next p := by
    refine ⟨tx, htx, ?_⟩
    rw [hcall, CtRail.left, if_pos rfl, hopens]
  exact Keeps.bind (keeps_setSpendable hw₉ hleft) hw₉ fun _ _ _ _ _ => keeps_pure True.intro

theorem keeps_withdraw (hw : w.Sound rail) (amount : Int) :
    Keeps rail (fun _ _ => True) (withdraw rail amount) w := by
  refine Keeps.bind (keeps_auditorKey hw _) hw fun kAudS w₁ _ hw₁ _ => ?_
  refine Keeps.bind (keeps_sync hw₁) hw₁ fun s w₂ _ hw₂ _ => ?_
  split
  · exact keeps_throw _
  refine Keeps.bind keeps_world hw₂ fun drawn w₃ _ hw₃ _ => ?_
  refine Keeps.bind (Q := fun witness _ =>
      openSpendable rail.crypto rail.keys.vk witness.payload.bTilde witness.payload.sigma
        = ⟨frMod witness.next.v, witness.next.r⟩)
    (keeps_answer fun witness hwitness => buildWithdrawWitness_opens hwitness) hw₃
    fun witness w₄ _ hw₄ hopens => ?_
  refine Keeps.bind keeps_world hw₄ fun up w₅ _ hw₅ _ => ?_
  refine Keeps.bind (Q := fun _ _ => True) (keeps_answer fun _ _ => True.intro) hw₅
    fun _ w₆ _ hw₆ _ => ?_
  split
  · exact keeps_throw _
  refine Keeps.bind (keeps_invoke hw₆ True.intro) hw₆ fun hash w₇ _ hw₇ hlanded => ?_
  obtain ⟨p, tx, htx, hcall⟩ := hlanded
  have hleft : rail.LeftAt w₇.chain witness.next p := by
    refine ⟨tx, htx, ?_⟩
    rw [hcall, CtRail.left, if_pos rfl, hopens]
  exact Keeps.bind (keeps_setSpendable hw₇ hleft) hw₇ fun _ _ _ _ _ => keeps_pure True.intro

theorem keeps_verifyAgainstChain (hw : w.Sound rail) :
    Keeps rail (fun _ _ => True) (verifyAgainstChain rail) w := by
  refine Keeps.bind (keeps_current hw) hw fun state w₁ _ hw₁ _ => ?_
  refine Keeps.bind (keeps_confidentialBalance hw₁ _) hw₁ fun onchain w₂ _ _ _ => ?_
  split
  · exact keeps_pure True.intro
  · exact keeps_pure True.intro

theorem keeps_refresh (hw : w.Sound rail) : Keeps rail (fun _ _ => True) (refresh rail) w := by
  refine Keeps.bind (keeps_sync hw) hw fun state w₁ _ hw₁ _ => ?_
  refine Keeps.bind (keeps_confidentialBalance hw₁ _) hw₁ fun onchain w₂ _ hw₂ _ => ?_
  refine Keeps.bind keeps_world hw₂ fun _ w₃ _ hw₃ _ => ?_
  refine Keeps.bind (Q := fun _ _ => True) (keeps_answer fun _ _ => True.intro) hw₃
    fun _ w₄ _ hw₄ _ => ?_
  split
  · exact keeps_pure True.intro
  · exact Keeps.bind (keeps_verifyAgainstChain hw₄) hw₄ fun _ _ _ _ _ => keeps_pure True.intro

/-- A call, whether it throws or not. -/
theorem Keeps.program {x : CtOp Point α} (hx : Keeps rail Q x w) (hw : w.Sound rail) :
    Async.Safe (CtWorld.Sound rail) CtWorld.Grows (fun _ _ => True)
      (x.run >>= fun _ => pure ()) w :=
  Async.Safe.bind CtWorld.Grows.refl CtWorld.Grows.trans hx hw fun _ _ _ _ _ => True.intro

theorem CtCall.program_safe (call : CtCall) (hw : w.Sound rail) :
    Async.Safe (CtWorld.Sound rail) CtWorld.Grows (fun _ _ => True) (call.program rail) w := by
  cases call with
  | transfer dst amount => exact (keeps_transfer hw dst amount).program hw
  | withdraw amount => exact (keeps_withdraw hw amount).program hw
  | merge => exact Keeps.program (keeps_invoke hw True.intro) hw
  | refresh => exact (keeps_refresh hw).program hw

end

/-! ## A sync and a check with nothing in between -/

section

variable {β : Type} {w : CtWorld Point}

omit [AddCommGroup Point] [DecidableEq Point] in
theorem run_answer_bind {α : Type} (result : Except String α) (k : α → CtOp Point β) :
    Async.run (answer result >>= k).run w = match result with
      | .error message => (w, .error message)
      | .ok a => Async.run (k a).run w := by
  cases result <;> rfl

omit [AddCommGroup Point] [DecidableEq Point] in
@[simp] theorem run_loadState_bind (k : Option AccountState → CtOp Point β) :
    Async.run (loadState >>= k).run w = Async.run (k w.store).run w := rfl

omit [DecidableEq Point] in
@[simp] theorem run_current_bind (k : AccountState → CtOp Point β) :
    Async.run (current rail >>= k).run w = Async.run (k (w.stored rail)).run w := rfl

omit [DecidableEq Point] in
theorem run_confidentialBalance_bind (address : String)
    (k : Option (OnChainAccount Point) → CtOp Point β) (hsimulate : w.outside.simulate = .ok ()) :
    Async.run (confidentialBalance rail address >>= k).run w
      = Async.run (k (rail.token.account w.chain address)).run w := by
  rcases w with ⟨chain, store, saves, fetch, simulate, auditorKey, publicBalance, salt, ephemeral,
    proverUp, submit⟩
  cases hsimulate
  rfl

omit [AddCommGroup Point] [DecidableEq Point] in
theorem run_bind_ok {α : Type} {x : CtOp Point α} {k : α → CtOp Point β} {a : α}
    {w' : CtWorld Point} (h : Async.run x.run w = (w', .ok a)) :
    Async.run (x >>= k).run w = Async.run (k a).run w' := by
  change Async.run (x.run >>= ExceptT.bindCont k) w = _
  rw [Async.run_bind, h]
  rfl

/-- What a sync that completed has stored. -/
theorem run_sync_ok {state : AccountState} (h : (Async.run (sync rail).run w).2 = .ok state) :
    ∃ fetched applied syncedLedger,
      w.outside.fetchEvents w.chain (w.stored rail).cursor = .ok fetched ∧
      fetched.events.foldlM (applyEvent rail) (w.stored rail) = .ok applied ∧
      state = { applied with
        cursor := fetched.cursor <|> applied.cursor
        syncedLedger := syncedLedger } ∧
      Async.run (sync rail).run w = ({ w with store := some state }, .ok state) := by
  have hrun : ∀ k : FetchedEvents Point → CtOp Point AccountState,
      Async.run (fetchEvents (w.stored rail).cursor >>= k).run w
        = Async.run (answer (w.outside.fetchEvents w.chain (w.stored rail).cursor) >>= k).run w :=
    fun k => rfl
  rw [sync] at h ⊢
  simp only [run_loadState_bind] at h ⊢
  rw [show w.store.getD (freshState rail.address) = w.stored rail from rfl] at h ⊢
  rw [hrun, run_answer_bind] at h ⊢
  cases hfetched : w.outside.fetchEvents w.chain (w.stored rail).cursor with
  | error message =>
      rw [hfetched] at h
      cases h
  | ok fetched =>
      simp only [hfetched, run_answer_bind] at h ⊢
      split at h
      · cases h
      next applied happly =>
        cases h
        exact ⟨fetched, applied, _, rfl, happly, rfl, rfl⟩

/-- What the check answers when the state opens the account. -/
theorem run_verify_ok {acc : OnChainAccount Point} (hsimulate : w.outside.simulate = .ok ())
    (hacc : rail.token.account w.chain rail.address = some acc)
    (hopen : acc.OpenedBy rail.crypto (w.stored rail)) :
    (Async.run (verifyAgainstChain rail).run w).2 = .ok ⟨true, true, true⟩ := by
  rw [verifyAgainstChain]
  simp only [run_current_bind, run_confidentialBalance_bind _ _ hsimulate, hacc]
  rw [hopen.spendable, hopen.receiving, decide_eq_true rfl, decide_eq_true rfl]
  rfl

end

/-! ## Runs -/

/-- Tabs start calls of the rail, or close; meanwhile the chain grows by calls
that may come next, and what the outside answers changes; its sources stay
complete. -/
def CtRail.Plays {ι : Type} (rail : CtRail Point) : Act (CtWorld Point) ι Unit → Prop
  | .start _ p => ∃ call : CtCall, p = call.program rail
  | .resume _ => True
  | .abort _ => True
  | .env f => ∀ w, (f w).store = w.store ∧ (f w).saves = w.saves ∧ w.chain <+: (f w).chain ∧
      (Run.Along rail.Next w.chain → Run.Along rail.Next (f w).chain) ∧
      (w.outside.Complete → (f w).outside.Complete)

/-- Before the first call. -/
def CtWorld.genesis (outside : CtOutside Point) : CtWorld Point := ⟨[], none, [], outside⟩

/-- The state after a run. -/
def played {ι : Type} [DecidableEq ι] (outside : CtOutside Point)
    (acts : List (Act (CtWorld Point) ι Unit)) : CtWorld Point :=
  (Run.run Sys.exec ⟨CtWorld.genesis outside, fun _ => none⟩ acts).state

/-- Once one more sync completes that sees the whole chain, the stored openings
open the commitments of the account. -/
def CtWorld.Tracks (rail : CtRail Point) (w : CtWorld Point) : Prop :=
  ∀ outside state, outside.simulate = .ok () → outside.UpToDate w.chain →
    (rail.token.account w.chain rail.address).isSome = true →
    (Async.run (sync rail).run { w with outside := outside }).2 = .ok state →
    (Async.run (sync rail >>= fun _ => verifyAgainstChain rail).run { w with outside := outside }).2
      = .ok ⟨true, true, true⟩

theorem CtWorld.sound_genesis {outside : CtOutside Point} (hsources : outside.Complete) :
    (CtWorld.genesis outside).Sound rail :=
  ⟨Run.along_nil, hsources, Nat.zero_le _, fun _ hsave => (List.not_mem_nil hsave).elim, fun _ =>
    ⟨derived_fresh _, fun _ hsave => (List.not_mem_nil hsave).elim⟩⟩

/-- The invariant holds after a run, which takes nothing back. -/
theorem played_sound {ι : Type} [DecidableEq ι] {acts l : List (Act (CtWorld Point) ι Unit)}
    (hacts : ∀ a ∈ acts, rail.Plays a) {outside : CtOutside Point}
    (hsources : outside.Complete) (hl : l <+: acts) :
    (played outside l).Sound rail ∧ (played outside l).Grows (played outside acts) := by
  have hrun : ∀ k m : List (Act (CtWorld Point) ι Unit), (∀ a ∈ m, rail.Plays a) → k <+: m →
      (played outside m).Sound rail ∧ (played outside k).Grows (played outside m) := by
    intro k m hm hk
    refine Sys.safe_run CtWorld.Grows.refl CtWorld.Grows.trans ?_ ?_
      (CtWorld.sound_genesis hsources) hm hk
    · rintro i p ⟨call, rfl⟩ w hw
      exact call.program_safe hw
    · intro f w hf hw
      obtain ⟨hstore, hsaves, hchain, hnext, hcomplete⟩ := hf w
      exact ⟨hw.grow hchain (hnext hw.chain) (hcomplete hw.sources) hstore hsaves, hchain,
        hsaves ▸ List.prefix_refl _⟩
  have hpre : ∀ a ∈ l, rail.Plays a := fun a ha => hacts a (hl.subset ha)
  exact ⟨(hrun l l hpre (List.prefix_refl _)).1, (hrun l acts hacts hl).2⟩

/-- Of a sound state whose saves fit. -/
theorem CtWorld.Sound.tracks {w : CtWorld Point} (hw : w.Sound rail) (hfits : w.Fits rail)
    (hdoc : rail.token.Documented rail.crypto rail.addrF) : w.Tracks rail := by
  intro outside state hsimulate huptodate hregistered hsync
  obtain ⟨fetched, applied, syncedLedger, hfetched, happly, hstate, hrun⟩ := run_sync_ok hsync
  obtain ⟨acc, hacc⟩ := Option.isSome_iff_exists.mp hregistered
  have hderived := (hw.derived hfits).1
  have hfrom := huptodate _ _ hfetched hw.past_le
  have hsynced : Derived rail w.chain state := by
    rw [hfrom.events] at happly
    rw [hstate, hfrom.cursor]
    exact hderived.sync hw.past_le le_rfl happly _
  have hpast : w.chain.length ≤ state.past := by
    rw [hstate, hfrom.cursor]
    exact le_rfl
  have hopens := hsynced.opens hdoc hw.chain hpast
  rw [hacc] at hopens
  rw [run_bind_ok hrun]
  exact run_verify_ok hsimulate hacc hopens.2.2

/-- In every run of which all saves of `setSpendable` fit, and in every state
that it reaches, the stored openings track the chain, and no save has taken
anything back. The syncs of the run leave no event out.

The invariant holds after the prefix (`played_sound`). The saves of the prefix
are among those of the whole run, so they fit, and what is stored is derived. -/
theorem tracks_of_fits {ι : Type} [DecidableEq ι] {acts : List (Act (CtWorld Point) ι Unit)}
    (hdoc : rail.token.Documented rail.crypto rail.addrF) (hacts : ∀ a ∈ acts, rail.Plays a)
    {outside : CtOutside Point} (hsources : outside.Complete)
    (hfits : ∀ save ∈ (played outside acts).saves, save.Fits rail (played outside acts).chain)
    {l : List (Act (CtWorld Point) ι Unit)} (hl : l <+: acts) :
    (played outside l).Tracks rail ∧
      ∀ save ∈ (played outside l).saves, ¬ save.Loses rail (played outside l).chain := by
  obtain ⟨hsound, hgrows⟩ := played_sound hacts hsources hl
  have hpre : (played outside l).Fits rail := hgrows.fits hsound hfits
  exact ⟨hsound.tracks hpre hdoc, fun save hsave =>
    (hpre save hsave).not_loses ((hsound.derived hpre).2 save hsave)⟩

/-! ## A merge that is synced before the save -/

/-- A call of somebody, in the chain if the token accepts it. -/
def CtRail.land (rail : CtRail Point) (call : TokenCall Point) (w : CtWorld Point) :
    CtWorld Point :=
  if rail.token.accepts w.chain (w.tx call) then { w with chain := w.chain ++ [w.tx call] } else w

theorem CtRail.land_plays {ι : Type} {call : TokenCall Point} (hcall : rail.Registers call) :
    rail.Plays (.env (rail.land call) : Act (CtWorld Point) ι Unit) := by
  intro w
  rw [CtRail.land]
  split
  next haccepts =>
    exact ⟨rfl, rfl, List.prefix_append _ _, fun hchain =>
      Run.along_snoc hchain ⟨haccepts, hcall⟩, id⟩
  next => exact ⟨rfl, rfl, List.prefix_refl _, id, id⟩

/-- The curve's points by their logarithms, and a small permutation. -/
def smallCrypto : CtCrypto (ZMod fpModulus) where
  permute := fun (a, b, c, d) =>
    ((2 * a + 3 * b + 5 * c + 7 * d + 1) % 61, (a + b + 11) % 61, (b + c + 13) % 61, (c + d) % 61)
  G := 3
  H := 1
  x := ZMod.val
  order P := by rw [nsmul_eq_mul, ZMod.natCast_self, zero_mul]
  free s t hs ht h := by
    rw [nsmul_eq_mul, nsmul_eq_mul, mul_one, mul_one, ZMod.natCast_eq_natCast_iff',
      Nat.mod_eq_of_lt hs, Nat.mod_eq_of_lt ht] at h
    exact h

def holder : String := "CCH2EB4POGCUBF5FJ7HTGKUEJDQ2TWIFEE35JOCAEF6RBEXCBHNXF4HK"

def holderKeys : KeyPair (ZMod fpModulus) := deriveKeys smallCrypto 5 2

/-- A proof is made of a withdrawal of 4 from 10. -/
def withdrawalProof : Proved (ZMod fpModulus) where
  withdrawals := match buildWithdrawWitness smallCrypto holderKeys ⟨10, 0⟩ 4 17 23 29 with
    | .ok witness => [witness.inputs]
    | .error _ => []
  transfers := []

def holderRail : CtRail (ZMod fpModulus) where
  crypto := smallCrypto
  token := ledgerToken smallCrypto 2 withdrawalProof
  address := holder
  sk := 5
  sk_lt := by decide
  addrF := 2
  auditorId := 0

def reachableOutside : CtOutside (ZMod fpModulus) where
  fetchEvents chain startCursor := .ok
    ⟨(chain.drop (startCursor.getD 0)).map Landed.event, some chain.length, 3900700⟩
  simulate := .ok ()
  auditorKey _ := .ok 17
  publicBalance := .ok 0
  salt := 23
  ephemeral := 29
  proverUp := .ok ()
  submit := ⟨true, 3900700, "9f2c", "0016753378854010880-0000000001", true, ""⟩

theorem reachableOutside_upToDate (chain : List (Landed (ZMod fpModulus))) :
    reachableOutside.UpToDate chain := by
  intro startCursor fetched h hstart
  cases h
  exact ⟨hstart, le_rfl, by rw [List.take_length], rfl⟩

theorem reachableOutside_complete : reachableOutside.Complete :=
  fun chain startCursor fetched h hstart =>
    ⟨_, reachableOutside_upToDate chain startCursor fetched h hstart⟩

/-- A call with its first `n` accesses. -/
def ctCallActs (i : Fin 3) (n : Nat) (call : CtCall) :
    List (Act (CtWorld (ZMod fpModulus)) (Fin 3) Unit) :=
  .start i (call.program holderRail) :: List.replicate n (.resume i)

/-- The account is registered, and has 10 to spend. -/
def fundedActs : List (Act (CtWorld (ZMod fpModulus)) (Fin 3) Unit) :=
  [.env (holderRail.land (.register holder 0 holderKeys.Y holderKeys.PVK)),
    .env (holderRail.land (.deposit holder holder 10)),
    .env (holderRail.land (.merge holder))]

/-- A withdrawal that has landed and is not answered yet; then a deposit. -/
def withdrawingActs : List (Act (CtWorld (ZMod fpModulus)) (Fin 3) Unit) :=
  fundedActs ++ ctCallActs 0 7 (.withdraw 4) ++
    [.env (holderRail.land (.deposit holder holder 3))]

/-- The deposit is merged, and a refresh syncs, before the withdrawal goes
on. -/
def mergedMeanwhile : List (Act (CtWorld (ZMod fpModulus)) (Fin 3) Unit) :=
  withdrawingActs ++ ctCallActs 1 2 .merge ++ ctCallActs 2 8 .refresh ++
    List.replicate 3 (.resume 0)

/-- Without the merge. -/
def refreshedMeanwhile : List (Act (CtWorld (ZMod fpModulus)) (Fin 3) Unit) :=
  withdrawingActs ++ ctCallActs 2 8 .refresh ++ List.replicate 3 (.resume 0)

theorem ctCallActs_plays {i : Fin 3} {n : Nat} {call : CtCall} :
    ∀ a ∈ ctCallActs i n call, holderRail.Plays a := by
  intro a ha
  rcases List.mem_cons.mp ha with rfl | ha
  · exact ⟨call, rfl⟩
  · obtain ⟨-, rfl⟩ := List.mem_replicate.mp ha
    exact True.intro

theorem withdrawingActs_plays : ∀ a ∈ withdrawingActs, holderRail.Plays a := by
  intro a ha
  simp only [withdrawingActs, fundedActs, List.mem_append, List.mem_cons, List.not_mem_nil,
    or_false] at ha
  rcases ha with ((rfl | rfl | rfl) | ha) | rfl
  · refine CtRail.land_plays ?_
    exact fun _ => ⟨rfl, rfl⟩
  · refine CtRail.land_plays ?_
    exact True.intro
  · refine CtRail.land_plays ?_
    exact True.intro
  · exact ctCallActs_plays a ha
  · refine CtRail.land_plays ?_
    exact True.intro

/-- All calls have settled, the store is past the merge, and the withdrawal's
opening stands where the merge's was; a sync does not repair it. -/
theorem setSpendable_overwrites_merge :
    holderRail.token.Documented holderRail.crypto holderRail.addrF ∧
      (∀ a ∈ mergedMeanwhile, holderRail.Plays a) ∧
      (∀ i, ((Run.run Sys.exec ⟨CtWorld.genesis reachableOutside, fun _ => none⟩
        mergedMeanwhile).thread i).isNone = true) ∧
      reachableOutside.Complete ∧
      ¬ (played reachableOutside mergedMeanwhile).Tracks holderRail ∧
      ∃ save ∈ (played reachableOutside mergedMeanwhile).saves,
        save.Loses holderRail (played reachableOutside mergedMeanwhile).chain := by
  refine ⟨ledgerToken_documented _ _ _, fun a ha => ?_, by decide +kernel,
    reachableOutside_complete, ?_, ?_⟩
  · simp only [mergedMeanwhile, List.mem_append] at ha
    rcases ha with ((ha | ha) | ha) | ha
    · exact withdrawingActs_plays a ha
    · exact ctCallActs_plays a ha
    · exact ctCallActs_plays a ha
    · obtain ⟨-, rfl⟩ := List.mem_replicate.mp ha
      exact True.intro
  · intro htracks
    have hverified := htracks reachableOutside
      ⟨holder, ⟨6, 33⟩, ⟨0, 0⟩, true, some 6, 3900700⟩ rfl (reachableOutside_upToDate _)
      (by decide +kernel) (by decide +kernel)
    exact absurd hverified (by decide +kernel)
  · refine ⟨⟨⟨holder, ⟨9, 33⟩, ⟨0, 0⟩, true, some 6, 3900700⟩,
      some ⟨holder, ⟨9, 33⟩, ⟨0, 0⟩, true, some 6, 3900700⟩, ⟨6, 33⟩⟩, by decide +kernel, ?_⟩
    exact ⟨_, 3, ⟨holder, ⟨9, 33⟩, ⟨0, 0⟩, true, none, 3900700⟩, rfl, by decide +kernel,
      by decide +kernel, by decide +kernel, by decide +kernel⟩

/-- When only a deposit is synced meanwhile, nothing is lost. -/
theorem tracks_of_fits_refreshed :
    (played reachableOutside refreshedMeanwhile).Tracks holderRail ∧
      ∀ save ∈ (played reachableOutside refreshedMeanwhile).saves,
        ¬ save.Loses holderRail (played reachableOutside refreshedMeanwhile).chain := by
  refine tracks_of_fits (ledgerToken_documented _ _ _) (fun a ha => ?_)
    reachableOutside_complete ?_ (List.prefix_refl _)
  · simp only [refreshedMeanwhile, List.mem_append] at ha
    rcases ha with (ha | ha) | ha
    · exact withdrawingActs_plays a ha
    · exact ctCallActs_plays a ha
    · obtain ⟨-, rfl⟩ := List.mem_replicate.mp ha
      exact True.intro
  · have hsaves : (played reachableOutside refreshedMeanwhile).saves
        = [⟨⟨holder, ⟨6, 33⟩, ⟨3, 0⟩, true, some 5, 3900700⟩,
          some ⟨holder, ⟨6, 33⟩, ⟨3, 0⟩, true, some 5, 3900700⟩, ⟨6, 33⟩⟩] := by
      decide +kernel
    have hreplay : holderRail.replay ((played reachableOutside refreshedMeanwhile).chain.take 5)
        = .ok ⟨holder, ⟨6, 33⟩, ⟨3, 0⟩, true, none, 3900700⟩ := by
      decide +kernel
    intro save hsave
    rw [hsaves, List.mem_singleton] at hsave
    subst hsave
    refine ⟨fun p _ _ full hfull => ?_, fun state hstate => Or.inl ?_⟩
    · cases hfull.symm.trans hreplay
      rfl
    · cases hstate
      rfl

end Wallet

end PrivacyWallet
