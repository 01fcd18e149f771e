import PrivacyWallet.Lib.Guarantee

/-!
# The wallet provider and the bundle slot

The provider's state is written by four `async` operations and read by the
pages; the privacy bundle lies in one slot of the browser's IndexedDB, which
other tabs write too. An operation is cut where it awaits; what the outside
answers (the passkey kit, the RPC, the user, IndexedDB) may change between any
two accesses.

The invariant is that the wallet that is connected owns the bundle, and no
bundle stands beside a mismatch (`WalletState.Inv`). What an operation asks
for keeps it in whatever state it lands (`StateUpdate.Sound.inv`), with one
exception: `refreshBundle` sets the bundle that it loaded and leaves the
rest, which keeps it exactly if the bundle fits the state (`inv_bundle_iff`).
That the operations ask for no more is shown by going through their code,
access by access (`op_createWallet`, `op_connectExisting` and the others),
so a step of a tab is one such update or none (`TabStep`).

`tabAfter_invariant` carries this over the interleavings, and
`provider_inv_iff` asks for no more than is needed: the invariant holds in
all states of a run exactly if each bundle that `refreshBundle` loaded fits
the state that its update found.
-/

namespace PrivacyWallet

namespace Wallet

/-! ## `privacy-bundle.ts` -/

structure SerializedKeyPair where
  sk : String
  addrF : String
deriving DecidableEq

/-- A bundle saved before it was paired has no `walletContractId`. -/
structure PrivacyBundle where
  ctKeys : SerializedKeyPair
  sppRootSecret : String
  createdAt : String
  walletContractId : Option String
deriving DecidableEq

/-- `bundle.walletContractId`, if truthy -/
def PrivacyBundle.owner (bundle : PrivacyBundle) : Option String :=
  bundle.walletContractId.filter fun id => decide (id ≠ "")

inductive WalletStatus where
  | restoring
  | creating
  | connecting
  | connected
  | disconnected
deriving DecidableEq

structure WalletState where
  status : WalletStatus
  contractId : Option String
  credentialId : Option String
  bundle : Option PrivacyBundle
  bundleMismatch : Bool
  error : Option String
deriving DecidableEq

/-- What the operations call `setState` with. -/
inductive StateUpdate where
  /-- a whole state -/
  | whole (state : WalletState)
  /-- `creating` or `connecting` -/
  | begin (status : WalletStatus)
  | disconnected
  | failed (message : String)
  | bundle (loaded : Option PrivacyBundle)
deriving DecidableEq

def StateUpdate.apply (s : WalletState) : StateUpdate → WalletState
  | .whole state => state
  | .begin status => { s with status := status, bundleMismatch := false, error := none }
  | .disconnected => { s with status := .disconnected }
  | .failed message => { s with status := .disconnected, error := some message }
  | .bundle loaded => { s with bundle := loaded }

/-! ## What lies outside -/

structure WalletSession where
  contractId : String
  credentialId : String
deriving DecidableEq

/-- `submitResult` of `kit.createWallet` -/
inductive SubmitResult where
  | success (hash : String)
  | failure (message : String)

structure CreateWalletResult where
  contractId : String
  credentialId : String
  submitResult : Option SubmitResult

/-- The outside at one moment. -/
structure Outside where
  /-- `kit.connectWallet({ prompt })` -/
  connectWallet : Bool → Except String (Option WalletSession)
  /-- `kit.createWallet` -/
  createWallet : String → Except String CreateWalletResult
  /-- `Server.fundAddress` -/
  fundAddress : String → Except String Unit
  /-- `window.confirm` -/
  confirm : String → Bool
  /-- whether IndexedDB throws -/
  idb : Except String Unit
  /-- `serializeKeys(generateKeys(addrF))` -/
  generateKeys : Nat → SerializedKeyPair
  /-- `Keypair.random().secret()` -/
  randomSecret : String
  /-- `new Date().toISOString()` -/
  now : String
  /-- `importBackup` of a file and a passphrase -/
  importBackup : String → String → Except String PrivacyBundle
  /-- whether the cleanup of a restore effect has run -/
  cancelled : Nat → Bool

/-- The functions of other modules that the operations use. -/
structure WalletLib where
  /-- `StrKey.isValidContract` -/
  isValidContract : String → Bool
  humanizeRelayerError : String → Option String
  assertAddrFMatchesDeployedToken : Except String Nat

/-- A tab: the provider's state, the updates so far with the state that each
found, the slot, and the outside. -/
structure Tab where
  state : WalletState
  updates : List (WalletState × StateUpdate)
  slot : Option PrivacyBundle
  outside : Outside

def Tab.setState (tab : Tab) (u : StateUpdate) : Tab :=
  { tab with state := u.apply tab.state, updates := tab.updates ++ [(tab.state, u)] }

def initialState : WalletState := ⟨.restoring, none, none, none, false, none⟩

/-! ## The operations -/

abbrev TabOp := ExceptT String (Async Tab)

def tab : TabOp Tab := ExceptT.lift Async.read

def setState (u : StateUpdate) : TabOp Unit := ExceptT.lift (Async.update (·.setState u))

/-- What the answer to an `await` is. -/
def settled {α : Type} (result : Except String α) : TabOp α := ExceptT.mk (pure result)

def loadBundle : TabOp (Option PrivacyBundle) := do
  let t ← tab
  settled t.outside.idb
  pure t.slot

def saveBundle (bundle : PrivacyBundle) : TabOp Unit := do
  let t ← tab
  settled t.outside.idb
  ExceptT.lift (Async.update fun t => { t with slot := some bundle })

def createBundle (lib : WalletLib) (cAddress : String) : TabOp PrivacyBundle := do
  if !lib.isValidContract cAddress then
    throw s!"createBundle: expected a contract (C...) address, got: {cAddress}"
  let addrF ← settled lib.assertAddrFMatchesDeployedToken
  let t ← tab
  pure
    { ctKeys := t.outside.generateKeys addrF
      sppRootSecret := t.outside.randomSecret
      createdAt := t.outside.now
      walletContractId := some cAddress }

structure BundleLookupResult where
  bundle : Option PrivacyBundle
  mismatch : Bool

def resolveBundleForWallet (contractId : String) : TabOp BundleLookupResult := do
  match ← loadBundle with
  | none => pure ⟨none, false⟩
  | some stored =>
      match stored.owner with
      | none =>
          let stamped := { stored with walletContractId := some contractId }
          saveBundle stamped
          pure ⟨some stamped, false⟩
      | some owner =>
          if owner ≠ contractId then pure ⟨none, true⟩ else pure ⟨some stored, false⟩

def ownerMismatchMessage (bundleOwner connectedWallet : String) : String :=
  s!"This backup belongs to wallet {bundleOwner}, not the connected wallet {connectedWallet}. " ++
    "Restore the correct wallet's backup file instead."

def pairImportedBundle (imported : PrivacyBundle) (contractId : String) :
    Except String PrivacyBundle :=
  match imported.owner with
  | none => .ok { imported with walletContractId := some contractId }
  | some owner =>
      if owner ≠ contractId then .error (ownerMismatchMessage owner contractId) else .ok imported

def connectedState (session : WalletSession) (found : BundleLookupResult) : WalletState :=
  ⟨.connected, some session.contractId, some session.credentialId, found.bundle, found.mismatch, none⟩

/-- The effect on mount; `effect` tells its flag from those of other mounts. -/
def restoreEffect (effect : Nat) : TabOp Unit :=
  tryCatch
    (do
      let t ← tab
      let result ← settled (t.outside.connectWallet false)
      if t.outside.cancelled effect then
        return
      match result with
      | some session =>
          let found ← resolveBundleForWallet session.contractId
          setState (.whole (connectedState session found))
      | none => setState .disconnected)
    fun message => do
      let t ← tab
      if t.outside.cancelled effect then
        return
      setState (.failed message)

def assertDeployed (lib : WalletLib) : Option SubmitResult → Except String Unit
  | some (.failure raw) => .error ((lib.humanizeRelayerError raw).getD raw)
  | some (.success _) => .ok ()
  | none => .error "Wallet deployment did not submit (no submitResult)."

def replaceMessage (owner : String) : String :=
  s!"This browser already holds privacy keys for {owner}. Creating a new wallet will " ++
    "replace them here — connect with that wallet's passkey and export a backup first " ++
    "if you haven't.\n\nContinue and create a new wallet anyway?"

structure Created where
  contractId : String
  bundle : PrivacyBundle

def createWallet (lib : WalletLib) (userName : String) : TabOp Created := do
  setState (.begin .creating)
  tryCatch
    (do
      let existing ← loadBundle
      match existing with
      | none => pure ()
      | some held =>
          let owner := held.owner.getD "an earlier wallet created in this browser"
          let t ← tab
          if !t.outside.confirm (replaceMessage owner) then
            throw ("Wallet creation canceled: this browser's existing privacy keys were kept. " ++
              "Connect with the existing wallet's passkey and export a backup, then try again.")
      let t ← tab
      let result ← settled (t.outside.createWallet userName)
      settled (assertDeployed lib result.submitResult)
      tryCatch
        (do
          let t ← tab
          settled (t.outside.fundAddress result.contractId))
        fun _ => pure ()
      let bundle ← createBundle lib result.contractId
      saveBundle bundle
      setState (.whole
        (connectedState ⟨result.contractId, result.credentialId⟩ ⟨some bundle, false⟩))
      pure ⟨result.contractId, bundle⟩)
    fun message => do
      setState (.failed message)
      throw message

structure Connected where
  contractId : String
  bundleMissing : Bool
  bundleMismatch : Bool

def connectExisting : TabOp Connected := do
  setState (.begin .connecting)
  tryCatch
    (do
      let t ← tab
      match ← settled (t.outside.connectWallet true) with
      | none => throw "No passkey selected."
      | some session =>
          let found ← resolveBundleForWallet session.contractId
          setState (.whole (connectedState session found))
          pure ⟨session.contractId, found.bundle.isNone, found.mismatch⟩)
    fun message => do
      setState (.failed message)
      throw message

def refreshBundle : TabOp Unit := do
  let bundle ← loadBundle
  setState (.bundle bundle)

/-- The submit of the restore page; the error it shows is its throw. -/
def handleSubmit (file passphrase : String) : TabOp Unit := do
  let t ← tab
  match t.state.contractId with
  | none => pure ()
  | some contractId =>
      let t ← tab
      let imported ← settled (t.outside.importBackup file passphrase)
      let paired ← settled (pairImportedBundle imported contractId)
      saveBundle paired
      refreshBundle

inductive TabCall where
  | restoreEffect (effect : Nat)
  | createWallet (userName : String)
  | connectExisting
  | refreshBundle
  | handleSubmit (file passphrase : String)

/-- The program of a call; its callers go on whether it throws or not. -/
def TabCall.program (lib : WalletLib) : TabCall → Async Tab Unit
  | .restoreEffect effect => do
      let _ ← (Wallet.restoreEffect effect).run
  | .createWallet userName => do
      let _ ← (Wallet.createWallet lib userName).run
  | .connectExisting => do
      let _ ← Wallet.connectExisting.run
  | .refreshBundle => do
      let _ ← Wallet.refreshBundle.run
  | .handleSubmit file passphrase => do
      let _ ← (Wallet.handleSubmit file passphrase).run

/-! ## The invariant -/

/-- The wallet that is connected owns the bundle, and no bundle is shown beside
a mismatch. -/
structure WalletState.Inv (s : WalletState) : Prop where
  owned : s.status = .connected → ∀ b, s.bundle = some b → b.walletContractId = s.contractId
  withheld : s.bundleMismatch = true → s.bundle = none

/-- A bundle that `refreshBundle` loaded fits the state: it is missing, or no
mismatch is shown and a wallet that is connected owns it. -/
def Fits (s : WalletState) (loaded : Option PrivacyBundle) : Prop :=
  ∀ b, loaded = some b →
    s.bundleMismatch = false ∧ (s.status = .connected → b.walletContractId = s.contractId)

theorem inv_initial : initialState.Inv where
  owned h := by cases h
  withheld h := by cases h

theorem inv_bundle_iff {s : WalletState} {loaded : Option PrivacyBundle} :
    ((StateUpdate.bundle loaded).apply s).Inv ↔ Fits s loaded := by
  constructor
  · intro h b hb
    refine ⟨?_, fun hconnected => h.owned hconnected b hb⟩
    cases hmismatch : s.bundleMismatch with
    | false => rfl
    | true =>
        have hnone : loaded = none := h.withheld hmismatch
        rw [hnone] at hb
        cases hb
  · intro h
    refine ⟨fun hconnected b hb => (h b hb).2 hconnected, fun hmismatch => ?_⟩
    cases hloaded : loaded with
    | none => rfl
    | some b =>
        have hfalse := (h b hloaded).1
        change s.bundleMismatch = true at hmismatch
        rw [hmismatch] at hfalse
        cases hfalse

/-- What an operation may ask for, whatever the state. -/
def StateUpdate.Sound : StateUpdate → Prop
  | .whole state => state.Inv
  | .begin status => status ≠ .connected
  | .disconnected => True
  | .failed _ => True
  | .bundle _ => True

theorem sound_begin {status : WalletStatus} (h : status ≠ .connected) :
    (StateUpdate.begin status).Sound := h

theorem sound_failed (message : String) : (StateUpdate.failed message).Sound := True.intro

theorem StateUpdate.Sound.inv {u : StateUpdate} (hu : u.Sound) {s : WalletState} (hs : s.Inv)
    (hfits : ∀ loaded, u = .bundle loaded → Fits s loaded) : (u.apply s).Inv := by
  cases u with
  | whole state => exact hu
  | begin status => exact ⟨fun h => absurd h hu, fun h => (by cases h)⟩
  | disconnected => exact ⟨fun h => (by cases h), hs.withheld⟩
  | failed message => exact ⟨fun h => (by cases h), hs.withheld⟩
  | bundle loaded => exact inv_bundle_iff.mpr (hfits loaded rfl)

/-- A step of a tab: one update of the state, or none. -/
def TabStep (t t' : Tab) : Prop :=
  (t'.state = t.state ∧ t'.updates = t.updates) ∨ ∃ u : StateUpdate, u.Sound ∧ t' = t.setState u

theorem TabStep.refl (t : Tab) : TabStep t t := .inl ⟨rfl, rfl⟩

/-! ## What the operations may do -/

open Async

abbrev Op {α : Type} (Q : α → Prop) (x : TabOp α) : Prop := Throwing TabStep Q x

theorem op_tab : Op (fun _ => True) tab := throwing_lift (within_read TabStep.refl)

theorem op_setState {u : StateUpdate} (hu : u.Sound) : Op (fun _ => True) (setState u) :=
  throwing_lift (within_update fun _ => .inr ⟨u, hu, rfl⟩)

theorem op_settled {α : Type} (result : Except String α) :
    Op (fun a => result = .ok a) (settled result) :=
  throwing_ofExcept fun _ h => h

theorem op_loadBundle : Op (fun _ => True) loadBundle :=
  op_tab.bind fun _ _ => (op_settled _).bind fun _ _ => throwing_pure True.intro

theorem op_saveBundle (bundle : PrivacyBundle) : Op (fun _ => True) (saveBundle bundle) :=
  op_tab.bind fun _ _ => (op_settled _).bind fun _ _ =>
    throwing_lift (within_update fun _ => .inl ⟨rfl, rfl⟩)

/-- What is found for a wallet may be shown with it. -/
def BundleLookupResult.For (found : BundleLookupResult) (contractId : String) : Prop :=
  (∀ b, found.bundle = some b → b.walletContractId = some contractId) ∧
    (found.mismatch = true → found.bundle = none)

theorem BundleLookupResult.For.inv {found : BundleLookupResult} {session : WalletSession}
    (h : found.For session.contractId) : (connectedState session found).Inv :=
  ⟨fun _ => h.1, h.2⟩

theorem owner_eq_some {bundle : PrivacyBundle} {owner : String} (h : bundle.owner = some owner) :
    bundle.walletContractId = some owner :=
  (Option.filter_eq_some_iff.mp h).1

theorem op_resolveBundleForWallet (contractId : String) :
    Op (·.For contractId) (resolveBundleForWallet contractId) := by
  refine op_loadBundle.bind fun stored _ => ?_
  cases stored with
  | none => exact throwing_pure ⟨fun b hb => (by cases hb), fun _ => rfl⟩
  | some stored =>
      dsimp only
      cases howner : stored.owner with
      | none =>
          refine (op_saveBundle _).bind fun _ _ =>
            throwing_pure ⟨fun b hb => ?_, fun h => by cases h⟩
          cases hb
          rfl
      | some owner =>
          dsimp only
          split
          · exact throwing_pure ⟨fun b hb => (by cases hb), fun _ => rfl⟩
          · rename_i hsame
            refine throwing_pure ⟨fun b hb => ?_, fun h => by cases h⟩
            cases hb
            rw [owner_eq_some howner, not_not.mp hsame]

theorem op_createBundle (lib : WalletLib) (cAddress : String) :
    Op (fun b => b.walletContractId = some cAddress) (createBundle lib cAddress) := by
  unfold createBundle
  split
  · exact Throwing.bind (Q := fun _ => False) (throwing_throw _) fun _ h => h.elim
  · exact (op_settled _).bind fun _ _ => op_tab.bind fun _ _ => throwing_pure rfl

theorem op_restoreEffect (effect : Nat) : Op (fun _ => True) (restoreEffect effect) := by
  refine Throwing.tryCatch ?_ fun message => ?_
  · refine op_tab.bind fun t _ => (op_settled _).bind fun result _ => ?_
    split
    · exact throwing_pure True.intro
    · cases result with
      | none => exact op_setState True.intro
      | some session =>
          exact (op_resolveBundleForWallet _).bind fun found hfound => op_setState hfound.inv
  · refine op_tab.bind fun t _ => ?_
    split
    · exact throwing_pure True.intro
    · exact op_setState (sound_failed _)

theorem op_createWallet (lib : WalletLib) (userName : String) :
    Op (fun _ => True) (createWallet lib userName) := by
  refine (op_setState (sound_begin (by decide))).bind fun _ _ =>
    Throwing.tryCatch ?_ fun message => ?_
  · refine op_loadBundle.bind fun existing _ => ?_
    have hcreate : Op (fun _ => True) (do
        let t ← tab
        let result ← settled (t.outside.createWallet userName)
        settled (assertDeployed lib result.submitResult)
        tryCatch
          (do
            let t ← tab
            settled (t.outside.fundAddress result.contractId))
          fun _ => pure ()
        let bundle ← createBundle lib result.contractId
        saveBundle bundle
        setState (.whole
          (connectedState ⟨result.contractId, result.credentialId⟩ ⟨some bundle, false⟩))
        pure (⟨result.contractId, bundle⟩ : Created)) := by
      refine op_tab.bind fun t _ => (op_settled _).bind fun result _ => ?_
      refine (op_settled _).bind fun _ _ => ?_
      refine (Throwing.tryCatch (Q := fun _ => True) ?_ fun _ => throwing_pure True.intro).bind
        fun _ _ => ?_
      · exact op_tab.bind fun _ _ => (op_settled _).mono fun _ _ => True.intro
      refine (op_createBundle lib _).bind fun bundle hbundle => ?_
      refine (op_saveBundle _).bind fun _ _ =>
        (op_setState ?_).bind fun _ _ => throwing_pure True.intro
      refine ⟨fun _ b hb => ?_, fun h => by cases h⟩
      cases hb
      exact hbundle
    cases existing with
    | none => exact hcreate
    | some held =>
        refine op_tab.bind fun t _ => ?_
        split
        · exact Throwing.bind (Q := fun _ => False) (throwing_throw _) fun _ h => h.elim
        · exact hcreate
  · exact (op_setState (sound_failed _)).bind fun _ _ => throwing_throw _

theorem op_connectExisting : Op (fun _ => True) connectExisting := by
  refine (op_setState (sound_begin (by decide))).bind fun _ _ => Throwing.tryCatch ?_
    fun message => ?_
  · refine op_tab.bind fun t _ => (op_settled _).bind fun result _ => ?_
    cases result with
    | none => exact throwing_throw _
    | some session =>
        refine (op_resolveBundleForWallet _).bind fun found hfound => ?_
        exact (op_setState (u := .whole _) hfound.inv).bind fun _ _ => throwing_pure True.intro
  · exact (op_setState (sound_failed _)).bind fun _ _ => throwing_throw _

theorem op_refreshBundle : Op (fun _ => True) refreshBundle :=
  op_loadBundle.bind fun _ _ => op_setState True.intro

theorem op_handleSubmit (file passphrase : String) :
    Op (fun _ => True) (handleSubmit file passphrase) := by
  refine op_tab.bind fun t _ => ?_
  cases t.state.contractId with
  | none => exact throwing_pure True.intro
  | some contractId =>
      refine op_tab.bind fun t _ => (op_settled _).bind fun imported _ => ?_
      refine (op_settled _).bind fun paired _ => (op_saveBundle _).bind fun _ _ => ?_
      exact op_refreshBundle

theorem within_program (lib : WalletLib) (call : TabCall) :
    (call.program lib).Within TabStep fun _ => True := by
  cases call with
  | restoreEffect effect => exact Within.bind (op_restoreEffect effect) fun _ _ => True.intro
  | createWallet userName => exact Within.bind (op_createWallet lib userName) fun _ _ => True.intro
  | connectExisting => exact Within.bind op_connectExisting fun _ _ => True.intro
  | refreshBundle => exact Within.bind op_refreshBundle fun _ _ => True.intro
  | handleSubmit file passphrase =>
      exact Within.bind (op_handleSubmit file passphrase) fun _ _ => True.intro

/-! ## Runs of a tab -/

/-- What happens in a tab: a call is started, an operation in flight goes on or
is dropped with the page, or other tabs and the outside do anything to the slot
and the answers. -/
def TabAct (lib : WalletLib) : Act Tab Nat Unit → Prop
  | .start _ p => ∃ call : TabCall, p = call.program lib
  | .resume _ => True
  | .abort _ => True
  | .env f => ∀ t, (f t).state = t.state ∧ (f t).updates = t.updates

/-- The tab after `acts`. -/
def tabAfter (slot : Option PrivacyBundle) (outside : Outside)
    (acts : List (Act Tab Nat Unit)) : Tab :=
  (Run.run Sys.exec ⟨⟨initialState, [], slot, outside⟩, fun _ => none⟩ acts).state

variable {lib : WalletLib} {slot : Option PrivacyBundle} {outside : Outside}
  {acts : List (Act Tab Nat Unit)}

theorem tabAfter_step (hacts : ∀ a ∈ acts, TabAct lib a) {l : List (Act Tab Nat Unit)}
    {a : Act Tab Nat Unit} (hl : l ++ [a] <+: acts) :
    TabStep (tabAfter slot outside l) (tabAfter slot outside (l ++ [a])) :=
  Sys.steps_within TabStep.refl
    (fun _ _ ⟨call, hp⟩ => hp ▸ within_program lib call) (fun _ t hf => .inl (hf t)) hacts hl

/-- What holds of the first tab and is kept by every step holds of every tab of
the run. -/
theorem tabAfter_invariant {I : Tab → Prop} (hfresh : I ⟨initialState, [], slot, outside⟩)
    (hstep : ∀ l a, l ++ [a] <+: acts → I (tabAfter slot outside l) →
      I (tabAfter slot outside (l ++ [a]))) : I (tabAfter slot outside acts) := by
  refine @Run.prefix_invariant _ _ Unit Sys.exec (fun _ _ => [])
    (fun (y : Sys Tab Nat Unit) _ => I y.state) ⟨⟨initialState, [], slot, outside⟩, fun _ => none⟩
    acts hfresh fun l a hl hI => ?_
  have hafter := hstep l a hl hI
  rw [tabAfter, Run.run_snoc] at hafter
  exact hafter

theorem TabStep.updates_grow {t t' : Tab} (h : TabStep t t') : t.updates <+: t'.updates := by
  rcases h with ⟨-, hsame⟩ | ⟨u, -, rfl⟩
  · exact hsame ▸ List.prefix_refl _
  · exact List.prefix_append _ _

/-- The updates of a run begin with those of its first part. -/
theorem updates_grow {l k : List (Act Tab Nat Unit)} (hacts : ∀ a ∈ l ++ k, TabAct lib a) :
    (tabAfter slot outside l).updates <+: (tabAfter slot outside (l ++ k)).updates := by
  induction k using List.reverseRecOn with
  | nil => simp
  | append_singleton k a ih =>
      rw [← List.append_assoc] at hacts ⊢
      have hstep := @tabAfter_step lib slot outside _ hacts _ _ (List.prefix_refl _)
      exact (ih fun b hb => hacts b (List.mem_append_left _ hb)).trans hstep.updates_grow

/-- In every run of a tab, the invariant holds in all states if and only if
every bundle that `refreshBundle` loaded fits the state that its update
found. -/
theorem provider_inv_iff (lib : WalletLib) (slot : Option PrivacyBundle) (outside : Outside)
    (acts : List (Act Tab Nat Unit)) (hacts : ∀ a ∈ acts, TabAct lib a) :
    (∀ l, l <+: acts → (tabAfter slot outside l).state.Inv) ↔
      ∀ found loaded, (found, .bundle loaded) ∈ (tabAfter slot outside acts).updates →
        Fits found loaded := by
  constructor
  · intro hinv
    refine tabAfter_invariant (I := fun t => ∀ found loaded,
      (found, .bundle loaded) ∈ t.updates → Fits found loaded)
      (fun _ _ h => by cases h) fun l a hl ih => ?_
    rcases tabAfter_step hacts hl with ⟨-, hsame⟩ | ⟨u, -, heq⟩
    · rw [hsame]
      exact ih
    · -- the state after the update has the invariant
      intro found loaded hmem
      rw [heq, Tab.setState] at hmem
      rcases List.mem_append.mp hmem with hmem | hmem
      · exact ih found loaded hmem
      · obtain ⟨rfl, rfl⟩ := Prod.mk.inj (List.mem_singleton.mp hmem)
        have hafter := hinv (l ++ [a]) hl
        rw [heq] at hafter
        exact inv_bundle_iff.mp hafter
  · intro hfits l hl
    obtain ⟨k, rfl⟩ := hl
    have hl : ∀ a ∈ l, TabAct lib a := fun a ha => hacts a (List.mem_append_left _ ha)
    have hinv := @tabAfter_invariant slot outside l
      (fun t => (∀ found loaded, (found, .bundle loaded) ∈ t.updates → Fits found loaded) →
        t.state.Inv) (fun _ => inv_initial) fun m a hm ih => ?_
    · exact hinv fun found loaded hmem =>
        hfits found loaded ((updates_grow hacts).subset hmem)
    rcases tabAfter_step hl hm with ⟨hstate, hsame⟩ | ⟨u, hu, heq⟩
    · rw [hstate, hsame]
      exact ih
    · intro hall
      rw [heq] at hall ⊢
      refine hu.inv (ih fun found loaded hmem =>
        hall found loaded (List.mem_append_left _ hmem)) fun loaded hloaded => ?_
      subst hloaded
      exact hall _ loaded (List.mem_append_right _ List.mem_cons_self)

/-! ## A backup that is restored -/

def firstWallet : String := "CCH2EB4POGCUBF5FJ7HTGKUEJDQ2TWIFEE35JOCAEF6RBEXCBHNXF4HK"
def otherWallet : String := "CCUPPFQZ76GMEFGCWL5DRGGFCL3IOBCUBQKL2ATWX5Z6X2EEKJDUPGAI"

def bundleOf (wallet : String) : PrivacyBundle where
  ctKeys := ⟨"0x02", "0x1c7eaa88b6e7b38066a07bfe60fc0da61efbce527e51267c124f94ecb258cb76"⟩
  sppRootSecret := "SCZANGBA5YHTNYVVV4C3U252E2B6P6F5T3U6MM63WBSBZATAQI3EBTQ4"
  createdAt := "2026-08-01T00:00:00.000Z"
  walletContractId := some wallet

def webLib : WalletLib where
  isValidContract _ := true
  humanizeRelayerError _ := none
  assertAddrFMatchesDeployedToken := .ok 2

/-- The user has the passkey and a backup of the first wallet. -/
def firstOutside : Outside where
  connectWallet _ := .ok (some ⟨firstWallet, "passkey"⟩)
  createWallet _ := .error "Failed to fetch"
  fundAddress _ := .error "Failed to fetch"
  confirm _ := false
  idb := .ok ()
  generateKeys _ := ⟨"0x03", "0x02"⟩
  randomSecret := "SBUMVJHCL5Y46U4W4EI4HOGKATTQDJP6TDPU6SMYOLUV5BTHJ54LG6KU"
  now := "2026-08-02T00:00:00.000Z"
  importBackup _ _ := .ok (bundleOf firstWallet)
  cancelled _ := false

/-- A call with its first `n` accesses. -/
def callActs (i n : Nat) (call : TabCall) : List (Act Tab Nat Unit) :=
  .start i (call.program webLib) :: List.replicate n (.resume i)

theorem callActs_tabAct {i n : Nat} {call : TabCall} :
    ∀ a ∈ callActs i n call, TabAct webLib a := by
  intro a ha
  rcases List.mem_cons.mp ha with rfl | ha
  · exact ⟨call, rfl⟩
  · obtain ⟨-, rfl⟩ := List.mem_replicate.mp ha
    exact True.intro

/-- A passkey login and the restore of a backup. -/
def loginAndRestore : List (Act Tab Nat Unit) :=
  callActs 0 4 .connectExisting ++ callActs 1 6 (.handleSubmit "backup.json" "passphrase")

/-- Another tab writes its wallet's bundle before the restored one is read. -/
def loginAndRestoreOver : List (Act Tab Nat Unit) :=
  callActs 0 4 .connectExisting ++ callActs 1 4 (.handleSubmit "backup.json" "passphrase")
    ++ [.env fun t => { t with slot := some (bundleOf otherWallet) }, .resume 1, .resume 1]

/-- The slot holds another wallet's bundle at the login; restoring the own
backup shows it beside the mismatch. And a restored bundle may turn out to be
another wallet's. -/
theorem refreshBundle_breaks_invariant :
    (tabAfter (some (bundleOf otherWallet)) firstOutside loginAndRestore).state
        = ⟨.connected, some firstWallet, some "passkey", some (bundleOf firstWallet), true, none⟩ ∧
      ¬(tabAfter (some (bundleOf otherWallet)) firstOutside loginAndRestore).state.Inv ∧
      (tabAfter none firstOutside loginAndRestoreOver).state
        = ⟨.connected, some firstWallet, some "passkey", some (bundleOf otherWallet), false, none⟩ ∧
      ¬(tabAfter none firstOutside loginAndRestoreOver).state.Inv := by
  have hmismatch : (tabAfter (some (bundleOf otherWallet)) firstOutside loginAndRestore).state
      = ⟨.connected, some firstWallet, some "passkey", some (bundleOf firstWallet), true, none⟩ := by
    rfl
  have hforeign : (tabAfter none firstOutside loginAndRestoreOver).state
      = ⟨.connected, some firstWallet, some "passkey", some (bundleOf otherWallet), false, none⟩ := by
    rfl
  refine ⟨hmismatch, fun h => ?_, hforeign, fun h => ?_⟩
  · rw [hmismatch] at h
    cases h.withheld rfl
  · rw [hforeign] at h
    exact absurd (h.owned rfl _ rfl) (by decide +kernel)

/-- With an empty slot, the login and the restore keep the invariant. -/
theorem provider_inv_iff_restored :
    (tabAfter none firstOutside loginAndRestore).state
        = ⟨.connected, some firstWallet, some "passkey", some (bundleOf firstWallet), false, none⟩ ∧
      ∀ l, l <+: loginAndRestore → (tabAfter none firstOutside l).state.Inv := by
  refine ⟨by rfl, (provider_inv_iff webLib none firstOutside loginAndRestore fun a ha => ?_).mpr ?_⟩
  · rcases List.mem_append.mp ha with ha | ha
    · exact callActs_tabAct a ha
    · exact callActs_tabAct a ha
  · have hupdates : (tabAfter none firstOutside loginAndRestore).updates
        = [(initialState, .begin .connecting),
          (⟨.connecting, none, none, none, false, none⟩,
            .whole ⟨.connected, some firstWallet, some "passkey", none, false, none⟩),
          (⟨.connected, some firstWallet, some "passkey", none, false, none⟩,
            .bundle (some (bundleOf firstWallet)))] := by
      rfl
    intro found loaded hmem
    rw [hupdates] at hmem
    simp only [List.mem_cons, Prod.mk.injEq, reduceCtorEq, and_false, StateUpdate.bundle.injEq,
      List.not_mem_nil, or_false, false_or] at hmem
    obtain ⟨rfl, rfl⟩ := hmem
    intro b hb
    cases hb
    exact ⟨rfl, fun _ => rfl⟩

end Wallet

end PrivacyWallet
