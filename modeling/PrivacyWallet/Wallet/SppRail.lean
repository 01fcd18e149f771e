import Mathlib.Data.List.Infix
import PrivacyWallet.Lib.Run
import PrivacyWallet.Lib.Task

/-!
# Connecting the shielded rail

`SppRail.connect` opens the SDK's storage in the middle of its awaits, and
`connectSppRail` keeps one connect in a slot that is filled before the connect
settles and emptied when it fails. A page's life is a list of calls of
`connectSppRail`, of answers that the SDK gives to the connects in flight, and
of runs of their `catch` handlers, in any order.

A connect is a program of awaits, so that it opens a storage at most once is
a fact of the program alone (`connect_once`). `PageInv` puts the connects of
a page together: none opens twice, and of all of them only the one in the
slot has not failed. Each kind of step is first said in full
(`connectSppRail_cases`, `settle_cases`, `caught_cases`), and the invariant
is kept case by case (`PageInv.step`).

- **one storage** - with the invariant, an answer that opens a storage is
  for the connect in the slot, and every earlier one has failed. If none of
  these had opened one, it is the first (`one_storage_of_noneAfterFailure`);
  if one had, it is the second (`opened_twice`).
- **what callers get** - entries keep their place and their key
  (`entry_step`), so the promise of a call is of an entry with the caller's
  key, and its outcome is that entry's (`PageInv.served`).

`one_storage_iff` joins the two. `retry_opens_second_storage` is the run that
fails after the storage was opened.
-/

namespace PrivacyWallet

namespace Wallet

/-! ## `SppRail.connect` -/

inductive SppConnectPhase where
  | loadingSdk
  | openingStorage
  | probingBootnode
  | startingClient
  | syncingHistory
  | derivingKeys
  | openingPool
deriving DecidableEq

structure Keypair where
  publicKey : String
deriving DecidableEq

/-- What a page knows from its build and its URL, and the key decoding of the
Stellar SDK. -/
structure SppEnv where
  /-- `globalThis.location.origin` -/
  origin : String
  apiUrl : String
  deployerPublicKey : String
  /-- `Keypair.fromSecret` -/
  fromSecret : String → Except String Keypair

def storageWorkerPath : String := "/spp/workers/storage-worker.js"
def proverWorkerPath : String := "/spp/workers/prover-worker.js"
def testnetRpcUrl : String := "https://soroban-testnet.stellar.org"
def testnetPassphrase : String := "Test SDF Network ; September 2015"
def testnetPool : String := "CC3AVJZR5MSOLLNNP7DYSG3KR7MTBE4N4VMAT5ZX4NWIJTQL75RNI3F5"

def SppEnv.bootnodeUrl (env : SppEnv) : String := env.apiUrl ++ "/rpc"

def SppEnv.absoluteUrl (env : SppEnv) (path : String) : String := env.origin ++ path

def SppEnv.sessionKeypair (env : SppEnv) (sppRootSecret : String) : Except String Keypair :=
  env.fromSecret sppRootSecret

structure ClientNewOptions where
  rpcUrl : String
  storage : Nat
  proverWorkerUrl : String
  bootnodeUrl : String

structure AccountOptions where
  networkPassphrase : String
  userAddress : String
  txSource : String

/-- What a connect awaits; the handles that the SDK gives out are numbers. -/
inductive SdkCall where
  | loadSppSdk
  /-- `navigator.storage?.persist?.()` -/
  | persist
  | openStorage (workerUrl : String)
  | bootnodeRequired (rpcUrl : String) (storage : Nat)
  | newClient (options : ClientNewOptions)
  | sync (client : Nat)
  | account (client : Nat) (options : AccountOptions) (signer : Keypair)
  | pool (account : Nat) (poolContract : String)

@[reducible] def SdkCall.Reply : SdkCall → Type
  | .loadSppSdk => Unit
  | .persist => Option Bool
  | .openStorage _ => Nat
  | .bootnodeRequired _ _ => Bool
  | .newClient _ => Nat
  | .sync _ => Unit
  | .account _ _ _ => Nat
  | .pool _ _ => Nat

/-- The SDK at one moment: how it settles each call. -/
abbrev Sdk := (call : SdkCall) → Except String call.Reply

abbrev Connect (α : Type) := Task SdkCall SdkCall.Reply SppConnectPhase String α

/-- `await` -/
def awaiting (call : SdkCall) : Connect call.Reply := Task.call call

structure SppRail where
  walletAddress : String
  client : Nat
  account : Nat
  pool : Nat
  storage : Nat
  bootnodeWasRequired : Bool
deriving DecidableEq

/-- Ask the browser to keep the database; a rejection is not an error. -/
def requestPersistentStorage : Connect Bool :=
  Task.catching
    (do
      let persisted ← awaiting .persist
      pure (persisted.getD false))
    fun _ => pure false

def SppRail.connect (env : SppEnv) (sppRootSecret walletAddress : String) : Connect SppRail := do
  Task.emit .loadingSdk
  awaiting .loadSppSdk
  let _ ← requestPersistentStorage
  Task.emit .openingStorage
  let storage ← awaiting (.openStorage (env.absoluteUrl storageWorkerPath))
  Task.emit .probingBootnode
  let bootnodeWasRequired ← awaiting (.bootnodeRequired testnetRpcUrl storage)
  Task.emit .startingClient
  let client ← awaiting (.newClient
    { rpcUrl := testnetRpcUrl
      storage := storage
      proverWorkerUrl := env.absoluteUrl proverWorkerPath
      bootnodeUrl := env.bootnodeUrl })
  Task.emit .syncingHistory
  awaiting (.sync client)
  Task.emit .derivingKeys
  let keypair ← Task.ofExcept (env.sessionKeypair sppRootSecret)
  let account ← awaiting (.account client
    { networkPassphrase := testnetPassphrase
      userAddress := walletAddress
      txSource := env.deployerPublicKey } keypair)
  Task.emit .openingPool
  let pool ← awaiting (.pool account testnetPool)
  pure ⟨walletAddress, client, account, pool, storage, bootnodeWasRequired⟩

/-! ## `connectSppRail` -/

/-- An entry of the slot, with its connect; listeners are numbers. -/
structure ActiveRail where
  key : String
  rail : Connect SppRail
  phase : SppConnectPhase
  onPhase : Option Nat

/-- The module's state in one page. Entries are told apart by their place. -/
structure Page where
  /-- the entry in the slot -/
  active : Option Nat
  /-- every entry made so far -/
  entries : List ActiveRail
  /-- how `sdkPromise` settled -/
  sdkPromise : Option (Except String Unit)
  /-- the entries whose `Storage.open` succeeded, the last one first -/
  storages : List Nat
  /-- what listeners were told, in order -/
  reported : List (Nat × SppConnectPhase)

def Page.fresh : Page := ⟨none, [], none, [], []⟩

def Page.activeEntry (page : Page) : Option (Nat × ActiveRail) :=
  match page.active with
  | none => none
  | some i => (page.entries[i]?).map fun entry => (i, entry)

/-- What `onPhase?.(phase)` tells. -/
def tell (onPhase : Option Nat) (phases : List SppConnectPhase) : List (Nat × SppConnectPhase) :=
  match onPhase with
  | none => []
  | some listener => phases.map fun phase => (listener, phase)

/-- The entry when its connect runs on to the next await. -/
def ActiveRail.goOn (entry : ActiveRail) (rest : Connect SppRail) : ActiveRail :=
  { entry with rail := rest.go.2, phase := rest.go.1.getLast?.getD entry.phase }

/-- The promise that a call returns, or its throw. -/
inductive RailPromise where
  /-- the promise of an entry -/
  | rail (entry : Nat)
  /-- `Promise.reject(new SppWalletSwitchError())` -/
  | rejected
  | threw (message : String)
deriving DecidableEq

def railKey (env : SppEnv) (sppRootSecret walletAddress : String) : Except String String := do
  let keypair ← env.sessionKeypair sppRootSecret
  pure (keypair.publicKey ++ ":" ++ walletAddress)

def connectSppRail (env : SppEnv) (page : Page) (sppRootSecret walletAddress : String)
    (onPhase : Option Nat) : Page × RailPromise :=
  match railKey env sppRootSecret walletAddress with
  | .error message => (page, .threw message)
  | .ok key =>
      match page.activeEntry with
      | some (i, entry) =>
          if entry.key = key then
            ({ page with
                entries := page.entries.set i { entry with onPhase := onPhase <|> entry.onPhase }
                reported := page.reported ++ tell onPhase [entry.phase] }, .rail i)
          else (page, .rejected)
      | none =>
          let rail := SppRail.connect env sppRootSecret walletAddress
          let entry : ActiveRail := ⟨key, rail, .loadingSdk, onPhase⟩
          ({ page with
              active := some page.entries.length
              entries := page.entries ++ [entry.goOn rail]
              reported := page.reported ++ tell onPhase rail.go.1 }, .rail page.entries.length)

/-! ## The life of a page -/

def SdkCall.isOpen : SdkCall → Bool
  | .openStorage _ => true
  | _ => false

/-- The answer to a call; the load is memoized. -/
def Page.answer (page : Page) (sdk : Sdk) : (call : SdkCall) → Except String call.Reply
  | .loadSppSdk => page.sdkPromise.getD (sdk .loadSppSdk)
  | call => sdk call

def Page.loaded (page : Page) (sdk : Sdk) : SdkCall → Option (Except String Unit)
  | .loadSppSdk => some (page.sdkPromise.getD (sdk .loadSppSdk))
  | _ => page.sdkPromise

/-- The call that an entry's connect awaits is answered. -/
def Page.settle (page : Page) (i : Nat) (sdk : Sdk) : Page :=
  match page.entries[i]? with
  | none => page
  | some entry =>
      match entry.rail with
      | .await call rest =>
          let answer := page.answer sdk call
          { page with
            entries := page.entries.set i (entry.goOn (rest answer))
            sdkPromise := page.loaded sdk call
            storages := if call.isOpen && answer.isOk then i :: page.storages else page.storages
            reported := page.reported ++ tell entry.onPhase (rest answer).go.1 }
      | .settled _ => page
      | .report _ _ => page

/-- The connect of the entry rejected. -/
def ActiveRail.failed (entry : ActiveRail) : Bool :=
  match entry.rail with
  | .settled (.error _) => true
  | _ => false

/-- The `catch` handler of an entry. -/
def Page.caught (page : Page) (i : Nat) : Page :=
  match page.entries[i]? with
  | none => page
  | some entry =>
      if entry.failed && decide (page.active = some i) then { page with active := none } else page

inductive PageAct where
  | connectSppRail (sppRootSecret walletAddress : String) (onPhase : Option Nat)
  | settle (entry : Nat) (sdk : Sdk)
  | caught (entry : Nat)

def Page.step (env : SppEnv) (page : Page) : PageAct → Page
  | .connectSppRail sppRootSecret walletAddress onPhase =>
      (Wallet.connectSppRail env page sppRootSecret walletAddress onPhase).1
  | .settle i sdk => page.settle i sdk
  | .caught i => page.caught i

/-- The page after `acts`. -/
def pageAfter (env : SppEnv) (acts : List PageAct) : Page := Run.run (Page.step env) .fresh acts

/-- What a caller gets of its promise. -/
inductive RailOutcome where
  | rail (rail : SppRail)
  | failed (message : String)
  | walletSwitchError
deriving DecidableEq

def Page.outcome (page : Page) : RailPromise → Option RailOutcome
  | .threw message => some (.failed message)
  | .rejected => some .walletSwitchError
  | .rail i =>
      match page.entries[i]? with
      | some ⟨_, .settled (.ok rail), _, _⟩ => some (.rail rail)
      | some ⟨_, .settled (.error message), _, _⟩ => some (.failed message)
      | _ => none

/-! ## One connect -/

theorem connect_once (env : SppEnv) (sppRootSecret walletAddress : String) :
    (SppRail.connect env sppRootSecret walletAddress).Once SdkCall.isOpen := by
  have hpersist : requestPersistentStorage.Never SdkCall.isOpen :=
    ((Task.never_call rfl).bind fun _ => Task.never_pure _).catching fun _ => Task.never_pure _
  refine (Task.never_emit _).bind_once fun _ => ?_
  refine (Task.never_call rfl).bind_once fun _ => ?_
  refine hpersist.bind_once fun _ => ?_
  refine (Task.never_emit _).bind_once fun _ => ?_
  -- `Storage.open`; nothing after it opens again
  refine Task.once_call_bind fun storage => ?_
  refine (Task.never_emit _).bind fun _ => (Task.never_call rfl).bind fun _ => ?_
  refine (Task.never_emit _).bind fun _ => (Task.never_call rfl).bind fun client => ?_
  refine (Task.never_emit _).bind fun _ => (Task.never_call rfl).bind fun _ => ?_
  refine (Task.never_emit _).bind fun _ => (Task.never_ofExcept _).bind fun keypair => ?_
  refine (Task.never_call rfl).bind fun account => ?_
  refine (Task.never_emit _).bind fun _ => (Task.never_call rfl).bind fun pool => ?_
  exact Task.never_pure _

/-! ## What a page keeps -/

/-- No connect opens twice, and only the entry in the slot has not failed. -/
structure PageInv (page : Page) : Prop where
  once : ∀ (i : Nat) (entry : ActiveRail), page.entries[i]? = some entry →
    entry.rail.Once SdkCall.isOpen
  opened : ∀ (i : Nat) (entry : ActiveRail), page.entries[i]? = some entry → i ∈ page.storages →
    entry.rail.Never SdkCall.isOpen
  live : ∀ (i : Nat) (entry : ActiveRail), page.entries[i]? = some entry →
    entry.failed = false → page.active = some i
  inRange : ∀ i ∈ page.storages, i < page.entries.length

theorem pageInv_fresh : PageInv .fresh where
  once i entry h := by cases h
  opened i entry h := by cases h
  live i entry h := by cases h
  inRange i hi := by cases hi

/-- Entries at a place of a list with one place changed. -/
theorem getElem?_set_cases {α : Type} {l : List α} {i j : Nat} {a b : α}
    (h : (l.set i a)[j]? = some b) : (j = i ∧ b = a) ∨ (j ≠ i ∧ l[j]? = some b) := by
  by_cases hij : i = j
  · subst hij
    rw [List.getElem?_set_self'] at h
    obtain ⟨-, -, rfl⟩ := Option.map_eq_some_iff.mp h
    exact .inl ⟨rfl, rfl⟩
  · rw [List.getElem?_set_ne hij] at h
    exact .inr ⟨Ne.symm hij, h⟩

theorem PageInv.activeEntry {page : Page} (h : PageInv page) {i : Nat} {entry : ActiveRail}
    (hi : page.entries[i]? = some entry) (hfailed : entry.failed = false) :
    page.activeEntry = some (i, entry) := by
  rw [Page.activeEntry, h.live i entry hi hfailed]
  simp [hi]

theorem entry_of_activeEntry {page : Page} {i : Nat} {entry : ActiveRail}
    (h : page.activeEntry = some (i, entry)) : page.entries[i]? = some entry := by
  unfold Page.activeEntry at h
  split at h
  · cases h
  · obtain ⟨entry', hentry', heq⟩ := Option.map_eq_some_iff.mp h
    cases heq
    exact hentry'

/-- What a call does: it gives the entry in the slot a listener, or it makes
an entry for an empty slot, or it changes nothing. -/
theorem connectSppRail_cases (env : SppEnv) (page : Page) (secret wallet : String)
    (onPhase : Option Nat) :
    (∃ i entry, page.activeEntry = some (i, entry) ∧
      railKey env secret wallet = .ok entry.key ∧
      (connectSppRail env page secret wallet onPhase).1.entries
        = page.entries.set i { entry with onPhase := onPhase <|> entry.onPhase } ∧
      (connectSppRail env page secret wallet onPhase).1.active = page.active ∧
      (connectSppRail env page secret wallet onPhase).1.storages = page.storages ∧
      (connectSppRail env page secret wallet onPhase).2 = .rail i) ∨
    (∃ key, page.activeEntry = none ∧ railKey env secret wallet = .ok key ∧
      (connectSppRail env page secret wallet onPhase).1.entries
        = page.entries ++ [ActiveRail.goOn ⟨key, SppRail.connect env secret wallet, .loadingSdk,
            onPhase⟩ (SppRail.connect env secret wallet)] ∧
      (connectSppRail env page secret wallet onPhase).1.active = some page.entries.length ∧
      (connectSppRail env page secret wallet onPhase).1.storages = page.storages ∧
      (connectSppRail env page secret wallet onPhase).2 = .rail page.entries.length) ∨
    ((connectSppRail env page secret wallet onPhase).1 = page ∧
      ((∃ i entry key, page.activeEntry = some (i, entry) ∧
          railKey env secret wallet = .ok key ∧ entry.key ≠ key ∧
          (connectSppRail env page secret wallet onPhase).2 = .rejected) ∨
        ∃ message, railKey env secret wallet = .error message ∧
          (connectSppRail env page secret wallet onPhase).2 = .threw message)) := by
  cases hkey : railKey env secret wallet with
  | error message =>
      refine .inr (.inr ?_)
      rw [connectSppRail, hkey]
      exact ⟨rfl, .inr ⟨message, rfl, rfl⟩⟩
  | ok key =>
      cases hactive : page.activeEntry with
      | none =>
          refine .inr (.inl ⟨key, rfl, rfl, ?_⟩)
          rw [connectSppRail, hkey]
          dsimp only
          rw [hactive]
          exact ⟨rfl, rfl, rfl, rfl⟩
      | some found =>
          obtain ⟨i, entry⟩ := found
          by_cases heq : entry.key = key
          · refine .inl ⟨i, entry, rfl, congrArg _ heq.symm, ?_⟩
            rw [connectSppRail, hkey]
            dsimp only
            rw [hactive]
            dsimp only
            rw [if_pos heq]
            exact ⟨rfl, rfl, rfl, rfl⟩
          · refine .inr (.inr ?_)
            rw [connectSppRail, hkey]
            dsimp only
            rw [hactive]
            dsimp only
            rw [if_neg heq]
            exact ⟨rfl, .inl ⟨i, entry, key, rfl, rfl, heq, rfl⟩⟩

/-- The answer opens a storage for the entry. -/
def Page.Opens (page : Page) (i : Nat) (sdk : Sdk) : Prop :=
  ∃ entry call rest, page.entries[i]? = some entry ∧ entry.rail = .await call rest ∧
    call.isOpen = true ∧ (page.answer sdk call).isOk = true

/-- What an answer does to the entry that awaits it. -/
theorem settle_cases (page : Page) (i : Nat) (sdk : Sdk) :
    (page.settle i sdk = page ∧ ¬page.Opens i sdk) ∨
    ∃ entry call rest, page.entries[i]? = some entry ∧ entry.rail = .await call rest ∧
      (page.settle i sdk).entries
        = page.entries.set i (entry.goOn (rest (page.answer sdk call))) ∧
      (page.settle i sdk).active = page.active ∧
      ((page.Opens i sdk ∧ call.isOpen = true ∧ (page.settle i sdk).storages = i :: page.storages) ∨
        (¬page.Opens i sdk ∧ (page.settle i sdk).storages = page.storages)) := by
  unfold Page.settle Page.Opens
  cases hi : page.entries[i]? with
  | none => exact .inl ⟨rfl, by simp⟩
  | some entry =>
      dsimp only
      cases hrail : entry.rail with
      | settled result => exact .inl ⟨rfl, by simp [hrail]⟩
      | report event rest => exact .inl ⟨rfl, by simp [hrail]⟩
      | await call rest =>
          refine .inr ⟨entry, call, rest, rfl, hrail, rfl, rfl, ?_⟩
          cases hopen : call.isOpen && (page.answer sdk call).isOk with
          | true =>
              obtain ⟨hcall, hok⟩ := Bool.and_eq_true_iff.mp hopen
              exact .inl ⟨⟨entry, call, rest, rfl, hrail, hcall, hok⟩, hcall, by simp [hopen]⟩
          | false =>
              refine .inr ⟨?_, by simp [hopen]⟩
              rintro ⟨entry', call', rest', hentry, hrail', hcall, hok⟩
              cases hentry
              rw [hrail] at hrail'
              cases hrail'
              rw [hcall, hok] at hopen
              cases hopen

theorem caught_cases (page : Page) (i : Nat) :
    page.caught i = page ∨
      ∃ entry, page.entries[i]? = some entry ∧ entry.failed = true ∧ page.active = some i ∧
        page.caught i = { page with active := none } := by
  unfold Page.caught
  cases hi : page.entries[i]? with
  | none => exact .inl rfl
  | some entry =>
      dsimp only
      split
      · rename_i hcond
        obtain ⟨hfailed, hactive⟩ := Bool.and_eq_true_iff.mp hcond
        exact .inr ⟨entry, rfl, hfailed, of_decide_eq_true hactive, rfl⟩
      · exact .inl rfl

variable {env : SppEnv} {page : Page}

/-- A call keeps the invariant. A listener for the entry in the slot changes
nothing of it; a new entry is made only for an empty slot, and then all others
have failed. -/
theorem PageInv.connects (h : PageInv page) (secret wallet : String)
    (onPhase : Option Nat) : PageInv (connectSppRail env page secret wallet onPhase).1 := by
  rcases connectSppRail_cases env page secret wallet onPhase with
    ⟨i, entry, hactive, -, hentries, hslot, hstorages, -⟩ |
    ⟨key, hnone, -, hentries, hslot, hstorages, -⟩ | ⟨hsame, -⟩
  · -- a listener for the entry in the slot
    have hi := entry_of_activeEntry hactive
    refine ⟨fun j e he => ?_, fun j e he hj => ?_, fun j e he hfailed => ?_, fun j hj => ?_⟩
    · rw [hentries] at he
      rcases getElem?_set_cases he with ⟨rfl, rfl⟩ | ⟨-, he⟩
      · exact h.once j entry hi
      · exact h.once j e he
    · rw [hstorages] at hj
      rw [hentries] at he
      rcases getElem?_set_cases he with ⟨rfl, rfl⟩ | ⟨-, he⟩
      · exact h.opened j entry hi hj
      · exact h.opened j e he hj
    · rw [hslot]
      rw [hentries] at he
      rcases getElem?_set_cases he with ⟨rfl, rfl⟩ | ⟨-, he⟩
      · exact h.live j entry hi hfailed
      · exact h.live j e he hfailed
    · rw [hstorages] at hj
      rw [hentries, List.length_set]
      exact h.inRange j hj
  · -- an entry for an empty slot: all others have failed
    have hcases : ∀ {j : Nat} {e : ActiveRail},
        (connectSppRail env page secret wallet onPhase).1.entries[j]? = some e →
          page.entries[j]? = some e ∨ (j = page.entries.length ∧
            e = ActiveRail.goOn ⟨key, SppRail.connect env secret wallet, .loadingSdk, onPhase⟩
              (SppRail.connect env secret wallet)) := by
      intro j e he
      rw [hentries] at he
      rcases Nat.lt_trichotomy j page.entries.length with hj | hj | hj
      · rw [List.getElem?_append_left hj] at he
        exact .inl he
      · subst hj
        rw [List.getElem?_concat_length] at he
        exact .inr ⟨rfl, (Option.some.inj he).symm⟩
      · rw [List.getElem?_eq_none (by rw [List.length_append]; exact hj)] at he
        cases he
    refine ⟨fun j e he => ?_, fun j e he hj => ?_, fun j e he hfailed => ?_, fun j hj => ?_⟩
    · rcases hcases he with he | ⟨-, rfl⟩
      · exact h.once j e he
      · exact (connect_once env secret wallet).go
    · rw [hstorages] at hj
      rcases hcases he with he | ⟨rfl, -⟩
      · exact h.opened j e he hj
      · exact absurd (h.inRange _ hj) (Nat.lt_irrefl _)
    · rcases hcases he with he | ⟨rfl, -⟩
      · rw [h.activeEntry he hfailed] at hnone
        cases hnone
      · exact hslot
    · rw [hstorages] at hj
      rw [hentries, List.length_append]
      exact Nat.lt_add_right _ (h.inRange j hj)
  · rw [hsame]
    exact h

/-- An answer keeps the invariant. Only the entry that awaits it goes on; its
connect asks for one storage at most, so after an answer that opened one it
will not ask again. -/
theorem PageInv.settle (h : PageInv page) (i : Nat) (sdk : Sdk) :
    PageInv (page.settle i sdk) := by
  rcases settle_cases page i sdk with
    ⟨hsame, -⟩ | ⟨entry, call, rest, hi, hrail, hentries, hslot, hopens⟩
  · rw [hsame]
    exact h
  have honce : Task.Once SdkCall.isOpen (.await call rest) := hrail ▸ h.once i entry hi
  have hmem : ∀ j, j ∈ (page.settle i sdk).storages →
      j ∈ page.storages ∨ (j = i ∧ call.isOpen = true) := by
    intro j hj
    rcases hopens with ⟨-, hopen, hstorages⟩ | ⟨-, hstorages⟩
    · rw [hstorages] at hj
      rcases List.mem_cons.mp hj with rfl | hj
      · exact .inr ⟨rfl, hopen⟩
      · exact .inl hj
    · exact .inl (hstorages ▸ hj)
  refine ⟨fun j e he => ?_, fun j e he hj => ?_, fun j e he hfailed => ?_, fun j hj => ?_⟩
  · rw [hentries] at he
    rcases getElem?_set_cases he with ⟨rfl, rfl⟩ | ⟨-, he⟩
    · exact (honce.2 _).go
    · exact h.once j e he
  · rw [hentries] at he
    rcases getElem?_set_cases he with ⟨rfl, rfl⟩ | ⟨hji, he⟩
    · rcases hmem j hj with hj | ⟨-, hopen⟩
      · have hnever : Task.Never SdkCall.isOpen (.await call rest) := hrail ▸ h.opened j entry hi hj
        exact (hnever.2 _).go
      · exact (honce.1 hopen _).go
    · rcases hmem j hj with hj | ⟨hj, -⟩
      · exact h.opened j e he hj
      · exact absurd hj hji
  · rw [hslot]
    rw [hentries] at he
    rcases getElem?_set_cases he with ⟨rfl, rfl⟩ | ⟨-, he⟩
    · refine h.live j entry hi ?_
      rw [ActiveRail.failed, hrail]
    · exact h.live j e he hfailed
  · rw [hentries, List.length_set]
    rcases hmem j hj with hj | ⟨rfl, -⟩
    · exact h.inRange j hj
    · exact (List.getElem?_eq_some_iff.mp hi).1

theorem PageInv.caught (h : PageInv page) (i : Nat) : PageInv (page.caught i) := by
  rcases caught_cases page i with hsame | ⟨entry, hi, hfailed, hactive, heq⟩
  · rw [hsame]
    exact h
  · rw [heq]
    refine ⟨h.once, h.opened, fun j e he hlive => ?_, h.inRange⟩
    -- only a failed entry leaves the slot
    have hj := h.live j e he hlive
    rw [hactive] at hj
    cases hj
    rw [hi] at he
    cases he
    rw [hfailed] at hlive
    cases hlive

theorem PageInv.step (h : PageInv page) (act : PageAct) : PageInv (page.step env act) := by
  cases act with
  | connectSppRail secret wallet onPhase => exact h.connects secret wallet onPhase
  | settle i sdk => exact h.settle i sdk
  | caught i => exact h.caught i

theorem pageInv_pageAfter (env : SppEnv) (acts : List PageAct) : PageInv (pageAfter env acts) :=
  Run.invariant pageInv_fresh fun _ act h => h.step act

/-! ## How many storages are open -/

/-- A connect that opened a storage has failed. -/
def Page.FailedOpen (page : Page) : Prop :=
  ∃ i entry, i ∈ page.storages ∧ page.entries[i]? = some entry ∧ entry.failed = true

/-- Whenever a storage is opened, no connect that opened one has failed. -/
def NoneAfterFailure (env : SppEnv) (acts : List PageAct) : Prop :=
  ∀ before i sdk, before ++ [.settle i sdk] <+: acts → (pageAfter env before).Opens i sdk →
    ¬(pageAfter env before).FailedOpen

theorem storages_step (page : Page) (act : PageAct) :
    (page.step env act).storages = page.storages ∨
      ∃ i sdk, act = .settle i sdk ∧ page.Opens i sdk ∧
        (page.step env act).storages = i :: page.storages := by
  cases act with
  | connectSppRail secret wallet onPhase =>
      rcases connectSppRail_cases env page secret wallet onPhase with
        ⟨_, _, _, _, _, _, hstorages, _⟩ | ⟨_, _, _, _, _, hstorages, _⟩ | ⟨hsame, _⟩
      · exact .inl hstorages
      · exact .inl hstorages
      · exact .inl (congrArg Page.storages hsame)
  | settle i sdk =>
      rcases settle_cases page i sdk with
        ⟨hsame, _⟩ | ⟨_, _, _, _, _, _, _, ⟨hopens, _, hstorages⟩ | ⟨_, hstorages⟩⟩
      · exact .inl (congrArg Page.storages hsame)
      · exact .inr ⟨i, sdk, rfl, hopens, hstorages⟩
      · exact .inl hstorages
  | caught i =>
      rcases caught_cases page i with hsame | ⟨_, _, _, _, heq⟩
      · exact .inl (congrArg Page.storages hsame)
      · rw [Page.step, heq]
        exact .inl rfl

/-- A connect that opens is the one in the slot, and had not opened before. The others have
failed. -/
theorem PageInv.none_opened (h : PageInv page) {i : Nat} {sdk : Sdk} (hopens : page.Opens i sdk)
    (hnone : ¬page.FailedOpen) : page.storages = [] := by
  obtain ⟨entry, call, rest, hi, hrail, hopen, -⟩ := hopens
  refine List.eq_nil_iff_forall_not_mem.mpr fun j hj => ?_
  have hjlt := h.inRange j hj
  have hje : page.entries[j]? = some page.entries[j] := List.getElem?_eq_getElem hjlt
  have hlive : (page.entries[j]).failed = false := by
    by_contra hfailed
    exact hnone ⟨j, _, hj, hje, Bool.not_eq_false _ ▸ hfailed⟩
  have hilive : entry.failed = false := by
    rw [ActiveRail.failed, hrail]
  have hji := h.live j _ hje hlive
  rw [h.live i entry hi hilive] at hji
  cases hji
  have hnever : Task.Never SdkCall.isOpen (.await call rest) := hrail ▸ h.opened i entry hi hj
  rw [hnever.1] at hopen
  cases hopen

theorem one_storage_of_noneAfterFailure {acts : List PageAct} (hnone : NoneAfterFailure env acts) :
    (pageAfter env acts).storages.length ≤ 1 := by
  have hinv := @Run.prefix_invariant _ _ Unit (Page.step env) (fun _ _ => [])
    (fun page _ => PageInv page ∧ page.storages.length ≤ 1) .fresh acts
    ⟨pageInv_fresh, Nat.zero_le _⟩ ?_
  · exact hinv.2
  intro l act hl ⟨hpage, hlen⟩
  refine ⟨hpage.step act, ?_⟩
  rcases storages_step (Run.run (Page.step env) .fresh l) act with
    hsame | ⟨i, sdk, rfl, hopens, hstorages⟩
  · rw [hsame]
    exact hlen
  · have hempty := hpage.none_opened hopens (hnone l i sdk hl hopens)
    rw [hstorages, hempty]
    exact Nat.le_refl 1

theorem opened_twice {before : List PageAct} {i : Nat} {sdk : Sdk}
    (hopens : (pageAfter env before).Opens i sdk) (hfailed : (pageAfter env before).FailedOpen) :
    2 ≤ (pageAfter env (before ++ [.settle i sdk])).storages.length := by
  obtain ⟨j, -, hj, -⟩ := hfailed
  have hpos := List.length_pos_of_mem hj
  have hafter : (pageAfter env (before ++ [.settle i sdk])).storages
      = i :: (pageAfter env before).storages := by
    rw [pageAfter, Run.run_snoc]
    rcases settle_cases (pageAfter env before) i sdk with
      ⟨-, hnot⟩ | ⟨_, _, _, _, _, _, _, ⟨_, _, hstorages⟩ | ⟨hnot, _⟩⟩
    · exact absurd hopens hnot
    · exact hstorages
    · exact absurd hopens hnot
  rw [hafter, List.length_cons]
  exact Nat.succ_le_succ hpos

/-! ## What callers get -/

/-- The entry under its key: as it was, or gone on with an answer of the SDK. -/
def ActiveRail.Becomes (entry entry' : ActiveRail) : Prop :=
  entry'.key = entry.key ∧
    (entry'.rail = entry.rail ∨
      ∃ call rest answer, entry.rail = .await call rest ∧ entry'.rail = (rest answer).go.2)

theorem ActiveRail.becomes_self (entry : ActiveRail) : entry.Becomes entry := ⟨rfl, .inl rfl⟩

/-- Entries keep their places and their keys. -/
theorem entry_step {i : Nat} {entry : ActiveRail} (act : PageAct)
    (hi : page.entries[i]? = some entry) :
    ∃ entry', (page.step env act).entries[i]? = some entry' ∧ entry.Becomes entry' := by
  have hset : ∀ (j : Nat) (e e' : ActiveRail), page.entries[j]? = some e → e.Becomes e' →
      ∃ entry', (page.entries.set j e')[i]? = some entry' ∧ entry.Becomes entry' := by
    intro j e e' hj hbecomes
    by_cases hji : j = i
    · subst hji
      rw [hi] at hj
      cases hj
      exact ⟨e', List.getElem?_set_self (List.getElem?_eq_some_iff.mp hi).1, hbecomes⟩
    · exact ⟨entry, by rw [List.getElem?_set_ne hji, hi], entry.becomes_self⟩
  cases act with
  | connectSppRail secret wallet onPhase =>
      rcases connectSppRail_cases env page secret wallet onPhase with
        ⟨j, e, hactive, _, hentries, _⟩ | ⟨_, _, _, hentries, _⟩ | ⟨hsame, _⟩
      · rw [Page.step, hentries]
        exact hset j e _ (entry_of_activeEntry hactive) ⟨rfl, .inl rfl⟩
      · rw [Page.step, hentries,
          List.getElem?_append_left (List.getElem?_eq_some_iff.mp hi).1]
        exact ⟨entry, hi, entry.becomes_self⟩
      · rw [Page.step, hsame]
        exact ⟨entry, hi, entry.becomes_self⟩
  | settle j sdk =>
      rcases settle_cases page j sdk with ⟨hsame, _⟩ | ⟨e, call, rest, hj, hrail, hentries, _⟩
      · rw [Page.step, hsame]
        exact ⟨entry, hi, entry.becomes_self⟩
      · rw [Page.step, hentries]
        exact hset j e _ hj ⟨rfl, .inr ⟨call, rest, page.answer sdk call, hrail, rfl⟩⟩
  | caught j =>
      rcases caught_cases page j with hsame | ⟨_, _, _, _, heq⟩
      · rw [Page.step, hsame]
        exact ⟨entry, hi, entry.becomes_self⟩
      · rw [Page.step, heq]
        exact ⟨entry, hi, entry.becomes_self⟩

/-- An entry that a step makes is a connect for its key. -/
theorem made_step {i : Nat} {entry : ActiveRail} (act : PageAct)
    (hi : (page.step env act).entries[i]? = some entry) (hnone : page.entries[i]? = none) :
    ∃ secret wallet, railKey env secret wallet = .ok entry.key ∧
      entry.rail = (SppRail.connect env secret wallet).go.2 := by
  have hset : ∀ (j : Nat) (e : ActiveRail), (page.entries.set j e)[i]? ≠ some entry := by
    intro j e hsome
    have hlt := (List.getElem?_eq_some_iff.mp hsome).1
    rw [List.length_set] at hlt
    exact absurd hlt (not_lt.mpr (List.getElem?_eq_none_iff.mp hnone))
  cases act with
  | connectSppRail secret wallet onPhase =>
      rcases connectSppRail_cases env page secret wallet onPhase with
        ⟨j, e, _, _, hentries, _⟩ | ⟨key, _, hkey, hentries, _⟩ | ⟨hsame, _⟩
      · rw [Page.step, hentries] at hi
        exact absurd hi (hset j _)
      · rw [Page.step, hentries,
          List.getElem?_append_right (List.getElem?_eq_none_iff.mp hnone)] at hi
        cases List.mem_singleton.mp (List.mem_of_getElem? hi)
        exact ⟨secret, wallet, hkey, rfl⟩
      · rw [Page.step, hsame, hnone] at hi
        cases hi
  | settle j sdk =>
      rcases settle_cases page j sdk with ⟨hsame, _⟩ | ⟨_, _, _, _, _, hentries, _⟩
      · rw [Page.step, hsame, hnone] at hi
        cases hi
      · rw [Page.step, hentries] at hi
        exact absurd hi (hset j _)
  | caught j =>
      rcases caught_cases page j with hsame | ⟨_, _, _, _, heq⟩
      · rw [Page.step, hsame, hnone] at hi
        cases hi
      · rw [Page.step, heq, hnone] at hi
        cases hi

theorem key_run {i : Nat} {entry : ActiveRail} (acts : List PageAct)
    (hi : page.entries[i]? = some entry) :
    ∃ entry', (Run.run (Page.step env) page acts).entries[i]? = some entry' ∧
      entry'.key = entry.key :=
  @Run.invariant _ _ (Page.step env)
    (fun page => ∃ entry', page.entries[i]? = some entry' ∧ entry'.key = entry.key) page acts
    ⟨entry, hi, rfl⟩ fun _ act ⟨_, he, hkey⟩ =>
      have ⟨e', he', hkey', _⟩ := entry_step act he
      ⟨e', he', hkey'.trans hkey⟩

/-- The promise of a call is of an entry with the caller's key. -/
theorem connectSppRail_promise {secret wallet : String} {onPhase : Option Nat} {i : Nat}
    (h : (connectSppRail env page secret wallet onPhase).2 = .rail i) :
    ∃ entry, (connectSppRail env page secret wallet onPhase).1.entries[i]? = some entry ∧
      railKey env secret wallet = .ok entry.key := by
  rcases connectSppRail_cases env page secret wallet onPhase with
    ⟨j, e, hactive, hkey, hentries, _, _, hpromise⟩ | ⟨key, _, hkey, hentries, _, _, hpromise⟩ |
    ⟨_, ⟨_, _, _, _, _, _, hpromise⟩ | ⟨_, _, hpromise⟩⟩
  · rw [hpromise] at h
    cases h
    have hj := entry_of_activeEntry hactive
    rw [hentries]
    exact ⟨_, List.getElem?_set_self (List.getElem?_eq_some_iff.mp hj).1, hkey⟩
  · rw [hpromise] at h
    cases h
    rw [hentries]
    exact ⟨_, List.getElem?_concat_length, hkey⟩
  · rw [hpromise] at h
    cases h
  · rw [hpromise] at h
    cases h

/-- The entry whose connect resolved is the one in the slot, for good. -/
theorem PageInv.resolved (h : PageInv page) {i : Nat} {entry : ActiveRail} {rail : SppRail}
    (hi : page.entries[i]? = some entry) (hrail : entry.rail = .settled (.ok rail)) :
    page.active = some i :=
  h.live i entry hi (by rw [ActiveRail.failed, hrail])

/-- A caller with this secret and wallet may get `outcome` of its promise: the
one rail that connected, which has its key, the error of the attempt that it
joined or of its own secret, or the refusal to switch. -/
inductive Served (env : SppEnv) (page : Page) (secret wallet : String) (promise : RailPromise) :
    RailOutcome → Prop where
  | rail {i : Nat} {entry : ActiveRail} {rail : SppRail} (hpromise : promise = .rail i)
      (hi : page.entries[i]? = some entry) (hkey : railKey env secret wallet = .ok entry.key)
      (hrail : entry.rail = .settled (.ok rail)) (hslot : page.active = some i)
      (honly : ∀ (j : Nat) (entry' : ActiveRail) (rail' : SppRail), page.entries[j]? = some entry' →
        entry'.rail = .settled (.ok rail') → j = i) :
      Served env page secret wallet promise (.rail rail)
  | failed {i : Nat} {entry : ActiveRail} {message : String} (hpromise : promise = .rail i)
      (hi : page.entries[i]? = some entry) (hkey : railKey env secret wallet = .ok entry.key)
      (hrail : entry.rail = .settled (.error message)) :
      Served env page secret wallet promise (.failed message)
  | threw {message : String} (hsecret : railKey env secret wallet = .error message) :
      Served env page secret wallet promise (.failed message)
  | walletSwitch (hpromise : promise = .rejected) :
      Served env page secret wallet promise .walletSwitchError

theorem PageInv.served (h : PageInv page) {secret wallet : String} {promise : RailPromise}
    (hrail : ∀ i, promise = .rail i → ∃ entry, page.entries[i]? = some entry ∧
      railKey env secret wallet = .ok entry.key)
    (hthrew : ∀ message, promise = .threw message → railKey env secret wallet = .error message)
    {outcome : RailOutcome} (houtcome : page.outcome promise = some outcome) :
    Served env page secret wallet promise outcome := by
  cases promise with
  | threw message =>
      cases houtcome
      exact .threw (hthrew message rfl)
  | rejected =>
      cases houtcome
      exact .walletSwitch rfl
  | rail i =>
      obtain ⟨⟨key, rail, phase, onPhase⟩, hi, hkey⟩ := hrail i rfl
      rw [Page.outcome, hi] at houtcome
      rcases rail with result | ⟨event, rest⟩ | ⟨call, rest⟩
      · cases result with
        | error message =>
            cases houtcome
            exact .failed rfl hi hkey rfl
        | ok rail =>
            cases houtcome
            have hslot := h.resolved hi rfl
            refine .rail rfl hi hkey rfl hslot fun j entry' rail' hj hrail' => ?_
            have hslot' := h.resolved hj hrail'
            rw [hslot] at hslot'
            exact (Option.some.inj hslot').symm
      · cases houtcome
      · cases houtcome

/-- A page opens at most one storage if and only if none is opened after a
connect that opened one has failed; and every caller gets the one rail of its
key, the error of its attempt, or the refusal to switch.

The first part is exact because an open after a failed one is a second storage
(`opened_twice`) and any other is the first
(`one_storage_of_noneAfterFailure`). For the callers, the promise of a call is
of an entry with its key, and entries keep their keys over the rest of the run
(`key_run`). -/
theorem one_storage_iff (env : SppEnv) (acts : List PageAct) :
    ((∀ l, l <+: acts → (pageAfter env l).storages.length ≤ 1) ↔ NoneAfterFailure env acts) ∧
    ∀ before secret wallet onPhase after,
      acts = before ++ .connectSppRail secret wallet onPhase :: after →
      ∀ outcome,
        (pageAfter env acts).outcome
            (connectSppRail env (pageAfter env before) secret wallet onPhase).2 = some outcome →
        Served env (pageAfter env acts) secret wallet
          (connectSppRail env (pageAfter env before) secret wallet onPhase).2 outcome := by
  refine ⟨⟨fun hone before i sdk hl hopens hfailed => ?_, fun hnone l hl => ?_⟩, ?_⟩
  · exact absurd (opened_twice hopens hfailed) (Nat.not_le.mpr (Nat.lt_succ_of_le (hone _ hl)))
  · exact one_storage_of_noneAfterFailure fun before i sdk hb => hnone before i sdk (hb.trans hl)
  · intro before secret wallet onPhase after hacts outcome houtcome
    refine (pageInv_pageAfter env acts).served (fun i hi => ?_) (fun message hthrew => ?_) houtcome
    · obtain ⟨entry, hentry, hkey⟩ := connectSppRail_promise hi
      obtain ⟨entry', hentry', hkey'⟩ := @key_run env _ i entry after hentry
      refine ⟨entry', ?_, hkey' ▸ hkey⟩
      rw [hacts, pageAfter, Run.run_append]
      exact hentry'
    · rcases connectSppRail_cases env (pageAfter env before) secret wallet onPhase with
        ⟨_, _, _, _, _, _, _, hpromise⟩ | ⟨_, _, _, _, _, _, hpromise⟩ |
        ⟨_, ⟨_, _, _, _, _, _, hpromise⟩ | ⟨message', hkey, hpromise⟩⟩
      · rw [hpromise] at hthrew
        cases hthrew
      · rw [hpromise] at hthrew
        cases hthrew
      · rw [hpromise] at hthrew
        cases hthrew
      · rw [hpromise] at hthrew
        cases hthrew
        exact hkey

/-! ## A retry -/

def secretA : String := "SCZANGBA5YHTNYVVV4C3U252E2B6P6F5T3U6MM63WBSBZATAQI3EBTQ4"
def walletA : String := "CCH2EB4POGCUBF5FJ7HTGKUEJDQ2TWIFEE35JOCAEF6RBEXCBHNXF4HK"

def localEnv : SppEnv where
  origin := "http://localhost:5173"
  apiUrl := "http://localhost:3000"
  deployerPublicKey := "GCQ5AUYVWIUM6ZVBUDXSBQGDJGAP35AKZDZU4UXLKIS34JL547HVIE6W"
  fromSecret secret :=
    if secret = secretA then .ok ⟨"GC2BKLYOOYPDEFJKLKY6FNNRQMGFLVHJKQRGNSSRRGSMPGF32LHCQVGF"⟩
    else .error "invalid encoded string"

/-- Every call succeeds. -/
def sdkUp : Sdk
  | .loadSppSdk => .ok ()
  | .persist => .ok (some true)
  | .openStorage _ => .ok 0
  | .bootnodeRequired _ _ => .ok true
  | .newClient _ => .ok 1
  | .sync _ => .ok ()
  | .account _ _ _ => .ok 2
  | .pool _ _ => .ok 3

/-- The RPC cannot be reached. -/
def rpcDown : Sdk
  | .bootnodeRequired _ _ => .error "Failed to fetch"
  | call => sdkUp call

/-- A worker cannot be started. -/
def openFails : Sdk
  | .openStorage _ => .error "Failed to construct 'Worker'"
  | call => sdkUp call

/-- A call, and `answers` to the connect of the entry. -/
def attempt (entry : Nat) (answers : List Sdk) : List PageAct :=
  .connectSppRail secretA walletA none :: answers.map (.settle entry)

/-- The bootnode probe fails, the call is made again, and a second storage
worker has the database. -/
theorem retry_opens_second_storage :
    (pageAfter localEnv (attempt 0 [sdkUp, sdkUp, sdkUp, rpcDown] ++ [.caught 0]
      ++ attempt 1 [sdkUp, sdkUp, sdkUp])).storages = [1, 0] := by
  rfl

/-- The storage itself fails to open, and the call is made again. -/
def openRetried : List PageAct :=
  attempt 0 [sdkUp, sdkUp, openFails] ++ [.caught 0]
    ++ attempt 1 [sdkUp, sdkUp, sdkUp, sdkUp, sdkUp, sdkUp, sdkUp, sdkUp]

theorem one_storage_iff_open_retried :
    NoneAfterFailure localEnv openRetried ∧
    Served localEnv (pageAfter localEnv openRetried) secretA walletA (.rail 1)
      (.rail ⟨walletA, 1, 2, 3, 0, true⟩) := by
  have hstorage := one_storage_iff localEnv openRetried
  refine ⟨hstorage.1.mp fun l hl => ?_, ?_⟩
  · have hall : ∀ l ∈ openRetried.inits, (pageAfter localEnv l).storages.length ≤ 1 := by
      decide +kernel
    exact hall l ((List.mem_inits l _).mpr hl)
  · exact hstorage.2 (attempt 0 [sdkUp, sdkUp, openFails] ++ [.caught 0]) secretA walletA none
      ([sdkUp, sdkUp, sdkUp, sdkUp, sdkUp, sdkUp, sdkUp, sdkUp].map (.settle 1)) rfl _ (by rfl)

end Wallet

end PrivacyWallet
