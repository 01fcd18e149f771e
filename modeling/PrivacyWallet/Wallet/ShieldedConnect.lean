import Mathlib.Data.List.Basic
import PrivacyWallet.Wallet.CtProvider
import PrivacyWallet.Wallet.SppRail

/-!
# How the shielded page connects

Each run of the page's effect makes an attempt at `connectSppRail`, listens to
its phases and is told how it ended, until its cleanup cancels it. The reducer
keeps a rail over the attempts that follow. That this shows no rail of another
wallet rests on the slot of `connectSppRail`: a rail that resolved stays in it,
so every later attempt gets that rail or is refused
(`promise_of_resolved`).

The module's page below is the one of `SppRail`, with its invariant. Over it
`Core` is kept by every step of the tab:

- every attempt's promise is of an entry with its key, or a refusal
  (`Keyed`);
- at most one attempt is live, the last one, and the state of the reducer is
  what that attempt was told so far (`Told`): no failure before its end, and
  a rail that was kept is one that it will get;
- the effect has run for the wallet and bundle that are set, unless it is due
  (`Current`).

The pieces of a step are done one by one: the module goes on and listeners
hear of it (`Core.advance`), the cleanup (`Core.cleanup`), the effect's next
attempt (`Core.connectEffect`), and a callback (`Core.deliver`). `step_kept`
puts them together.

`connect_lifecycle` reads the two halves off: the panels and the reload gate
follow the last attempt (`Core.followsLast`), and what an older attempt hears
leaves the state as it is (`step_leavesOthers`).
-/

namespace PrivacyWallet

namespace Wallet

/-! ## `connectReducer` -/

structure ConnectState where
  rail : Option SppRail
  phase : SppConnectPhase
  error : Option String
  needsReload : Bool
  deriving DecidableEq

inductive ConnectEvent where
  | attempt
  | phase (phase : SppConnectPhase)
  | connected (rail : SppRail)
  | failed (message : String) (walletSwitch : Bool)

def initialConnectState : ConnectState := ⟨none, .loadingSdk, none, false⟩

def connectReducer (state : ConnectState) : ConnectEvent → ConnectState
  | .attempt => { state with error := none, needsReload := false }
  | .phase phase => { state with phase := phase }
  | .connected rail => { state with rail := some rail, error := none, needsReload := false }
  | .failed message walletSwitch =>
      { state with error := some message, needsReload := walletSwitch }

def walletSwitchMessage : String :=
  "Switching wallets needs a page reload: the shielded pool SDK keeps its storage worker open for the lifetime of the page."

/-- What the effect dispatches when the promise of its attempt has settled. -/
def RailOutcome.event : RailOutcome → ConnectEvent
  | .rail r => .connected r
  | .failed message => .failed message false
  | .walletSwitchError => .failed walletSwitchMessage true

/-! ## The effect -/

/-- One run of the effect that called `connectSppRail`; its place is its
listener. -/
structure ConnectAttempt where
  secret : String
  wallet : String
  promise : RailPromise
  cancelled : Bool
  delivered : Bool

/-- The module's page with the shielded page in it. -/
structure ShieldedTab (Bundle : Type) where
  page : Page
  contractId : Option String
  bundle : Option Bundle
  mounted : Bool
  -- an effect threw and took the whole tree with it
  crashed : Bool
  effectDue : Bool
  connect : ConnectState
  attempts : List ConnectAttempt
  -- the attempt of the effect's last run
  subscribed : Option Nat

/-- What happens: renders, the effects of the last render, what the SDK
answers, and callbacks on promises. `rerun` cleans up and runs the effect once
more, as StrictMode does. -/
inductive TabEvent (Bundle : Type) where
  | wallet (contractId : Option String) (bundle : Option Bundle)
  | mount
  | unmount
  | effects
  | rerun
  | settle (entry : Nat) (sdk : Sdk)
  | caught (entry : Nat)
  | delivered (attempt : Nat)

namespace ShieldedTab

variable {Bundle : Type}

def opened (contractId : Option String) (bundle : Option Bundle) : ShieldedTab Bundle where
  page := .fresh
  contractId := contractId
  bundle := bundle
  mounted := false
  crashed := false
  effectDue := false
  connect := initialConnectState
  attempts := []
  subscribed := none

def session (s : ShieldedTab Bundle) : Option (Session Bundle) := Session.of s.contractId s.bundle

def dispatch (s : ShieldedTab Bundle) (event : ConnectEvent) : ShieldedTab Bundle :=
  { s with connect := connectReducer s.connect event }

/-- The attempt has not been cancelled. -/
def isLive (s : ShieldedTab Bundle) (attempt : Nat) : Bool :=
  match s.attempts[attempt]? with
  | some a => !a.cancelled
  | none => false

/-- `onPhase` of an attempt. -/
def onPhase (s : ShieldedTab Bundle) (report : Nat × SppConnectPhase) : ShieldedTab Bundle :=
  if s.isLive report.1 then s.dispatch (.phase report.2) else s

/-- The module goes on, and listeners hear what is new. -/
def hear (s : ShieldedTab Bundle) (page : Page) : ShieldedTab Bundle :=
  (page.reported.drop s.page.reported.length).foldl onPhase { s with page := page }

def cancel (attempt : ConnectAttempt) : ConnectAttempt := { attempt with cancelled := true }

/-- The cleanup of the effect's last run. -/
def cleanup (s : ShieldedTab Bundle) : ShieldedTab Bundle :=
  match s.subscribed with
  | none => s
  | some n => { s with attempts := s.attempts.modify n cancel, subscribed := none }

variable (env : SppEnv) (rootSecret : Bundle → String)

/-- The effect on `[contractId, bundle]`. -/
def connectEffect (s : ShieldedTab Bundle) : ShieldedTab Bundle :=
  match s.session with
  | none => s
  | some session =>
      let s := s.dispatch .attempt
      let n := s.attempts.length
      let secret := rootSecret session.bundle
      match connectSppRail env s.page secret session.contractId (some n) with
      | (page, .threw _) => { s with page := page, mounted := false, crashed := true }
      | (page, promise) =>
          hear { s with
            attempts := s.attempts ++ [⟨secret, session.contractId, promise, false, false⟩]
            subscribed := some n } page

/-- The effect, if it is due. -/
def runEffects (s : ShieldedTab Bundle) : ShieldedTab Bundle :=
  if s.mounted && s.effectDue then
    connectEffect env rootSecret { s.cleanup with effectDue := false }
  else s

/-- A callback on the promise of an attempt. -/
def deliver (s : ShieldedTab Bundle) (n : Nat) : ShieldedTab Bundle :=
  match s.attempts[n]? with
  | none => s
  | some attempt =>
      match s.page.outcome attempt.promise, attempt.delivered with
      | some outcome, false =>
          let told := { s with
            attempts := s.attempts.modify n fun attempt => { attempt with delivered := true } }
          if attempt.cancelled then told else told.dispatch outcome.event
      | _, _ => s

/-- Effects that are due run before another render. -/
def step [DecidableEq Bundle] (s : ShieldedTab Bundle) : TabEvent Bundle → ShieldedTab Bundle
  | .wallet contractId bundle =>
      let s := s.runEffects env rootSecret
      { s with
        contractId := contractId
        bundle := bundle
        effectDue := s.mounted && decide (contractId ≠ s.contractId ∨ bundle ≠ s.bundle) }
  | .mount =>
      if s.mounted || s.crashed then s
      else { s with mounted := true, effectDue := true, connect := initialConnectState }
  | .unmount =>
      let s := s.runEffects env rootSecret
      { s.cleanup with mounted := false, effectDue := false }
  | .effects => s.runEffects env rootSecret
  | .rerun => if s.mounted then { s with effectDue := true }.runEffects env rootSecret else s
  | .settle entry sdk => s.hear (s.page.settle entry sdk)
  | .caught entry => { s with page := s.page.caught entry }
  | .delivered n => s.deliver n

/-! ## What the page shows -/

/-- A text that JavaScript takes for true. -/
def shownError (s : ShieldedTab Bundle) : Bool :=
  match s.connect.error with
  | some message => decide (message ≠ "")
  | none => false

/-- The rail that the action panels are offered with. -/
def panels (s : ShieldedTab Bundle) : Option SppRail :=
  if s.mounted && s.session.isSome && !s.connect.needsReload && !s.shownError then s.connect.rail
  else none

/-- "Reload to switch" -/
def gate (s : ShieldedTab Bundle) : Bool :=
  s.mounted && s.session.isSome && s.connect.needsReload

end ShieldedTab

/-! ## Rails and their keys -/

/-- The rail is for the wallet, and its account was opened with the session key
of the secret. -/
def MadeFor (env : SppEnv) (secret wallet : String) (asked : List SdkCall) (rail : SppRail) :
    Prop :=
  rail.walletAddress = wallet ∧ ∃ keypair client options,
    env.sessionKeypair secret = .ok keypair ∧ .account client options keypair ∈ asked ∧
      options.userAddress = wallet

theorem connect_ensures (env : SppEnv) (secret wallet : String) (asked : List SdkCall) :
    (SppRail.connect env secret wallet).Ensures (MadeFor env secret wallet) asked := by
  refine Task.ensures_emit_bind (Task.ensures_call_bind fun _ => ?_)
  refine Task.Ensures.bind (Task.ensures_of_forall fun asked _ => ?_)
  refine Task.ensures_emit_bind (Task.ensures_call_bind fun storage => ?_)
  refine Task.ensures_emit_bind (Task.ensures_call_bind fun bootnodeWasRequired => ?_)
  refine Task.ensures_emit_bind (Task.ensures_call_bind fun client => ?_)
  refine Task.ensures_emit_bind (Task.ensures_call_bind fun _ => ?_)
  refine Task.ensures_emit_bind (Task.ensures_ofExcept_bind fun keypair hkeypair => ?_)
  refine Task.ensures_call_bind fun account => ?_
  refine Task.ensures_emit_bind (Task.ensures_call_bind fun pool => ?_)
  refine ⟨rfl, keypair, client, ⟨testnetPassphrase, wallet, env.deployerPublicKey⟩, hkeypair, ?_,
    rfl⟩
  exact List.mem_append_left _ (List.mem_append_right _ (List.mem_singleton_self _))

/-- Public keys are texts without a colon. -/
def ColonFree (env : SppEnv) : Prop :=
  ∀ secret keypair, env.fromSecret secret = .ok keypair → ':' ∉ keypair.publicKey.toList

theorem railKey_eq {env : SppEnv} {secret wallet key : String}
    (h : railKey env secret wallet = .ok key) :
    ∃ keypair, env.sessionKeypair secret = .ok keypair ∧
      keypair.publicKey ++ ":" ++ wallet = key := by
  rw [railKey] at h
  cases hkeypair : env.sessionKeypair secret with
  | error message =>
      rw [hkeypair] at h
      cases h
  | ok keypair =>
      rw [hkeypair] at h
      exact ⟨keypair, rfl, Except.ok.inj h⟩

theorem takeWhile_colon {l rest : List Char} (h : ':' ∉ l) :
    (l ++ ':' :: rest).takeWhile (fun c => decide (c ≠ ':')) = l := by
  have hall : ∀ c ∈ l, decide (c ≠ ':') = true := by
    intro c hc
    simp only [decide_eq_true_eq]
    rintro rfl
    exact h hc
  rw [List.takeWhile_append_of_pos hall]
  simp

theorem railKey_inj {env : SppEnv} (hcolon : ColonFree env)
    {secret secret' wallet wallet' key : String} (h : railKey env secret wallet = .ok key)
    (h' : railKey env secret' wallet' = .ok key) :
    env.sessionKeypair secret = env.sessionKeypair secret' ∧ wallet = wallet' := by
  obtain ⟨keypair, hkeypair, hkey⟩ := railKey_eq h
  obtain ⟨keypair', hkeypair', hkey'⟩ := railKey_eq h'
  have hlist := congrArg String.toList (hkey.trans hkey'.symm)
  simp only [String.toList_append, List.append_assoc] at hlist
  -- neither public key has a colon, so both texts are cut at the same place
  have hcut : keypair.publicKey.toList ++ ':' :: wallet.toList
      = keypair'.publicKey.toList ++ ':' :: wallet'.toList := hlist
  have hpublic := congrArg (List.takeWhile fun c => decide (c ≠ ':')) hcut
  rw [takeWhile_colon (hcolon _ _ hkeypair), takeWhile_colon (hcolon _ _ hkeypair')] at hpublic
  rw [hpublic] at hcut
  have hwallet := (List.cons.inj (List.append_cancel_left hcut)).2
  refine ⟨?_, String.toList_injective hwallet⟩
  rw [hkeypair, hkeypair']
  cases keypair
  cases keypair'
  cases String.toList_injective hpublic
  rfl

/-- The rail is what a connect for the wallet with the session key of the secret
returned. -/
def ConnectedFor (env : SppEnv) (secret wallet : String) (rail : SppRail) : Prop :=
  ∃ secret' asked, env.sessionKeypair secret' = env.sessionKeypair secret ∧
    (SppRail.connect env secret' wallet).Leads asked (.settled (.ok rail)) ∧
    MadeFor env secret wallet asked rail

/-- Every entry of the slot is a connect for its key. -/
def EntriesMade (env : SppEnv) (page : Page) : Prop :=
  ∀ (i : Nat) (entry : ActiveRail), page.entries[i]? = some entry →
    ∃ secret wallet asked, railKey env secret wallet = .ok entry.key ∧
      (SppRail.connect env secret wallet).Leads asked entry.rail

theorem EntriesMade.connectedFor {env : SppEnv} {page : Page} (h : EntriesMade env page)
    (hcolon : ColonFree env) {i : Nat} {entry : ActiveRail} {rail : SppRail}
    (hi : page.entries[i]? = some entry) (hrail : entry.rail = .settled (.ok rail))
    {secret wallet : String} (hkey : railKey env secret wallet = .ok entry.key) :
    ConnectedFor env secret wallet rail := by
  obtain ⟨secret', wallet', asked, hkey', hleads⟩ := h i entry hi
  obtain ⟨hkeypair, rfl⟩ := railKey_inj hcolon hkey' hkey
  rw [hrail] at hleads
  refine ⟨secret', asked, hkeypair, hleads, ?_⟩
  obtain ⟨hwallet, keypair, client, options, hsome, hasked⟩ :=
    (connect_ensures env secret' wallet' []).leads hleads
  exact ⟨hwallet, keypair, client, options, hkeypair ▸ hsome, hasked⟩

section

variable {env : SppEnv} {page : Page}

theorem EntriesMade.step (h : EntriesMade env page) (act : PageAct) :
    EntriesMade env (page.step env act) := by
  intro i entry' hi'
  cases hi : page.entries[i]? with
  | none =>
      obtain ⟨secret, wallet, hkey, hrail⟩ := made_step act hi' hi
      exact ⟨secret, wallet, [], hkey, hrail ▸ Task.Leads.refl.go⟩
  | some entry =>
      obtain ⟨secret, wallet, asked, hkey, hleads⟩ := h i entry hi
      obtain ⟨_, hsome, hsame, hrail⟩ := @entry_step env page i entry act hi
      cases hsome.symm.trans hi'
      rw [← hsame] at hkey
      rcases hrail with hrail | ⟨call, rest, answer, hawait, hrail⟩
      · exact ⟨secret, wallet, asked, hkey, hrail ▸ hleads⟩
      · rw [hawait] at hleads
        exact ⟨secret, wallet, asked ++ [call], hkey, hrail ▸ (hleads.await _).go⟩

/-- A connect that has settled stays so. -/
theorem settled_step {i : Nat} {entry : ActiveRail} {result : Except String SppRail}
    (act : PageAct) (hi : page.entries[i]? = some entry) (hrail : entry.rail = .settled result) :
    ∃ entry', (page.step env act).entries[i]? = some entry' ∧ entry'.rail = .settled result ∧
      entry'.key = entry.key := by
  obtain ⟨entry', hi', hkey, hrail'⟩ := @entry_step env page i entry act hi
  rcases hrail' with hsame | ⟨call, rest, answer, hawait, -⟩
  · exact ⟨entry', hi', hsame.trans hrail, hkey⟩
  · rw [hrail] at hawait
    cases hawait

/-- How a settled connect ends for its callers. -/
def RailOutcome.ofResult : Except String SppRail → RailOutcome
  | .ok r => .rail r
  | .error message => .failed message

theorem outcome_rail_iff {i : Nat} {outcome : RailOutcome} :
    page.outcome (.rail i) = some outcome ↔ ∃ entry result, page.entries[i]? = some entry ∧
      entry.rail = .settled result ∧ outcome = .ofResult result := by
  rw [Page.outcome]
  rcases hi : page.entries[i]? with _ | ⟨key, rail, phase, onPhase⟩
  · simp
  · rcases rail with result | ⟨event, rest⟩ | ⟨call, rest⟩
    · cases result with
      | ok r =>
          constructor
          · rintro ⟨⟩
            exact ⟨_, _, rfl, rfl, rfl⟩
          · rintro ⟨entry, result, ⟨⟩, ⟨⟩, rfl⟩
            rfl
      | error message =>
          constructor
          · rintro ⟨⟩
            exact ⟨_, _, rfl, rfl, rfl⟩
          · rintro ⟨entry, result, ⟨⟩, ⟨⟩, rfl⟩
            rfl
    · simp
    · simp

/-- A promise that has settled stays so. -/
theorem outcome_step {promise : RailPromise} {outcome : RailOutcome} (act : PageAct)
    (h : page.outcome promise = some outcome) :
    (page.step env act).outcome promise = some outcome := by
  cases promise with
  | threw message => exact h
  | rejected => exact h
  | rail i =>
      obtain ⟨entry, result, hi, hrail, rfl⟩ := outcome_rail_iff.mp h
      obtain ⟨entry', hi', hrail', -⟩ := settled_step act hi hrail
      exact outcome_rail_iff.mpr ⟨entry', result, hi', hrail', rfl⟩

end

/-! ## What a tab keeps -/

namespace ShieldedTab

variable {Bundle : Type} {env : SppEnv} {rootSecret : Bundle → String} {s : ShieldedTab Bundle}

/-- The state after this outcome of the last attempt. -/
def Shows (s : ShieldedTab Bundle) : RailOutcome → Prop
  | .rail r => s.connect.rail = some r ∧ s.connect.error = none ∧ s.connect.needsReload = false
  | .failed message =>
      s.connect.rail = none ∧ s.connect.error = some message ∧ s.connect.needsReload = false
  | .walletSwitchError =>
      s.connect.error = some walletSwitchMessage ∧ s.connect.needsReload = true

/-- The state goes with the attempt: before it ends there is no failure, and a
rail that was kept is one that the attempt gets, or it is refused. -/
def Told (s : ShieldedTab Bundle) (attempt : ConnectAttempt) : Prop :=
  match attempt.delivered with
  | true => ∃ outcome, s.page.outcome attempt.promise = some outcome ∧ s.Shows outcome
  | false => s.connect.error = none ∧ s.connect.needsReload = false ∧
      ∀ r, s.connect.rail = some r → ∃ i, s.page.outcome (.rail i) = some (.rail r) ∧
        (attempt.promise = .rail i ∨ attempt.promise = .rejected)

/-- The promise is of an entry with the attempt's key, or a refusal. -/
def Keyed (env : SppEnv) (page : Page) (attempt : ConnectAttempt) : Prop :=
  attempt.promise = .rejected ∨ ∃ i entry, attempt.promise = .rail i ∧
    page.entries[i]? = some entry ∧ railKey env attempt.secret attempt.wallet = .ok entry.key

structure Core (env : SppEnv) (s : ShieldedTab Bundle) : Prop where
  page : PageInv s.page
  made : EntriesMade env s.page
  keyed : ∀ attempt ∈ s.attempts, Keyed env s.page attempt
  live : ∀ n, s.isLive n = true → s.subscribed = some n
  last : ∀ n, s.subscribed = some n →
    s.mounted = true ∧ s.attempts.length = n + 1 ∧ s.isLive n = true
  crashed : s.crashed = true → s.mounted = false
  rail : ∀ r, s.connect.rail = some r → ∃ i, s.page.outcome (.rail i) = some (.rail r)
  told : ∀ n attempt, s.subscribed = some n → s.attempts[n]? = some attempt → s.Told attempt

/-- The last attempt is for the wallet and bundle that are set. -/
def Current (rootSecret : Bundle → String) (s : ShieldedTab Bundle) : Prop :=
  s.mounted = true → s.effectDue = false → ∀ session, s.session = some session →
    ∃ n attempt, s.subscribed = some n ∧ s.attempts[n]? = some attempt ∧
      attempt.secret = rootSecret session.bundle ∧ attempt.wallet = session.contractId

theorem core_opened (contractId : Option String) (bundle : Option Bundle) :
    (opened contractId bundle).Core env where
  page := pageInv_fresh
  made _ _ hi := by cases hi
  keyed _ hattempt := by cases hattempt
  live _ hlive := by cases hlive
  last _ hsub := by cases hsub
  crashed hcrashed := by cases hcrashed
  rail _ hrail := by cases hrail
  told _ _ hsub := by cases hsub

theorem Keyed.step {page : Page} {attempt : ConnectAttempt} (h : Keyed env page attempt)
    (act : PageAct) : Keyed env (page.step env act) attempt := by
  rcases h with hrejected | ⟨i, entry, hpromise, hi, hkey⟩
  · exact .inl hrejected
  · obtain ⟨entry', hi', hkey', -⟩ := entry_step act hi
    exact .inr ⟨i, entry', hpromise, hi', hkey' ▸ hkey⟩

theorem Told.step {attempt : ConnectAttempt} (h : s.Told attempt) (act : PageAct)
    (phase : SppConnectPhase) :
    Told { s with page := s.page.step env act, connect := { s.connect with phase := phase } }
      attempt := by
  unfold Told at h ⊢
  split at h
  · obtain ⟨outcome, houtcome, hshows⟩ := h
    refine ⟨outcome, outcome_step act houtcome, ?_⟩
    cases outcome <;> exact hshows
  · obtain ⟨herror, hreload, hrail⟩ := h
    refine ⟨herror, hreload, fun r hr => ?_⟩
    obtain ⟨i, houtcome, hpromise⟩ := hrail r hr
    exact ⟨i, outcome_step act houtcome, hpromise⟩

/-- The module goes on, and a listener may hear of it. -/
theorem Core.advance (h : s.Core env) (act : PageAct) (phase : SppConnectPhase) :
    Core env { s with
      page := s.page.step env act, connect := { s.connect with phase := phase } } where
  page := h.page.step act
  made := h.made.step act
  keyed attempt hattempt := (h.keyed attempt hattempt).step act
  live := h.live
  last := h.last
  crashed := h.crashed
  rail r hr :=
    have ⟨i, houtcome⟩ := h.rail r hr
    ⟨i, outcome_step act houtcome⟩
  told n attempt hsub hattempt := (h.told n attempt hsub hattempt).step act phase

/-! ## Listeners -/

theorem foldl_onPhase (reports : List (Nat × SppConnectPhase)) (s : ShieldedTab Bundle) :
    ∃ phase, reports.foldl onPhase s = { s with connect := { s.connect with phase := phase } } ∧
      ((∀ report ∈ reports, s.isLive report.1 = false) → phase = s.connect.phase) := by
  induction reports generalizing s with
  | nil => exact ⟨s.connect.phase, rfl, fun _ => rfl⟩
  | cons report reports ih =>
      rw [List.foldl_cons, onPhase]
      split
      next hlive =>
        obtain ⟨phase, heq, -⟩ := ih (s.dispatch (.phase report.2))
        refine ⟨phase, heq, fun hdead => ?_⟩
        rw [hdead report List.mem_cons_self] at hlive
        cases hlive
      · obtain ⟨phase, heq, hsame⟩ := ih s
        exact ⟨phase, heq, fun hdead => hsame fun r hr => hdead r (List.mem_cons_of_mem _ hr)⟩

theorem hear_eq (s : ShieldedTab Bundle) (page : Page) :
    ∃ phase, s.hear page
      = { s with page := page, connect := { s.connect with phase := phase } } := by
  obtain ⟨phase, heq, -⟩ := foldl_onPhase (page.reported.drop s.page.reported.length)
    { s with page := page }
  exact ⟨phase, heq⟩

/-- What an answer lets listeners hear is told to the entry's. -/
theorem settle_reports {page : Page} {i : Nat} {sdk : Sdk} {report : Nat × SppConnectPhase}
    (h : report ∈ (page.settle i sdk).reported.drop page.reported.length) :
    ∃ entry, page.entries[i]? = some entry ∧ entry.onPhase = some report.1 := by
  unfold Page.settle at h
  split at h
  · simp at h
  next entry hi =>
    split at h
    · simp only [List.drop_left] at h
      refine ⟨entry, hi, ?_⟩
      unfold tell at h
      split at h
      · cases h
      next listener hlistener =>
        obtain ⟨phase, -, rfl⟩ := List.mem_map.mp h
        exact hlistener
    · simp at h
    · simp at h

/-! ## Each step keeps it -/

theorem isLive_cancel (n m : Nat) (sub : Option Nat) :
    isLive { s with attempts := s.attempts.modify n cancel, subscribed := sub } m
      = (decide (m ≠ n) && s.isLive m) := by
  simp only [isLive, List.getElem?_modify]
  by_cases hne : n = m
  · cases s.attempts[m]? <;> simp [hne, cancel]
  · cases s.attempts[m]? <;> simp [hne, Ne.symm hne]

/-- The cleanup of the last run: no attempt is live. -/
theorem Core.cleanup (h : s.Core env) : s.cleanup.Core env ∧ s.cleanup.subscribed = none := by
  unfold ShieldedTab.cleanup
  split
  next hnone => exact ⟨h, hnone⟩
  next n hsub =>
    refine ⟨⟨h.page, h.made, fun attempt hattempt => ?_, fun m hlive => ?_, fun m hm => ?_,
      h.crashed, h.rail, fun m attempt hm => ?_⟩, rfl⟩
    · obtain ⟨m, hm⟩ := List.mem_iff_getElem?.mp hattempt
      rw [List.getElem?_modify] at hm
      obtain ⟨before, hbefore, heq⟩ := Option.map_eq_some_iff.mp hm
      have hkeyed := h.keyed before (List.mem_of_getElem? hbefore)
      split at heq <;> exact heq ▸ hkeyed
    · -- the one live attempt is cancelled
      rw [isLive_cancel, Bool.and_eq_true, decide_eq_true_eq] at hlive
      exact absurd (Option.some.inj ((h.live m hlive.2).symm.trans hsub)) hlive.1
    · cases hm
    · cases hm

/-- An attempt that no one waits for is added. -/
theorem isLive_append {attempts : List ConnectAttempt} {attempt : ConnectAttempt} {n : Nat}
    (hlive : isLive { s with attempts := attempts ++ [attempt] } n = true) :
    isLive { s with attempts := attempts } n = true ∨ n = attempts.length := by
  rw [isLive] at hlive
  rcases Nat.lt_or_ge n attempts.length with hn | hn
  · rw [List.getElem?_append_left hn] at hlive
    exact .inl hlive
  · right
    rw [List.getElem?_append_right hn] at hlive
    rcases hsub : n - attempts.length with _ | k
    · omega
    · rw [hsub] at hlive
      simp at hlive

/-- A rail that was kept is what the next attempt gets, or the attempt is
refused. -/
theorem promise_of_resolved (hpage : PageInv s.page) {i : Nat} {r : SppRail}
    (hrail : s.page.outcome (.rail i) = some (.rail r)) {secret wallet : String}
    {listener : Option Nat}
    (hthrew : ∀ message, (connectSppRail env s.page secret wallet listener).2 ≠ .threw message) :
    (connectSppRail env s.page secret wallet listener).2 = .rail i ∨
      (connectSppRail env s.page secret wallet listener).2 = .rejected := by
  obtain ⟨entry, result, hi, hsettled, hresult⟩ := outcome_rail_iff.mp hrail
  have hactive : s.page.activeEntry = some (i, entry) := by
    refine hpage.activeEntry hi ?_
    rw [ActiveRail.failed, hsettled]
    cases result with
    | ok r => rfl
    | error message => cases hresult
  rcases connectSppRail_cases env s.page secret wallet listener with
    ⟨j, e, hj, _, _, _, _, hpromise⟩ | ⟨_, hnone, _⟩ |
    ⟨_, ⟨_, _, _, _, _, _, hpromise⟩ | ⟨message, _, hpromise⟩⟩
  · cases hactive.symm.trans hj
    exact .inl hpromise
  · rw [hactive] at hnone
    cases hnone
  · exact .inr hpromise
  · exact absurd hpromise (hthrew message)

theorem keyed_connectSppRail {page : Page} {secret wallet : String} {listener : Option Nat}
    {promise : RailPromise}
    (hpromise : (connectSppRail env page secret wallet listener).2 = promise)
    (hthrew : ∀ message, promise ≠ .threw message) (cancelled delivered : Bool) :
    Keyed env (connectSppRail env page secret wallet listener).1
      ⟨secret, wallet, promise, cancelled, delivered⟩ := by
  cases promise with
  | threw message => exact absurd rfl (hthrew message)
  | rejected => exact .inl rfl
  | rail i =>
      obtain ⟨entry, hi, hkey⟩ := connectSppRail_promise hpromise
      exact .inr ⟨i, entry, rfl, hi, hkey⟩

/-- A new attempt is made while none is live. -/
theorem Core.attempt (h : s.Core env) (hnone : s.subscribed = none) (hmounted : s.mounted = true)
    {secret wallet : String} {page : Page} {promise : RailPromise}
    (hconnect : connectSppRail env s.page secret wallet (some s.attempts.length) = (page, promise))
    (hthrew : ∀ message, promise ≠ .threw message) (phase : SppConnectPhase) :
    Core env { s with
      page := page
      connect := { connectReducer s.connect .attempt with phase := phase }
      attempts := s.attempts ++ [⟨secret, wallet, promise, false, false⟩]
      subscribed := some s.attempts.length } := by
  have hpage : page = s.page.step env (.connectSppRail secret wallet (some s.attempts.length)) :=
    (congrArg Prod.fst hconnect).symm
  have hpromise : (connectSppRail env s.page secret wallet (some s.attempts.length)).2 = promise :=
    congrArg Prod.snd hconnect
  have hadvanced := h.advance (.connectSppRail secret wallet (some s.attempts.length)) phase
  rw [← hpage] at hadvanced
  refine ⟨hadvanced.page, hadvanced.made, fun attempt hattempt => ?_, fun n hlive => ?_,
    fun n hn => ?_, h.crashed, hadvanced.rail, fun n attempt hn hattempt => ?_⟩
  · rcases List.mem_append.mp hattempt with hold | hnew
    · exact hadvanced.keyed attempt hold
    · cases List.mem_singleton.mp hnew
      have hkeyed := keyed_connectSppRail hpromise hthrew false false
      rw [hconnect] at hkeyed
      exact hkeyed
  · rcases isLive_append hlive with hold | heq
    · have hsub := h.live n hold
      rw [hnone] at hsub
      cases hsub
    · rw [heq]
  · cases hn
    refine ⟨hmounted, by simp, ?_⟩
    simp [isLive]
  · cases hn
    rw [List.getElem?_concat_length] at hattempt
    cases hattempt
    refine ⟨rfl, rfl, fun r hr => ?_⟩
    obtain ⟨i, houtcome⟩ := h.rail r hr
    refine ⟨i, ?_, ?_⟩
    · rw [hpage]
      exact outcome_step _ houtcome
    · rw [← hpromise]
      exact promise_of_resolved h.page houtcome fun message => hpromise ▸ hthrew message

theorem Core.connectEffect (rootSecret : Bundle → String) (h : s.Core env)
    (hnone : s.subscribed = none) (hmounted : s.mounted = true) :
    (s.connectEffect env rootSecret).Core env ∧
      (s.effectDue = false → (s.connectEffect env rootSecret).Current rootSecret) := by
  unfold ShieldedTab.connectEffect
  split
  next hsession =>
    refine ⟨h, fun _ _ _ session hsome => ?_⟩
    rw [hsession] at hsome
    cases hsome
  next session hsession =>
    dsimp only
    have hdispatched : Core env (s.dispatch .attempt) :=
      ⟨h.page, h.made, h.keyed, h.live, h.last, h.crashed, h.rail, fun n attempt hn => by
        cases hnone.symm.trans (show s.subscribed = some n from hn)⟩
    split
    next page message hconnect =>
      -- the tree is gone
      have hpage : page = s.page.step env (.connectSppRail (rootSecret session.bundle)
          session.contractId (some s.attempts.length)) := (congrArg Prod.fst hconnect).symm
      have hadvanced := hdispatched.advance (.connectSppRail (rootSecret session.bundle)
        session.contractId (some s.attempts.length)) s.connect.phase
      refine ⟨⟨hpage ▸ hadvanced.page, hpage ▸ hadvanced.made, hpage ▸ hadvanced.keyed, h.live,
        fun n hn => ?_, fun _ => rfl, hpage ▸ hadvanced.rail, fun n attempt hn => ?_⟩,
        fun _ hmounted => by cases hmounted⟩
      · cases hnone.symm.trans (show s.subscribed = some n from hn)
      · cases hnone.symm.trans (show s.subscribed = some n from hn)
    next page promise hthrew hconnect =>
      obtain ⟨phase, heq⟩ := hear_eq { s.dispatch .attempt with
        attempts := s.attempts ++
          [⟨rootSecret session.bundle, session.contractId, promise, false, false⟩]
        subscribed := some s.attempts.length } page
      rw [show (s.dispatch .attempt).attempts = s.attempts from rfl, heq]
      have hcore := hdispatched.attempt hnone hmounted hconnect
        hthrew phase
      refine ⟨hcore, fun _ _ _ session' hsession' => ?_⟩
      cases hsession.symm.trans hsession'
      exact ⟨s.attempts.length, _, rfl, List.getElem?_concat_length, rfl, rfl⟩

theorem Core.runEffects (h : s.Core env) (hcurrent : s.Current rootSecret) :
    (s.runEffects env rootSecret).Core env ∧ (s.runEffects env rootSecret).Current rootSecret := by
  unfold ShieldedTab.runEffects
  split
  next hdue =>
    obtain ⟨hmounted, -⟩ := Bool.and_eq_true_iff.mp hdue
    obtain ⟨hcore, hnone⟩ := h.cleanup
    have hstill : s.cleanup.mounted = true := by
      unfold ShieldedTab.cleanup
      split <;> exact hmounted
    have hcore' : Core env { s.cleanup with effectDue := false } :=
      ⟨hcore.page, hcore.made, hcore.keyed, hcore.live, hcore.last, hcore.crashed, hcore.rail,
        hcore.told⟩
    obtain ⟨hafter, hcurrent'⟩ := hcore'.connectEffect rootSecret hnone hstill
    exact ⟨hafter, hcurrent' rfl⟩
  · exact ⟨h, hcurrent⟩

theorem connectEffect_effectDue :
    (s.connectEffect env rootSecret).effectDue = s.effectDue := by
  unfold ShieldedTab.connectEffect
  split
  · rfl
  · dsimp only
    split
    · rfl
    next page promise _ _ =>
      obtain ⟨phase, heq⟩ := hear_eq _ page
      rw [heq]
      rfl

/-- No effect is left due. -/
theorem runEffects_done (h : (s.runEffects env rootSecret).mounted = true) :
    (s.runEffects env rootSecret).effectDue = false := by
  unfold ShieldedTab.runEffects at h ⊢
  split at h
  next hdue =>
    rw [if_pos hdue, connectEffect_effectDue]
  next hdue =>
    rw [if_neg hdue]
    simpa [h] using hdue

theorem isLive_delivered (n m : Nat) :
    isLive { s with
      attempts := s.attempts.modify n fun attempt => { attempt with delivered := true } } m
      = s.isLive m := by
  simp only [isLive, List.getElem?_modify]
  cases s.attempts[m]? with
  | none => rfl
  | some attempt => by_cases h : n = m <;> simp [h]

/-- An attempt whose end is noted as delivered. -/
theorem mem_delivered {n : Nat} {attempt : ConnectAttempt}
    (h : attempt ∈ s.attempts.modify n fun attempt => { attempt with delivered := true }) :
    ∃ before ∈ s.attempts, before.secret = attempt.secret ∧ before.wallet = attempt.wallet ∧
      before.promise = attempt.promise := by
  obtain ⟨m, hm⟩ := List.mem_iff_getElem?.mp h
  rw [List.getElem?_modify] at hm
  obtain ⟨before, hbefore, heq⟩ := Option.map_eq_some_iff.mp hm
  refine ⟨before, List.mem_of_getElem? hbefore, ?_⟩
  split at heq <;> exact heq ▸ ⟨rfl, rfl, rfl⟩

/-- The end of an attempt whose end was not expected otherwise. -/
theorem shows_outcome {attempt : ConnectAttempt} {outcome : RailOutcome}
    (htold : s.Told attempt) (hdelivered : attempt.delivered = false)
    (houtcome : s.page.outcome attempt.promise = some outcome) :
    (s.dispatch outcome.event).Shows outcome := by
  rw [Told, hdelivered] at htold
  obtain ⟨-, hreload, hrail⟩ := htold
  cases outcome with
  | rail r => exact ⟨rfl, rfl, rfl⟩
  | walletSwitchError => exact ⟨rfl, rfl⟩
  | failed message =>
      refine ⟨?_, rfl, rfl⟩
      -- a rail that was kept would have been given to the attempt
      by_contra hsome
      obtain ⟨r, hr⟩ := Option.ne_none_iff_exists'.mp hsome
      obtain ⟨i, hi, hpromise | hpromise⟩ := hrail r hr
      · rw [hpromise, hi] at houtcome
        cases houtcome
      · rw [hpromise] at houtcome
        cases houtcome

/-- A rail after an attempt has ended is the attempt's, or was there before. -/
theorem rail_of_dispatch (h : s.Core env) {promise : RailPromise} {outcome : RailOutcome}
    (houtcome : s.page.outcome promise = some outcome) {r : SppRail}
    (hr : (connectReducer s.connect outcome.event).rail = some r) :
    ∃ i, s.page.outcome (.rail i) = some (.rail r) := by
  cases outcome with
  | failed message => exact h.rail r hr
  | walletSwitchError => exact h.rail r hr
  | rail r' =>
      cases hr
      cases promise with
      | rail i => exact ⟨i, houtcome⟩
      | rejected => cases houtcome
      | threw message => cases houtcome

theorem Core.deliver (h : s.Core env) (n : Nat) : (s.deliver n).Core env := by
  unfold ShieldedTab.deliver
  split
  · exact h
  next attempt hattempt =>
    split
    next outcome houtcome hdelivered =>
      dsimp only
      have hkeyed : ∀ a ∈ s.attempts.modify n fun attempt => { attempt with delivered := true },
          Keyed env s.page a := by
        intro a ha
        obtain ⟨before, hbefore, hsecret, hwallet, hpromise⟩ := mem_delivered ha
        have hbeforekeyed := h.keyed before hbefore
        rw [Keyed, hsecret, hwallet, hpromise] at hbeforekeyed
        exact hbeforekeyed
      split
      next hcancelled =>
        refine ⟨h.page, h.made, hkeyed, fun m hm => h.live m (isLive_delivered n m ▸ hm),
          fun m hm => ?_, h.crashed, h.rail, fun m a hm ha => ?_⟩
        · obtain ⟨hmounted, hlength, hlive⟩ := h.last m hm
          exact ⟨hmounted, (List.length_modify _ _ _).trans hlength,
            (isLive_delivered n m).trans hlive⟩
        · -- a cancelled attempt is not the last one
          have hne : n ≠ m := by
            rintro rfl
            obtain ⟨-, -, hlive⟩ := h.last n hm
            rw [isLive, hattempt] at hlive
            simp [hcancelled] at hlive
          obtain ⟨before, hbefore, heq⟩ :=
            Option.map_eq_some_iff.mp ((List.getElem?_modify ..).symm.trans ha)
          rw [if_neg hne] at heq
          exact heq ▸ h.told m before hm hbefore
      next hlive =>
        have hsub : s.subscribed = some n := by
          refine h.live n ?_
          rw [isLive, hattempt]
          simpa using hlive
        have hshows := shows_outcome (h.told n attempt hsub hattempt) hdelivered houtcome
        refine ⟨h.page, h.made, hkeyed, fun m hm => h.live m (isLive_delivered n m ▸ hm),
          fun m hm => ?_, h.crashed, fun r hr => ?_, fun m a hm ha => ?_⟩
        · obtain ⟨hmounted, hlength, hlive⟩ := h.last m hm
          exact ⟨hmounted, (List.length_modify _ _ _).trans hlength,
            (isLive_delivered n m).trans hlive⟩
        · exact rail_of_dispatch h houtcome hr
        · cases hsub.symm.trans hm
          obtain ⟨before, hbefore, heq⟩ :=
            Option.map_eq_some_iff.mp ((List.getElem?_modify ..).symm.trans ha)
          cases hattempt.symm.trans hbefore
          rw [if_pos rfl] at heq
          subst heq
          exact ⟨outcome, houtcome, by cases outcome <;> exact hshows⟩
    · exact h

theorem Current.deliver (h : s.Current rootSecret) (n : Nat) :
    (s.deliver n).Current rootSecret := by
  unfold ShieldedTab.deliver
  split
  · exact h
  next attempt hattempt =>
    split
    next outcome houtcome hdelivered =>
      dsimp only
      have hat : ∀ (m : Nat) (before : ConnectAttempt), s.attempts[m]? = some before →
          ∃ after : ConnectAttempt,
            (s.attempts.modify n fun attempt => { attempt with delivered := true })[m]?
              = some after ∧
            after.secret = before.secret ∧ after.wallet = before.wallet := by
        intro m before hbefore
        rw [List.getElem?_modify, hbefore]
        refine ⟨_, rfl, ?_⟩
        dsimp only
        split <;> exact ⟨rfl, rfl⟩
      have hcurrent : ∀ session, s.mounted = true → s.effectDue = false →
          s.session = some session → ∃ m after, s.subscribed = some m ∧
            (s.attempts.modify n fun attempt => { attempt with delivered := true })[m]?
              = some after ∧
            after.secret = rootSecret session.bundle ∧ after.wallet = session.contractId := by
        intro session hmounted hdue hsession
        obtain ⟨m, before, hsub, hbefore, hsecret, hwallet⟩ := h hmounted hdue session hsession
        obtain ⟨after, hafter, hsecret', hwallet'⟩ := hat m before hbefore
        exact ⟨m, after, hsub, hafter, hsecret'.trans hsecret, hwallet'.trans hwallet⟩
      split
      · exact fun hmounted hdue session hsession => hcurrent session hmounted hdue hsession
      · exact fun hmounted hdue session hsession => hcurrent session hmounted hdue hsession
    · exact h

/-- Both parts of the invariant are kept by every step of the tab, each by its
lemma; a render runs the effect that is due before it. -/
theorem step_kept [DecidableEq Bundle] (h : s.Core env ∧ s.Current rootSecret)
    (e : TabEvent Bundle) :
    (s.step env rootSecret e).Core env ∧ (s.step env rootSecret e).Current rootSecret := by
  obtain ⟨hcore, hcurrent⟩ := h
  cases e with
  | wallet contractId bundle =>
      obtain ⟨hafter, hcurrent'⟩ := hcore.runEffects hcurrent
      refine ⟨⟨hafter.page, hafter.made, hafter.keyed, hafter.live, hafter.last, hafter.crashed,
        hafter.rail, hafter.told⟩, fun hmounted hdue session hsession => ?_⟩
      -- the effect is not due: wallet and bundle are what they were
      have hmounted' : (s.runEffects env rootSecret).mounted = true := hmounted
      have hsame : contractId = (s.runEffects env rootSecret).contractId ∧
          bundle = (s.runEffects env rootSecret).bundle := by
        have hdue' := (congrArg (· && _) hmounted').symm.trans hdue
        simpa using hdue'
      refine hcurrent' hmounted' (runEffects_done hmounted') session ?_
      rw [← hsession, ShieldedTab.session, ← hsame.1, ← hsame.2]
      rfl
  | mount =>
      rw [step]
      split
      · exact ⟨hcore, hcurrent⟩
      next hidle =>
        obtain ⟨hunmounted, hrunning⟩ := Bool.or_eq_false_iff.mp (Bool.eq_false_iff.mpr hidle)
        have hnone : ∀ n, s.subscribed ≠ some n := by
          intro n hn
          rw [(hcore.last n hn).1] at hunmounted
          cases hunmounted
        refine ⟨⟨hcore.page, hcore.made, hcore.keyed, hcore.live, fun n hn => absurd hn (hnone n),
          fun hcrashed => ?_, fun r hr => ?_, fun n _ hn => absurd hn (hnone n)⟩,
          fun _ hdue => ?_⟩
        · cases hrunning.symm.trans hcrashed
        · cases hr
        · cases hdue
  | unmount =>
      obtain ⟨hafter, -⟩ := hcore.runEffects hcurrent
      obtain ⟨hclean, hnone⟩ := hafter.cleanup
      exact ⟨⟨hclean.page, hclean.made, hclean.keyed, hclean.live,
        fun n hn => absurd (hnone.symm.trans hn) (by simp), fun _ => rfl, hclean.rail,
        fun n _ hn => absurd (hnone.symm.trans hn) (by simp)⟩, fun hmounted => by cases hmounted⟩
  | effects => exact hcore.runEffects hcurrent
  | rerun =>
      rw [step]
      split
      · have hdue : Core env { s with effectDue := true } := ⟨hcore.page, hcore.made, hcore.keyed,
          hcore.live, hcore.last, hcore.crashed, hcore.rail, hcore.told⟩
        exact hdue.runEffects fun _ hcontra => by cases hcontra
      · exact ⟨hcore, hcurrent⟩
  | settle i sdk =>
      obtain ⟨phase, heq⟩ := hear_eq s (s.page.settle i sdk)
      rw [step, heq]
      exact ⟨hcore.advance (.settle i sdk) phase, hcurrent⟩
  | caught i => exact ⟨hcore.advance (.caught i) s.connect.phase, hcurrent⟩
  | delivered n => exact ⟨hcore.deliver n, hcurrent.deliver n⟩

/-! ## What the page offers -/

/-- While a wallet and a bundle are set whose effect has run, the last attempt
is for them; and once it has ended, the panels are offered with its rail, or
the reload gate is shown, as it ended. -/
def FollowsLast (env : SppEnv) (rootSecret : Bundle → String) (s : ShieldedTab Bundle) : Prop :=
  s.mounted = true → s.effectDue = false → ∀ session, s.session = some session →
    ∃ n attempt, s.attempts.length = n + 1 ∧ s.attempts[n]? = some attempt ∧
      attempt.secret = rootSecret session.bundle ∧ attempt.wallet = session.contractId ∧
      (attempt.delivered = true → ∃ outcome, s.page.outcome attempt.promise = some outcome ∧
        (∀ r, s.panels = some r ↔ outcome = .rail r) ∧
        (s.gate = true ↔ outcome = .walletSwitchError) ∧
        ∀ r, outcome = .rail r →
          ConnectedFor env (rootSecret session.bundle) session.contractId r)

/-- What is settled or delivered leaves the state, but for the last attempt of
the mounted page. -/
def LeavesOthers (s s' : ShieldedTab Bundle) (e : TabEvent Bundle) : Prop :=
  match e with
  | .settle i _ => s'.connect = s.connect ∨ ∃ n entry, s.mounted = true ∧
      s.attempts.length = n + 1 ∧ s.isLive n = true ∧ s.page.entries[i]? = some entry ∧
      entry.onPhase = some n
  | .caught _ => s'.connect = s.connect
  | .delivered m => s'.connect = s.connect ∨
      (s.mounted = true ∧ s.attempts.length = m + 1 ∧ s.isLive m = true)
  | _ => True

theorem panels_eq (hmounted : s.mounted = true) {session : Session Bundle}
    (hsession : s.session = some session) {outcome : RailOutcome} (hshows : s.Shows outcome) :
    (∀ r, s.panels = some r ↔ outcome = .rail r) ∧
      (s.gate = true ↔ outcome = .walletSwitchError) := by
  cases outcome with
  | rail r =>
      obtain ⟨hrail, herror, hreload⟩ := hshows
      simp [panels, gate, shownError, hmounted, hsession, hrail, herror, hreload]
  | failed message =>
      obtain ⟨hrail, herror, hreload⟩ := hshows
      simp [panels, gate, hmounted, hsession, hrail, hreload]
  | walletSwitchError =>
      obtain ⟨herror, hreload⟩ := hshows
      simp [panels, gate, hmounted, hsession, hreload]

theorem Core.followsLast (h : s.Core env) (hcurrent : s.Current rootSecret)
    (hcolon : ColonFree env) : s.FollowsLast env rootSecret := by
  intro hmounted hdue session hsession
  obtain ⟨n, attempt, hsub, hattempt, hsecret, hwallet⟩ := hcurrent hmounted hdue session hsession
  refine ⟨n, attempt, (h.last n hsub).2.1, hattempt, hsecret, hwallet, fun hdelivered => ?_⟩
  have htold := h.told n attempt hsub hattempt
  rw [Told, hdelivered] at htold
  obtain ⟨outcome, houtcome, hshows⟩ := htold
  obtain ⟨hpanels, hgate⟩ := panels_eq hmounted hsession hshows
  refine ⟨outcome, houtcome, hpanels, hgate, ?_⟩
  rintro r rfl
  rcases h.keyed attempt (List.mem_of_getElem? hattempt) with
    hrejected | ⟨i, entry, hpromise, hi, hkey⟩
  · rw [hrejected] at houtcome
    cases houtcome
  · rw [hpromise] at houtcome
    obtain ⟨entry', result, hi', hrail, hresult⟩ := outcome_rail_iff.mp houtcome
    cases hi.symm.trans hi'
    cases result with
    | error message => cases hresult
    | ok r' =>
        cases hresult
        rw [← hsecret, ← hwallet]
        exact h.made.connectedFor hcolon hi hrail hkey

theorem step_leavesOthers [DecidableEq Bundle] (h : s.Core env) (e : TabEvent Bundle) :
    s.LeavesOthers (s.step env rootSecret e) e := by
  cases e with
  | settle i sdk =>
      obtain ⟨phase, heq, hsame⟩ := foldl_onPhase
        ((s.page.settle i sdk).reported.drop s.page.reported.length)
        { s with page := s.page.settle i sdk }
      by_cases hdead : ∀ report ∈ (s.page.settle i sdk).reported.drop s.page.reported.length,
          s.isLive report.1 = false
      · left
        rw [step, hear, heq, hsame hdead]
      · -- only the entry's listener hears of the answer
        right
        push Not at hdead
        obtain ⟨report, hreport, hlive⟩ := hdead
        obtain ⟨entry, hi, hlistener⟩ := settle_reports hreport
        have hlive' : s.isLive report.1 = true := by simpa using hlive
        obtain ⟨hmounted, hlength, -⟩ := h.last _ (h.live _ hlive')
        exact ⟨report.1, entry, hmounted, hlength, hlive', hi, hlistener⟩
  | caught i => exact rfl
  | delivered n =>
      rw [LeavesOthers, step, deliver]
      split
      · exact .inl rfl
      next attempt hattempt =>
        split
        · dsimp only
          split
          · exact .inl rfl
          next hlive =>
            right
            have hlive' : s.isLive n = true := by
              rw [isLive, hattempt]
              simpa using hlive
            obtain ⟨hmounted, hlength, -⟩ := h.last n (h.live n hlive')
            exact ⟨hmounted, hlength, hlive'⟩
        · exact .inl rfl
  | wallet contractId bundle => exact True.intro
  | mount => exact True.intro
  | unmount => exact True.intro
  | effects => exact True.intro
  | rerun => exact True.intro

/-- Along any order of renders, effects, answers and callbacks: the panels and
the reload gate follow the last attempt for the wallet and bundle that are set,
and what any other attempt reports or comes to leaves the state.

`Core` and `Current` hold after every run (`step_kept`). What the panels and
the gate show is read off them, and what a step of an older attempt does to the
state is a case of `step_leavesOthers`. -/
theorem connect_lifecycle [DecidableEq Bundle] (env : SppEnv) (rootSecret : Bundle → String)
    (hcolon : ColonFree env) (contractId : Option String) (bundle : Option Bundle)
    (events : List (TabEvent Bundle)) :
    let stateAfter := fun l : List (TabEvent Bundle) =>
      Run.run (step env rootSecret) (opened contractId bundle) l
    (∀ l, l <+: events → (stateAfter l).FollowsLast env rootSecret) ∧
      ∀ l e, l ++ [e] <+: events → (stateAfter l).LeavesOthers (stateAfter (l ++ [e])) e := by
  intro stateAfter
  have hkept : ∀ l, (stateAfter l).Core env ∧ (stateAfter l).Current rootSecret := by
    intro l
    refine @Run.invariant _ _ (step env rootSecret)
      (fun s => s.Core env ∧ s.Current rootSecret) _ l ⟨core_opened contractId bundle, ?_⟩
      fun s e h => step_kept h e
    intro hmounted
    cases hmounted
  refine ⟨fun l _ => (hkept l).1.followsLast (hkept l).2 hcolon, fun l e _ => ?_⟩
  have hstep : stateAfter (l ++ [e]) = (stateAfter l).step env rootSecret e := Run.run_snoc ..
  rw [hstep]
  exact step_leavesOthers (hkept l).1 e

/-! ## A wallet without its bundle -/

/-- The first wallet connects to the end. -/
def connectedTab : List (TabEvent Nat) :=
  [.mount, .effects] ++ List.replicate 8 (.settle 0 sdkUp) ++ [.delivered 0]

/-- The bundle is the first one's secret, or another one. -/
def secretOf : Nat → String
  | 0 => secretA
  | _ => "another secret"

/-- Then another wallet connects that has no bundle in this browser. -/
def bundlelessTab : List (TabEvent Nat) :=
  connectedTab ++
    [.wallet (some "CDLZFC3SYJYDZT7K67VZ75HPJVIEUVNIXF47ZG2FB2RMQQVU2HHGCYSC") none, .effects]

/-- The last attempt was fulfilled, and the page offers nothing. -/
theorem no_panels_without_bundle :
    let s := Run.run (step localEnv secretOf) (opened (some walletA) (some 0)) bundlelessTab
    s.mounted = true ∧ s.effectDue = false ∧ s.attempts.length = 1 ∧
      s.attempts[0]?.map (fun attempt => (attempt.promise, attempt.delivered))
        = some (.rail 0, true) ∧
      s.page.outcome (.rail 0) = some (.rail ⟨walletA, 1, 2, 3, 0, true⟩) ∧ s.panels = none := by
  decide +kernel

/-! ## Two wallets -/

def walletB : String := "CDLZFC3SYJYDZT7K67VZ75HPJVIEUVNIXF47ZG2FB2RMQQVU2HHGCYSC"

/-- Both wallets have a key. -/
def twoKeysEnv : SppEnv :=
  { localEnv with
    fromSecret := fun secret =>
      if secret = secretA then localEnv.fromSecret secretA
      else .ok ⟨"GBUUMVYKCJBK2KVIJKRI2T2B5LGKQKDUUJCGRFVQ6E64FRE4PVBYFWXR"⟩ }

theorem twoKeysEnv_colonFree : ColonFree twoKeysEnv := by
  intro secret keypair h
  by_cases hsecret : secret = secretA
  · simp only [twoKeysEnv, localEnv, hsecret, if_true] at h
    cases h
    decide +kernel
  · simp only [twoKeysEnv, hsecret, if_false] at h
    cases h
    decide +kernel

def twoKeysTab (events : List (TabEvent Nat)) : ShieldedTab Nat :=
  Run.run (step twoKeysEnv secretOf) (opened (some walletA) (some 0)) events

/-- The effect runs a second time while the first attempt connects. -/
def rerunTab : List (TabEvent Nat) :=
  [.mount, .effects, .settle 0 sdkUp, .settle 0 sdkUp, .rerun] ++
    List.replicate 6 (.settle 0 sdkUp)

/-- Both attempts are told how it ended. -/
def toldTab : List (TabEvent Nat) := rerunTab ++ [.delivered 0, .delivered 1]

/-- Then the second wallet is chosen. -/
def switchedTab : List (TabEvent Nat) :=
  toldTab ++ [.wallet (some walletB) (some 1), .effects, .delivered 2]

/-- And the first one again. -/
def returnedTab : List (TabEvent Nat) :=
  switchedTab ++ [.wallet (some walletA) (some 0), .effects, .delivered 3]

theorem FollowsLast.ended (h : s.FollowsLast env rootSecret) (hmounted : s.mounted = true)
    (hdue : s.effectDue = false) {session : Session Bundle} (hsession : s.session = some session)
    {promise : RailPromise} {outcome : RailOutcome}
    (hlast : s.attempts.getLast?.map (fun attempt => (attempt.promise, attempt.delivered))
      = some (promise, true))
    (houtcome : s.page.outcome promise = some outcome) :
    (∀ r, s.panels = some r ↔ outcome = .rail r) ∧
      (s.gate = true ↔ outcome = .walletSwitchError) ∧
      ∀ r, outcome = .rail r →
        ConnectedFor env (rootSecret session.bundle) session.contractId r := by
  obtain ⟨n, attempt, hlength, hattempt, -, -, hended⟩ := h hmounted hdue session hsession
  rw [List.getLast?_eq_getElem?, hlength, Nat.add_sub_cancel, hattempt] at hlast
  obtain ⟨rfl, hdelivered⟩ := Prod.mk.inj (Option.some.inj hlast)
  obtain ⟨outcome', houtcome', hended⟩ := hended hdelivered
  obtain rfl : outcome = outcome' := Option.some.inj (houtcome.symm.trans houtcome')
  exact hended

/-- The superseded attempt leaves the state, the second wallet gets the gate,
and the first one its rail again. -/
theorem connect_lifecycle_switched :
    (twoKeysTab (rerunTab ++ [.delivered 0])).connect = (twoKeysTab rerunTab).connect ∧
      (twoKeysTab toldTab).panels = some ⟨walletA, 1, 2, 3, 0, true⟩ ∧
      ConnectedFor twoKeysEnv secretA walletA ⟨walletA, 1, 2, 3, 0, true⟩ ∧
      (twoKeysTab switchedTab).gate = true ∧ (twoKeysTab switchedTab).panels = none ∧
      (twoKeysTab returnedTab).panels = some ⟨walletA, 1, 2, 3, 0, true⟩ := by
  obtain ⟨hfollows, hleaves⟩ := connect_lifecycle twoKeysEnv secretOf twoKeysEnv_colonFree
    (some walletA) (some 0) returnedTab
  have hswitched : switchedTab <+: returnedTab := List.prefix_append _ _
  have htold : toldTab <+: returnedTab := (List.prefix_append _ _).trans hswitched
  have hsuperseded : (twoKeysTab (rerunTab ++ [.delivered 0])).connect
      = (twoKeysTab rerunTab).connect := by
    have hpre : rerunTab ++ [.delivered 0] <+: toldTab := ⟨[.delivered 1], rfl⟩
    rcases hleaves rerunTab (.delivered 0) (hpre.trans htold) with hsame | ⟨-, hone, -⟩
    · exact hsame
    · have htwo : (twoKeysTab rerunTab).attempts.length = 2 := by decide +kernel
      exact absurd (htwo.symm.trans hone) (by decide)
  obtain ⟨hpanels, -, hrail⟩ := FollowsLast.ended
    (show FollowsLast twoKeysEnv secretOf (twoKeysTab toldTab) from hfollows _ htold)
    (by decide +kernel) (by decide +kernel)
    (show (twoKeysTab toldTab).session = some ⟨walletA, 0⟩ by decide +kernel)
    (show _ = some (.rail 0, true) by decide +kernel)
    (show _ = some (.rail ⟨walletA, 1, 2, 3, 0, true⟩) by decide +kernel)
  obtain ⟨hnone, hgate, -⟩ := FollowsLast.ended
    (show FollowsLast twoKeysEnv secretOf (twoKeysTab switchedTab) from hfollows _ hswitched)
    (by decide +kernel) (by decide +kernel)
    (show (twoKeysTab switchedTab).session = some ⟨walletB, 1⟩ by decide +kernel)
    (show _ = some (.rejected, true) by decide +kernel)
    (show _ = some .walletSwitchError by decide +kernel)
  obtain ⟨hagain, -, -⟩ := FollowsLast.ended
    (show FollowsLast twoKeysEnv secretOf (twoKeysTab returnedTab) from
      hfollows _ (List.prefix_refl _))
    (by decide +kernel) (by decide +kernel)
    (show (twoKeysTab returnedTab).session = some ⟨walletA, 0⟩ by decide +kernel)
    (show _ = some (.rail 0, true) by decide +kernel)
    (show _ = some (.rail ⟨walletA, 1, 2, 3, 0, true⟩) by decide +kernel)
  have hclosed : (twoKeysTab switchedTab).panels = none := by
    refine Option.eq_none_iff_forall_ne_some.mpr fun r hr => ?_
    cases (hnone r).mp hr
  exact ⟨hsuperseded, (hpanels _).mpr rfl, hrail _ rfl, hgate.mpr rfl, hclosed,
    (hagain _).mpr rfl⟩

end ShieldedTab

end Wallet

end PrivacyWallet
