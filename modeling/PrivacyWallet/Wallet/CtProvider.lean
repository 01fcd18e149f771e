import PrivacyWallet.Lib.Run
import PrivacyWallet.Wallet.CtState

/-!
# The view of the confidential balance

`CtProvider` keeps one rail for each pair of wallet and bundle, and one view,
which a refresh writes when it settles. The effect that swaps the rail leaves
the view, and a refresh is not cancelled when its rail is replaced. Which steps
show a balance of another wallet, or an older one, is said by `Clean`:
`view_of_connected_wallet` has the whole run.

The view changes in two places only, when the pair is cleared and when a
refresh settles; the effects that run before the next render leave it and
the pair (`runEffects_view`, `runEffects_session`). So a step is decided by
what it does itself (`step_iff`): setting a pair must meet no view of
another one, and a refresh that settles must be of the current pair and
younger than what is shown. As `step_iff` is exact for each step, the run is
an induction with nothing more to it.
-/

namespace PrivacyWallet

namespace Wallet

/-- A wallet with its bundle; bundles are told apart as objects. -/
structure Session (Bundle : Type) where
  contractId : String
  bundle : Bundle
  deriving DecidableEq

/-- Both are set; an empty text is not. -/
def Session.of {Bundle : Type} : Option String → Option Bundle → Option (Session Bundle)
  | some contractId, some bundle => if contractId = "" then none else some ⟨contractId, bundle⟩
  | _, _ => none

/-- What `CtRail.connect` made, one for each run of the effect. -/
structure RailInstance (Bundle : Type) where
  session : Session Bundle
  serial : Nat
  deriving DecidableEq

/-- A call of `refresh` that has not settled. -/
structure RefreshCall (Bundle : Type) where
  started : Nat
  rail : RailInstance Bundle

/-- A view, with the refresh that computed it. -/
structure ShownView (Bundle : Type) extends RefreshCall Bundle where
  view : CtView

structure CtProvider (Bundle : Type) where
  contractId : Option String
  bundle : Option Bundle
  rail : Option (RailInstance Bundle)
  view : Option (ShownView Bundle)
  loading : Bool
  error : Option String
  -- the effects that the last render left to run
  railEffectDue : Bool
  refreshEffectDue : Bool
  rails : List (RailInstance Bundle)
  refreshes : List (RefreshCall Bundle)
  started : Nat

/-- What happens to a mounted provider: another pair from the wallet provider,
the effects, a call of the `refresh` of the render with the given rail, and a
refresh that settles. -/
inductive ProviderEvent (Bundle : Type) where
  | wallet (contractId : Option String) (bundle : Option Bundle)
  | effects
  | refresh (serial : Nat)
  | settled (started : Nat) (result : Except String CtView)

namespace CtProvider

variable {Bundle : Type}

def session (s : CtProvider Bundle) : Option (Session Bundle) := Session.of s.contractId s.bundle

def mounted (contractId : Option String) (bundle : Option Bundle) : CtProvider Bundle where
  contractId := contractId
  bundle := bundle
  rail := none
  view := none
  loading := false
  error := none
  railEffectDue := true
  refreshEffectDue := true
  rails := []
  refreshes := []
  started := 0

/-- The effect on `[contractId, bundle]`. -/
def railEffect (s : CtProvider Bundle) : CtProvider Bundle :=
  match s.session with
  | none => { s with rail := none, view := none }
  | some session =>
      let instance' : RailInstance Bundle := ⟨session, s.rails.length⟩
      { s with rail := some instance', rails := s.rails ++ [instance'] }

/-- `refresh` with the rail of its render, up to the await. -/
def refresh (s : CtProvider Bundle) : Option (RailInstance Bundle) → CtProvider Bundle
  | none => s
  | some rail =>
      { s with
        loading := true
        error := none
        refreshes := s.refreshes ++ [⟨s.started, rail⟩]
        started := s.started + 1 }

/-- The effects that are due run in their order, with the rail of the render;
a rail that they replaced leads to a render with another `refresh`. -/
def runEffects [DecidableEq Bundle] (s : CtProvider Bundle) : CtProvider Bundle :=
  let afterRail := if s.railEffectDue then s.railEffect else s
  let afterRefresh := if s.refreshEffectDue then afterRail.refresh s.rail else afterRail
  { afterRefresh with
    railEffectDue := false
    refreshEffectDue := decide (afterRefresh.rail ≠ s.rail) }

/-- `refresh` after its await. -/
def settle (s : CtProvider Bundle) (started : Nat) (result : Except String CtView) :
    CtProvider Bundle :=
  match s.refreshes.find? (fun call => call.started = started) with
  | none => s
  | some call =>
      let s := { s with
        loading := false
        refreshes := s.refreshes.filter fun call => call.started ≠ started }
      match result with
      | .ok view => { s with view := some { call with view := view } }
      | .error message => { s with error := some message }

/-- Effects that are due run before another render. -/
def step [DecidableEq Bundle] (s : CtProvider Bundle) : ProviderEvent Bundle → CtProvider Bundle
  | .wallet contractId bundle =>
      let s := s.runEffects
      { s with
        contractId := contractId
        bundle := bundle
        railEffectDue := decide (contractId ≠ s.contractId ∨ bundle ≠ s.bundle) }
  | .effects => s.runEffects
  | .refresh serial => s.refresh (s.rails.find? fun rail => rail.serial = serial)
  | .settled started result => s.settle started result

/-! ## What is to hold, and when it does -/

/-- The view belongs to the pair that is set. -/
def Belongs (s : CtProvider Bundle) : Prop :=
  ∀ session, s.session = some session → ∀ shown, s.view = some shown →
    shown.rail.session = session

/-- No view is replaced by one of a refresh that started earlier. -/
def InOrder (s s' : CtProvider Bundle) : Prop :=
  ∀ shown shown', s.view = some shown → s'.view = some shown' → shown.started ≤ shown'.started

/-- A pair is set only while no view is shown that another pair's rail
computed; a refresh settles only while its pair is the current one, and before
any that started later. -/
def Clean [DecidableEq Bundle] (s : CtProvider Bundle) : ProviderEvent Bundle → Prop
  | .wallet contractId bundle =>
      ∀ session, Session.of contractId bundle = some session →
        ∀ shown, s.runEffects.view = some shown → shown.rail.session = session
  | .effects => True
  | .refresh _ => True
  | .settled _ (.error _) => True
  | .settled started (.ok _) =>
      ∀ call, s.refreshes.find? (fun call => call.started = started) = some call →
        (∀ session, s.session = some session → call.rail.session = session) ∧
          ∀ shown, s.view = some shown → shown.started ≤ call.started

/-! ## One step -/

variable {s s' : CtProvider Bundle}

theorem InOrder.of_view_eq (h : s'.view = s.view) : s.InOrder s' := by
  intro shown shown' hshown hshown'
  rw [h, hshown] at hshown'
  cases hshown'
  exact le_rfl

theorem InOrder.of_view_none (h : s'.view = none) : s.InOrder s' := by
  intro shown shown' _ hshown'
  rw [h] at hshown'
  cases hshown'

@[simp] theorem refresh_view (rail : Option (RailInstance Bundle)) :
    (s.refresh rail).view = s.view := by
  cases rail <;> rfl

@[simp] theorem refresh_contractId (rail : Option (RailInstance Bundle)) :
    (s.refresh rail).contractId = s.contractId := by
  cases rail <;> rfl

@[simp] theorem refresh_bundle (rail : Option (RailInstance Bundle)) :
    (s.refresh rail).bundle = s.bundle := by
  cases rail <;> rfl

theorem railEffect_view : s.railEffect.view = s.view ∨ s.railEffect.view = none := by
  rw [railEffect]
  split
  · exact .inr rfl
  · exact .inl rfl

theorem railEffect_session : s.railEffect.session = s.session := by
  rw [railEffect]
  split <;> rfl

variable [DecidableEq Bundle]

theorem runEffects_view : s.runEffects.view = s.view ∨ s.runEffects.view = none := by
  simp only [runEffects]
  split <;> split <;> simp [railEffect_view]

theorem runEffects_session : s.runEffects.session = s.session := by
  have hrail := @railEffect_session _ s
  simp only [session] at hrail
  simp only [runEffects, session]
  split <;> split <;> simp [hrail]

/-- The effects show nothing new. -/
theorem runEffects_inOrder : s.InOrder s.runEffects := by
  rcases @runEffects_view _ s _ with h | h
  · exact .of_view_eq h
  · exact .of_view_none h

theorem Belongs.runEffects (h : s.Belongs) : s.runEffects.Belongs := by
  intro session hsession shown hshown
  rw [runEffects_session] at hsession
  rcases @runEffects_view _ s _ with hview | hview
  · exact h session hsession shown (hview ▸ hshown)
  · rw [hview] at hshown
    cases hshown

/-- A step keeps the view with its pair, and the views in order, exactly if it
is clean. -/
theorem step_iff (hs : s.Belongs) (e : ProviderEvent Bundle) :
    (s.step e).Belongs ∧ s.InOrder (s.step e) ↔ s.Clean e := by
  cases e with
  | wallet contractId bundle =>
      constructor
      · exact fun h => h.1
      · exact fun h => ⟨h, runEffects_inOrder⟩
  | effects => exact iff_true_intro ⟨hs.runEffects, runEffects_inOrder⟩
  | refresh serial =>
      refine iff_true_intro ⟨?_, .of_view_eq (refresh_view _)⟩
      intro session hsession shown hshown
      rw [step, CtProvider.session, refresh_contractId, refresh_bundle] at hsession
      rw [step, refresh_view] at hshown
      exact hs session hsession shown hshown
  | settled started result =>
      rw [step, settle]
      cases hcall : s.refreshes.find? fun call => call.started = started with
      | none =>
          have hkept : s.Belongs ∧ s.InOrder s := ⟨hs, .of_view_eq rfl⟩
          cases result with
          | error message => exact iff_true_intro hkept
          | ok view => simp [hkept, Clean, hcall]
      | some call =>
          cases result with
          | error message => exact iff_true_intro ⟨hs, .of_view_eq rfl⟩
          | ok view =>
              constructor
              · rintro ⟨hbelongs, horder⟩ call' hcall'
                cases hcall.symm.trans hcall'
                exact ⟨fun session hsession => hbelongs session hsession _ rfl,
                  fun shown hshown => horder shown _ hshown rfl⟩
              · intro hclean
                obtain ⟨hpair, hlast⟩ := hclean call hcall
                refine ⟨?_, ?_⟩
                · rintro session hsession shown ⟨⟩
                  exact hpair session hsession
                · rintro shown shown' hshown ⟨⟩
                  exact hlast shown hshown

/-! ## The whole run -/

/-- In every state of the run the view belongs to the pair that is set, and no
step replaces a view by an older one, exactly if every step of it is clean.

`step_iff` is exact for every step, so both ways are an induction over the run. -/
theorem view_of_connected_wallet (contractId : Option String) (bundle : Option Bundle)
    (events : List (ProviderEvent Bundle)) :
    let stateAfter := fun l : List (ProviderEvent Bundle) =>
      Run.run step (mounted contractId bundle) l
    (∀ l, l <+: events → (stateAfter l).Belongs) ∧
        (∀ l e, l ++ [e] <+: events → (stateAfter l).InOrder (stateAfter (l ++ [e]))) ↔
      ∀ l e, l ++ [e] <+: events → (stateAfter l).Clean e := by
  intro stateAfter
  have hsnoc : ∀ l e, stateAfter (l ++ [e]) = (stateAfter l).step e := fun l e => Run.run_snoc ..
  constructor
  · rintro ⟨hbelongs, horder⟩ l e hl
    have hlast := hbelongs (l ++ [e]) hl
    have hordered := horder l e hl
    rw [hsnoc] at hlast hordered
    exact (step_iff (hbelongs l ((List.prefix_append l [e]).trans hl)) e).mp ⟨hlast, hordered⟩
  · intro hclean
    have hbelongs : ∀ l, l <+: events → (stateAfter l).Belongs := by
      intro l hl
      induction l using List.reverseRecOn with
      | nil => exact fun _ _ _ hshown => absurd hshown (by simp [stateAfter, mounted])
      | append_singleton l e ih =>
          rw [hsnoc]
          exact ((step_iff (ih ((List.prefix_append l [e]).trans hl)) e).mpr (hclean l e hl)).1
    refine ⟨hbelongs, fun l e hl => ?_⟩
    rw [hsnoc]
    exact ((step_iff (hbelongs l ((List.prefix_append l [e]).trans hl)) e).mpr
      (hclean l e hl)).2

/-! ## A wallet that is replaced -/

def viewOf (spendable : Int) : CtView where
  registered := true
  publicXlm := 0
  spendable := spendable
  receiving := 0
  syncedLedger := 3900700
  matchesChain := some true

/-- The first wallet's refresh settles after the second one's. -/
def replacedWallet : List (ProviderEvent Nat) :=
  [.effects, .effects, .wallet (some "second") (some 2), .effects, .effects,
    .settled 1 (.ok (viewOf 20)), .settled 0 (.ok (viewOf 10))]

/-- The balance of the first wallet stands under the second one, and has
replaced the second one's; nothing is in flight. -/
theorem replaced_wallet_shown :
    let s := Run.run step (mounted (some "first") (some 1)) replacedWallet
    s.session = some ⟨"second", 2⟩ ∧ s.refreshes = [] ∧ s.railEffectDue = false ∧
      s.refreshEffectDue = false ∧
      s.view = some ⟨⟨0, ⟨⟨"first", 1⟩, 0⟩⟩, viewOf 10⟩ ∧
      ¬s.Belongs ∧
      ¬(Run.run step (mounted (some "first") (some 1)) replacedWallet.dropLast).InOrder s := by
  refine ⟨by decide, rfl, rfl, rfl, rfl, ?_, ?_⟩
  · intro hbelongs
    have hsession := hbelongs ⟨"second", 2⟩ (by decide) _ rfl
    exact absurd hsession (by decide)
  · intro horder
    exact absurd (horder _ _ rfl rfl) (by decide)

end CtProvider

end Wallet

end PrivacyWallet
