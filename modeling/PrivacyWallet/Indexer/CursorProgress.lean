import PrivacyWallet.Indexer.StateMachine
import Mathlib.Order.WithBot

/-!
# When the cursor may move back

Any number of polls of the SPP stream and of loaders run at the same time.
Each reads the cursor in one step and writes it in a later one, whatever is
stored by then. `cursorRead` is what an operation in flight read.

The network only moves forward (`Network.Forward`): no answer's token lies
before the place that the request asked from. So the cursor that a poll
writes is never before the one that it read, and the loader writes over no
cursor that it read in RPC mode (`CursorOp.resume`, `resume_effect`). Still a
write can put an earlier cursor over a later one, as another operation may
have written in between.

`InOrder` says of a run that this does not happen: a poll's write finds the
cursor it read, or one not past its own; a loader's finds one not past the
backfill. `cursor_kept_iff` is exact:

- **from the order** - each access that is no write leaves the cursor
  (`no_write`), each write moves it forward (`InOrder.step_le`), and the run
  is an induction over the steps (`InOrder.run_le`);
- **to the order** - the first write out of order is one that moves the
  cursor back, or puts a loader's cursor over one in RPC mode.

`cursor_moves_back` has a run for each of the two, with operations that
overlap.
-/

namespace PrivacyWallet

namespace Indexer

/-! ## Places -/

section Places

variable {P : Type} (ledgerPlace : Nat → P) (tokenPlace : String → P)

def ResumeToken.place : ResumeToken → WithBot P
  | .cursor value => tokenPlace value
  | .ledger (some n) => ledgerPlace n
  | .ledger none => ⊥

def FetchStart.place : FetchStart → WithBot P
  | .cursor token => tokenPlace token
  | .startLedger (some n) => ledgerPlace n
  | .startLedger none => ⊥

/-- The position that a stage stands for; none before the first commit. -/
def Stage.place : Stage → WithBot P
  | .fresh => ⊥
  | .bootnode token => token.place ledgerPlace tokenPlace
  | .handoff fromLedger => (ResumeToken.ledger fromLedger).place ledgerPlace tokenPlace
  | .rpc token => token.place ledgerPlace tokenPlace

/-- The position that a stored text encodes. -/
def cursorPlace (cursor : Option String) : WithBot P :=
  (decodeStage cursor).place ledgerPlace tokenPlace

/-- No answer continues before the place that was asked from. -/
structure Network.Forward [LE P] (network : Network) : Prop where
  rpc : ∀ time opts, FetchStart.place ledgerPlace tokenPlace opts.start ≤
    (nextResumeTokenFromPage (network.fetchRpcEvents time opts)).place ledgerPlace tokenPlace
  bootnode : ∀ time opts, FetchStart.place ledgerPlace tokenPlace opts.start ≤
    match network.fetchBootnodeEvents time opts with
    | .page page => (nextResumeTokenFromPage page).place ledgerPlace tokenPlace
    | .handoff fromLedger => (ledgerPlace fromLedger : WithBot P)

theorem place_fetchOpts (token : ResumeToken) (startLedger : Nat) :
    (resumeTokenToFetchOpts (some token) startLedger).place ledgerPlace tokenPlace
      = token.place ledgerPlace tokenPlace := by
  cases token with
  | cursor value => rfl
  | ledger value => cases value <;> rfl

variable [LinearOrder P] {network : Network} {config : SourceConfig}
  {ledgerPlace : Nat → P} {tokenPlace : String → P}

/-- The call of a stage leads to a later one. -/
theorem Network.Forward.stage_le (h : network.Forward ledgerPlace tokenPlace)
    (time : Nat) (stage : Stage) :
    stage.place ledgerPlace tokenPlace
      ≤ (stage.call network config time).stage.place ledgerPlace tokenPlace := by
  have hbootnode : ∀ opts, FetchStart.place ledgerPlace tokenPlace opts.start ≤
      (Call.bootnode opts (network.fetchBootnodeEvents time opts)).stage.place ledgerPlace
        tokenPlace := by
    intro opts
    have hopts := h.bootnode time opts
    cases hanswer : network.fetchBootnodeEvents time opts with
    | page page => rwa [hanswer] at hopts
    | handoff fromLedger => rwa [hanswer] at hopts
  cases stage with
  | fresh => exact bot_le
  | bootnode token =>
      have hle := hbootnode (bootnodeOpts config (some token))
      rwa [show (bootnodeOpts config (some token)).start
        = resumeTokenToFetchOpts (some token) config.startLedger from rfl, place_fetchOpts] at hle
  | handoff fromLedger =>
      have hle := h.rpc time (rpcOpts config (some (.ledger fromLedger)))
      rwa [show (rpcOpts config (some (.ledger fromLedger))).start
        = resumeTokenToFetchOpts (some (.ledger fromLedger)) config.startLedger from rfl,
        place_fetchOpts] at hle
  | rpc token =>
      have hle := h.rpc time (rpcOpts config (some token))
      rwa [show (rpcOpts config (some token)).start
        = resumeTokenToFetchOpts (some token) config.startLedger from rfl, place_fetchOpts] at hle

end Places

/-! ## Operations at the same time -/

inductive Outcome where
  | polled (page : StreamFetchResult)
  | inited (result : SppCursorInitResult)

inductive CursorStep where
  | tick
  | poll (i : Nat)
  | init (i : Nat) (lastBackfilledLedger : Nat)
  | resume (i : Nat)
  | abort (i : Nat)

variable {V : Type}

section Runs

variable (sdk : StellarSdk V) (network : Network) (config : SourceConfig)
  (streamKey : String) (ctTokenId : Option String)

def CursorStep.act : CursorStep → Act (World Net) Nat Outcome
  | .tick => .env fun w => { w with net.time := w.net.time + 1 }
  | .poll i => .start i do
      let page ← pollSpp sdk network config streamKey ctTokenId
      pure (.polled page)
  | .init i lastBackfilledLedger => .start i do
      let result ← initSppCursor streamKey lastBackfilledLedger
      pure (.inited result)
  | .resume i => .resume i
  | .abort i => .abort i

def watched (steps : List CursorStep) : Watched (World Net) Nat Outcome :=
  Run.run Watched.exec (Watched.idle ⟨.empty, ⟨0, []⟩⟩)
    (steps.map (CursorStep.act sdk network config streamKey ctTokenId))

/-- The stored cursor after the steps. -/
def cursorAfter (steps : List CursorStep) : Option String :=
  (watched sdk network config streamKey ctTokenId steps).sys.state.db.getCursor streamKey

/-- What the operation in flight read of the cursor, once it has. -/
def cursorRead (steps : List CursorStep) (i : Nat) : Option (Option String) :=
  ((watched sdk network config streamKey ctTokenId steps).opened i).map
    fun w => w.db.getCursor streamKey

/-- What the next access of an operation completes. -/
def completes (steps : List CursorStep) (i : Nat) : List Outcome :=
  (watched sdk network config streamKey ctTokenId steps).sys.returned (.resume i)

variable {P : Type} [LinearOrder P] (ledgerPlace : Nat → P) (tokenPlace : String → P)

/-- The stored position only grows, and the loader writes over no RPC-mode
cursor. -/
structure CursorKept (steps : List CursorStep) : Prop where
  forward : ∀ l m, l <+: m → m <+: steps →
    cursorPlace ledgerPlace tokenPlace (cursorAfter sdk network config streamKey ctTokenId l) ≤
      cursorPlace ledgerPlace tokenPlace (cursorAfter sdk network config streamKey ctTokenId m)
  rpcMode : ∀ l i result, l ++ [.resume i] <+: steps →
    completes sdk network config streamKey ctTokenId l i = [.inited result] →
    result.initialized = true →
    ¬(decodeStage (cursorAfter sdk network config streamKey ctTokenId l)).IsRpc

/-- A poll that writes finds the cursor that it read, or one not past its
own. A loader that writes finds one not past its own, which is the one it
read or still not in RPC mode. -/
structure InOrder (steps : List CursorStep) : Prop where
  polls : ∀ l i page c, l ++ [.resume i] <+: steps →
    completes sdk network config streamKey ctTokenId l i = [.polled page] →
    page.nextCursor = some c →
    cursorRead sdk network config streamKey ctTokenId l i
        = some (cursorAfter sdk network config streamKey ctTokenId l) ∨
      cursorPlace ledgerPlace tokenPlace (cursorAfter sdk network config streamKey ctTokenId l)
        ≤ cursorPlace ledgerPlace tokenPlace (some c)
  loads : ∀ l i result, l ++ [.resume i] <+: steps →
    completes sdk network config streamKey ctTokenId l i = [.inited result] →
    result.initialized = true →
    (cursorRead sdk network config streamKey ctTokenId l i
          = some (cursorAfter sdk network config streamKey ctTokenId l) ∨
        ¬(decodeStage (cursorAfter sdk network config streamKey ctTokenId l)).IsRpc) ∧
      cursorPlace ledgerPlace tokenPlace (cursorAfter sdk network config streamKey ctTokenId l)
        ≤ cursorPlace ledgerPlace tokenPlace result.cursor

/-! ## What an operation in flight is about to do -/

/-- An operation, and the world in which it read the cursor. The places at which it can be
suspended are those before the read, and those after it with what it read. -/
inductive CursorOp : Option (World Net) → Async (World Net) Outcome → Prop where
  | poll : CursorOp none (do
      let page ← pollSpp sdk network config streamKey ctTokenId
      pure (.polled page))
  | init (lastBackfilledLedger : Nat) : CursorOp none (do
      let result ← initSppCursor streamKey lastBackfilledLedger
      pure (.inited result))
  | calling (w : World Net) : CursorOp (some w)
      (.await (fun w' => { w' with net.calls := w'.net.calls ++
          [(decodeStage (w.db.getCursor streamKey)).call network config w'.net.time] })
        fun w' =>
          let page := ((decodeStage (w.db.getCursor streamKey)).call network config
            w'.net.time).result
          .await (fun w'' => { w'' with db := commitPage sdk streamKey ctTokenId page w''.db })
            fun _ => .done (.polled page))
  | committing (w : World Net) (time : Nat) (page : StreamFetchResult)
      (hpage : page = ((decodeStage (w.db.getCursor streamKey)).call network config time).result) :
      CursorOp (some w)
        (.await (fun w' => { w' with db := commitPage sdk streamKey ctTokenId page w'.db })
          fun _ => .done (.polled page))
  | writing (w : World Net) (cursor : String) (reason : InitReason)
      (hmode : (w.db.getCursor streamKey).any isRpcModeCursor = false) : CursorOp (some w)
      (.await (fun w' => { w' with db := w'.db.setCursor streamKey cursor })
        fun _ => .done (.inited ⟨true, some cursor, reason⟩))

end Runs

variable {sdk : StellarSdk V} {network : Network} {config : SourceConfig}
  {streamKey : String} {ctTokenId : Option String}

/-- One access of an operation. -/
theorem CursorOp.resume {o : Option (World Net)} {p : Async (World Net) Outcome}
    (hp : CursorOp sdk network config streamKey ctTokenId o p) (w : World Net) :
    Sys.Kept (fun _ _ => True)
      (CursorOp sdk network config streamKey ctTokenId (some (o.getD w))) [] (p.resume w) := by
  cases hp with
  | poll =>
      rw [pollSpp_eq]
      exact ⟨.calling w, True.intro⟩
  | init lastBackfilledLedger =>
      rw [initSppCursor_eq, Async.await_bind, Async.resume]
      by_cases hmode : (w.db.getCursor streamKey).any isRpcModeCursor = true
      · rw [if_pos hmode]
        exact True.intro
      · rw [if_neg hmode]
        exact ⟨.writing w _ _ (Bool.eq_false_iff.mpr hmode), True.intro⟩
  | calling w₀ => exact ⟨.committing w₀ w.net.time _ rfl, True.intro⟩
  | committing w₀ time page hpage => exact True.intro
  | writing w₀ cursor reason hmode => exact True.intro

theorem cursorOp_of_thread {steps : List CursorStep} {i : Nat}
    {p : Async (World Net) Outcome}
    (hp : (watched sdk network config streamKey ctTokenId steps).sys.thread i = some p) :
    CursorOp sdk network config streamKey ctTokenId
      ((watched sdk network config streamKey ctTokenId steps).opened i) p := by
  refine Watched.thread_invariant
    (P := fun a => ∃ s, CursorStep.act sdk network config streamKey ctTokenId s = a)
    (fun o w p hp => hp.resume w) ?_ ?_ i p hp
  · rintro i p ⟨s, hs⟩
    cases s <;> cases hs
    · exact .poll
    · exact .init _
  · intro a ha
    obtain ⟨s, -, hs⟩ := List.mem_map.mp ha
    exact ⟨s, hs⟩

/-! ## One step -/

theorem watched_snoc (l : List CursorStep) (step : CursorStep) :
    watched sdk network config streamKey ctTokenId (l ++ [step])
      = (watched sdk network config streamKey ctTokenId l).exec
          (CursorStep.act sdk network config streamKey ctTokenId step) := by
  unfold watched
  rw [List.map_append, List.map_singleton, Run.run_snoc]

theorem call_nextCursor (call : Call) : ∃ c, call.result.nextCursor = some c := by
  cases call with
  | rpc opts page => exact ⟨_, rfl⟩
  | bootnode opts answer => cases answer <;> exact ⟨_, rfl⟩

/-- Only an access of an operation changes the cursor. -/
theorem cursorAfter_of_not_resume (l : List CursorStep) {step : CursorStep}
    (h : ∀ i, step ≠ .resume i) :
    cursorAfter sdk network config streamKey ctTokenId (l ++ [step])
      = cursorAfter sdk network config streamKey ctTokenId l := by
  unfold cursorAfter
  rw [watched_snoc]
  cases step with
  | tick => rfl
  | abort i => rfl
  | resume i => exact absurd rfl (h i)
  | poll i =>
      simp only [Watched.exec, CursorStep.act, Sys.exec]
      split <;> rfl
  | init i lastBackfilledLedger =>
      simp only [Watched.exec, CursorStep.act, Sys.exec]
      split <;> rfl

/-- An access that completes nothing completes no write. -/
theorem no_write {as : List Outcome} (h : as = []) :
    (∀ page, as ≠ [.polled page]) ∧
      ∀ result, as = [.inited result] → result.initialized = false := by
  subst h
  constructor
  · intro page hpage
    cases hpage
  · intro result hresult
    cases hresult

/-- An access leaves the cursor, or it is the write of a poll, of what the network answered
to the cursor it read, or it is the write of a loader that read no RPC-mode cursor.
Everything about the order is read off these three cases. -/
theorem resume_effect (l : List CursorStep) (i : Nat) :
    (cursorAfter sdk network config streamKey ctTokenId (l ++ [.resume i])
        = cursorAfter sdk network config streamKey ctTokenId l ∧
      (∀ page, completes sdk network config streamKey ctTokenId l i ≠ [.polled page]) ∧
      ∀ result, completes sdk network config streamKey ctTokenId l i = [.inited result] →
        result.initialized = false) ∨
    (∃ c₀ time c,
      cursorRead sdk network config streamKey ctTokenId l i = some c₀ ∧
      ((decodeStage c₀).call network config time).result.nextCursor = some c ∧
      completes sdk network config streamKey ctTokenId l i
        = [.polled ((decodeStage c₀).call network config time).result] ∧
      cursorAfter sdk network config streamKey ctTokenId (l ++ [.resume i]) = some c) ∨
    (∃ c₀ c reason,
      cursorRead sdk network config streamKey ctTokenId l i = some c₀ ∧
      c₀.any isRpcModeCursor = false ∧
      completes sdk network config streamKey ctTokenId l i = [.inited ⟨true, some c, reason⟩] ∧
      cursorAfter sdk network config streamKey ctTokenId (l ++ [.resume i]) = some c) := by
  have hthread : ∀ p, (watched sdk network config streamKey ctTokenId l).sys.thread i = some p →
      CursorOp sdk network config streamKey ctTokenId
        ((watched sdk network config streamKey ctTokenId l).opened i) p :=
    fun p hp => cursorOp_of_thread hp
  unfold cursorAfter cursorRead completes
  rw [watched_snoc]
  generalize watched sdk network config streamKey ctTokenId l = x at hthread ⊢
  simp only [Watched.exec, CursorStep.act, Sys.exec, Sys.returned]
  cases hi : x.sys.thread i with
  | none => exact Or.inl ⟨rfl, no_write rfl⟩
  | some p =>
      dsimp only
      have hp := hthread p hi
      generalize x.opened i = o at hp ⊢
      cases hp with
      | poll =>
          rw [pollSpp_eq]
          exact Or.inl ⟨rfl, no_write rfl⟩
      | init lastBackfilledLedger =>
          rw [initSppCursor_eq, Async.await_bind, Async.resume]
          refine Or.inl ?_
          by_cases hmode : (x.sys.state.db.getCursor streamKey).any isRpcModeCursor = true
          · rw [if_pos hmode]
            refine ⟨rfl, fun page h => ?_, fun result h => ?_⟩
            · cases h
            · cases h
              rfl
          · rw [if_neg hmode]
            exact ⟨rfl, no_write rfl⟩
      | calling w => exact Or.inl ⟨rfl, no_write rfl⟩
      | committing w time page hpage =>
          subst hpage
          obtain ⟨c, hc⟩ := call_nextCursor ((decodeStage (w.db.getCursor streamKey)).call
            network config time)
          refine Or.inr (Or.inl ⟨_, time, c, rfl, hc, rfl, ?_⟩)
          simp only [Async.resume, Db.getCursor, commitPage_cursors]
          rw [show ∀ k, w.db.cursors k = w.db.getCursor k from fun _ => rfl, hc]
          exact Function.update_self ..
      | writing w cursor reason hmode =>
          exact Or.inr (Or.inr ⟨_, cursor, reason, rfl, hmode, rfl, Db.getCursor_setCursor ..⟩)

/-! ## When nothing is lost -/

section Order

variable {P : Type} [LinearOrder P] {ledgerPlace : Nat → P} {tokenPlace : String → P}
  {steps : List CursorStep}

/-- The step of the order: a write in order moves the cursor forward. -/
theorem InOrder.step_le (hplain : network.PlainTokens)
    (hforward : network.Forward ledgerPlace tokenPlace)
    (h : InOrder sdk network config streamKey ctTokenId ledgerPlace tokenPlace steps)
    {l : List CursorStep} {step : CursorStep} (hl : l ++ [step] <+: steps) :
    cursorPlace ledgerPlace tokenPlace (cursorAfter sdk network config streamKey ctTokenId l) ≤
      cursorPlace ledgerPlace tokenPlace
        (cursorAfter sdk network config streamKey ctTokenId (l ++ [step])) := by
  by_cases hstep : ∃ i, step = .resume i
  · obtain ⟨i, rfl⟩ := hstep
    rcases @resume_effect V sdk network config streamKey ctTokenId l i with
      ⟨hsame, -, -⟩ | ⟨c₀, time, c, hread, hc, hdone, hafter⟩ |
      ⟨c₀, c, reason, hread, hmode, hdone, hafter⟩
    · rw [hsame]
    · rw [hafter]
      rcases h.polls l i _ c hl hdone hc with hsame | hle
      · -- not overtaken: the network's answer goes on from the stored cursor
        rw [hread, Option.some.injEq] at hsame
        subst hsame
        obtain ⟨c', hc', hstage⟩ := decodeStage_result
          (@Network.PlainTokens.call network config hplain time
            (decodeStage (cursorAfter sdk network config streamKey ctTokenId l)))
        rw [hc, Option.some.injEq] at hc'
        subst hc'
        unfold cursorPlace
        rw [hstage]
        exact hforward.stage_le time _
      · exact hle
    · rw [hafter]
      exact (h.loads l i _ hl hdone rfl).2
  · rw [cursorAfter_of_not_resume l fun i hi => hstep ⟨i, hi⟩]

/-- The run of the order. -/
theorem InOrder.run_le (hplain : network.PlainTokens)
    (hforward : network.Forward ledgerPlace tokenPlace)
    (h : InOrder sdk network config streamKey ctTokenId ledgerPlace tokenPlace steps)
    {l m : List CursorStep} (hlm : l <+: m) (hm : m <+: steps) :
    cursorPlace ledgerPlace tokenPlace (cursorAfter sdk network config streamKey ctTokenId l) ≤
      cursorPlace ledgerPlace tokenPlace
        (cursorAfter sdk network config streamKey ctTokenId m) := by
  induction m using List.reverseRecOn with
  | nil => rw [List.prefix_nil.mp hlm]
  | append_singleton m step ih =>
      rcases List.prefix_concat_iff.mp hlm with rfl | hlm
      · exact le_rfl
      · exact (ih hlm ((List.prefix_append _ _).trans hm)).trans
          (h.step_le hplain hforward hm)

/-- The stored position never moves back and no RPC-mode cursor is replaced
by the loader's, if and only if the writes are in order.

A step that writes is one of two (`resume_effect`), the write of a poll or of
the loader. For each, the order says of the cursor that the write finds what the
result says of the cursor before and after it. -/
theorem cursor_kept_iff (sdk : StellarSdk V) (network : Network) (config : SourceConfig)
    (streamKey : String) (ctTokenId : Option String) (ledgerPlace : Nat → P)
    (tokenPlace : String → P) (hplain : network.PlainTokens)
    (hforward : network.Forward ledgerPlace tokenPlace) (steps : List CursorStep) :
    CursorKept sdk network config streamKey ctTokenId ledgerPlace tokenPlace steps ↔
      InOrder sdk network config streamKey ctTokenId ledgerPlace tokenPlace steps := by
  constructor
  · intro h
    refine ⟨fun l i page c hl hdone hc => Or.inr ?_, fun l i result hl hdone hinit => ?_⟩
    · have hle := h.forward l _ (List.prefix_append _ _) hl
      rcases @resume_effect V sdk network config streamKey ctTokenId l i with
        ⟨-, hno, -⟩ | ⟨c₀, time, c', -, hc', hdone', hafter⟩ | ⟨c₀, c', reason, -, -, hdone', -⟩
      · exact absurd hdone (hno page)
      · rw [hdone] at hdone'
        cases hdone'
        rw [hc] at hc'
        cases hc'
        rwa [hafter] at hle
      · rw [hdone] at hdone'
        cases hdone'
    · refine ⟨Or.inr (h.rpcMode l i result hl hdone hinit), ?_⟩
      have hle := h.forward l _ (List.prefix_append _ _) hl
      rcases @resume_effect V sdk network config streamKey ctTokenId l i with
        ⟨-, -, hno⟩ | ⟨c₀, time, c', -, -, hdone', -⟩ | ⟨c₀, c', reason, -, -, hdone', hafter⟩
      · rw [hno result hdone] at hinit
        cases hinit
      · rw [hdone] at hdone'
        cases hdone'
      · rw [hdone] at hdone'
        cases hdone'
        rwa [hafter] at hle
  · intro h
    refine ⟨fun l m hlm hm => h.run_le hplain hforward hlm hm,
      fun l i result hl hdone hinit => ?_⟩
    rcases (h.loads l i result hl hdone hinit).1 with hsame | hmode
    · rcases @resume_effect V sdk network config streamKey ctTokenId l i with
        ⟨-, -, hno⟩ | ⟨c₀, time, c', -, -, hdone', -⟩ | ⟨c₀, c', reason, hread, hmode, -, -⟩
      · rw [hno result hdone] at hinit
        cases hinit
      · rw [hdone] at hdone'
        cases hdone'
      · rw [hread, Option.some.injEq] at hsame
        rw [isRpc_decodeStage, ← hsame, hmode]
        exact Bool.false_ne_true
    · exact hmode

end Order

/-! ## Overtaken writes -/

/-- A network without events: the bootnode hands off at ledger 3898970, the
chain's tip is ledger 3900644. -/
def quietNetwork : Network where
  fetchRpcEvents _ opts := match opts.start with
    | .startLedger (some ledger) => ⟨[], max ledger 3900644, none, 0⟩
    | _ => ⟨[], 3900644, none, 0⟩
  fetchBootnodeEvents _ opts := match opts.start with
    | .startLedger (some ledger) => .handoff (max ledger 3898970)
    | _ => .handoff 3898970

theorem quietNetwork_plainTokens : quietNetwork.PlainTokens where
  rpc := by
    intro time opts c hc
    unfold quietNetwork at hc
    dsimp only at hc
    split at hc <;> cases hc
  bootnode := by
    intro time opts page hpage
    unfold quietNetwork at hpage
    dsimp only at hpage
    split at hpage <;> cases hpage

theorem quietNetwork_forward : quietNetwork.Forward id (fun _ => 0) where
  rpc := by
    intro time opts
    unfold quietNetwork FetchStart.place
    dsimp only
    cases opts.start with
    | cursor token => exact WithBot.coe_le_coe.mpr (Nat.zero_le _)
    | startLedger ledger =>
        cases ledger with
        | none => exact bot_le
        | some n => exact WithBot.coe_le_coe.mpr ((le_max_left n 3900644).trans (Nat.le_succ _))
  bootnode := by
    intro time opts
    unfold quietNetwork FetchStart.place
    dsimp only
    cases opts.start with
    | cursor token => exact WithBot.coe_le_coe.mpr (Nat.zero_le _)
    | startLedger ledger =>
        cases ledger with
        | none => exact bot_le
        | some n => exact WithBot.coe_le_coe.mpr (le_max_left n 3898970)

/-- Another worker polls twice: the handoff, and the first RPC page. -/
def pollTwice (i : Nat) : List CursorStep :=
  [.poll i, .resume i, .resume i, .resume i, .poll i, .resume i, .resume i, .resume i]

/-- A poll that read the cursor before and writes it after. -/
def overtakenPoll : List CursorStep := [.poll 0, .resume 0, .resume 0] ++ pollTwice 1

/-- A loader that read the cursor before and writes it after. -/
def overtakenLoader : List CursorStep := [.init 0 3773990, .resume 0] ++ pollTwice 1

theorem overtakenPoll_not_kept : ¬CursorKept mergeSdk quietNetwork
    ⟨[mergeToken], 3773948, none⟩ "spp" none id (fun _ => 0) (overtakenPoll ++ [.resume 0]) := by
  intro h
  have hle := h.forward overtakenPoll (overtakenPoll ++ [.resume 0]) (List.prefix_append _ _)
    (List.prefix_refl _)
  have hbefore : cursorAfter mergeSdk quietNetwork ⟨[mergeToken], 3773948, none⟩ "spp" none
      overtakenPoll = some "rpc:ledger:3900645" := rfl
  have hafter : cursorAfter mergeSdk quietNetwork ⟨[mergeToken], 3773948, none⟩ "spp" none
      (overtakenPoll ++ [.resume 0]) = some "handoff:3898970" := rfl
  rw [hbefore, hafter] at hle
  have hlt : (3900645 : Nat) ≤ 3898970 := WithBot.coe_le_coe.mp hle
  omega

theorem overtakenLoader_not_kept : ¬CursorKept mergeSdk quietNetwork
    ⟨[mergeToken], 3773948, none⟩ "spp" none id (fun _ => 0)
    (overtakenLoader ++ [.resume 0]) := by
  intro h
  have hmode := h.rpcMode overtakenLoader 0 _ (List.prefix_refl _) rfl rfl
  have hbefore : cursorAfter mergeSdk quietNetwork ⟨[mergeToken], 3773948, none⟩ "spp" none
      overtakenLoader = some "rpc:ledger:3900645" := rfl
  rw [hbefore] at hmode
  exact hmode True.intro

/-- Two polls that overlap move the cursor back, and a loader that overlaps
two polls replaces an RPC-mode cursor. -/
theorem cursor_moves_back :
    ¬CursorKept mergeSdk quietNetwork ⟨[mergeToken], 3773948, none⟩ "spp" none id (fun _ => 0)
        (overtakenPoll ++ [.resume 0]) ∧
      ¬CursorKept mergeSdk quietNetwork ⟨[mergeToken], 3773948, none⟩ "spp" none id (fun _ => 0)
        (overtakenLoader ++ [.resume 0]) :=
  ⟨overtakenPoll_not_kept, overtakenLoader_not_kept⟩

theorem cursor_kept_iff_overtaken :
    ¬InOrder mergeSdk quietNetwork ⟨[mergeToken], 3773948, none⟩ "spp" none id (fun _ => 0)
      (overtakenPoll ++ [.resume 0]) := by
  rw [← cursor_kept_iff mergeSdk quietNetwork ⟨[mergeToken], 3773948, none⟩ "spp" none id
    (fun _ => 0) quietNetwork_plainTokens quietNetwork_forward]
  exact overtakenPoll_not_kept

end Indexer

end PrivacyWallet
