import PrivacyWallet.Indexer.Sources

/-!
# The modes of the SPP stream

The stream starts at the bootnode and ends up at the RPC. `Stage` is the
mode with its place, `decodeStage` how the source reads it off the stored
text, and `stageAfter` what the last committed step left.

One process runs the stream: a poll or the loader's `initSppCursor`, each
either to its end or up to a failure. The history of a run are the calls
it made and the writes it committed. `Lawful` says of an entry of a history
what the stage before it makes of it: a call is the one of that stage, a
commit has its own call before it, and the loader writes only outside of RPC
mode. A run keeps this up, with the stored text standing for the stage that
was committed last (`spp_invariant`); a poll and the loader each have a few
ends, listed once (`poll_cases`, `init_cases`).

The laws of the stream are then about histories alone:

- **it does not return** (`rpc_of_leftBootnode`): past a handoff or an
  RPC-mode cursor every stage has left the bootnode, so every call does;
- **what was written stands** (`stageAfter_handoff`, `stageAfter_rpc`): after
  leaving, a commit needs a call to the RPC (`committed_notMem`), and in RPC
  mode the loader writes nothing.

The first call to the RPC after a handoff, after the loader, or after a page
is the call of the stage that stands there.
-/

namespace PrivacyWallet

namespace Indexer

open Text

/-! ## Stages -/

inductive Stage where
  | fresh
  | bootnode (token : ResumeToken)
  | handoff (fromLedger : Option Nat)
  | rpc (token : ResumeToken)
deriving DecidableEq

/-- The mode and the place that a stored text stands for. -/
def decodeStage : Option String → Stage
  | none => .fresh
  | some cursor =>
      if startsWith cursor rpcTag then
        .rpc (decodeResumeToken (slice cursor rpcTag.length))
      else if startsWith cursor handoffTag then
        .handoff (number (slice cursor handoffTag.length))
      else .bootnode (decodeResumeToken cursor)

section Network

variable (network : Network) (config : SourceConfig)

/-- The call that a poll makes in a stage, with its answer. -/
def Stage.call (time : Nat) : Stage → Call
  | .fresh => .bootnode (bootnodeOpts config none)
      (network.fetchBootnodeEvents time (bootnodeOpts config none))
  | .bootnode token => .bootnode (bootnodeOpts config (some token))
      (network.fetchBootnodeEvents time (bootnodeOpts config (some token)))
  | .handoff fromLedger => .rpc (rpcOpts config (some (.ledger fromLedger)))
      (network.fetchRpcEvents time (rpcOpts config (some (.ledger fromLedger))))
  | .rpc token => .rpc (rpcOpts config (some token))
      (network.fetchRpcEvents time (rpcOpts config (some token)))

/-- What a poll commits of an answered call. -/
def Call.result : Call → StreamFetchResult
  | .rpc _ page => ⟨page.events, some (rpcTag ++ encodeResumeToken (nextResumeTokenFromPage page))⟩
  | .bootnode _ answer => bootnodeResult answer

/-- The stage that committing an answered call leaves. -/
def Call.stage : Call → Stage
  | .rpc _ page => .rpc (nextResumeTokenFromPage page)
  | .bootnode _ (.page page) => .bootnode (nextResumeTokenFromPage page)
  | .bootnode _ (.handoff fromLedger) => .handoff (some fromLedger)

/-- The source calls what the stage of its cursor says. -/
theorem makeBootnodeThenRpcSource_eq (cursor : Option String) :
    makeBootnodeThenRpcSource network config cursor =
      .await (fun w => { w with net.calls :=
          w.net.calls ++ [(decodeStage cursor).call network config w.net.time] })
        fun w => pure ((decodeStage cursor).call network config w.net.time).result := by
  cases cursor with
  | none => rfl
  | some cursor =>
      unfold makeBootnodeThenRpcSource decodeStage
      dsimp only
      split
      · rfl
      · split
        · rfl
        · rfl

end Network

/-- A token of the network that begins with none of the tags. -/
def Plain (token : String) : Prop :=
  startsWith token ledgerTag = false ∧ startsWith token handoffTag = false ∧
    startsWith token rpcTag = false

/-- The answer's cursor, if it has one, is such a token. -/
def Call.PlainTokens : Call → Prop
  | .rpc _ page => ∀ c, page.cursor = some c → Plain c
  | .bootnode _ (.page page) => ∀ c, page.cursor = some c → Plain c
  | .bootnode _ (.handoff _) => True

theorem decodeStage_rpc (token : ResumeToken) (h : token.Untagged) :
    decodeStage (some (rpcTag ++ encodeResumeToken token)) = .rpc token := by
  unfold decodeStage
  simp [decode_encodeResumeToken h]

theorem decodeStage_handoff (fromLedger : Nat) :
    decodeStage (some (handoffTag ++ toString fromLedger)) = .handoff (some fromLedger) := by
  unfold decodeStage
  simp [startsWith_append_of_apart rpcTag_apart_handoffTag]

/-- A token without tags, or a ledger. -/
theorem decodeStage_bootnode {page : EventsPage}
    (h : ∀ c, page.cursor = some c → Plain c) :
    decodeStage (some (encodeResumeToken (nextResumeTokenFromPage page)))
      = .bootnode (nextResumeTokenFromPage page) := by
  have huntagged : (nextResumeTokenFromPage page).Untagged :=
    nextResumeTokenFromPage_untagged fun c hc => (h c hc).1
  have hrpc : startsWith (encodeResumeToken (nextResumeTokenFromPage page)) rpcTag = false := by
    unfold nextResumeTokenFromPage
    split
    · rename_i c hc
      exact (h c hc).2.2
    · exact startsWith_append_of_apart rpcTag_apart_ledgerTag _
  have hhandoff :
      startsWith (encodeResumeToken (nextResumeTokenFromPage page)) handoffTag = false := by
    unfold nextResumeTokenFromPage
    split
    · rename_i c hc
      exact (h c hc).2.1
    · exact startsWith_append_of_apart handoffTag_apart_ledgerTag _
  unfold decodeStage
  simp [hrpc, hhandoff, decode_encodeResumeToken huntagged]

/-- What a poll writes reads back as the stage it is in. -/
theorem decodeStage_result {call : Call} (h : call.PlainTokens) :
    ∃ c, call.result.nextCursor = some c ∧ decodeStage (some c) = call.stage := by
  cases call with
  | rpc opts page =>
      exact ⟨_, rfl, decodeStage_rpc _ (nextResumeTokenFromPage_untagged fun c hc => (h c hc).1)⟩
  | bootnode opts answer =>
      cases answer with
      | page page => exact ⟨_, rfl, decodeStage_bootnode h⟩
      | handoff fromLedger => exact ⟨_, rfl, decodeStage_handoff fromLedger⟩

/-! ## Sequential runs -/

/-- The network's time passes, or a program runs alone: to its end, or up to
a failure after some of its accesses. -/
inductive SppStep where
  | tick
  | poll (accesses : Nat)
  | init (lastBackfilledLedger : Nat) (accesses : Nat)

/-- What happened in a run: calls, and committed writes. -/
inductive Entry where
  | asked (call : Call)
  | committed (call : Call)
  | initialized (lastBackfilledLedger : Nat)

variable {V : Type}

section Runs

variable (sdk : StellarSdk V) (network : Network) (config : SourceConfig)
  (streamKey : String) (ctTokenId : Option String)

def pollSpp : Async (World Net) StreamFetchResult :=
  pollStream sdk (makeBootnodeThenRpcSource network config) streamKey ctTokenId

def SppStep.exec (w : World Net) : SppStep → World Net
  | .tick => { w with net.time := w.net.time + 1 }
  | .poll accesses =>
      (Async.advance accesses (pollSpp sdk network config streamKey ctTokenId) w).1
  | .init lastBackfilledLedger accesses =>
      (Async.advance accesses (initSppCursor streamKey lastBackfilledLedger) w).1

/-- The calls of a step, then what it committed. -/
def SppStep.emit (w : World Net) : SppStep → List Entry
  | .tick => []
  | .poll accesses =>
      let (w', p) := Async.advance accesses (pollSpp sdk network config streamKey ctTokenId) w
      let calls := w'.net.calls.drop w.net.calls.length
      calls.map .asked ++ match p with
        | .done _ => calls.map .committed
        | .await _ _ => []
  | .init lastBackfilledLedger accesses =>
      match (Async.advance accesses (initSppCursor streamKey lastBackfilledLedger) w).2 with
      | .done result => if result.initialized then [.initialized lastBackfilledLedger] else []
      | .await _ _ => []

def sppWorld (steps : List SppStep) : World Net :=
  Run.run (SppStep.exec sdk network config streamKey ctTokenId) ⟨.empty, ⟨0, []⟩⟩ steps

def sppHistory (steps : List SppStep) : List Entry :=
  Run.history (SppStep.exec sdk network config streamKey ctTokenId)
    (SppStep.emit sdk network config streamKey ctTokenId) ⟨.empty, ⟨0, []⟩⟩ steps

end Runs

/-- The stage that an entry leaves, if it wrote. -/
def Entry.stage : Entry → Option Stage
  | .asked _ => none
  | .committed call => some call.stage
  | .initialized lastBackfilledLedger =>
      some (.rpc (.ledger (some (lastBackfilledLedger + 1))))

/-- The stage that the last committed step left. -/
def stageAfter (h : List Entry) : Stage := ((h.filterMap Entry.stage).getLast?).getD .fresh

@[simp] theorem stageAfter_snoc (h : List Entry) (x : Entry) :
    stageAfter (h ++ [x]) = x.stage.getD (stageAfter h) := by
  unfold stageAfter
  rw [List.filterMap_append]
  cases hx : x.stage <;> simp [hx]

/-! ## One step -/

section Steps

variable {sdk : StellarSdk V} {network : Network} {config : SourceConfig}
  {streamKey : String} {ctTokenId : Option String}

/-- A poll: it reads the cursor, makes the call of its stage, and commits
what it makes of the answer. -/
theorem pollSpp_eq : pollSpp sdk network config streamKey ctTokenId =
    .await id fun w =>
      .await (fun w' => { w' with net.calls := w'.net.calls ++
          [(decodeStage (w.db.getCursor streamKey)).call network config w'.net.time] })
        fun w' =>
          let page := ((decodeStage (w.db.getCursor streamKey)).call network config
            w'.net.time).result
          .await (fun w'' => { w'' with db := commitPage sdk streamKey ctTokenId page w''.db })
            fun _ => .done page := by
  unfold pollSpp pollStream
  simp only [makeBootnodeThenRpcSource_eq]
  rfl

/-- What a poll does, however far it gets. -/
theorem poll_cases (accesses : Nat) (w : World Net) :
    let call := (decodeStage (w.db.getCursor streamKey)).call network config w.net.time
    let w' := (SppStep.poll accesses).exec sdk network config streamKey ctTokenId w
    let entries := (SppStep.poll accesses).emit sdk network config streamKey ctTokenId w
    (w'.db = w.db ∧ entries = []) ∨
      (w'.db = w.db ∧ entries = [.asked call]) ∨
      (w'.db = commitPage sdk streamKey ctTokenId call.result w.db ∧
        entries = [.asked call, .committed call]) := by
  unfold SppStep.exec SppStep.emit
  simp only [pollSpp_eq]
  match accesses with
  | 0 => exact Or.inl ⟨rfl, by simp [Async.advance]⟩
  | 1 => exact Or.inl ⟨rfl, by simp [Async.advance, Async.resume]⟩
  | 2 => exact Or.inr (Or.inl ⟨rfl, by simp [Async.advance, Async.resume]⟩)
  | n + 3 => exact Or.inr (Or.inr ⟨by simp, by simp⟩)

/-- What the loader does, however far it gets. -/
theorem init_cases (lastBackfilledLedger accesses : Nat) (w : World Net) :
    let rpcMode := (w.db.getCursor streamKey).any isRpcModeCursor
    let w' := (SppStep.init lastBackfilledLedger accesses).exec sdk network config streamKey
      ctTokenId w
    let entries := (SppStep.init lastBackfilledLedger accesses).emit sdk network config
      streamKey ctTokenId w
    ((rpcMode = true ∨ accesses < 2) ∧ w'.db = w.db ∧ entries = []) ∨
      (rpcMode = false ∧
        w'.db = w.db.setCursor streamKey
          (encodeRpcModeLedgerCursor (lastBackfilledLedger + 1)) ∧
        entries = [.initialized lastBackfilledLedger]) := by
  unfold SppStep.exec SppStep.emit initSppCursor
  match accesses with
  | 0 => exact Or.inl ⟨Or.inr (by omega), rfl, rfl⟩
  | 1 =>
      refine Or.inl ⟨Or.inr (by omega), ?_⟩
      by_cases h : (w.db.getCursor streamKey).any isRpcModeCursor = true
      · simp [Async.advance, Async.resume, Async.read, Bind.bind, Async.bind, h, Pure.pure]
      · simp [Async.advance, Async.resume, Async.read, Bind.bind, Async.bind, h, Async.update]
  | n + 2 =>
      by_cases h : (w.db.getCursor streamKey).any isRpcModeCursor = true
      · refine Or.inl ⟨Or.inl h, ?_⟩
        simp [Async.read, Bind.bind, Async.bind, h, Pure.pure]
      · refine Or.inr ⟨Bool.eq_false_iff.mpr h, ?_⟩
        simp [Async.read, Bind.bind, Async.bind, h, Async.update, Pure.pure]

end Steps

/-! ## What every entry obeys -/

def Stage.IsRpc : Stage → Prop
  | .rpc _ => True
  | _ => False

/-- The stream has left the bootnode. -/
def Stage.LeftBootnode : Stage → Prop
  | .handoff _ => True
  | .rpc _ => True
  | _ => False

theorem isRpc_decodeStage (cursor : Option String) :
    (decodeStage cursor).IsRpc ↔ cursor.any isRpcModeCursor = true := by
  cases cursor with
  | none => simp [decodeStage, Stage.IsRpc]
  | some cursor =>
      unfold decodeStage
      by_cases h : startsWith cursor rpcTag = true
      · simp [h, Stage.IsRpc, isRpcModeCursor]
      · by_cases h' : startsWith cursor handoffTag = true
        · simp [h, h', Stage.IsRpc, isRpcModeCursor]
        · simp [h, h', Stage.IsRpc, isRpcModeCursor]

/-- A call is the one of the stage before it, a commit follows its own call,
and the loader writes only outside of RPC mode. -/
def Lawful (network : Network) (config : SourceConfig) (before : List Entry) : Entry → Prop
  | .asked call => ∃ time, call = (stageAfter before).call network config time
  | .committed call => ∃ earlier, before = earlier ++ [.asked call]
  | .initialized _ => ¬(stageAfter before).IsRpc

variable {sdk : StellarSdk V} {network : Network} {config : SourceConfig}
  {streamKey : String} {ctTokenId : Option String}

theorem commit_getCursor {call : Call} (h : call.PlainTokens) (db : Db) :
    decodeStage ((commitPage sdk streamKey ctTokenId call.result db).getCursor streamKey)
      = call.stage := by
  obtain ⟨c, hc, hstage⟩ := decodeStage_result h
  rw [Db.getCursor, commitPage_cursors, hc]
  simp [hstage]

/-- The stored cursor stands for the stage of the last committed step, and
every entry of the history is lawful: it starts from the stage that was stored
then. By induction on the steps; what a poll writes reads back as the stage
that it came to, as tokens carry no prefix of the stream's own. -/
theorem spp_invariant
    (hplain : ∀ time stage, (Stage.call network config time stage).PlainTokens)
    (steps : List SppStep) :
    decodeStage ((sppWorld sdk network config streamKey ctTokenId steps).db.getCursor streamKey)
        = stageAfter (sppHistory sdk network config streamKey ctTokenId steps) ∧
      Run.Along (Lawful network config)
        (sppHistory sdk network config streamKey ctTokenId steps) := by
  refine @Run.prefix_invariant _ _ _ _ _
    (fun (w : World Net) h => decodeStage (w.db.getCursor streamKey) = stageAfter h ∧
      Run.Along (Lawful network config) h)
    _ _ ⟨rfl, Run.along_nil⟩ ?_
  intro l step _ hinv
  generalize Run.run (SppStep.exec sdk network config streamKey ctTokenId)
    ⟨.empty, ⟨0, []⟩⟩ l = w at hinv ⊢
  generalize Run.history _ _ _ l = h at hinv ⊢
  obtain ⟨hstage, halong⟩ := hinv
  cases step with
  | tick => simpa [SppStep.exec, SppStep.emit] using ⟨hstage, halong⟩
  | poll accesses =>
      have hcall := hplain w.net.time (decodeStage (w.db.getCursor streamKey))
      have hasked : Lawful network config h
          (.asked ((decodeStage (w.db.getCursor streamKey)).call network config w.net.time)) :=
        ⟨w.net.time, by rw [hstage]⟩
      rcases @poll_cases V sdk network config streamKey ctTokenId accesses w with
        ⟨hdb, hentries⟩ | ⟨hdb, hentries⟩ | ⟨hdb, hentries⟩
      · rw [hentries, hdb, List.append_nil]
        exact ⟨hstage, halong⟩
      · rw [hentries, hdb]
        exact ⟨by simpa [Entry.stage] using hstage, Run.along_snoc halong hasked⟩
      · rw [hentries, hdb, commit_getCursor hcall,
          show ∀ x y : Entry, h ++ [x, y] = (h ++ [x]) ++ [y] by simp]
        refine ⟨?_, Run.along_snoc (Run.along_snoc halong hasked) ⟨h, rfl⟩⟩
        rw [stageAfter_snoc]
        rfl
  | init lastBackfilledLedger accesses =>
      rcases @init_cases V sdk network config streamKey ctTokenId
        lastBackfilledLedger accesses w with
        ⟨-, hdb, hentries⟩ | ⟨hmode, hdb, hentries⟩
      · rw [hentries, hdb, List.append_nil]
        exact ⟨hstage, halong⟩
      · rw [hentries, hdb]
        refine ⟨?_, Run.along_snoc halong ?_⟩
        · rw [Db.getCursor_setCursor, encodeRpcModeLedgerCursor,
            decodeStage_rpc (.ledger (some _)) rfl, stageAfter_snoc]
          rfl
        · rw [Lawful, ← hstage, isRpc_decodeStage, hmode]
          exact Bool.false_ne_true

/-! ## The laws -/

section Laws

variable {h before after between : List Entry}

/-- A stream that has left the bootnode does not return to it. -/
theorem leftBootnode_of_prefix (hlaw : Run.Along (Lawful network config) h)
    (hpre : before <+: h) (hleft : (stageAfter before).LeftBootnode) :
    (stageAfter h).LeftBootnode := by
  induction h using List.reverseRecOn with
  | nil =>
      rw [List.prefix_nil.mp hpre] at hleft
      exact hleft
  | append_singleton t x ih =>
      rcases List.prefix_concat_iff.mp hpre with heq | hpre
      · exact heq ▸ hleft
      · have ih := ih (hlaw.of_prefix (List.prefix_append t [x])) hpre
        have hx : Lawful network config t x := hlaw t x (List.prefix_refl _)
        rw [stageAfter_snoc]
        cases x with
        | asked call => exact ih
        | initialized lastBackfilledLedger => exact True.intro
        | committed call =>
            -- its own call was made after leaving
            obtain ⟨earlier, rfl⟩ := hx
            obtain ⟨time, hcall⟩ : Lawful network config earlier (.asked call) :=
              hlaw earlier _ ⟨[.committed call], rfl⟩
            rw [stageAfter_snoc] at ih
            change (stageAfter earlier).LeftBootnode at ih
            generalize stageAfter earlier = stage at hcall ih
            cases stage with
            | fresh => cases ih
            | bootnode token => cases ih
            | handoff fromLedger =>
                subst hcall
                exact True.intro
            | rpc token =>
                subst hcall
                exact True.intro

/-- Nor does it call it. -/
theorem rpc_of_leftBootnode (hlaw : Run.Along (Lawful network config) h)
    {call : Call} (hpre : before <+: between) (hleft : (stageAfter before).LeftBootnode)
    (hh : between ++ [.asked call] <+: h) :
    ∃ opts answer, call = .rpc opts answer := by
  obtain ⟨time, hcall⟩ : Lawful network config between (.asked call) := hlaw _ _ hh
  have hleft : (stageAfter between).LeftBootnode :=
    leftBootnode_of_prefix (hlaw.of_prefix ((List.prefix_append _ _).trans hh)) hpre hleft
  generalize stageAfter between = stage at hcall hleft
  cases stage with
  | fresh => cases hleft
  | bootnode token => cases hleft
  | handoff fromLedger => exact ⟨_, _, hcall⟩
  | rpc token => exact ⟨_, _, hcall⟩

/-- After leaving, a poll that commits has called the RPC. -/
theorem committed_notMem {x : Entry} (hlaw : Run.Along (Lawful network config)
      (before ++ x :: between)) (hx : ∀ call, x ≠ .asked call)
    (hleft : (stageAfter (before ++ [x])).LeftBootnode)
    (hrpc : ∀ o a, Entry.asked (.rpc o a) ∉ between) (call : Call) :
    Entry.committed call ∉ between := by
  intro hmem
  obtain ⟨l, r, rfl⟩ := List.append_of_mem hmem
  have hsplit : before ++ x :: (l ++ .committed call :: r)
      = (before ++ x :: l) ++ .committed call :: r := by simp
  rw [hsplit] at hlaw
  obtain ⟨earlier, hearlier⟩ : Lawful network config _ (.committed call) := hlaw.at
  -- the call just before the commit comes after `x`
  rcases List.eq_nil_or_concat l with rfl | ⟨t, y, rfl⟩
  · obtain ⟨-, hlast⟩ := List.append_inj' hearlier rfl
    exact hx call (List.singleton_inj.mp hlast)
  · rw [List.concat_eq_append, ← List.cons_append, ← List.append_assoc] at hearlier
    obtain ⟨hearlier, hlast⟩ := List.append_inj' hearlier rfl
    obtain rfl : y = .asked call := List.singleton_inj.mp hlast
    obtain ⟨o, a, rfl⟩ := @rpc_of_leftBootnode _ _ _ (before ++ [x]) (before ++ x :: t) hlaw call
      ⟨t, by simp⟩ hleft ⟨.committed call :: r, by simp⟩
    exact hrpc o a (by simp)

/-- What an entry wrote stands while nothing is written. -/
theorem stageAfter_stands {x : Entry} {stage : Stage} (hx : x.stage = some stage)
    (hnone : ∀ y ∈ between, y.stage = none) :
    stageAfter (before ++ x :: between) = stage := by
  have hnil : between.filterMap Entry.stage = [] := List.filterMap_eq_nil_iff.mpr hnone
  unfold stageAfter
  rw [List.filterMap_append, List.filterMap_cons_some hx, hnil, List.getLast?_append]
  rfl

/-- Until the loader or an RPC poll writes, a handoff stands. -/
theorem stageAfter_handoff {opts : FetchBootnodeEventsOptions} {fromLedger : Nat}
    (hlaw : Run.Along (Lawful network config)
      (before ++ .committed (.bootnode opts (.handoff fromLedger)) :: between))
    (hrpc : ∀ o a, Entry.asked (.rpc o a) ∉ between)
    (hinit : ∀ n, Entry.initialized n ∉ between) :
    stageAfter (before ++ .committed (.bootnode opts (.handoff fromLedger)) :: between)
      = .handoff (some fromLedger) := by
  have hcommit := committed_notMem hlaw (fun call h => nomatch h)
    (by rw [stageAfter_snoc]; exact True.intro) hrpc
  refine stageAfter_stands rfl fun y hy => ?_
  cases y with
  | asked call => rfl
  | committed call => exact absurd hy (hcommit call)
  | initialized n => exact absurd hy (hinit n)

/-- Until another poll commits, an RPC-mode cursor stands: the loader keeps
it. -/
theorem stageAfter_rpc {x : Entry} {token : ResumeToken} (hx : x.stage = some (.rpc token))
    (hlaw : Run.Along (Lawful network config) (before ++ x :: between))
    (hcommit : ∀ call, Entry.committed call ∉ between) :
    stageAfter (before ++ x :: between) = .rpc token := by
  induction between using List.reverseRecOn with
  | nil => exact stageAfter_stands hx (by simp)
  | append_singleton t y ih =>
      have hsnoc : before ++ x :: (t ++ [y]) = (before ++ x :: t) ++ [y] := by simp
      have ih := ih (hlaw.of_prefix (by rw [hsnoc]; exact List.prefix_append ..))
        (fun call hmem => hcommit call (List.mem_append_left _ hmem))
      rw [hsnoc, stageAfter_snoc, ih]
      cases y with
      | asked call => rfl
      | committed call =>
          exact absurd (List.mem_append_right t (List.mem_singleton_self _)) (hcommit call)
      | initialized n =>
          have hy : Lawful network config (before ++ x :: t) (.initialized n) :=
            hlaw _ _ (hsnoc ▸ List.prefix_refl _)
          rw [Lawful, ih] at hy
          exact absurd True.intro hy

end Laws

/-- Once a handoff or an RPC-mode cursor is committed, every call is to the
RPC. -/
def NeverReturns (h : List Entry) : Prop :=
  ∀ before x stage after, h = before ++ x :: after → Entry.stage x = some stage →
    stage.LeftBootnode → ∀ call, .asked call ∈ after → ∃ opts answer, call = .rpc opts answer

/-- The first call to the RPC after a handoff asks for the handoff's ledger,
unless the loader wrote in between. -/
def AsksFromHandoff (h : List Entry) : Prop :=
  ∀ before opts fromLedger between o a after,
    h = before ++ .committed (.bootnode opts (.handoff fromLedger)) :: between
      ++ .asked (.rpc o a) :: after →
    (∀ o a, .asked (.rpc o a) ∉ between) → (∀ n, .initialized n ∉ between) →
      o.start = .startLedger (some fromLedger)

/-- The first call to the RPC after the loader wrote asks from behind the
backfill. -/
def AsksFromBackfill (h : List Entry) : Prop :=
  ∀ before lastBackfilledLedger between o a after,
    h = before ++ .initialized lastBackfilledLedger :: between ++ .asked (.rpc o a) :: after →
    (∀ o a, .asked (.rpc o a) ∉ between) →
      o.start = .startLedger (some (lastBackfilledLedger + 1))

/-- A call to the RPC after a committed RPC page continues from that page. -/
def ContinuesPage (h : List Entry) : Prop :=
  ∀ before opts page between o a after,
    h = before ++ .committed (.rpc opts page) :: between ++ .asked (.rpc o a) :: after →
    (∀ call, .committed call ∉ between) →
      o.start = match page.cursor with
        | some token => .cursor token
        | none => .startLedger (some (page.latestLedger + 1))

theorem neverReturns {h : List Entry} (hlaw : Run.Along (Lawful network config) h) :
    NeverReturns h := by
  intro before x stage after hh hx hleft call hcall
  obtain ⟨l, r, rfl⟩ := List.append_of_mem hcall
  refine @rpc_of_leftBootnode _ _ _ (before ++ [x]) (before ++ x :: l) hlaw call
    ⟨l, by simp⟩ ?_ ⟨r, by simp [hh]⟩
  rw [stageAfter_snoc, hx]
  exact hleft

theorem asksFromHandoff {h : List Entry} (hlaw : Run.Along (Lawful network config) h) :
    AsksFromHandoff h := by
  intro before opts fromLedger between o a after hh hrpc hinit
  subst hh
  obtain ⟨time, hcall⟩ : Lawful network config _ (.asked (.rpc o a)) := hlaw.at
  rw [stageAfter_handoff (hlaw.of_prefix (List.prefix_append ..)) hrpc hinit] at hcall
  cases hcall
  rfl

theorem asksFromBackfill {h : List Entry} (hlaw : Run.Along (Lawful network config) h) :
    AsksFromBackfill h := by
  intro before lastBackfilledLedger between o a after hh hrpc
  subst hh
  obtain ⟨time, hcall⟩ : Lawful network config _ (.asked (.rpc o a)) := hlaw.at
  have hlaw := hlaw.of_prefix (List.prefix_append ..)
  have hcommit := committed_notMem hlaw (fun call h => nomatch h)
    (by rw [stageAfter_snoc]; exact True.intro) hrpc
  rw [stageAfter_rpc rfl hlaw hcommit] at hcall
  cases hcall
  rfl

theorem continuesPage {h : List Entry} (hlaw : Run.Along (Lawful network config) h) :
    ContinuesPage h := by
  intro before opts page between o a after hh hcommit
  subst hh
  obtain ⟨time, hcall⟩ : Lawful network config _ (.asked (.rpc o a)) := hlaw.at
  rw [stageAfter_rpc rfl (hlaw.of_prefix (List.prefix_append ..)) hcommit] at hcall
  cases hcall
  unfold rpcOpts nextResumeTokenFromPage
  cases page.cursor <;> rfl

/-- No token of the network begins with a tag. -/
structure Network.PlainTokens (network : Network) : Prop where
  rpc : ∀ time opts c, (network.fetchRpcEvents time opts).cursor = some c → Plain c
  bootnode : ∀ time opts page, network.fetchBootnodeEvents time opts = .page page →
    ∀ c, page.cursor = some c → Plain c

theorem Network.PlainTokens.call (h : network.PlainTokens) (time : Nat) (stage : Stage) :
    (Stage.call network config time stage).PlainTokens := by
  have hbootnode : ∀ opts, (Call.bootnode opts
      (network.fetchBootnodeEvents time opts)).PlainTokens := by
    intro opts
    cases hanswer : network.fetchBootnodeEvents time opts with
    | handoff fromLedger => exact True.intro
    | page page => exact h.bootnode time opts page hanswer
  cases stage with
  | fresh => exact hbootnode _
  | bootnode token => exact hbootnode _
  | handoff fromLedger => exact h.rpc time _
  | rpc token => exact h.rpc time _

/-- In every sequential run: the stored text reads back as what the last
committed step produced, the bootnode is left for good, RPC calls continue
from the handoff or from the page before, and the loader keeps an RPC-mode
cursor and otherwise puts the stream into RPC mode behind the backfill.

The history of the accesses obeys one law (`spp_invariant`): each starts from
the stage that the one before it left. The parts are what that law means for the
bootnode, the handoff, the backfill and the pages; of the loader there are the
two cases of `init_cases`. -/
theorem spp_cursor_one_way (sdk : StellarSdk V) (network : Network) (config : SourceConfig)
    (streamKey : String) (ctTokenId : Option String) (hplain : network.PlainTokens)
    (steps : List SppStep) :
    let w := sppWorld sdk network config streamKey ctTokenId steps
    let h := sppHistory sdk network config streamKey ctTokenId steps
    decodeStage (w.db.getCursor streamKey) = stageAfter h ∧
    NeverReturns h ∧ AsksFromHandoff h ∧ AsksFromBackfill h ∧ ContinuesPage h ∧
    ∀ lastBackfilledLedger accesses,
      let w' := sppWorld sdk network config streamKey ctTokenId
        (steps ++ [.init lastBackfilledLedger accesses])
      ((w.db.getCursor streamKey).any isRpcModeCursor = true → w'.db = w.db) ∧
      ((w.db.getCursor streamKey).any isRpcModeCursor = false → 2 ≤ accesses →
        decodeStage (w'.db.getCursor streamKey)
          = .rpc (.ledger (some (lastBackfilledLedger + 1)))) := by
  intro w h
  obtain ⟨hstage, hlaw⟩ := @spp_invariant V sdk network config streamKey ctTokenId
    (fun time stage => hplain.call time stage) steps
  refine ⟨hstage, neverReturns hlaw, asksFromHandoff hlaw, asksFromBackfill hlaw,
    continuesPage hlaw, ?_⟩
  intro lastBackfilledLedger accesses w'
  have hw' : w' = (SppStep.init lastBackfilledLedger accesses).exec sdk network config
      streamKey ctTokenId w := Run.run_snoc ..
  rcases @init_cases V sdk network config streamKey ctTokenId
        lastBackfilledLedger accesses w with
    ⟨hno, hdb, -⟩ | ⟨hmode, hdb, -⟩
  · rw [hw', hdb]
    refine ⟨fun _ => rfl, fun hmode haccesses => ?_⟩
    rcases hno with hrpc | hlt
    · rw [hrpc] at hmode
      cases hmode
    · omega
  · rw [hw', hdb]
    refine ⟨fun hrpc => ?_, fun _ _ => ?_⟩
    · rw [hrpc] at hmode
      cases hmode
    · rw [Db.getCursor_setCursor, encodeRpcModeLedgerCursor]
      exact decodeStage_rpc (.ledger (some (lastBackfilledLedger + 1))) rfl

/-! ## A handoff, and the loader after it -/

/-- The bootnode hands off at ledger 3898970; the RPC has no further
events. -/
def handoffNetwork : Network where
  fetchRpcEvents _ _ := ⟨[], 3900644, none, 0⟩
  fetchBootnodeEvents _ _ := .handoff 3898970

theorem handoffNetwork_plainTokens : handoffNetwork.PlainTokens where
  rpc := fun _ _ c hc => by cases hc
  bootnode := fun _ _ page hpage => by cases hpage

/-- After a handoff and two failed polls. -/
theorem spp_cursor_one_way_handoff :
    decodeStage ((sppWorld mergeSdk handoffNetwork ⟨[mergeToken], 3773948, none⟩ "spp" none
        [.poll 3, .poll 1, .poll 2]).db.getCursor "spp") = .handoff (some 3898970) ∧
      AsksFromHandoff (sppHistory mergeSdk handoffNetwork ⟨[mergeToken], 3773948, none⟩ "spp"
        none [.poll 3, .poll 1, .poll 2]) := by
  obtain ⟨hstage, -, hasks, -⟩ := spp_cursor_one_way mergeSdk handoffNetwork
    ⟨[mergeToken], 3773948, none⟩ "spp" none handoffNetwork_plainTokens
    [.poll 3, .poll 1, .poll 2]
  exact ⟨hstage.trans rfl, hasks⟩

/-- The loader, run between the handoff and the first poll after it, replaces
the handoff's ledger: the first call to the RPC asks from behind the
backfill. -/
theorem init_replaces_handoff : ¬∀ before opts fromLedger between o a after,
    sppHistory mergeSdk handoffNetwork ⟨[mergeToken], 3773948, none⟩ "spp" none
      [.poll 3, .init 3773990 2, .poll 3]
      = before ++ .committed (.bootnode opts (.handoff fromLedger)) :: between
        ++ .asked (.rpc o a) :: after →
    (∀ o a, .asked (.rpc o a) ∉ between) → o.start = .startLedger (some fromLedger) := by
  intro hclaim
  have hstart := hclaim
    [.asked (.bootnode (bootnodeOpts ⟨[mergeToken], 3773948, none⟩ none) (.handoff 3898970))]
    (bootnodeOpts ⟨[mergeToken], 3773948, none⟩ none) 3898970 [.initialized 3773990]
    (rpcOpts ⟨[mergeToken], 3773948, none⟩ (some (.ledger (some 3773991))))
    ⟨[], 3900644, none, 0⟩
    [.committed (.rpc (rpcOpts ⟨[mergeToken], 3773948, none⟩ (some (.ledger (some 3773991))))
      ⟨[], 3900644, none, 0⟩)]
    rfl (fun o a hmem => by simp at hmem)
  cases hstart

end Indexer

end PrivacyWallet
