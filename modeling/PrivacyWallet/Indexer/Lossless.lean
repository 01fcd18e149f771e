import PrivacyWallet.Indexer.Sources

/-!
# Indexing from the RPC loses nothing

`RpcAnswers` is what is known of an RPC's answers: events from where the
request starts, in the chain's order and possibly none, and a cursor that
lies behind them and behind nothing else. `ResumeToken.Covers` says which
events lie before the place a token encodes.

One worker polls the stream. Its fetches and its transactions may fail and
it may be restarted at any time. In every state the table holds exactly the
events that the stored cursor covers (`rpc_indexing_lossless`).

The invariant is `Lossless`: table and cursor are those of the pages that were
committed, the table holds no event twice, none that the cursor does not cover,
and each that it covers from the first ledger on. A page that was fetched
`Continues` the table if its token covers what is there and what it brings, and
nothing else. What one answer's token covers follows from `RpcAnswers`
(`covers_served`, `covers_earlier`, `mem_of_covers`); a transaction then keeps
the invariant (`Lossless.commit`), and the run is an induction on its steps
(`lossless_run`). A failed fetch or transaction changes no state.

Below the first ledger nothing is stored if that ledger was at most the next
one when indexing began. Otherwise a first answer without cursor makes the
worker go on behind the last closed ledger (`indexed_below_start`).
-/

namespace PrivacyWallet

namespace Indexer

open Text

/-- The places of the chain, in its order. -/
abbrev Position : Type := Nat ×ₗ Nat ×ₗ Nat ×ₗ Nat

def RawEvent.position (e : RawEvent) : Position := (toNewEventRow e).position

/-- The events of the stream's contracts. -/
def matchingEvents (contractIds : List String) (chain : List RawEvent) : List RawEvent :=
  chain.filter fun e => decide (e.contractId ∈ contractIds)

/-- The event is one that a request with this start asks for. -/
def FetchStart.AsksFor (tokenPos : String → Position) : FetchStart → RawEvent → Prop
  | .startLedger (some ledger), e => ledger ≤ e.ledger
  | .startLedger none, _ => False
  | .cursor token, e => tokenPos token < e.position

instance (tokenPos : String → Position) (start : FetchStart) (e : RawEvent) :
    Decidable (start.AsksFor tokenPos e) := by
  cases start with
  | cursor token => exact inferInstanceAs (Decidable (tokenPos token < e.position))
  | startLedger ledger =>
      cases ledger with
      | none => exact inferInstanceAs (Decidable False)
      | some ledger => exact inferInstanceAs (Decidable (ledger ≤ e.ledger))

/-- The event lies before the place that the token encodes. -/
def ResumeToken.Covers (tokenPos : String → Position) : ResumeToken → RawEvent → Prop
  | .ledger (some n), e => e.ledger < n
  | .ledger none, _ => False
  | .cursor token, e => e.position ≤ tokenPos token

/-- The answers of an RPC whose last closed ledger is `tip`. -/
structure RpcAnswers (chain : List RawEvent) (tokenPos : String → Position) (tip : Nat)
    (answer : FetchRpcEventsOptions → EventsPage) : Prop where
  latestLedger : ∀ opts, (answer opts).latestLedger = tip
  served : ∀ opts, (answer opts).events <+:
    (matchingEvents opts.contractIds chain).filter fun e =>
      decide (e.ledger ≤ tip) && decide (opts.start.AsksFor tokenPos e)
  cursor : ∀ opts c, (answer opts).cursor = some c → startsWith c ledgerTag = false ∧
    ∀ e ∈ matchingEvents opts.contractIds chain,
      e.position ≤ tokenPos c ↔ ¬opts.start.AsksFor tokenPos e ∨ e ∈ (answer opts).events
  exhausted : ∀ opts, (answer opts).cursor = none →
    ∀ e ∈ matchingEvents opts.contractIds chain, e.ledger ≤ tip →
      opts.start.AsksFor tokenPos e → e ∈ (answer opts).events

/-! ## One answer -/

section Answer

variable {chain : List RawEvent} {tokenPos : String → Position} {tip : Nat}
  {answer : FetchRpcEventsOptions → EventsPage}

theorem RpcAnswers.of_mem (h : RpcAnswers chain tokenPos tip answer)
    {opts : FetchRpcEventsOptions} {e : RawEvent} (he : e ∈ (answer opts).events) :
    e ∈ matchingEvents opts.contractIds chain ∧ e.ledger ≤ tip ∧
      opts.start.AsksFor tokenPos e := by
  have hmem := (h.served opts).subset he
  rw [List.mem_filter, Bool.and_eq_true, decide_eq_true_eq, decide_eq_true_eq] at hmem
  exact hmem

theorem RpcAnswers.next_untagged (h : RpcAnswers chain tokenPos tip answer)
    (opts : FetchRpcEventsOptions) : (nextResumeTokenFromPage (answer opts)).Untagged :=
  nextResumeTokenFromPage_untagged fun c hc => (h.cursor opts c hc).1

/-- The next token covers what was served. -/
theorem RpcAnswers.covers_served (h : RpcAnswers chain tokenPos tip answer)
    {opts : FetchRpcEventsOptions} {e : RawEvent} (he : e ∈ (answer opts).events) :
    (nextResumeTokenFromPage (answer opts)).Covers tokenPos e := by
  obtain ⟨hmatch, htip, -⟩ := h.of_mem he
  unfold nextResumeTokenFromPage
  split
  · rename_i c hc
    exact ((h.cursor opts c hc).2 e hmatch).mpr (Or.inr he)
  · rw [h.latestLedger opts]
    exact Nat.lt_succ_of_le htip

/-- The next token covers what the request left out, as far as it is on the
chain. -/
theorem RpcAnswers.covers_earlier (h : RpcAnswers chain tokenPos tip answer)
    {opts : FetchRpcEventsOptions} {e : RawEvent}
    (he : e ∈ matchingEvents opts.contractIds chain)
    (hearlier : ¬opts.start.AsksFor tokenPos e) (htip : e.ledger ≤ tip) :
    (nextResumeTokenFromPage (answer opts)).Covers tokenPos e := by
  unfold nextResumeTokenFromPage
  split
  · rename_i c hc
    exact ((h.cursor opts c hc).2 e he).mpr (Or.inl hearlier)
  · rw [h.latestLedger opts]
    exact Nat.lt_succ_of_le htip

/-- The next token covers nothing else. -/
theorem RpcAnswers.mem_of_covers (h : RpcAnswers chain tokenPos tip answer)
    {opts : FetchRpcEventsOptions} {e : RawEvent}
    (he : e ∈ matchingEvents opts.contractIds chain)
    (hasks : opts.start.AsksFor tokenPos e)
    (hcovers : (nextResumeTokenFromPage (answer opts)).Covers tokenPos e) :
    e ∈ (answer opts).events := by
  unfold nextResumeTokenFromPage at hcovers
  split at hcovers
  · rename_i c hc
    rcases ((h.cursor opts c hc).2 e he).mp hcovers with hnot | hmem
    · exact absurd hasks hnot
    · exact hmem
  · rename_i hc
    rw [h.latestLedger opts] at hcovers
    exact h.exhausted opts hc e he (Nat.le_of_lt_succ hcovers) hasks

/-- A request from a token asks for what the token does not cover. -/
theorem asksFor_token {token : ResumeToken} (h : token.Untagged) (startLedger : Nat)
    (e : RawEvent) :
    (resumeTokenToFetchOpts (some token) startLedger).AsksFor tokenPos e ↔
      ¬token.Covers tokenPos e := by
  cases token with
  | cursor value => exact not_le.symm
  | ledger value =>
      cases value with
      | none => cases h
      | some ledger => exact not_lt.symm

end Answer

/-! ## The worker -/

/-- The network's time passes, or the worker begins a poll, goes on with it,
or gives it up. -/
inductive WorkerStep where
  | tick
  | start
  | resume
  | abort

variable {V : Type}

section Runs

variable (sdk : StellarSdk V) (network : Network) (config : SourceConfig)
  (streamKey : String) (ctTokenId : Option String)

def pollRpc : Async (World Net) StreamFetchResult :=
  pollStream sdk (makeRpcSource network config) streamKey ctTokenId

def WorkerStep.act : WorkerStep → Act (World Net) Unit StreamFetchResult
  | .tick => .env fun w => { w with net.time := w.net.time + 1 }
  | .start => .start () (pollRpc sdk network config streamKey ctTokenId)
  | .resume => .resume ()
  | .abort => .abort ()

/-- Before the first poll. -/
def World.unpolled : World Net where
  db := .empty
  net := ⟨0, []⟩

/-- The database after the steps. -/
def workerDb (steps : List WorkerStep) : Db :=
  (Run.run Sys.exec ⟨World.unpolled, fun _ => none⟩
    (steps.map (WorkerStep.act sdk network config streamKey ctTokenId))).state.db

/-- The pages that the steps commit, in order. -/
def workerPages (steps : List WorkerStep) : List StreamFetchResult :=
  Run.history Sys.exec Sys.returned ⟨World.unpolled, fun _ => none⟩
    (steps.map (WorkerStep.act sdk network config streamKey ctTokenId))

end Runs

/-- The event lies before the place that the stored cursor encodes. -/
def Covered (tokenPos : String → Position) (cursor : Option String) (e : RawEvent) : Prop :=
  ∃ c, cursor = some c ∧ (decodeResumeToken c).Covers tokenPos e

/-! ## The invariant -/

section Invariant

variable (sdk : StellarSdk V) (network : Network) (config : SourceConfig)
  (streamKey : String) (ctTokenId : Option String) (chain : List RawEvent)
  (tokenPos : String → Position) (tip : Nat → Nat)

/-- The table holds what the cursor covers, and the database is what the
committed pages made of it. -/
structure Lossless (w : World Net) (pages : List StreamFetchResult) : Prop where
  committed : w.db =
    pages.foldl (fun db page => commitPage sdk streamKey ctTokenId page db) .empty
  readable : ∀ c, w.db.cursors streamKey = some c → (decodeResumeToken c).Untagged
  sound : ∀ r ∈ w.db.events, ∃ e ∈ matchingEvents config.contractIds chain,
    toNewEventRow e = r ∧ e.ledger ≤ tip w.net.time ∧
      Covered tokenPos (w.db.cursors streamKey) e
  complete : ∀ e ∈ matchingEvents config.contractIds chain, config.startLedger ≤ e.ledger →
    Covered tokenPos (w.db.cursors streamKey) e → toNewEventRow e ∈ w.db.events
  nodup : w.db.events.Nodup
  fromStart : config.startLedger ≤ tip 0 + 1 →
    (∀ r ∈ w.db.events, config.startLedger ≤ r.ledger) ∧
    ∀ c, w.db.cursors streamKey = some c →
      ∀ e ∈ matchingEvents config.contractIds chain, e.ledger < config.startLedger →
        (decodeResumeToken c).Covers tokenPos e

/-- The page continues what is stored. -/
structure Continues (w : World Net) (page : StreamFetchResult) : Prop where
  next : ∃ c, page.nextCursor = some c ∧ (decodeResumeToken c).Untagged ∧
    (∀ e ∈ page.events, (decodeResumeToken c).Covers tokenPos e) ∧
    (∀ r ∈ w.db.events, ∃ e ∈ matchingEvents config.contractIds chain,
      toNewEventRow e = r ∧ e.ledger ≤ tip w.net.time ∧
        (decodeResumeToken c).Covers tokenPos e) ∧
    (∀ e ∈ matchingEvents config.contractIds chain, config.startLedger ≤ e.ledger →
      (decodeResumeToken c).Covers tokenPos e →
        Covered tokenPos (w.db.cursors streamKey) e ∨ e ∈ page.events) ∧
    (config.startLedger ≤ tip 0 + 1 → ∀ e ∈ matchingEvents config.contractIds chain,
      e.ledger < config.startLedger → (decodeResumeToken c).Covers tokenPos e)
  served : ∀ e ∈ page.events, e ∈ matchingEvents config.contractIds chain ∧
    e.ledger ≤ tip w.net.time
  fromStart : config.startLedger ≤ tip 0 + 1 →
    ∀ e ∈ page.events, config.startLedger ≤ e.ledger

/-- Where a poll can be suspended. -/
inductive PollingRpc (w : World Net) : Async (World Net) StreamFetchResult → Prop where
  | start : PollingRpc w (pollRpc sdk network config streamKey ctTokenId)
  | fetching : PollingRpc w (do
      let page ← makeRpcSource network config (w.db.getCursor streamKey)
      withTransaction (commitPage sdk streamKey ctTokenId page)
      pure page)
  | committing (page : StreamFetchResult)
      (hpage : Continues config streamKey chain tokenPos tip w page) : PollingRpc w (do
        withTransaction (commitPage sdk streamKey ctTokenId page)
        pure page)

end Invariant

variable {sdk : StellarSdk V} {network : Network} {config : SourceConfig}
  {streamKey : String} {ctTokenId : Option String} {chain : List RawEvent}
  {tokenPos : String → Position} {tip : Nat → Nat}

/-- A request from the stored cursor asks for what it does not cover. -/
theorem asksFor_stored {cursor : Option String}
    (h : ∀ c, cursor = some c → (decodeResumeToken c).Untagged) (e : RawEvent) :
    (rpcOpts config (cursor.map decodeResumeToken)).start.AsksFor tokenPos e ↔
      (cursor = none → config.startLedger ≤ e.ledger) ∧ ¬Covered tokenPos cursor e := by
  cases cursor with
  | none =>
      have hnone : ¬Covered tokenPos none e := by
        rintro ⟨c, hc, -⟩
        cases hc
      simp only [hnone, not_false_eq_true, and_true, forall_const]
      rfl
  | some c =>
      have hsome : Covered tokenPos (some c) e ↔ (decodeResumeToken c).Covers tokenPos e := by
        constructor
        · rintro ⟨c', hc', hcovers⟩
          cases hc'
          exact hcovers
        · intro hcovers
          exact ⟨c, rfl, hcovers⟩
      rw [hsome]
      simp only [reduceCtorEq, false_implies, true_and]
      exact asksFor_token (h c rfl) config.startLedger e

theorem matchingEvents_keyed (hids : (chain.map (·.id)).Nodup) (contractIds : List String) :
    Table.KeyedBy (fun r : EventRow => r.id) fun r =>
      ∃ e ∈ matchingEvents contractIds chain, toNewEventRow e = r := by
  rintro _ _ ⟨a, ha, rfl⟩ ⟨b, hb, rfl⟩ hab
  rw [List.inj_on_of_nodup_map hids (List.mem_of_mem_filter ha) (List.mem_of_mem_filter hb)
    hab]

section Steps

variable {w : World Net} {pages : List StreamFetchResult}
  (hw : Lossless sdk config streamKey ctTokenId chain tokenPos tip w pages)
include hw

/-- The page that the source makes of an answer continues what is stored: the
request asks for just what the stored token does not cover (`asksFor_stored`),
and the new token covers what the old one did and the page. Nothing below the
start ledger is asked for, as the first request starts there and later ones are
past it. -/
theorem Lossless.continues (htip : Monotone tip)
    {answer : FetchRpcEventsOptions → EventsPage}
    (hrpc : RpcAnswers chain tokenPos (tip w.net.time) answer) :
    Continues config streamKey chain tokenPos tip w
      ⟨(answer (rpcOpts config ((w.db.getCursor streamKey).map decodeResumeToken))).events,
        some (encodeResumeToken (nextResumeTokenFromPage
          (answer (rpcOpts config ((w.db.getCursor streamKey).map decodeResumeToken)))))⟩ := by
  have hasks : ∀ e,
      (rpcOpts config ((w.db.getCursor streamKey).map decodeResumeToken)).start.AsksFor tokenPos e ↔
        (w.db.cursors streamKey = none → config.startLedger ≤ e.ledger) ∧
        ¬Covered tokenPos (w.db.cursors streamKey) e :=
    asksFor_stored hw.readable
  generalize hopts : rpcOpts config ((w.db.getCursor streamKey).map decodeResumeToken) = opts
    at hasks
  have hids : opts.contractIds = config.contractIds := hopts ▸ rfl
  have hdecode : decodeResumeToken (encodeResumeToken (nextResumeTokenFromPage (answer opts)))
      = nextResumeTokenFromPage (answer opts) := decode_encodeResumeToken (hrpc.next_untagged opts)
  refine ⟨⟨_, rfl, ?_, ?_, ?_, ?_, ?_⟩, ?_, ?_⟩
  · rw [hdecode]
    exact hrpc.next_untagged opts
  · intro e he
    rw [hdecode]
    exact hrpc.covers_served he
  · intro r hr
    obtain ⟨e, he, heq, hle, hcov⟩ := hw.sound r hr
    rw [hdecode]
    exact ⟨e, he, heq, hle,
      hrpc.covers_earlier (hids ▸ he) (fun h => ((hasks e).mp h).2 hcov) hle⟩
  · intro e he hstart hcov
    rw [hdecode] at hcov
    by_cases hc : Covered tokenPos (w.db.cursors streamKey) e
    · exact Or.inl hc
    · exact Or.inr (hrpc.mem_of_covers (hids ▸ he) ((hasks e).mpr ⟨fun _ => hstart, hc⟩) hcov)
  · intro hearly e he hlt
    rw [hdecode]
    have hle : e.ledger ≤ tip w.net.time := by
      have := htip (Nat.zero_le w.net.time)
      omega
    refine hrpc.covers_earlier (hids ▸ he) (fun h => ?_) hle
    obtain ⟨hnone, hnot⟩ := (hasks e).mp h
    -- below the start the first request does not ask, and later ones are past it
    cases hc : w.db.cursors streamKey with
    | none => exact absurd (hnone hc) (Nat.not_le.mpr hlt)
    | some c => exact hnot ⟨c, hc, (hw.fromStart hearly).2 c hc e he hlt⟩
  · intro e he
    obtain ⟨hmatch, hle, -⟩ := hrpc.of_mem he
    exact ⟨hids ▸ hmatch, hle⟩
  · intro hearly e he
    obtain ⟨hmatch, -, h⟩ := hrpc.of_mem he
    obtain ⟨hnone, hnot⟩ := (hasks e).mp h
    cases hc : w.db.cursors streamKey with
    | none => exact hnone hc
    | some c =>
        by_contra hlt
        exact hnot ⟨c, hc, (hw.fromStart hearly).2 c hc e (hids ▸ hmatch) (Nat.lt_of_not_le hlt)⟩

/-- The transaction of such a page keeps the invariant. A row of the table
afterwards was there or is of the page, and the new cursor covers either; what
it covers was covered before or is of the page. That no id is taken by a wrong
row follows as ids are those of one chain. -/
theorem Lossless.commit (hids : (chain.map (·.id)).Nodup) {page : StreamFetchResult}
    (hpage : Continues config streamKey chain tokenPos tip w page) :
    Lossless sdk config streamKey ctTokenId chain tokenPos tip
      { w with db := commitPage sdk streamKey ctTokenId page w.db } (pages ++ [page]) := by
  obtain ⟨⟨c, hc, huntagged, hserved, hearlier, honly, hbelow⟩, hmatch, hstart⟩ := hpage
  have hcursor : (commitPage sdk streamKey ctTokenId page w.db).cursors streamKey = some c := by
    rw [commitPage_cursors, hc]
    exact Function.update_self ..
  have hcovered : ∀ e, Covered tokenPos (some c) e ↔ (decodeResumeToken c).Covers tokenPos e := by
    intro e
    simp [Covered]
  have hD := matchingEvents_keyed hids config.contractIds
  have hrows : ∀ r ∈ page.events.map toNewEventRow,
      ∃ e ∈ matchingEvents config.contractIds chain, toNewEventRow e = r := by
    intro r hr
    obtain ⟨e, he, rfl⟩ := List.mem_map.mp hr
    exact ⟨e, (hmatch e he).1, rfl⟩
  have htable : ∀ r ∈ w.db.events,
      ∃ e ∈ matchingEvents config.contractIds chain, toNewEventRow e = r := by
    intro r hr
    obtain ⟨e, he, heq, -⟩ := hw.sound r hr
    exact ⟨e, he, heq⟩
  have hmem : ∀ r, r ∈ (commitPage sdk streamKey ctTokenId page w.db).events ↔
      r ∈ w.db.events ∨ r ∈ page.events.map toNewEventRow := by
    intro r
    rw [commitPage_events]
    exact Table.mem_insertAllNew hD hrows htable r
  refine ⟨?_, ?_, ?_, ?_, ?_, ?_⟩
  · rw [List.foldl_append, ← hw.committed]
    rfl
  · intro c' hc'
    rw [hcursor] at hc'
    cases hc'
    exact huntagged
  · intro r hr
    rw [hcursor]
    rcases (hmem r).mp hr with hr | hr
    · obtain ⟨e, he, heq, hle, hcov⟩ := hearlier r hr
      exact ⟨e, he, heq, hle, (hcovered e).mpr hcov⟩
    · obtain ⟨e, he, rfl⟩ := List.mem_map.mp hr
      exact ⟨e, (hmatch e he).1, rfl, (hmatch e he).2, (hcovered e).mpr (hserved e he)⟩
  · intro e he hle hcov
    rw [hcursor, hcovered] at hcov
    refine (hmem _).mpr ?_
    rcases honly e he hle hcov with hold | hnew
    · exact Or.inl (hw.complete e he hle hold)
    · exact Or.inr (List.mem_map_of_mem hnew)
  · rw [show (commitPage sdk streamKey ctTokenId page w.db).events = _ from commitPage_events ..]
    exact Table.nodup_insertAllNew hD hrows htable hw.nodup
  · intro hearly
    refine ⟨fun r hr => ?_, fun c' hc' => ?_⟩
    · rcases (hmem r).mp hr with hr | hr
      · exact (hw.fromStart hearly).1 r hr
      · obtain ⟨e, he, rfl⟩ := List.mem_map.mp hr
        exact hstart hearly e he
    · rw [hcursor] at hc'
      cases hc'
      exact hbelow hearly

/-- The chain grows. -/
theorem Lossless.tick (htip : Monotone tip) :
    Lossless sdk config streamKey ctTokenId chain tokenPos tip
      { w with net.time := w.net.time + 1 } pages where
  committed := hw.committed
  readable := hw.readable
  sound := by
    intro r hr
    obtain ⟨e, he, heq, hle, hcov⟩ := hw.sound r hr
    exact ⟨e, he, heq, hle.trans (htip (Nat.le_succ _)), hcov⟩
  complete := hw.complete
  nodup := hw.nodup
  fromStart := hw.fromStart

end Steps

theorem Continues.tick {w : World Net} {page : StreamFetchResult}
    (h : Continues config streamKey chain tokenPos tip w page) (htip : Monotone tip) :
    Continues config streamKey chain tokenPos tip
      { w with net.time := w.net.time + 1 } page := by
  obtain ⟨⟨c, hc, huntagged, hserved, hearlier, honly, hbelow⟩, hmatch, hstart⟩ := h
  have hle : tip w.net.time ≤ tip (w.net.time + 1) := htip (Nat.le_succ _)
  refine ⟨⟨c, hc, huntagged, hserved, fun r hr => ?_, honly, hbelow⟩, fun e he => ?_, hstart⟩
  · obtain ⟨e, he, heq, hvisible, hcov⟩ := hearlier r hr
    exact ⟨e, he, heq, hvisible.trans hle, hcov⟩
  · exact ⟨(hmatch e he).1, (hmatch e he).2.trans hle⟩

theorem PollingRpc.tick {w : World Net} {p : Async (World Net) StreamFetchResult}
    (h : PollingRpc sdk network config streamKey ctTokenId chain tokenPos tip w p)
    (htip : Monotone tip) :
    PollingRpc sdk network config streamKey ctTokenId chain tokenPos tip
      { w with net.time := w.net.time + 1 } p := by
  cases h with
  | start => exact .start
  | fetching => exact .fetching
  | committing page hpage => exact .committing page (hpage.tick htip)

/-- One access of a poll. -/
theorem PollingRpc.resume {w : World Net} {pages : List StreamFetchResult}
    {p : Async (World Net) StreamFetchResult} (hids : (chain.map (·.id)).Nodup)
    (htip : Monotone tip)
    (hrpc : ∀ t, RpcAnswers chain tokenPos (tip t) (network.fetchRpcEvents t))
    (hp : PollingRpc sdk network config streamKey ctTokenId chain tokenPos tip w p)
    (hw : Lossless sdk config streamKey ctTokenId chain tokenPos tip w pages) :
    Sys.Kept (Lossless sdk config streamKey ctTokenId chain tokenPos tip)
      (PollingRpc sdk network config streamKey ctTokenId chain tokenPos tip (p.resume w).1)
      pages (p.resume w) := by
  cases hp with
  | start => exact ⟨.fetching, hw⟩
  | fetching =>
      -- a call changes neither the database nor the time
      have hcall : Lossless sdk config streamKey ctTokenId chain tokenPos tip
          { w with net.calls := w.net.calls ++ [.rpc
            (rpcOpts config ((w.db.getCursor streamKey).map decodeResumeToken))
            (network.fetchRpcEvents w.net.time
              (rpcOpts config ((w.db.getCursor streamKey).map decodeResumeToken)))] } pages :=
        ⟨hw.committed, hw.readable, hw.sound, hw.complete, hw.nodup, hw.fromStart⟩
      exact ⟨.committing _ (hcall.continues htip (hrpc w.net.time)), hcall⟩
  | committing page hpage => exact hw.commit hids hpage

/-! ## Every run -/

theorem World.unpolled_lossless :
    Lossless sdk config streamKey ctTokenId chain tokenPos tip World.unpolled [] where
  committed := rfl
  readable := fun c hc => by cases hc
  sound := fun r hr => by cases hr
  complete := by
    rintro e - - ⟨c, hc, -⟩
    cases hc
  nodup := List.nodup_nil
  fromStart := fun _ => ⟨fun r hr => (by cases hr), fun c hc => (by cases hc)⟩

theorem lossless_run (hids : (chain.map (·.id)).Nodup) (htip : Monotone tip)
    (hrpc : ∀ t, RpcAnswers chain tokenPos (tip t) (network.fetchRpcEvents t))
    (steps : List WorkerStep) :
    ∃ w, w.db = workerDb sdk network config streamKey ctTokenId steps ∧
      Lossless sdk config streamKey ctTokenId chain tokenPos tip w
        (workerPages sdk network config streamKey ctTokenId steps) := by
  refine ⟨_, rfl, ?_⟩
  refine Sys.invariant_coupled (I := Lossless sdk config streamKey ctTokenId chain tokenPos tip)
    (T := PollingRpc sdk network config streamKey ctTokenId chain tokenPos tip)
    (P := fun a => ∃ s, WorkerStep.act sdk network config streamKey ctTokenId s = a)
    (fun w pages p hp hw => hp.resume hids htip hrpc hw) ?_ ?_ ?_ World.unpolled_lossless ?_
  · intro i j hij
    exact absurd rfl hij
  · rintro i p w pages ⟨s, hs⟩ hw
    cases s <;> cases hs
    exact .start
  · rintro f w pages ⟨s, hs⟩ hw
    cases s <;> cases hs
    exact ⟨hw.tick htip, fun p hp => hp.tick htip⟩
  · intro a ha
    obtain ⟨s, -, hs⟩ := List.mem_map.mp ha
    exact ⟨s, hs⟩

/-- Whatever the RPC answers and whatever fails, the table holds the events
before the stored cursor's place, from the start ledger on, once, and no page
is committed in part.

All parts are read off the invariant of `lossless_run`: what is in the table
is an event that the cursor covers, and what it covers is in the table. -/
theorem rpc_indexing_lossless (sdk : StellarSdk V) (network : Network) (config : SourceConfig)
    (streamKey : String) (ctTokenId : Option String) (chain : List RawEvent)
    (tokenPos : String → Position) (tip : Nat → Nat) (hids : (chain.map (·.id)).Nodup)
    (htip : Monotone tip)
    (hrpc : ∀ t, RpcAnswers chain tokenPos (tip t) (network.fetchRpcEvents t))
    (steps : List WorkerStep) :
    let db := workerDb sdk network config streamKey ctTokenId steps
    (∀ e ∈ matchingEvents config.contractIds chain, config.startLedger ≤ e.ledger →
      (toNewEventRow e ∈ db.events ↔ Covered tokenPos (db.getCursor streamKey) e)) ∧
    (∀ r ∈ db.events, ∃ e ∈ matchingEvents config.contractIds chain,
      toNewEventRow e = r ∧ Covered tokenPos (db.getCursor streamKey) e) ∧
    (config.startLedger ≤ tip 0 + 1 → ∀ r ∈ db.events, config.startLedger ≤ r.ledger) ∧
    db.events.Nodup ∧
    db = (workerPages sdk network config streamKey ctTokenId steps).foldl
      (fun db page => commitPage sdk streamKey ctTokenId page db) .empty := by
  intro db
  obtain ⟨w, hdb, hw⟩ := @lossless_run V sdk _ config streamKey ctTokenId _ _ _
    hids htip hrpc steps
  change w.db = db at hdb
  clear_value db
  subst hdb
  have hsound : ∀ r ∈ w.db.events, ∃ e ∈ matchingEvents config.contractIds chain,
      toNewEventRow e = r ∧ Covered tokenPos (w.db.getCursor streamKey) e := by
    intro r hr
    obtain ⟨e, he, heq, -, hcov⟩ := hw.sound r hr
    exact ⟨e, he, heq, hcov⟩
  refine ⟨fun e he hle => ⟨fun hmem => ?_, fun hcov => ?_⟩, hsound, fun hearly r hr => ?_, ?_, ?_⟩
  · obtain ⟨e', he', heq, hcov⟩ := hsound _ hmem
    have hee : e' = e := List.inj_on_of_nodup_map hids (List.mem_of_mem_filter he')
      (List.mem_of_mem_filter he) (congrArg EventRow.id heq)
    exact hee ▸ hcov
  · exact hw.complete e he hle hcov
  · exact (hw.fromStart hearly).1 r hr
  · exact hw.nodup
  · exact hw.committed

/-! ## An RPC without cursors -/

/-- Everything the request asks for, in one page. -/
def wholeAnswer (chain : List RawEvent) (tokenPos : String → Position) (tip : Nat)
    (opts : FetchRpcEventsOptions) : EventsPage where
  events := (matchingEvents opts.contractIds chain).filter fun e =>
    decide (e.ledger ≤ tip) && decide (opts.start.AsksFor tokenPos e)
  latestLedger := tip
  cursor := none
  oldestLedger := 0

theorem wholeAnswer_answers (chain : List RawEvent) (tokenPos : String → Position)
    (tip : Nat) : RpcAnswers chain tokenPos tip (wholeAnswer chain tokenPos tip) where
  latestLedger := fun _ => rfl
  served := fun _ => List.prefix_refl _
  cursor := fun _ c hc => by cases hc
  exhausted := by
    intro opts _ e he hle hasks
    rw [wholeAnswer, List.mem_filter]
    exact ⟨he, by simp [hle, hasks]⟩

/-- A network with that RPC, a ledger older each time. -/
def wholeNetwork (chain : List RawEvent) (tokenPos : String → Position) (tip : Nat) :
    Network where
  fetchRpcEvents time := wholeAnswer chain tokenPos (tip + time)
  fetchBootnodeEvents _ _ := .handoff 0

/-- A poll before the event, one that fails, and one after it. -/
theorem rpc_indexing_lossless_merge :
    toNewEventRow mergeEvent ∈ (workerDb mergeSdk
      (wholeNetwork [mergeEvent] (fun _ => toLex (0, toLex (0, toLex (0, 0)))) 3900643)
      ⟨[mergeToken], 3900251, none⟩ "ct" (some mergeToken)
      [.start, .resume, .resume, .resume, .tick, .start, .resume, .resume, .abort,
        .start, .resume, .resume, .resume]).events := by
  refine ((rpc_indexing_lossless mergeSdk _ ⟨[mergeToken], 3900251, none⟩ "ct"
    (some mergeToken) [mergeEvent] _ (fun time => 3900643 + time) (List.nodup_singleton _)
    (fun a b hab => Nat.add_le_add_left hab _) (fun time => wholeAnswer_answers _ _ _) _).1
    mergeEvent (by decide) (by decide)).mpr ⟨"ledger:3900645", rfl, ?_⟩
  rw [show decodeResumeToken "ledger:3900645" = .ledger (some 3900645) by decide]
  exact Nat.lt_succ_self _

/-- The stream starts at a ledger that is not closed yet. The first answer has
no cursor, so the worker goes on behind the last ledger, and stores an event
from below its start. -/
theorem indexed_below_start :
    (∀ time, RpcAnswers [mergeEvent] (fun _ => toLex (0, toLex (0, toLex (0, 0)))) (3900643 + time)
      ((wholeNetwork [mergeEvent] (fun _ => toLex (0, toLex (0, toLex (0, 0))))
        3900643).fetchRpcEvents time)) ∧
    mergeEvent.ledger < 3900700 ∧
    toNewEventRow mergeEvent ∈ (workerDb mergeSdk
      (wholeNetwork [mergeEvent] (fun _ => toLex (0, toLex (0, toLex (0, 0)))) 3900643)
      ⟨[mergeToken], 3900700, none⟩ "ct" (some mergeToken)
      [.start, .resume, .resume, .resume, .tick, .start, .resume, .resume, .resume]).events :=
  ⟨fun time => wholeAnswer_answers _ _ _, by decide, by decide +kernel⟩

end Indexer

end PrivacyWallet
