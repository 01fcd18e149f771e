import PrivacyWallet.Backfill.Fetch
import PrivacyWallet.Indexer.Lossless
import PrivacyWallet.Indexer.StateMachine

/-!
# Backfill, then live polling

`load-backfill` inserts the fixture and puts the stream into RPC mode behind
the highest ledger it found there, one number for all contracts. The worker
polls the RPC from there.

Nothing is missed if and only if every event up to that ledger was shown
when its own contract was fetched (`backfill_misses_nothing_iff`). An event
that landed after its contract's fetch, in a ledger that a later fetch of
another contract reached, is neither in the fixture nor asked for again.

Two parts of the table are followed. Up to the highest fetched ledger it is
the fixture's for good: the RPC is asked from the ledger after it on, so what
was not fetched stays out (`Live.not_present`). Behind it the invariant
`Live` says that what the stored token covers is in the table (`TokenOk`):

- the load starts it, as it leaves nothing behind the fixture
  (`loaded_live`);
- a page continues the stored token and holds what lies between the old
  token and the new one (`Live.pageOk`), so the transaction that writes rows
  and token keeps it (`Live.commit`);
- a poll is suspended at one of three places (`PollingLive`), and each access
  leads to the next one, fails, or commits (`PollingLive.resume`);
- `live_run` is the induction over the steps.

The token is opaque here: it is told only by what the RPC answers to it.
-/

namespace PrivacyWallet

namespace Backfill

open Indexer

/-! ## The loader -/

/-- The slices of the loop `for (i = 0; i < rows.length; i += chunkSize)`. -/
def chunksOf (chunkSize : Nat) (rows : List EventRow) : List (List EventRow) :=
  (List.range ((rows.length + chunkSize - 1) / chunkSize)).map fun k =>
    (rows.drop (k * chunkSize)).take chunkSize

variable {N V : Type}

def insertChunks : List (List EventRow) → Async (World N) Unit
  | [] => pure ()
  | chunk :: chunks => do
      Async.update fun w => { w with db := w.db.insertEvents chunk }
      insertChunks chunks

def loadBackfillEvents (rows : List EventRow) (chunkSize : Nat) : Async (World N) Nat := do
  insertChunks (chunksOf chunkSize rows)
  pure rows.length

/-- `main` of `load-backfill`; `none` for a fixture without events, which
leaves the cursor. -/
def loadBackfill (streamKey : String) (fixture : List RawEvent) :
    Async (World N) (Option SppCursorInitResult) := do
  let rows := fixture.map toNewEventRow
  let _ ← loadBackfillEvents rows 500
  match (rows.map (·.ledger)).max? with
  | none => pure none
  | some lastBackfilledLedger => do
      let result ← initSppCursor streamKey lastBackfilledLedger
      pure (some result)

theorem chunks_flatten (chunkSize : Nat) (rows : List EventRow) (n : Nat) :
    ((List.range n).map fun k => (rows.drop (k * chunkSize)).take chunkSize).flatten
      = rows.take (n * chunkSize) := by
  induction n with
  | zero => simp
  | succ n ih =>
      rw [List.range_succ, List.map_append, List.flatten_append, ih, Nat.succ_mul,
        List.take_add]
      simp

/-- The chunks are the rows. -/
theorem chunksOf_flatten {chunkSize : Nat} (h : 0 < chunkSize) (rows : List EventRow) :
    (chunksOf chunkSize rows).flatten = rows := by
  rw [chunksOf, chunks_flatten]
  refine List.take_of_length_le ?_
  have hceil := Nat.lt_div_mul_add (a := rows.length + chunkSize - 1) h
  omega

theorem run_insertChunks (chunks : List (List EventRow)) (w : World N) :
    ((insertChunks chunks).run w).1
      = { w with db := w.db.insertEvents chunks.flatten } := by
  induction chunks generalizing w with
  | nil => rfl
  | cons chunk chunks ih =>
      rw [insertChunks, Async.run_bind, ih, List.flatten_cons]
      simp only [Async.update, Async.run, Db.insertEvents, Table.insertAllNew_append]

/-- A load into an empty database. -/
theorem run_loadBackfill {streamKey : String} {fixture : List RawEvent} {last : Nat}
    (hlast : (fixture.map (·.ledger)).max? = some last) (net : N) :
    ((loadBackfill streamKey fixture).run ⟨.empty, net⟩).1
      = ⟨(Db.empty.insertEvents (fixture.map toNewEventRow)).setCursor streamKey
          (encodeRpcModeLedgerCursor (last + 1)), net⟩ := by
  have hrows : ((fixture.map toNewEventRow).map (·.ledger)).max? = some last := by
    rw [List.map_map]
    exact hlast
  unfold loadBackfill loadBackfillEvents
  simp only [hrows, Async.run_bind]
  rw [run_insertChunks, chunksOf_flatten (by decide)]
  rfl

/-! ## The worker after the load -/

section Runs

variable (sdk : StellarSdk V) (network : Network) (config : SourceConfig)
  (streamKey : String) (fixture : List RawEvent)

def liveAct : WorkerStep → Act (World Net) Unit StreamFetchResult
  | .tick => .env fun w => { w with net.time := w.net.time + 1 }
  | .start => .start () (pollSpp sdk network config streamKey none)
  | .resume => .resume ()
  | .abort => .abort ()

/-- The database after the load and some steps of the worker. -/
def dbAfterLoad (steps : List WorkerStep) : Db :=
  (Run.run Sys.exec ⟨((loadBackfill streamKey fixture).run ⟨.empty, ⟨0, []⟩⟩).1, fun _ => none⟩
    (steps.map (liveAct sdk network config streamKey))).state.db

end Runs

/-- The event lies before the place that the stored cursor encodes. -/
def Behind (tokenPos : String → Position) (cursor : Option String) (e : RawEvent) : Prop :=
  ∃ token, decodeStage cursor = .rpc token ∧ token.Covers tokenPos e

/-- One of the event's rows is in the table. -/
def Present (db : Db) (e : ChainEvent) : Prop :=
  toNewEventRow (e.row e.op) ∈ db.events ∨ toNewEventRow e.backfilled ∈ db.events

/-- Every event in a ledger that some contract's fetch reached was shown when
its own contract was fetched. -/
def Undisturbed (chain : List ChainEvent) (shown : Nat → Nat)
    (schedule : List (String × List Nat)) : Prop :=
  ∀ e ∈ chain, e.contractId ∈ schedule.map (·.1) →
    (∃ e' ∈ collected chain shown schedule, e.ledger ≤ e'.ledger) →
      e ∈ collected chain shown schedule

/-! ## Rows do not collide -/

section Rows

variable {chain : List ChainEvent} (hchain : SppChain chain)
include hchain

theorem SppChain.eq_of_live {e e' : ChainEvent} (he : e ∈ chain) (he' : e' ∈ chain)
    (h : (e.row e.op).id = (e'.row e'.op).id) : e = e' := by
  rw [hchain.single e he, hchain.single e' he'] at h
  exact List.inj_on_of_nodup_map hchain.liveIds he he' h

theorem SppChain.eq_of_backfilled {e e' : ChainEvent} (he : e ∈ chain) (he' : e' ∈ chain)
    (h : e.backfilled.id = e'.backfilled.id) : e = e' := by
  obtain ⟨-, hindex, hplace⟩ := naturalEventId_inj h
  refine hchain.eq_of_live he he' ?_
  change naturalEventId e.ledger e.txHash e.op e.index
    = naturalEventId e'.ledger e'.txHash e'.op e'.index
  unfold naturalEventId
  rw [hchain.single e he, hchain.single e' he', hindex, hplace]

theorem SppChain.live_ne_backfilled {e e' : ChainEvent} (he : e ∈ chain) (he' : e' ∈ chain) :
    (e.row e.op).id ≠ e'.backfilled.id := by
  intro h
  have hop : e.op = e'.op + 1 := (naturalEventId_inj h).1
  rw [hchain.single e he, hchain.single e' he'] at hop
  cases hop

end Rows

/-! ## The invariant of live polling -/

/-- The chain as the RPC's rows. -/
def liveRows (chain : List ChainEvent) : List RawEvent := chain.map fun e => e.row e.op

section Invariant

variable (contractIds : List String) (streamKey : String) (chain : List ChainEvent)
  (fetched : List ChainEvent) (tokenPos : String → Position) (tip : Nat → Nat) (last : Nat)

/-- The events of the stream's contracts behind the backfill. -/
def LiveEvent (e : ChainEvent) : Prop := e ∈ chain ∧ e.contractId ∈ contractIds

/-- What a token covers behind the backfill is in the table; what lies in the backfilled
ledgers it covers, unless the RPC is behind them. -/
structure TokenOk (token : ResumeToken) (inTable : EventRow → Prop) : Prop where
  untagged : token.Untagged
  complete : ∀ e, LiveEvent contractIds chain e → last < e.ledger →
    token.Covers tokenPos (e.row e.op) → inTable (toNewEventRow (e.row e.op))
  past : last ≤ tip 0 → ∀ e, LiveEvent contractIds chain e → e.ledger ≤ last →
    token.Covers tokenPos (e.row e.op)

/-- An event that the RPC may serve. -/
def Servable (x : RawEvent) : Prop :=
  ∃ e, LiveEvent contractIds chain e ∧ (last ≤ tip 0 → last < e.ledger) ∧ x = e.row e.op

structure Live (w : World Net) : Prop where
  cursor : ∃ token, decodeStage (w.db.getCursor streamKey) = .rpc token ∧
    TokenOk contractIds chain tokenPos tip last token (· ∈ w.db.events)
  backfilled : ∀ e ∈ fetched, toNewEventRow e.backfilled ∈ w.db.events
  rows : ∀ r ∈ w.db.events, (∃ e ∈ fetched, r = toNewEventRow e.backfilled) ∨
    ∃ x, Servable contractIds chain tip last x ∧ r = toNewEventRow x

/-- A page that continues the stored token. -/
structure PageOk (w : World Net) (page : StreamFetchResult) : Prop where
  cursor : ∃ c token, page.nextCursor = some c ∧ decodeStage (some c) = .rpc token ∧
    TokenOk contractIds chain tokenPos tip last token
      (fun r => r ∈ w.db.events ∨ r ∈ page.events.map toNewEventRow)
  served : ∀ x ∈ page.events, Servable contractIds chain tip last x

end Invariant

section Polls

variable (sdk : StellarSdk V) (network : Network) (config : SourceConfig)
  (streamKey : String) (chain : List ChainEvent) (tokenPos : String → Position)
  (tip : Nat → Nat) (last : Nat)

/-- Where a poll can be suspended. -/
inductive PollingLive (w : World Net) : Async (World Net) StreamFetchResult → Prop where
  | start : PollingLive w (pollSpp sdk network config streamKey none)
  | calling : PollingLive w
      (.await (fun w' => { w' with net.calls := w'.net.calls ++
          [(decodeStage (w.db.getCursor streamKey)).call network config w'.net.time] })
        fun w' =>
          let page := ((decodeStage (w.db.getCursor streamKey)).call network config
            w'.net.time).result
          .await (fun w'' => { w'' with db := commitPage sdk streamKey none page w''.db })
            fun _ => .done page)
  | committing (page : StreamFetchResult)
      (hpage : PageOk config.contractIds chain tokenPos tip last w page) : PollingLive w
      (.await (fun w' => { w' with db := commitPage sdk streamKey none page w'.db })
        fun _ => .done page)

end Polls

section Steps

variable {sdk : StellarSdk V} {network : Network} {config : SourceConfig}
  {streamKey : String} {chain fetched : List ChainEvent} {tokenPos : String → Position}
  {tip : Nat → Nat} {last : Nat} {w : World Net}

theorem mem_matching_liveRows {x : RawEvent} {contractIds : List String} :
    x ∈ matchingEvents contractIds (liveRows chain) ↔
      ∃ e, LiveEvent contractIds chain e ∧ x = e.row e.op := by
  unfold matchingEvents liveRows LiveEvent
  rw [List.mem_filter, List.mem_map, decide_eq_true_eq]
  constructor
  · rintro ⟨⟨e, he, rfl⟩, hc⟩
    exact ⟨e, ⟨he, hc⟩, rfl⟩
  · rintro ⟨e, ⟨he, hc⟩, rfl⟩
    exact ⟨⟨e, he, rfl⟩, hc⟩

/-- The page that the source makes of an answer. -/
theorem Live.pageOk (hw : Live config.contractIds streamKey chain fetched tokenPos tip last w)
    (htip : Monotone tip) (time : Nat)
    (hrpc : RpcAnswers (liveRows chain) tokenPos (tip time) (network.fetchRpcEvents time)) :
    PageOk config.contractIds chain tokenPos tip last w
      ((decodeStage (w.db.getCursor streamKey)).call network config time).result := by
  obtain ⟨token, htoken, hok⟩ := hw.cursor
  rw [htoken]
  have hasks : ∀ x, (rpcOpts config (some token)).start.AsksFor tokenPos x ↔
      ¬token.Covers tokenPos x := asksFor_token hok.untagged config.startLedger
  generalize hopts : rpcOpts config (some token) = opts at hasks
  have hids : opts.contractIds = config.contractIds := hopts ▸ rfl
  have hcall : (Stage.rpc token).call network config time
      = .rpc opts (network.fetchRpcEvents time opts) := hopts ▸ rfl
  rw [hcall]
  have hmatch : ∀ e, LiveEvent config.contractIds chain e →
      e.row e.op ∈ matchingEvents opts.contractIds (liveRows chain) := by
    intro e he
    rw [hids]
    exact mem_matching_liveRows.mpr ⟨e, he, rfl⟩
  refine ⟨⟨_, _, rfl, decodeStage_rpc _ (hrpc.next_untagged opts), hrpc.next_untagged opts,
    ?_, ?_⟩, ?_⟩
  · intro e he hlast hcov
    by_cases hc : token.Covers tokenPos (e.row e.op)
    · exact Or.inl (hok.complete e he hlast hc)
    · exact Or.inr (List.mem_map_of_mem
        (hrpc.mem_of_covers (hmatch e he) ((hasks _).mpr hc) hcov))
  · intro hahead e he hlast
    have hle : e.ledger ≤ tip time := by
      have := htip (Nat.zero_le time)
      omega
    exact hrpc.covers_earlier (hmatch e he)
      (fun h => (hasks _).mp h (hok.past hahead e he hlast)) hle
  · intro x hx
    obtain ⟨hmem, -, hask⟩ := hrpc.of_mem hx
    rw [hids] at hmem
    obtain ⟨e, he, rfl⟩ := mem_matching_liveRows.mp hmem
    refine ⟨e, he, fun hahead => ?_, rfl⟩
    by_contra hnot
    exact (hasks _).mp hask (hok.past hahead e he (Nat.le_of_not_lt hnot))

/-- The transaction of such a page keeps the invariant. A served event's id is
taken by no other row, as the rows behind the fixture are of live events and
the fixture's ids differ from theirs; so what the new token covers was covered
before or is inserted now. -/
theorem Live.commit (hchain : SppChain chain) (hfetched : ∀ e ∈ fetched, e ∈ chain)
    (hw : Live config.contractIds streamKey chain fetched tokenPos tip last w)
    {page : StreamFetchResult}
    (hpage : PageOk config.contractIds chain tokenPos tip last w page) :
    Live config.contractIds streamKey chain fetched tokenPos tip last
      { w with db := commitPage sdk streamKey none page w.db } := by
  obtain ⟨⟨c, token, hc, hstage, hok⟩, hserved⟩ := hpage
  have hcursor : (commitPage sdk streamKey none page w.db).getCursor streamKey = some c := by
    rw [Db.getCursor, commitPage_cursors, hc]
    exact Function.update_self ..
  have hkept : ∀ r ∈ w.db.events, r ∈ (commitPage sdk streamKey none page w.db).events := by
    intro r hr
    rw [commitPage_events]
    exact Table.mem_insertAllNew_of_mem_table hr
  -- a served event's id is taken by no other row
  have hnew : ∀ r ∈ page.events.map toNewEventRow,
      r ∈ (commitPage sdk streamKey none page w.db).events := by
    intro r hr
    rw [commitPage_events]
    refine Table.mem_insertAllNew_of_mem_rows hr fun r' hr' hid => ?_
    obtain ⟨x, hx, rfl⟩ := List.mem_map.mp hr
    obtain ⟨e, he, -, rfl⟩ := hserved x hx
    have hlive : ∀ x', Servable config.contractIds chain tip last x' →
        (toNewEventRow x').id = (toNewEventRow (e.row e.op)).id →
        toNewEventRow x' = toNewEventRow (e.row e.op) := by
      rintro x' ⟨e', he', -, rfl⟩ hid
      rw [hchain.eq_of_live he'.1 he.1 hid]
    rcases hr' with hr' | hr'
    · rcases hw.rows r' hr' with ⟨e', he', rfl⟩ | ⟨x', hx', rfl⟩
      · exact absurd hid.symm (hchain.live_ne_backfilled he.1 (hfetched e' he'))
      · exact hlive x' hx' hid
    · obtain ⟨x', hx', rfl⟩ := List.mem_map.mp hr'
      exact hlive x' (hserved x' hx') hid
  refine ⟨⟨token, by rw [hcursor, hstage], hok.untagged, ?_, hok.past⟩, ?_, ?_⟩
  · intro e he hlast hcov
    rcases hok.complete e he hlast hcov with h | h
    · exact hkept _ h
    · exact hnew _ h
  · intro e he
    exact hkept _ (hw.backfilled e he)
  · intro r hr
    rw [commitPage_events] at hr
    rcases Table.mem_of_mem_insertAllNew hr with hr | hr
    · exact hw.rows r hr
    · obtain ⟨x, hx, rfl⟩ := List.mem_map.mp hr
      exact Or.inr ⟨x, hserved x hx, rfl⟩

/-- One access of a poll. It goes on, fails and changes nothing, or commits a page that
continues the stored token; another poll may have moved the token, but not past the page. -/
theorem PollingLive.resume {p : Async (World Net) StreamFetchResult}
    {pages : List StreamFetchResult} (hchain : SppChain chain)
    (hfetched : ∀ e ∈ fetched, e ∈ chain) (htip : Monotone tip)
    (hrpc : ∀ t, RpcAnswers (liveRows chain) tokenPos (tip t) (network.fetchRpcEvents t))
    (hp : PollingLive sdk network config streamKey chain tokenPos tip last w p)
    (hw : Live config.contractIds streamKey chain fetched tokenPos tip last w) :
    Sys.Kept (fun w _ => Live config.contractIds streamKey chain fetched tokenPos tip last w)
      (PollingLive sdk network config streamKey chain tokenPos tip last (p.resume w).1) pages
      (p.resume w) := by
  cases hp with
  | start =>
      rw [pollSpp_eq]
      exact ⟨.calling, hw⟩
  | calling =>
      have hcall : Live config.contractIds streamKey chain fetched tokenPos tip last
          { w with net.calls := w.net.calls ++
            [(decodeStage (w.db.getCursor streamKey)).call network config w.net.time] } :=
        ⟨hw.cursor, hw.backfilled, hw.rows⟩
      exact ⟨.committing _ (hcall.pageOk htip w.net.time (hrpc w.net.time)), hcall⟩
  | committing page hpage => exact hw.commit hchain hfetched hpage

end Steps

/-! ## From the load on -/

section Load

variable {chain fetched : List ChainEvent} {fixture : List RawEvent} {last : Nat}
  {streamKey : String} {contractIds : List String} {tokenPos : String → Position}
  {tip : Nat → Nat}

/-- The table after the load holds the fetched events' rows and no others. -/
theorem mem_loaded (hchain : SppChain chain) (hfetched : ∀ e ∈ fetched, e ∈ chain)
    (hfixture : fixture.Perm (fetched.map ChainEvent.backfilled)) (r : EventRow) :
    r ∈ (Db.empty.insertEvents (fixture.map toNewEventRow)).events ↔
      ∃ e ∈ fetched, r = toNewEventRow e.backfilled := by
  have hrow : ∀ r, r ∈ fixture.map toNewEventRow ↔
      ∃ e ∈ fetched, r = toNewEventRow e.backfilled := by
    intro r
    rw [(hfixture.map toNewEventRow).mem_iff, List.map_map, List.mem_map]
    exact exists_congr fun e => and_congr_right fun _ => eq_comm
  constructor
  · intro hr
    rcases Table.mem_of_mem_insertAllNew hr with hr | hr
    · cases hr
    · exact (hrow r).mp hr
  · intro hr
    refine Table.mem_insertAllNew_of_mem_rows ((hrow r).mpr hr) fun r' hr' hid => ?_
    obtain ⟨e, he, rfl⟩ := hr
    rcases hr' with hr' | hr'
    · cases hr'
    · obtain ⟨e', he', rfl⟩ := (hrow r').mp hr'
      rw [hchain.eq_of_backfilled (hfetched e' he') (hfetched e he) hid]

theorem fixture_ledger (hfixture : fixture.Perm (fetched.map ChainEvent.backfilled))
    (hlast : (fixture.map (·.ledger)).max? = some last) :
    (∃ e ∈ fetched, e.ledger = last) ∧ ∀ e ∈ fetched, e.ledger ≤ last := by
  obtain ⟨hmem, hle⟩ := List.max?_eq_some_iff.mp hlast
  have hledger : ∀ n, n ∈ fixture.map (·.ledger) ↔ ∃ e ∈ fetched, e.ledger = n := by
    intro n
    rw [(hfixture.map _).mem_iff, List.map_map, List.mem_map]
    exact exists_congr fun e => and_congr_right fun _ => Iff.rfl
  exact ⟨(hledger last).mp hmem, fun e he => hle _ ((hledger _).mpr ⟨e, he, rfl⟩)⟩

theorem loaded_live (hchain : SppChain chain) (hfetched : ∀ e ∈ fetched, e ∈ chain)
    (hfixture : fixture.Perm (fetched.map ChainEvent.backfilled))
    (hlast : (fixture.map (·.ledger)).max? = some last) :
    Live contractIds streamKey chain fetched tokenPos tip last
      ((loadBackfill streamKey fixture).run ⟨.empty, ⟨0, []⟩⟩).1 := by
  rw [run_loadBackfill hlast]
  refine ⟨⟨.ledger (some (last + 1)), ?_, rfl, ?_, ?_⟩, ?_, ?_⟩
  · rw [Db.getCursor_setCursor]
    exact decodeStage_rpc (.ledger (some (last + 1))) rfl
  · intro e _ hlt hcov
    exact absurd (Nat.le_of_lt_succ hcov) (Nat.not_le.mpr hlt)
  · intro _ e _ hle
    exact Nat.lt_succ_of_le hle
  · intro e he
    exact (mem_loaded hchain hfetched hfixture _).mpr ⟨e, he, rfl⟩
  · intro r hr
    exact Or.inl ((mem_loaded hchain hfetched hfixture r).mp hr)

variable {V : Type} {sdk : StellarSdk V} {network : Network} {config : SourceConfig}

theorem live_run (hchain : SppChain chain) (hfetched : ∀ e ∈ fetched, e ∈ chain)
    (hfixture : fixture.Perm (fetched.map ChainEvent.backfilled))
    (hlast : (fixture.map (·.ledger)).max? = some last) (htip : Monotone tip)
    (hrpc : ∀ t, RpcAnswers (liveRows chain) tokenPos (tip t) (network.fetchRpcEvents t))
    (steps : List WorkerStep) :
    ∃ w, w.db = dbAfterLoad sdk network config streamKey fixture steps ∧
      Live config.contractIds streamKey chain fetched tokenPos tip last w := by
  refine ⟨_, rfl, ?_⟩
  refine Sys.invariant_coupled
    (I := fun w _ => Live config.contractIds streamKey chain fetched tokenPos tip last w)
    (T := PollingLive sdk network config streamKey chain tokenPos tip last)
    (P := fun a => ∃ s, liveAct sdk network config streamKey s = a)
    (fun w pages p hp hw => hp.resume hchain hfetched htip hrpc hw) ?_ ?_ ?_
    (loaded_live hchain hfetched hfixture hlast) ?_
  · intro i j hij
    exact absurd rfl hij
  · rintro i p w pages ⟨s, hs⟩ hw
    cases s <;> cases hs
    exact .start
  · rintro f w pages ⟨s, hs⟩ hw
    cases s <;> cases hs
    refine ⟨⟨hw.cursor, hw.backfilled, hw.rows⟩, fun p hp => ?_⟩
    cases hp with
    | start => exact .start
    | calling => exact .calling
    | committing page hpage => exact .committing page ⟨hpage.cursor, hpage.served⟩
  · intro a ha
    obtain ⟨s, -, hs⟩ := List.mem_map.mp ha
    exact ⟨s, hs⟩

/-- A missed event stays out of the table. -/
theorem Live.not_present {w : World Net}
    (hchain : SppChain chain) (hfetched : ∀ e ∈ fetched, e ∈ chain)
    (hw : Live contractIds streamKey chain fetched tokenPos tip last w)
    (hahead : last ≤ tip 0) {e : ChainEvent} (he : e ∈ chain) (hle : e.ledger ≤ last)
    (hnot : e ∉ fetched) : ¬Present w.db e := by
  rintro (hr | hr)
  · rcases hw.rows _ hr with ⟨e', he', heq⟩ | ⟨x, ⟨e', he', hlt, rfl⟩, heq⟩
    · exact hchain.live_ne_backfilled he (hfetched e' he') (congrArg EventRow.id heq)
    · have hee : e = e' := hchain.eq_of_live he he'.1 (congrArg EventRow.id heq)
      subst hee
      exact absurd (hlt hahead) (Nat.not_lt.mpr hle)
  · rcases hw.rows _ hr with ⟨e', he', heq⟩ | ⟨x, ⟨e', he', -, rfl⟩, heq⟩
    · have hee : e = e' := hchain.eq_of_backfilled he (hfetched e' he') (congrArg EventRow.id heq)
      exact hnot (hee ▸ he')
    · exact hchain.live_ne_backfilled he'.1 he (congrArg EventRow.id heq).symm

end Load

theorem mem_chain_of_collected {chain : List ChainEvent} {shown : Nat → Nat}
    {schedule : List (String × List Nat)} {e : ChainEvent}
    (he : e ∈ collected chain shown schedule) : e ∈ chain := by
  obtain ⟨s, -, he⟩ := List.mem_flatMap.mp he
  exact mem_chain_of_shownOf he

/-- After a backfill and the load of its fixture, live polling misses no event
in any run if and only if every event up to the highest fetched ledger was
shown when its contract was fetched. An event that was not never enters the
table.

One way, the table right after the load is the fixture, and the cursor stands
behind it: an event that was not fetched is missing there already. The other
way, an event before the cursor is in the fixture or behind it; there the
invariant of `live_run` has it. That invariant also keeps what was missed out of
the table (`Live.not_present`). -/
theorem backfill_misses_nothing_iff {V : Type} (sdk : StellarSdk V) (network : Network)
    (config : SourceConfig) (streamKey : String) (chain : List ChainEvent) (shown : Nat → Nat)
    (archive : Archive) (horizon : Horizon) (schedule : List (String × List Nat))
    (tokenPos : String → Position) (tip : Nat → Nat) (fixture : List RawEvent)
    (hchain : SppChain chain) (hshown : Monotone shown)
    (harchive : ArchiveAnswers chain shown archive) (hhorizon : HorizonAnswers chain horizon)
    (htimes : (schedule.flatMap (·.2)).Pairwise (· ≤ ·))
    (hcontracts : ∀ c, c ∈ config.contractIds ↔ c ∈ schedule.map (·.1))
    (htip : Monotone tip)
    (hrpc : ∀ t, RpcAnswers (liveRows chain) tokenPos (tip t) (network.fetchRpcEvents t))
    (hfixture : backfillSpp archive horizon schedule = some fixture) (hne : fixture ≠ []) :
    ((∀ steps e, LiveEvent config.contractIds chain e →
        Behind tokenPos ((dbAfterLoad sdk network config streamKey fixture steps).getCursor
          streamKey) (e.row e.op) →
        Present (dbAfterLoad sdk network config streamKey fixture steps) e) ↔
      Undisturbed chain shown schedule) ∧
    ∀ e ∈ chain, (∃ e' ∈ collected chain shown schedule, e.ledger ≤ e'.ledger) →
      e ∉ collected chain shown schedule →
      (∀ e' ∈ collected chain shown schedule, e'.ledger ≤ tip 0) →
      ∀ steps, ¬Present (dbAfterLoad sdk network config streamKey fixture steps) e := by
  have hperm := backfillSpp_perm hchain hshown harchive hhorizon htimes hfixture
  have hfetched : ∀ e ∈ collected chain shown schedule, e ∈ chain :=
    fun e he => mem_chain_of_collected he
  obtain ⟨last, hlast⟩ : ∃ last, (fixture.map (·.ledger)).max? = some last :=
    Option.isSome_iff_exists.mp (List.isSome_max?_of_ne_nil (by simpa using hne))
  obtain ⟨⟨top, htop, htopLast⟩, hmax⟩ := fixture_ledger hperm hlast
  have hrun := @live_run _ _ _ _ streamKey _ _ V sdk _ config hchain hfetched
    hperm hlast htip hrpc
  refine ⟨⟨fun hmissed => ?_, fun hundisturbed => ?_⟩, ?_⟩
  · -- right after the load the cursor covers the ledgers of the fixture
    rintro e he hc ⟨e', he', hle⟩
    have hload : dbAfterLoad sdk network config streamKey fixture []
        = (Db.empty.insertEvents (fixture.map toNewEventRow)).setCursor streamKey
          (encodeRpcModeLedgerCursor (last + 1)) := by
      unfold dbAfterLoad
      rw [List.map_nil, Run.run_nil, run_loadBackfill hlast]
    have hpresent := hmissed [] e ⟨he, (hcontracts _).mpr hc⟩ ⟨.ledger (some (last + 1)), by
      rw [hload, Db.getCursor_setCursor]
      exact decodeStage_rpc (.ledger (some (last + 1))) rfl,
      Nat.lt_succ_of_le (hle.trans (hmax e' he'))⟩
    rw [hload] at hpresent
    rcases hpresent with hr | hr
    · obtain ⟨e'', he'', heq⟩ := (mem_loaded hchain hfetched hperm _).mp hr
      exact absurd (congrArg EventRow.id heq)
        (hchain.live_ne_backfilled he (hfetched e'' he''))
    · obtain ⟨e'', he'', heq⟩ := (mem_loaded hchain hfetched hperm _).mp hr
      rw [hchain.eq_of_backfilled he (hfetched e'' he'') (congrArg EventRow.id heq)]
      exact he''
  · intro steps e he hbehind
    obtain ⟨w, hdb, hw⟩ := hrun steps
    rw [← hdb] at hbehind ⊢
    by_cases hle : e.ledger ≤ last
    · exact Or.inr (hw.backfilled e (hundisturbed e he.1 ((hcontracts _).mp he.2)
        ⟨top, htop, htopLast ▸ hle⟩))
    · obtain ⟨token, htoken, hcov⟩ := hbehind
      obtain ⟨token', htoken', hok⟩ := hw.cursor
      rw [htoken] at htoken'
      cases htoken'
      exact Or.inl (hok.complete e he (Nat.lt_of_not_le hle) hcov)
  · rintro e he ⟨e', he', hle⟩ hnot hahead steps
    obtain ⟨w, hdb, hw⟩ := hrun steps
    rw [← hdb]
    exact hw.not_present hchain hfetched (htopLast ▸ hahead top htop) he
      (hle.trans (hmax e' he')) hnot

/-! ## Two contracts, fetched one after the other -/

/-- An archive that pages through the chain as it is shown. -/
def pagedArchive (chain : List ChainEvent) (shown : Nat → Nat) : Archive :=
  fun time contractId cursor limit =>
    let records := (shownOf chain shown contractId time).map ChainEvent.archived
    match cursor with
    | none => records.take limit
    | some id => (records.dropWhile fun r => decide (r.id ≠ id)).tail.take limit

theorem pagedArchive_answers (chain : List ChainEvent) (shown : Nat → Nat) :
    ArchiveAnswers chain shown (pagedArchive chain shown) :=
  ⟨fun _ _ _ => rfl, fun _ _ _ _ => rfl⟩

/-- The first event of a transaction in a ledger of its own. -/
def firstEvent (contractId : String) (ledger : Nat) : ChainEvent where
  ledger
  tx := 1
  op := 0
  index := 0
  contractId
  txHash := ledger.repr
  closeTime := 1784887928 + 5 * ledger
  topics := ["AAAADwAAABNuZXdfbnVsbGlmaWVyX2V2ZW50AA=="]
  value := "AAAAEQAAAAEAAAAA"
  tx_lt := by decide
  op_lt := first_operation_fits

/-- Two events of the pool, then one of the registry. -/
def smallChain : List ChainEvent :=
  [firstEvent "pool" 10, firstEvent "pool" 11, firstEvent "registry" 12]

theorem smallChain_ok : SppChain smallChain where
  archiveIds := by decide
  liveIds := by decide
  single := by decide

def smallHorizon : Horizon := fun cursor =>
  (smallChain.find? fun e => decide (toString ((toidOf e.ledger e.tx 0 : Nat) - 1 : Int) = cursor)).map
    fun e => ⟨e.txHash, (toidOf e.ledger e.tx 0).repr⟩

theorem smallHorizon_answers : HorizonAnswers smallChain smallHorizon := by
  intro e he
  simp only [smallChain, List.mem_cons, List.not_mem_nil, or_false] at he
  rcases he with rfl | rfl | rfl
  · decide +kernel
  · decide +kernel
  · decide +kernel

/-- The second event lands after the first request. -/
def growing (time : Nat) : Nat := if time = 0 then 1 else 3

theorem growing_monotone : Monotone growing := by
  intro a b hab
  unfold growing
  split <;> split <;> omega

/-- The RPC from ledger 12 on. -/
def smallNetwork : Network :=
  wholeNetwork (liveRows smallChain) (fun _ => toLex (0, toLex (0, toLex (0, 0)))) 12

theorem smallNetwork_answers (time : Nat) : RpcAnswers (liveRows smallChain)
    (fun _ => toLex (0, toLex (0, toLex (0, 0)))) (12 + time)
    (smallNetwork.fetchRpcEvents time) := wholeAnswer_answers _ _ _

theorem tip_monotone : Monotone fun time : Nat => 12 + time :=
  fun _ _ hab => Nat.add_le_add_left hab _

def smallConfig : SourceConfig := ⟨["pool", "registry"], 1, none⟩

/-- The pool is asked before its second event, the registry after. -/
def smallSchedule : List (String × List Nat) := [("pool", [0]), ("registry", [1])]

def smallFixture : List RawEvent :=
  [(firstEvent "pool" 10).backfilled, (firstEvent "registry" 12).backfilled]

theorem smallFixture_eq :
    backfillSpp (pagedArchive smallChain growing) smallHorizon smallSchedule
      = some smallFixture := by decide +kernel

/-- The pool's second event lies behind the cursor after the load, and never
enters the table. -/
theorem pool_event_missed :
    backfillSpp (pagedArchive smallChain growing) smallHorizon smallSchedule
        = some smallFixture ∧
      LiveEvent smallConfig.contractIds smallChain (firstEvent "pool" 11) ∧
      Behind (fun _ => toLex (0, toLex (0, toLex (0, 0))))
        ((dbAfterLoad mergeSdk smallNetwork smallConfig "spp" smallFixture []).getCursor "spp")
        ((firstEvent "pool" 11).row 0) ∧
      ∀ steps, ¬Present (dbAfterLoad mergeSdk smallNetwork smallConfig "spp" smallFixture steps)
        (firstEvent "pool" 11) := by
  refine ⟨smallFixture_eq, ⟨by decide, by decide⟩, ⟨.ledger (some 13), by decide +kernel, ?_⟩, ?_⟩
  · exact Nat.lt_of_sub_eq_succ rfl
  · intro steps
    obtain ⟨w, hdb, hw⟩ := @live_run _ [firstEvent "pool" 10, firstEvent "registry" 12]
      smallFixture 12 "spp" _ _ _ mergeSdk _ smallConfig smallChain_ok (by decide) (List.Perm.refl _) rfl tip_monotone
      smallNetwork_answers steps
    rw [← hdb]
    exact hw.not_present smallChain_ok (by decide) le_rfl (by decide) (by decide) (by decide)

/-- Asked after all events, the archive shows them all, and nothing is
missed. -/
theorem backfill_misses_nothing_iff_small :
    Undisturbed smallChain growing [("pool", [1]), ("registry", [2])] ∧
      ∀ steps e, LiveEvent smallConfig.contractIds smallChain e →
        Behind (fun _ => toLex (0, toLex (0, toLex (0, 0))))
          ((dbAfterLoad mergeSdk smallNetwork smallConfig "spp"
            (smallChain.map ChainEvent.backfilled) steps).getCursor "spp") (e.row e.op) →
        Present (dbAfterLoad mergeSdk smallNetwork smallConfig "spp"
          (smallChain.map ChainEvent.backfilled) steps) e := by
  have hundisturbed : Undisturbed smallChain growing [("pool", [1]), ("registry", [2])] := by
    intro e he _ _
    revert e
    decide
  refine ⟨hundisturbed, ((backfill_misses_nothing_iff mergeSdk smallNetwork smallConfig "spp"
    smallChain growing (pagedArchive smallChain growing) smallHorizon
    [("pool", [1]), ("registry", [2])] _ (fun time => 12 + time)
    (smallChain.map ChainEvent.backfilled) smallChain_ok growing_monotone
    (pagedArchive_answers _ _) smallHorizon_answers (by decide) (fun c => Iff.rfl) tip_monotone
    smallNetwork_answers (by decide +kernel) (by decide)).1).mpr hundisturbed⟩

end Backfill

end PrivacyWallet
