import PrivacyWallet.Api.Pagination
import PrivacyWallet.Backfill.Archive
import PrivacyWallet.Wallet.Events

/-!
# The wallet's event sources

`ApiIndexerClient.fetchEvents` pages through this repository's own API, and
`fetchEvents` through the RPC; `hybridFetchEvents` takes what is older than
the RPC's retention from the first and the rest from the second. The loops
end when the answers say so, which nothing bounds: `fuel` is the number of
requests that a call may make.

The API's worker lags behind the chain: at any time the table holds a prefix
of it, which may end in the middle of a ledger (`Lagging`). What a call gets
from it is found in three steps:

- **a page** (`getPage_feed`): the first rows past the place that the loop has
  got to, as the table is at the page's last query, and a cursor if there are
  more of them;
- **the loop** (`apiFetchLoop_returned`): by induction on the requests, what
  was received is always all that the table holds up to the loop's place, so
  that the last page completes it. The cursors of two pages differ, and none is
  empty: the loop's other exits are never taken;
- **the chain** (`apiFetchEvents_returned`): so a call that returns has what is
  expected of the prefix that the table holds, and all that is expected if and
  only if the rest of the chain has none of it (`covers_iff`).

What a sync makes of this and of the RPC's pages is in `CtSyncs`.
-/

namespace PrivacyWallet

namespace Wallet

open Indexer Bootnode Text

/-! ## The two servers -/

/-- An event of the RPC. -/
structure RpcEvent (V : Type) where
  id : String
  ledger : Nat
  txHash : String
  topic : List V
  value : V

/-- Where a request to the RPC starts. -/
inductive RpcStart where
  | startLedger (ledger : Nat)
  | cursor (cursor : String)

structure GetEventsRequest where
  contractId : String
  start : RpcStart
  limit : Nat

structure GetEventsResponse (V : Type) where
  events : List (RpcEvent V)
  cursor : Option String
  latestLedger : Nat

/-- What the RPC answers; an error is a throw. -/
structure Rpc (V : Type) where
  /-- `oldestLedger` of `getHealth` -/
  getHealth : Except String (Option Nat)
  getEvents : GetEventsRequest → Except String (GetEventsResponse V)

/-- The API's database, whether the API can be reached, and the RPC. -/
structure Backend (V : Type) where
  db : Db
  online : Bool
  rpc : Rpc V

structure FetchEventsResult (Point : Type) where
  events : List (ConfidentialEvent Point)
  cursor : Option String
  latestLedger : Nat

/-- How a call ends; `paging` if its fuel is used up. -/
inductive Fetched (Point : Type) where
  | returned (result : FetchEventsResult Point)
  | threw (message : String)
  | paging

variable {V Point : Type} (sdk : EventSdk V Point)

/-! ## `ApiIndexerClient.fetchEvents` -/

structure FetchOpts where
  contractId : String
  startLedger : Option Nat
  endLedger : Option Nat
  pageLimit : Option Nat

def defaultPageLimit : Nat := 200

/-- The query of the URL. -/
def apiQuery (opts : FetchOpts) (cursor : Option String) : Api.EventsQuerystring where
  startLedger :=
    match cursor with
    | some _ => none
    | none => opts.startLedger.map fun l : Nat => .integer l
  endLedger := opts.endLedger.map fun l : Nat => .integer l
  cursor := cursor.map .text
  limit := some (.integer (opts.pageLimit.getD defaultPageLimit))

/-- The body of a `400`. -/
def errorBody (e : Api.ErrorResponse) : String :=
  "\x7b\"error\":\x7b\"code\":\"" ++ e.code ++ "\",\"message\":\"" ++ e.message ++ "\"\x7d\x7d"

/-- One `GET`. The text of a server error, which is the database's, is left
out. -/
def getPage (opts : FetchOpts) (cursor : Option String) :
    Async (Backend V) (Except String Api.EventsResponse) := do
  let backend ← Async.read
  if backend.online then do
    match ← (Api.eventsRoute opts.contractId (apiQuery opts cursor)).observe Backend.db with
    | some (.ok page) => pure (.ok page)
    | some (.error e) => pure (.error
        ("ct-indexer: GET events 400: " ++ String.ofList ((errorBody e).toList.take 200)))
    | none => pure (.error "ct-indexer: GET events 500: ")
  else pure (.error "Failed to fetch")

/-- The loop, after the pages that `cursor` and `out` tell of. -/
def apiFetchLoop (opts : FetchOpts) :
    Nat → Option String → List (ConfidentialEvent Point) → Async (Backend V) (Fetched Point)
  | 0, _, _ => pure .paging
  | fuel + 1, cursor, out => do
      match ← getPage opts cursor with
      | .error message => pure (.threw message)
      | .ok page =>
          match parsePage sdk page.events with
          | .error message => pure (.threw message)
          | .ok events =>
              let out := out ++ events
              match page.cursor with
              | none => pure (.returned ⟨out, none, page.latestLedger⟩)
              | some next =>
                  if next = "" ∨ page.events = [] ∨ cursor = some next then
                    pure (.returned ⟨out, none, page.latestLedger⟩)
                  else apiFetchLoop opts fuel (some next) out

def apiFetchEvents (opts : FetchOpts) (fuel : Nat) : Async (Backend V) (Fetched Point) :=
  apiFetchLoop sdk opts fuel none []

/-! ## `fetchEvents` of the RPC -/

/-- The ledger that a paging token begins with. -/
def cursorLedger (cursor : String) : Except String Nat := do
  let toid ← bigInt ((split '-' cursor).headD "")
  pure (toid / 2 ^ 32)

/-- The operation index and the text of the event index, from an RPC id. -/
def rpcEventCoords (id : String) : Except String (Nat × String) := do
  let toid ← bigInt ((split '-' id).headD "")
  let eventIndex := ((number ((split '-' id).getD 1 "0")).map Nat.repr).getD "NaN"
  pure (toid % 2 ^ 12, eventIndex)

def parseEvent (event : RpcEvent V) : Except String (Option (ConfidentialEvent Point)) :=
  match event.topic with
  | [] => pure none
  | nameVal :: _ => do
      let name ← sdk.sym nameVal
      if name ∉ known then pure none
      else do
        let (opIndex, eventIndex) ← rpcEventCoords event.id
        let data ← dataMapOf sdk.toStellarSdk event.value
        buildConfidentialEvent sdk name event.ledger event.txHash
          s!"{event.ledger}-{event.txHash}-{opIndex}-{eventIndex}" event.topic data

/-- The events of a response, in order. -/
def parseResponse (events : List (RpcEvent V)) :
    Except String (List (ConfidentialEvent Point)) := do
  let parsed ← events.mapM (parseEvent sdk)
  pure (parsed.filterMap id)

def rpcPageLimit : Nat := 100

/-- Whether the loop ends on a response, when `prevCursor` was the resume
cursor before it. -/
def lastResponse (response : GetEventsResponse V) (prevCursor : Option String) :
    Except String Bool :=
  match response.cursor with
  | none => pure true
  | some cursor =>
      if cursor = "" then pure true
      else do
        let ledger ← cursorLedger cursor
        pure (decide (response.latestLedger ≤ ledger) || decide (prevCursor = some cursor))

def rpcFetchLoop (contractId : String) :
    Nat → RpcStart → Option String → List (ConfidentialEvent Point) →
      Async (Backend V) (Fetched Point)
  | 0, _, _, _ => pure .paging
  | fuel + 1, start, prevCursor, out => do
      let backend ← Async.read
      match backend.rpc.getEvents ⟨contractId, start, rpcPageLimit⟩ with
      | .error message => pure (.threw message)
      | .ok response =>
          match parseResponse sdk response.events, lastResponse response prevCursor with
          | .error message, _ => pure (.threw message)
          | .ok _, .error message => pure (.threw message)
          | .ok events, .ok true =>
              pure (.returned ⟨out ++ events, response.cursor, response.latestLedger⟩)
          | .ok events, .ok false =>
              rpcFetchLoop contractId fuel (.cursor (response.cursor.getD "")) response.cursor
                (out ++ events)

def rpcFetchEvents (contractId : String) (start : RpcStart) (fuel : Nat) :
    Async (Backend V) (Fetched Point) :=
  match start with
  | .startLedger _ => rpcFetchLoop sdk contractId fuel start none []
  | .cursor cursor => rpcFetchLoop sdk contractId fuel start (some cursor) []

/-! ## `hybridFetchEvents` -/

def rpcSeamMargin : Nat := 60

/-- One event for each id, the first one; then stably by ledger. -/
def dedupeById (events : List (ConfidentialEvent Point)) : List (ConfidentialEvent Point) :=
  (Table.insertAllNew (·.cursor) [] events).insertionSort (fun a b => a.ledger ≤ b.ledger)

def rpcOldestLedger : Async (Backend V) Nat := do
  let backend ← Async.read
  match backend.rpc.getHealth with
  | .ok oldestLedger => pure (oldestLedger.getD 0)
  | .error _ => pure 0

/-- The first ledger still needed. -/
def nextLedger (fromLedger : Nat) (startCursor : Option String) : Except String Nat :=
  match startCursor with
  | none => .ok fromLedger
  | some cursor =>
      if cursor = "" then .ok fromLedger
      else do
        let ledger ← cursorLedger cursor
        pure (ledger + 1)

/-- The backfill from the API up to the seam, then the RPC from the seam
on. -/
def backfillAndTail (contractId : String) (next rpcOldest fuel : Nat) :
    Async (Backend V) (Fetched Point) := do
  let seam := rpcOldest + rpcSeamMargin
  match ← apiFetchEvents sdk ⟨contractId, some next, some (seam - 1), none⟩ fuel with
  | .threw message => pure (.threw message)
  | .paging => pure .paging
  | .returned old =>
      match ← rpcFetchEvents sdk contractId (.startLedger seam) fuel with
      | .threw message => pure (.threw message)
      | .paging => pure .paging
      | .returned recent =>
          pure (.returned
            ⟨dedupeById (old.events ++ recent.events), recent.cursor, recent.latestLedger⟩)

/-- The RPC alone. -/
def rpcOnly (contractId : String) (start : RpcStart) (fuel : Nat) :
    Async (Backend V) (Fetched Point) := do
  match ← rpcFetchEvents sdk contractId start fuel with
  | .threw message => pure (.threw message)
  | .paging => pure .paging
  | .returned recent =>
      pure (.returned ⟨dedupeById recent.events, recent.cursor, recent.latestLedger⟩)

def hybridFetchEvents (contractId : String) (indexer : Bool) (fromLedger : Nat)
    (startCursor : Option String) (fuel : Nat) : Async (Backend V) (Fetched Point) :=
  match nextLedger fromLedger startCursor with
  | .error message => pure (.threw message)
  | .ok next => do
      let warm := startCursor.any fun cursor => decide (cursor ≠ "")
      let rpcOldest ← if indexer || !warm then rpcOldestLedger else pure 0
      if indexer && decide (0 < rpcOldest) && decide (next < rpcOldest) then
        backfillAndTail sdk contractId next rpcOldest fuel
      else if warm then
        rpcOnly sdk contractId (.cursor (startCursor.getD "")) fuel
      else
        rpcOnly sdk contractId
          (.startLedger (max fromLedger (if 0 < rpcOldest then rpcOldest + 1 else fromLedger))) fuel

/-! ## An API that lags -/

/-- A chain whose ids are the natural ones. -/
structure NaturalChain (chain : List RawEvent) : Prop extends ChainOk chain where
  natural : ∀ e ∈ chain,
    e.id = Backfill.naturalEventId e.ledger e.txHash e.opIndex e.eventIndex

/-- The API's table along the accesses of a call holds a prefix of the chain,
which may grow. -/
def Lagging (chain : List RawEvent) (backends : Nat → Backend V) : Prop :=
  ∃ indexed : Nat → Nat, Monotone indexed ∧
    ∀ i, (backends i).db.events.Perm ((chain.take (indexed i)).map toNewEventRow)

/-- The events of the contract in the range. -/
def FetchOpts.inRange (opts : FetchOpts) (e : RawEvent) : Bool :=
  inScope [opts.contractId] opts.endLedger (toNewEventRow e)
    && decide (opts.startLedger.getD 0 ≤ e.ledger)

/-- The confidential event that an event of the chain is, if it is one. -/
def confidential (e : RawEvent) : Option (ConfidentialEvent Point) :=
  eventOf sdk (Api.eventItem (toNewEventRow e))

/-- The confidential events of the contract in the range, in chain order. -/
def expected (chain : List RawEvent) (opts : FetchOpts) : List (ConfidentialEvent Point) :=
  (chain.filter opts.inRange).filterMap (confidential sdk)

/-- The table holds every one of them. -/
def Covers (chain : List RawEvent) (opts : FetchOpts) (db : Db) : Prop :=
  ∀ e ∈ chain, opts.inRange e = true → (confidential sdk e).isSome = true →
    toNewEventRow e ∈ db.events

variable {sdk} {chain : List RawEvent} {backends : Nat → Backend V} {opts : FetchOpts}

theorem Lagging.shift (h : Lagging chain backends) (n : Nat) :
    Lagging chain fun i => backends (n + i) := by
  obtain ⟨indexed, hmono, hheld⟩ := h
  exact ⟨fun i => indexed (n + i), fun i j hij => hmono (Nat.add_le_add_left hij n),
    fun i => hheld (n + i)⟩

theorem Lagging.grow (h : Lagging chain backends) (hchain : ChainOk chain) :
    Api.EventsGrow fun i => (backends i).db := by
  obtain ⟨indexed, hmono, hheld⟩ := h
  have hrows : (chain.map toNewEventRow).Pairwise (fun a b => a.position < b.position) :=
    List.pairwise_map.mpr (List.pairwise_map.mp hchain.ordered)
  have hpre : ∀ i, ((chain.take (indexed i)).map toNewEventRow).Sublist
      (chain.map toNewEventRow) := fun i => (List.take_sublist _ _).map _
  refine ⟨fun i => ?_, fun i => ?_, fun i => ?_⟩
  · rw [((hheld i).map _).nodup_iff]
    refine List.Nodup.sublist ((hpre i).map _) ?_
    rw [List.map_map]
    exact hchain.ids
  · rw [((hheld i).map _).nodup_iff]
    refine List.Nodup.sublist ((hpre i).map _) ?_
    exact (List.pairwise_map.mpr hrows).imp fun h => h.ne
  · -- what comes to the prefix is the next piece of the chain
    have hsplit : chain.take (indexed (i + 1))
        = chain.take (indexed i) ++ (chain.take (indexed (i + 1))).drop (indexed i) := by
      have h := List.take_append_drop (indexed i) (chain.take (indexed (i + 1)))
      rw [List.take_take, Nat.min_eq_left (hmono (Nat.le_succ i))] at h
      exact h.symm
    refine ⟨((chain.take (indexed (i + 1))).drop (indexed i)).map toNewEventRow, ?_, ?_⟩
    · refine (hheld (i + 1)).trans ?_
      rw [hsplit, List.map_append]
      exact ((hheld i).symm.append_right _).trans (by rw [← hsplit])
    · intro r hr s hs
      have hordered := hrows.sublist (hpre (i + 1))
      rw [hsplit, List.map_append] at hordered
      exact (List.pairwise_append.mp hordered).2.2 r ((hheld i).mem_iff.mp hr) s hs

theorem Lagging.mem_chain (h : Lagging chain backends) {i : Nat} {r : EventRow}
    (hr : r ∈ (backends i).db.events) : ∃ e ∈ chain, toNewEventRow e = r := by
  obtain ⟨indexed, -, hheld⟩ := h
  obtain ⟨e, he, rfl⟩ := List.mem_map.mp ((hheld i).mem_iff.mp hr)
  exact ⟨e, List.mem_of_mem_take he, rfl⟩

/-! ## The pages of the API -/

/-- The rows that a call asks for. -/
def FetchOpts.rows (opts : FetchOpts) (db : Db) : List EventRow :=
  Api.requested [opts.contractId] opts.endLedger (.ledger (opts.startLedger.getD 0)) db

/-- The page at place `c`, as the loop asks for it. -/
def FetchOpts.window (opts : FetchOpts) (db : Db) (c : Option Api.Position) : List EventRow :=
  Keyset.window EventRow.position (opts.rows db) c
    (Api.clampLimit (some (opts.pageLimit.getD defaultPageLimit)))

/-- The loop with this cursor goes on from the place `c`. -/
inductive LoopAt (opts : FetchOpts) (db : Db) : Option String → Option Api.Position → Prop where
  | start : LoopAt opts db none none
  | after {r : EventRow} (hr : r ∈ opts.rows db) :
      LoopAt opts db (some (Api.eventCursor r)) (some r.position)

/-- Where the request of the loop starts. -/
def loopStart (opts : FetchOpts) : Option String → EventsStart
  | none => .ledger (opts.startLedger.getD 0)
  | some cursor => .cursor cursor

/-- The request of the loop is a request of a client that follows cursors. -/
theorem eventsRoute_apiQuery (opts : FetchOpts) (cursor : Option String) :
    Api.eventsRoute opts.contractId (apiQuery opts cursor)
      = Api.eventsRoute opts.contractId (Api.eventsQuery (loopStart opts cursor) opts.endLedger
          (some (opts.pageLimit.getD defaultPageLimit))) := by
  cases cursor with
  | some cursor => rfl
  | none =>
      cases hstart : opts.startLedger with
      | some startLedger =>
          unfold apiQuery Api.eventsQuery loopStart
          rw [hstart]
          rfl
      | none =>
          -- no start ledger is the ledger `0`
          have hend : Api.parseIntParam "endLedger"
              (opts.endLedger.map fun l : Nat => .integer l) = .ok opts.endLedger :=
            Api.parseIntParam_map _ _
          have hlimit := Api.parseIntParam_integer "limit" (opts.pageLimit.getD defaultPageLimit)
          have hzero := Api.parseIntParam_integer "startLedger" 0
          unfold Api.eventsRoute Api.eventsNumbers apiQuery Api.eventsQuery
          simp only [loopStart, hstart, hend, hlimit, hzero, Option.getD_none, Option.map_none,
            Option.map_some]
          rfl

theorem LoopAt.eventsAt {db : Db} {cursor : Option String} {c : Option Api.Position}
    (h : LoopAt opts db cursor c) :
    Api.EventsAt [opts.contractId] opts.endLedger (.ledger (opts.startLedger.getD 0))
      Api.eventCursor db (loopStart opts cursor) c := by
  cases h with
  | start => exact @Api.EventsAt.start _ _ (.ledger (opts.startLedger.getD 0)) _ _ trivial
  | after hr => exact .after hr

/-- One `GET`: the page, as the table is when its rows are read. -/
theorem getPage_feed (hlag : Lagging chain backends) (hchain : ChainOk chain)
    {cursor : Option String} {c : Option Api.Position}
    (hat : LoopAt opts (backends 0).db cursor c) {n : Nat} {page : Api.EventsResponse}
    (h : (getPage opts cursor).feed backends = (n, .ok page)) :
    ∃ j, n = j + 2 ∧ page.events = (opts.window (backends j).db c).map Api.eventItem ∧
      page.cursor = if Api.clampLimit (some (opts.pageLimit.getD defaultPageLimit))
          < ((opts.rows (backends j).db).filter fun r => Keyset.past c r.position).length
        then (opts.window (backends j).db c).getLast?.map Api.eventCursor else none := by
  have hgrow := hlag.grow hchain
  have hat' : Api.EventsAt _ _ _ _ (backends (0 + 1)).db _ _ :=
    hat.eventsAt.mono (hgrow.appended 0)
  have hgrow' : Api.EventsGrow fun i => (backends (i + 1)).db := ⟨fun i => hgrow.ids (i + 1),
    fun i => hgrow.positions (i + 1), fun i => hgrow.appended (i + 1)⟩
  rw [getPage, Async.feed_read_bind] at h
  by_cases honline : (backends 0).online = true
  · rw [if_pos honline, Async.feed_bind, Async.feed_observe, eventsRoute_apiQuery] at h
    -- an answer with a page tells that its values fit the columns
    have hfits : Api.startFits opts.contractId opts.endLedger (loopStart opts cursor) = true := by
      generalize hreply : (Api.eventsRoute opts.contractId (Api.eventsQuery (loopStart opts cursor)
        opts.endLedger (some (opts.pageLimit.getD defaultPageLimit)))).feed _ = reply at h
      obtain ⟨m, _ | _ | response⟩ := reply
      · cases h
      · cases h
      · exact Api.startFits_of_ok (hgrow'.ids 0) hat' hreply
    obtain ⟨j, latestLedger, hfeed⟩ := Api.eventsRoute_feed hgrow' hat' hfits
      (some (opts.pageLimit.getD defaultPageLimit))
    rw [hfeed] at h
    cases h
    exact ⟨j + 1, rfl, rfl, rfl⟩
  · rw [if_neg honline] at h
    cases h

theorem eventCursor_ne_empty (hlag : Lagging chain backends) (hchain : NaturalChain chain) {i : Nat}
    {r : EventRow} (hr : r ∈ (backends i).db.events) : Api.eventCursor r ≠ "" := by
  obtain ⟨e, he, rfl⟩ := hlag.mem_chain hr
  intro hempty
  have hid : Api.decodeCursor (.text (Api.eventCursor (toNewEventRow e))) = e.id :=
    Api.decode_encodeCursor _
  have hnatural : e.id.toList.length = 0 := by
    rw [← hid, hempty]
    rfl
  rw [hchain.natural e he] at hnatural
  unfold Backfill.naturalEventId at hnatural
  simp at hnatural

/-- The cursor of a page is not the one before it. -/
theorem LoopAt.cursor_ne (hlag : Lagging chain backends) (hchain : NaturalChain chain)
    {cursor : Option String} {c : Option Api.Position}
    (hat : LoopAt opts (backends 0).db cursor c) {j : Nat} {last : EventRow}
    (hlast : last ∈ opts.rows (backends j).db) (hpast : Keyset.past c last.position = true) :
    cursor ≠ some (Api.eventCursor last) := by
  have hgrow := hlag.grow hchain.toChainOk
  cases hat with
  | start => simp
  | @after r hr =>
      intro heq
      rw [Option.some.injEq] at heq
      have hid : r.id = last.id := by
        have h := congrArg (fun cursor => Api.decodeCursor (.text cursor)) heq
        unfold Api.eventCursor at h
        rwa [Api.decode_encodeCursor, Api.decode_encodeCursor] at h
      have hmem : r ∈ (backends j).db.events :=
        (hgrow.le (Nat.zero_le j)).subset r (Api.mem_requested.mp hr).1
      have hsame := Table.keyedBy_of_nodup (hgrow.ids j) r last hmem
        (Api.mem_requested.mp hlast).1 hid
      rw [hsame] at hpast
      exact lt_irrefl _ (Keyset.past_some.mp hpast)

/-- A call that returns has the requested rows, as they are when the rows of
its last page are read. By induction on the bound of the loop, with
`Keyset.Collected` for what was received: a page of new rows moves the place
on, an answer without a cursor ends the call. -/
theorem apiFetchLoop_returned (hchain : NaturalChain chain) :
    ∀ (fuel : Nat) (backends : Nat → Backend V) (cursor : Option String)
      (c : Option Api.Position) (received : List EventRow) (n : Nat)
      (result : FetchEventsResult Point), Lagging chain backends →
      LoopAt opts (backends 0).db cursor c →
      Keyset.Collected EventRow.position (· ∈ opts.rows (backends 0).db)
        (opts.rows (backends 0).db) c received →
      (apiFetchLoop sdk opts fuel cursor
        ((received.map Api.eventItem).filterMap (eventOf sdk))).feed backends
        = (n, .returned result) →
      ∃ (j : Nat) (rows : List EventRow), n = j + 2 ∧
        rows.Pairwise (fun a b => a.position < b.position) ∧
        (∀ r, r ∈ rows ↔ r ∈ opts.rows (backends j).db) ∧
        result.events = (rows.map Api.eventItem).filterMap (eventOf sdk)
  | 0, _, _, _, _, _, _, _, _, _, h => by cases h
  | fuel + 1, backends, cursor, c, received, n, result, hlag, hat, hc, h => by
      have hgrow := hlag.grow hchain.toChainOk
      have hgrows : Keyset.Grows EventRow.position opts.rows _ fun i => (backends i).db :=
        hgrow.grows
      rw [apiFetchLoop, Async.feed_bind] at h
      rcases hget : (getPage opts cursor).feed backends with ⟨m, message | page⟩
      · rw [hget] at h
        cases h
      · rw [hget] at h
        dsimp only at h
        obtain ⟨j, rfl, hevents, hcursor⟩ := getPage_feed hlag hchain.toChainOk hat hget
        have hcj := hc.grew (hgrows.mono 0 j (Nat.zero_le j)) (hgrows.late 0 j (Nat.zero_le j))
        cases hparse : parsePage sdk page.events with
        | error message =>
            rw [hparse] at h
            cases h
        | ok events =>
            rw [hparse] at h
            dsimp only at h
            rw [parsePage_eq hparse, hevents, ← List.filterMap_append, ← List.map_append] at h
            by_cases hmore : Api.clampLimit (some (opts.pageLimit.getD defaultPageLimit))
              < ((opts.rows (backends j).db).filter fun r => Keyset.past c r.position).length
            · rw [if_pos hmore] at hcursor
              have hne : opts.window (backends j).db c ≠ [] :=
                List.ne_nil_of_length_pos
                  ((Keyset.length_window hmore).symm ▸ Api.one_le_clampLimit _)
              have hlast := List.getLast?_eq_getLast_of_ne_nil hne
              generalize (opts.window (backends j).db c).getLast hne = last at hlast
              obtain ⟨hmem, hpast⟩ := Keyset.mem_of_mem_window (List.mem_of_getLast? hlast)
              have hnext := hat.cursor_ne hlag hchain hmem hpast
              have hempty : Api.eventCursor last ≠ "" :=
                eventCursor_ne_empty hlag hchain (Api.mem_requested.mp hmem).1
              rw [hcursor, hlast, Option.map_some] at h
              dsimp only at h
              rw [if_neg (by simp [hempty, hne, hnext])] at h
              have hpage := (hcj.page (hgrows.distinct j) (fun r hr => hr) hlast).grew
                (hgrows.mono j (j + 2) (by omega)) (hgrows.late j (j + 2) (by omega))
              rcases hrest : (apiFetchLoop sdk opts fuel (some (Api.eventCursor last))
                (((received ++ opts.window (backends j).db c).map Api.eventItem).filterMap
                  (eventOf sdk))).feed (fun i => backends (j + 2 + i)) with ⟨m, fetched⟩
              rw [hrest] at h
              cases h
              obtain ⟨j', rows, rfl, hrows⟩ := apiFetchLoop_returned hchain fuel
                (fun i => backends (j + 2 + i)) _ _ _ _ _ (hlag.shift (j + 2))
                (.after (hgrows.mono j (j + 2) (by omega) last hmem)) hpage hrest
              exact ⟨j + 2 + j', rows, rfl, hrows⟩
            · -- the last page
              rw [if_neg hmore] at hcursor
              rw [hcursor] at h
              cases h
              exact ⟨j, _, rfl, hcj.append_sorted (hgrows.distinct j) _,
                fun r => ⟨hcj.append_held _ r, hcj.rest (fun r hr => hr) (not_lt.mp hmore) r⟩, rfl⟩

/-! ## When the call is complete -/

theorem mem_rows_toNewEventRow {db : Db} {e : RawEvent} :
    toNewEventRow e ∈ opts.rows db ↔ toNewEventRow e ∈ db.events ∧ opts.inRange e = true := by
  rw [FetchOpts.rows, Api.mem_requested, FetchOpts.inRange, Bool.and_eq_true]
  rfl

/-- The rows read are those of the chain's prefix, in chain order. -/
theorem rows_eq (hchain : ChainOk chain) {indexed : Nat} {db : Db}
    (hheld : db.events.Perm ((chain.take indexed).map toNewEventRow)) {rows : List EventRow}
    (hsorted : rows.Pairwise fun a b => a.position < b.position)
    (hrows : ∀ r, r ∈ rows ↔ r ∈ opts.rows db) :
    rows = ((chain.take indexed).filter opts.inRange).map toNewEventRow := by
  have hpre : (((chain.take indexed).filter opts.inRange).map toNewEventRow).Pairwise
      fun a b => a.position < b.position := by
    refine List.Pairwise.sublist ?_ (List.pairwise_map.mpr (List.pairwise_map.mp hchain.ordered))
    exact (List.filter_sublist.trans (List.take_sublist _ _)).map _
  have hperm : rows.Perm (((chain.take indexed).filter opts.inRange).map toNewEventRow) := by
    refine (List.perm_ext_iff_of_nodup (Keyset.nodup_of_sorted hsorted)
      (Keyset.nodup_of_sorted hpre)).mpr fun r => ?_
    rw [hrows]
    constructor
    · intro hr
      obtain ⟨e, he, rfl⟩ := List.mem_map.mp (hheld.mem_iff.mp (Api.mem_requested.mp hr).1)
      exact List.mem_map_of_mem (List.mem_filter.mpr ⟨he, (mem_rows_toNewEventRow.mp hr).2⟩)
    · intro hr
      obtain ⟨e, he, rfl⟩ := List.mem_map.mp hr
      obtain ⟨he, hrange⟩ := List.mem_filter.mp he
      exact mem_rows_toNewEventRow.mpr ⟨hheld.mem_iff.mpr (List.mem_map_of_mem he), hrange⟩
  exact hperm.eq_of_pairwise (fun a b _ _ hab hba => absurd hba (not_lt.mpr hab.le)) hsorted hpre

/-- What a table covers is what the rest of the chain does not have. -/
theorem covers_iff (hchain : ChainOk chain) {indexed : Nat} {db : Db}
    (hheld : db.events.Perm ((chain.take indexed).map toNewEventRow)) :
    Covers sdk chain opts db ↔ expected sdk (chain.drop indexed) opts = [] := by
  unfold Covers expected
  rw [List.filterMap_eq_nil_iff]
  constructor
  · intro hcovers e he
    obtain ⟨hdrop, hrange⟩ := List.mem_filter.mp he
    by_contra hsome
    have hrow := hcovers e (List.mem_of_mem_drop hdrop) hrange (Option.isSome_iff_ne_none.mpr hsome)
    obtain ⟨e', he', heq⟩ := List.mem_map.mp (hheld.mem_iff.mp hrow)
    have hids := hchain.ids
    rw [← List.take_append_drop indexed chain, List.map_append] at hids
    exact (List.nodup_append.mp hids).2.2 e'.id (List.mem_map_of_mem he') e.id
      (List.mem_map_of_mem hdrop) (congrArg EventRow.id heq)
  · intro hnone e he hrange hsome
    rw [← List.take_append_drop indexed chain, List.mem_append] at he
    rcases he with he | he
    · exact hheld.mem_iff.mpr (List.mem_map_of_mem he)
    · rw [hnone e (List.mem_filter.mpr ⟨he, hrange⟩)] at hsome
      cases hsome

theorem expected_append (l m : List RawEvent) :
    expected sdk (l ++ m) opts = expected sdk l opts ++ expected sdk m opts := by
  unfold expected
  rw [List.filter_append, List.filterMap_append]

/-- A call that returns has what is expected of the chain's prefix that the
table holds when the rows of its last page are read. -/
theorem apiFetchEvents_returned (hchain : NaturalChain chain) {indexed : Nat → Nat}
    (hmono : Monotone indexed)
    (hheld : ∀ i, (backends i).db.events.Perm ((chain.take (indexed i)).map toNewEventRow))
    {fuel n : Nat} {result : FetchEventsResult Point}
    (h : (apiFetchEvents sdk opts fuel).feed backends = (n, .returned result)) :
    ∃ j, n = j + 2 ∧ result.events = expected sdk (chain.take (indexed j)) opts := by
  obtain ⟨j, rows, hn, hsorted, hrows, hevents⟩ := apiFetchLoop_returned hchain fuel backends
    none none [] n result ⟨indexed, hmono, hheld⟩ .start (.start _ _) h
  refine ⟨j, hn, ?_⟩
  rw [hevents, rows_eq hchain.toChainOk (hheld j) hsorted hrows, List.map_map,
    List.filterMap_map]
  rfl

/-! ## Ids and merging -/

theorem confidential_eq {e : RawEvent} {event : ConfidentialEvent Point}
    (h : confidential sdk e = some event) : event.ledger = e.ledger ∧ event.cursor = e.id :=
  eventOf_eq h

theorem mem_dedupeById {events : List (ConfidentialEvent Point)} {event : ConfidentialEvent Point} :
    event ∈ dedupeById events ↔ event ∈ Table.insertAllNew (·.cursor) [] events :=
  List.mem_insertionSort _

theorem mem_of_mem_dedupeById {events : List (ConfidentialEvent Point)}
    {event : ConfidentialEvent Point} (h : event ∈ dedupeById events) : event ∈ events := by
  rcases Table.mem_of_mem_insertAllNew (mem_dedupeById.mp h) with h | h
  · cases h
  · exact h

/-- A history that the API returns is complete if and only if the API's table
holds, when the rows of the last page are read, every confidential event of the
contract in the range. -/
theorem apiFetchEvents_complete_iff (hchain : NaturalChain chain) (hlag : Lagging chain backends)
    {fuel n : Nat} {result : FetchEventsResult Point}
    (h : (apiFetchEvents sdk opts fuel).feed backends = (n, .returned result)) :
    ∃ j, n = j + 2 ∧
      (result.events = expected sdk chain opts ↔ Covers sdk chain opts (backends j).db) := by
  obtain ⟨indexed, hmono, hheld⟩ := hlag
  obtain ⟨j, hn, hevents⟩ := apiFetchEvents_returned hchain hmono hheld h
  refine ⟨j, hn, ?_⟩
  have hsplit := @expected_append V Point sdk opts (chain.take (indexed j)) (chain.drop (indexed j))
  rw [List.take_append_drop] at hsplit
  rw [covers_iff hchain.toChainOk (hheld j), hevents, hsplit]
  constructor
  · intro hall
    exact List.self_eq_append_right.mp hall
  · intro hnone
    rw [hnone, List.append_nil]

/-! ## A range with one `merge` -/

/-- The ledger that a request starts from. -/
def RpcStart.floor : RpcStart → Nat
  | .startLedger ledger => ledger
  | .cursor token => (cursorLedger token).toOption.getD 0

/-- The client's side of the `merge` event. -/
def mergeEventSdk : EventSdk MergeVal Unit where
  toStellarSdk := mergeSdk
  i128 _ := .error "not an integer"
  u32 _ := .error "u32 not set"
  pointFromBytes _ := .ok ()

def mergeConfidential : ConfidentialEvent Unit where
  ledger := 3900644
  txHash := "d96246f5f752c23c32241049d3a7c27fc39dcb74e7df0840fce28ae42a0ff2a1"
  cursor := "3900644-d96246f5f752c23c32241049d3a7c27fc39dcb74e7df0840fce28ae42a0ff2a1-0-0"
  body := .merge "CBL2LDYSE42ZJKSPSGTWXCR4DWET7AFENAPDICYEYRQB54WWN4SSK7II"

/-- The RPC keeps the ledgers from 3900700 to 3900800, in which the contract has
no events. -/
def laterRpc : Rpc MergeVal where
  getHealth := .ok (some 3900700)
  getEvents request :=
    if 3900700 ≤ request.start.floor ∧ request.start.floor ≤ 3900800 then
      .ok ⟨[], some "16753808428236800-0", 3900800⟩
    else .error "startLedger must be within the ledger range"

end Wallet

end PrivacyWallet
