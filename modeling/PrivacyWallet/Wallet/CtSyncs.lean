import PrivacyWallet.Wallet.EventRoutes

/-!
# Syncs and the cursor they save

`StateEngine.sync` takes its events from `hybridFetchEvents` and saves the
RPC's cursor with them; the next sync goes on from there. What one sync leaves
out is lost if the saved cursor lies behind it.

`Rpc.Serves` is what is known of an RPC's answers: events of the contract from
where the request starts, in order, and a cursor that lies behind them and
behind nothing else. From there on:

- **the tail** (`rpcFetchEvents_returned`): however many pages it takes, the
  RPC leg has exactly the records from its start up to the cursor it returns.
  By induction on the requests; what earlier pages brought is a set of records
  between the start and the last cursor.
- **one sync** (`sync_complete_iff`): `hybridFetchEvents` is a plan (`Legs`),
  with the API for a range of ledgers, or without, and the RPC behind. A sync
  that returns has every event from the saved place up to the new cursor if
  and only if each one that the RPC leg does not ask for is in the API's range
  and in its table (`LegsCover`). There are three ways for one to be left out:
  the API lags; the saved cursor lies inside a ledger, whose rest is older than
  the RPC's window when the next sync comes; a first sync without the API
  starts one ledger inside the window.
- **runs** (`syncs_complete`): if all syncs of a run are such, everything at or
  before the saved cursor was delivered (`SyncState.Complete`).
-/

namespace PrivacyWallet

namespace Wallet

open Indexer Backfill Text

variable {V Point : Type}

/-! ## The chain -/

/-- The event that the worker makes of the record. -/
def RpcRecord.raw (sdk : XdrSdk V Point) (r : RpcRecord V) : RawEvent where
  id := r.naturalId
  contractId := r.contractId
  ledger := r.ledger
  ledgerClosedAt := r.ledgerClosedAt
  txHash := r.txHash
  txIndex := r.transactionIndex
  opIndex := r.operationIndex
  eventIndex := r.eventOrder
  topic := r.topic.map sdk.toXDR
  valueXdr := sdk.toXDR r.value
  inSuccessfulCall := r.inSuccessfulContractCall

/-- The record's place on the chain. -/
def RpcRecord.place (r : RpcRecord V) : Api.Position :=
  toLex (r.ledger, toLex (r.transactionIndex, toLex (r.operationIndex, r.eventOrder)))

/-- The record is one of the contract's, and decodes to the event. -/
def RpcRecord.Tells (sdk : XdrSdk V Point) (contractId : String) (r : RpcRecord V)
    (event : ConfidentialEvent Point) : Prop :=
  r.contractId = contractId ∧ confidential sdk.toEventSdk (r.raw sdk) = some event

/-- The request asks for the record, if a token encodes the place `tokenPos`. -/
def RpcStart.Asks (tokenPos : String → Api.Position) : RpcStart → RpcRecord V → Prop
  | .startLedger ledger, r => ledger ≤ r.ledger
  | .cursor token, r => tokenPos token < r.place

/-- What the RPC answers. A token begins with the ledger of its place; the
events are the first ones that are asked for, and a cursor that is returned
has behind it what is asked for and not served, and nothing else. -/
structure Rpc.Serves (rs : List (RpcRecord V)) (tokenPos : String → Api.Position)
    (rpc : Rpc V) : Prop where
  answers : ∀ request response, rpc.getEvents request = .ok response →
    ∃ served : List (RpcRecord V), response.events = served.map RpcRecord.event ∧
      (∀ r ∈ served, r ∈ rs ∧ r.contractId = request.contractId ∧
        request.start.Asks tokenPos r) ∧
      ∀ c, response.cursor = some c → c ≠ "" → ∀ r ∈ rs, r.contractId = request.contractId →
        (r.place ≤ tokenPos c ↔ ¬request.start.Asks tokenPos r ∨ r ∈ served)

/-- A chain, its records, and the servers along the accesses of a client. -/
structure Serving (sdk : XdrSdk V Point) (rs : List (RpcRecord V))
    (tokenPos : String → Api.Position) (backends : Nat → Backend V) : Prop where
  lawful : sdk.Lawful
  chain : NaturalChain (rs.map (RpcRecord.raw sdk))
  lagging : Lagging (rs.map (RpcRecord.raw sdk)) backends
  rpc : ∀ i, (backends i).rpc.Serves rs tokenPos

variable {sdk : XdrSdk V Point} {rs : List (RpcRecord V)} {tokenPos : String → Api.Position}
  {backends : Nat → Backend V}

theorem Serving.shift (h : Serving sdk rs tokenPos backends) (n : Nat) :
    Serving sdk rs tokenPos fun i => backends (n + i) where
  lawful := h.lawful
  chain := h.chain
  lagging := h.lagging.shift n
  rpc i := h.rpc (n + i)

theorem viaApi_eq_raw (r : RpcRecord V) :
    viaApi sdk r = parseApiEvent sdk.toEventSdk (Api.eventItem (toNewEventRow (r.raw sdk))) := by
  obtain ⟨raw, hraw, hitem⟩ := r.mapEvent_response sdk
  unfold viaApi
  rw [hraw]
  change parseApiEvent sdk.toEventSdk (Api.eventItem (toNewEventRow raw)) = _
  rw [hitem]
  rfl

/-- What the direct decoder reads is what the API's client would read. -/
theorem confidential_of_viaRpc (hsdk : sdk.Lawful) {r : RpcRecord V}
    {parsed : Option (ConfidentialEvent Point)} (h : viaRpc sdk r = .ok parsed) :
    confidential sdk.toEventSdk (r.raw sdk) = parsed := by
  by_cases hsymbol : r.SymbolFirst sdk
  · rw [viaRpc_eq_viaApi hsdk hsymbol, viaApi_eq_raw] at h
    rw [confidential, eventOf, h]
  · obtain ⟨-, message, hthrow⟩ := routes_differ hsdk hsymbol
    rw [hthrow] at h
    cases h

/-- The events of a response. -/
theorem mem_parseResponse (hsdk : sdk.Lawful) {served : List (RpcRecord V)}
    {events : List (ConfidentialEvent Point)}
    (h : parseResponse sdk.toEventSdk (served.map RpcRecord.event) = .ok events)
    (event : ConfidentialEvent Point) :
    event ∈ events ↔ ∃ r ∈ served, confidential sdk.toEventSdk (r.raw sdk) = some event := by
  have hrange : rpcRange sdk served = .ok events := h
  rw [rpcRange_eq] at hrange
  rw [mem_collect hrange]
  constructor
  · rintro ⟨r, hr, hparse⟩
    exact ⟨r, hr, confidential_of_viaRpc hsdk hparse⟩
  · rintro ⟨r, hr, hevent⟩
    cases hparse : viaRpc sdk r with
    | error message =>
        obtain ⟨message', hthrow⟩ := collect_throws hr hparse
        rw [hthrow] at hrange
        cases hrange
    | ok parsed =>
        rw [confidential_of_viaRpc hsdk hparse] at hevent
        exact ⟨r, hr, by rw [hparse, hevent]⟩

/-! ## The tail -/

/-- What a call that starts at `start` has received, before the request
`next`. -/
structure Gathered (sdk : XdrSdk V Point) (rs : List (RpcRecord V))
    (tokenPos : String → Api.Position) (contractId : String) (start next : RpcStart)
    (out : List (ConfidentialEvent Point)) : Prop where
  /-- the rest is asked for -/
  rest : ∀ r ∈ rs, r.contractId = contractId → next.Asks tokenPos r → start.Asks tokenPos r
  out : ∀ event, event ∈ out ↔ ∃ r ∈ rs, r.Tells sdk contractId event ∧
    start.Asks tokenPos r ∧ ¬next.Asks tokenPos r

/-- What a call that starts at `start` returns: events from there on, and with a
cursor all that lie at or before it. -/
structure Tailed (sdk : XdrSdk V Point) (rs : List (RpcRecord V))
    (tokenPos : String → Api.Position) (contractId : String) (start : RpcStart)
    (result : FetchEventsResult Point) : Prop where
  events : ∀ event ∈ result.events, ∃ r ∈ rs, r.Tells sdk contractId event ∧
    start.Asks tokenPos r
  upTo : ∀ c, result.cursor = some c → c ≠ "" → ∀ r ∈ rs, ∀ event,
    r.Tells sdk contractId event → start.Asks tokenPos r → r.place ≤ tokenPos c →
      event ∈ result.events
  forward : ∀ c, result.cursor = some c → c ≠ "" → ∀ r ∈ rs, r.contractId = contractId →
    ¬start.Asks tokenPos r → r.place ≤ tokenPos c

theorem Gathered.start (contractId : String) (start : RpcStart) :
    Gathered sdk rs tokenPos contractId start start [] where
  rest _ _ _ h := h
  out event := ⟨fun h => (by cases h), fun ⟨_, _, _, hasks, hnot⟩ => absurd hasks hnot⟩

/-- One response. With a cursor the call can go on from there, as the server
has served what lies before that cursor; in any case the call can return with
what it has. -/
theorem Gathered.answer {contractId : String} {start next : RpcStart}
    {out : List (ConfidentialEvent Point)}
    (h : Gathered sdk rs tokenPos contractId start next out) (hsdk : sdk.Lawful)
    {rpc : Rpc V} (hrpc : rpc.Serves rs tokenPos) {limit : Nat} {response : GetEventsResponse V}
    (hresponse : rpc.getEvents ⟨contractId, next, limit⟩ = .ok response)
    {events : List (ConfidentialEvent Point)}
    (hparse : parseResponse sdk.toEventSdk response.events = .ok events) :
    (∀ c, response.cursor = some c → c ≠ "" →
      Gathered sdk rs tokenPos contractId start (.cursor c) (out ++ events)) ∧
    Tailed sdk rs tokenPos contractId start
      ⟨out ++ events, response.cursor, response.latestLedger⟩ := by
  obtain ⟨served, hevents, hserved, hcursor⟩ := hrpc.answers _ _ hresponse
  rw [hevents] at hparse
  have hmem := mem_parseResponse hsdk hparse
  have hnext : ∀ c, response.cursor = some c → c ≠ "" →
      Gathered sdk rs tokenPos contractId start (.cursor c) (out ++ events) := by
    intro c hc hne
    have hplace := hcursor c hc hne
    refine ⟨fun r hr hcontract hasks => ?_, fun event => ?_⟩
    · refine h.rest r hr hcontract ?_
      by_contra hnot
      exact absurd ((hplace r hr hcontract).mpr (.inl hnot)) (not_le.mpr hasks)
    · rw [List.mem_append, h.out, hmem]
      constructor
      · rintro (⟨r, hr, htells, hasks, hnot⟩ | ⟨r, hr, hevent⟩)
        · exact ⟨r, hr, htells, hasks,
            not_lt.mpr ((hplace r hr htells.1).mpr (.inl hnot))⟩
        · obtain ⟨hin, hcontract, hasks⟩ := hserved r hr
          exact ⟨r, hin, ⟨hcontract, hevent⟩, h.rest r hin hcontract hasks,
            not_lt.mpr ((hplace r hin hcontract).mpr (.inr hr))⟩
      · rintro ⟨r, hr, htells, hasks, hnot⟩
        rcases (hplace r hr htells.1).mp (not_lt.mp hnot) with hbefore | hr'
        · exact .inl ⟨r, hr, htells, hasks, hbefore⟩
        · exact .inr ⟨r, hr', htells.2⟩
  refine ⟨hnext, fun event hevent => ?_, fun c hc hne r hr event htells hasks hle => ?_,
    fun c hc hne r hr hcontract hnot => ?_⟩
  · rcases List.mem_append.mp hevent with hold | hnew
    · obtain ⟨r, hr, htells, hasks, -⟩ := (h.out event).mp hold
      exact ⟨r, hr, htells, hasks⟩
    · obtain ⟨r, hr, hevent⟩ := (hmem event).mp hnew
      obtain ⟨hin, hcontract, hasks⟩ := hserved r hr
      exact ⟨r, hin, ⟨hcontract, hevent⟩, h.rest r hin hcontract hasks⟩
  · exact ((hnext c hc hne).out event).mpr ⟨r, hr, htells, hasks, not_lt.mpr hle⟩
  · by_contra hbehind
    exact hnot ((hnext c hc hne).rest r hr hcontract (not_le.mp hbehind))

theorem cursor_of_lastResponse {response : GetEventsResponse V} {prevCursor : Option String}
    (h : lastResponse response prevCursor = .ok false) :
    ∃ c, response.cursor = some c ∧ c ≠ "" := by
  unfold lastResponse at h
  cases hc : response.cursor with
  | none =>
      rw [hc] at h
      cases h
  | some c =>
      refine ⟨c, rfl, fun hempty => ?_⟩
      rw [hc, hempty] at h
      cases h

/-- The loop: however many requests it makes, what it returns is `Tailed`. By
induction on its bound; one request is `Gathered.answer`, and the source's
checks of the cursor tell whether it was the last. -/
theorem rpcFetchLoop_returned {contractId : String} {start : RpcStart} (hsdk : sdk.Lawful) :
    ∀ (fuel : Nat) (backends : Nat → Backend V) (next : RpcStart) (prevCursor : Option String)
      (out : List (ConfidentialEvent Point)) (n : Nat) (result : FetchEventsResult Point),
      (∀ i, (backends i).rpc.Serves rs tokenPos) →
      Gathered sdk rs tokenPos contractId start next out →
      (rpcFetchLoop sdk.toEventSdk contractId fuel next prevCursor out).feed backends
        = (n, .returned result) →
      Tailed sdk rs tokenPos contractId start result
  | 0, _, _, _, _, _, _, _, _, h => by cases h
  | fuel + 1, backends, next, prevCursor, out, n, result, hrpc, hgathered, h => by
      rw [rpcFetchLoop, Async.feed_read_bind] at h
      cases hresponse : (backends 0).rpc.getEvents ⟨contractId, next, rpcPageLimit⟩ with
      | error message =>
          rw [hresponse] at h
          cases h
      | ok response =>
          rw [hresponse] at h
          dsimp only at h
          cases hparse : parseResponse sdk.toEventSdk response.events with
          | error message =>
              rw [hparse] at h
              cases h
          | ok events =>
              obtain ⟨hon, htailed⟩ := hgathered.answer hsdk (hrpc 0) hresponse hparse
              rw [hparse] at h
              cases hlast : lastResponse response prevCursor with
              | error message =>
                  rw [hlast] at h
                  cases h
              | ok last =>
                  rw [hlast] at h
                  cases last with
                  | true =>
                      cases h
                      exact htailed
                  | false =>
                      obtain ⟨c, hc, hne⟩ := cursor_of_lastResponse hlast
                      dsimp only at h
                      rw [hc, Option.getD_some] at h
                      rcases hrest : (rpcFetchLoop sdk.toEventSdk contractId fuel (.cursor c)
                        (some c) (out ++ events)).feed (fun i => backends (i + 1)) with
                        ⟨m, fetched⟩
                      rw [hrest] at h
                      cases h
                      exact rpcFetchLoop_returned hsdk fuel _ _ _ _ _ _ (fun i => hrpc (i + 1))
                        (hon c hc hne) hrest

theorem rpcFetchEvents_returned {contractId : String} {start : RpcStart} (hsdk : sdk.Lawful)
    (hrpc : ∀ i, (backends i).rpc.Serves rs tokenPos) {fuel n : Nat}
    {result : FetchEventsResult Point}
    (h : (rpcFetchEvents sdk.toEventSdk contractId start fuel).feed backends
      = (n, .returned result)) :
    Tailed sdk rs tokenPos contractId start result := by
  cases start with
  | startLedger ledger =>
      exact rpcFetchLoop_returned hsdk fuel backends _ _ [] n result hrpc (.start _ _) h
  | cursor token =>
      exact rpcFetchLoop_returned hsdk fuel backends _ _ [] n result hrpc (.start _ _) h

/-! ## One sync -/

/-- `this.cfg`: the token, whether an indexer is configured, and the first
ledger. -/
structure SyncConfig where
  contractId : String
  indexer : Bool
  fromLedger : Nat

/-- What a sync fetches: a range from the API, or none, and the RPC's events
from a start on. -/
structure Legs where
  backfill : Option FetchOpts
  tail : RpcStart

/-- `rpcOldestLedger` -/
def Rpc.oldest (rpc : Rpc V) : Nat :=
  match rpc.getHealth with
  | .ok oldestLedger => oldestLedger.getD 0
  | .error _ => 0

/-- The legs that `hybridFetchEvents` chooses. -/
def legs (cfg : SyncConfig) (startCursor : Option String) (rpcOldest : Nat) :
    Except String Legs := do
  let next ← nextLedger cfg.fromLedger startCursor
  let seam := rpcOldest + rpcSeamMargin
  if cfg.indexer && decide (0 < rpcOldest) && decide (next < rpcOldest) then
    pure ⟨some ⟨cfg.contractId, some next, some (seam - 1), none⟩, .startLedger seam⟩
  else if startCursor.any fun cursor => decide (cursor ≠ "") then
    pure ⟨none, .cursor (startCursor.getD "")⟩
  else
    pure ⟨none, .startLedger
      (max cfg.fromLedger (if 0 < rpcOldest then rpcOldest + 1 else cfg.fromLedger))⟩

/-- Where the saved cursor leaves off. -/
def savedStart (fromLedger : Nat) : Option String → RpcStart
  | none => .startLedger fromLedger
  | some cursor => if cursor = "" then .startLedger fromLedger else .cursor cursor

/-- The record is in the range that the API is asked for, and in its table when
the rows of the last page are read. -/
def InBackfill (sdk : XdrSdk V Point) (l : Legs) (fuel : Nat) (backends : Nat → Backend V)
    (r : RpcRecord V) : Prop :=
  ∃ opts, l.backfill = some opts ∧ opts.inRange (r.raw sdk) = true ∧
    ∀ m old, (apiFetchEvents sdk.toEventSdk opts fuel).feed (fun i => backends (1 + i))
        = (m + 2, .returned old) →
      toNewEventRow (r.raw sdk) ∈ (backends (1 + m)).db.events

/-- Every event that lies behind the saved cursor is asked of the RPC, or comes
from the API. -/
def LegsCover (sdk : XdrSdk V Point) (rs : List (RpcRecord V)) (tokenPos : String → Api.Position)
    (cfg : SyncConfig) (startCursor : Option String) (fuel : Nat) (backends : Nat → Backend V) :
    Prop :=
  ∀ l, legs cfg startCursor (backends 0).rpc.oldest = .ok l →
    ∀ r ∈ rs, ∀ event, r.Tells sdk cfg.contractId event →
      (savedStart cfg.fromLedger startCursor).Asks tokenPos r →
        l.tail.Asks tokenPos r ∨ InBackfill sdk l fuel backends r

section Sync

variable {cfg : SyncConfig} {startCursor : Option String} {fuel n : Nat}
  {result : FetchEventsResult Point}

/-- The id of an event leads to its record. -/
theorem RpcRecord.Tells.record_eq (hserving : Serving sdk rs tokenPos backends)
    {contractId : String} {r r' : RpcRecord V} {event event' : ConfidentialEvent Point}
    (hr : r ∈ rs) (hr' : r' ∈ rs) (h : r.Tells sdk contractId event)
    (h' : r'.Tells sdk contractId event') (hcursor : event.cursor = event'.cursor) : r = r' := by
  have hids := hserving.chain.ids
  rw [List.map_map] at hids
  refine List.inj_on_of_nodup_map hids hr hr' ?_
  exact (confidential_eq h.2).2.symm.trans (hcursor.trans (confidential_eq h'.2).2)

theorem keyedBy_tells (hserving : Serving sdk rs tokenPos backends) (contractId : String) :
    Table.KeyedBy (fun event : ConfidentialEvent Point => event.cursor)
      fun event => ∃ r ∈ rs, r.Tells sdk contractId event := by
  rintro event event' ⟨r, hr, h⟩ ⟨r', hr', h'⟩ hcursor
  obtain rfl := RpcRecord.Tells.record_eq hserving hr hr' h h' hcursor
  exact Option.some.inj (h.2.symm.trans h'.2)

/-- What the API brings. -/
theorem mem_backfill (hserving : Serving sdk rs tokenPos backends) {opts : FetchOpts} {j : Nat}
    {old : FetchEventsResult Point}
    (h : (apiFetchEvents sdk.toEventSdk opts fuel).feed backends = (j, .returned old)) :
    ∃ m, j = m + 2 ∧ ∀ event, event ∈ old.events ↔
      ∃ r ∈ rs, r.Tells sdk opts.contractId event ∧ opts.inRange (r.raw sdk) = true ∧
        toNewEventRow (r.raw sdk) ∈ (backends m).db.events := by
  obtain ⟨indexed, hmono, hheld⟩ := hserving.lagging
  obtain ⟨m, hj, hevents⟩ := apiFetchEvents_returned hserving.chain hmono hheld h
  refine ⟨m, hj, fun event => ?_⟩
  rw [hevents, expected, List.mem_filterMap]
  constructor
  · rintro ⟨e, he, hevent⟩
    obtain ⟨htake, hrange⟩ := List.mem_filter.mp he
    obtain ⟨r, hr, rfl⟩ := List.mem_map.mp (List.mem_of_mem_take htake)
    have hcontract : r.contractId = opts.contractId := by
      unfold FetchOpts.inRange inScope at hrange
      rw [Bool.and_eq_true, Bool.and_eq_true, decide_eq_true_eq] at hrange
      exact List.mem_singleton.mp hrange.1.1
    exact ⟨r, hr, ⟨hcontract, hevent⟩, hrange,
      (hheld m).mem_iff.mpr (List.mem_map_of_mem htake)⟩
  · rintro ⟨r, hr, htells, hrange, hrow⟩
    obtain ⟨e, he, heq⟩ := List.mem_map.mp ((hheld m).mem_iff.mp hrow)
    have hsame : e = r.raw sdk := List.inj_on_of_nodup_map hserving.chain.ids
      (List.mem_of_mem_take he) (List.mem_map_of_mem hr) (congrArg EventRow.id heq)
    subst hsame
    exact ⟨_, List.mem_filter.mpr ⟨he, hrange⟩, htells.2⟩

theorem backfillAndTail_parts {contractId : String} {next rpcOldest : Nat}
    (h : (backfillAndTail sdk.toEventSdk contractId next rpcOldest fuel).feed backends
      = (n, .returned result)) :
    ∃ j m old recent, (apiFetchEvents sdk.toEventSdk
        ⟨contractId, some next, some (rpcOldest + rpcSeamMargin - 1), none⟩ fuel).feed backends
          = (j, .returned old) ∧
      (rpcFetchEvents sdk.toEventSdk contractId (.startLedger (rpcOldest + rpcSeamMargin))
        fuel).feed (fun i => backends (j + i)) = (m, .returned recent) ∧
      result = ⟨dedupeById (old.events ++ recent.events), recent.cursor, recent.latestLedger⟩ := by
  rw [backfillAndTail, Async.feed_bind] at h
  rcases hold : (apiFetchEvents sdk.toEventSdk
    ⟨contractId, some next, some (rpcOldest + rpcSeamMargin - 1), none⟩ fuel).feed backends
    with ⟨j, old | message | _⟩
  · rw [hold] at h
    dsimp only at h
    rw [Async.feed_bind] at h
    rcases hrecent : (rpcFetchEvents sdk.toEventSdk contractId
      (.startLedger (rpcOldest + rpcSeamMargin)) fuel).feed (fun i => backends (j + i))
      with ⟨m, recent | message | _⟩
    · rw [hrecent] at h
      cases h
      exact ⟨j, m, old, recent, rfl, hrecent, rfl⟩
    · rw [hrecent] at h
      cases h
    · rw [hrecent] at h
      cases h
  · rw [hold] at h
    cases h
  · rw [hold] at h
    cases h

theorem rpcOnly_parts {contractId : String} {start : RpcStart}
    (h : (rpcOnly sdk.toEventSdk contractId start fuel).feed backends = (n, .returned result)) :
    ∃ m recent, (rpcFetchEvents sdk.toEventSdk contractId start fuel).feed backends
        = (m, .returned recent) ∧
      result = ⟨dedupeById recent.events, recent.cursor, recent.latestLedger⟩ := by
  rw [rpcOnly, Async.feed_bind] at h
  rcases hrecent : (rpcFetchEvents sdk.toEventSdk contractId start fuel).feed backends
    with ⟨m, recent | message | _⟩
  · rw [hrecent] at h
    cases h
    exact ⟨m, recent, rfl, rfl⟩
  · rw [hrecent] at h
    cases h
  · rw [hrecent] at h
    cases h

theorem rpcOldestLedger_feed : rpcOldestLedger.feed backends = (1, (backends 0).rpc.oldest) := by
  rw [rpcOldestLedger, Async.feed_read_bind, Rpc.oldest]
  cases (backends 0).rpc.getHealth with
  | ok oldestLedger => rfl
  | error message => rfl

/-- Without a backfill a sync is the RPC's, from the start that `legs` says. -/
theorem rpcOnly_of_hybrid {next : Nat} (hnext : nextLedger cfg.fromLedger startCursor = .ok next)
    (hback : ¬(cfg.indexer && decide (0 < (backends 0).rpc.oldest)
      && decide (next < (backends 0).rpc.oldest)) = true)
    (h : (hybridFetchEvents sdk.toEventSdk cfg.contractId cfg.indexer cfg.fromLedger startCursor
      fuel).feed backends = (n, .returned result)) :
    ∃ k m tail, legs cfg startCursor (backends 0).rpc.oldest = .ok ⟨none, tail⟩ ∧
      (rpcOnly sdk.toEventSdk cfg.contractId tail fuel).feed (fun i => backends (k + i))
        = (m, .returned result) := by
  unfold legs
  rw [hnext]
  dsimp only [Bind.bind, Except.bind]
  rw [if_neg hback]
  rw [hybridFetchEvents, hnext] at h
  dsimp only at h
  cases hwarm : startCursor.any fun cursor => decide (cursor ≠ "") with
  | true =>
      rw [if_pos rfl]
      rw [hwarm, Bool.not_true, Bool.or_false] at h
      cases hindexer : cfg.indexer with
      | true =>
          rw [hindexer] at h hback
          rw [if_pos rfl, Async.feed_bind, rpcOldestLedger_feed] at h
          dsimp only at h
          rw [if_neg hback, if_pos rfl] at h
          exact ⟨1, _, _, rfl, Prod.ext rfl (Prod.mk.inj h).2⟩
      | false =>
          rw [hindexer, if_neg Bool.false_ne_true, Async.feed_bind, Async.feed_pure] at h
          dsimp only at h
          rw [Bool.false_and, Bool.false_and, if_neg Bool.false_ne_true, if_pos rfl] at h
          exact ⟨0, _, _, rfl, Prod.ext rfl (Prod.mk.inj h).2⟩
  | false =>
      rw [if_neg Bool.false_ne_true]
      rw [hwarm, Bool.not_false, Bool.or_true, if_pos rfl, Async.feed_bind,
        rpcOldestLedger_feed] at h
      dsimp only at h
      rw [if_neg hback, if_neg Bool.false_ne_true] at h
      exact ⟨1, _, _, rfl, Prod.ext rfl (Prod.mk.inj h).2⟩

/-- The parts of a sync that returns: which requests it made (`legs`), that the
tail is what the RPC answered, and that the rest are the events of the API's
table in the range, as it is when the rows of the last page are read. Either
there is a backfill, or the RPC is asked alone. -/
theorem hybridFetchEvents_returned (hserving : Serving sdk rs tokenPos backends)
    (h : (hybridFetchEvents sdk.toEventSdk cfg.contractId cfg.indexer cfg.fromLedger startCursor
      fuel).feed backends = (n, .returned result)) :
    ∃ l old recent, legs cfg startCursor (backends 0).rpc.oldest = .ok l ∧
      result.events = dedupeById (old ++ recent.events) ∧ result.cursor = recent.cursor ∧
      Tailed sdk rs tokenPos cfg.contractId l.tail recent ∧
      ∀ event, event ∈ old ↔
        ∃ r ∈ rs, r.Tells sdk cfg.contractId event ∧ InBackfill sdk l fuel backends r := by
  cases hnext : nextLedger cfg.fromLedger startCursor with
  | error message =>
      rw [hybridFetchEvents, hnext] at h
      cases h
  | ok next =>
      by_cases hback : (cfg.indexer && decide (0 < (backends 0).rpc.oldest)
        && decide (next < (backends 0).rpc.oldest)) = true
      · -- the API for what is older than the seam, from the second access on
        have hindexer : cfg.indexer = true := by
          rw [Bool.and_eq_true, Bool.and_eq_true] at hback
          exact hback.1.1
        have hlegs : legs cfg startCursor (backends 0).rpc.oldest
            = .ok ⟨some ⟨cfg.contractId, some next,
                some ((backends 0).rpc.oldest + rpcSeamMargin - 1), none⟩,
              .startLedger ((backends 0).rpc.oldest + rpcSeamMargin)⟩ := by
          unfold legs
          rw [hnext]
          exact if_pos hback
        rw [hindexer] at hback
        rw [hybridFetchEvents, hnext, hindexer] at h
        dsimp only at h
        rw [Bool.true_or, if_pos rfl, Async.feed_bind, rpcOldestLedger_feed] at h
        dsimp only at h
        rw [if_pos hback] at h
        obtain ⟨j, m, old, recent, hold, hrecent, hresult⟩ :=
          backfillAndTail_parts (Prod.ext rfl (Prod.mk.inj h).2)
        subst hresult
        refine ⟨_, old.events, recent, hlegs, rfl, rfl, rpcFetchEvents_returned
          hserving.lawful (fun i => hserving.rpc (1 + (j + i))) hrecent, fun event => ?_⟩
        obtain ⟨p, hp, hmem⟩ := mem_backfill (hserving.shift 1) hold
        rw [hmem]
        refine exists_congr fun r => and_congr_right fun _ => and_congr_right fun _ => ?_
        constructor
        · rintro ⟨hrange, hrow⟩
          refine ⟨_, rfl, hrange, fun p' old' hold' => ?_⟩
          obtain rfl : p = p' := by
            have hj := congrArg Prod.fst (hold.symm.trans hold')
            dsimp only at hj
            omega
          exact hrow
        · rintro ⟨opts, hopts, hrange, hrow⟩
          obtain rfl := Option.some.inj hopts
          exact ⟨hrange, hrow p old (hp ▸ hold)⟩
      · obtain ⟨k, m, tail, hlegs, hrun⟩ := rpcOnly_of_hybrid hnext hback h
        obtain ⟨m', recent, hrecent, hresult⟩ := rpcOnly_parts hrun
        subst hresult
        refine ⟨_, [], recent, hlegs, rfl, rfl, rpcFetchEvents_returned hserving.lawful
          (fun i => hserving.rpc (k + i)) hrecent,
          fun event => ⟨fun hevent => (by cases hevent), ?_⟩⟩
        rintro ⟨r, -, -, opts, hopts, -⟩
        cases hopts

/-- A sync that returns with a cursor has every event from the saved place up
to it if and only if its legs cover them. What the RPC's leg has is all from
its start up to the cursor (`Tailed`), what the API's has is read off its
table; an event in neither is missing. -/
theorem sync_complete_iff (hserving : Serving sdk rs tokenPos backends)
    (h : (hybridFetchEvents sdk.toEventSdk cfg.contractId cfg.indexer cfg.fromLedger startCursor
      fuel).feed backends = (n, .returned result))
    {c : String} (hc : result.cursor = some c) (hne : c ≠ "") :
    (∀ r ∈ rs, ∀ event, r.Tells sdk cfg.contractId event →
        (savedStart cfg.fromLedger startCursor).Asks tokenPos r → r.place ≤ tokenPos c →
        event ∈ result.events) ↔
      LegsCover sdk rs tokenPos cfg startCursor fuel backends := by
  obtain ⟨l, old, recent, hlegs, hevents, hcursor, htail, hold⟩ :=
    hybridFetchEvents_returned hserving h
  rw [hcursor] at hc
  have hmem : ∀ event, event ∈ result.events ↔ event ∈ old ∨ event ∈ recent.events := by
    intro event
    rw [hevents, mem_dedupeById_iff (keyedBy_tells hserving cfg.contractId), List.mem_append]
    intro event' hevent'
    rcases List.mem_append.mp hevent' with hevent' | hevent'
    · obtain ⟨r, hr, htells, -⟩ := (hold event').mp hevent'
      exact ⟨r, hr, htells⟩
    · obtain ⟨r, hr, htells, -⟩ := htail.events event' hevent'
      exact ⟨r, hr, htells⟩
  constructor
  · intro hall l' hlegs' r hr event htells hasks
    obtain rfl : l = l' := Except.ok.inj (hlegs.symm.trans hlegs')
    by_cases htailAsks : l.tail.Asks tokenPos r
    · exact .inl htailAsks
    -- not asked of the RPC, so it lies before the cursor
    have hle := htail.forward c hc hne r hr htells.1 htailAsks
    rcases (hmem event).mp (hall r hr event htells hasks hle) with hevent | hevent
    · obtain ⟨r', hr', htells', hback⟩ := (hold event).mp hevent
      obtain rfl := RpcRecord.Tells.record_eq hserving hr hr' htells htells' rfl
      exact .inr hback
    · obtain ⟨r', hr', htells', hasks'⟩ := htail.events event hevent
      obtain rfl := RpcRecord.Tells.record_eq hserving hr hr' htells htells' rfl
      exact absurd hasks' htailAsks
  · intro hcover r hr event htells hasks hle
    rw [hmem]
    rcases hcover l hlegs r hr event htells hasks with htailAsks | hback
    · exact .inr (htail.upTo c hc hne r hr event htells htailAsks hle)
    · exact .inl ((hold event).mpr ⟨r, hr, htells, hback⟩)

end Sync

/-! ## Runs -/

/-- The saved cursor, and the events that were applied on the way to it. -/
structure SyncState (Point : Type) where
  cursor : Option String
  delivered : List (ConfidentialEvent Point)

def SyncState.fresh : SyncState Point := ⟨none, []⟩

/-- `if (cursor) state.cursor = cursor` -/
def SyncState.saved (s : SyncState Point) (result : FetchEventsResult Point) :
    SyncState Point where
  cursor := if result.cursor.getD "" = "" then s.cursor else result.cursor
  delivered := s.delivered ++ result.events

/-- One `sync`. It need not get to its save: an event may throw, the store may
fail, the page may be closed. -/
def syncOnce (sdk : EventSdk V Point) (cfg : SyncConfig) (fuel : Nat) (saves : Bool)
    (s : SyncState Point) : Async (Backend V) (SyncState Point) := do
  match ← hybridFetchEvents sdk cfg.contractId cfg.indexer cfg.fromLedger s.cursor fuel with
  | .returned result => pure (if saves then s.saved result else s)
  | .threw _ => pure s
  | .paging => pure s

/-- One sync after the other, each with its fuel, and whether it saves. -/
def syncs (sdk : EventSdk V Point) (cfg : SyncConfig) :
    List (Nat × Bool) → SyncState Point → Async (Backend V) (SyncState Point)
  | [], s => pure s
  | (fuel, saves) :: rest, s => do
      let s' ← syncOnce sdk cfg fuel saves s
      syncs sdk cfg rest s'

/-- The legs of each sync that saves cover what lies behind its cursor. -/
def AllCover (sdk : XdrSdk V Point) (rs : List (RpcRecord V)) (tokenPos : String → Api.Position)
    (cfg : SyncConfig) : List (Nat × Bool) → SyncState Point → (Nat → Backend V) → Prop
  | [], _, _ => True
  | (fuel, saves) :: rest, s, backends =>
      (saves = true → LegsCover sdk rs tokenPos cfg s.cursor fuel backends) ∧
      AllCover sdk rs tokenPos cfg rest ((syncOnce sdk.toEventSdk cfg fuel saves s).feed backends).2
        fun i => backends (((syncOnce sdk.toEventSdk cfg fuel saves s).feed backends).1 + i)

/-- Every event at or before the saved cursor was delivered. -/
def SyncState.Complete (sdk : XdrSdk V Point) (rs : List (RpcRecord V))
    (tokenPos : String → Api.Position) (cfg : SyncConfig) (s : SyncState Point) : Prop :=
  ∀ r ∈ rs, ∀ event, r.Tells sdk cfg.contractId event → cfg.fromLedger ≤ r.ledger →
    ¬(savedStart cfg.fromLedger s.cursor).Asks tokenPos r → event ∈ s.delivered

section Runs

variable {cfg : SyncConfig} {s : SyncState Point}

theorem SyncState.complete_fresh :
    (SyncState.fresh : SyncState Point).Complete sdk rs tokenPos cfg :=
  fun _ _ _ _ hle hnot => absurd hle hnot

theorem SyncState.Complete.sync (hserving : Serving sdk rs tokenPos backends)
    (h : s.Complete sdk rs tokenPos cfg) {fuel : Nat} {saves : Bool}
    (hcover : saves = true → LegsCover sdk rs tokenPos cfg s.cursor fuel backends) :
    ((syncOnce sdk.toEventSdk cfg fuel saves s).feed backends).2.Complete sdk rs tokenPos cfg := by
  rw [syncOnce, Async.feed_bind]
  rcases hfetch : (hybridFetchEvents sdk.toEventSdk cfg.contractId cfg.indexer cfg.fromLedger
    s.cursor fuel).feed backends with ⟨n, result | message | _⟩
  · cases saves with
    | false => exact h
    | true =>
        intro r hr event htells hle hnot
        change event ∈ s.delivered ++ result.events
        rw [List.mem_append]
        by_cases hbefore : (savedStart cfg.fromLedger s.cursor).Asks tokenPos r
        swap
        · exact .inl (h r hr event htells hle hbefore)
        change ¬(savedStart cfg.fromLedger
          (if result.cursor.getD "" = "" then s.cursor else result.cursor)).Asks tokenPos r at hnot
        by_cases hempty : result.cursor.getD "" = ""
        · rw [if_pos hempty] at hnot
          exact absurd hbefore hnot
        · rw [if_neg hempty] at hnot
          cases hc : result.cursor with
          | none =>
              rw [hc] at hempty
              exact absurd rfl hempty
          | some c =>
              rw [hc, Option.getD_some] at hempty
              rw [hc, savedStart, if_neg hempty] at hnot
              exact .inr ((sync_complete_iff hserving hfetch hc hempty).mpr (hcover rfl) r hr event
                htells hbefore (not_lt.mp hnot))
  · exact h
  · exact h

/-- The run. -/
theorem syncs_complete : ∀ (steps : List (Nat × Bool)) (s : SyncState Point)
    (backends : Nat → Backend V), Serving sdk rs tokenPos backends →
    s.Complete sdk rs tokenPos cfg → AllCover sdk rs tokenPos cfg steps s backends →
    ((syncs sdk.toEventSdk cfg steps s).feed backends).2.Complete sdk rs tokenPos cfg
  | [], _, _, _, h, _ => h
  | (fuel, saves) :: rest, s, backends, hserving, h, ⟨hcover, hrest⟩ => by
      rw [syncs, Async.feed_bind]
      exact syncs_complete rest _ _ (hserving.shift _) (h.sync hserving hcover) hrest

end Runs

/-- A history that the API returns is complete if and only if the API's table
holds, when the rows of the last page are read, every confidential event of the
contract in the range. A sync that returns a cursor is complete from the saved
cursor up to the new one if and only if its legs cover that. In a run of syncs
of which each one that saves is such, every event at or before the saved cursor
was delivered. -/
theorem fetchEvents_complete_iff (sdk : XdrSdk V Point) (rs : List (RpcRecord V))
    (tokenPos : String → Api.Position) (cfg : SyncConfig) (backends : Nat → Backend V) :
    (∀ chain opts fuel n result, NaturalChain chain → Lagging chain backends →
      (apiFetchEvents sdk.toEventSdk opts fuel).feed backends = (n, .returned result) →
      ∃ j, n = j + 2 ∧ (result.events = expected sdk.toEventSdk chain opts ↔
        Covers sdk.toEventSdk chain opts (backends j).db)) ∧
    (Serving sdk rs tokenPos backends →
      (∀ startCursor fuel n result c,
        (hybridFetchEvents sdk.toEventSdk cfg.contractId cfg.indexer cfg.fromLedger startCursor
          fuel).feed backends = (n, .returned result) → result.cursor = some c → c ≠ "" →
        ((∀ r ∈ rs, ∀ event, r.Tells sdk cfg.contractId event →
            (savedStart cfg.fromLedger startCursor).Asks tokenPos r → r.place ≤ tokenPos c →
            event ∈ result.events) ↔
          LegsCover sdk rs tokenPos cfg startCursor fuel backends)) ∧
      ∀ steps, AllCover sdk rs tokenPos cfg steps .fresh backends →
        ((syncs sdk.toEventSdk cfg steps .fresh).feed backends).2.Complete sdk rs tokenPos cfg) :=
  ⟨fun _ _ _ _ _ hchain hlag h => apiFetchEvents_complete_iff hchain hlag h, fun hserving =>
    ⟨fun _ _ _ _ _ h hc hne => sync_complete_iff hserving h hc hne, fun steps hcover =>
      syncs_complete steps .fresh backends hserving SyncState.complete_fresh hcover⟩⟩

/-- The API's table holds the first `n` events of the chain. -/
def mergeBackend (n : Nat) : Backend MergeVal where
  db := { events := ([mergeEvent].take n).map toNewEventRow, ctActivity := [],
          cursors := fun _ => none }
  online := true
  rpc := laterRpc

def mergeOpts : FetchOpts := ⟨mergeToken, some 3900600, some 3900759, none⟩

theorem mergeEvent_natural : NaturalChain [mergeEvent] where
  ordered := List.pairwise_singleton _ _
  ids := List.nodup_singleton _
  natural e he := by
    rw [List.mem_singleton] at he
    subst he
    decide +kernel

theorem mergeBackend_lagging (n : Nat) : Lagging [mergeEvent] fun _ => mergeBackend n :=
  ⟨fun _ => n, monotone_const, fun _ => .refl _⟩

/-- The worker has not indexed the `merge` yet, and the API's empty page is
taken for the end of the range; the sync then saves a cursor that lies past
it. -/
theorem lagging_page_taken_for_end :
    NaturalChain [mergeEvent] ∧ (Lagging [mergeEvent] fun _ => mergeBackend 0) ∧
      expected mergeEventSdk [mergeEvent] mergeOpts = [mergeConfidential] ∧
      (apiFetchEvents mergeEventSdk mergeOpts 1).feed (fun _ => mergeBackend 0)
        = (3, .returned ⟨[], none, 0⟩) ∧
      (syncs mergeEventSdk ⟨mergeToken, true, 3900600⟩ [(1, true)] .fresh).feed
          (fun _ => mergeBackend 0)
        = (5, ⟨some "16753808428236800-0", []⟩) :=
  ⟨mergeEvent_natural, mergeBackend_lagging 0, by decide +kernel, by rfl, by rfl⟩

/-! ## Two syncs -/

/-- The place that a token stands for. -/
def tokenPlace (token : String) : Api.Position :=
  let toid := (bigInt ((split '-' token).headD "")).toOption.getD 0
  toLex (toid / 2 ^ 32, toLex (toid / 2 ^ 12 % 2 ^ 20, toLex (toid % 2 ^ 12,
    (number ((split '-' token).getD 1 "0")).getD 0)))

/-- The token of a ledger's end. -/
def endToken (ledger : Nat) : String := s!"{ledger * 2 ^ 32 + (2 ^ 32 - 1)}-4294967295"

instance (start : RpcStart) (r : RpcRecord V) : Decidable (start.Asks tokenPlace r) :=
  match start with
  | .startLedger ledger => inferInstanceAs (Decidable (ledger ≤ r.ledger))
  | .cursor token => inferInstanceAs (Decidable (tokenPlace token < r.place))

/-- An RPC that keeps the ledgers of a window, and serves them in one page. -/
def windowRpc (rs : List (RpcRecord V)) (oldest latest : Nat) : Rpc V where
  getHealth := .ok (some oldest)
  getEvents request :=
    if oldest ≤ request.start.floor ∧ request.start.floor ≤ latest then
      .ok ⟨(rs.filter fun r => decide (r.contractId = request.contractId) &&
        decide (r.ledger ≤ latest) && decide (request.start.Asks tokenPlace r)).map RpcRecord.event,
        some (endToken latest), latest⟩
    else .error "startLedger must be within the ledger range"

theorem floor_cursor (token : String) :
    (RpcStart.cursor token).floor = (ofLex (tokenPlace token)).1 := by
  unfold RpcStart.floor cursorLedger
  dsimp only
  change _ = (bigInt ((split '-' token).headD "")).toOption.getD 0 / 2 ^ 32
  cases bigInt ((split '-' token).headD "") with
  | ok toid => rfl
  | error message => exact (Nat.zero_div _).symm

/-- What lies before a request's start lies in the window's ledgers or before
them. -/
theorem RpcStart.ledger_le_floor {start : RpcStart} {r : RpcRecord V}
    (h : ¬start.Asks tokenPlace r) : r.ledger ≤ start.floor := by
  cases start with
  | startLedger ledger => exact (not_le.mp h).le
  | cursor token =>
      rw [floor_cursor]
      exact Prod.Lex.monotone_fst _ _ (not_lt.mp h)

theorem windowRpc_serves {rs : List (RpcRecord V)} {oldest latest : Nat}
    (hend : ∀ r ∈ rs, r.place ≤ tokenPlace (endToken latest) ↔ r.ledger ≤ latest) :
    (windowRpc rs oldest latest).Serves rs tokenPlace where
  answers request response h := by
    unfold windowRpc at h
    dsimp only at h
    by_cases hwindow : oldest ≤ request.start.floor ∧ request.start.floor ≤ latest
    · rw [if_pos hwindow] at h
      cases h
      refine ⟨_, rfl, fun r hr => ?_, fun c hc _ r hr hcontract => ?_⟩
      · simp only [List.mem_filter, Bool.and_eq_true, decide_eq_true_eq] at hr
        exact ⟨hr.1, hr.2.1.1, hr.2.2⟩
      · cases hc
        rw [hend r hr]
        simp only [List.mem_filter, Bool.and_eq_true, decide_eq_true_eq]
        constructor
        · intro hle
          by_cases hasks : request.start.Asks tokenPlace r
          · exact .inr ⟨hr, ⟨hcontract, hle⟩, hasks⟩
          · exact .inl hasks
        · rintro (hnot | ⟨-, ⟨-, hle⟩, -⟩)
          · exact (RpcStart.ledger_le_floor hnot).trans hwindow.2
          · exact hle
    · rw [if_neg hwindow] at h
      cases h

/-- The API has indexed the first two `merge`s; the RPC keeps the ledgers from
3900700 on, and gets fifty more after the fifth access. -/
def mergeServers (i : Nat) : Backend MergeVal where
  db := { events := ((mergeChain.map (RpcRecord.raw mergeXdrSdk)).take 2).map toNewEventRow,
          ctActivity := [], cursors := fun _ => none }
  online := true
  rpc := windowRpc mergeChain 3900700 (if i < 5 then 3900800 else 3900850)

theorem mergeServers_serving : Serving mergeXdrSdk mergeChain tokenPlace mergeServers where
  lawful := mergeXdrSdk_lawful
  chain := { ordered := by decide +kernel, ids := by decide +kernel, natural := by decide +kernel }
  lagging := ⟨fun _ => 2, monotone_const, fun _ => .refl _⟩
  rpc i := by
    unfold mergeServers
    split
    · exact windowRpc_serves (by decide +kernel)
    · exact windowRpc_serves (by decide +kernel)

def mergeConfig : SyncConfig := ⟨mergeToken, true, 3900600⟩

/-- The events of the first `n` records. -/
def mergesUpTo (n : Nat) : List (ConfidentialEvent Unit) :=
  (mergeChain.take n).filterMap fun r => confidential mergeEventSdk (r.raw mergeXdrSdk)

theorem mergeServers_first : (hybridFetchEvents mergeEventSdk mergeToken true 3900600 none 1).feed
    mergeServers = (5, .returned ⟨mergesUpTo 4, some (endToken 3900800), 3900800⟩) := by
  rfl

/-- The first sync takes two `merge`s from the API and two from the RPC, the
second one goes on from its cursor. -/
theorem mergeServers_cover : AllCover mergeXdrSdk mergeChain tokenPlace mergeConfig
    [(1, true), (1, true)] .fresh mergeServers := by
  have hsync : (syncOnce mergeXdrSdk.toEventSdk mergeConfig 1 true .fresh).feed mergeServers
      = (5, ⟨some (endToken 3900800), mergesUpTo 4⟩) := by
    rfl
  have hcold : legs mergeConfig none 3900700 = .ok ⟨some mergeOpts, .startLedger 3900760⟩ := by rfl
  have hwarm : legs mergeConfig (some (endToken 3900800)) 3900700
      = .ok ⟨none, .cursor (endToken 3900800)⟩ := by
    rfl
  have hindexed : ∀ r ∈ mergeChain, r.ledger < 3900760 → mergeOpts.inRange (r.raw mergeXdrSdk) ∧
      toNewEventRow (r.raw mergeXdrSdk) ∈ (mergeServers 0).db.events := by
    decide +kernel
  refine ⟨fun _ l hl r hr event _ _ => ?_, ?_⟩
  · obtain rfl := Except.ok.inj (hcold.symm.trans hl)
    by_cases hold : r.ledger < 3900760
    · obtain ⟨hrange, hrow⟩ := hindexed r hr hold
      exact .inr ⟨_, rfl, hrange, fun _ _ _ => hrow⟩
    · exact .inl (not_lt.mp hold)
  · rw [hsync]
    refine ⟨fun _ l hl r hr event _ hasks => .inl ?_, trivial⟩
    obtain rfl := Except.ok.inj (hwarm.symm.trans hl)
    exact hasks

/-- Two syncs of the five `merge`s. -/
theorem fetchEvents_complete_iff_merge :
    Covers mergeEventSdk (mergeChain.map (RpcRecord.raw mergeXdrSdk)) mergeOpts
        (mergeServers 0).db ∧
      LegsCover mergeXdrSdk mergeChain tokenPlace mergeConfig none 1 mergeServers ∧
      (syncs mergeEventSdk mergeConfig [(1, true), (1, true)] .fresh).feed mergeServers
        = (7, ⟨some (endToken 3900850), mergesUpTo 5⟩) ∧
      SyncState.Complete mergeXdrSdk mergeChain tokenPlace mergeConfig
        ⟨some (endToken 3900850), mergesUpTo 5⟩ := by
  obtain ⟨hapi, hsyncs⟩ := fetchEvents_complete_iff mergeXdrSdk mergeChain tokenPlace mergeConfig
    mergeServers
  obtain ⟨hsync, hruns⟩ := hsyncs mergeServers_serving
  obtain ⟨j, -, hcovers⟩ := hapi (mergeChain.map (RpcRecord.raw mergeXdrSdk)) mergeOpts 1 3
    ⟨mergesUpTo 2, none, 3900730⟩ mergeServers_serving.chain mergeServers_serving.lagging (by rfl)
  have hrun : (syncs mergeEventSdk mergeConfig [(1, true), (1, true)] .fresh).feed mergeServers
      = (7, ⟨some (endToken 3900850), mergesUpTo 5⟩) := by
    rfl
  refine ⟨hcovers.mp (by decide +kernel), (hsync none 1 5 _ (endToken 3900800) mergeServers_first
    rfl (by decide +kernel)).mp ?_, hrun, ?_⟩
  · intro r hr event htells _ hle
    have hrecord : ∀ r ∈ mergeChain, r.place ≤ tokenPlace (endToken 3900800) →
        ∀ event ∈ confidential mergeEventSdk (r.raw mergeXdrSdk), event ∈ mergesUpTo 4 := by
      decide +kernel
    exact hrecord r hr hle event htells.2
  · have hcomplete := hruns [(1, true), (1, true)] mergeServers_cover
    rw [show (syncs mergeXdrSdk.toEventSdk mergeConfig _ _).feed mergeServers = _ from hrun]
      at hcomplete
    exact hcomplete

end Wallet

end PrivacyWallet
