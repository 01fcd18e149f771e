import PrivacyWallet.Bootnode.Replay

/-!
# From the bootnode to the client's own RPC

A client pages through a bootnode whose table grows between its requests,
until an answer hands it off; from there it asks its own RPC. The section
follows such a session over the chain that the bootnode's worker indexes.

The events that match the client's contracts are a list in chain order, and
the table holds a prefix of it. So a position of the session is one number,
the place of the next event in that list, and everything is said in it:

- a request with a `startLedger` or a cursor selects the matching events
  from its place on, as far as they are indexed (`listEventsFromLedger_eq`,
  `listEventsAfter_eq`; the cursor names an event that is in the table);
- its answer is the next page, or a handoff if there is none
  (`request_answered`);
- by induction on the requests, a session that was handed off has received
  what was indexed when its last request read the rows
  (`session_received`).

The handoff names the ledger after the highest one of the table, read after
the rows. In between lies what the table was still missing of the ledgers up
to that bound: the client has not received it and does not ask its RPC for
it. `handoff_exactly_once_iff` says that nothing else goes wrong - an event
is counted among the received ones and among the RPC's, and it is once in
one of them if and only if nothing of the indexed ledgers was missing.
-/

namespace PrivacyWallet

namespace Bootnode

open Indexer

variable {deps : BootnodeHandlerDeps} {chain : List RawEvent} {startLedger j m : Nat}
  {start : EventsStart} {limit : Nat}

/-! ## What the queries read -/

theorem orderByPosition_eq {rows : List EventRow}
    (h : rows.Pairwise fun a b => a.position < b.position) :
    orderByPosition rows = rows :=
  List.Pairwise.insertionSort_eq (h.imp fun h => h.le)

theorem filter_inScope (deps : BootnodeHandlerDeps) (db : Db) (p : EventRow → Bool) :
    db.events.filter (fun r => inScope deps.allowedContractIds none r && p r)
      = (indexedRows deps db).filter p := by
  rw [indexedRows, List.filter_filter]
  congr 1
  funext r
  rw [inScope, Option.all_none, Bool.and_true, Bool.and_comm]

/-- `j` is the place of the first event from `startLedger` on. -/
def FirstFrom (deps : BootnodeHandlerDeps) (chain : List RawEvent) (startLedger j : Nat) :
    Prop :=
  (∀ r ∈ (matching deps chain).take j, r.ledger < startLedger) ∧
    ∀ r ∈ (matching deps chain).drop j, startLedger ≤ r.ledger

theorem exists_firstFrom (hc : ChainOk chain) (deps : BootnodeHandlerDeps)
    (startLedger : Nat) : ∃ j, FirstFrom deps chain startLedger j := by
  have hledgers : (matching deps chain).Pairwise fun a b => a.ledger ≤ b.ledger :=
    (hc.matching_ordered deps).imp fun h => EventRow.ledger_le_of_position_le h.le
  unfold FirstFrom
  generalize matching deps chain = rows at hledgers
  induction rows with
  | nil => exact ⟨0, fun r hr => (by cases hr), fun r hr => (by cases hr)⟩
  | cons a rows ih =>
      obtain ⟨ha, hrows⟩ := List.pairwise_cons.mp hledgers
      by_cases hlt : a.ledger < startLedger
      · obtain ⟨j, hbefore, hafter⟩ := ih hrows
        refine ⟨j + 1, fun r hr => ?_, hafter⟩
        rcases List.mem_cons.mp hr with rfl | hr
        · exact hlt
        · exact hbefore r hr
      · refine ⟨0, fun r hr => (by cases hr), fun r hr => ?_⟩
        rcases List.mem_cons.mp hr with rfl | hr
        · exact not_lt.mp hlt
        · exact (not_lt.mp hlt).trans (ha r hr)

/-- A condition that separates the matching events at `j` selects, of what
is indexed, the part from `j` on. -/
theorem filter_indexed {db : Db} (hs : Synced deps chain db) {p : EventRow → Bool}
    (hbefore : ∀ r ∈ (matching deps chain).take j, p r = false)
    (hafter : ∀ r ∈ (matching deps chain).drop j, p r = true) :
    (indexedRows deps db).filter p
      = ((matching deps chain).take (indexedRows deps db).length).drop j := by
  refine (congrArg (List.filter p) hs.indexed).trans (Table.filter_eq_drop ?_ ?_)
  · intro r hr
    rw [List.take_take] at hr
    exact hbefore r (List.take_subset_take_left _ (min_le_left _ _) hr)
  · intro r hr
    rw [List.drop_take] at hr
    exact hafter r (List.mem_of_mem_take hr)

theorem orderByPosition_indexed (hc : ChainOk chain) (n : Nat) :
    orderByPosition (((matching deps chain).take n).drop j)
      = ((matching deps chain).take n).drop j :=
  orderByPosition_eq ((hc.matching_ordered deps).sublist
    ((List.drop_sublist _ _).trans (List.take_sublist _ _)))

theorem listEventsFromLedger_eq (hc : ChainOk chain) {db : Db}
    (hs : Synced deps chain db) (hj : FirstFrom deps chain startLedger j) :
    db.listEventsFromLedger ⟨deps.allowedContractIds, startLedger, none, limit⟩
      = (((matching deps chain).take (indexedRows deps db).length).drop j).take limit := by
  have hselect := filter_indexed (p := fun r => decide (startLedger ≤ r.ledger)) hs
    (fun r hr => decide_eq_false (not_le.mpr (hj.1 r hr)))
    fun r hr => decide_eq_true (hj.2 r hr)
  rw [Db.listEventsFromLedger, filter_inScope, hselect, orderByPosition_indexed hc]

theorem listEventsAfter_eq (hc : ChainOk chain) {db : Db} (hs : Synced deps chain db)
    {i : Nat} {cursor : EventRow} (hi : (matching deps chain)[i]? = some cursor)
    (afterId : String) :
    db.listEventsAfter cursor ⟨deps.allowedContractIds, afterId, none, limit⟩
      = (((matching deps chain).take (indexedRows deps db).length).drop (i + 1)).take
          limit := by
  obtain ⟨hlt, rfl⟩ := List.getElem?_eq_some_iff.mp hi
  have hordered := List.pairwise_iff_getElem.mp (hc.matching_ordered deps)
  have hselect := filter_indexed (j := i + 1)
    (p := fun r => decide ((matching deps chain)[i].position < r.position)) hs ?_ ?_
  · rw [Db.listEventsAfter, filter_inScope, hselect, orderByPosition_indexed hc]
  · intro r hr
    obtain ⟨k, hk, rfl⟩ := List.mem_take_iff_getElem.mp hr
    refine decide_eq_false (not_lt.mpr ?_)
    rcases Nat.lt_or_ge k i with hki | hki
    · exact (hordered k i _ _ hki).le
    · obtain rfl : k = i := by omega
      exact le_refl _
  · intro r hr
    obtain ⟨k, hk, rfl⟩ := List.mem_drop_iff_getElem.mp hr
    exact decide_eq_true (hordered i (i + 1 + k) _ _ (by omega))

/-- A cursor names the event it was taken from, which is indexed. -/
theorem findEvent_eq (hc : ChainOk chain) {db : Db} (hs : Synced deps chain db) {i : Nat}
    {r cursor : EventRow} (hi : (matching deps chain)[i]? = some r)
    (hfind : db.findEvent deps.allowedContractIds r.id = some cursor) :
    cursor = r ∧ i < (indexedRows deps db).length := by
  obtain ⟨hlt, rfl⟩ := List.getElem?_eq_some_iff.mp hi
  have hcond := List.find?_some hfind
  rw [Bool.and_eq_true, decide_eq_true_eq, decide_eq_true_eq] at hcond
  have hmem : cursor ∈ indexedRows deps db :=
    List.mem_filter.mpr ⟨List.mem_of_find?_eq_some hfind, decide_eq_true hcond.2⟩
  rw [hs.indexed] at hmem
  obtain ⟨k, hk, rfl⟩ := List.mem_take_iff_getElem.mp hmem
  have hkey := Table.keyedBy_of_nodup (hc.matching_ids deps)
  have heq := hkey _ _ (List.getElem_mem _) (List.getElem_mem hlt) hcond.1
  obtain rfl : k = i := (List.Nodup.getElem_inj_iff
    (List.Nodup.of_map _ (hc.matching_ids deps))).mp heq
  exact ⟨rfl, by omega⟩

/-! ## One request -/

/-- A request that goes on at place `m` of the matching events, for a client that
started at place `j`: the first one by its ledger, a later one by its cursor. -/
inductive StartsAt (deps : BootnodeHandlerDeps) (chain : List RawEvent)
    (startLedger j : Nat) : EventsStart → Nat → Prop where
  | ledger : StartsAt deps chain startLedger j (.ledger startLedger) j
  | cursor {i : Nat} {r : EventRow} (hi : (matching deps chain)[i]? = some r) :
      StartsAt deps chain startLedger j (.cursor r.id) (i + 1)

theorem selectRows_trace (hc : ChainOk chain) (hj : FirstFrom deps chain startLedger j)
    (hstart : StartsAt deps chain startLedger j start m) {ws : List (World Upstream)}
    (hg : Growing deps chain ws) {rows : List EventRow}
    (htrace : (selectRows deps start limit).Trace ws (some rows)) :
    ∃ earlier w, ws = earlier ++ [w] ∧
      rows = (((matching deps chain).take (indexedRows deps w.db).length).drop m).take
        limit ∧
      (m = j ∨ m ≤ (indexedRows deps w.db).length) := by
  cases hstart with
  | ledger =>
      obtain ⟨w, ws', rfl, hw⟩ := Async.trace_read_bind.mp htrace
      obtain ⟨rfl, hrows⟩ := Async.trace_pure.mp hw
      cases hrows
      have hs := hg.synced w (List.mem_singleton_self _)
      exact ⟨[], w, rfl, listEventsFromLedger_eq hc hs hj, Or.inl rfl⟩
  | @cursor i r hi =>
      obtain ⟨w, ws', rfl, hw⟩ := Async.trace_read_bind.mp htrace
      cases hfind : w.db.findEvent deps.allowedContractIds r.id with
      | none =>
          rw [hfind] at hw
          obtain ⟨-, hrows⟩ := Async.trace_pure.mp hw
          cases hrows
      | some cursor =>
          rw [hfind] at hw
          obtain ⟨w', ws'', rfl, hw'⟩ := Async.trace_read_bind.mp hw
          obtain ⟨rfl, hrows⟩ := Async.trace_pure.mp hw'
          cases hrows
          have hs := hg.synced w List.mem_cons_self
          have hs' := hg.synced w' (List.mem_cons_of_mem _ List.mem_cons_self)
          obtain ⟨rfl, hlt⟩ := findEvent_eq hc hs hi hfind
          have hmono := List.rel_of_pairwise_cons hg.mono List.mem_cons_self
          exact ⟨[w], w', rfl, listEventsAfter_eq hc hs' hi _, Or.inr (by omega)⟩

/-- What a request that goes on at place `m` answers. -/
inductive Answered (deps : BootnodeHandlerDeps) (chain : List RawEvent) (j m : Nat) :
    List (World Upstream) → RpcOutcome GetEventsResult → Prop where
  /-- an error other than a handoff -/
  | retry {ws : List (World Upstream)} {e : JsonRpcError}
      (he : e.code ≠ retentionHandoffCode) : Answered deps chain j m ws (.error e)
  /-- a handoff: nothing was indexed past `m` when the rows were read -/
  | handoff {earlier : List (World Upstream)} {rowsRead boundsRead : World Upstream}
      {bounds : LedgerBounds}
      (hrows : ((matching deps chain).take (indexedRows deps rowsRead.db).length).drop m = [])
      (hm : m = j ∨ m ≤ (indexedRows deps rowsRead.db).length)
      (hbounds : boundsRead.db.getLedgerBounds (some deps.allowedContractIds) = some bounds) :
      Answered deps chain j m (earlier ++ [rowsRead, boundsRead])
        (Bootnode.handoff (some bounds))
  /-- a page: the events from `m` up to `k` -/
  | page {earlier : List (World Upstream)} {rowsRead boundsRead upstreamRead : World Upstream}
      {result : GetEventsResult} {k : Nat} {r : EventRow} (hk : m < k + 1)
      (hr : (matching deps chain)[k]? = some r) (hcursor : result.cursor = r.id)
      (hevents : result.events = (((matching deps chain).take (k + 1)).drop m).map mapEventRow) :
      Answered deps chain j m (earlier ++ [rowsRead, boundsRead, upstreamRead]) (.ok result)

/-- One request, access by access: the rows from its place on as they are when
they are read; if there are none, the bounds that are read after them make a
handoff or an error; if there are some, they are the page, unless the upstream
RPC is out of reach. -/
theorem request_answered (hc : ChainOk chain) (hj : FirstFrom deps chain startLedger j)
    (hstart : StartsAt deps chain startLedger j start m) (limit : Option Nat)
    {ws : List (World Upstream)} (hg : Growing deps chain ws)
    {outcome : RpcOutcome GetEventsResult}
    (htrace : (getEventsRoute deps (.ok (request deps start limit))).Trace ws outcome) :
    Answered deps chain j m ws outcome := by
  rw [getEventsRoute_request] at htrace
  obtain ⟨ws₁, ws₂, served, rfl, hserved, hpure⟩ := Async.trace_bind.mp htrace
  obtain ⟨rfl, rfl⟩ := Async.trace_pure.mp hpure
  rw [List.append_nil] at hg ⊢
  obtain ⟨wsₛ, wsᵣ, rows, rfl, hselect, hrest⟩ := Async.trace_bind.mp hserved
  cases rows with
  | none =>
      obtain ⟨-, rfl⟩ := Async.trace_pure.mp hrest
      exact .retry (by decide)
  | some rows =>
      obtain ⟨earlier, rowsRead, rfl, hrows, hm⟩ :=
        selectRows_trace hc hj hstart hg.left hselect
      obtain ⟨boundsRead, wsᵤ, rfl, hread⟩ := Async.trace_read_bind.mp hrest
      have hlimit := one_le_clampLimit limit
      cases rows with
      | nil =>
          obtain ⟨rfl, rfl⟩ := Async.trace_pure.mp hread
          cases hb : boundsRead.db.getLedgerBounds (some deps.allowedContractIds) with
          | none => exact .retry (by decide)
          | some bounds =>
              rw [List.append_assoc]
              refine .handoff ?_ hm hb
              rcases List.take_eq_nil_iff.mp hrows.symm with h | h
              · omega
              · exact h
      | cons firstRow rest =>
          obtain ⟨upstreamRead, wsₑ, rfl, hanswer⟩ := Async.trace_read_bind.mp hread
          obtain ⟨rfl, rfl⟩ := Async.trace_pure.mp hanswer
          cases upstreamRead.net with
          | none => exact .retry (by decide)
          | some upstream =>
              obtain ⟨k, r, hk, hr, hlast, hpage⟩ := Table.page_of_window hrows
              rw [List.append_assoc]
              exact .page hk hr (congrArg EventRow.id hlast)
                (congrArg (List.map mapEventRow) hpage)

/-! ## A whole session -/

/-- The last request of a session read the rows at `rowsRead` and the bounds at
`boundsRead`. The client has received what was indexed at `rowsRead`. The induction is on
the requests, with the place that the session has reached. -/
theorem session_received (hc : ChainOk chain) (hj : FirstFrom deps chain startLedger j) :
    ∀ (limits : List (Option Nat)) {start : EventsStart} {m : Nat}
      {received final : List WireEvent} {fromLedger : Nat} {ws : List (World Upstream)},
      StartsAt deps chain startLedger j start m → j ≤ m →
      received = (((matching deps chain).take m).drop j).map mapEventRow →
      Growing deps chain ws →
      (clientSession deps start received limits).Trace ws (.handedOff final fromLedger) →
      ∃ earlier rowsRead boundsRead bounds, ws = earlier ++ [rowsRead, boundsRead] ∧
        boundsRead.db.getLedgerBounds (some deps.allowedContractIds) = some bounds ∧
        fromLedger = bounds.max + 1 ∧
        final = (((matching deps chain).take (indexedRows deps rowsRead.db).length).drop
          j).map mapEventRow := by
  intro limits
  induction limits with
  | nil =>
      intro start m received final fromLedger ws _ _ _ _ htrace
      obtain ⟨-, hsession⟩ := Async.trace_pure.mp htrace
      cases hsession
  | cons limit limits ih =>
      intro start m received final fromLedger ws hstart hjm hreceived hg htrace
      rw [clientSession] at htrace
      obtain ⟨ws₁, ws₂, outcome, rfl, hrequest, hrest⟩ := Async.trace_bind.mp htrace
      cases request_answered hc hj hstart limit hg.left hrequest with
      | @retry _ e he =>
          have hcode : (if e.code = retentionHandoffCode then e.data else none) = none :=
            if_neg he
          dsimp only at hrest
          rw [hcode] at hrest
          obtain ⟨earlier, rowsRead, boundsRead, bounds, rfl, h⟩ :=
            ih hstart hjm hreceived hg.right hrest
          exact ⟨ws₁ ++ earlier, rowsRead, boundsRead, bounds,
            (List.append_assoc ..).symm, h⟩
      | @handoff earlier rowsRead boundsRead bounds hrows hm hbounds =>
          obtain ⟨rfl, hsession⟩ := Async.trace_pure.mp hrest
          cases hsession
          refine ⟨earlier, rowsRead, boundsRead, bounds, List.append_nil _, hbounds, rfl, ?_⟩
          rw [hreceived]
          have hlen := congrArg List.length hrows
          rw [List.length_drop, List.length_take, List.length_nil] at hlen
          rcases hm with rfl | hm
          · rw [hrows, List.drop_take_self]
          · rw [List.take_eq_take_iff.mpr
              (show min m _ = min (indexedRows deps rowsRead.db).length _ by omega)]
      | @page earlier rowsRead boundsRead upstreamRead result k r hk hr hcursor hevents =>
          have hstart' : StartsAt deps chain startLedger j (.cursor result.cursor) (k + 1) :=
            hcursor ▸ .cursor hr
          have hreceived' : received ++ result.events
              = (((matching deps chain).take (k + 1)).drop j).map mapEventRow := by
            rw [hreceived, hevents, ← List.map_append,
              Table.pieces_append _ hjm (Nat.le_of_lt hk)]
          obtain ⟨earlier', rowsRead', boundsRead', bounds, rfl, h⟩ :=
            ih hstart' (by omega) hreceived' hg.right hrest
          exact ⟨earlier ++ [rowsRead, boundsRead, upstreamRead] ++ earlier', rowsRead',
            boundsRead', bounds, (List.append_assoc ..).symm, h⟩

/-! ## Exactly once -/

/-- The client's own RPC, read from `fromLedger` on. -/
def readFromRpc (deps : BootnodeHandlerDeps) (chain : List RawEvent) (fromLedger : Nat) :
    List WireEvent :=
  ((matching deps chain).filter fun r => decide (fromLedger ≤ r.ledger)).map mapEventRow

/-- Every matching event from `startLedger` on is received once. -/
def ReceivedOnce (deps : BootnodeHandlerDeps) (chain : List RawEvent) (startLedger : Nat)
    (received : List WireEvent) (fromLedger : Nat) : Prop :=
  ∀ r ∈ matching deps chain, startLedger ≤ r.ledger →
    (received ++ readFromRpc deps chain fromLedger).count (mapEventRow r) = 1

/-- What is indexed at `boundsRead` shows no ledger of which an event was
still missing at `rowsRead`. -/
def Settled (deps : BootnodeHandlerDeps) (chain : List RawEvent) (startLedger : Nat)
    (rowsRead boundsRead : Db) : Prop :=
  ∀ r ∈ matching deps chain, startLedger ≤ r.ledger →
    (∃ s ∈ indexedRows deps boundsRead, r.ledger ≤ s.ledger) → r ∈ rowsRead.events

theorem getLedgerBounds_max {db : Db} {bounds : LedgerBounds}
    (h : db.getLedgerBounds (some deps.allowedContractIds) = some bounds) (l : Nat) :
    l ≤ bounds.max ↔ ∃ s ∈ indexedRows deps db, l ≤ s.ledger := by
  simp only [Db.getLedgerBounds, Option.bind_eq_bind, Option.bind_eq_some_iff,
    Option.pure_def, Option.some.injEq] at h
  obtain ⟨lo, -, hi, hmax, rfl⟩ := h
  obtain ⟨hmem, hle⟩ := List.max?_eq_some_iff.mp hmax
  constructor
  · intro hl
    obtain ⟨s, hs, rfl⟩ := List.mem_map.mp hmem
    exact ⟨s, hs, hl⟩
  · rintro ⟨s, hs, hl⟩
    exact hl.trans (hle _ (List.mem_map_of_mem hs))

theorem ChainOk.wire_nodup (hc : ChainOk chain) (deps : BootnodeHandlerDeps) :
    ((matching deps chain).map mapEventRow).Nodup := by
  refine List.Nodup.of_map (·.id) ?_
  rw [List.map_map]
  exact hc.matching_ids deps

/-- Among matching events, each is on the wire once. -/
theorem ChainOk.count_wire (hc : ChainOk chain) {rows : List EventRow}
    (hrows : rows.Sublist (matching deps chain)) {r : EventRow}
    (hr : r ∈ matching deps chain) :
    (rows.map mapEventRow).count (mapEventRow r) = if r ∈ rows then 1 else 0 := by
  have hmem : mapEventRow r ∈ rows.map mapEventRow ↔ r ∈ rows := by
    refine ⟨fun h => ?_, List.mem_map_of_mem⟩
    obtain ⟨x, hx, heq⟩ := List.mem_map.mp h
    rwa [List.inj_on_of_nodup_map (hc.wire_nodup deps) (hrows.subset hx) hr heq] at hx
  rw [((hc.wire_nodup deps).sublist (hrows.map mapEventRow)).count]
  exact if_congr hmem rfl rfl

/-- Of the matching events from the start on, the received ones are those that were in the
table. Places are used here: an event that is indexed stands before one that is not. -/
theorem mem_received {db : Db} (hs : Synced deps chain db)
    (hj : FirstFrom deps chain startLedger j) {r : EventRow} (hr : r ∈ matching deps chain)
    (hstart : startLedger ≤ r.ledger) :
    r ∈ ((matching deps chain).take (indexedRows deps db).length).drop j ↔ r ∈ db.events := by
  have hindexed : r ∈ db.events ↔
      r ∈ (matching deps chain).take (indexedRows deps db).length := by
    rw [← hs.indexed, indexedRows, List.mem_filter, decide_eq_true_eq,
      and_iff_left (mem_matching hr)]
  rw [hindexed]
  constructor
  · exact List.mem_of_mem_drop
  · intro h
    rw [← List.take_append_drop j ((matching deps chain).take _), List.mem_append,
      List.take_take] at h
    refine h.resolve_left fun hbefore => ?_
    have := hj.1 r (List.take_subset_take_left _ (min_le_left _ _) hbefore)
    omega

/-- An event is received once if it is received, or read from the RPC, and
not both. -/
theorem count_eq_one_iff (hc : ChainOk chain) {rows : List EventRow} {fromLedger : Nat}
    (hrows : rows.Sublist (matching deps chain)) {r : EventRow}
    (hr : r ∈ matching deps chain) :
    (rows.map mapEventRow ++ readFromRpc deps chain fromLedger).count (mapEventRow r) = 1 ↔
      (r ∈ rows ↔ r.ledger < fromLedger) := by
  have hrpc : r ∈ (matching deps chain).filter (fun r => decide (fromLedger ≤ r.ledger)) ↔
      fromLedger ≤ r.ledger := by
    rw [List.mem_filter, and_iff_right hr, decide_eq_true_eq]
  rw [List.count_append, readFromRpc, hc.count_wire hrows hr,
    hc.count_wire List.filter_sublist hr, if_congr hrpc rfl rfl]
  by_cases hmem : r ∈ rows
  · rw [if_pos hmem]
    by_cases hle : fromLedger ≤ r.ledger
    · rw [if_pos hle]
      exact ⟨fun h => by omega, fun h => absurd (h.mp hmem) (not_lt.mpr hle)⟩
    · rw [if_neg hle]
      exact ⟨fun _ => iff_of_true hmem (not_le.mp hle), fun _ => rfl⟩
  · rw [if_neg hmem]
    by_cases hle : fromLedger ≤ r.ledger
    · rw [if_pos hle]
      exact ⟨fun _ => iff_of_false hmem (not_lt.mpr hle), fun _ => rfl⟩
    · rw [if_neg hle]
      exact ⟨fun h => by omega, fun h => absurd (h.mpr (not_le.mp hle)) hmem⟩

/-- A session that was handed off receives every matching event from its
start ledger on exactly once, if and only if the last request read its rows
when the table already held every such event up to the highest ledger it
showed when that request read the bounds.

The last request is the one that `session_received` ends in. The table only
grows, so what was indexed when the rows were read is still indexed when the
bounds are; the count of an event is then a matter of two memberships
(`count_eq_one_iff`). -/
theorem handoff_exactly_once_iff {V : Type} (sdk : StellarSdk V) (streamKey : String)
    (deps : BootnodeHandlerDeps) (chain : List RawEvent) (hc : ChainOk chain)
    (startLedger : Nat) (limits : List (Option Nat)) (steps : List Step)
    (received : List WireEvent) (fromLedger : Nat)
    (hdone : clientAfter sdk streamKey deps chain startLedger limits steps
      = .done (.handedOff received fromLedger)) :
    ∃ earlier rowsRead boundsRead,
      reads sdk streamKey deps chain startLedger limits steps
        = earlier ++ [rowsRead, boundsRead] ∧
      (ReceivedOnce deps chain startLedger received fromLedger ↔
        Settled deps chain startLedger rowsRead.db boundsRead.db) := by
  obtain ⟨hg, htrace⟩ := session_trace hc sdk streamKey hdone
  obtain ⟨j, hj⟩ := exists_firstFrom hc deps startLedger
  obtain ⟨earlier, rowsRead, boundsRead, bounds, hreads, hbounds, rfl, rfl⟩ :=
    session_received hc hj limits .ledger (le_refl j) (by rw [List.drop_take_self]; rfl) hg
      htrace
  refine ⟨earlier, rowsRead, boundsRead, hreads, forall₃_congr fun r hr hstart => ?_⟩
  rw [hreads] at hg
  have hs₁ := hg.synced rowsRead (List.mem_append_right _ List.mem_cons_self)
  have hs₂ := hg.synced boundsRead
    (List.mem_append_right _ (List.mem_cons_of_mem _ List.mem_cons_self))
  have hmono := List.rel_of_pairwise_cons hg.right.mono List.mem_cons_self
  have hshown := getLedgerBounds_max hbounds r.ledger
  have hreceived := mem_received hs₁ hj hr hstart
  rw [count_eq_one_iff hc ((List.drop_sublist _ _).trans (List.take_sublist _ _)) hr,
    hreceived, Nat.lt_succ_iff, hshown]
  refine ⟨fun h => h.mpr, fun h => ⟨fun hmem => ⟨r, ?_, le_refl _⟩, h⟩⟩
  -- what is received was still indexed when the bounds were read
  have hthen := List.mem_of_mem_drop (hreceived.mpr hmem)
  rw [hs₂.indexed]
  exact List.take_subset_take_left _ hmono hthen

/-! ## A ledger that is split over two pages -/

def poolDeps : BootnodeHandlerDeps := ⟨["POOL"]⟩

/-- An event of the pool at ledger `10`, in the transaction `txIndex`. -/
def poolEvent (id txHash : String) (txIndex : Nat) : RawEvent where
  id := id
  contractId := "POOL"
  ledger := 10
  ledgerClosedAt := 1785522610000
  txHash := txHash
  txIndex := txIndex
  opIndex := 0
  eventIndex := 0
  topic := ["AAAADwAAAA1OZXdDb21taXRtZW50"]
  valueXdr := "AAAAEQAAAAEAAAAA"
  inSuccessfulCall := true

def poolChain : List RawEvent := [poolEvent "10-aa-0-0" "aa" 0, poolEvent "10-bb-0-0" "bb" 1]

theorem poolChain_ok : ChainOk poolChain := ⟨by decide, by decide⟩

/-- A page of `size` events is indexed; then the client asks for a page,
and for the next one. -/
def poolRun (size : Nat) : List Step :=
  [.upstream (some ⟨"tip", 27, 12, "1785522620"⟩), .poll 0 size (some "cursor-1"),
    .client, .client, .client, .client, .client, .client]

theorem handoff_exactly_once_iff_pool :
    ∃ earlier rowsRead boundsRead,
      reads mergeSdk "spp:POOL" poolDeps poolChain 0 [none, none] (poolRun 2)
        = earlier ++ [rowsRead, boundsRead] ∧
      (ReceivedOnce poolDeps poolChain 0 ((matching poolDeps poolChain).map mapEventRow) 11 ↔
        Settled poolDeps poolChain 0 rowsRead.db boundsRead.db) :=
  handoff_exactly_once_iff mergeSdk "spp:POOL" poolDeps poolChain poolChain_ok 0 [none, none]
    (poolRun 2) _ 11 (by rfl)

/-- The page ends in the middle of ledger `10`. The client is handed off
at ledger `11` and never receives the second event. -/
theorem handoff_loses_event :
    clientAfter mergeSdk "spp:POOL" poolDeps poolChain 0 [none, none] (poolRun 1)
        = .done (.handedOff [mapEventRow (toNewEventRow (poolEvent "10-aa-0-0" "aa" 0))] 11) ∧
      ¬ReceivedOnce poolDeps poolChain 0
        [mapEventRow (toNewEventRow (poolEvent "10-aa-0-0" "aa" 0))] 11 := by
  refine ⟨by rfl, fun honce => ?_⟩
  have hmissing := honce (toNewEventRow (poolEvent "10-bb-0-0" "bb" 1)) (by decide) (by decide)
  revert hmissing
  decide

end Bootnode

end PrivacyWallet
