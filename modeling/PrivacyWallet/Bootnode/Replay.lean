import PrivacyWallet.Bootnode.Handler

/-!
# A client and the indexer it reads from

The worker fills the events table page by page, and a client reads it
through `getEvents` from a start ledger on, until it is handed off. A run
interleaves the worker's transactions, those of other streams, and the
single accesses of the client's requests, in any order.

The pages of the worker follow the chain: each begins at or before the end
of what is indexed, and ends anywhere. So at any time the table holds a
piece of the chain from its start (`Synced`), and the accesses of a client
find one table that grows (`session_trace`).
-/

namespace PrivacyWallet

namespace Bootnode

open Indexer

/-! ## The client -/

/-- How a client's session ends. -/
inductive Session where
  | handedOff (received : List WireEvent) (fromLedger : Nat)
  | unfinished (received : List WireEvent)
deriving DecidableEq

/-- The parameters of the client's request. -/
def request (deps : BootnodeHandlerDeps) (start : EventsStart) (limit : Option Nat) :
    GetEventsParams where
  filters := [⟨"contract", [["**"]], deps.allowedContractIds⟩]
  pagination :=
    match start with
    | .ledger _ => ⟨limit, none⟩
    | .cursor cursor => ⟨limit, some cursor⟩
  startLedger :=
    match start with
    | .ledger startLedger => some startLedger
    | .cursor _ => none
  endLedger := none
  xdrFormat := none

/-- The client makes one request for each limit: it goes on from the cursor
of a page, stops at a handoff, and asks again after any other error. -/
def clientSession (deps : BootnodeHandlerDeps) :
    EventsStart → List WireEvent → List (Option Nat) → Async (World Upstream) Session
  | _, received, [] => pure (.unfinished received)
  | start, received, limit :: limits => do
      match ← getEventsRoute deps (.ok (request deps start limit)) with
      | .ok result =>
          clientSession deps (.cursor result.cursor) (received ++ result.events) limits
      | .error e =>
          match if e.code = retentionHandoffCode then e.data else none with
          | some handoff => pure (.handedOff received handoff.fromLedger)
          | none => clientSession deps start received limits

/-! ## Runs -/

variable {V : Type} (sdk : StellarSdk V) (streamKey : String) (deps : BootnodeHandlerDeps)
  (chain : List RawEvent)

/-- The events of the chain that the bootnode serves, as rows. -/
def matching : List EventRow :=
  (chain.filter fun e => decide (e.contractId ∈ deps.allowedContractIds)).map toNewEventRow

/-- The rows of the table that the bootnode serves. -/
def indexedRows (db : Db) : List EventRow :=
  db.events.filter fun r => decide (r.contractId ∈ deps.allowedContractIds)

/-- One step of a run: the worker commits a page of `size` events that
begins at the place `first` of its stream, another stream commits a page,
the upstream RPC changes, or the client's request makes its next access. -/
inductive Step where
  | poll (first size : Nat) (nextCursor : Option String)
  | other (streamKey : String) (ctTokenId : Option String) (page : StreamFetchResult)
  | upstream (answer : Upstream)
  | client

structure System where
  world : World Upstream
  client : Async (World Upstream) Session

/-- The page of the worker's stream from `first` on. -/
def pageOf (first size : Nat) (nextCursor : Option String) : StreamFetchResult where
  events := ((chain.filter fun e => decide (e.contractId ∈ deps.allowedContractIds)).drop
    first).take size
  nextCursor := nextCursor

def System.commit (y : System) (streamKey : String) (ctTokenId : Option String)
    (page : StreamFetchResult) : System :=
  { y with world := { y.world with db := commitPage sdk streamKey ctTokenId page y.world.db } }

def exec (y : System) : Step → System
  | .poll first size nextCursor =>
      if first ≤ (indexedRows deps y.world.db).length then
        y.commit sdk streamKey none (pageOf deps chain first size nextCursor)
      else y
  | .other streamKey ctTokenId page =>
      if ∀ e ∈ page.events, e ∈ chain ∧ e.contractId ∉ deps.allowedContractIds then
        y.commit sdk streamKey ctTokenId page
      else y
  | .upstream answer => { y with world := { y.world with net := answer } }
  | .client => ⟨(y.client.resume y.world).1, (y.client.resume y.world).2⟩

/-- The state that the client's access found. -/
def found (y : System) : Step → List (World Upstream)
  | .client =>
      match y.client with
      | .await _ _ => [y.world]
      | .done _ => []
  | .poll _ _ _ => []
  | .other _ _ _ => []
  | .upstream _ => []

/-- Nothing is indexed yet, and the client is about to ask from
`startLedger` on. -/
def System.start (startLedger : Nat) (limits : List (Option Nat)) : System where
  world := ⟨.empty, none⟩
  client := clientSession deps (.ledger startLedger) [] limits

/-- The client after the steps. -/
def clientAfter (startLedger : Nat) (limits : List (Option Nat)) (steps : List Step) :
    Async (World Upstream) Session :=
  (Run.run (exec sdk streamKey deps chain) (System.start deps startLedger limits) steps).client

/-- The states that the client's accesses found, in order. -/
def reads (startLedger : Nat) (limits : List (Option Nat)) (steps : List Step) :
    List (World Upstream) :=
  Run.history (exec sdk streamKey deps chain) found (System.start deps startLedger limits)
    steps

/-! ## The table follows the chain -/

/-- A chain: its events are in order, and their ids are their own. -/
structure ChainOk (chain : List RawEvent) : Prop where
  ordered : (chain.map fun e => (toNewEventRow e).position).Pairwise (· < ·)
  ids : (chain.map (·.id)).Nodup

variable {sdk streamKey deps chain}

theorem matching_sublist : (matching deps chain).Sublist (chain.map toNewEventRow) :=
  List.Sublist.map _ List.filter_sublist

theorem ChainOk.matching_ordered (hc : ChainOk chain) (deps : BootnodeHandlerDeps) :
    (matching deps chain).Pairwise (fun a b => a.position < b.position) := by
  have hrows : (chain.map toNewEventRow).Pairwise (fun a b => a.position < b.position) := by
    rw [List.pairwise_map]
    exact List.pairwise_map.mp hc.ordered
  exact hrows.sublist matching_sublist

theorem ChainOk.matching_ids (hc : ChainOk chain) (deps : BootnodeHandlerDeps) :
    ((matching deps chain).map (·.id)).Nodup := by
  have hrows : ((chain.map toNewEventRow).map (·.id)).Nodup := by
    rw [List.map_map]
    exact hc.ids
  exact hrows.sublist (matching_sublist.map _)

theorem mem_matching {r : EventRow} (h : r ∈ matching deps chain) :
    r.contractId ∈ deps.allowedContractIds := by
  obtain ⟨e, he, rfl⟩ := List.mem_map.mp h
  exact of_decide_eq_true (List.mem_filter.mp he).2

theorem pageOf_rows (first size : Nat) (nextCursor : Option String) :
    (pageOf deps chain first size nextCursor).events.map toNewEventRow
      = ((matching deps chain).drop first).take size := by
  rw [pageOf, matching, List.map_take, List.map_drop]

/-- The rows of the chain, on which the id is a key. -/
def OnChain (chain : List RawEvent) (r : EventRow) : Prop := ∃ e ∈ chain, toNewEventRow e = r

theorem ChainOk.keyed (hc : ChainOk chain) :
    Table.KeyedBy (fun r : EventRow => r.id) (OnChain chain) := by
  rintro _ _ ⟨a, ha, rfl⟩ ⟨b, hb, rfl⟩ hab
  rw [List.inj_on_of_nodup_map hc.ids ha hb hab]

/-- The table holds rows of the chain, and of those that match, the first
ones. -/
structure Synced (deps : BootnodeHandlerDeps) (chain : List RawEvent) (db : Db) : Prop where
  onChain : ∀ r ∈ db.events, OnChain chain r
  indexed : indexedRows deps db = (matching deps chain).take (indexedRows deps db).length

theorem Synced.of_take {db : Db} {n : Nat} (hon : ∀ r ∈ db.events, OnChain chain r)
    (h : indexedRows deps db = (matching deps chain).take n) : Synced deps chain db where
  onChain := hon
  indexed := by
    rw [h, List.length_take, List.take_eq_take_iff]
    omega

/-- A commit inserts rows of the chain. -/
theorem Synced.commit_onChain {db : Db} (hs : Synced deps chain db) (hc : ChainOk chain)
    (sdk : StellarSdk V) (key : String) (ct : Option String) {page : StreamFetchResult}
    (hpage : ∀ e ∈ page.events, e ∈ chain) :
    (∀ r ∈ (commitPage sdk key ct page db).events, OnChain chain r) ∧
      indexedRows deps (commitPage sdk key ct page db)
        = Table.insertAllNew (·.id) (indexedRows deps db)
            ((page.events.map toNewEventRow).filter
              fun r => decide (r.contractId ∈ deps.allowedContractIds)) := by
  have hrows : ∀ r ∈ page.events.map toNewEventRow, OnChain chain r := by
    intro r hr
    obtain ⟨e, he, rfl⟩ := List.mem_map.mp hr
    exact ⟨e, hpage e he, rfl⟩
  constructor
  · intro r hr
    rw [commitPage_events] at hr
    rcases Table.mem_insertAllNew hc.keyed hrows hs.onChain r |>.mp hr with hr | hr
    · exact hs.onChain r hr
    · exact hrows r hr
  · rw [indexedRows, commitPage_events]
    exact Table.filter_insertAllNew hc.keyed _ hrows hs.onChain

/-- The worker's page extends what is indexed. -/
theorem Synced.poll {db : Db} (hs : Synced deps chain db) (hc : ChainOk chain)
    (sdk : StellarSdk V) (streamKey : String) {first size : Nat} {nextCursor : Option String}
    (hfirst : first ≤ (indexedRows deps db).length) :
    Synced deps chain (commitPage sdk streamKey none
        (pageOf deps chain first size nextCursor) db) ∧
      (indexedRows deps db).length ≤ (indexedRows deps (commitPage sdk streamKey none
        (pageOf deps chain first size nextCursor) db)).length := by
  have hpage : ∀ e ∈ (pageOf deps chain first size nextCursor).events, e ∈ chain :=
    fun e he => List.mem_of_mem_filter (List.mem_of_mem_drop (List.mem_of_mem_take he))
  obtain ⟨hon, hindexed⟩ := hs.commit_onChain hc sdk streamKey none hpage
  have hall : (((matching deps chain).drop first).take size).filter
      (fun r => decide (r.contractId ∈ deps.allowedContractIds))
      = ((matching deps chain).drop first).take size :=
    List.filter_eq_self.mpr fun r hr =>
      decide_eq_true (mem_matching (List.mem_of_mem_drop (List.mem_of_mem_take hr)))
  rw [pageOf_rows, hall, hs.indexed, Table.insertAllNew_window (hc.matching_ids deps) hfirst]
    at hindexed
  refine ⟨.of_take hon hindexed, ?_⟩
  have hlen := congrArg List.length hs.indexed
  rw [List.length_take] at hlen
  rw [hindexed, List.length_take]
  omega

/-- Another stream's page changes nothing here. -/
theorem Synced.other {db : Db} (hs : Synced deps chain db) (hc : ChainOk chain)
    (sdk : StellarSdk V) (key : String) (ct : Option String) {page : StreamFetchResult}
    (hpage : ∀ e ∈ page.events, e ∈ chain ∧ e.contractId ∉ deps.allowedContractIds) :
    Synced deps chain (commitPage sdk key ct page db) ∧
      indexedRows deps (commitPage sdk key ct page db) = indexedRows deps db := by
  obtain ⟨hon, hindexed⟩ := hs.commit_onChain hc sdk key ct fun e he => (hpage e he).1
  have hnone : (page.events.map toNewEventRow).filter
      (fun r => decide (r.contractId ∈ deps.allowedContractIds)) = [] := by
    refine List.filter_eq_nil_iff.mpr fun r hr => ?_
    obtain ⟨e, he, rfl⟩ := List.mem_map.mp hr
    rw [decide_eq_true_eq]
    exact (hpage e he).2
  rw [hnone] at hindexed
  exact ⟨.of_take hon (hindexed.trans hs.indexed), hindexed⟩

/-! ## What a run shows the client -/

/-- The client's request passes the checks of the handler. -/
theorem getEventsRoute_request (deps : BootnodeHandlerDeps) (start : EventsStart)
    (limit : Option Nat) :
    getEventsRoute deps (.ok (request deps start limit))
      = serveEvents deps start (clampLimit limit) >>= fun outcome =>
          pure (outcome.getD (err internalErrorCode "internal error")) := by
  cases start with
  | ledger startLedger =>
      simp [getEventsRoute, handleGetEvents, request, startOf, isAllowedFilters]
  | cursor cursor =>
      simp [getEventsRoute, handleGetEvents, request, startOf, isAllowedFilters]

theorem clientSession_readOnly (deps : BootnodeHandlerDeps) :
    ∀ (limits : List (Option Nat)) (start : EventsStart) (received : List WireEvent),
      (clientSession deps start received limits).ReadOnly := by
  intro limits
  induction limits with
  | nil =>
      intro start received
      exact .pure _
  | cons limit limits ih =>
      intro start received
      rw [clientSession, getEventsRoute_request]
      refine ((serveEvents_readOnly start _).bind fun _ => .pure _).bind fun outcome => ?_
      cases outcome with
      | ok result => exact ih _ _
      | error e =>
          dsimp only
          cases (if e.code = retentionHandoffCode then e.data else none) with
          | none => exact ih _ _
          | some handoff => exact .pure _

/-- The states `ws`, one after the other, on one growing table. -/
structure Growing (deps : BootnodeHandlerDeps) (chain : List RawEvent)
    (ws : List (World Upstream)) : Prop where
  synced : ∀ w ∈ ws, Synced deps chain w.db
  mono : ws.Pairwise fun w w' =>
    (indexedRows deps w.db).length ≤ (indexedRows deps w'.db).length

theorem Growing.left {ws ws' : List (World Upstream)} (hg : Growing deps chain (ws ++ ws')) :
    Growing deps chain ws where
  synced w hw := hg.synced w (List.mem_append_left _ hw)
  mono := (List.pairwise_append.mp hg.mono).1

theorem Growing.right {ws ws' : List (World Upstream)} (hg : Growing deps chain (ws ++ ws')) :
    Growing deps chain ws' where
  synced w hw := hg.synced w (List.mem_append_right _ hw)
  mono := (List.pairwise_append.mp hg.mono).2.1

theorem Growing.le_last {ws : List (World Upstream)} {w : World Upstream}
    (hg : Growing deps chain (ws ++ [w])) :
    ∀ v ∈ ws, (indexedRows deps v.db).length ≤ (indexedRows deps w.db).length :=
  fun v hv => (List.pairwise_append.mp hg.mono).2.2 v hv w (List.mem_singleton_self _)

theorem Growing.snoc {ws : List (World Upstream)} {w : World Upstream}
    (hg : Growing deps chain ws) (hsynced : Synced deps chain w.db)
    (hlast : ∀ v ∈ ws, (indexedRows deps v.db).length ≤ (indexedRows deps w.db).length) :
    Growing deps chain (ws ++ [w]) where
  synced := by
    intro v hv
    rcases List.mem_append.mp hv with hv | hv
    · exact hg.synced v hv
    · rw [List.mem_singleton.mp hv]
      exact hsynced
  mono := by
    refine List.pairwise_append.mpr ⟨hg.mono, List.pairwise_singleton _ _, ?_⟩
    intro v hv v' hv'
    rw [List.mem_singleton.mp hv']
    exact hlast v hv

/-- Between the accesses of the client `p`, which so far found the states
`past`. -/
structure Following (deps : BootnodeHandlerDeps) (chain : List RawEvent)
    (p : Async (World Upstream) Session) (y : System) (past : List (World Upstream)) :
    Prop where
  growing : Growing deps chain (past ++ [y.world])
  readOnly : y.client.ReadOnly
  trace : ∀ ws session, y.client.Trace ws session → p.Trace (past ++ ws) session

/-- The world changes, the client waits. -/
theorem Following.wait {p : Async (World Upstream) Session} {y : System}
    {past : List (World Upstream)} (hf : Following deps chain p y past) {w : World Upstream}
    (hsynced : Synced deps chain w.db)
    (hle : (indexedRows deps y.world.db).length ≤ (indexedRows deps w.db).length) :
    Following deps chain p { y with world := w } past where
  growing := hf.growing.left.snoc hsynced fun v hv => (hf.growing.le_last v hv).trans hle
  readOnly := hf.readOnly
  trace := hf.trace

/-- A step of the system, seen from the session that is followed: what the
worker and others do is one more world that the session may find, with a table
that has only grown; a step of the session itself finds the world and leaves
it. -/
theorem Following.exec {p : Async (World Upstream) Session} {y : System}
    {past : List (World Upstream)} (hf : Following deps chain p y past)
    (hc : ChainOk chain) (sdk : StellarSdk V) (streamKey : String) (step : Step) :
    Following deps chain p (exec sdk streamKey deps chain y step) (past ++ found y step) := by
  have hsynced : Synced deps chain y.world.db :=
    hf.growing.synced _ (List.mem_append_right _ (List.mem_singleton_self _))
  cases step with
  | poll first size nextCursor =>
      rw [Bootnode.exec, found, List.append_nil]
      split
      · rename_i hfirst
        obtain ⟨hs, hle⟩ := hsynced.poll hc sdk streamKey hfirst
        exact hf.wait hs hle
      · exact hf
  | other key ct page =>
      rw [Bootnode.exec, found, List.append_nil]
      split
      · rename_i hpage
        obtain ⟨hs, heq⟩ := hsynced.other hc sdk key ct hpage
        exact hf.wait hs (heq ▸ le_refl _)
      · exact hf
  | upstream answer =>
      rw [found, List.append_nil]
      exact hf.wait hsynced (le_refl _)
  | client =>
      have hstate := hf.readOnly.resume_state y.world
      rw [Bootnode.exec, hstate]
      obtain ⟨w, c⟩ := y
      cases c with
      | done session =>
          rw [found, List.append_nil]
          exact hf
      | await access rest =>
          refine ⟨hf.growing.snoc hsynced ?_, hf.readOnly.2 w, ?_⟩
          · -- the world just found stays
            intro v hv
            rcases List.mem_append.mp hv with hv | hv
            · exact hf.growing.le_last v hv
            · rw [List.mem_singleton.mp hv]
          · intro ws session hws
            rw [List.append_assoc]
            exact hf.trace _ _ (.await hws)

/-- The reads of a session that has ended are those of its trace. -/
theorem session_trace (hc : ChainOk chain) (sdk : StellarSdk V) (streamKey : String)
    {startLedger : Nat} {limits : List (Option Nat)} {steps : List Step} {session : Session}
    (hdone : clientAfter sdk streamKey deps chain startLedger limits steps = .done session) :
    Growing deps chain (reads sdk streamKey deps chain startLedger limits steps) ∧
      (clientSession deps (.ledger startLedger) [] limits).Trace
        (reads sdk streamKey deps chain startLedger limits steps) session := by
  have h0 : Following deps chain (clientSession deps (.ledger startLedger) [] limits)
      (System.start deps startLedger limits) [] := by
    refine ⟨⟨fun w hw => ?_, List.pairwise_singleton _ _⟩, clientSession_readOnly deps _ _ _,
      fun ws session h => h⟩
    rw [List.mem_singleton.mp hw]
    exact ⟨fun r hr => (by cases hr), rfl⟩
  have hf := @Run.prefix_invariant _ _ _ (exec sdk streamKey deps chain) found
    (Following deps chain (clientSession deps (.ledger startLedger) [] limits))
    (System.start deps startLedger limits) steps h0
    fun l step _ hl => hl.exec hc sdk streamKey step
  refine ⟨hf.growing.left, ?_⟩
  rw [clientAfter] at hdone
  have htrace := hf.trace [] session (by rw [hdone]; exact .done)
  rwa [List.append_nil] at htrace

end Bootnode

end PrivacyWallet
