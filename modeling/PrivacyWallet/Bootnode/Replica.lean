import PrivacyWallet.Api.Pagination
import PrivacyWallet.Backfill.Archive
import PrivacyWallet.Indexer.StateMachine

/-!
# An indexer that starts from a bootnode

`fetchBootnodeEvents` asks a bootnode for a page and maps its events to rows;
the bootnode may be the handler of this repository, over the table of another
indexer. An indexer that polls it until the handoff holds the other's rows,
equal field by field (`replica_identical`).

The two codecs meet in `mapBootnodeEvent_sent`: the id that the handler sends
is the natural id already, the client reads the event's index off it and
builds the same id again. So a page arrives as the rows that it was made of
(`mapM_mapBootnodeEvent`), and what is left is where a page starts.

`Replicating t cs c w` is the invariant of the replica: it holds the first
`c` of the rows that it is to hold, and its cursor names the last of them.
One poll from there (`Replicating.poll`)

- that goes through while rows are left brings more of them, and `c` grows;
- that goes through with nothing left brings the handoff, with all rows
  there;
- that fails at any access changes nothing (`exec_poll`): the rows and the
  cursor are written in one transaction.

`replica_run` carries it over a run. As `c` grows with each poll that goes
through, more of these than there are rows end in the handoff.
-/

namespace PrivacyWallet

namespace Bootnode

open Indexer Backfill Text

/-! ## The client of the bootnode -/

/-- An event as it is read off the response. -/
structure BootnodeWireEvent where
  type : String
  ledger : Nat
  ledgerClosedAt : Int
  contractId : String
  id : String
  operationIndex : Option Nat
  transactionIndex : Option Nat
  txHash : Option String
  inSuccessfulContractCall : Option Bool
  topic : List String
  value : String

/-- What the JSON of an event is read as. -/
def WireEvent.sent (event : WireEvent) : BootnodeWireEvent where
  type := event.type
  ledger := event.ledger
  ledgerClosedAt := event.ledgerClosedAt
  contractId := event.contractId
  id := event.id
  operationIndex := some event.operationIndex
  transactionIndex := some event.transactionIndex
  txHash := some event.txHash
  inSuccessfulContractCall := some event.inSuccessfulContractCall
  topic := event.topic
  value := event.value

def mapBootnodeEvent (event : BootnodeWireEvent) : Except String RawEvent :=
  match event.operationIndex, event.transactionIndex, event.txHash,
    event.inSuccessfulContractCall with
  | some operationIndex, some transactionIndex, some txHash, some inSuccessfulContractCall => do
      let eventIndex ← eventIndexFromId event.id
      pure {
        id := naturalEventId event.ledger txHash operationIndex eventIndex
        contractId := event.contractId
        ledger := event.ledger
        ledgerClosedAt := event.ledgerClosedAt
        txHash
        txIndex := transactionIndex
        opIndex := operationIndex
        eventIndex
        topic := event.topic
        valueXdr := event.value
        inSuccessfulCall := inSuccessfulContractCall }
  | _, _, _, _ => .error s!"fetchBootnodeEvents: event {event.id} is missing a required field (operationIndex/transactionIndex/txHash/inSuccessfulContractCall)"

/-- The parameters of the request, as the handler's schema takes them. A
`startLedger` that is `NaN` is sent as `null`. -/
def bootnodeParams (opts : FetchBootnodeEventsOptions) : Except String GetEventsParams :=
  let filters := [⟨"contract", [["**"]], opts.contractIds⟩]
  match opts.start with
  | .cursor cursor => .ok ⟨filters, ⟨none, some cursor⟩, none, none, none⟩
  | .startLedger (some startLedger) => .ok ⟨filters, ⟨none, none⟩, some startLedger, none, none⟩
  | .startLedger none => .error "Expected number, received null"

/-- The JSON of an error without data. -/
def errorJson (e : JsonRpcError) : String :=
  "\x7b\"code\":" ++ toString e.code ++ ",\"message\":\"" ++ e.message ++ "\"\x7d"

def readResponse : RpcOutcome GetEventsResult → Except String BootnodePage
  | .error e =>
      if e.code = retentionHandoffCode then
        match e.data with
        | none => .error
            ("fetchBootnodeEvents: retention handoff error missing data.fromLedger: "
              ++ errorJson e)
        | some data => .ok (.handoff data.fromLedger)
      else if e.code = cacheMissCode then .error e.message
      else .error s!"fetchBootnodeEvents: JSON-RPC error {e.code}: {e.message}"
  | .ok result => do
      let events ← (result.events.map WireEvent.sent).mapM mapBootnodeEvent
      pure (.page {
        events
        latestLedger := result.latestLedger
        cursor := if result.cursor = "" then none else some result.cursor
        oldestLedger := result.oldestLedger })

/-- `fetchBootnodeEvents`, of the bootnode that is this handler. -/
def fetchBootnodeEvents (deps : BootnodeHandlerDeps) (opts : FetchBootnodeEventsOptions) :
    Async (World Upstream) (Except String BootnodePage) := do
  let outcome ← getEventsRoute deps (bootnodeParams opts)
  pure (readResponse outcome)

/-! ## Two indexers -/

/-- A table of `events` whose ids are the natural ones, and whose rows have ids
and places of their own. -/
structure WellFormed (table : List EventRow) : Prop where
  natural : ∀ r ∈ table, r.id = naturalEventId r.ledger r.txHash r.opIndex r.eventIndex
  ids : (table.map (·.id)).Nodup
  positions : (table.map (·.position)).Nodup

/-- The network's bootnode is the handler over this table, which does not
change, with its upstream RPC within reach. -/
def ServedBy (network : Network) (deps : BootnodeHandlerDeps) (table : List EventRow) : Prop :=
  ∃ worlds : Nat → Nat → World Upstream,
    (∀ time i, (worlds time i).db.events = table ∧ (worlds time i).net.isSome = true) ∧
      ∀ time opts page, ((fetchBootnodeEvents deps opts).feed (worlds time)).2 = .ok page →
        network.fetchBootnodeEvents time opts = page

/-- The rows that a replica is to hold. -/
def replicated (deps : BootnodeHandlerDeps) (startLedger : Nat) (table : List EventRow) :
    List EventRow :=
  table.filter fun r =>
    decide (r.contractId ∈ deps.allowedContractIds) && decide (startLedger ≤ r.ledger)

/-- The stream's cursor is the one of a handoff. -/
def HandedOff (streamKey : String) (w : World Net) : Prop :=
  ∃ fromLedger : Nat, w.db.getCursor streamKey = some (handoffTag ++ toString fromLedger)

/-- A poll that goes through. -/
def completes : SppStep → Bool
  | .poll accesses => decide (3 ≤ accesses)
  | .tick => false
  | .init _ _ => false

/-- The network's time passes, or the stream is polled; a poll may fail at any
of its accesses. -/
def polls : SppStep → Bool
  | .poll _ => true
  | .tick => true
  | .init _ _ => false

/-! ## An event there and back -/

/-- The event whose row is `r`. -/
def rawOf (r : EventRow) : RawEvent where
  id := r.id
  contractId := r.contractId
  ledger := r.ledger
  ledgerClosedAt := r.ledgerClosedAt
  txHash := r.txHash
  txIndex := r.txIndex
  opIndex := r.opIndex
  eventIndex := r.eventIndex
  topic := r.topic
  valueXdr := r.valueXdr
  inSuccessfulCall := r.inSuccessfulCall

@[simp] theorem toNewEventRow_rawOf (r : EventRow) : toNewEventRow (rawOf r) = r := rfl

theorem eventIndexFromId_natural (ledger : Nat) (txHash : String) (opIndex eventIndex : Nat) :
    eventIndexFromId (naturalEventId ledger txHash opIndex eventIndex) = .ok eventIndex := by
  unfold eventIndexFromId naturalEventId
  rw [show "-" = String.ofList ['-'] from rfl, afterLast_eq (dash_notMem_repr eventIndex),
    number_repr]

/-- An event is read back as the row that it was sent for: its index comes back from the
id, and the id from the index. -/
theorem mapBootnodeEvent_sent {r : EventRow}
    (h : r.id = naturalEventId r.ledger r.txHash r.opIndex r.eventIndex) :
    mapBootnodeEvent (mapEventRow r).sent = .ok (rawOf r) := by
  have hindex : eventIndexFromId (mapEventRow r).sent.id = .ok r.eventIndex := by
    change eventIndexFromId r.id = _
    rw [h, eventIndexFromId_natural]
  unfold mapBootnodeEvent
  rw [hindex]
  change Except.ok _ = _
  rw [rawOf, h]
  rfl

theorem mapM_mapBootnodeEvent {rows : List EventRow}
    (h : ∀ r ∈ rows, r.id = naturalEventId r.ledger r.txHash r.opIndex r.eventIndex) :
    ((rows.map mapEventRow).map WireEvent.sent).mapM mapBootnodeEvent = .ok (rows.map rawOf) := by
  induction rows with
  | nil => rfl
  | cons r rows ih =>
      have hrest := ih fun r' hr' => h r' (List.mem_cons_of_mem _ hr')
      rw [List.map_cons, List.map_cons, List.mapM_cons,
        mapBootnodeEvent_sent (h r List.mem_cons_self), hrest]
      rfl

/-- A natural id is no text that the stream tags. -/
theorem naturalEventId_plain (ledger : Nat) (txHash : String) (opIndex eventIndex : Nat) :
    Plain (naturalEventId ledger txHash opIndex eventIndex) := by
  unfold naturalEventId
  rw [String.append_assoc, String.append_assoc, String.append_assoc, String.append_assoc,
    String.append_assoc]
  exact ⟨startsWith_repr_append (c := 'l') rfl (by decide) _ _,
    startsWith_repr_append (c := 'h') rfl (by decide) _ _,
    startsWith_repr_append (c := 'r') rfl (by decide) _ _⟩

theorem naturalEventId_ne_empty (ledger : Nat) (txHash : String) (opIndex eventIndex : Nat) :
    naturalEventId ledger txHash opIndex eventIndex ≠ "" := by
  intro h
  have hlength := congrArg String.length h
  unfold naturalEventId at hlength
  simp at hlength

/-! ## One request -/

theorem sortIds_perm {ids ids' : List String} (h : ids.Perm ids') : sortIds ids = sortIds ids' :=
  ((List.perm_insertionSort _ ids).trans
    (h.trans (List.perm_insertionSort _ ids').symm)).eq_of_pairwise
    (fun _ _ _ _ => le_antisymm) (List.pairwise_insertionSort _ _) (List.pairwise_insertionSort _ _)

/-- Where a request starts. -/
inductive StartOf : FetchStart → EventsStart → Prop where
  | ledger (startLedger : Nat) : StartOf (.startLedger (some startLedger)) (.ledger startLedger)
  | cursor (cursor : String) : StartOf (.cursor cursor) (.cursor cursor)

/-- The order of the contracts does not matter to the handler. -/
theorem getEventsRoute_bootnodeParams {deps : BootnodeHandlerDeps} {contractIds : List String}
    (hperm : contractIds.Perm deps.allowedContractIds) {start : FetchStart} {start' : EventsStart}
    (hstart : StartOf start start') :
    getEventsRoute deps (bootnodeParams ⟨contractIds, start⟩)
      = getEventsRoute deps (.ok (request deps start' none)) := by
  have hsort := sortIds_perm hperm
  rw [getEventsRoute_request]
  cases hstart with
  | ledger startLedger =>
      simp [getEventsRoute, handleGetEvents, bootnodeParams, startOf, isAllowedFilters, hsort]
  | cursor cursor =>
      simp [getEventsRoute, handleGetEvents, bootnodeParams, startOf, isAllowedFilters, hsort]

/-- What the bootnode answers from the place `c`: a handoff, as nothing is left,
or the rows of a page. -/
inductive Answer (rows : List EventRow) (c : Option Api.Position) : BootnodePage → Prop where
  | handoff {fromLedger : Nat} (hrest : rows.filter (fun r => Keyset.past c r.position) = []) :
      Answer rows c (.handoff fromLedger)
  | page {n latestLedger oldestLedger : Nat} {last : EventRow}
      (hlast : (Keyset.window EventRow.position rows c n).getLast? = some last) :
      Answer rows c (.page ⟨(Keyset.window EventRow.position rows c n).map rawOf, latestLedger,
        some last.id, oldestLedger⟩)

section Request

variable {deps : BootnodeHandlerDeps} {table : List EventRow} {startLedger : Nat}

theorem requested_eq {db : Db} (h : db.events = table) :
    Api.requested deps.allowedContractIds none (.ledger startLedger) db
      = replicated deps startLedger table := by
  rw [Api.requested, h, replicated]
  refine List.filter_congr fun r _ => ?_
  simp [inScope, Api.From.admits]

/-- Each request is answered. The handler serves it as it serves any client
(`Api.getEventsRoute_served`); it has no error to send, as its upstream is
within reach and the table has a row; and of a page the codecs give the rows
back. -/
theorem fetchBootnodeEvents_answer (htable : WellFormed table)
    (hrow : ∃ r ∈ table, r.contractId ∈ deps.allowedContractIds) {worlds : Nat → World Upstream}
    (hworlds : ∀ i, (worlds i).db.events = table ∧ (worlds i).net.isSome = true)
    {contractIds : List String} (hperm : contractIds.Perm deps.allowedContractIds)
    {start : FetchStart} {start' : EventsStart} (hstart : StartOf start start')
    {c : Option Api.Position}
    (hat : Api.EventsAt deps.allowedContractIds none (.ledger startLedger) (·.id) (worlds 0).db
      start' c) :
    ∃ page, ((fetchBootnodeEvents deps ⟨contractIds, start⟩).feed worlds).2 = .ok page ∧
      Answer (replicated deps startLedger table) c page := by
  have hgrow : Api.Worlds worlds := by
    refine ⟨fun i => ?_, fun i => ?_, fun i => ?_⟩
    · rw [(hworlds i).1]
      exact htable.ids
    · rw [(hworlds i).1]
      exact htable.positions
    · rw [(hworlds i).1, (hworlds (i + 1)).1]
      exact Api.Appended.refl table
  obtain ⟨j, hserved⟩ := Api.getEventsRoute_served hgrow hat none
  have hfeed : ((fetchBootnodeEvents deps ⟨contractIds, start⟩).feed worlds).2
      = readResponse ((getEventsRoute deps (.ok (request deps start' none))).feed worlds).2 := by
    rw [fetchBootnodeEvents, getEventsRoute_bootnodeParams hperm hstart, Async.feed_bind]
    rfl
  rw [hfeed]
  generalize (getEventsRoute deps (.ok (request deps start' none))).feed worlds = answered
    at hserved
  cases hserved with
  | retry he hwhy =>
      -- the upstream answers, and the table has a row
      obtain ⟨i, hnet | hnone⟩ := hwhy
      · have hsome := (hworlds i).2
        rw [hnet] at hsome
        cases hsome
      · obtain ⟨r, hr, hcontract⟩ := hrow
        rw [indexedRows, (hworlds i).1] at hnone
        exact absurd (decide_eq_true hcontract) (List.filter_eq_nil_iff.mp hnone r hr)
  | @handoff bounds hrest =>
      rw [requested_eq (hworlds j).1] at hrest
      exact ⟨.handoff (bounds.max + 1), rfl, .handoff hrest⟩
  | @page result n last hlast hevents hcursor =>
      rw [requested_eq (hworlds j).1] at hlast hevents
      have hmem : ∀ r ∈ Keyset.window EventRow.position (replicated deps startLedger table) c n,
          r.id = naturalEventId r.ledger r.txHash r.opIndex r.eventIndex :=
        fun r hr => htable.natural r (List.mem_of_mem_filter (Keyset.mem_of_mem_window hr).1)
      have hid : last.id ≠ "" := by
        rw [hmem last (List.mem_of_getLast? hlast)]
        exact naturalEventId_ne_empty _ _ _ _
      refine ⟨_, ?_, @Answer.page _ _ n result.latestLedger result.oldestLedger last hlast⟩
      unfold readResponse
      dsimp only
      rw [hevents, mapM_mapBootnodeEvent hmem, hcursor, if_neg hid]
      rfl

end Request

/-! ## Polling until the handoff -/

/-- The replica while it follows the bootnode: it holds the rows up to the place
`c`, which its cursor names. -/
structure Replicating (deps : BootnodeHandlerDeps) (table : List EventRow) (startLedger : Nat)
    (streamKey : String) (w : World Net) (c : Option Api.Position) : Prop where
  collected : Keyset.Collected EventRow.position (· ∈ replicated deps startLedger table)
    (replicated deps startLedger table) c w.db.events
  cursor : (c = none ∧ w.db.getCursor streamKey = none) ∨
    ∃ r ∈ replicated deps startLedger table, c = some r.position ∧
      w.db.getCursor streamKey = some r.id

section Poll

variable {V : Type} {sdk : StellarSdk V} {network : Network} {config : SourceConfig}
  {deps : BootnodeHandlerDeps} {table : List EventRow} {streamKey : String}
  {ctTokenId : Option String}

theorem WellFormed.plain_id {startLedger : Nat} (htable : WellFormed table) {r : EventRow}
    (hr : r ∈ replicated deps startLedger table) : Plain r.id := by
  rw [htable.natural r (List.mem_of_mem_filter hr)]
  exact naturalEventId_plain _ _ _ _

/-- The call that the replica makes is answered from where it stands. -/
theorem Replicating.answered (htable : WellFormed table)
    (hrow : ∃ r ∈ table, r.contractId ∈ deps.allowedContractIds)
    (hserved : ServedBy network deps table)
    (hperm : config.contractIds.Perm deps.allowedContractIds) {w : World Net}
    {c : Option Api.Position}
    (h : Replicating deps table config.startLedger streamKey w c) :
    ∃ page, (((decodeStage (w.db.getCursor streamKey)).call network config w.net.time).result
        = bootnodeResult page) ∧ Answer (replicated deps config.startLedger table) c page := by
  obtain ⟨worlds, hworlds, hnetwork⟩ := hserved
  have hstage : ∃ (start : FetchStart) (start' : EventsStart), StartOf start start' ∧
      Api.EventsAt deps.allowedContractIds none (.ledger config.startLedger) (·.id)
        (worlds w.net.time 0).db start' c ∧
      (decodeStage (w.db.getCursor streamKey)).call network config w.net.time
        = .bootnode ⟨config.contractIds, start⟩
            (network.fetchBootnodeEvents w.net.time ⟨config.contractIds, start⟩) := by
    rcases h.cursor with ⟨rfl, hcursor⟩ | ⟨r, hr, rfl, hcursor⟩
    · refine ⟨_, _, .ledger config.startLedger, ?_, ?_⟩
      · exact @Api.EventsAt.start _ _ (.ledger config.startLedger) _ _ trivial
      · rw [hcursor]
        rfl
    · refine ⟨_, _, .cursor r.id, .after ?_, ?_⟩
      · rw [requested_eq (hworlds _ 0).1]
        exact hr
      · have hplain := htable.plain_id hr
        have hdecode : decodeStage (some r.id) = .bootnode (.cursor r.id) := by
          unfold decodeStage decodeResumeToken
          simp [hplain.1, hplain.2.1, hplain.2.2]
        rw [hcursor, hdecode]
        rfl
  obtain ⟨start, start', hstart, hat, hcall⟩ := hstage
  obtain ⟨page, hpage, hanswer⟩ := fetchBootnodeEvents_answer htable hrow (hworlds w.net.time)
    hperm hstart hat
  refine ⟨page, ?_, hanswer⟩
  rw [hcall, hnetwork _ _ _ hpage]
  rfl

/-- A replica that follows the bootnode is not handed off. -/
theorem Replicating.not_handedOff {startLedger : Nat} (htable : WellFormed table) {w : World Net}
    {c : Option Api.Position} (h : Replicating deps table startLedger streamKey w c) :
    ¬HandedOff streamKey w := by
  rintro ⟨fromLedger, hhandoff⟩
  rcases h.cursor with ⟨-, hcursor⟩ | ⟨r, hr, -, hcursor⟩
  · rw [hcursor] at hhandoff
    cases hhandoff
  · rw [hcursor, Option.some.injEq] at hhandoff
    have hfalse := (htable.plain_id hr).2.1
    rw [hhandoff, startsWith_append] at hfalse
    cases hfalse

/-- A poll that goes through brings a handoff, and all rows are there, or more
rows. -/
theorem Replicating.poll (htable : WellFormed table)
    (hrow : ∃ r ∈ table, r.contractId ∈ deps.allowedContractIds)
    (hserved : ServedBy network deps table)
    (hperm : config.contractIds.Perm deps.allowedContractIds) {w w' : World Net}
    {c : Option Api.Position}
    (h : Replicating deps table config.startLedger streamKey w c)
    (hw' : w'.db = commitPage sdk streamKey ctTokenId
      ((decodeStage (w.db.getCursor streamKey)).call network config w.net.time).result w.db) :
    (HandedOff streamKey w' ∧
        w'.db.events.Perm (replicated deps config.startLedger table)) ∨
      ∃ c', Replicating deps table config.startLedger streamKey w' c' ∧
        w.db.events.length < w'.db.events.length := by
  obtain ⟨page, hresult, hanswer⟩ := h.answered htable hrow hserved hperm
  rw [hresult] at hw'
  have hevents : w'.db.events = _ := (congrArg Db.events hw').trans (commitPage_events ..)
  have hcursors : w'.db.cursors = _ := (congrArg Db.cursors hw').trans (commitPage_cursors ..)
  have hdistinct : ((replicated deps config.startLedger table).map (·.position)).Nodup :=
    htable.positions.sublist (List.filter_sublist.map _)
  cases hanswer with
  | @handoff fromLedger hrest =>
      refine .inl ⟨⟨fromLedger, ?_⟩, ?_⟩
      · rw [Db.getCursor, hcursors]
        exact Function.update_self ..
      · have hsame : w'.db.events = w.db.events := hevents
        rw [hsame]
        refine (List.perm_ext_iff_of_nodup (Keyset.nodup_of_sorted h.collected.sorted)
          (List.Nodup.of_map _ hdistinct)).mpr fun r => ⟨h.collected.held r, fun hr => ?_⟩
        refine h.collected.all r hr ?_
        rw [← Bool.not_eq_true]
        exact List.filter_eq_nil_iff.mp hrest r hr
  | @page n latestLedger oldestLedger last hlast =>
      have hmem := List.mem_of_getLast? hlast
      have hpage := h.collected.page hdistinct (fun r hr => hr) hlast
      have hids : ((w.db.events ++ Keyset.window EventRow.position
          (replicated deps config.startLedger table) c n).map (·.id)).Nodup := by
        refine (Keyset.nodup_of_sorted hpage.sorted).map_on fun a ha b hb hab => ?_
        exact List.inj_on_of_nodup_map htable.ids (List.mem_of_mem_filter (hpage.held a ha))
          (List.mem_of_mem_filter (hpage.held b hb)) hab
      have hgrown : w'.db.events = w.db.events ++ Keyset.window EventRow.position
          (replicated deps config.startLedger table) c n := by
        have hrows : (bootnodeResult (.page ⟨(Keyset.window EventRow.position
            (replicated deps config.startLedger table) c n).map rawOf, latestLedger, some last.id,
              oldestLedger⟩)).events.map toNewEventRow
              = Keyset.window EventRow.position (replicated deps config.startLedger table) c n := by
          simp [bootnodeResult, Function.comp_def]
        rw [hevents, hrows, Table.insertAllNew_of_nodup hids]
      refine .inr ⟨some last.position,
        ⟨?_, .inr ⟨last, (Keyset.mem_of_mem_window hmem).1, rfl, ?_⟩⟩, ?_⟩
      · rw [hgrown]
        exact hpage
      · rw [Db.getCursor, hcursors]
        exact Function.update_self ..
      · rw [hgrown, List.length_append]
        have hpos := List.length_pos_of_mem hmem
        omega

theorem Replicating.of_db {startLedger : Nat} {w w' : World Net} {c : Option Api.Position}
    (h : Replicating deps table startLedger streamKey w c) (hdb : w'.db = w.db) :
    Replicating deps table startLedger streamKey w' c where
  collected := hdb ▸ h.collected
  cursor := hdb ▸ h.cursor

/-- A poll commits, or changes nothing. -/
theorem exec_poll (accesses : Nat) (w : World Net) :
    ((SppStep.poll accesses).exec sdk network config streamKey ctTokenId w).db
      = if 3 ≤ accesses then commitPage sdk streamKey ctTokenId
          ((decodeStage (w.db.getCursor streamKey)).call network config w.net.time).result w.db
        else w.db := by
  unfold SppStep.exec
  simp only [pollSpp_eq]
  match accesses with
  | 0 => rfl
  | 1 => rfl
  | 2 => rfl
  | n + 3 => simp

/-- One step of a replica that follows the bootnode. Time that passes leaves the database,
a poll commits or leaves it too. -/
theorem Replicating.step (htable : WellFormed table)
    (hrow : ∃ r ∈ table, r.contractId ∈ deps.allowedContractIds)
    (hserved : ServedBy network deps table)
    (hperm : config.contractIds.Perm deps.allowedContractIds) {w : World Net}
    {c : Option Api.Position} (h : Replicating deps table config.startLedger streamKey w c)
    {step : SppStep} (hstep : polls step = true) :
    let w' := step.exec sdk network config streamKey ctTokenId w
    (HandedOff streamKey w' ∧ w'.db.events.Perm (replicated deps config.startLedger table)) ∨
      ∃ c', Replicating deps table config.startLedger streamKey w' c' ∧
        w.db.events.length + [step].countP completes ≤ w'.db.events.length := by
  intro w'
  cases step with
  | init lastBackfilledLedger accesses => cases hstep
  | tick => exact .inr ⟨c, h.of_db rfl, le_refl _⟩
  | poll accesses =>
      have hdb : w'.db = _ := exec_poll accesses w
      by_cases hcompletes : 3 ≤ accesses
      · rw [if_pos hcompletes] at hdb
        rcases h.poll htable hrow hserved hperm hdb with hdone | ⟨c', hnext, hmore⟩
        · exact .inl hdone
        · refine .inr ⟨c', hnext, ?_⟩
          have hone : completes (.poll accesses) = true := decide_eq_true hcompletes
          rw [List.countP_singleton, if_pos hone]
          exact hmore
      · rw [if_neg hcompletes] at hdb
        refine .inr ⟨c, h.of_db hdb, ?_⟩
        rw [List.countP_singleton, if_neg (by simpa [completes] using hcompletes), hdb]
        exact le_refl _

/-- A run of polls: the replica was handed off at some point, with all rows, or it still
follows the bootnode, with at least a row for each poll that went through. -/
theorem replica_run (htable : WellFormed table)
    (hrow : ∃ r ∈ table, r.contractId ∈ deps.allowedContractIds)
    (hserved : ServedBy network deps table)
    (hperm : config.contractIds.Perm deps.allowedContractIds) (steps : List SppStep)
    (hsteps : ∀ step ∈ steps, polls step = true) :
    let world := sppWorld sdk network config streamKey ctTokenId
    (∃ pre, pre <+: steps ∧ HandedOff streamKey (world pre) ∧
        (world pre).db.events.Perm (replicated deps config.startLedger table) ∧
        ∀ l, l <+: pre → l ≠ pre → ¬HandedOff streamKey (world l)) ∨
      ((∃ c, Replicating deps table config.startLedger streamKey (world steps) c) ∧
        steps.countP completes ≤ (world steps).db.events.length ∧
        ∀ l, l <+: steps → ¬HandedOff streamKey (world l)) := by
  intro world
  induction steps using List.reverseRecOn with
  | nil =>
      have hstart : Replicating deps table config.startLedger streamKey (world []) none :=
        ⟨.start _ _, .inl ⟨rfl, rfl⟩⟩
      refine .inr ⟨⟨none, hstart⟩, le_refl _, fun l hl => ?_⟩
      rw [List.prefix_nil.mp hl]
      exact hstart.not_handedOff htable
  | append_singleton steps step ih =>
      rcases ih fun s hs => hsteps s (List.mem_append_left _ hs) with
        ⟨pre, hpre, hdone⟩ | ⟨⟨c, hfollows⟩, hcount, hbefore⟩
      · exact .inl ⟨pre, hpre.trans (List.prefix_append _ _), hdone⟩
      · have hworld : world (steps ++ [step])
            = step.exec sdk network config streamKey ctTokenId (world steps) :=
          Run.run_snoc _ _ _ _
        rcases hfollows.step htable hrow hserved hperm
          (hsteps step (List.mem_append_right _ List.mem_cons_self)) with
          ⟨hhandoff, hperm'⟩ | ⟨c', hnext, hmore⟩
        · refine .inl ⟨steps ++ [step], List.prefix_refl _, hworld ▸ hhandoff, hworld ▸ hperm',
            fun l hl hne => ?_⟩
          rcases List.prefix_concat_iff.mp hl with rfl | hl
          · exact absurd rfl hne
          · exact hbefore l hl
        · rw [← hworld] at hnext hmore
          refine .inr ⟨⟨c', hnext⟩, ?_, fun l hl => ?_⟩
          · rw [List.countP_append]
            omega
          · rcases List.prefix_concat_iff.mp hl with rfl | hl
            · exact hnext.not_handedOff htable
            · exact hbefore l hl

end Poll

/-- Whatever polls go through, as soon as there are more of them than rows, the
replica was handed off; and at that moment its table held the rows of the
bootnode's table, from its start ledger on, field by field.

By `replica_run` the only other outcome is a replica that still follows the
bootnode and holds at least a row for each poll, which are more than there
are. -/
theorem replica_identical {V : Type} (sdk : StellarSdk V) (network : Network)
    (config : SourceConfig) (deps : BootnodeHandlerDeps) (table : List EventRow)
    (streamKey : String) (ctTokenId : Option String)
    (hperm : config.contractIds.Perm deps.allowedContractIds) (htable : WellFormed table)
    (hrow : ∃ r ∈ table, r.contractId ∈ deps.allowedContractIds)
    (hserved : ServedBy network deps table) (steps : List SppStep)
    (hsteps : ∀ step ∈ steps, polls step = true)
    (hlong : (replicated deps config.startLedger table).length < steps.countP completes) :
    ∃ pre, pre <+: steps ∧
      HandedOff streamKey (sppWorld sdk network config streamKey ctTokenId pre) ∧
      (sppWorld sdk network config streamKey ctTokenId pre).db.events.Perm
        (replicated deps config.startLedger table) ∧
      ∀ l, l <+: pre → l ≠ pre →
        ¬HandedOff streamKey (sppWorld sdk network config streamKey ctTokenId l) := by
  rcases @replica_run V sdk network config deps table streamKey ctTokenId htable hrow hserved hperm
    steps hsteps with hdone | ⟨⟨c, hfollows⟩, hcount, -⟩
  · exact hdone
  · have hle := Keyset.length_le_of_sorted hfollows.collected.sorted hfollows.collected.held
    omega

/-! ## A table of three pages -/

/-- The network of an indexer whose bootnode is a handler over the table; the
RPC has nothing. -/
def bootnodeNetwork (deps : BootnodeHandlerDeps) (world : World Upstream) : Network where
  fetchRpcEvents _ _ := ⟨[], 3900644, none, 0⟩
  fetchBootnodeEvents _ opts :=
    match ((fetchBootnodeEvents deps opts).feed fun _ => world).2 with
    | .ok page => page
    | .error _ => .handoff 0

/-- A bootnode that holds the table; its upstream is at ledger 3903000. -/
def holding (table : List EventRow) : World Upstream where
  db := { Db.empty with events := table }
  net := some ⟨"0", 23, 3903000, "1785522900"⟩

theorem bootnodeNetwork_servedBy (deps : BootnodeHandlerDeps) (table : List EventRow) :
    ServedBy (bootnodeNetwork deps (holding table)) deps table := by
  refine ⟨fun _ _ => holding table, fun _ _ => ⟨rfl, rfl⟩, fun time opts page hpage => ?_⟩
  unfold bootnodeNetwork
  dsimp only
  rw [hpage]

/-- The contract of the `i`-th row; the bootnode allows two of the three. -/
def replicaContract (i : Nat) : String :=
  match i % 3 with
  | 0 => mergeToken
  | 1 => "CAAAAAAAAAAAAAAAAAAAAAAAAAAAAAAAAAAAAAAAAAAAAAAAAAAAD2KM"
  | _ => "CAQCAIBAEAQCAIBAEAQCAIBAEAQCAIBAEAQCAIBAEAQCAIBAEAQCAMCJ"

def replicaDeps : BootnodeHandlerDeps where
  allowedContractIds :=
    [mergeToken, "CAAAAAAAAAAAAAAAAAAAAAAAAAAAAAAAAAAAAAAAAAAAAAAAAAAAD2KM"]

/-- A transaction emits two events in a ledger, and the next one in the ledger
after it. -/
def replicaRow (i : Nat) : EventRow :=
  { toNewEventRow mergeEvent with
    id := naturalEventId (3900644 + i / 2) mergeEvent.txHash 0 (i % 2)
    contractId := replicaContract i
    ledger := 3900644 + i / 2
    eventIndex := i % 2 }

def replicaTable : List EventRow := (List.range 4500).map replicaRow

theorem replicaRow_position_inj {i j : Nat}
    (h : (replicaRow i).position = (replicaRow j).position) : i = j := by
  have hpair := toLex_inj.mp h
  have hledger : 3900644 + i / 2 = 3900644 + j / 2 := congrArg Prod.fst hpair
  have hindex : i % 2 = j % 2 :=
    congrArg (fun p : Nat ×ₗ Nat => (ofLex p).2)
      (congrArg (fun p : Nat ×ₗ Nat ×ₗ Nat => (ofLex p).2) (congrArg Prod.snd hpair))
  omega

theorem replicaRow_id_inj {i j : Nat} (h : (replicaRow i).id = (replicaRow j).id) : i = j := by
  obtain ⟨-, hindex, hrest⟩ := naturalEventId_inj h
  rw [String.append_assoc, String.append_assoc] at hrest
  have hledger := repr_injective ((String.append_left_inj _).mp hrest)
  omega

theorem replicaTable_wellFormed : WellFormed replicaTable where
  natural r hr := by
    obtain ⟨i, -, rfl⟩ := List.mem_map.mp hr
    rfl
  ids := by
    rw [replicaTable, List.map_map]
    exact List.nodup_range.map fun i j => replicaRow_id_inj
  positions := by
    rw [replicaTable, List.map_map]
    exact List.nodup_range.map fun i j => replicaRow_position_inj

/-- Of the `4500` rows the bootnode serves two thirds, a thousand a page. Every
third poll of the replica fails before its transaction. -/
def replicaSteps : List SppStep :=
  (List.replicate 4501 [SppStep.poll 3, .poll 3, .poll 2]).flatten

/-- The replica is handed off with all three pages. -/
theorem replica_identical_pages : ∃ pre, pre <+: replicaSteps ∧
    HandedOff "spp" (sppWorld mergeSdk (bootnodeNetwork replicaDeps (holding replicaTable))
      ⟨replicaDeps.allowedContractIds.reverse, 3900600, none⟩ "spp" none pre) ∧
    (sppWorld mergeSdk (bootnodeNetwork replicaDeps (holding replicaTable))
      ⟨replicaDeps.allowedContractIds.reverse, 3900600, none⟩ "spp" none pre).db.events.Perm
        (replicated replicaDeps 3900600 replicaTable) := by
  have hpolls : ∀ step ∈ replicaSteps, polls step = true := by
    intro step hstep
    obtain ⟨l, hl, hmem⟩ := List.mem_flatten.mp hstep
    rw [List.eq_of_mem_replicate hl] at hmem
    have hround : ∀ step ∈ [SppStep.poll 3, .poll 3, .poll 2], polls step = true := by decide
    exact hround step hmem
  have hfirst : replicaRow 0 ∈ replicaTable :=
    List.mem_map.mpr ⟨0, List.mem_range.mpr (by omega), rfl⟩
  have hlong : (replicated replicaDeps 3900600 replicaTable).length
      < replicaSteps.countP completes := by
    have hle : (replicated replicaDeps 3900600 replicaTable).length ≤ 4500 :=
      (List.length_filter_le _ _).trans (by rw [replicaTable, List.length_map, List.length_range])
    have hcount : replicaSteps.countP completes = 9002 := by
      rw [replicaSteps, List.countP_flatten, List.map_replicate, List.sum_replicate]
      rfl
    omega
  obtain ⟨pre, hpre, hdone, hevents, -⟩ := replica_identical mergeSdk
    (bootnodeNetwork replicaDeps (holding replicaTable))
    ⟨replicaDeps.allowedContractIds.reverse, 3900600, none⟩ replicaDeps replicaTable "spp" none
    (List.reverse_perm _) replicaTable_wellFormed
    ⟨replicaRow 0, hfirst, List.mem_cons_self⟩
    (bootnodeNetwork_servedBy replicaDeps replicaTable) replicaSteps hpolls hlong
  exact ⟨pre, hpre, hdone, hevents⟩

end Bootnode

end PrivacyWallet
