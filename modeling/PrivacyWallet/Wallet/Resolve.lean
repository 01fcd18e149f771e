import PrivacyWallet.Indexer.ExactlyOnce
import PrivacyWallet.Wallet.CtIndexer

/-!
# From an activity row to its event

A row of the activity feed names an event; `resolveActivityEvent` asks the API
for the first page of the event's ledger and looks for the event there. The
worker and the client decode one row of `events` each in their own way, and
where both decode it they agree (`isEventOf_of_decoded`). So a row opens if and
only if its event is on that page and nothing on the page throws
(`resolveActivityEvent_iff`).

There are two halves. The decoders are compared by what they read of an event
(`Decoding`): either side is brought to the same type, parties and amount,
by cases on the event's kind (`normalizeCtEvent_read`,
`parseApiEvent_read`). The page is computed from the table: the query of one
ledger selects the contract's rows of it, in order, and the first 200 are
what the lookup gets (`resolveActivityEvent_feed`); so the event is on it if
and only if fewer than 200 of them come before it (`ahead`).

That the lookup meets the right event on the page, and no other, rests on
rows having places and ids of their own, which holds of any part of a history
(`nodup_of_history`). The result is for the tables of a whole run of polls,
by `indexed`.
-/

namespace PrivacyWallet

namespace Wallet

open Indexer Bootnode

variable {V Point : Type} (sdk : EventSdk V Point)

/-! ## The lookup -/

structure EventRef where
  ledger : Nat
  id : String
  txHash : String

/-- The query of the URL: one ledger, one page. -/
def refQuery (ref : EventRef) : Api.EventsQuerystring where
  startLedger := some (.integer ref.ledger)
  endLedger := some (.integer ref.ledger)
  cursor := none
  limit := some (.integer 200)

/-- The event that is named, among the rows of a page. -/
def findRef (ref : EventRef) (rows : List Api.EventItem) :
    Except String (Option (ConfidentialEvent Point)) := do
  let events ← parsePage sdk rows
  match events.find? fun e => decide (e.cursor = ref.id) with
  | none => pure none
  | some e => if e.txHash ≠ ref.txHash then pure none else pure (some e)

def resolveEventRef (contractId : String) (ref : EventRef) :
    Async (Backend V) (Except String (Option (ConfidentialEvent Point))) := do
  let backend ← Async.read
  if backend.online then do
    match ← (Api.eventsRoute contractId (refQuery ref)).observe Backend.db with
    | some (.ok page) => pure (findRef sdk ref page.events)
    | some (.error _) => pure (.ok none)
    | none => pure (.ok none)
  else pure (.error "Failed to fetch")

def resolveActivityEvent (token : String) (row : NewCtActivityRow) :
    Async (Backend V) (Except String (Option (ConfidentialEvent Point))) :=
  resolveEventRef sdk token ⟨row.ledger, row.eventId, row.txHash⟩

/-! ## What an event says -/

def ComplianceEventType.name : ComplianceEventType → String
  | .frozen => "frozen"
  | .unfrozen => "unfrozen"
  | .userAllowed => "user_allowed"
  | .userDisallowed => "user_disallowed"
  | .userBlocked => "user_blocked"
  | .userUnblocked => "user_unblocked"

/-- `ev.type` -/
def EventBody.type : EventBody Point → String
  | .register .. => "register"
  | .deposit .. => "deposit"
  | .merge .. => "merge"
  | .withdraw .. => "withdraw"
  | .transfer .. => "transfer"
  | .compliance type _ => type.name

/-- The two sides of an event; an account alone is both. -/
def EventBody.parties : EventBody Point → String × String
  | .register account _ => (account, account)
  | .deposit src dst _ => (src, dst)
  | .merge account => (account, account)
  | .withdraw src dst .. => (src, dst)
  | .transfer src dst .. => (src, dst)
  | .compliance _ account => (account, account)

/-- The event is the one that the row is about. -/
structure IsEventOf (row : NewCtActivityRow) (event : ConfidentialEvent Point) : Prop where
  id : event.cursor = row.eventId
  ledger : event.ledger = row.ledger
  txHash : event.txHash = row.txHash
  type : event.body.type = row.type
  parties : event.body.parties = (row.account, row.counterparty) ∨
    event.body.parties = (row.counterparty, row.account)

/-! ## The worker and the client on one event -/

/-- The parties that the topics of an event name. -/
def partiesOf (addr : Nat → Except String String) (name : String) :
    Except String (String × String) := do
  let src ← addr 1
  if name ∈ ["deposit", "withdraw", "transfer"] then do
    let dst ← addr 2
    pure (src, dst)
  else pure (src, src)

variable {sdk}

theorem partiesOf_one {addr : Nat → Except String String} {name account : String}
    (hname : name ∉ ["deposit", "withdraw", "transfer"]) (haccount : addr 1 = .ok account) :
    partiesOf addr name = .ok (account, account) := by
  rw [partiesOf, haccount]
  exact if_neg hname

theorem partiesOf_both {addr : Nat → Except String String} {name src dst : String}
    (hname : name ∈ ["deposit", "withdraw", "transfer"]) (hsrc : addr 1 = .ok src)
    (hdst : addr 2 = .ok dst) : partiesOf addr name = .ok (src, dst) := by
  rw [partiesOf, hsrc, hdst]
  exact if_pos hname

/-- The client's side. -/
theorem buildBody_parties {addr : Nat → Except String String} {data : EventDataAccessor Point}
    {name : String} {body : Option (EventBody Point)} (hname : name ∈ mappedTopics)
    (h : buildBody addr data name = .ok body) :
    ∃ b, body = some b ∧ b.type = name ∧ partiesOf addr name = .ok b.parties := by
  simp only [mappedTopics, List.mem_cons, List.not_mem_nil, or_false] at hname
  rcases hname with rfl | rfl | rfl | rfl | rfl
  · obtain ⟨account, haccount, h⟩ := Checks.bind_ok.mp h
    obtain ⟨auditorId, -, h⟩ := Checks.bind_ok.mp h
    cases h
    exact ⟨_, rfl, rfl, partiesOf_one (by decide) haccount⟩
  · obtain ⟨src, hsrc, h⟩ := Checks.bind_ok.mp h
    obtain ⟨dst, hdst, h⟩ := Checks.bind_ok.mp h
    obtain ⟨amount, -, h⟩ := Checks.bind_ok.mp h
    cases h
    exact ⟨_, rfl, rfl, partiesOf_both (by decide) hsrc hdst⟩
  · obtain ⟨account, haccount, h⟩ := Checks.bind_ok.mp h
    cases h
    exact ⟨_, rfl, rfl, partiesOf_one (by decide) haccount⟩
  · obtain ⟨src, hsrc, h⟩ := Checks.bind_ok.mp h
    obtain ⟨dst, hdst, h⟩ := Checks.bind_ok.mp h
    obtain ⟨amount, -, h⟩ := Checks.bind_ok.mp h
    obtain ⟨rE, -, h⟩ := Checks.bind_ok.mp h
    obtain ⟨sigma, -, h⟩ := Checks.bind_ok.mp h
    obtain ⟨bTilde, -, h⟩ := Checks.bind_ok.mp h
    obtain ⟨bAudS, -, h⟩ := Checks.bind_ok.mp h
    cases h
    exact ⟨_, rfl, rfl, partiesOf_both (by decide) hsrc hdst⟩
  · obtain ⟨src, hsrc, h⟩ := Checks.bind_ok.mp h
    obtain ⟨dst, hdst, h⟩ := Checks.bind_ok.mp h
    obtain ⟨rE, -, h⟩ := Checks.bind_ok.mp h
    obtain ⟨vTilde, -, h⟩ := Checks.bind_ok.mp h
    obtain ⟨sigma, -, h⟩ := Checks.bind_ok.mp h
    obtain ⟨bTilde, -, h⟩ := Checks.bind_ok.mp h
    obtain ⟨vAudR, -, h⟩ := Checks.bind_ok.mp h
    obtain ⟨rAudR, -, h⟩ := Checks.bind_ok.mp h
    obtain ⟨vAudS, -, h⟩ := Checks.bind_ok.mp h
    obtain ⟨bAudS, -, h⟩ := Checks.bind_ok.mp h
    cases h
    exact ⟨_, rfl, rfl, partiesOf_both (by decide) hsrc hdst⟩

/-- A row of an event between two parties. -/
structure RowOf (raw : RawEvent) (name : String) (parties : String × String)
    (row : NewCtActivityRow) : Prop where
  eventId : row.eventId = raw.id
  ledger : row.ledger = raw.ledger
  txHash : row.txHash = raw.txHash
  type : row.type = name
  parties : parties = (row.account, row.counterparty) ∨ parties = (row.counterparty, row.account)

theorem rowOf_single {raw : RawEvent} {name src dst : String} {amount : Option String}
    {ciphertexts : Option (List (String × String))} :
    ∀ row ∈ [toRow raw ⟨src, name, dst, amount, ciphertexts⟩], RowOf raw name (src, dst) row := by
  intro row hrow
  rw [List.mem_singleton.mp hrow]
  exact ⟨rfl, rfl, rfl, rfl, .inl rfl⟩

theorem rowOf_bothSides {raw : RawEvent} {name src dst : String} {amount : Option String}
    {ciphertexts : Option (List (String × String))} :
    ∀ row ∈ bothSides raw name src dst amount ciphertexts, RowOf raw name (src, dst) row := by
  intro row hrow
  rw [bothSides, List.mem_cons] at hrow
  rcases hrow with rfl | hrow
  · exact ⟨rfl, rfl, rfl, rfl, .inl rfl⟩
  · split at hrow
    · rw [List.mem_singleton] at hrow
      subst hrow
      exact ⟨rfl, rfl, rfl, rfl, .inr rfl⟩
    · cases hrow

/-- The worker's side. -/
theorem rowsOf_parties {sdk : StellarSdk V} {raw : RawEvent} {topics : List V} {data : DataMap V}
    {name : String} {rows : List NewCtActivityRow} (hname : name ∈ mappedTopics)
    (h : rowsOf sdk raw topics data name = .ok (some rows)) :
    ∃ parties, partiesOf (fun i => sdk.address topics[i]?) name = .ok parties ∧
      ∀ row ∈ rows, RowOf raw name parties row := by
  simp only [mappedTopics, List.mem_cons, List.not_mem_nil, or_false] at hname
  rcases hname with rfl | rfl | rfl | rfl | rfl
  · obtain ⟨account, haccount, h⟩ := Checks.bind_ok.mp h
    cases h
    exact ⟨(account, account), partiesOf_one (by decide) haccount, rowOf_single⟩
  · obtain ⟨src, hsrc, h⟩ := Checks.bind_ok.mp h
    obtain ⟨dst, hdst, h⟩ := Checks.bind_ok.mp h
    obtain ⟨amount, -, h⟩ := Checks.bind_ok.mp h
    cases h
    exact ⟨(src, dst), partiesOf_both (by decide) hsrc hdst, rowOf_bothSides⟩
  · obtain ⟨account, haccount, h⟩ := Checks.bind_ok.mp h
    cases h
    exact ⟨(account, account), partiesOf_one (by decide) haccount, rowOf_single⟩
  · obtain ⟨src, hsrc, h⟩ := Checks.bind_ok.mp h
    obtain ⟨dst, hdst, h⟩ := Checks.bind_ok.mp h
    obtain ⟨amount, -, h⟩ := Checks.bind_ok.mp h
    obtain ⟨ciphertexts, -, h⟩ := Checks.bind_ok.mp h
    cases h
    exact ⟨(src, dst), partiesOf_both (by decide) hsrc hdst, rowOf_single⟩
  · obtain ⟨src, hsrc, h⟩ := Checks.bind_ok.mp h
    obtain ⟨dst, hdst, h⟩ := Checks.bind_ok.mp h
    obtain ⟨ciphertexts, -, h⟩ := Checks.bind_ok.mp h
    cases h
    exact ⟨(src, dst), partiesOf_both (by decide) hsrc hdst, rowOf_bothSides⟩

theorem mem_known_of_mapped {name : String} (h : name ∈ mappedTopics) : name ∈ known := by
  simp only [mappedTopics, List.mem_cons, List.not_mem_nil, or_false] at h
  rcases h with rfl | rfl | rfl | rfl | rfl <;> decide

/-- What both sides read of an event that has rows. -/
structure Decoding (sdk : StellarSdk V) (topic : List String) (valueXdr name : String)
    (topics : List V) (data : DataMap V) : Prop where
  length : topic.length ≠ 0
  decoded : topic.mapM sdk.fromXDR = .ok topics
  symbol : ∃ nameVal rest, topics = nameVal :: rest ∧ sdk.switchName nameVal = "scvSymbol" ∧
    sdk.sym nameVal = .ok name
  value : ∃ value, sdk.fromXDR valueXdr = .ok value ∧ dataMapOf sdk value = .ok data

theorem normalizeCtEvent_read {sdk : StellarSdk V} {e : RawEvent} {token : String}
    {rows : List NewCtActivityRow} (h : normalizeCtEvent sdk e token = .ok (some rows)) :
    e.contractId = token ∧ ∃ name topics data, name ∈ mappedTopics ∧
      Decoding sdk e.topic e.valueXdr name topics data ∧
      rowsOf sdk e topics data name = .ok (some rows) := by
  unfold normalizeCtEvent at h
  split at h
  · cases h
  rename_i htoken
  split at h
  · cases h
  rename_i hlength
  obtain ⟨topics, htopics, h⟩ := Checks.bind_ok.mp h
  cases topics with
  | nil => cases h
  | cons nameVal rest =>
      dsimp only at h
      split at h
      · cases h
      rename_i hsymbol
      obtain ⟨name, hname, h⟩ := Checks.bind_ok.mp h
      split at h
      · cases h
      rename_i hmapped
      obtain ⟨value, hvalue, h⟩ := Checks.bind_ok.mp h
      obtain ⟨data, hdata, h⟩ := Checks.bind_ok.mp h
      exact ⟨not_not.mp htoken, name, nameVal :: rest, data, not_not.mp hmapped,
        ⟨hlength, htopics, ⟨nameVal, rest, rfl, not_not.mp hsymbol, hname⟩, value, hvalue, hdata⟩, h⟩

theorem parseApiEvent_read {row : Api.EventItem} {name : String} {topics : List V}
    {data : DataMap V} (hname : name ∈ known)
    (h : Decoding sdk.toStellarSdk row.topic row.value name topics data) :
    parseApiEvent sdk row
      = buildConfidentialEvent sdk name row.ledger row.txHash row.id topics data := by
  obtain ⟨nameVal, rest, rfl, hsymbol, hsym⟩ := h.symbol
  obtain ⟨value, hvalue, hdata⟩ := h.value
  unfold parseApiEvent
  rw [if_neg h.length, h.decoded]
  change (if sdk.switchName nameVal ≠ "scvSymbol" then _ else _) = _
  rw [if_neg (not_not.mpr hsymbol), hsym]
  change (if name ∉ known then _ else _) = _
  rw [if_neg (not_not.mpr hname), hvalue]
  change (dataMapOf sdk.toStellarSdk value >>= _) = _
  rw [hdata]
  rfl

/-- An event that has rows and decodes is the event of its rows. -/
theorem isEventOf_of_decoded {e : RawEvent} {token : String} {rows : List NewCtActivityRow}
    {parsed : Option (ConfidentialEvent Point)}
    (hrows : normalizeCtEvent sdk.toStellarSdk e token = .ok (some rows))
    (hparse : parseApiEvent sdk (Api.eventItem (toNewEventRow e)) = .ok parsed) :
    ∃ event, parsed = some event ∧ ∀ row ∈ rows, IsEventOf row event := by
  obtain ⟨-, name, topics, data, hmapped, hread, hrowsOf⟩ := normalizeCtEvent_read hrows
  obtain ⟨parties, hparties, hsides⟩ := rowsOf_parties hmapped hrowsOf
  have hread' : Decoding sdk.toStellarSdk (Api.eventItem (toNewEventRow e)).topic
      (Api.eventItem (toNewEventRow e)).value name topics data := hread
  rw [parseApiEvent_read (mem_known_of_mapped hmapped) hread'] at hparse
  obtain ⟨body, hbody, hparse⟩ := Checks.bind_ok.mp hparse
  obtain ⟨b, rfl, htype, hparties'⟩ := buildBody_parties hmapped hbody
  rw [hparties] at hparties'
  cases hparties'
  cases hparse
  refine ⟨_, rfl, fun row hrow => ?_⟩
  have hside := hsides row hrow
  exact ⟨hside.eventId.symm, hside.ledger.symm, hside.txHash.symm, htype.trans hside.type.symm,
    hside.parties⟩

/-! ## The page of a ledger -/

/-- The rows of the contract in a ledger. -/
def ledgerRows (token : String) (ledger : Nat) (db : Db) : List EventRow :=
  Api.requested [token] (some ledger) (.ledger ledger) db

/-- The page that the lookup reads. -/
def ledgerPage (token : String) (ledger : Nat) (db : Db) : List EventRow :=
  Keyset.window EventRow.position (ledgerRows token ledger db) none 200

/-- The rows of the contract that come before a row in its ledger. -/
def ahead (token : String) (db : Db) (r : EventRow) : Nat :=
  db.events.countP fun x =>
    decide (x.contractId = token) && decide (x.ledger = r.ledger) && decide (x.position < r.position)

theorem mem_ledgerRows {token : String} {ledger : Nat} {db : Db} {r : EventRow} :
    r ∈ ledgerRows token ledger db ↔ r ∈ db.events ∧ r.contractId = token ∧ r.ledger = ledger := by
  rw [ledgerRows, Api.mem_requested, inScope, Api.From.admits, Bool.and_eq_true, decide_eq_true_eq,
    List.mem_singleton, Option.all_some, decide_eq_true_eq, decide_eq_true_eq]
  constructor
  · rintro ⟨hr, ⟨htoken, hle⟩, hge⟩
    exact ⟨hr, htoken, Nat.le_antisymm hle hge⟩
  · rintro ⟨hr, htoken, rfl⟩
    exact ⟨hr, ⟨htoken, le_refl _⟩, le_refl _⟩

theorem mem_ledgerPage {token : String} {ledger : Nat} {db : Db}
    (hpos : (db.events.map (·.position)).Nodup) {r : EventRow} :
    r ∈ ledgerPage token ledger db ↔
      (r ∈ db.events ∧ r.contractId = token ∧ r.ledger = ledger) ∧ ahead token db r < 200 := by
  have hrows : ((ledgerRows token ledger db).map (·.position)).Nodup :=
    hpos.sublist (List.filter_sublist.map _)
  rw [ledgerPage, Keyset.mem_window_iff hrows, mem_ledgerRows]
  refine and_congr_right fun ⟨_, _, hledger⟩ => ?_
  have hcount : (ledgerRows token ledger db).countP (fun x => decide (x.position < r.position))
      = ahead token db r := by
    rw [ledgerRows, Api.requested, List.countP_filter, ahead]
    refine List.countP_congr fun x _ => ?_
    rw [hledger, inScope, Api.From.admits]
    simp only [Bool.and_eq_true, decide_eq_true_eq, List.mem_singleton, Option.all_some]
    constructor
    · rintro ⟨hlt, ⟨htoken, hle⟩, hge⟩
      exact ⟨⟨htoken, Nat.le_antisymm hle hge⟩, hlt⟩
    · rintro ⟨⟨htoken, rfl⟩, hlt⟩
      exact ⟨hlt, ⟨htoken, le_refl _⟩, le_refl _⟩
  rw [hcount]

/-- What the lookup compares with the columns is of their types. -/
def refFits (token : String) (ledger : Nat) : Bool :=
  Api.startFits token (some ledger) (.ledger ledger)

theorem refQuery_eq (row : NewCtActivityRow) : refQuery ⟨row.ledger, row.eventId, row.txHash⟩
    = Api.eventsQuery (.ledger row.ledger) (some row.ledger) (some 200) := rfl

/-- The page that the lookup is answered with. -/
theorem resolveActivityEvent_feed (sdk : EventSdk V Point) {token : String}
    {row : NewCtActivityRow} (hfits : refFits token row.ledger = true)
    {backends : Nat → Backend V} (honline : (backends 0).online = true) :
    ((resolveActivityEvent sdk token row).feed backends).2
      = findRef sdk ⟨row.ledger, row.eventId, row.txHash⟩
          ((ledgerPage token row.ledger (backends 1).db).map Api.eventItem) := by
  have hpage := Api.paginate_window (fun r : EventRow => r.id) EventRow.position
    (ledgerRows token row.ledger (backends 1).db) none 200
  have hselect : ((backends 1).db).listEventsFromLedger ⟨[token], row.ledger, some row.ledger, 201⟩
      = Keyset.window EventRow.position (ledgerRows token row.ledger (backends 1).db) none 201 :=
    Api.listEventsFromLedger_window _ _
  have hfeed : ((Api.eventRows token (refQuery ⟨row.ledger, row.eventId, row.txHash⟩).cursor
      (some row.ledger) (some row.ledger) (Api.clampLimit (some 200))).feed
        fun i => (backends (i + 1)).db)
      = (1, some (some (Keyset.window EventRow.position
          (ledgerRows token row.ledger (backends 1).db) none 201))) := by
    rw [← hselect, refQuery_eq]
    have hrows := Api.eventRows_eq hfits (some 200) (some 200)
    rw [Api.startLedger?] at hrows
    rw [hrows]
    rfl
  rw [resolveActivityEvent, resolveEventRef, Async.feed_read_bind, if_pos honline, Async.feed_bind,
    Async.feed_observe]
  unfold Api.eventsRoute
  rw [refQuery_eq, Api.eventsNumbers_eventsQuery, ← refQuery_eq]
  dsimp only
  rw [Api.startLedger?, Async.feed_bind, hfeed]
  dsimp only [id]
  rw [show Api.clampLimit (some 200) = 200 from rfl, hpage]
  rfl

/-- A lookup with a value outside its column finds nothing. -/
theorem resolveActivityEvent_failed (sdk : EventSdk V Point) {token : String}
    {row : NewCtActivityRow} (hfits : refFits token row.ledger = false)
    {backends : Nat → Backend V} (honline : (backends 0).online = true) :
    ((resolveActivityEvent sdk token row).feed backends).2 = .ok none := by
  have hreply := @Api.eventsRoute_failed token (some row.ledger) (.ledger row.ledger) hfits
    (fun i => (backends (i + 1)).db) (fun cursor h => by cases h) (some 200)
  rw [resolveActivityEvent, resolveEventRef, Async.feed_read_bind, if_pos honline, Async.feed_bind,
    Async.feed_observe, refQuery_eq]
  dsimp only
  rw [hreply]
  rfl

/-! ## The named event on a page -/

/-- The lookup finds an event if and only if the whole page decodes and the
event is there. -/
theorem findRef_eq_some {ref : EventRef} {rows : List Api.EventItem}
    (hids : (rows.map (·.id)).Nodup) {event : ConfidentialEvent Point} :
    findRef sdk ref rows = .ok (some event) ↔
      (∀ row ∈ rows, ∃ parsed, parseApiEvent sdk row = .ok parsed) ∧
        ∃ row ∈ rows, parseApiEvent sdk row = .ok (some event) ∧ row.id = ref.id ∧
          event.txHash = ref.txHash := by
  unfold findRef
  rw [parsePage_eq_collect]
  constructor
  · intro h
    obtain ⟨events, hevents, h⟩ := Checks.bind_ok.mp h
    refine ⟨fun row hrow => ?_, ?_⟩
    · cases hparse : parseApiEvent sdk row with
      | ok parsed => exact ⟨parsed, rfl⟩
      | error message =>
          obtain ⟨message', hthrow⟩ := collect_throws hrow hparse
          rw [hthrow] at hevents
          cases hevents
    · cases hfind : events.find? fun e => decide (e.cursor = ref.id) with
      | none =>
          rw [hfind] at h
          cases h
      | some found =>
          rw [hfind] at h
          dsimp only at h
          split at h
          · cases h
          rename_i htx
          cases h
          have hcursor := List.find?_some hfind
          rw [decide_eq_true_eq] at hcursor
          obtain ⟨row, hrow, hparse⟩ :=
            (mem_collect hevents event).mp (List.mem_of_find?_eq_some hfind)
          exact ⟨row, hrow, hparse, (cursor_of_parsed hparse).symm.trans hcursor, not_not.mp htx⟩
  · rintro ⟨hall, row, hrow, hparse, hid, htx⟩
    cases hevents : collect (parseApiEvent sdk) rows with
    | error message =>
        obtain ⟨row', hrow', hthrow⟩ := collect_error hevents
        obtain ⟨parsed, hparsed⟩ := hall row' hrow'
        rw [hthrow] at hparsed
        cases hparsed
    | ok events =>
        have hmem : event ∈ events := (mem_collect hevents event).mpr ⟨row, hrow, hparse⟩
        have hcursor : event.cursor = ref.id := (cursor_of_parsed hparse).trans hid
        cases hfind : events.find? fun e => decide (e.cursor = ref.id) with
        | none => exact absurd (decide_eq_true hcursor) (List.find?_eq_none.mp hfind event hmem)
        | some found =>
            -- the row with the id is the only one
            have hfound := List.find?_some hfind
            rw [decide_eq_true_eq] at hfound
            obtain ⟨row', hrow', hparse'⟩ :=
              (mem_collect hevents found).mp (List.mem_of_find?_eq_some hfind)
            have hid' : row'.id = row.id :=
              (cursor_of_parsed hparse').symm.trans (hfound.trans hid.symm)
            rw [List.inj_on_of_nodup_map hids hrow' hrow hid', hparse] at hparse'
            cases hparse'
            change (match events.find? _ with | none => _ | some e => _) = _
            rw [hfind]
            exact if_neg (not_not.mpr htx)

/-- An event that is not on the page: `null`. -/
theorem findRef_eq_none {ref : EventRef} {rows : List Api.EventItem}
    (hall : ∀ row ∈ rows, ∃ parsed, parseApiEvent sdk row = .ok parsed)
    (hids : ∀ row ∈ rows, row.id ≠ ref.id) : findRef sdk ref rows = .ok none := by
  unfold findRef
  rw [parsePage_eq_collect]
  cases hevents : collect (parseApiEvent sdk) rows with
  | error message =>
      obtain ⟨row, hrow, hthrow⟩ := collect_error hevents
      obtain ⟨parsed, hparsed⟩ := hall row hrow
      rw [hthrow] at hparsed
      cases hparsed
  | ok events =>
      have hfind : events.find? (fun e => decide (e.cursor = ref.id)) = none := by
        refine List.find?_eq_none.mpr fun event hevent hcursor => ?_
        obtain ⟨row, hrow, hparse⟩ := (mem_collect hevents event).mp hevent
        exact hids row hrow ((cursor_of_parsed hparse).symm.trans (of_decide_eq_true hcursor))
      change (match events.find? _ with | none => _ | some e => _) = _
      rw [hfind]
      rfl

/-! ## When a row opens -/

/-- The row's event is on the first page of its ledger, and the decoder throws
on nothing there. The ledger is one of its column, as that of every stored row. -/
def Opens (sdk : EventSdk V Point) (token : String) (db : Db) (row : NewCtActivityRow) : Prop :=
  refFits token row.ledger = true ∧ (∃ r ∈ db.events, r.id = row.eventId ∧ ahead token db r < 200) ∧
    ∀ r ∈ db.events, r.contractId = token → r.ledger = row.ledger → ahead token db r < 200 →
      ∃ parsed, parseApiEvent sdk (Api.eventItem r) = .ok parsed

theorem ledgerPage_ids {token : String} {ledger : Nat} {db : Db}
    (hids : (db.events.map (·.id)).Nodup) (hpos : (db.events.map (·.position)).Nodup) :
    (((ledgerPage token ledger db).map Api.eventItem).map (·.id)).Nodup := by
  have hrows : ((ledgerRows token ledger db).map (·.position)).Nodup :=
    hpos.sublist (List.filter_sublist.map _)
  have hpage : (ledgerPage token ledger db).Nodup :=
    Keyset.nodup_of_sorted (Keyset.window_sorted hrows)
  rw [List.map_map]
  refine hpage.map_on fun a ha b hb hab => ?_
  exact List.inj_on_of_nodup_map hids ((mem_ledgerPage hpos).mp ha).1.1
    ((mem_ledgerPage hpos).mp hb).1.1 hab

/-- A row opens in a table of rows with places and ids of their own. -/
theorem resolveActivityEvent_opens {token : String} {row : NewCtActivityRow}
    {rows : List NewCtActivityRow} {e : RawEvent}
    (hrows : normalizeCtEvent sdk.toStellarSdk e token = .ok (some rows)) (hrow : row ∈ rows)
    {backends : Nat → Backend V} (honline : (backends 0).online = true)
    (hids : ((backends 1).db.events.map (·.id)).Nodup)
    (hpos : ((backends 1).db.events.map (·.position)).Nodup)
    (he : toNewEventRow e ∈ (backends 1).db.events) :
    (∃ event, ((resolveActivityEvent sdk token row).feed backends).2 = .ok (some event) ∧
        IsEventOf row event) ↔ Opens sdk token (backends 1).db row := by
  obtain ⟨htoken, name, topics, data, hmapped, -, hrowsOf⟩ := normalizeCtEvent_read hrows
  obtain ⟨parties, -, hsides⟩ := rowsOf_parties hmapped hrowsOf
  have hside := hsides row hrow
  by_cases hfits : refFits token row.ledger = true
  swap
  · rw [resolveActivityEvent_failed sdk (Bool.eq_false_iff.mpr hfits) honline]
    refine ⟨?_, fun h => absurd h.1 hfits⟩
    rintro ⟨event, h, -⟩
    cases h
  rw [resolveActivityEvent_feed sdk hfits honline]
  simp only [findRef_eq_some (ledgerPage_ids hids hpos), List.forall_mem_map]
  constructor
  · rintro ⟨event, ⟨hall, item, hitem, -, hid, -⟩, -⟩
    obtain ⟨r, hr, rfl⟩ := List.mem_map.mp hitem
    obtain ⟨⟨hmem, -, -⟩, hahead⟩ := (mem_ledgerPage hpos).mp hr
    refine ⟨hfits, ⟨r, hmem, hid, hahead⟩, fun r' hr' htoken' hledger' hahead' => ?_⟩
    exact hall r' ((mem_ledgerPage hpos).mpr ⟨⟨hr', htoken', hledger'⟩, hahead'⟩)
  · rintro ⟨-, ⟨r, hr, hid, hahead⟩, hall⟩
    have hsame : r = toNewEventRow e :=
      List.inj_on_of_nodup_map hids hr he (hid.trans hside.eventId)
    subst hsame
    obtain ⟨parsed, hparse⟩ := hall _ hr htoken hside.ledger.symm hahead
    obtain ⟨event, rfl, his⟩ := isEventOf_of_decoded hrows hparse
    refine ⟨event, ⟨fun r' hr' => ?_, Api.eventItem (toNewEventRow e), List.mem_map_of_mem ?_,
      hparse, hid, (his row hrow).txHash⟩, his row hrow⟩
    · obtain ⟨⟨hmem, htoken', hledger'⟩, hahead'⟩ := (mem_ledgerPage hpos).mp hr'
      exact hall r' hmem htoken' hledger' hahead'
    · exact (mem_ledgerPage hpos).mpr ⟨⟨hr, htoken, hside.ledger.symm⟩, hahead⟩

/-! ## Tables that the stream fills -/

/-- The rows of a history have ids and places of their own, so have those of
any part of it. -/
theorem nodup_of_history {β : Type} {history events : List RawEvent} {f : EventRow → β}
    (hhistory : (history.map fun e => f (toNewEventRow e)).Nodup) (hevents : events.Nodup)
    (hsub : ∀ e ∈ events, e ∈ history) : ((events.map toNewEventRow).map f).Nodup := by
  rw [List.map_map]
  exact hevents.map_on fun a ha b hb hab =>
    List.inj_on_of_nodup_map hhistory (hsub a ha) (hsub b hb) hab

/-- Whatever the stream has served: a row of the activity table opens if and
only if fewer than 200 events of the token come before its event in its ledger,
and the decoder throws on none of the first 200 of that ledger.

By `indexed` the row is one of an event that was delivered, and that event is
in the table, whose rows have ids and places of their own. So the lookup is
that of `resolveActivityEvent_opens` in any such table. -/
theorem resolveActivityEvent_iff (sdk : EventSdk V Point) (streamKey token : String)
    (history : List RawEvent) (hhistory : ChainOk history) (steps : List PollStep)
    (hserves : Serves history steps) (row : NewCtActivityRow)
    (hrow : row ∈ (dbAfter sdk.toStellarSdk streamKey token steps).ctActivity)
    (backends : Nat → Backend V) (honline : (backends 0).online = true)
    (hdb : (backends 1).db = dbAfter sdk.toStellarSdk streamKey token steps) :
    (∃ event, ((resolveActivityEvent sdk token row).feed backends).2 = .ok (some event) ∧
        IsEventOf row event) ↔ Opens sdk token (backends 1).db row := by
  obtain ⟨w, hw, hindexed⟩ := indexed sdk.toStellarSdk streamKey token hserves
  rw [← hw] at hrow hdb
  rw [hindexed.ctActivity] at hrow
  obtain ⟨e, he, hrow⟩ := List.mem_flatMap.mp hrow
  have hsub : ∀ x ∈ (delivered sdk.toStellarSdk streamKey token steps).dedup, x ∈ history :=
    fun x hx => hindexed.delivered x (List.mem_dedup.mp hx)
  have hevents := hindexed.events_perm hhistory.ids
  have hpos : (history.map fun e => (toNewEventRow e).position).Nodup :=
    hhistory.ordered.imp fun h => h.ne
  have hnormal : ∃ rows, normalizeCtEvent sdk.toStellarSdk e token = .ok (some rows) ∧
      row ∈ rows := by
    unfold activityRows at hrow
    split at hrow
    · rename_i rows hrows
      exact ⟨rows, hrows, hrow⟩
    · cases hrow
    · cases hrow
  obtain ⟨rows, hrows, hmem⟩ := hnormal
  rw [← hdb] at hevents
  refine resolveActivityEvent_opens hrows hmem honline ?_ ?_ ?_
  · rw [(hevents.map _).nodup_iff]
    exact nodup_of_history hhistory.ids (List.nodup_dedup _) hsub
  · rw [(hevents.map _).nodup_iff]
    exact nodup_of_history hpos (List.nodup_dedup _) hsub
  · exact hevents.mem_iff.mpr (List.mem_map_of_mem (List.mem_dedup.mpr he))

/-! ## One ledger with 201 events -/

/-- The backend while the API serves the database. -/
def backendOf (db : Db) : Backend MergeVal where
  db := db
  online := true
  rpc := laterRpc

/-- A `merge` in a transaction of its own. -/
def mergeAt (i : Nat) : RawEvent :=
  { mergeEvent with
    id := Backfill.naturalEventId mergeEvent.ledger (Text.padZeros 64 i) 0 0
    txHash := Text.padZeros 64 i
    txIndex := i }

theorem mergeAt_ledger (i : Nat) : (toNewEventRow (mergeAt i)).ledger = mergeEvent.ledger := rfl

theorem mergeAt_txIndex (i : Nat) : (toNewEventRow (mergeAt i)).txIndex = i := rfl

theorem mergeAt_position_lt {i j : Nat} (h : i < j) :
    (toNewEventRow (mergeAt i)).position < (toNewEventRow (mergeAt j)).position := by
  refine EventRow.position_lt_of_txIndex_lt ((mergeAt_ledger i).trans (mergeAt_ledger j).symm) ?_
  rw [mergeAt_txIndex, mergeAt_txIndex]
  exact h

def mergesOf (n : Nat) : List RawEvent := (List.range n).map mergeAt

def crowd : List RawEvent := mergesOf 201

/-- The ledger comes in three pages. -/
def crowdPoll : List PollStep :=
  [.serve ⟨crowd.take 100, some "cursor-1"⟩, .start 0, .resume 0, .resume 0, .resume 0,
    .serve ⟨(crowd.drop 100).take 100, some "cursor-2"⟩, .start 0, .resume 0, .resume 0, .resume 0,
    .serve ⟨(crowd.drop 100).drop 100, some "cursor-3"⟩, .start 0, .resume 0, .resume 0, .resume 0]

def crowdDb : Db := dbAfter mergeSdk "ct" mergeToken crowdPoll

/-- The activity row of a `merge`. -/
def mergeActivity (e : RawEvent) : NewCtActivityRow where
  account := "CBL2LDYSE42ZJKSPSGTWXCR4DWET7AFENAPDICYEYRQB54WWN4SSK7II"
  type := "merge"
  counterparty := "CBL2LDYSE42ZJKSPSGTWXCR4DWET7AFENAPDICYEYRQB54WWN4SSK7II"
  amount := none
  ledger := e.ledger
  txHash := e.txHash
  eventId := e.id
  ciphertexts := []

theorem padZeros_injective (width : Nat) : Function.Injective (Text.padZeros width) := by
  intro i j hij
  have h := congrArg Text.number hij
  rwa [Text.number_padZeros, Text.number_padZeros, Option.some.injEq] at h

theorem mergeAt_id_injective : Function.Injective fun i => (mergeAt i).id := by
  intro i j hij
  obtain ⟨-, -, htx⟩ := Backfill.naturalEventId_inj hij
  rw [show "-" = String.ofList ['-'] from rfl] at htx
  exact padZeros_injective 64 (Text.separated_inj (Backfill.dash_notMem_padZeros _ _)
    (Backfill.dash_notMem_padZeros _ _) htx).2

theorem mergesOf_chain (n : Nat) : ChainOk (mergesOf n) where
  ordered := by
    rw [mergesOf, List.map_map, List.pairwise_map]
    exact List.pairwise_lt_range.imp mergeAt_position_lt
  ids := by
    rw [mergesOf, List.map_map]
    exact List.nodup_range.map mergeAt_id_injective

theorem crowd_chain : ChainOk crowd := mergesOf_chain 201

theorem crowd_served : Serves crowd crowdPoll := by
  intro page hpage e he
  simp only [crowdPoll, List.mem_cons] at hpage
  rcases hpage with h | h | h | h | h | h | h | h | h | h | h | h | h | h | h | h <;> cases h
  · exact List.mem_of_mem_take he
  · exact List.mem_of_mem_drop (List.mem_of_mem_take he)
  · exact List.mem_of_mem_drop (List.mem_of_mem_drop he)

theorem crowd_delivered : delivered mergeSdk "ct" mergeToken crowdPoll = crowd := by
  have h : delivered mergeSdk "ct" mergeToken crowdPoll
      = crowd.take 100 ++ ((crowd.drop 100).take 100 ++ ((crowd.drop 100).drop 100 ++ [])) := by rfl
  rw [h, List.append_nil, List.take_append_drop, List.take_append_drop]

theorem crowd_events : crowdDb.events.Perm (crowd.map toNewEventRow) := by
  obtain ⟨w, hw, hindexed⟩ := indexed mergeSdk "ct" mergeToken crowd_served
  have hevents := hindexed.events_perm crowd_chain.ids
  have hnodup : crowd.Nodup := List.Nodup.of_map _ crowd_chain.ids
  have hdelivered : (committed mergeSdk "ct" mergeToken crowdPoll).flatMap (·.events) = crowd :=
    crowd_delivered
  rwa [hw, hdelivered, hnodup.dedup] at hevents

theorem crowd_activity : mergeActivity (mergeAt 200) ∈ crowdDb.ctActivity := by
  obtain ⟨w, hw, hindexed⟩ := indexed mergeSdk "ct" mergeToken crowd_served
  have hactivity := hindexed.ctActivity
  have hdelivered : (committed mergeSdk "ct" mergeToken crowdPoll).flatMap (·.events) = crowd :=
    crowd_delivered
  rw [hw, hdelivered] at hactivity
  have hmem : mergeAt 200 ∈ crowd := List.mem_map_of_mem (List.mem_range.mpr (by decide))
  change _ ∈ (dbAfter mergeSdk "ct" mergeToken crowdPoll).ctActivity
  rw [hactivity]
  exact List.mem_flatMap.mpr ⟨_, hmem, List.mem_singleton_self _⟩

theorem ahead_crowd : ahead mergeToken crowdDb (toNewEventRow (mergeAt 200)) = 200 := by
  rw [ahead, crowd_events.countP_eq]
  decide +kernel

/-- A ledger has 201 events, all of which decode: the row of the last one is
answered with `null`. -/
theorem crowded_ledger_row_lost :
    ChainOk crowd ∧ Serves crowd crowdPoll ∧ mergeActivity (mergeAt 200) ∈ crowdDb.ctActivity ∧
      ((resolveActivityEvent mergeEventSdk mergeToken (mergeActivity (mergeAt 200))).feed
        fun _ => backendOf crowdDb).2 = .ok none := by
  refine ⟨crowd_chain, crowd_served, crowd_activity, ?_⟩
  rw [resolveActivityEvent_feed _ (by decide +kernel) rfl]
  have hpos : (crowdDb.events.map (·.position)).Nodup := by
    rw [(crowd_events.map _).nodup_iff, List.map_map]
    exact crowd_chain.ordered.imp fun h => h.ne
  -- every row of the table is a `merge`
  have hrows : ∀ r ∈ ledgerPage mergeToken (mergeActivity (mergeAt 200)).ledger crowdDb,
      ∃ i, r = toNewEventRow (mergeAt i) ∧ ahead mergeToken crowdDb r < 200 := by
    intro r hr
    obtain ⟨⟨hmem, -, -⟩, hahead⟩ := (mem_ledgerPage hpos).mp hr
    obtain ⟨e, he, rfl⟩ := List.mem_map.mp (crowd_events.mem_iff.mp hmem)
    obtain ⟨i, -, rfl⟩ := List.mem_map.mp he
    exact ⟨i, rfl, hahead⟩
  refine findRef_eq_none (fun item hitem => ?_) fun item hitem hid => ?_
  · obtain ⟨r, hr, rfl⟩ := List.mem_map.mp hitem
    obtain ⟨i, rfl, -⟩ := hrows r hr
    exact ⟨_, rfl⟩
  · obtain ⟨r, hr, rfl⟩ := List.mem_map.mp hitem
    obtain ⟨i, rfl, hahead⟩ := hrows r hr
    cases mergeAt_id_injective hid
    rw [ahead_crowd] at hahead
    exact lt_irrefl _ hahead

/-- Three `merge`s of a ledger, in two pages that overlap. -/
def overlapPoll : List PollStep :=
  [.serve ⟨(mergesOf 3).take 2, some "cursor-1"⟩, .start 0, .resume 0, .resume 0, .resume 0,
    .serve ⟨(mergesOf 3).drop 1, some "cursor-2"⟩, .start 0, .resume 0, .resume 0, .resume 0]

def overlapDb : Db := dbAfter mergeSdk "ct" mergeToken overlapPoll

theorem overlap_events : overlapDb.events = (mergesOf 3).map toNewEventRow := by decide +kernel

/-- The row of the second `merge`. -/
theorem resolveActivityEvent_iff_merge :
    ∃ event, ((resolveActivityEvent mergeEventSdk mergeToken (mergeActivity (mergeAt 1))).feed
        fun _ => backendOf overlapDb).2 = .ok (some event) ∧
      IsEventOf (mergeActivity (mergeAt 1)) event := by
  refine (resolveActivityEvent_iff mergeEventSdk "ct" mergeToken (mergesOf 3) (mergesOf_chain 3)
    overlapPoll ?_ (mergeActivity (mergeAt 1)) ?_ (fun _ => backendOf overlapDb) rfl rfl).mpr ?_
  · intro page hpage e he
    simp only [overlapPoll, List.mem_cons] at hpage
    rcases hpage with h | h | h | h | h | h | h | h | h | h | h <;> cases h
    · exact List.mem_of_mem_take he
    · exact List.mem_of_mem_drop he
  · decide +kernel
  · have hahead : ∀ r, ahead mergeToken overlapDb r < 200 := by
      intro r
      have hle := List.countP_le_length (l := overlapDb.events) (p := fun x =>
        decide (x.contractId = mergeToken) && decide (x.ledger = r.ledger)
          && decide (x.position < r.position))
      rw [show overlapDb.events.length = 3 by rw [overlap_events]; rfl] at hle
      exact hle.trans_lt (by decide)
    refine ⟨by decide +kernel, ⟨toNewEventRow (mergeAt 1), ?_, rfl, hahead _⟩, fun r hr _ _ _ => ?_⟩
    · change _ ∈ overlapDb.events
      rw [overlap_events]
      exact List.mem_map_of_mem (List.mem_map_of_mem (List.mem_range.mpr (by decide)))
    · change r ∈ overlapDb.events at hr
      rw [overlap_events] at hr
      obtain ⟨e, he, rfl⟩ := List.mem_map.mp hr
      obtain ⟨i, -, rfl⟩ := List.mem_map.mp he
      exact ⟨_, rfl⟩

end Wallet

end PrivacyWallet
