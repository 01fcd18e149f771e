import PrivacyWallet.Api.Routes
import PrivacyWallet.Bootnode.Handoff

/-!
# Following the cursors

A client that goes from page to page, while rows are inserted: over the
events route of the REST API, over the bootnode's `getEvents` up to its
handoff, and over the activity route. Rows may come between any two accesses of
the database, also between the lookup of a cursor and the selection behind it;
so the tables are a sequence, one for each access, which grows.

Each request reads the rows that lie past the row its cursor names
(`EventsAt.selected`, `ActivityAt.selected`), so the pages are those of
`Keyset`, and nothing is lost or repeated (`pages_lossless`). Of `Keyset` comes
the run from page to page; what is shown here of a route is one request: from
the place `c` on, its reply has the first rows past `c` and the cursor of the
last of them (`eventsRoute_feed`, `getEventsRoute_served`), and the client is
then at that row's place (`EventsAt`).

A query fails on a value outside its column, so the client's ledgers are below
2³¹ (`startFits`). Ids that come back in cursors are in their column and fit
(`EventsAt.startFits`). Past the column even a table with one row is refused
(`pages_refused_past_column`).
-/

namespace PrivacyWallet

namespace Api

open Indexer Bootnode

abbrev Position : Type := Nat ×ₗ Nat ×ₗ Nat ×ₗ Nat

/-! ## Tables that grow -/

/-- New rows were inserted, all at later positions than the rows before. -/
def Appended (table table' : List EventRow) : Prop :=
  ∃ new, table'.Perm (table ++ new) ∧ ∀ r ∈ table, ∀ s ∈ new, r.position < s.position

/-- The ids are texts of their column. -/
def TextIds (db : Db) : Prop := ∀ r ∈ db.events, isText r.id = true

/-- The events table along the accesses of a client: ids and positions are
distinct, and between two accesses rows are appended. -/
structure EventsGrow (tables : Nat → Db) : Prop where
  ids : ∀ i, ((tables i).events.map (·.id)).Nodup
  positions : ∀ i, ((tables i).events.map (·.position)).Nodup
  appended : ∀ i, Appended (tables i).events (tables (i + 1)).events

theorem Appended.refl (table : List EventRow) : Appended table table :=
  ⟨[], by simp, fun r _ s hs => by cases hs⟩

theorem Appended.subset {table table' : List EventRow} (h : Appended table table') :
    ∀ r ∈ table, r ∈ table' := by
  obtain ⟨new, hperm, -⟩ := h
  exact fun r hr => hperm.mem_iff.mpr (List.mem_append_left _ hr)

/-- A row is old, or comes after all old ones. -/
theorem Appended.late {table table' : List EventRow} (h : Appended table table') {r : EventRow}
    (hr : r ∈ table') : r ∈ table ∨ ∀ t ∈ table, t.position < r.position := by
  obtain ⟨new, hperm, hnew⟩ := h
  rcases List.mem_append.mp (hperm.mem_iff.mp hr) with hr | hr
  · exact Or.inl hr
  · exact Or.inr fun t ht => hnew t ht r hr

theorem Appended.trans {table table' table'' : List EventRow} (h : Appended table table')
    (h' : Appended table' table'') : Appended table table'' := by
  obtain ⟨new, hperm, hnew⟩ := h
  obtain ⟨new', hperm', hnew'⟩ := h'
  refine ⟨new ++ new', ?_, ?_⟩
  · rw [← List.append_assoc]
    exact hperm'.trans (hperm.append_right new')
  · intro r hr s hs
    rcases List.mem_append.mp hs with hs | hs
    · exact hnew r hr s hs
    · exact hnew' r (hperm.mem_iff.mpr (List.mem_append_left _ hr)) s hs

theorem EventsGrow.le {tables : Nat → Db} (h : EventsGrow tables) {i j : Nat} (hij : i ≤ j) :
    Appended (tables i).events (tables j).events := by
  induction hij with
  | refl => exact Appended.refl _
  | step _ ih => exact ih.trans (h.appended _)

theorem EventsGrow.shift {tables : Nat → Db} (h : EventsGrow tables) (n : Nat) :
    EventsGrow fun i => tables (n + i) where
  ids i := h.ids (n + i)
  positions i := h.positions (n + i)
  appended i := h.appended (n + i)

/-! ## The matching events -/

/-- Where a client starts: at a ledger, or behind a row. -/
inductive From where
  | ledger (startLedger : Nat)
  | after (row : EventRow)

def From.admits : From → EventRow → Bool
  | .ledger startLedger, r => decide (startLedger ≤ r.ledger)
  | .after row, r => decide (row.position < r.position)

/-- The row to start behind is one of the contracts' rows in the table. -/
def From.Held (contractIds : List String) (table : List EventRow) : From → Prop
  | .ledger _ => True
  | .after row => row ∈ table ∧ row.contractId ∈ contractIds

/-- The first ledger is one of the column. -/
def From.fits : From → Bool
  | .ledger startLedger => isInt4 startLedger
  | .after _ => true

/-- The first request, when `cursorOf` is the cursor that names a row. -/
def From.start (cursorOf : EventRow → String) : From → EventsStart
  | .ledger startLedger => .ledger startLedger
  | .after row => .cursor (cursorOf row)

/-- The rows that a client asks for. -/
def requested (contractIds : List String) (toLedger : Option Nat) (origin : From) (db : Db) :
    List EventRow :=
  db.events.filter fun r => inScope contractIds toLedger r && origin.admits r

section Events

variable {contractIds : List String} {toLedger : Option Nat} {origin : From}
  {cursorOf : EventRow → String} {db : Db}

theorem From.admits_of_lt {a b : EventRow} (ha : origin.admits a = true)
    (hlt : a.position < b.position) : origin.admits b = true := by
  cases origin with
  | ledger startLedger =>
      have hledger : startLedger ≤ a.ledger := of_decide_eq_true ha
      exact decide_eq_true (hledger.trans (EventRow.ledger_le_of_position_le hlt.le))
  | after row =>
      have hrow : row.position < a.position := of_decide_eq_true ha
      exact decide_eq_true (hrow.trans hlt)

theorem mem_requested {r : EventRow} : r ∈ requested contractIds toLedger origin db ↔
    r ∈ db.events ∧ inScope contractIds toLedger r = true ∧ origin.admits r = true := by
  rw [requested, List.mem_filter, Bool.and_eq_true]

theorem contractId_of_requested {r : EventRow}
    (hr : r ∈ requested contractIds toLedger origin db) : r.contractId ∈ contractIds := by
  have hscope := (mem_requested.mp hr).2.1
  rw [inScope, Bool.and_eq_true] at hscope
  exact of_decide_eq_true hscope.1

theorem EventsGrow.grows {tables : Nat → Db} (h : EventsGrow tables) :
    Keyset.Grows EventRow.position (requested contractIds toLedger origin)
      (fun db r => r ∈ requested contractIds toLedger origin db) tables where
  distinct i := (h.positions i).sublist (List.filter_sublist.map _)
  held _ _ hr := hr
  mono i j hij r hr := by
    obtain ⟨hmem, hcond⟩ := mem_requested.mp hr
    exact mem_requested.mpr ⟨(h.le hij).subset r hmem, hcond⟩
  late i j hij r hr := by
    obtain ⟨hmem, hcond⟩ := mem_requested.mp hr
    rcases (h.le hij).late hmem with hold | hnew
    · exact Or.inl (mem_requested.mpr ⟨hold, hcond⟩)
    · exact Or.inr fun t ht => hnew t (mem_requested.mp ht).1

/-- The id of a row finds the row. -/
theorem findEvent_of_mem (hids : (db.events.map (·.id)).Nodup) {r : EventRow}
    (hr : r ∈ db.events) (hcontract : r.contractId ∈ contractIds) :
    db.findEvent contractIds r.id = some r := by
  have hcond : (decide (r.id = r.id) && decide (r.contractId ∈ contractIds)) = true := by
    simp [hcontract]
  cases hfind : db.findEvent contractIds r.id with
  | none => exact absurd hcond (List.find?_eq_none.mp hfind r hr)
  | some x =>
      have hx := List.find?_some hfind
      rw [Bool.and_eq_true, decide_eq_true_eq] at hx
      rw [Table.keyedBy_of_nodup hids x r (List.mem_of_find?_eq_some hfind) hr hx.1]

/-- The request `start` goes on from the place `c`. -/
inductive EventsAt (contractIds : List String) (toLedger : Option Nat) (origin : From)
    (cursorOf : EventRow → String) (db : Db) : EventsStart → Option Position → Prop where
  | start (h : origin.Held contractIds db.events) :
      EventsAt contractIds toLedger origin cursorOf db (origin.start cursorOf) none
  | after {r : EventRow} (hr : r ∈ requested contractIds toLedger origin db) :
      EventsAt contractIds toLedger origin cursorOf db (.cursor (cursorOf r)) (some r.position)

theorem EventsAt.mono {db' : Db} {start : EventsStart} {c : Option Position}
    (h : EventsAt contractIds toLedger origin cursorOf db start c)
    (hdb : Appended db.events db'.events) :
    EventsAt contractIds toLedger origin cursorOf db' start c := by
  cases h with
  | start h =>
      refine .start ?_
      cases origin with
      | ledger startLedger => exact trivial
      | after row => exact ⟨hdb.subset row h.1, h.2⟩
  | after hr =>
      obtain ⟨hmem, hcond⟩ := mem_requested.mp hr
      exact .after (mem_requested.mpr ⟨hdb.subset _ hmem, hcond⟩)

theorem listEventsFromLedger_window (startLedger limit : Nat) :
    db.listEventsFromLedger ⟨contractIds, startLedger, toLedger, limit⟩
      = Keyset.window EventRow.position (requested contractIds toLedger (.ledger startLedger) db)
          none limit := by
  unfold Keyset.window
  simp only [Keyset.past_none, List.filter_true]
  rfl

theorem listEventsAfter_origin (row : EventRow) (afterId : String) (limit : Nat) :
    db.listEventsAfter row ⟨contractIds, afterId, toLedger, limit⟩
      = Keyset.window EventRow.position (requested contractIds toLedger (.after row) db)
          none limit := by
  unfold Keyset.window
  simp only [Keyset.past_none, List.filter_true]
  rfl

/-- Behind a row that was asked for lies what was asked for, behind it. -/
theorem listEventsAfter_window {r : EventRow} (hr : origin.admits r = true) (afterId : String)
    (limit : Nat) :
    db.listEventsAfter r ⟨contractIds, afterId, toLedger, limit⟩
      = Keyset.window EventRow.position (requested contractIds toLedger origin db)
          (some r.position) limit := by
  have hfilter : (db.events.filter fun x =>
        inScope contractIds toLedger x && decide (r.position < x.position))
      = (requested contractIds toLedger origin db).filter
          fun x => Keyset.past (some r.position) x.position := by
    rw [requested, List.filter_filter]
    refine List.filter_congr fun x _ => ?_
    rw [Keyset.past, Option.all_some]
    by_cases hlt : r.position < x.position
    · rw [decide_eq_true hlt, From.admits_of_lt hr hlt, Bool.and_true, Bool.true_and]
    · rw [decide_eq_false hlt, Bool.and_false, Bool.false_and]
  unfold Db.listEventsAfter Keyset.window
  dsimp only
  rw [hfilter]
  rfl

/-- The query that both handlers make: `decode` is how they read a cursor. -/
def selectEvents {σ : Type} (db : σ → Db) (contractIds : List String) (toLedger : Option Nat)
    (decode : String → String) (start : EventsStart) (limit : Nat) :
    Async σ (Option (List EventRow)) :=
  match start with
  | .cursor cursor => listEventsAfterId db ⟨contractIds, decode cursor, toLedger, limit⟩
  | .ledger startLedger => do
      let s ← Async.read
      pure (some ((db s).listEventsFromLedger ⟨contractIds, startLedger, toLedger, limit⟩))

/-- A request reads the first rows past its place, as they are at its last
access. -/
theorem EventsAt.selected {σ : Type} {db : σ → Db} {decode : String → String}
    (hdecode : ∀ r, decode (cursorOf r) = r.id) {s : Nat → σ}
    (hs : EventsGrow fun i => db (s i)) {start : EventsStart} {c : Option Position}
    (hat : EventsAt contractIds toLedger origin cursorOf (db (s 0)) start c) (limit : Nat) :
    ∃ j, (selectEvents db contractIds toLedger decode start limit).feed s
      = (j + 1, some (Keyset.window EventRow.position
          (requested contractIds toLedger origin (db (s j))) c limit)) := by
  have hfind : ∀ r ∈ (db (s 0)).events, r.contractId ∈ contractIds →
      (selectEvents db contractIds toLedger decode (.cursor (cursorOf r)) limit).feed s
        = (2, some ((db (s 1)).listEventsAfter r
            ⟨contractIds, r.id, toLedger, limit⟩)) := by
    intro r hr hcontract
    unfold selectEvents listEventsAfterId
    dsimp only
    rw [hdecode, Async.feed_read_bind, findEvent_of_mem (hs.ids 0) hr hcontract]
    rfl
  cases hat with
  | start h =>
      cases origin with
      | ledger startLedger =>
          refine ⟨0, ?_⟩
          rw [← listEventsFromLedger_window]
          rfl
      | after row =>
          refine ⟨1, ?_⟩
          rw [← listEventsAfter_origin row row.id limit]
          exact hfind row h.1 h.2
  | @after r hr =>
      obtain ⟨hmem, -, hadmits⟩ := mem_requested.mp hr
      refine ⟨1, ?_⟩
      rw [← listEventsAfter_window hadmits r.id limit]
      exact hfind r hmem (contractId_of_requested hr)

end Events

/-! ## The events route -/

/-- A client's request of the events route. -/
def eventsQuery (start : EventsStart) (endLedger limit : Option Nat) : EventsQuerystring where
  startLedger :=
    match start with
    | .ledger startLedger => some (.integer startLedger)
    | .cursor _ => none
  endLedger := endLedger.map fun l : Nat => .integer l
  cursor :=
    match start with
    | .ledger _ => none
    | .cursor cursor => some (.text cursor)
  limit := limit.map fun l : Nat => .integer l

def eventsRequest (contractId : String) (endLedger : Option Nat) (start : EventsStart)
    (limit : Option Nat) : Async Db (Option (List EventItem × Option EventsStart)) := do
  match ← eventsRoute contractId (eventsQuery start endLedger limit) with
  | some (.ok response) => pure (some (response.events, response.cursor.map .cursor))
  | some (.error _) => pure none
  | none => pure none

/-- The client follows the cursors, with one limit for each request. -/
def eventsSession (contractId : String) (endLedger : Option Nat) (start : EventsStart)
    (limits : List (Option Nat)) : Async Db (Keyset.Followed EventItem) :=
  Keyset.follow (eventsRequest contractId endLedger) start [] limits

def eventCursor (r : EventRow) : String := encodeCursor r.id

theorem parseIntParam_map (name : String) (value : Option Nat) :
    parseIntParam name (value.map fun n : Nat => .integer n) = .ok value := by
  cases value with
  | none => rfl
  | some n => exact parseIntParam_integer name n

/-- The page with `limit` rows past a place, of the query for one row more. -/
theorem paginate_window {α P : Type} [LinearOrder P] (id : α → String) (pos : α → P)
    (rows : List α) (c : Option P) (limit : Nat) :
    paginate id (Keyset.window pos rows c (limit + 1)) limit
      = (Keyset.window pos rows c limit,
          if limit < (rows.filter fun r => Keyset.past c (pos r)).length
          then (Keyset.window pos rows c limit).getLast?.map fun r => encodeCursor (id r)
          else none) := by
  unfold Keyset.window
  rw [paginate_take, (Keyset.ordered_perm _).length_eq]

/-- What a request compares with the columns is of their types. -/
def startFits (contractId : String) (endLedger : Option Nat) (start : EventsStart) : Bool :=
  isText contractId && endLedger.all isInt4 &&
    match start with
    | .ledger startLedger => isInt4 startLedger
    | .cursor cursor => isText (decodeCursor (.text cursor))

/-- The ledger that a request names. -/
def startLedger? : EventsStart → Option Nat
  | .ledger startLedger => some startLedger
  | .cursor _ => none

theorem eventsNumbers_eventsQuery (start : EventsStart) (endLedger limit : Option Nat) :
    eventsNumbers (eventsQuery start endLedger limit)
      = .ok (startLedger? start, endLedger, limit) := by
  have hend : parseIntParam "endLedger" (endLedger.map fun l : Nat => .integer l) = .ok endLedger :=
    parseIntParam_map _ _
  have hlimit : parseIntParam "limit" (limit.map fun l : Nat => .integer l) = .ok limit :=
    parseIntParam_map _ _
  unfold eventsNumbers
  cases start with
  | ledger startLedger =>
      have hstart : parseIntParam "startLedger" (some (.integer startLedger))
          = .ok (some startLedger) := parseIntParam_integer _ _
      simp only [eventsQuery, hstart, hend, hlimit]
      rfl
  | cursor cursor =>
      simp only [eventsQuery, hend, hlimit]
      rfl

/-- The rows of a request whose values fit are those of `selectEvents`. -/
theorem eventRows_eq {contractId : String} {start : EventsStart} {endLedger : Option Nat}
    (hfits : startFits contractId endLedger start = true) (limit limit' : Option Nat) :
    eventRows contractId (eventsQuery start endLedger limit).cursor (startLedger? start) endLedger
        (clampLimit limit')
      = (do
          let rows ← selectEvents id [contractId] endLedger (fun c => decodeCursor (.text c)) start
            (clampLimit limit' + 1)
          pure (some rows)) := by
  unfold startFits at hfits
  rw [Bool.and_eq_true, Bool.and_eq_true] at hfits
  obtain ⟨⟨hcontract, hledgers⟩, hstartFits⟩ := hfits
  cases start with
  | ledger startLedger =>
      have hquery : ([contractId].all isText && isInt4 startLedger && endLedger.all isInt4)
          = true := by
        simp only [List.all_cons, List.all_nil, hcontract, hledgers, Bool.and_true]
        exact hstartFits
      unfold eventsQuery eventRows startLedger?
      dsimp only [Option.getD_some]
      simp only [if_pos hquery]
      rfl
  | cursor cursor =>
      have hquery : (isText (decodeCursor (.text cursor)) && [contractId].all isText) = true := by
        simp only [List.all_cons, List.all_nil, hcontract, Bool.and_true]
        exact hstartFits
      unfold eventsQuery eventRows
      dsimp only
      simp only [if_pos hquery, if_pos hledgers]
      refine congrArg (Async.await id) (funext fun db => ?_)
      dsimp only [selectEvents, listEventsAfterId, Bind.bind, Async.bind, id]
      cases db.findEvent [contractId] (decodeCursor (.text cursor)) with
      | none => rfl
      | some row => rfl

/-- From a place that a client gets to, values of the columns' types are
asked for. -/
theorem EventsAt.startFits {contractId : String} {endLedger : Option Nat} {origin : From}
    {db : Db} (htexts : TextIds db) (hcontract : isText contractId = true)
    (hend : endLedger.all isInt4 = true) (horigin : origin.fits = true) {start : EventsStart}
    {c : Option Position} (hat : EventsAt [contractId] endLedger origin eventCursor db start c) :
    Api.startFits contractId endLedger start = true := by
  unfold Api.startFits
  rw [hcontract, hend, Bool.true_and, Bool.true_and]
  have hrow : ∀ r ∈ db.events, isText (decodeCursor (.text (eventCursor r))) = true := by
    intro r hr
    rw [eventCursor, decode_encodeCursor]
    exact htexts r hr
  cases hat with
  | start h =>
      cases origin with
      | ledger startLedger => exact horigin
      | after row => exact hrow row h.1
  | @after r hr => exact hrow r (mem_requested.mp hr).1

/-- The reply of the route: the rows past the request's place, and the cursor
of the last one if there is a row to spare. -/
theorem eventsRoute_feed {contractId : String} {endLedger : Option Nat} {origin : From}
    {tables : Nat → Db} (hs : EventsGrow tables) {start : EventsStart} {c : Option Position}
    (hat : EventsAt [contractId] endLedger origin eventCursor (tables 0) start c)
    (hfits : startFits contractId endLedger start = true) (limit : Option Nat) :
    ∃ j latestLedger, (eventsRoute contractId (eventsQuery start endLedger limit)).feed tables
      = (j + 2, some (.ok ⟨latestLedger,
          if clampLimit limit < ((requested [contractId] endLedger origin (tables j)).filter
            fun r => Keyset.past c r.position).length
          then (Keyset.window EventRow.position (requested [contractId] endLedger origin (tables j))
            c (clampLimit limit)).getLast?.map eventCursor
          else none,
          (Keyset.window EventRow.position (requested [contractId] endLedger origin (tables j))
            c (clampLimit limit)).map eventItem⟩)) := by
  obtain ⟨j, hselect⟩ := @EventsAt.selected _ _ _ _ _ id (fun c => decodeCursor (.text c))
    (fun r => decode_encodeCursor r.id) _ hs _ _ hat (clampLimit limit + 1)
  have hpage := paginate_window (fun r : EventRow => r.id) EventRow.position
    (requested [contractId] endLedger origin (tables j)) c (clampLimit limit)
  refine ⟨j, (((tables (j + 1)).getLedgerBounds none).map (·.max)).getD 0, ?_⟩
  unfold eventsRoute
  rw [eventsNumbers_eventsQuery]
  dsimp only
  rw [eventRows_eq hfits, Async.feed_bind, Async.feed_bind, hselect]
  dsimp only [id, Async.feed_pure]
  rw [hpage]
  rfl

/-- With a value outside its column, a query of the route fails. -/
theorem eventsRoute_failed {contractId : String} {endLedger : Option Nat} {start : EventsStart}
    (hfits : startFits contractId endLedger start = false) {tables : Nat → Db}
    (hfound : ∀ cursor, start = .cursor cursor →
      (tables 0).findEvent [contractId] (decodeCursor (.text cursor)) ≠ none)
    (limit : Option Nat) :
    ((eventsRoute contractId (eventsQuery start endLedger limit)).feed tables).2 = none := by
  unfold startFits at hfits
  unfold eventsRoute
  rw [eventsNumbers_eventsQuery]
  dsimp only
  rw [Async.feed_bind]
  cases start with
  | ledger startLedger =>
      have hquery : ¬ ([contractId].all isText && isInt4 startLedger && endLedger.all isInt4)
          = true := by
        rw [List.all_cons, List.all_nil, Bool.and_true, Bool.and_right_comm, hfits]
        exact Bool.false_ne_true
      unfold eventsQuery eventRows startLedger?
      dsimp only [Option.getD_some]
      rw [Async.feed_read_bind, if_neg hquery]
      rfl
  | cursor cursor =>
      unfold eventsQuery eventRows
      dsimp only
      rw [Async.feed_read_bind, List.all_cons, List.all_nil, Bool.and_true]
      by_cases htexts : (isText (decodeCursor (.text cursor)) && isText contractId) = true
      · rw [if_pos htexts]
        cases hrow : (tables 0).findEvent [contractId] (decodeCursor (.text cursor)) with
        | none => exact absurd hrow (hfound cursor rfl)
        | some row =>
            -- the cursor fits, so the last ledger does not
            have hledger : ¬ endLedger.all isInt4 = true := by
              rw [Bool.and_eq_true] at htexts
              simp only [htexts.1, htexts.2, Bool.true_and, Bool.and_true] at hfits
              exact Bool.eq_false_iff.mp hfits
            dsimp only
            rw [Async.feed_read_bind, if_neg hledger]
            rfl
      · rw [if_neg htexts]
        rfl

/-- A request that is answered with a page has values of the columns' types. -/
theorem startFits_of_ok {contractId : String} {endLedger : Option Nat} {origin : From}
    {tables : Nat → Db} (hids : ((tables 0).events.map (·.id)).Nodup) {start : EventsStart}
    {c : Option Position}
    (hat : EventsAt [contractId] endLedger origin eventCursor (tables 0) start c)
    {limit : Option Nat} {n : Nat} {response : EventsResponse}
    (h : (eventsRoute contractId (eventsQuery start endLedger limit)).feed tables
      = (n, some (.ok response))) :
    startFits contractId endLedger start = true := by
  by_contra hfits
  have hrow : ∀ r ∈ (tables 0).events, r.contractId ∈ [contractId] →
      (tables 0).findEvent [contractId] (decodeCursor (.text (eventCursor r))) ≠ none := by
    intro r hr hcontract
    rw [eventCursor, decode_encodeCursor, findEvent_of_mem hids hr hcontract]
    exact Option.some_ne_none r
  have hfound : ∀ cursor, start = .cursor cursor →
      (tables 0).findEvent [contractId] (decodeCursor (.text cursor)) ≠ none := by
    intro cursor hcursor
    cases hat with
    | start hheld =>
        cases origin with
        | ledger startLedger => cases hcursor
        | after row =>
            cases hcursor
            exact hrow row hheld.1 hheld.2
    | @after r hr =>
        cases hcursor
        exact hrow r (mem_requested.mp hr).1 (contractId_of_requested hr)
  have hfailed := eventsRoute_failed (Bool.eq_false_iff.mpr hfits) hfound limit
  rw [h] at hfailed
  cases hfailed

/-- Each request of the client is answered with a page. -/
theorem eventsRequest_answers {contractId : String} {endLedger : Option Nat} {origin : From}
    {tables : Nat → Db} (hs : EventsGrow tables) {start : EventsStart} {c : Option Position}
    (hat : EventsAt [contractId] endLedger origin eventCursor (tables 0) start c)
    (hfits : startFits contractId endLedger start = true) (limit : Option Nat) :
    ∃ j n next, Keyset.Answers EventRow.position (requested [contractId] endLedger origin) eventItem
      (EventsAt [contractId] endLedger origin eventCursor) 1 tables c
      ((eventsRequest contractId endLedger start limit).feed tables) j n next := by
  obtain ⟨j, latestLedger, hfeed⟩ := eventsRoute_feed hs hat hfits limit
  refine ⟨j, clampLimit limit, Keyset.Answers.of_spare (fun r => .cursor (eventCursor r))
    ?_ ?_ (one_le_clampLimit limit) ?_⟩
  · rw [eventsRequest, Async.feed_bind, hfeed]
    rfl
  · rw [eventsRequest, Async.feed_bind, hfeed]
    change some (_, Option.map EventsStart.cursor (if _ then _ else none)) = _
    rw [apply_ite (Option.map EventsStart.cursor), Option.map_map, Option.map_none]
    rfl
  · intro r hr i hi
    exact .after ((hs.grows.mono j i hi) r hr)

/-- What a client of the events route has when it ends: every requested row,
once, in order, as they were when the last page was read; or it was given
fewer limits than there are rows. -/
theorem eventsSession_ends {contractId : String} {endLedger : Option Nat} {origin : From}
    {tables : Nat → Db} (hs : EventsGrow tables) (htexts : ∀ i, TextIds (tables i))
    (hcontract : isText contractId = true) (hend : endLedger.all isInt4 = true)
    (hfits : origin.fits = true)
    (horigin : origin.Held [contractId] (tables 0).events) (limits : List (Option Nat)) :
    let out := (eventsSession contractId endLedger (origin.start eventCursor) limits).feed tables
    (∃ (j : Nat) (rows : List EventRow), out = (j + 2, .finished (rows.map eventItem)) ∧
      rows.Pairwise (fun a b => a.position < b.position) ∧
      ∀ r, r ∈ rows ↔ r ∈ requested [contractId] endLedger origin (tables j)) ∨
    ∃ received i, out.2 = .unfinished received ∧
      limits.length ≤ (requested [contractId] endLedger origin (tables i)).length := by
  rcases Keyset.follow_feed (G := fun s => EventsGrow s ∧ ∀ i, TextIds (s i))
    (fun s n h => ⟨h.1.shift n, fun i => h.2 (n + i)⟩) (fun s h => h.1.grows)
    (fun s h k c limit hat => eventsRequest_answers h.1 hat
      (hat.startFits (h.2 0) hcontract hend hfits) limit) limits tables _ none [] ⟨hs, htexts⟩
    (.start horigin) (.start _ _) with ⟨j, l, hout, hsorted, hgood, hheld⟩ | ⟨l, i, hout, hle⟩
  · exact Or.inl ⟨j, l, hout, hsorted, fun r => ⟨hheld r, hgood r⟩⟩
  · refine Or.inr ⟨l, i, hout, ?_⟩
    rwa [List.length_nil, Nat.zero_add] at hle

/-! ## The bootnode -/

/-- The worlds in which a client's accesses find the events table. -/
def Worlds (worlds : Nat → World Upstream) : Prop := EventsGrow fun i => (worlds i).db

theorem Worlds.shift {worlds : Nat → World Upstream} (h : Worlds worlds) (n : Nat) :
    Worlds fun i => worlds (n + i) := EventsGrow.shift h n

section Bootnode

variable {deps : BootnodeHandlerDeps} {origin : From} {worlds : Nat → World Upstream}

/-- What the bootnode can answer from the place `c`, when the rows are read in
the world `j`. -/
inductive Served (deps : BootnodeHandlerDeps) (origin : From) (worlds : Nat → World Upstream)
    (c : Option Position) (j : Nat) : Nat × RpcOutcome GetEventsResult → Prop where
  /-- an error, for want of the upstream or of any row -/
  | retry {m : Nat} {e : JsonRpcError} (he : e.code ≠ retentionHandoffCode)
      (hwhy : ∃ i, (worlds i).net = none ∨ indexedRows deps (worlds i).db = []) :
      Served deps origin worlds c j (m, .error e)
  /-- a handoff: no row is left -/
  | handoff {bounds : LedgerBounds}
      (hrest : (requested deps.allowedContractIds none origin (worlds j).db).filter
        (fun r => Keyset.past c r.position) = []) :
      Served deps origin worlds c j (j + 2, Bootnode.handoff (some bounds))
  | page {result : GetEventsResult} {n : Nat} {last : EventRow}
      (hlast : (Keyset.window EventRow.position
        (requested deps.allowedContractIds none origin (worlds j).db) c n).getLast? = some last)
      (hevents : result.events = (Keyset.window EventRow.position
        (requested deps.allowedContractIds none origin (worlds j).db) c n).map mapEventRow)
      (hcursor : result.cursor = last.id) :
      Served deps origin worlds c j (j + 3, .ok result)

theorem getLedgerBounds_none {db : Db}
    (h : db.getLedgerBounds (some deps.allowedContractIds) = none) : indexedRows deps db = [] := by
  by_contra hne
  have hmap : (indexedRows deps db).map (·.ledger) ≠ [] := by simpa using hne
  obtain ⟨lo, hlo⟩ := Option.isSome_iff_exists.mp (List.isSome_min?_of_ne_nil hmap)
  obtain ⟨hi, hhi⟩ := Option.isSome_iff_exists.mp (List.isSome_max?_of_ne_nil hmap)
  unfold indexedRows at hlo hhi
  simp [Db.getLedgerBounds, hlo, hhi] at h

/-- Each request of the client is served, with one of the handler's three
answers: an error of which the reason is told, a handoff when no row is past
its place, or the next page. The rows, the bounds and the upstream are read one
after the other, in worlds of their own. -/
theorem getEventsRoute_served (hs : Worlds worlds) {start : EventsStart} {c : Option Position}
    (hat : EventsAt deps.allowedContractIds none origin (·.id) (worlds 0).db start c)
    (limit : Option Nat) :
    ∃ j, Served deps origin worlds c j
      ((getEventsRoute deps (.ok (request deps start limit))).feed worlds) := by
  have hselectRows : selectRows deps start (Bootnode.clampLimit limit)
      = selectEvents World.db deps.allowedContractIds none id start
          (Bootnode.clampLimit limit) := by
    cases start <;> rfl
  obtain ⟨j, hselect⟩ := @EventsAt.selected _ _ _ _ _ World.db id (fun r => rfl) _ hs _ _ hat
    (Bootnode.clampLimit limit)
  refine ⟨j, ?_⟩
  rw [getEventsRoute_request, Async.feed_bind, serveEvents, hselectRows, Async.feed_bind, hselect]
  have hpos := Bootnode.one_le_clampLimit limit
  cases hrows : Keyset.window EventRow.position
    (requested deps.allowedContractIds none origin (worlds j).db) c (Bootnode.clampLimit limit) with
  | nil =>
      have hrest : (requested deps.allowedContractIds none origin (worlds j).db).filter
          (fun r => Keyset.past c r.position) = [] := Keyset.filter_past_of_window_nil hpos hrows
      cases hb : (worlds (j + 1)).db.getLedgerBounds (some deps.allowedContractIds) with
      | none =>
          have hfeed := @Served.retry deps origin worlds c j (j + 2)
            ⟨cacheMissCode, "bootnode warming up; retry later", none⟩ (by decide)
            ⟨j + 1, Or.inr (getLedgerBounds_none hb)⟩
          dsimp only
          rw [Async.feed_read_bind, Nat.add_zero, hb]
          exact hfeed
      | some bounds =>
          dsimp only
          rw [Async.feed_read_bind, Nat.add_zero, hb]
          exact .handoff hrest
  | cons firstRow rest =>
      dsimp only
      rw [Async.feed_read_bind, Async.feed_read_bind]
      cases hnet : (worlds (j + 2)).net with
      | none =>
          have hfeed := @Served.retry deps origin worlds c j (j + 3)
            ⟨internalErrorCode, "internal error", none⟩ (by decide) ⟨j + 2, Or.inl hnet⟩
          simp only [Nat.add_zero, Async.feed_pure]
          exact hfeed
      | some upstream =>
          have hlast : (firstRow :: rest).getLast? = some (rest.getLastD firstRow) := by
            rw [List.getLast?_cons, List.getLastD_eq_getLast?]
          rw [← hrows] at hlast
          have hpage := @Served.page deps origin worlds c j
            (page ((worlds (j + 1)).db.getLedgerBounds (some deps.allowedContractIds)) upstream
              firstRow rest) _ _ hlast (congrArg (List.map mapEventRow) hrows.symm) rfl
          simp only [Nat.add_zero, Async.feed_pure]
          exact hpage

/-- How a client of the bootnode can end: with every requested row, once, in
order, as they were when its last request read them; or with its limits used
up, which takes a failure of the upstream, a table without any of its rows, or
more rows than `n`. -/
def Ended (deps : BootnodeHandlerDeps) (origin : From) (worlds : Nat → World Upstream) (n : Nat)
    (out : Nat × Session) : Prop :=
  (∃ (j : Nat) (rows : List EventRow) (fromLedger : Nat),
    out = (j + 2, .handedOff (rows.map mapEventRow) fromLedger) ∧
    rows.Pairwise (fun a b => a.position < b.position) ∧
    ∀ r, r ∈ rows ↔ r ∈ requested deps.allowedContractIds none origin (worlds j).db) ∨
  ∃ received i, out.2 = .unfinished received ∧
    ((worlds i).net = none ∨ indexedRows deps (worlds i).db = [] ∨
      n ≤ (requested deps.allowedContractIds none origin (worlds i).db).length)

/-- A session of which the first `m` accesses are made. -/
theorem Ended.shift {m n : Nat} {out : Nat × Session}
    (h : Ended deps origin (fun i => worlds (m + i)) n out) :
    Ended deps origin worlds n (m + out.1, out.2) := by
  rcases h with ⟨j, rows, fromLedger, rfl, h⟩ | ⟨received, i, hout, h⟩
  · exact Or.inl ⟨m + j, rows, fromLedger, rfl, h⟩
  · exact Or.inr ⟨received, m + i, hout, h⟩

theorem Ended.mono {m n : Nat} {out : Nat × Session} (h : Ended deps origin worlds n out)
    (hmn : m ≤ n) : Ended deps origin worlds m out := by
  rcases h with h | ⟨received, i, hout, h⟩
  · exact Or.inl h
  · exact Or.inr ⟨received, i, hout, h.imp id (Or.imp id hmn.trans)⟩

/-- After a failed request the limits do not count. -/
theorem Ended.of_retry {n n' : Nat} {out : Nat × Session} (h : Ended deps origin worlds n out)
    (hwhy : ∃ i, (worlds i).net = none ∨ indexedRows deps (worlds i).db = []) :
    Ended deps origin worlds n' out := by
  rcases h with h | ⟨received, -, hout, -⟩
  · exact Or.inl h
  · obtain ⟨i, hi⟩ := hwhy
    exact Or.inr ⟨received, i, hout, hi.imp id Or.inl⟩

/-- A session from the place `c` on, with `received` already there. By
induction on the limits: a retry changes nothing, a handoff ends the session
with all rows, and a page moves the place to its last row. -/
theorem clientSession_from : ∀ (limits : List (Option Nat)) (worlds : Nat → World Upstream)
    (start : EventsStart) (c : Option Position) (received : List EventRow), Worlds worlds →
    EventsAt deps.allowedContractIds none origin (·.id) (worlds 0).db start c →
    Keyset.Collected EventRow.position
      (· ∈ requested deps.allowedContractIds none origin (worlds 0).db)
      (requested deps.allowedContractIds none origin (worlds 0).db) c received →
    Ended deps origin worlds (received.length + limits.length)
      ((clientSession deps start (received.map mapEventRow) limits).feed worlds) := by
  intro limits
  induction limits with
  | nil =>
      intro worlds start c received _ _ hc
      exact Or.inr ⟨_, 0, rfl, Or.inr (Or.inr (Keyset.length_le_of_sorted hc.sorted hc.held))⟩
  | cons limit limits ih =>
      intro worlds start c received hworlds hat hc
      have hgrows := @EventsGrow.grows deps.allowedContractIds none origin _ hworlds
      have hgrew : ∀ i, Keyset.Collected EventRow.position
          (· ∈ requested deps.allowedContractIds none origin (worlds i).db)
          (requested deps.allowedContractIds none origin (worlds i).db) c received :=
        fun i => hc.grew (hgrows.mono 0 i (Nat.zero_le i)) (hgrows.late 0 i (Nat.zero_le i))
      obtain ⟨j, hserved⟩ := getEventsRoute_served hworlds hat limit
      rw [clientSession, Async.feed_bind]
      generalize (getEventsRoute deps (.ok (request deps start limit))).feed worlds = answered
        at hserved ⊢
      cases hserved with
      | @retry m e he hwhy =>
          have hcode : (if e.code = retentionHandoffCode then e.data else none) = none :=
            if_neg he
          have hrest := ih (fun i => worlds (m + i)) start c received (hworlds.shift m)
            (hat.mono (hworlds.le (Nat.zero_le m))) (hgrew m)
          dsimp only
          rw [hcode]
          exact hrest.shift.of_retry hwhy
      | @handoff bounds hrest =>
          refine Or.inl ⟨j, received, bounds.max + 1, rfl, hc.sorted,
            fun r => ⟨(hgrew j).held r, ?_⟩⟩
          intro hr
          refine (hgrew j).all r hr ?_
          rw [← Bool.not_eq_true]
          exact List.filter_eq_nil_iff.mp hrest r hr
      | @page result n last hlast hevents hcursor =>
          have hpage := ((hgrew j).page (hgrows.distinct j) (fun r hr => hr) hlast).grew
            (hgrows.mono j (j + 3) (by omega)) (hgrows.late j (j + 3) (by omega))
          have hlen : 0 < (Keyset.window EventRow.position
              (requested deps.allowedContractIds none origin (worlds j).db) c n).length :=
            List.length_pos_of_mem (List.mem_of_getLast? hlast)
          have hat' : EventsAt deps.allowedContractIds none origin (·.id) (worlds (j + 3)).db
              (.cursor result.cursor) (some last.position) := by
            rw [hcursor]
            exact .after (hgrows.mono j (j + 3) (by omega) last
              (Keyset.mem_of_mem_window (List.mem_of_getLast? hlast)).1)
          have hrest := ih (fun i => worlds (j + 3 + i)) _ _ _ (hworlds.shift (j + 3)) hat' hpage
          dsimp only
          rw [hevents, ← List.map_append]
          refine (hrest.mono ?_).shift
          rw [List.length_append, List.length_cons]
          omega

/-- A client of the bootnode, from its start on. -/
theorem clientSession_ends (hs : Worlds worlds)
    (horigin : origin.Held deps.allowedContractIds (worlds 0).db.events)
    (limits : List (Option Nat)) :
    Ended deps origin worlds limits.length
      ((clientSession deps (origin.start (·.id)) [] limits).feed worlds) := by
  have h := clientSession_from limits worlds _ none [] hs (.start horigin) (.start _ _)
  rwa [List.length_nil, Nat.zero_add] at h

end Bootnode

/-! ## The activity route -/

/-- The activity table along the accesses of a client: keys are distinct, and
rows stay. New rows may come anywhere. -/
structure ActivityGrow (tables : Nat → List CtActivityRow) : Prop where
  ids : ∀ i, ((tables i).map (·.id)).Nodup
  kept : ∀ i, ∀ r ∈ tables i, r ∈ tables (i + 1)

theorem ActivityGrow.le {tables : Nat → List CtActivityRow} (h : ActivityGrow tables) {i j : Nat}
    (hij : i ≤ j) : ∀ r ∈ tables i, r ∈ tables j := by
  induction hij with
  | refl => exact fun r hr => hr
  | step _ ih => exact fun r hr => h.kept _ r (ih r hr)

theorem ActivityGrow.shift {tables : Nat → List CtActivityRow} (h : ActivityGrow tables)
    (n : Nat) : ActivityGrow fun i => tables (n + i) where
  ids i := h.ids (n + i)
  kept i := h.kept (n + i)

/-- The rows of an account, or those older than one of its rows. -/
def requestedActivity (account : String) (older : Option CtActivityRow)
    (table : List CtActivityRow) : List CtActivityRow :=
  table.filter fun r => decide (r.account = account) &&
    older.all fun x => decide (x.position < r.position)

def activityQuery (cursor : Option String) (limit : Option Nat) : ActivityQuerystring :=
  ⟨cursor.map .text, limit.map fun l : Nat => .integer l⟩

def activityRequest (address : String) (cursor : Option String) (limit : Option Nat) :
    Async (List CtActivityRow) (Option (List ActivityItem × Option (Option String))) := do
  match ← activityRoute address (activityQuery cursor limit) with
  | some (.ok response) => pure (some (response.activity, response.cursor.map some))
  | some (.error _) => pure none
  | none => pure none

/-- The client follows the cursors, with one limit for each request. -/
def activitySession (address : String) (cursor : Option String) (limits : List (Option Nat)) :
    Async (List CtActivityRow) (Keyset.Followed ActivityItem) :=
  Keyset.follow (activityRequest address) cursor [] limits

def activityCursor (r : CtActivityRow) : String := encodeCursor r.id.val

section Activity

variable {address : String} {older : Option CtActivityRow} {table : List CtActivityRow}
  {tables : Nat → List CtActivityRow}

theorem mem_requestedActivity {r : CtActivityRow} : r ∈ requestedActivity address older table ↔
    r ∈ table ∧ r.account = address ∧ ∀ x, older = some x → x.position < r.position := by
  rw [requestedActivity, List.mem_filter, Bool.and_eq_true, decide_eq_true_eq]
  cases older with
  | none => simp
  | some x => simp

theorem position_distinct (h : (table.map (·.id)).Nodup) :
    (table.map CtActivityRow.position).Nodup := by
  refine List.Nodup.of_map (fun p : (Nat ×ₗ Uuid)ᵒᵈ => (ofLex (OrderDual.ofDual p)).2) ?_
  rw [List.map_map]
  exact h

/-- Of the first table, all rows are to be received. -/
theorem ActivityGrow.grows {first : List CtActivityRow} (h : ActivityGrow tables)
    (hfirst : ∀ r ∈ first, r ∈ tables 0) :
    Keyset.Grows CtActivityRow.position (requestedActivity address older)
      (fun _ r => r ∈ requestedActivity address older first) tables where
  distinct i := (position_distinct (h.ids i)).sublist (List.filter_sublist.map _)
  held i r hr := by
    obtain ⟨hmem, hcond⟩ := mem_requestedActivity.mp hr
    exact mem_requestedActivity.mpr ⟨h.le (Nat.zero_le i) r (hfirst r hmem), hcond⟩
  mono i j hij r hr := by
    obtain ⟨hmem, hcond⟩ := mem_requestedActivity.mp hr
    exact mem_requestedActivity.mpr ⟨h.le hij r hmem, hcond⟩
  late _ _ _ _ hr := Or.inl hr

/-- The request with `cursor` goes on from the place `c`. -/
inductive ActivityAt (address : String) (older : Option CtActivityRow)
    (table : List CtActivityRow) : Option String → Option (Nat ×ₗ Uuid)ᵒᵈ → Prop where
  | start (h : ∀ x, older = some x → x ∈ table ∧ x.account = address) :
      ActivityAt address older table (older.map activityCursor) none
  | after {r : CtActivityRow} (hr : r ∈ requestedActivity address older table) :
      ActivityAt address older table (some (activityCursor r)) (some r.position)

theorem listActivityForAccount_window (limit : Nat) :
    listActivityForAccount table address limit
      = Keyset.window CtActivityRow.position (requestedActivity address none table) none limit := by
  unfold Keyset.window listActivityForAccount requestedActivity
  simp only [Keyset.past_none, List.filter_true, Option.all_none, Bool.and_true]

theorem listActivityBefore_older (x : CtActivityRow) (limit : Nat) :
    listActivityBefore table address x limit
      = Keyset.window CtActivityRow.position (requestedActivity address (some x) table)
          none limit := by
  unfold Keyset.window listActivityBefore requestedActivity
  simp only [Keyset.past_none, List.filter_true, Option.all_some]

theorem listActivityBefore_window {r : CtActivityRow}
    (hr : r ∈ requestedActivity address older table) (table' : List CtActivityRow) (limit : Nat) :
    listActivityBefore table' address r limit
      = Keyset.window CtActivityRow.position (requestedActivity address older table')
          (some r.position) limit := by
  have hfilter : (table'.filter fun x =>
        decide (x.account = address) && decide (r.position < x.position))
      = (requestedActivity address older table').filter
          fun x => Keyset.past (some r.position) x.position := by
    rw [requestedActivity, List.filter_filter]
    refine List.filter_congr fun x _ => ?_
    rw [Keyset.past, Option.all_some]
    by_cases hlt : r.position < x.position
    · have hall : (older.all fun y => decide (y.position < x.position)) = true := by
        rw [Option.all_eq_true]
        intro y hy
        exact decide_eq_true (((mem_requestedActivity.mp hr).2.2 y hy).trans hlt)
      rw [decide_eq_true hlt, hall, Bool.and_true, Bool.true_and]
    · rw [decide_eq_false hlt, Bool.and_false, Bool.false_and]
  unfold listActivityBefore Keyset.window
  rw [hfilter]

/-- A request reads the first rows past its place, as they are at its last
access. A cursor takes one access more, to find its row, which is still there.
-/
theorem ActivityAt.selected (hs : ActivityGrow tables) (haddress : isText address = true)
    {cursor : Option String} {c : Option (Nat ×ₗ Uuid)ᵒᵈ}
    (hat : ActivityAt address older (tables 0) cursor c) (limit : Nat) :
    ∃ j, (activityRows address (cursor.map .text) limit).feed tables
      = (j + 1, some (some (Keyset.window CtActivityRow.position
          (requestedActivity address older (tables j)) c (limit + 1)))) := by
  have hfind : ∀ r ∈ tables 0, r.account = address →
      (activityRows address (some (.text (activityCursor r))) limit).feed tables
        = (2, some (some (listActivityBefore (tables 1) address r (limit + 1)))) := by
    intro r hr haccount
    have hcond : (decide (r.id = r.id) && decide (r.account = address)) = true := by
      simp [haccount]
    have hrow : ((tables 0).find? fun x =>
        decide (x.id = r.id) && decide (x.account = address)) = some r := by
      cases hfind : (tables 0).find? fun x =>
          decide (x.id = r.id) && decide (x.account = address) with
      | none => exact absurd hcond (List.find?_eq_none.mp hfind r hr)
      | some x =>
          have hx := List.find?_some hfind
          rw [Bool.and_eq_true, decide_eq_true_eq] at hx
          rw [Table.keyedBy_of_nodup (hs.ids 0) x r (List.mem_of_find?_eq_some hfind) hr hx.1]
    unfold activityRows activityCursor listActivityForAccountBeforeId
    dsimp only
    rw [if_pos haddress, decode_encodeCursor, uuid?_val]
    dsimp only
    rw [Async.feed_bind, Async.feed_read_bind, hrow]
    rfl
  cases hat with
  | start h =>
      cases older with
      | none =>
          refine ⟨0, ?_⟩
          rw [← listActivityForAccount_window, Option.map_none, Option.map_none]
          unfold activityRows
          simp only [if_pos haddress]
          rfl
      | some x =>
          refine ⟨1, ?_⟩
          rw [← listActivityBefore_older]
          exact hfind x (h x rfl).1 (h x rfl).2
  | @after r hr =>
      obtain ⟨hmem, haccount, -⟩ := mem_requestedActivity.mp hr
      refine ⟨1, ?_⟩
      rw [← listActivityBefore_window hr]
      exact hfind r hmem haccount

/-- Each request of the client is answered with a page. -/
theorem activityRequest_answers (hs : ActivityGrow tables) (haddress : isText address = true)
    {cursor : Option String} {c : Option (Nat ×ₗ Uuid)ᵒᵈ}
    (hat : ActivityAt address older (tables 0) cursor c) (limit : Option Nat) :
    ∃ j n next, Keyset.Answers CtActivityRow.position (requestedActivity address older)
      activityItem (ActivityAt address older) 0 tables c
      ((activityRequest address cursor limit).feed tables) j n next := by
  obtain ⟨j, hselect⟩ := hat.selected hs haddress (clampLimit limit)
  have hpage := paginate_window (fun r : CtActivityRow => r.id.val) CtActivityRow.position
    (requestedActivity address older (tables j)) c (clampLimit limit)
  have hfeed : (activityRoute address (activityQuery cursor limit)).feed tables
      = (j + 1, some (.ok ⟨(paginate (·.id.val) (Keyset.window CtActivityRow.position
          (requestedActivity address older (tables j)) c (clampLimit limit + 1))
          (clampLimit limit)).2,
        (paginate (·.id.val) (Keyset.window CtActivityRow.position
          (requestedActivity address older (tables j)) c (clampLimit limit + 1))
          (clampLimit limit)).1.map activityItem⟩)) := by
    have hlimit : parseIntParam "limit" (limit.map fun l : Nat => .integer l) = .ok limit :=
      parseIntParam_map _ _
    simp only [activityRoute, activityQuery, hlimit]
    rw [Async.feed_bind, hselect]
    rfl
  rw [hpage] at hfeed
  refine ⟨j, clampLimit limit, Keyset.Answers.of_spare (fun r => some (activityCursor r))
    ?_ ?_ (one_le_clampLimit limit) ?_⟩
  · rw [activityRequest, Async.feed_bind, hfeed]
    rfl
  · rw [activityRequest, Async.feed_bind, hfeed]
    change some (_, Option.map some (if _ then _ else none)) = _
    rw [apply_ite (Option.map some), Option.map_map, Option.map_none]
    rfl
  · intro r hr i hi
    obtain ⟨hmem, hcond⟩ := mem_requestedActivity.mp hr
    exact .after (mem_requestedActivity.mpr ⟨hs.le hi r hmem, hcond⟩)

/-- What a client of the activity route has when it ends: rows of the
account, newest first, each once, and all that were there at the first
request; or it was given fewer limits than there are rows. -/
theorem activitySession_ends (hs : ActivityGrow tables) (haddress : isText address = true)
    (holder : ∀ x, older = some x → x ∈ tables 0 ∧ x.account = address)
    (limits : List (Option Nat)) :
    let out := (activitySession address (older.map activityCursor) limits).feed tables
    (∃ (j : Nat) (rows : List CtActivityRow), out = (j + 1, .finished (rows.map activityItem)) ∧
      rows.Pairwise (fun a b => a.position < b.position) ∧
      (∀ r ∈ requestedActivity address older (tables 0), r ∈ rows) ∧
      ∀ r ∈ rows, r ∈ requestedActivity address older (tables j)) ∨
    ∃ received i, out.2 = .unfinished received ∧
      limits.length ≤ (requestedActivity address older (tables i)).length := by
  rcases Keyset.follow_feed
    (G := fun s => ActivityGrow s ∧ ∀ r ∈ tables 0, r ∈ s 0)
    (fun s n h => ⟨h.1.shift n, fun r hr => h.1.le (Nat.zero_le (n + 0)) r (h.2 r hr)⟩)
    (fun s h => h.1.grows h.2)
    (fun s h k c limit hat => activityRequest_answers h.1 haddress hat limit) limits tables _ none
    [] ⟨hs, fun r hr => hr⟩ (.start holder) (.start _ _) with ⟨j, l, hout, h⟩ | ⟨l, i, hout, hle⟩
  · exact Or.inl ⟨j, l, hout, h⟩
  · refine Or.inr ⟨l, i, hout, ?_⟩
    rwa [List.length_nil, Nat.zero_add] at hle

end Activity

/-! ## Every route -/

/-- A client that follows the cursors of the events route until there is none,
or those of the bootnode until it is handed off, receives every requested row
once, in the order of the positions, as the table is when the last page is
read. A client of the activity route receives rows of the account, newest
first, each once, among them all that were there at its first request. Once
inserts stop, each of them ends, with more requests than there are rows.

What the client asks with fits the columns: ledgers below 2³¹, and texts
without U+0000. By induction on the limits, with `Keyset.Collected` for what
was received: each request is answered with the rows past its place, and the
place moves to the last of them. -/
theorem pages_lossless :
    (∀ (contractId : String) (endLedger : Option Nat) (origin : From) (tables : Nat → Db)
      (limits : List (Option Nat)), EventsGrow tables → (∀ i, TextIds (tables i)) →
      isText contractId = true → endLedger.all isInt4 = true → origin.fits = true →
      origin.Held [contractId] (tables 0).events →
      let out := (eventsSession contractId endLedger (origin.start eventCursor) limits).feed tables
      ((∃ (j : Nat) (rows : List EventRow), out = (j + 2, .finished (rows.map eventItem)) ∧
          rows.Pairwise (fun a b => a.position < b.position) ∧
          ∀ r, r ∈ rows ↔ r ∈ requested [contractId] endLedger origin (tables j)) ∨
        ∃ received, out.2 = .unfinished received) ∧
      ∀ k, (∀ i, k ≤ i → tables i = tables k) →
        (requested [contractId] endLedger origin (tables k)).length < limits.length →
        ∃ received, out.2 = .finished received) ∧
    (∀ (deps : BootnodeHandlerDeps) (origin : From) (worlds : Nat → World Upstream)
      (limits : List (Option Nat)), EventsGrow (fun i => (worlds i).db) →
      deps.allowedContractIds.all isText = true → origin.fits = true →
      origin.Held deps.allowedContractIds (worlds 0).db.events →
      let out := (clientSession deps (origin.start (·.id)) [] limits).feed worlds
      ((∃ (j : Nat) (rows : List EventRow) (fromLedger : Nat),
          out = (j + 2, .handedOff (rows.map mapEventRow) fromLedger) ∧
          rows.Pairwise (fun a b => a.position < b.position) ∧
          ∀ r, r ∈ rows ↔ r ∈ requested deps.allowedContractIds none origin (worlds j).db) ∨
        ∃ received, out.2 = .unfinished received) ∧
      ∀ k, (∀ i, k ≤ i → (worlds i).db = (worlds k).db) →
        (∀ i, (worlds i).net ≠ none ∧ indexedRows deps (worlds i).db ≠ []) →
        (requested deps.allowedContractIds none origin (worlds k).db).length < limits.length →
        ∃ received fromLedger, out.2 = .handedOff received fromLedger) ∧
    (∀ (address : String) (older : Option CtActivityRow) (tables : Nat → List CtActivityRow)
      (limits : List (Option Nat)), ActivityGrow tables → isText address = true →
      (∀ x, older = some x → x ∈ tables 0 ∧ x.account = address) →
      let out := (activitySession address (older.map activityCursor) limits).feed tables
      ((∃ (j : Nat) (rows : List CtActivityRow),
          out = (j + 1, .finished (rows.map activityItem)) ∧
          rows.Pairwise (fun a b => a.position < b.position) ∧
          (∀ r ∈ requestedActivity address older (tables 0), r ∈ rows) ∧
          ∀ r ∈ rows, r ∈ requestedActivity address older (tables j)) ∨
        ∃ received, out.2 = .unfinished received) ∧
      ∀ k, (∀ i, k ≤ i → tables i = tables k) →
        (requestedActivity address older (tables k)).length < limits.length →
        ∃ received, out.2 = .finished received) := by
  refine ⟨?_, ?_, ?_⟩
  · intro contractId endLedger origin tables limits hs htexts hcontract hend hfits horigin out
    rcases eventsSession_ends hs htexts hcontract hend hfits horigin limits with
      ⟨j, rows, hout, h⟩ | ⟨received, i, hout, hle⟩
    · refine ⟨Or.inl ⟨j, rows, hout, h⟩, fun _ _ _ => ⟨rows.map eventItem, ?_⟩⟩
      exact congrArg Prod.snd hout
    · refine ⟨Or.inr ⟨received, hout⟩, fun k hk hlt => absurd hle (not_le.mpr ?_)⟩
      have hlen := (@EventsGrow.grows [contractId] endLedger origin _ hs).length_le
        (fun i hi => by rw [hk i hi]) i
      omega
  · intro deps origin worlds limits hs _ _ horigin out
    rcases clientSession_ends hs horigin limits with
      ⟨j, rows, fromLedger, hout, h⟩ | ⟨received, i, hout, hwhy⟩
    · refine ⟨Or.inl ⟨j, rows, fromLedger, hout, h⟩,
        fun _ _ _ _ => ⟨rows.map mapEventRow, fromLedger, ?_⟩⟩
      exact congrArg Prod.snd hout
    · refine ⟨Or.inr ⟨received, hout⟩, fun k hk hup hlt => ?_⟩
      have hlen := (@EventsGrow.grows deps.allowedContractIds none origin _ hs).length_le
        (fun i hi => by rw [hk i hi]) i
      rcases hwhy with hnet | hempty | hle
      · exact absurd hnet (hup i).1
      · exact absurd hempty (hup i).2
      · omega
  · intro address older tables limits hs haddress holder out
    rcases activitySession_ends hs haddress holder limits with
      ⟨j, rows, hout, h⟩ | ⟨received, i, hout, hle⟩
    · refine ⟨Or.inl ⟨j, rows, hout, h⟩, fun _ _ _ => ⟨rows.map activityItem, ?_⟩⟩
      exact congrArg Prod.snd hout
    · refine ⟨Or.inr ⟨received, hout⟩, fun k hk hlt => absurd hle (not_le.mpr ?_)⟩
      have hlen := (@ActivityGrow.grows address older _ (tables 0) hs fun r hr => hr).length_le
        (fun i hi => by rw [hk i hi]) i
      omega

/-! ## Two rows, the second inserted after the first page -/

def poolRow (id txHash : String) (txIndex : Nat) : EventRow :=
  toNewEventRow (poolEvent id txHash txIndex)

def poolTables (i : Nat) : Db :=
  if i < 2 then { Db.empty with events := [poolRow "10-aa-0-0" "aa" 0] }
  else { Db.empty with events := [poolRow "10-aa-0-0" "aa" 0, poolRow "10-bb-0-0" "bb" 1] }

theorem poolTables_of_le {i : Nat} (hi : 2 ≤ i) : poolTables i = poolTables 2 := by
  rw [poolTables, if_neg (by omega)]
  rfl

theorem poolTables_of_lt {i : Nat} (hi : i < 2) : poolTables i = poolTables 0 := by
  rw [poolTables, if_pos hi]
  rfl

theorem poolTables_texts (i : Nat) : TextIds (poolTables i) := by
  rcases Nat.lt_or_ge i 2 with hi | hi
  · rw [poolTables_of_lt hi]
    unfold TextIds
    decide
  · rw [poolTables_of_le hi]
    unfold TextIds
    decide

theorem poolTables_grow : EventsGrow poolTables where
  ids i := by
    rcases Nat.lt_or_ge i 2 with hi | hi
    · rw [poolTables_of_lt hi]
      decide
    · rw [poolTables_of_le hi]
      decide
  positions i := by
    rcases Nat.lt_or_ge i 2 with hi | hi
    · rw [poolTables_of_lt hi]
      decide
    · rw [poolTables_of_le hi]
      decide
  appended i := by
    rcases Nat.lt_trichotomy i 1 with hi | rfl | hi
    · rw [poolTables_of_lt (show i < 2 by omega), poolTables_of_lt (show i + 1 < 2 by omega)]
      exact .refl _
    · exact ⟨[poolRow "10-bb-0-0" "bb" 1], .refl _, by decide⟩
    · rw [poolTables_of_le hi, poolTables_of_le (show 2 ≤ i + 1 by omega)]
      exact .refl _

def poolWorlds (i : Nat) : World Upstream := ⟨poolTables i, some ⟨"tip", 27, 12, "1785522620"⟩⟩

def depositRow (id : String) (h : isUuid id = true) (ledger : Nat) : CtActivityRow where
  account := "GA"
  type := "deposit"
  counterparty := "GA"
  amount := some "5"
  ledger := ledger
  txHash := "aa"
  eventId := "10-aa-0-0"
  ciphertexts := []
  id := ⟨id, h⟩

def depositTable : List CtActivityRow :=
  [depositRow "0b0e1c44-7c1e-4a55-9f0a-1d2f3a4b5c6d" (by decide +kernel) 10,
    depositRow "7c9e6679-7425-40de-944b-e07fc1f90ae7" (by decide +kernel) 11]

theorem depositTable_grow : ActivityGrow fun _ => depositTable :=
  ⟨fun _ => by decide +kernel, fun _ _ hr => hr⟩

theorem pages_lossless_small :
    (∃ received, ((eventsSession "POOL" none (.ledger 0) [some 1, some 1, some 1]).feed
      poolTables).2 = .finished received) ∧
    (∃ received fromLedger, ((clientSession poolDeps (.ledger 0) [] [some 1, some 1, some 1]).feed
      poolWorlds).2 = .handedOff received fromLedger) ∧
    ∃ received, ((activitySession "GA" none [some 1, some 1, some 1]).feed
      fun _ => depositTable).2 = .finished received := by
  have hevents := pages_lossless.1 "POOL" none (.ledger 0) poolTables [some 1, some 1, some 1]
    poolTables_grow poolTables_texts (by decide) rfl rfl trivial
  have hbootnode := pages_lossless.2.1 poolDeps (.ledger 0) poolWorlds [some 1, some 1, some 1]
    poolTables_grow (by decide) rfl trivial
  have hactivity := pages_lossless.2.2 "GA" none (fun _ => depositTable) [some 1, some 1, some 1]
    depositTable_grow (by decide) fun x hx => by cases hx
  have hup : ∀ i, (poolWorlds i).net ≠ none ∧ indexedRows poolDeps (poolWorlds i).db ≠ [] := by
    intro i
    unfold poolWorlds
    rcases Nat.lt_or_ge i 2 with hi | hi
    · rw [poolTables_of_lt hi]
      exact ⟨fun h => (by cases h), by decide⟩
    · rw [poolTables_of_le hi]
      exact ⟨fun h => (by cases h), by decide⟩
  refine ⟨?_, ?_, ?_⟩
  · exact hevents.2 2 (fun i hi => poolTables_of_le hi) (by decide)
  · exact hbootnode.2 2 (fun i hi => poolTables_of_le hi) hup (by decide)
  · exact hactivity.2 0 (fun _ _ => rfl) (by decide +kernel)

/-- A last ledger past the column's integers: the query fails, and the one row
that is asked for is not received. -/
theorem pages_refused_past_column :
    EventsGrow (fun _ => poolTables 0) ∧ ((poolTables 0).events.map (·.position)).Nodup ∧
    poolRow "10-aa-0-0" "aa" 0 ∈ requested ["POOL"] (some 2147483648) (.ledger 0) (poolTables 0) ∧
    ((eventsSession "POOL" (some 2147483648) (.ledger 0) [none, none]).feed
      fun _ => poolTables 0).2 = .refused [] :=
  ⟨⟨fun _ => poolTables_grow.ids 0, fun _ => poolTables_grow.positions 0, fun _ => .refl _⟩,
    poolTables_grow.positions 0,
    by decide, by decide +kernel⟩

end Api

end PrivacyWallet
