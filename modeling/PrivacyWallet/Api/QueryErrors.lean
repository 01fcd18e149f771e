import PrivacyWallet.Api.Pagination

/-!
# What a bad query ends in

The routes once more, over the values of a query string: texts, or arrays of
texts where a parameter is repeated. A text that `Number` takes for an integer
need not denote one, an integer need not fit a ledger's column, and a cursor is
compared with the ids whatever it decodes to. `Answers` is what a client is
owed; `queries_answered` says which queries get it.

Three steps lead there, for each route. The route refuses a number that
`Number` takes for none (`eventsReply_refused`). Otherwise it fails where a
value does not fit its column, and where all fit it answers with the page from
where the cursor points, or refuses a cursor that names no row
(`eventsRoute_run`, `activityRoute_run`). Such a reply is what a client is owed
exactly if nothing fails and the numbers denote what they are taken for
(`answers_iff`). The two readings of a number differ only from 2⁵³ on, where
neither fits a ledger and both are cut to the same limit (`taken_denoting`).
-/

namespace PrivacyWallet

namespace Api

open Indexer

/-! ## Numbers in a query -/

/-- `String(value)`, which `Number` reads: the texts of an array, with commas
between them. -/
def QueryValue.toText : QueryValue → String
  | .text value => value
  | .repeated first second rest => ",".intercalate (first :: second :: rest)

/-- `Number(value)`, as `Number.isInteger` tells it. -/
def Number.ofValue (value : QueryValue) : Number :=
  match Numeral.number value.toText with
  | .finite q => if q.den = 1 then .integer q.num else .other
  | .infinite _ => .other
  | .nan => .other

/-- The natural number that a value denotes, exactly. -/
def natural? (value : QueryValue) : Option Nat :=
  match Numeral.denotes? value.toText with
  | some (.number q) => if q.den = 1 ∧ 0 ≤ q.num then some q.num.toNat else none
  | some (.infinite _) => none
  | none => none

/-- What a value is taken for; `none` where it is refused. -/
def taken? (value : QueryValue) : Option Nat :=
  match Number.ofValue value with
  | .integer n => if n < 0 then none else some n.toNat
  | .other => none

/-! ## The requests -/

structure EventsValues where
  startLedger : Option QueryValue
  endLedger : Option QueryValue
  cursor : Option QueryValue
  limit : Option QueryValue

def EventsValues.read (query : EventsValues) : EventsQuerystring where
  startLedger := query.startLedger.map Number.ofValue
  endLedger := query.endLedger.map Number.ofValue
  cursor := query.cursor
  limit := query.limit.map Number.ofValue

@[simp] theorem EventsValues.read_cursor (query : EventsValues) :
    query.read.cursor = query.cursor := rfl

def EventsValues.numerals (query : EventsValues) : List QueryValue :=
  query.startLedger.toList ++ query.endLedger.toList ++ query.limit.toList

def eventsReply (contractId : String) (query : EventsValues) : Async Db (Reply EventsResponse) :=
  eventsRoute contractId query.read

structure ActivityValues where
  cursor : Option QueryValue
  limit : Option QueryValue

def ActivityValues.read (query : ActivityValues) : ActivityQuerystring where
  cursor := query.cursor
  limit := query.limit.map Number.ofValue

@[simp] theorem ActivityValues.read_cursor (query : ActivityValues) :
    query.read.cursor = query.cursor := rfl

def activityReply (address : String) (query : ActivityValues) :
    Async (List CtActivityRow) (Reply ActivityResponse) :=
  activityRoute address query.read

/-! ## What a client is owed -/

/-- 400 `INVALID_ARGUMENT` -/
def Rejected {α : Type} (reply : Reply α) : Prop :=
  ∃ message, reply = some (.error (invalidArgument message))

/-- The page that the parameters denote, or a client error: always if a
number is none, and if the cursor names no row, so that no page is denoted. -/
structure Answers {α : Type} (numerals : List QueryValue) (denoted : Option α) (reply : Reply α) :
    Prop where
  answered : Rejected reply ∨ ∃ page, denoted = some page ∧ reply = some (.ok page)
  numbers : (∃ value ∈ numerals, natural? value = none) → Rejected reply
  cursor : denoted = none → Rejected reply

/-- The first `limit` rows in order, and the cursor if there is a row to
spare. -/
def eventsPage (db : Db) (contractId : String) (endLedger : Option Nat) (limit : Nat)
    (origin : From) : EventsResponse :=
  let rows := requested [contractId] endLedger origin db
  let page := Keyset.window EventRow.position rows none limit
  { latestLedger := ((db.getLedgerBounds none).map (·.max)).getD 0
    cursor := if limit < rows.length then page.getLast?.map eventCursor else none
    events := page.map eventItem }

/-- Where the cursor or the first ledger points; `none` if the cursor names no
row. -/
def eventsOrigin (db : Db) (contractId : String) (cursor : Option QueryValue)
    (startLedger : Option Nat) : Option From :=
  match cursor with
  | none => some (.ledger (startLedger.getD 0))
  | some cursor => (db.findEvent [contractId] (decodeCursor cursor)).map .after

def denotedEvents (db : Db) (contractId : String) (query : EventsValues) : Option EventsResponse :=
  (eventsOrigin db contractId query.cursor (query.startLedger.bind natural?)).map
    (eventsPage db contractId (query.endLedger.bind natural?)
      (clampLimit (query.limit.bind natural?)))

def activityPage (table : List CtActivityRow) (address : String) (limit : Nat)
    (older : Option CtActivityRow) : ActivityResponse :=
  let rows := requestedActivity address older table
  let page := Keyset.window CtActivityRow.position rows none limit
  { cursor := if limit < rows.length then page.getLast?.map activityCursor else none
    activity := page.map activityItem }

/-- The row to start behind, if there is a cursor; `none` if that names no row
of the account. -/
def activityOrigin (table : List CtActivityRow) (address : String) (cursor : Option QueryValue) :
    Option (Option CtActivityRow) :=
  match cursor with
  | none => some none
  | some cursor => ((uuid? (decodeCursor cursor)).bind fun id =>
      table.find? fun r => decide (r.id = id) && decide (r.account = address)).map some

def denotedActivity (table : List CtActivityRow) (address : String) (query : ActivityValues) :
    Option ActivityResponse :=
  (activityOrigin table address query.cursor).map
    (activityPage table address (clampLimit (query.limit.bind natural?)))

/-! ## Which queries are answered -/

/-- Each value denotes a natural number. -/
def Denoting (values : List QueryValue) : Prop := ∀ value ∈ values, (natural? value).isSome

/-- Each value is taken for one. -/
def Taken (values : List QueryValue) : Prop := ∀ value ∈ values, (taken? value).isSome

/-- What the events route compares with a column is of its type: the contract
and the ledgers, or the contract and the cursor, and the last ledger if the
cursor names a row. -/
def eventColumns (db : Db) (contractId : String) (cursor : Option QueryValue)
    (startLedger endLedger : Option Nat) : Bool :=
  isText contractId && match cursor with
    | none => isInt4 (startLedger.getD 0) && endLedger.all isInt4
    | some cursor => isText (decodeCursor cursor) &&
        ((db.findEvent [contractId] (decodeCursor cursor)).isNone || endLedger.all isInt4)

/-- Unless a number is refused, the values fit the columns; and the numbers
denote what they are taken for, unless the cursor names no row. -/
def EventsFit (db : Db) (contractId : String) (query : EventsValues) : Prop :=
  Taken query.numerals →
    eventColumns db contractId query.cursor (query.startLedger.bind natural?)
      (query.endLedger.bind natural?) = true ∧
    (eventsOrigin db contractId query.cursor none ≠ none → Denoting query.numerals)

def activityColumns (address : String) (cursor : Option QueryValue) : Bool :=
  isText address && cursor.all fun cursor => (uuid? (decodeCursor cursor)).isSome

def ActivityFit (table : List CtActivityRow) (address : String) (query : ActivityValues) : Prop :=
  Taken query.limit.toList →
    activityColumns address query.cursor = true ∧
    (activityOrigin table address query.cursor ≠ none → Denoting query.limit.toList)

/-! ## Numbers that are denoted -/

theorem natCast_num {q : ℚ} (hden : q.den = 1) (hnum : 0 ≤ q.num) :
    ((q.num.toNat : ℕ) : ℚ) = q := by
  have hcast : ((q.num.toNat : ℕ) : ℚ) = ((q.num : ℤ) : ℚ) := by
    exact_mod_cast congrArg (Int.cast (R := ℚ)) (Int.toNat_of_nonneg hnum)
  rw [hcast, Rat.coe_int_num_of_den_eq_one hden]

theorem natural?_eq_some {value : QueryValue} {n : Nat} :
    natural? value = some n ↔ Numeral.denotes? value.toText = some (.number n) := by
  unfold natural?
  constructor
  · intro h
    split at h
    · rename_i q hq
      split at h
      · rename_i hcond
        cases h
        rw [hq, natCast_num hcond.1 hcond.2]
      · cases h
    · cases h
    · cases h
  · intro h
    rw [h]
    simp

theorem taken?_eq_some {value : QueryValue} {m : Nat} :
    taken? value = some m ↔ Numeral.number value.toText = .finite m := by
  unfold taken? Number.ofValue
  constructor
  · intro h
    cases hnumber : Numeral.number value.toText with
    | finite q =>
        rw [hnumber] at h
        dsimp only at h
        by_cases hden : q.den = 1
        · rw [if_pos hden] at h
          dsimp only at h
          split at h
          · cases h
          · rename_i hneg
            cases h
            rw [natCast_num hden (not_lt.mp hneg)]
        · rw [if_neg hden] at h
          cases h
    | infinite negative =>
        rw [hnumber] at h
        cases h
    | nan =>
        rw [hnumber] at h
        cases h
  · intro h
    rw [h]
    simp

/-- A denoted number is the one taken, below the doubles' exact range. -/
theorem taken_of_natural {value : QueryValue} {n m : Nat} (hn : natural? value = some n)
    (hm : taken? value = some m) : m = n ∨ 2 ^ 53 ≤ n ∧ 2 ^ 53 ≤ m := by
  rw [taken?_eq_some, Numeral.number_of_denotes (natural?_eq_some.mp hn)] at hm
  rcases Nat.lt_or_ge n (2 ^ 53) with hsmall | hlarge
  · rw [Numeral.double_natCast hsmall] at hm
    injection hm with hm
    exact Or.inl (by exact_mod_cast hm.symm)
  · have hle : (2 : ℚ) ^ 53 ≤ m := Numeral.le_double (by exact_mod_cast hlarge) hm
    exact Or.inr ⟨hlarge, by exact_mod_cast hle⟩

section Parameter

variable {name : String} {value : Option QueryValue}

theorem parseIntParam_ofValue (value : QueryValue) :
    parseIntParam name (some (.ofValue value))
      = match taken? value with
        | some n => .ok (some n)
        | none => .error s!"Invalid {name}" := by
  unfold parseIntParam taken?
  cases Number.ofValue value with
  | other => rfl
  | integer n => by_cases hn : n < 0 <;> simp [hn]

theorem parseIntParam_refused (h : ∃ v ∈ value.toList, taken? v = none) :
    ∃ message, parseIntParam name (value.map .ofValue) = .error message := by
  obtain ⟨v, hmem, hnone⟩ := h
  cases value with
  | none => cases hmem
  | some v' =>
      cases List.mem_singleton.mp hmem
      exact ⟨s!"Invalid {name}", by rw [Option.map_some, parseIntParam_ofValue, hnone]⟩

theorem parseIntParam_taken (h : Taken value.toList) :
    parseIntParam name (value.map .ofValue) = .ok (value.bind taken?) := by
  cases value with
  | none => rfl
  | some text =>
      obtain ⟨n, hn⟩ := Option.isSome_iff_exists.mp (h text (by simp))
      rw [Option.map_some, parseIntParam_ofValue, Option.bind_some, hn]

/-- A parameter that is taken, and for what it denotes. -/
theorem taken_denoting (htaken : Taken value.toList) (hnat : Denoting value.toList) :
    value.bind taken? = value.bind natural? ∨
      ∃ n m, value.bind natural? = some n ∧ value.bind taken? = some m ∧
        2 ^ 53 ≤ n ∧ 2 ^ 53 ≤ m := by
  cases value with
  | none =>
      left
      rw [Option.bind_none, Option.bind_none]
  | some text =>
      obtain ⟨m, hm⟩ := Option.isSome_iff_exists.mp (htaken text (by simp))
      obtain ⟨n, hn⟩ := Option.isSome_iff_exists.mp (hnat text (by simp))
      rw [Option.bind_some, Option.bind_some, hn, hm]
      rcases taken_of_natural hn hm with rfl | hlarge
      · exact Or.inl rfl
      · exact Or.inr ⟨n, m, rfl, rfl, hlarge⟩

/-- Whether it fits a ledger's column can be read from either, and what fits
is read exactly. -/
theorem int4_iff (htaken : Taken value.toList) (hnat : Denoting value.toList) :
    (value.bind taken?).all isInt4 = true ↔ (value.bind natural?).all isInt4 = true := by
  rcases taken_denoting htaken hnat with heq | ⟨n, m, hn, hm, hnlarge, hmlarge⟩
  · rw [heq]
  · have hnot : ∀ k, 2 ^ 53 ≤ k → isInt4 k = false := fun k hk => decide_eq_false (by omega)
    rw [hn, hm, Option.all_some, Option.all_some, hnot n hnlarge, hnot m hmlarge]

theorem taken_eq_natural (htaken : Taken value.toList) (hnat : Denoting value.toList)
    (hfits : (value.bind natural?).all isInt4 = true) :
    value.bind taken? = value.bind natural? := by
  rcases taken_denoting htaken hnat with heq | ⟨n, m, hn, hm, hnlarge, -⟩
  · exact heq
  · rw [hn, Option.all_some] at hfits
    have hsmall : n < 2 ^ 31 := of_decide_eq_true hfits
    omega

/-- A limit is cut to the same number, exact or not. -/
theorem clampLimit_taken (htaken : Taken value.toList) (hnat : Denoting value.toList) :
    clampLimit (value.bind taken?) = clampLimit (value.bind natural?) := by
  rcases taken_denoting htaken hnat with heq | ⟨n, m, hn, hm, hnlarge, hmlarge⟩
  · rw [heq]
  · have hmax : ∀ k, 2 ^ 53 ≤ k → clampLimit (some k) = maxLimit := by
      intro k hk
      rw [clampLimit, if_neg (by omega)]
      exact Nat.min_eq_right (by unfold maxLimit; omega)
    rw [hn, hm, hmax n hnlarge, hmax m hmlarge]

end Parameter

/-- The page from where the cursor points, or the reply to one that names no
row. -/
def pageReply {α β : Type} (page : β → α) : Option β → Except ErrorResponse α
  | none => .error (invalidArgument "Invalid cursor")
  | some origin => .ok (page origin)

/-- A route whose queries are answered if the values fit. If they do not, there
is no answer of either kind. If the cursor names no row, the answer is a
rejection, whatever the numbers are. Otherwise it is a page, which is right
exactly if each number is denoted by its text. -/
theorem answers_iff {α β : Type} {numerals : List QueryValue} {denoted : Option α} {reply : Reply α}
    {fits : Bool} {origin : Option β} {page : β → α}
    (hreply : reply = if fits then some (pageReply page origin) else none)
    (hnone : origin = none → denoted = none)
    (hpage : fits = true → Denoting numerals → ∀ o, origin = some o → denoted = some (page o)) :
    Answers numerals denoted reply ↔ fits = true ∧ (origin ≠ none → Denoting numerals) := by
  cases fits with
  | false =>
      refine ⟨fun h => ?_, fun h => by cases h.1⟩
      rcases h.answered with ⟨message, hm⟩ | ⟨page, -, hok⟩
      · rw [hreply] at hm
        cases hm
      · rw [hreply] at hok
        cases hok
  | true =>
      cases origin with
      | none =>
          have hrejected : Rejected reply := ⟨_, hreply⟩
          exact ⟨fun _ => ⟨rfl, fun h => absurd rfl h⟩,
            fun _ => ⟨Or.inl hrejected, fun _ => hrejected, fun _ => hrejected⟩⟩
      | some o =>
          have hok : reply = some (.ok (page o)) := hreply
          constructor
          · refine fun h => ⟨rfl, fun _ text htext => ?_⟩
            by_contra hbad
            obtain ⟨message, hm⟩ := h.numbers ⟨text, htext, by simpa using hbad⟩
            rw [hok] at hm
            cases hm
          · rintro ⟨-, hdenoting⟩
            have hden := hdenoting (Option.some_ne_none o)
            have hdenoted := hpage rfl hden o rfl
            refine ⟨Or.inr ⟨page o, hdenoted, hok⟩, ?_, fun h => ?_⟩
            · rintro ⟨text, htext, hbad⟩
              have := hden text htext
              rw [hbad] at this
              cases this
            · rw [hdenoted] at h
              cases h

/-- A refused number is a client error. -/
theorem Rejected.answers {α : Type} {numerals : List QueryValue} {denoted : Option α}
    {reply : Reply α} (h : Rejected reply) : Answers numerals denoted reply :=
  ⟨Or.inl h, fun _ => h, fun _ => h⟩

/-! ## The events route -/

section Events

variable {db : Db} {contractId : String} {query : EventsValues}
  {startLedger endLedger limit : Option Nat}

theorem eventsNumbers_taken (h : Taken query.numerals) :
    eventsNumbers query.read
      = .ok (query.startLedger.bind taken?, query.endLedger.bind taken?,
          query.limit.bind taken?) := by
  obtain ⟨h', hlimit⟩ := List.forall_mem_append.mp h
  obtain ⟨hstart, hend⟩ := List.forall_mem_append.mp h'
  simp only [eventsNumbers, EventsValues.read, parseIntParam_taken hstart, parseIntParam_taken hend,
    parseIntParam_taken hlimit]
  rfl

theorem parseIntParam_cases (name : String) (value : Option QueryValue) :
    (∃ message, parseIntParam name (value.map .ofValue) = .error message) ∨ Taken value.toList := by
  by_cases h : Taken value.toList
  · exact Or.inr h
  · simp only [Taken, not_forall, Option.not_isSome_iff_eq_none] at h
    obtain ⟨text, hmem, hnone⟩ := h
    exact Or.inl (parseIntParam_refused ⟨text, hmem, hnone⟩)

theorem eventsNumbers_refused (h : ¬ Taken query.numerals) :
    ∃ message, eventsNumbers query.read = .error message := by
  unfold eventsNumbers EventsValues.read
  dsimp only
  rcases parseIntParam_cases "startLedger" query.startLedger with ⟨message, hm⟩ | hstart
  · rw [hm]
    exact ⟨message, rfl⟩
  rw [parseIntParam_taken hstart]
  rcases parseIntParam_cases "endLedger" query.endLedger with ⟨message, hm⟩ | hend
  · rw [hm]
    exact ⟨message, rfl⟩
  rw [parseIntParam_taken hend]
  rcases parseIntParam_cases "limit" query.limit with ⟨message, hm⟩ | hlimit
  · rw [hm]
    exact ⟨message, rfl⟩
  · exact absurd (List.forall_mem_append.mpr ⟨List.forall_mem_append.mpr ⟨hstart, hend⟩, hlimit⟩) h

theorem eventsReply_refused (h : ¬ Taken query.numerals) :
    Rejected ((eventsReply contractId query).run db).2 := by
  obtain ⟨message, hm⟩ := eventsNumbers_refused h
  unfold eventsReply eventsRoute
  rw [hm]
  exact ⟨message, rfl⟩

/-- The rows from where the cursor points, if all values fit. -/
theorem eventRows_run (cursor : Option QueryValue) (limit : Nat) :
    (eventRows contractId cursor startLedger endLedger limit).run db
      = (db, if eventColumns db contractId cursor startLedger endLedger then
          some ((eventsOrigin db contractId cursor startLedger).map fun origin =>
            Keyset.window EventRow.position (requested [contractId] endLedger origin db) none
              (limit + 1))
        else none) := by
  cases cursor with
  | none =>
      unfold eventRows eventColumns eventsOrigin
      dsimp only
      rw [Async.run_read_bind, List.all_cons, List.all_nil, Bool.and_true, ← Bool.and_assoc,
        Option.map_some, ← listEventsFromLedger_window]
      split
      · rfl
      · rfl
  | some cursor =>
      unfold eventRows eventColumns eventsOrigin
      dsimp only
      rw [Async.run_read_bind, List.all_cons, List.all_nil, Bool.and_true, ← Bool.and_assoc,
        Bool.and_comm (isText contractId)]
      by_cases htexts : (isText (decodeCursor cursor) && isText contractId) = true
      · rw [if_pos htexts, htexts, Bool.true_and]
        cases db.findEvent [contractId] (decodeCursor cursor) with
        | none => rfl
        | some row =>
            dsimp only
            rw [Async.run_read_bind, Option.isNone_some, Bool.false_or, Option.map_some,
              Option.map_some, ← listEventsAfter_origin row (decodeCursor cursor)]
            split
            · rfl
            · rfl
      · rw [if_neg htexts, Bool.eq_false_iff.mpr htexts, Bool.false_and]
        rfl

/-- The page of the rows that were selected for it. -/
theorem eventsPage_eq (origin : From) (limit : Nat) :
    (⟨((db.getLedgerBounds none).map (·.max)).getD 0,
        (paginate (·.id) (Keyset.window EventRow.position
          (requested [contractId] endLedger origin db) none (limit + 1)) limit).2,
        (paginate (·.id) (Keyset.window EventRow.position
          (requested [contractId] endLedger origin db) none (limit + 1)) limit).1.map eventItem⟩ :
      EventsResponse) = eventsPage db contractId endLedger limit origin := by
  rw [paginate_window]
  simp only [Keyset.past_none, List.filter_true]
  rfl

/-- What the route answers once its numbers are taken: a failed query's reply
where a value does not fit, else the page from where the cursor points. -/
theorem eventsRoute_run {q : EventsQuerystring}
    (hnumbers : eventsNumbers q = .ok (startLedger, endLedger, limit)) :
    ((eventsRoute contractId q).run db).2
      = if eventColumns db contractId q.cursor startLedger endLedger then
          some (pageReply (eventsPage db contractId endLedger (clampLimit limit))
            (eventsOrigin db contractId q.cursor startLedger))
        else none := by
  unfold eventsRoute
  rw [hnumbers]
  dsimp only
  rw [Async.run_bind, eventRows_run]
  by_cases hfit : eventColumns db contractId q.cursor startLedger endLedger = true
  · rw [if_pos hfit, if_pos hfit]
    cases eventsOrigin db contractId q.cursor startLedger with
    | none => rfl
    | some origin =>
        rw [pageReply, ← eventsPage_eq]
        rfl
  · rw [if_neg hfit, if_neg hfit]
    rfl

theorem eventsOrigin_none_iff (cursor : Option QueryValue) (startLedger startLedger' : Option Nat) :
    eventsOrigin db contractId cursor startLedger = none
      ↔ eventsOrigin db contractId cursor startLedger' = none := by
  cases cursor with
  | none => simp [eventsOrigin]
  | some cursor => exact Iff.rfl

theorem isInt4_getD (value : Option Nat) : isInt4 (value.getD 0) = value.all isInt4 := by
  cases value with
  | none => rfl
  | some n => rfl

/-- Whether the values fit can be read from the denoted numbers, where rows
are selected. -/
theorem eventColumns_taken (htaken : Taken query.numerals)
    (hden : eventsOrigin db contractId query.cursor none ≠ none → Denoting query.numerals) :
    eventColumns db contractId query.cursor (query.startLedger.bind taken?)
        (query.endLedger.bind taken?)
      = eventColumns db contractId query.cursor (query.startLedger.bind natural?)
          (query.endLedger.bind natural?) := by
  obtain ⟨htaken', -⟩ := List.forall_mem_append.mp htaken
  obtain ⟨htstart, htend⟩ := List.forall_mem_append.mp htaken'
  have hcolumns : Denoting query.numerals →
      isInt4 ((query.startLedger.bind taken?).getD 0)
          = isInt4 ((query.startLedger.bind natural?).getD 0) ∧
        (query.endLedger.bind taken?).all isInt4 = (query.endLedger.bind natural?).all isInt4 := by
    intro h
    obtain ⟨h', -⟩ := List.forall_mem_append.mp h
    obtain ⟨hdstart, hdend⟩ := List.forall_mem_append.mp h'
    rw [isInt4_getD, isInt4_getD]
    exact ⟨Bool.eq_iff_iff.mpr (int4_iff htstart hdstart),
      Bool.eq_iff_iff.mpr (int4_iff htend hdend)⟩
  unfold eventColumns eventsOrigin at *
  cases hcursor : query.cursor with
  | none =>
      rw [hcursor] at hden
      obtain ⟨hstart, hend⟩ := hcolumns (hden (Option.some_ne_none _))
      dsimp only
      rw [hstart, hend]
  | some cursor =>
      rw [hcursor] at hden
      dsimp only at hden ⊢
      cases hfind : db.findEvent [contractId] (decodeCursor cursor) with
      | none => simp only [Option.isNone_none, Bool.true_or]
      | some row =>
          rw [hfind] at hden
          rw [(hcolumns (hden (Option.some_ne_none _))).2]

/-- The page for the numbers that are taken is the denoted one. -/
theorem denotedEvents_taken (htaken : Taken query.numerals) (hden : Denoting query.numerals)
    (hfits : eventColumns db contractId query.cursor (query.startLedger.bind natural?)
      (query.endLedger.bind natural?) = true) {origin : From}
    (horigin : eventsOrigin db contractId query.cursor (query.startLedger.bind taken?)
      = some origin) :
    denotedEvents db contractId query = some (eventsPage db contractId
      (query.endLedger.bind taken?) (clampLimit (query.limit.bind taken?)) origin) := by
  obtain ⟨htaken', htlimit⟩ := List.forall_mem_append.mp htaken
  obtain ⟨htstart, htend⟩ := List.forall_mem_append.mp htaken'
  obtain ⟨hden', hdlimit⟩ := List.forall_mem_append.mp hden
  obtain ⟨hdstart, hdend⟩ := List.forall_mem_append.mp hden'
  rw [denotedEvents, clampLimit_taken htlimit hdlimit]
  cases hcursor : query.cursor with
  | none =>
      rw [hcursor, eventColumns, isInt4_getD] at hfits
      simp only [Bool.and_eq_true] at hfits
      rw [hcursor, taken_eq_natural htstart hdstart hfits.2.1] at horigin
      rw [horigin, Option.map_some, taken_eq_natural htend hdend hfits.2.2]
  | some cursor =>
      rw [hcursor] at hfits horigin
      have hend : (query.endLedger.bind natural?).all isInt4 = true := by
        cases hfind : db.findEvent [contractId] (decodeCursor cursor) with
        | none =>
            rw [eventsOrigin, hfind] at horigin
            cases horigin
        | some row =>
            rw [eventColumns, hfind] at hfits
            simp only [Bool.and_eq_true, Option.isNone_some, Bool.false_or] at hfits
            exact hfits.2.2
      rw [taken_eq_natural htend hdend hend]
      rw [eventsOrigin] at horigin ⊢
      rw [horigin, Option.map_some]

theorem events_answers_iff :
    Answers query.numerals (denotedEvents db contractId query)
      ((eventsReply contractId query).run db).2 ↔ EventsFit db contractId query := by
  by_cases htaken : Taken query.numerals
  · have hnumbers := eventsNumbers_taken htaken
    have hreply : ((eventsReply contractId query).run db).2 = _ := eventsRoute_run hnumbers
    rw [EventsValues.read_cursor] at hreply
    have horigin : ∀ startLedger startLedger',
        eventsOrigin db contractId query.cursor startLedger = none
          ↔ eventsOrigin db contractId query.cursor startLedger' = none :=
      eventsOrigin_none_iff query.cursor
    have hiff : Answers query.numerals (denotedEvents db contractId query)
        ((eventsReply contractId query).run db).2 ↔ _ := answers_iff hreply ?_ ?_
    · rw [hiff, EventsFit, forall_prop_of_true htaken]
      constructor
      · rintro ⟨hfits, hden⟩
        have hden' := fun h => hden (mt (horigin _ none).mp h)
        exact ⟨eventColumns_taken htaken hden' ▸ hfits, hden'⟩
      · rintro ⟨hfits, hden⟩
        exact ⟨(eventColumns_taken htaken hden).symm ▸ hfits,
          fun h => hden (mt (horigin none _).mp h)⟩
    · intro hnone
      rw [denotedEvents, (horigin _ _).mp hnone, Option.map_none]
    · intro hfits hden origin horg
      rw [eventColumns_taken htaken fun _ => hden] at hfits
      exact denotedEvents_taken htaken hden hfits horg
  · exact ⟨fun _ h => absurd h htaken, fun _ => (eventsReply_refused htaken).answers⟩

end Events

/-! ## The activity route -/

section Activity

variable {table : List CtActivityRow} {address : String} {query : ActivityValues}
  {limit : Option Nat}

/-- The rows from where the cursor points, if all values fit. -/
theorem activityRows_run (cursor : Option QueryValue) (limit : Nat) :
    (activityRows address cursor limit).run table
      = (table, if activityColumns address cursor then
          some ((activityOrigin table address cursor).map fun older =>
            Keyset.window CtActivityRow.position (requestedActivity address older table) none
              (limit + 1))
        else none) := by
  cases cursor with
  | none =>
      unfold activityRows activityColumns activityOrigin
      dsimp only
      rw [Async.run_read_bind, Option.all_none, Bool.and_true, Option.map_some,
        ← listActivityForAccount_window]
      split
      · rfl
      · rfl
  | some cursor =>
      unfold activityRows activityColumns activityOrigin
      dsimp only
      rw [Option.all_some]
      cases isText address with
      | false => rfl
      | true =>
          rw [if_pos rfl, Bool.true_and]
          cases uuid? (decodeCursor cursor) with
          | none => rfl
          | some beforeId =>
              unfold listActivityForAccountBeforeId
              dsimp only
              rw [Async.run_bind, Async.run_read_bind, Option.bind_some]
              cases table.find? fun r =>
                  decide (r.id = beforeId) && decide (r.account = address) with
              | none => rfl
              | some row =>
                  rw [Option.map_some, Option.map_some, ← listActivityBefore_older row]
                  rfl

theorem activityPage_eq (older : Option CtActivityRow) (limit : Nat) :
    (⟨(paginate (·.id.val) (Keyset.window CtActivityRow.position
          (requestedActivity address older table) none (limit + 1)) limit).2,
        (paginate (·.id.val) (Keyset.window CtActivityRow.position
          (requestedActivity address older table) none (limit + 1)) limit).1.map activityItem⟩ :
      ActivityResponse) = activityPage table address limit older := by
  rw [paginate_window]
  simp only [Keyset.past_none, List.filter_true]
  rfl

/-- What the route answers once its limit is taken. -/
theorem activityRoute_run {q : ActivityQuerystring}
    (hlimit : parseIntParam "limit" q.limit = .ok limit) :
    ((activityRoute address q).run table).2
      = if activityColumns address q.cursor then
          some (pageReply (activityPage table address (clampLimit limit))
            (activityOrigin table address q.cursor))
        else none := by
  unfold activityRoute
  rw [hlimit]
  dsimp only
  rw [Async.run_bind, activityRows_run]
  by_cases hfit : activityColumns address q.cursor = true
  · rw [if_pos hfit, if_pos hfit]
    cases activityOrigin table address q.cursor with
    | none => rfl
    | some older =>
        rw [pageReply, ← activityPage_eq]
        rfl
  · rw [if_neg hfit, if_neg hfit]
    rfl

theorem activity_answers_iff :
    Answers query.limit.toList (denotedActivity table address query)
      ((activityReply address query).run table).2 ↔ ActivityFit table address query := by
  by_cases htaken : Taken query.limit.toList
  · have hlimit : parseIntParam "limit" query.read.limit = _ := parseIntParam_taken htaken
    have hreply : ((activityReply address query).run table).2 = _ := activityRoute_run hlimit
    rw [ActivityValues.read_cursor] at hreply
    have hiff : Answers query.limit.toList (denotedActivity table address query)
        ((activityReply address query).run table).2 ↔ _ := answers_iff hreply ?_ ?_
    · rw [hiff, ActivityFit, forall_prop_of_true htaken]
    · intro hnone
      rw [denotedActivity, hnone, Option.map_none]
    · intro _ hden older hold
      rw [denotedActivity, hold, Option.map_some, clampLimit_taken htaken hden]
  · refine ⟨fun _ h => absurd h htaken, fun _ => Rejected.answers ?_⟩
    rcases parseIntParam_cases "limit" query.limit with ⟨message, hm⟩ | h
    · unfold activityReply activityRoute ActivityValues.read
      rw [hm]
      exact ⟨message, rfl⟩
    · exact absurd h htaken

end Activity

/-! ## The result -/

/-- A client is answered with the page that its parameters denote, or with a
client error, exactly where the values fit the columns they are compared with
and the numbers taken are denoted ones. Each half is `answers_iff` at what the
route replies; whether a value fits is the same for the number that is denoted
and for the one that is taken (`eventColumns_taken`). -/
theorem queries_answered (db : Db) (contractId : String) (events : EventsValues)
    (table : List CtActivityRow) (address : String) (activity : ActivityValues) :
    (Answers events.numerals (denotedEvents db contractId events)
      ((eventsReply contractId events).run db).2 ↔ EventsFit db contractId events) ∧
    (Answers activity.limit.toList (denotedActivity table address activity)
      ((activityReply address activity).run table).2 ↔ ActivityFit table address activity) :=
  ⟨events_answers_iff, activity_answers_iff⟩

/-- The cursor `bogus` in base64. -/
def bogusCursor : ActivityValues := ⟨some (.text "Ym9ndXM="), none⟩

/-- The first ledger past the column's integers. -/
def farLedger : EventsValues := ⟨some (.text "2147483648"), none, none, none⟩

theorem not_answers_of_failed {α : Type} {numerals : List QueryValue} {denoted : Option α} :
    ¬ Answers numerals denoted none := by
  rintro ⟨⟨message, hm⟩ | ⟨page, -, hok⟩, -, -⟩
  · cases hm
  · cases hok

/-- The cursor `bogus` of the activity feed, and a ledger past the column's
integers, end in a server error. -/
theorem bogus_cursor_fails :
    ((activityReply "GACCOUNT" bogusCursor).run []).2 = none ∧
    ¬ Answers bogusCursor.limit.toList (denotedActivity [] "GACCOUNT" bogusCursor)
      ((activityReply "GACCOUNT" bogusCursor).run []).2 ∧
    ((eventsReply "CTOKEN" farLedger).run Db.empty).2 = none ∧
    ¬ Answers farLedger.numerals (denotedEvents Db.empty "CTOKEN" farLedger)
      ((eventsReply "CTOKEN" farLedger).run Db.empty).2 := by
  have hactivity : ((activityReply "GACCOUNT" bogusCursor).run []).2 = none := by
    decide +kernel
  have hevents : ((eventsReply "CTOKEN" farLedger).run Db.empty).2 = none := by
    decide +kernel
  refine ⟨hactivity, ?_, hevents, ?_⟩
  · rw [hactivity]
    exact not_answers_of_failed
  · rw [hevents]
    exact not_answers_of_failed

-- Base64 of NULs, in letters past Latin-1; and a repeated cursor, whose texts are no numbers.
example : ((eventsReply "CTOKEN" ⟨none, none, some (.text "ŁŁŁŁ"), none⟩).run Db.empty).2 = none ∧
    ((eventsReply "CTOKEN" ⟨none, none, some (.repeated "a" "b" []), none⟩).run Db.empty).2
      = none := by
  decide +kernel

end Api

end PrivacyWallet
