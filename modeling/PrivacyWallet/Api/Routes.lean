import PrivacyWallet.Lib.Base64
import PrivacyWallet.Lib.Keyset
import PrivacyWallet.Lib.Numeral
import PrivacyWallet.Bootnode.Handler
import Mathlib.Data.String.Basic

/-!
# The REST routes

`/contracts/:contractId/events` and `/accounts/:address/activity`: their
parameters, the queries behind them, and the pages with their cursors. A
numeric parameter arrives as the value of `Number(value)`, a cursor as the
query string has it: a text, or an array of texts where the parameter is
repeated. The activity rows have their keys here, which the feed is ordered by.

A query compares its values with columns, and PostgreSQL reads each value as
the column's type first: a ledger is an `integer` of 32 bits, an id and a
contract a `text`, which has no character U+0000, and the key of an activity
row a `uuid`. On any other value the query fails, and with it the request
(`Reply`). So the routes here are partial, and what holds of their pages is
said for the values that fit.

The lemmas at the end are about the pieces: a cursor that was written is read
back (`decode_encodeCursor`), and a uuid's own text names it (`uuid?_val`),
group by group of its digits.
-/

namespace PrivacyWallet

namespace Api

open Indexer Bootnode

/-! ## Parameters -/

/-- `Number(text)`: an integer, or something else. -/
inductive Number where
  | integer (n : Int)
  | other
deriving DecidableEq

structure ErrorResponse where
  code : String
  message : String
deriving DecidableEq

def invalidArgument (message : String) : ErrorResponse := ⟨"INVALID_ARGUMENT", message⟩

def parseIntParam (name : String) (value : Option Number) : Except String (Option Nat) :=
  match value with
  | none => .ok none
  | some .other => .error s!"Invalid {name}"
  | some (.integer n) => if n < 0 then .error s!"Invalid {name}" else .ok (some n.toNat)

def defaultLimit : Nat := 200

def maxLimit : Nat := 1000

def clampLimit (limit : Option Nat) : Nat :=
  match limit with
  | none => defaultLimit
  | some limit => if limit < 1 then defaultLimit else min limit maxLimit

/-- The value of a parameter in a query string: an array, if the parameter is
repeated. -/
inductive QueryValue where
  | text (value : String)
  | repeated (first second : String) (rest : List String)
deriving DecidableEq

/-! ## Columns -/

/-- The answer to a request; `none` is the server error that a failed query
ends in. -/
abbrev Reply (α : Type) : Type := Option (Except ErrorResponse α)

/-- The integers of a ledger's column. -/
def isInt4 (n : Nat) : Bool := decide (n < 2 ^ 31)

/-- The texts of a column. -/
def isText (text : String) : Bool := !text.toList.contains '\x00'

/-! ## Pages -/

/-- The text of the last row's id, in base64. -/
def encodeCursor (lastId : String) : String := Base64.encodeText lastId

/-- `ToUint8(Number(text))`, as a typed array stores it. -/
def toUint8 (text : String) : UInt8 :=
  match Numeral.number text with
  | .finite q => UInt8.ofNat ((q.num.tdiv q.den) % 256).toNat
  | .infinite _ => 0
  | .nan => 0

/-- `Buffer.from(cursor, "base64").toString("utf8")`. Of an array, which no
type of the route foresees, each element is read as a byte. -/
def decodeCursor : QueryValue → String
  | .text cursor => Base64.decodeText cursor
  | .repeated first second rest => Utf8.decode ((first :: second :: rest).map toUint8)

/-- The page of `limit` rows, and the cursor if there was a row to spare. -/
def paginate {α : Type} (id : α → String) (rows : List α) (limit : Nat) :
    List α × Option String :=
  let page := if limit < rows.length then rows.take limit else rows
  (page, if limit < rows.length then page.getLast?.map fun last => encodeCursor (id last) else none)

/-! ## `/contracts/:contractId/events` -/

structure EventsQuerystring where
  startLedger : Option Number
  endLedger : Option Number
  cursor : Option QueryValue
  limit : Option Number

structure EventItem where
  id : String
  ledger : Nat
  txHash : String
  topic : List String
  value : String
deriving DecidableEq

structure EventsResponse where
  latestLedger : Nat
  cursor : Option String
  events : List EventItem
deriving DecidableEq

def eventItem (r : EventRow) : EventItem := ⟨r.id, r.ledger, r.txHash, r.topic, r.valueXdr⟩

/-- The numbers of a query: `startLedger`, `endLedger`, `limit`. -/
def eventsNumbers (query : EventsQuerystring) :
    Except String (Option Nat × Option Nat × Option Nat) := do
  let startLedger ← parseIntParam "startLedger" query.startLedger
  let endLedger ← parseIntParam "endLedger" query.endLedger
  let limit ← parseIntParam "limit" query.limit
  pure (startLedger, endLedger, limit)

/-- The rows for a page: one more than its limit, or the reply to a cursor
that names no row of the contract; the outer `none` is a failed query. The
lookup of the cursor and the selection behind it are two queries. -/
def eventRows (contractId : String) (cursor : Option QueryValue)
    (startLedger endLedger : Option Nat) (limit : Nat) :
    Async Db (Option (Option (List EventRow))) :=
  match cursor with
  | some cursor => do
      let query : EventsAfterIdQuery := ⟨[contractId], decodeCursor cursor, endLedger, limit + 1⟩
      let db ← Async.read
      if isText query.afterId && query.contractIds.all isText then
        match db.findEvent query.contractIds query.afterId with
        | none => pure (some none)
        | some row => do
            let db ← Async.read
            if query.toLedger.all isInt4 then pure (some (some (db.listEventsAfter row query)))
            else pure none
      else pure none
  | none => do
      let query : EventsWindowQuery := ⟨[contractId], startLedger.getD 0, endLedger, limit + 1⟩
      let db ← Async.read
      if query.contractIds.all isText && isInt4 query.fromLedger && query.toLedger.all isInt4 then
        pure (some (some (db.listEventsFromLedger query)))
      else pure none

def eventsRoute (contractId : String) (query : EventsQuerystring) :
    Async Db (Reply EventsResponse) :=
  match eventsNumbers query with
  | .error message => pure (some (.error (invalidArgument message)))
  | .ok (startLedger, endLedger, limitParsed) => do
      let limit := clampLimit limitParsed
      match ← eventRows contractId query.cursor startLedger endLedger limit with
      | none => pure none
      | some none => pure (some (.error (invalidArgument "Invalid cursor")))
      | some (some rows) => do
          let (page, cursor) := paginate (·.id) rows limit
          let db ← Async.read
          let bounds := db.getLedgerBounds none
          pure (some (.ok ⟨(bounds.map (·.max)).getD 0, cursor, page.map eventItem⟩))

/-! ## `/accounts/:address/activity` -/

/-- The text of a uuid: groups of lower-case hexadecimal digits. -/
def isUuid (text : String) : Bool :=
  decide (text.toList.length = 36) && (text.toList.zipIdx.all fun (c, i) =>
    if i = 8 ∨ i = 13 ∨ i = 18 ∨ i = 23 then decide (c = '-')
    else c.isDigit || (decide ('a' ≤ c) && decide (c ≤ 'f')))

/-- A uuid. The order of the texts is the order of the uuids. -/
abbrev Uuid : Type := { text : String // isUuid text = true }

/-- `isxdigit` -/
def isHexDigit (c : Char) : Bool :=
  c.isDigit || (decide ('a' ≤ c.toLower) && decide (c.toLower ≤ 'f'))

/-- A hyphen may stand between four digits and the next, where `n` bytes are
to come. -/
def skipHyphen (n : Nat) (l : List Char) : List Char :=
  if n % 2 = 0 ∧ n ≠ 0 ∧ l.head? = some '-' then l.drop 1 else l

/-- The digits of the next `n` bytes, and what follows. -/
def uuidDigits : Nat → List Char → Option (List Char × List Char)
  | 0, rest => some ([], rest)
  | n + 1, a :: b :: rest =>
      if isHexDigit a && isHexDigit b then
        (uuidDigits n (skipHyphen n rest)).map fun (digits, rest) =>
          (a.toLower :: b.toLower :: digits, rest)
      else none
  | _ + 1, _ => none

/-- The digits in groups. -/
def hyphenated (digits : List Char) : String :=
  String.ofList (digits.take 8 ++ '-' :: ((digits.drop 8).take 4 ++
    '-' :: ((digits.drop 12).take 4 ++ '-' :: ((digits.drop 16).take 4 ++ '-' :: digits.drop 20))))

/-- The uuid that a text names, as the database reads it: in capitals too, in
braces, and with other hyphens. `none` is its error on any other text. -/
def uuid? (text : String) : Option Uuid :=
  let braces := text.toList.head? = some '{'
  match uuidDigits 16 (if braces then text.toList.drop 1 else text.toList) with
  | none => none
  | some (digits, rest) =>
      if rest = if braces then ['}'] else [] then
        if h : isUuid (hyphenated digits) = true then some ⟨hyphenated digits, h⟩ else none
      else none

/-- A row of `ct_activity`, with its key. -/
structure CtActivityRow extends NewCtActivityRow where
  id : Uuid
deriving DecidableEq

/-- Newest first: a later ledger comes before, and in one ledger the greater
id. -/
def CtActivityRow.position (r : CtActivityRow) : (Nat ×ₗ Uuid)ᵒᵈ :=
  OrderDual.toDual (toLex (r.ledger, r.id))

def listActivityForAccount (table : List CtActivityRow) (account : String) (limit : Nat) :
    List CtActivityRow :=
  (Keyset.ordered CtActivityRow.position
    (table.filter fun r => decide (r.account = account))).take limit

/-- The rows older than a row: what lies strictly before its `(ledger, id)`. -/
def listActivityBefore (table : List CtActivityRow) (account : String) (cursor : CtActivityRow)
    (limit : Nat) : List CtActivityRow :=
  (Keyset.ordered CtActivityRow.position (table.filter fun r =>
    decide (r.account = account) && decide (cursor.position < r.position))).take limit

/-- `listActivityForAccountBeforeId`, on a well-formed id. `none` if no row of
the account has it. -/
def listActivityForAccountBeforeId (account : String) (beforeId : Uuid) (limit : Nat) :
    Async (List CtActivityRow) (Option (List CtActivityRow)) := do
  let table ← Async.read
  match table.find? fun r => decide (r.id = beforeId) && decide (r.account = account) with
  | none => pure none
  | some cursor => do
      let table ← Async.read
      pure (some (listActivityBefore table account cursor limit))

structure ActivityQuerystring where
  cursor : Option QueryValue
  limit : Option Number

structure ActivityItem where
  id : String
  account : String
  type : String
  counterparty : String
  amount : Option String
  ledger : Nat
  txHash : String
  eventId : String
  ciphertexts : List (String × String)
deriving DecidableEq

structure ActivityResponse where
  cursor : Option String
  activity : List ActivityItem
deriving DecidableEq

def activityItem (r : CtActivityRow) : ActivityItem where
  id := r.id.val
  account := r.account
  type := r.type
  counterparty := r.counterparty
  amount := r.amount
  ledger := r.ledger
  txHash := r.txHash
  eventId := r.eventId
  ciphertexts := r.ciphertexts

/-- The rows for a page, or the reply to a cursor that names none; the outer
`none` is a failed query: the account is no text, or the cursor no uuid. -/
def activityRows (address : String) (cursor : Option QueryValue) (limit : Nat) :
    Async (List CtActivityRow) (Option (Option (List CtActivityRow))) :=
  match cursor with
  | some cursor =>
      match if isText address then uuid? (decodeCursor cursor) else none with
      | none => do
          let _ ← Async.read
          pure none
      | some beforeId => do
          let rows ← listActivityForAccountBeforeId address beforeId (limit + 1)
          pure (some rows)
  | none => do
      let table ← Async.read
      if isText address then pure (some (some (listActivityForAccount table address (limit + 1))))
      else pure none

def activityRoute (address : String) (query : ActivityQuerystring) :
    Async (List CtActivityRow) (Reply ActivityResponse) :=
  match parseIntParam "limit" query.limit with
  | .error message => pure (some (.error (invalidArgument message)))
  | .ok limitParsed => do
      let limit := clampLimit limitParsed
      match ← activityRows address query.cursor limit with
      | none => pure none
      | some none => pure (some (.error (invalidArgument "Invalid cursor")))
      | some (some rows) => do
          let (page, cursor) := paginate (·.id.val) rows limit
          pure (some (.ok ⟨cursor, page.map activityItem⟩))

/-! ## The pieces -/

theorem one_le_clampLimit (limit : Option Nat) : 1 ≤ clampLimit limit := by
  unfold clampLimit
  split
  · exact Nat.le_of_ble_eq_true rfl
  · split
    · exact Nat.le_of_ble_eq_true rfl
    · unfold maxLimit
      omega

theorem decode_encodeCursor (id : String) : decodeCursor (.text (encodeCursor id)) = id :=
  Base64.decodeText_encodeText id

/-- A digit as it stands in a uuid's text. -/
def isLowerHex (c : Char) : Bool := c.isDigit || (decide ('a' ≤ c) && decide (c ≤ 'f'))

theorem isLowerHex_spec {c : Char} (h : isLowerHex c = true) :
    isHexDigit c = true ∧ c.toLower = c ∧ c ≠ '-' ∧ c ≠ '{' := by
  have hrange : 48 ≤ c.toNat ∧ c.toNat ≤ 57 ∨ 97 ≤ c.toNat ∧ c.toNat ≤ 102 := by
    rw [isLowerHex, Bool.or_eq_true, Bool.and_eq_true, decide_eq_true_eq, decide_eq_true_eq] at h
    exact h.imp Char.isDigit_iff_toNat.mp id
  have hlower : c.toLower = c := dif_neg fun hupper => by
    have hcapital : 65 ≤ c.toNat ∧ c.toNat ≤ 90 := hupper
    omega
  refine ⟨?_, hlower, ?_, ?_⟩
  · rw [isHexDigit, hlower]
    exact h
  · rintro rfl
    revert hrange
    decide
  · rintro rfl
    revert hrange
    decide

theorem skipHyphen_cons {n : Nat} {c : Char} {l : List Char} (h : c ≠ '-') :
    skipHyphen n (c :: l) = c :: l := by
  simp [skipHyphen, h]

/-- Digits are read as they stand, up to where a hyphen may be. -/
theorem uuidDigits_group {n m : Nat} {group rest : List Char} (hn : 0 < n)
    (hlen : group.length = 2 * n) (hhex : ∀ c ∈ group, isLowerHex c = true) :
    uuidDigits (n + m) (group ++ rest)
      = (uuidDigits m (skipHyphen m rest)).map fun (digits, rest) => (group ++ digits, rest) := by
  induction n generalizing group with
  | zero => omega
  | succ n ih =>
      match group, hlen with
      | a :: b :: tail, hlen =>
          obtain ⟨ha, halower, -⟩ := isLowerHex_spec (hhex a (by simp))
          obtain ⟨hb, hblower, -⟩ := isLowerHex_spec (hhex b (by simp))
          have htail : tail.length = 2 * n := by
            rw [List.length_cons, List.length_cons] at hlen
            omega
          have hstep : uuidDigits (n + 1 + m) (a :: b :: tail ++ rest)
              = (uuidDigits (n + m) (skipHyphen (n + m) (tail ++ rest))).map
                  fun (digits, rest) => (a :: b :: digits, rest) := by
            rw [Nat.add_right_comm]
            simp only [List.cons_append, uuidDigits, ha, hb, halower, hblower, Bool.and_self,
              if_true]
          rw [hstep]
          rcases Nat.eq_zero_or_pos n with rfl | hpos
          · have hnil : tail = [] := List.eq_nil_of_length_eq_zero (by omega)
            subst hnil
            simp
          · obtain ⟨c, tail', htail'⟩ : ∃ c tail', tail = c :: tail' :=
              List.exists_cons_of_length_pos (by omega)
            have hc : c ≠ '-' :=
              (isLowerHex_spec (hhex c (by simp [htail']))).2.2.1
            have hskip : skipHyphen (n + m) (tail ++ rest) = tail ++ rest := by
              rw [htail']
              exact skipHyphen_cons hc
            rw [hskip, ih hpos htail fun c hc => hhex c (by simp [hc]), Option.map_map]
            rfl

theorem skipHyphen_hyphen {n : Nat} (hn : n % 2 = 0 ∧ n ≠ 0) (l : List Char) :
    skipHyphen n ('-' :: l) = l := by
  simp [skipHyphen, hn]

/-- What `isUuid` asks of the character at a place. -/
def uuidChar : Char × Nat → Bool := fun (c, i) =>
  if i = 8 ∨ i = 13 ∨ i = 18 ∨ i = 23 then decide (c = '-') else isLowerHex c

/-- The group of digits at a place, with the hyphen behind it. -/
theorem uuid_group {n k : Nat} {l : List Char} (hlen : n < l.length)
    (hall : (l.zipIdx k).all uuidChar = true)
    (hgroup : ∀ i, k ≤ i → i < k + n → ¬ (i = 8 ∨ i = 13 ∨ i = 18 ∨ i = 23))
    (hhyphen : k + n = 8 ∨ k + n = 13 ∨ k + n = 18 ∨ k + n = 23) :
    ∃ group rest, l = group ++ '-' :: rest ∧ group.length = n ∧
      (∀ c ∈ group, isLowerHex c = true) ∧ (rest.zipIdx (k + n + 1)).all uuidChar = true := by
  induction n generalizing l k with
  | zero =>
      obtain ⟨c, rest, rfl⟩ := List.exists_cons_of_length_pos hlen
      rw [List.zipIdx_cons, List.all_cons, Bool.and_eq_true] at hall
      have hc : c = '-' := by
        have := hall.1
        rwa [uuidChar, if_pos (by omega), decide_eq_true_eq] at this
      subst hc
      exact ⟨[], rest, rfl, rfl, by simp, hall.2⟩
  | succ n ih =>
      obtain ⟨c, rest, rfl⟩ := List.exists_cons_of_length_pos (Nat.zero_lt_of_lt hlen)
      rw [List.zipIdx_cons, List.all_cons, Bool.and_eq_true] at hall
      have hc : isLowerHex c = true := by
        have := hall.1
        rwa [uuidChar, if_neg (hgroup k le_rfl (by omega))] at this
      obtain ⟨group, rest', rfl, hglen, hhex, hrest⟩ := ih (k := k + 1)
        (Nat.lt_of_succ_lt_succ hlen) hall.2
        (fun i hi hlt => hgroup i (by omega) (by omega)) (by omega)
      refine ⟨c :: group, rest', rfl, by simp [hglen], ?_, ?_⟩
      · simp only [List.mem_cons, forall_eq_or_imp]
        exact ⟨hc, hhex⟩
      · rw [← hrest]
        congr 2
        omega

/-- A uuid's text is read as it stands. -/
theorem uuidDigits_of_isUuid {text : String} (h : isUuid text = true) :
    ∃ digits, uuidDigits 16 text.toList = some (digits, []) ∧ hyphenated digits = text ∧
      text.toList.head? ≠ some '{' := by
  rw [isUuid, Bool.and_eq_true, decide_eq_true_eq] at h
  obtain ⟨hlen, hall⟩ := h
  obtain ⟨a, rest, ha, halen, hahex, hall⟩ := uuid_group (n := 8) (k := 0) (by omega) hall
    (by omega) (by omega)
  rw [ha] at hlen
  obtain ⟨b, rest, rfl, hblen, hbhex, hall⟩ := uuid_group (n := 4) (by simp at hlen; omega) hall
    (by omega) (by omega)
  obtain ⟨c, rest, rfl, hclen, hchex, hall⟩ := uuid_group (n := 4) (by simp at hlen; omega) hall
    (by omega) (by omega)
  obtain ⟨d, rest, rfl, hdlen, hdhex, hall⟩ := uuid_group (n := 4) (by simp at hlen; omega) hall
    (by omega) (by omega)
  have helen : rest.length = 12 := by
    simp [halen, hblen, hclen, hdlen] at hlen
    omega
  have hehex : ∀ c ∈ rest, isLowerHex c = true := by
    intro c hc
    obtain ⟨i, hi⟩ := List.getElem?_of_mem hc
    have hplace := List.all_eq_true.mp hall (c, 24 + i) (by
      simp [List.mk_mem_zipIdx_iff_le_and_getElem?_sub, hi])
    rwa [uuidChar, if_neg (by omega)] at hplace
  have hread : uuidDigits 16 text.toList = some (a ++ (b ++ (c ++ (d ++ rest))), []) := by
    have htail : uuidDigits 6 rest = some (rest, []) := by
      have hlast : uuidDigits (6 + 0) (rest ++ []) = _ := uuidDigits_group (by omega) helen hehex
      simpa [skipHyphen, uuidDigits] using hlast
    rw [ha, show 16 = 4 + 12 from rfl, uuidDigits_group (by omega) halen hahex,
      skipHyphen_hyphen (by decide), show 12 = 2 + 10 from rfl,
      uuidDigits_group (by omega) hblen hbhex, skipHyphen_hyphen (by decide),
      show 10 = 2 + 8 from rfl, uuidDigits_group (by omega) hclen hchex,
      skipHyphen_hyphen (by decide), show 8 = 2 + 6 from rfl,
      uuidDigits_group (by omega) hdlen hdhex, skipHyphen_hyphen (by decide), htail]
    rfl
  refine ⟨_, hread, ?_, ?_⟩
  · have h8 : (a ++ (b ++ (c ++ (d ++ rest)))).drop 8 = b ++ (c ++ (d ++ rest)) :=
      List.drop_left' halen
    have h12 : (a ++ (b ++ (c ++ (d ++ rest)))).drop 12 = c ++ (d ++ rest) := by
      rw [show 12 = 8 + 4 from rfl, ← List.drop_drop, h8, List.drop_left' hblen]
    have h16 : (a ++ (b ++ (c ++ (d ++ rest)))).drop 16 = d ++ rest := by
      rw [show 16 = 12 + 4 from rfl, ← List.drop_drop, h12, List.drop_left' hclen]
    have h20 : (a ++ (b ++ (c ++ (d ++ rest)))).drop 20 = rest := by
      rw [show 20 = 16 + 4 from rfl, ← List.drop_drop, h16, List.drop_left' hdlen]
    rw [hyphenated, List.take_left' halen, h8, List.take_left' hblen, h12, List.take_left' hclen,
      h16, List.take_left' hdlen, h20, ← ha, String.ofList_toList]
  · obtain ⟨x, a', rfl⟩ := List.exists_cons_of_length_pos (l := a) (by omega)
    have hx := (isLowerHex_spec (hahex x (by simp))).2.2.2
    simp [ha, hx]

@[simp] theorem uuid?_val (id : Uuid) : uuid? id.val = some id := by
  obtain ⟨digits, hread, htext, hbrace⟩ := uuidDigits_of_isUuid id.property
  unfold uuid?
  simp only [if_neg hbrace, hread, htext, if_pos, dif_pos id.property]

@[simp] theorem parseIntParam_integer (name : String) (n : Nat) :
    parseIntParam name (some (.integer n)) = .ok (some n) := by
  simp [parseIntParam]

/-- One row more than the limit shows whether there is a next page. -/
theorem paginate_take {α : Type} (id : α → String) (rows : List α) (limit : Nat) :
    paginate id (rows.take (limit + 1)) limit
      = (rows.take limit, if limit < rows.length
          then (rows.take limit).getLast?.map fun last => encodeCursor (id last) else none) := by
  unfold paginate
  rw [List.length_take]
  dsimp only
  by_cases h : limit < rows.length
  · have hmore : limit < min (limit + 1) rows.length := by omega
    rw [if_pos hmore, if_pos hmore, if_pos h, List.take_take, Nat.min_eq_left (Nat.le_succ limit)]
  · have hall : ¬ limit < min (limit + 1) rows.length := by omega
    rw [if_neg hall, if_neg hall, if_neg h, List.take_of_length_le (by omega),
      List.take_of_length_le (by omega)]

end Api

end PrivacyWallet
