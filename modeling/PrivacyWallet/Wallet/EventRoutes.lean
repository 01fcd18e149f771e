import PrivacyWallet.Wallet.CtIndexer

/-!
# Two routes to one event

A record of the RPC reaches the wallet directly, through `parseEvent`, or as a
row that `mapEvent` makes of it, through the API and `parseApiEvent`. The two
decoders read the same topics and the same data and give the event the same
natural id; they differ in one step only: `parseApiEvent` skips a record whose
first topic is not a symbol, `parseEvent` throws on it
(`viaRpc_eq_viaApi_iff`).

What both do from there on is one function of the first topic, the other
topics and the data (`decodeNamed`), and each route is brought to it
(`viaRpc_eq`, `viaApi_eq`): XDR decodes to what was encoded, and the id, cut
out of the record and put together again, is the same on both sides
(`mapEvent_response`).

For merging, the ids are what counts. The natural id leads back to the record
(`naturalId_inj`), so within one chain two events with one id are one event,
and removing duplicates by id leaves each once
(`mergesOnce_of_agree`). The other way, the range of a single bad record is
read by one route and not by the other (`symbolFirst_of_mergesOnce`).
-/

namespace PrivacyWallet

namespace Wallet

open Indexer Backfill Text

/-! ## Records and the two routes -/

/-- The SDK with its encoder. -/
structure XdrSdk (V Point : Type) extends EventSdk V Point where
  /-- `v.toXDR("base64")` -/
  toXDR : V → String

/-- A value's XDR decodes to the value, and `sym` throws on another arm. -/
structure XdrSdk.Lawful {V Point : Type} (sdk : XdrSdk V Point) : Prop where
  fromXDR_toXDR : ∀ v, sdk.fromXDR (sdk.toXDR v) = .ok v
  sym_ok_iff : ∀ v, (∃ name, sdk.sym v = .ok name) ↔ sdk.switchName v = "scvSymbol"

/-- An event as the RPC reports it. Its id is `<toid>-<eventOrder>`, and the
TOID carries the record's ledger, transaction and operation. -/
structure RpcRecord (V : Type) where
  id : String
  contractId : String
  ledger : Nat
  ledgerClosedAt : Int
  txHash : String
  transactionIndex : Nat
  operationIndex : Nat
  eventOrder : Nat
  topic : List V
  value : V
  inSuccessfulContractCall : Bool
  transactionIndex_lt : transactionIndex < 2 ^ 20
  operationIndex_lt : operationIndex < 2 ^ 12
  id_eq : ∃ width width', id = padZeros width (toidOf ledger transactionIndex operationIndex)
    ++ "-" ++ padZeros width' eventOrder

namespace RpcRecord

variable {V : Type}

/-- What sets the events of a chain apart. -/
def coords (r : RpcRecord V) : Nat × Nat × Nat × Nat :=
  (r.ledger, r.transactionIndex, r.operationIndex, r.eventOrder)

/-- The first topic, if there is one, is a symbol. -/
def SymbolFirst {Point : Type} (sdk : XdrSdk V Point) (r : RpcRecord V) : Prop :=
  ∀ nameVal ∈ r.topic.head?, sdk.switchName nameVal = "scvSymbol"

/-- As `fetchEvents` receives it. -/
def event (r : RpcRecord V) : RpcEvent V := ⟨r.id, r.ledger, r.txHash, r.topic, r.value⟩

/-- As the worker receives it. -/
def response {Point : Type} (sdk : XdrSdk V Point) (r : RpcRecord V) : EventResponse where
  id := r.id
  contractId := some r.contractId
  ledger := r.ledger
  ledgerClosedAt := r.ledgerClosedAt
  txHash := r.txHash
  transactionIndex := r.transactionIndex
  operationIndex := r.operationIndex
  topic := r.topic.map sdk.toXDR
  value := sdk.toXDR r.value
  inSuccessfulContractCall := r.inSuccessfulContractCall

/-- The id that both routes give the event. -/
def naturalId (r : RpcRecord V) : String :=
  naturalEventId r.ledger r.txHash r.operationIndex r.eventOrder

end RpcRecord

variable {V Point : Type} (sdk : XdrSdk V Point)

/-- The record, decoded from the RPC. -/
def viaRpc (r : RpcRecord V) : Except String (Option (ConfidentialEvent Point)) :=
  parseEvent sdk.toEventSdk r.event

/-- The record, mapped to a row, stored, served and decoded. -/
def viaApi (r : RpcRecord V) : Except String (Option (ConfidentialEvent Point)) := do
  let raw ← mapEvent (r.response sdk)
  parseApiEvent sdk.toEventSdk (Api.eventItem (toNewEventRow raw))

/-- The records of a range, by the indexer. -/
def apiRange (rs : List (RpcRecord V)) : Except String (List (ConfidentialEvent Point)) := do
  let raws ← rs.mapM fun r => mapEvent (r.response sdk)
  parsePage sdk.toEventSdk (raws.map fun raw => Api.eventItem (toNewEventRow raw))

/-- The records of a range, by the RPC. -/
def rpcRange (rs : List (RpcRecord V)) : Except String (List (ConfidentialEvent Point)) :=
  parseResponse sdk.toEventSdk (rs.map RpcRecord.event)

/-- One range by either route, merged. -/
def mergedRoutes (old recent : List (RpcRecord V)) :
    Except String (List (ConfidentialEvent Point)) := do
  let old ← apiRange sdk old
  let recent ← rpcRange sdk recent
  pure (dedupeById (old ++ recent))

/-- Merging the ranges `p` and `q` gives each event of either once. It fails
only with a record that the indexer's route fails on. -/
def MergesOnce (rs : List (RpcRecord V)) (p q : RpcRecord V → Bool) : Prop :=
  match mergedRoutes sdk (rs.filter p) (rs.filter q) with
  | .ok events => (events.map (·.cursor)).Nodup ∧
      ∀ event, event ∈ events ↔
        ∃ r ∈ rs, (p r = true ∨ q r = true) ∧ viaApi sdk r = .ok (some event)
  | .error message => ∃ r ∈ rs, (p r = true ∨ q r = true) ∧ viaApi sdk r = .error message

/-- The records of one chain: each has its place, and a transaction its hash. -/
structure OnChain (rs : List (RpcRecord V)) : Prop where
  coords : (rs.map RpcRecord.coords).Nodup
  hash : ∀ r ∈ rs, '-' ∉ r.txHash.toList
  tx : ∀ r ∈ rs, ∀ r' ∈ rs, r.txHash = r'.txHash →
    r.ledger = r'.ledger ∧ r.transactionIndex = r'.transactionIndex

/-! ## The coordinates -/

theorem toidOf_mod {ledger tx op : Nat} (hop : op < 2 ^ 12) :
    toidOf ledger tx op % 2 ^ 12 = op := by
  unfold toidOf
  omega

namespace RpcRecord

theorem eventIndexFromId_id (r : RpcRecord V) : eventIndexFromId r.id = .ok r.eventOrder := by
  obtain ⟨width, width', hid⟩ := r.id_eq
  rw [hid, eventIndexFromId_eq]

theorem rpcEventCoords_id (r : RpcRecord V) :
    rpcEventCoords r.id = .ok (r.operationIndex, r.eventOrder.repr) := by
  obtain ⟨width, width', hid⟩ := r.id_eq
  have hsplit : split '-' r.id = [padZeros width (toidOf r.ledger r.transactionIndex
      r.operationIndex), padZeros width' r.eventOrder] := by
    rw [hid, show "-" = String.ofList ['-'] from rfl,
      split_eq (dash_notMem_padZeros _ _) (dash_notMem_padZeros _ _)]
  have htoid : bigInt ((split '-' r.id).headD "")
      = .ok (toidOf r.ledger r.transactionIndex r.operationIndex) := by
    rw [hsplit, List.headD_cons, bigInt, number_padZeros]
  have horder : ((number ((split '-' r.id).getD 1 "0")).map Nat.repr).getD "NaN"
      = r.eventOrder.repr := by
    rw [hsplit, List.getD_cons_succ, List.getD_cons_zero, number_padZeros]
    rfl
  rw [rpcEventCoords, htoid, horder]
  change Except.ok _ = _
  rw [toidOf_mod r.operationIndex_lt]

/-- The row has the natural id of the record. -/
theorem mapEvent_response (r : RpcRecord V) :
    ∃ raw, mapEvent (r.response sdk) = .ok raw ∧
      Api.eventItem (toNewEventRow raw)
        = ⟨r.naturalId, r.ledger, r.txHash, r.topic.map sdk.toXDR, sdk.toXDR r.value⟩ := by
  have hindex : eventIndexFromId (r.response sdk).id = .ok r.eventOrder := r.eventIndexFromId_id
  unfold mapEvent
  rw [hindex]
  exact ⟨_, rfl, rfl⟩

/-- The natural id leads back to the record. -/
theorem naturalId_inj {rs : List (RpcRecord V)} (hchain : OnChain rs) {r r' : RpcRecord V}
    (hr : r ∈ rs) (hr' : r' ∈ rs) (h : r.naturalId = r'.naturalId) : r = r' := by
  obtain ⟨hop, hindex, htx⟩ := naturalEventId_inj h
  rw [show "-" = String.ofList ['-'] from rfl] at htx
  obtain ⟨-, hhash⟩ := separated_inj (hchain.hash r hr) (hchain.hash r' hr') htx
  obtain ⟨hledger, hindex'⟩ := hchain.tx r hr r' hr' hhash
  refine List.inj_on_of_nodup_map hchain.coords hr hr' ?_
  rw [coords, coords, hop, hindex, hledger, hindex']

end RpcRecord

/-! ## One record -/

/-- What both routes do once the first topic is there. -/
def decodeNamed (r : RpcRecord V) (nameVal : V) :
    Except String (Option (ConfidentialEvent Point)) := do
  let name ← sdk.sym nameVal
  if name ∉ known then pure none
  else do
    let data ← dataMapOf sdk.toStellarSdk r.value
    buildConfidentialEvent sdk.toEventSdk name r.ledger r.txHash r.naturalId r.topic data

theorem mapM_fromXDR {sdk : XdrSdk V Point} (hsdk : sdk.Lawful) (topics : List V) :
    (topics.map sdk.toXDR).mapM sdk.fromXDR = .ok topics := by
  induction topics with
  | nil => rfl
  | cons v topics ih =>
      rw [List.map_cons, List.mapM_cons, hsdk.fromXDR_toXDR, ih]
      rfl

theorem viaRpc_eq (r : RpcRecord V) :
    viaRpc sdk r = match r.topic with
      | [] => .ok none
      | nameVal :: _ => decodeNamed sdk r nameVal := by
  unfold viaRpc parseEvent RpcRecord.event
  dsimp only
  cases htopic : r.topic with
  | nil => rfl
  | cons nameVal rest =>
      unfold decodeNamed
      dsimp only
      rw [r.rpcEventCoords_id, htopic]
      rfl

theorem viaApi_eq {sdk : XdrSdk V Point} (hsdk : sdk.Lawful) (r : RpcRecord V) :
    viaApi sdk r = match r.topic with
      | [] => .ok none
      | nameVal :: _ =>
          if sdk.switchName nameVal ≠ "scvSymbol" then .ok none
          else decodeNamed sdk r nameVal := by
  obtain ⟨raw, hraw, hitem⟩ := r.mapEvent_response sdk
  unfold viaApi
  rw [hraw]
  change parseApiEvent sdk.toEventSdk (Api.eventItem (toNewEventRow raw)) = _
  rw [hitem]
  unfold parseApiEvent
  dsimp only
  rw [mapM_fromXDR hsdk, hsdk.fromXDR_toXDR]
  cases htopic : r.topic with
  | nil => rfl
  | cons nameVal rest =>
      unfold decodeNamed
      rw [htopic]
      rfl

theorem viaRpc_eq_viaApi {sdk : XdrSdk V Point} (hsdk : sdk.Lawful) {r : RpcRecord V}
    (h : r.SymbolFirst sdk) : viaRpc sdk r = viaApi sdk r := by
  rw [viaRpc_eq, viaApi_eq hsdk]
  unfold RpcRecord.SymbolFirst at h
  cases htopic : r.topic with
  | nil => rfl
  | cons nameVal rest =>
      rw [htopic] at h
      exact (if_neg fun hne => hne (h nameVal rfl)).symm

/-- Where the routes differ, the API's skips the record and the direct decoder
throws. -/
theorem routes_differ {sdk : XdrSdk V Point} (hsdk : sdk.Lawful) {r : RpcRecord V}
    (h : ¬r.SymbolFirst sdk) :
    viaApi sdk r = .ok none ∧ ∃ message, viaRpc sdk r = .error message := by
  rw [viaRpc_eq, viaApi_eq hsdk]
  unfold RpcRecord.SymbolFirst at h
  cases htopic : r.topic with
  | nil => exact absurd (by rw [htopic]; intro nameVal hname; cases hname) h
  | cons nameVal rest =>
      have hsymbol : sdk.switchName nameVal ≠ "scvSymbol" := by
        intro hsymbol
        refine h fun v hv => ?_
        rw [htopic] at hv
        cases hv
        exact hsymbol
      refine ⟨if_pos hsymbol, ?_⟩
      cases hsym : sdk.sym nameVal with
      | ok name => exact absurd ((hsdk.sym_ok_iff nameVal).mp ⟨name, hsym⟩) hsymbol
      | error message =>
          refine ⟨message, ?_⟩
          dsimp only
          rw [decodeNamed, hsym]
          rfl

/-- The routes agree, on the event or the message, if and only if the record
has no topics or a symbol first. -/
theorem viaRpc_eq_viaApi_iff {sdk : XdrSdk V Point} (hsdk : sdk.Lawful) (r : RpcRecord V) :
    viaRpc sdk r = viaApi sdk r ↔ r.SymbolFirst sdk := by
  refine ⟨fun h => ?_, viaRpc_eq_viaApi hsdk⟩
  by_contra hsymbol
  obtain ⟨hskip, message, hthrow⟩ := routes_differ hsdk hsymbol
  rw [hskip, hthrow] at h
  cases h

theorem viaApi_cursor {sdk : XdrSdk V Point} {r : RpcRecord V} {event : ConfidentialEvent Point}
    (h : viaApi sdk r = .ok (some event)) : event.cursor = r.naturalId := by
  obtain ⟨raw, hraw, hitem⟩ := r.mapEvent_response sdk
  unfold viaApi at h
  rw [hraw] at h
  change parseApiEvent sdk.toEventSdk (Api.eventItem (toNewEventRow raw)) = _ at h
  rw [cursor_of_parsed h, hitem]

/-! ## A range -/

theorem rpcRange_eq (rs : List (RpcRecord V)) : rpcRange sdk rs = collect (viaRpc sdk) rs := by
  unfold rpcRange parseResponse collect
  rw [List.mapM_map]
  rfl

theorem apiRange_eq (rs : List (RpcRecord V)) : apiRange sdk rs = collect (viaApi sdk) rs := by
  -- every record has a row
  have hraws : ∃ raws, (rs.mapM fun r => mapEvent (r.response sdk)) = .ok raws ∧
      (raws.map fun raw => Api.eventItem (toNewEventRow raw)).mapM (parseApiEvent sdk.toEventSdk)
        = rs.mapM (viaApi sdk) := by
    induction rs with
    | nil => exact ⟨[], rfl, rfl⟩
    | cons r rs ih =>
        obtain ⟨raws, hraws, hparse⟩ := ih
        obtain ⟨raw, hraw, -⟩ := r.mapEvent_response sdk
        refine ⟨raw :: raws, ?_, ?_⟩
        · rw [List.mapM_cons, hraw, hraws]
          rfl
        · have hvia : viaApi sdk r
              = parseApiEvent sdk.toEventSdk (Api.eventItem (toNewEventRow raw)) := by
            rw [viaApi, hraw]
            rfl
          rw [List.map_cons, List.mapM_cons, List.mapM_cons, hparse, hvia]
  obtain ⟨raws, hraws, hparse⟩ := hraws
  unfold apiRange collect
  rw [hraws, ← hparse]
  rfl

/-! ## Both ranges -/

variable {sdk} {rs : List (RpcRecord V)}

/-- Events of one chain with one id are one event. -/
theorem keyedBy_viaApi (hchain : OnChain rs) :
    Table.KeyedBy (fun event : ConfidentialEvent Point => event.cursor)
      fun event => ∃ r ∈ rs, viaApi sdk r = .ok (some event) := by
  rintro event event' ⟨r, hr, hevent⟩ ⟨r', hr', hevent'⟩ hcursor
  have hid : r.naturalId = r'.naturalId := by
    rw [← viaApi_cursor hevent, ← viaApi_cursor hevent']
    exact hcursor
  rw [RpcRecord.naturalId_inj hchain hr hr' hid, hevent'] at hevent
  cases hevent
  rfl

theorem nodup_cursors_dedupeById {events : List (ConfidentialEvent Point)} {D : _ → Prop}
    (hD : Table.KeyedBy (fun event : ConfidentialEvent Point => event.cursor) D)
    (hevents : ∀ event ∈ events, D event) : ((dedupeById events).map (·.cursor)).Nodup := by
  have hnil : ∀ event ∈ ([] : List (ConfidentialEvent Point)), D event := by simp
  have hnodup : (dedupeById events).Nodup :=
    (List.perm_insertionSort _ _).nodup_iff.mpr
      (Table.nodup_insertAllNew hD hevents hnil List.nodup_nil)
  refine hnodup.map_on fun event hevent event' hevent' hcursor => ?_
  exact hD event event' (hevents event (mem_of_mem_dedupeById hevent))
    (hevents event' (mem_of_mem_dedupeById hevent')) hcursor

theorem mem_dedupeById_iff {events : List (ConfidentialEvent Point)} {D : _ → Prop}
    (hD : Table.KeyedBy (fun event : ConfidentialEvent Point => event.cursor) D)
    (hevents : ∀ event ∈ events, D event) (event : ConfidentialEvent Point) :
    event ∈ dedupeById events ↔ event ∈ events := by
  rw [mem_dedupeById, Table.mem_insertAllNew hD hevents (by simp)]
  simp

/-- Where the routes agree on every record, both ranges are decoded by one
function: they fail with a record that fails, or their events are those of the
records in either range, which `dedupeById` leaves once each. -/
theorem mergesOnce_of_agree (hchain : OnChain rs)
    (hagree : ∀ r ∈ rs, viaRpc sdk r = viaApi sdk r) (p q : RpcRecord V → Bool) :
    MergesOnce sdk rs p q := by
  have hrecent : rpcRange sdk (rs.filter q) = collect (viaApi sdk) (rs.filter q) := by
    rw [rpcRange_eq]
    exact collect_congr fun r hr => hagree r (List.mem_of_mem_filter hr)
  unfold MergesOnce mergedRoutes
  rw [apiRange_eq, hrecent]
  cases hold : collect (viaApi sdk) (rs.filter p) with
  | error message =>
      obtain ⟨r, hr, herror⟩ := collect_error hold
      obtain ⟨hmem, hp⟩ := List.mem_filter.mp hr
      exact ⟨r, hmem, .inl hp, herror⟩
  | ok old =>
      cases hrecent : collect (viaApi sdk) (rs.filter q) with
      | error message =>
          obtain ⟨r, hr, herror⟩ := collect_error hrecent
          obtain ⟨hmem, hq⟩ := List.mem_filter.mp hr
          exact ⟨r, hmem, .inr hq, herror⟩
      | ok recent =>
          have hmem : ∀ event, event ∈ old ++ recent ↔
              ∃ r ∈ rs, (p r = true ∨ q r = true) ∧ viaApi sdk r = .ok (some event) := by
            intro event
            rw [List.mem_append, mem_collect hold, mem_collect hrecent]
            simp only [List.mem_filter]
            constructor
            · rintro (⟨r, ⟨hr, hp⟩, h⟩ | ⟨r, ⟨hr, hq⟩, h⟩)
              · exact ⟨r, hr, .inl hp, h⟩
              · exact ⟨r, hr, .inr hq, h⟩
            · rintro ⟨r, hr, hp | hq, h⟩
              · exact .inl ⟨r, ⟨hr, hp⟩, h⟩
              · exact .inr ⟨r, ⟨hr, hq⟩, h⟩
          have hD := @keyedBy_viaApi V Point sdk rs hchain
          have hevents : ∀ event ∈ old ++ recent, ∃ r ∈ rs, viaApi sdk r = .ok (some event) := by
            intro event hevent
            obtain ⟨r, hr, -, h⟩ := (hmem event).mp hevent
            exact ⟨r, hr, h⟩
          refine ⟨nodup_cursors_dedupeById hD hevents, fun event => ?_⟩
          rw [mem_dedupeById_iff hD hevents, hmem]

/-- A record on which the routes differ spoils the range of it alone. -/
theorem symbolFirst_of_mergesOnce (hsdk : sdk.Lawful) (hchain : OnChain rs)
    (h : ∀ p q : RpcRecord V → Bool, MergesOnce sdk rs p q) {r : RpcRecord V} (hr : r ∈ rs) :
    r.SymbolFirst sdk := by
  by_contra hsymbol
  obtain ⟨hskip, message, hthrow⟩ := routes_differ hsdk hsymbol
  have halone := h (fun _ => false) fun r' => decide (r'.naturalId = r.naturalId)
  have hmem : r ∈ rs.filter fun r' => decide (r'.naturalId = r.naturalId) :=
    List.mem_filter.mpr ⟨hr, decide_eq_true rfl⟩
  obtain ⟨message', hrange⟩ := collect_throws hmem hthrow
  unfold MergesOnce mergedRoutes at halone
  rw [apiRange_eq, rpcRange_eq, List.filter_false, hrange] at halone
  obtain ⟨r', hr', hsel, herror⟩ := halone
  -- the only record of the range is `r`
  have hid : r'.naturalId = r.naturalId := by
    rcases hsel with hsel | hsel
    · cases hsel
    · exact of_decide_eq_true hsel
  rw [RpcRecord.naturalId_inj hchain hr' hr hid, hskip] at herror
  cases herror

/-- The two routes to a record agree if and only if it has no topics or a symbol
first, and all the ranges of a chain merge if and only if all its records are
such.

A record on which the routes agree is the same event on both, so its range
merges; the range of a single record on which they differ does not
(`symbolFirst_of_mergesOnce`). -/
theorem event_routes_agree_iff (sdk : XdrSdk V Point) (hsdk : sdk.Lawful)
    (rs : List (RpcRecord V)) (hchain : OnChain rs) :
    (∀ r : RpcRecord V, viaRpc sdk r = viaApi sdk r ↔ r.SymbolFirst sdk) ∧
      ((∀ p q, MergesOnce sdk rs p q) ↔ ∀ r ∈ rs, r.SymbolFirst sdk) :=
  ⟨viaRpc_eq_viaApi_iff hsdk, fun h _ hr => symbolFirst_of_mergesOnce hsdk hchain h hr,
    fun h => mergesOnce_of_agree hchain fun r hr => viaRpc_eq_viaApi hsdk (h r hr)⟩

/-! ## The `merge` event by both routes -/

/-- The SDK on the XDR of the `merge` event. -/
def mergeXdrSdk : XdrSdk MergeVal Unit where
  toEventSdk := mergeEventSdk
  toXDR
    | .name => "AAAADwAAAAVtZXJnZQAAAA=="
    | .account => "AAAAEgAAAAFXpY8SJzWUqk+Rp2uKPB2JP4CkaB40CwTEYB7y1m8lJQ=="
    | .data => "AAAAEQAAAAEAAAAA"

theorem mergeXdrSdk_lawful : mergeXdrSdk.Lawful where
  fromXDR_toXDR v := by cases v <;> rfl
  sym_ok_iff v := by
    cases v with
    | name => exact ⟨fun _ => rfl, fun _ => ⟨"merge", rfl⟩⟩
    | account => exact ⟨(fun ⟨_, h⟩ => by cases h), fun h => absurd h (by decide)⟩
    | data => exact ⟨(fun ⟨_, h⟩ => by cases h), fun h => absurd h (by decide)⟩

/-- An event of the token. -/
def mergeRecordAt (ledger eventOrder : Nat) (txHash : String) (topic : List MergeVal) :
    RpcRecord MergeVal where
  id := padZeros 19 (toidOf ledger 18 0) ++ "-" ++ padZeros 10 eventOrder
  contractId := mergeToken
  ledger := ledger
  ledgerClosedAt := 1785522610000
  txHash := txHash
  transactionIndex := 18
  operationIndex := 0
  eventOrder := eventOrder
  topic := topic
  value := .data
  inSuccessfulContractCall := true
  transactionIndex_lt := by decide
  operationIndex_lt := by decide
  id_eq := ⟨19, 10, rfl⟩

/-- An event of the token at the place of the `merge`. -/
def mergeRecord (topic : List MergeVal) : RpcRecord MergeVal :=
  mergeRecordAt 3900644 0 "d96246f5f752c23c32241049d3a7c27fc39dcb74e7df0840fce28ae42a0ff2a1" topic

/-- The `merge`, one in a later ledger, and two in one transaction later on. -/
def mergeChain : List (RpcRecord MergeVal) :=
  [mergeRecord [.name, .account],
    mergeRecordAt 3900730 0 (padZeros 64 1) [.name, .account],
    mergeRecordAt 3900790 0 (padZeros 64 2) [.name, .account],
    mergeRecordAt 3900790 1 (padZeros 64 2) [.name, .account],
    mergeRecordAt 3900801 0 (padZeros 64 3) [.name, .account]]

theorem mergeChain_onChain : OnChain mergeChain where
  coords := by decide +kernel
  hash := by decide +kernel
  tx := by decide +kernel

theorem mergeChain_symbolFirst : ∀ r ∈ mergeChain, r.SymbolFirst mergeXdrSdk := by
  intro r hr nameVal hname
  simp only [mergeChain, List.mem_cons, List.not_mem_nil, or_false] at hr
  rcases hr with rfl | rfl | rfl | rfl | rfl <;> cases hname <;> rfl

/-- An event whose first topic is an address: skipped by one route, a throw on
the other, and the range of it cannot be read. -/
theorem address_first_splits_routes :
    viaApi mergeXdrSdk (mergeRecord [.account]) = .ok none ∧
      viaRpc mergeXdrSdk (mergeRecord [.account]) = .error "sym not set" ∧
      ¬MergesOnce mergeXdrSdk [mergeRecord [.account]] (fun _ => true) fun _ => true := by
  have hskip : viaApi mergeXdrSdk (mergeRecord [.account]) = .ok none := by decide +kernel
  refine ⟨hskip, by decide +kernel, fun hmerges => ?_⟩
  have hfails : mergedRoutes mergeXdrSdk [mergeRecord [.account]] [mergeRecord [.account]]
      = .error "sym not set" := by rfl
  unfold MergesOnce at hmerges
  rw [List.filter_true, hfails] at hmerges
  obtain ⟨r, hr, -, herror⟩ := hmerges
  rw [List.mem_singleton.mp hr, hskip] at herror
  cases herror

/-- The five `merge`s by both routes, over ranges that share the second. -/
theorem event_routes_agree_iff_merge :
    (∀ r ∈ mergeChain, viaRpc mergeXdrSdk r = viaApi mergeXdrSdk r) ∧
      MergesOnce mergeXdrSdk mergeChain (fun r => decide (r.ledger < 3900760))
        (fun r => decide (3900700 ≤ r.ledger)) ∧
      ((mergedRoutes mergeXdrSdk (mergeChain.filter fun r => decide (r.ledger < 3900760))
          (mergeChain.filter fun r => decide (3900700 ≤ r.ledger))).toOption.map fun events =>
            events.map (·.cursor)) = some (mergeChain.map RpcRecord.naturalId) := by
  obtain ⟨hagree, hmerge⟩ := event_routes_agree_iff mergeXdrSdk mergeXdrSdk_lawful mergeChain
    mergeChain_onChain
  exact ⟨fun r hr => (hagree r).mpr (mergeChain_symbolFirst r hr),
    hmerge.mpr mergeChain_symbolFirst _ _, by decide +kernel⟩

end Wallet

end PrivacyWallet
