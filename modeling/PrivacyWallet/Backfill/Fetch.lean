import PrivacyWallet.Backfill.Archive

/-!
# Fetching the archive

`backfill-spp` asks the archive for the events of one contract after the
other, page by page, while the chain goes on. A run of it is given with the
times of its requests, `schedule`: for each contract, the times of all its
requests.

The archive shows the first `shown t` events of the chain at time `t`. What
the run collects of a contract is what the archive showed of it at the last
of that contract's requests (`backfillSpp_perm`): nothing that landed later,
whatever came in of the other contracts.
-/

namespace PrivacyWallet

namespace Backfill

open Indexer Text

/-! ## The archive's pages -/

/-- What the archive answers at a time: contract, cursor, limit. -/
abbrev Archive : Type := Nat → String → Option String → Nat → List ArchiveEventRecord

structure ArchiveEventsPageResult where
  records : List ArchiveEventRecord
  nextCursor : Option String

section Client

variable (archive : Archive)

def fetchArchiveEventsPage (time : Nat) (contractId : String) (cursor : Option String)
    (limit : Nat) : ArchiveEventsPageResult :=
  let records := archive time contractId cursor limit
  ⟨records, if records.length = limit then records.getLast?.map (·.id) else none⟩

/-- `fetchAllArchiveEvents`, with the times of all its requests. `none` if
it makes more or fewer. -/
def fetchAllArchiveEvents (contractId : String) (limit : Nat) :
    Option String → List Nat → Option (List ArchiveEventRecord)
  | _, [] => none
  | cursor, time :: times =>
      let page := fetchArchiveEventsPage archive time contractId cursor limit
      match page.nextCursor, times with
      | none, [] => some page.records
      | none, _ :: _ => none
      | some next, times =>
          (fetchAllArchiveEvents contractId limit (some next) times).map (page.records ++ ·)

end Client

/-! ## Transaction hashes -/

structure HorizonTransactionRecord where
  hash : String
  pagingToken : String
deriving DecidableEq

/-- The first transaction after a cursor. -/
abbrev Horizon : Type := String → Option HorizonTransactionRecord

/-- `eventToid & ~OP_ORDER_MASK` -/
def txToidForEvent (eventToid : Nat) : Nat := (eventToid >>> opOrderBits) <<< opOrderBits

/-- The map from transaction-level TOIDs to hashes. -/
abbrev TxHashCache : Type := String → Option String

def resolveTxHash (horizon : Horizon) (eventToid : Nat) (cache : TxHashCache) :
    Except String (String × TxHashCache) :=
  let txToid := txToidForEvent eventToid
  let key := txToid.repr
  match cache key with
  | some cached => .ok (cached, cache)
  | none =>
      let cursor := toString ((txToid : Int) - 1)
      match horizon cursor with
      | none => .error s!"resolveTxHash: Horizon returned no transaction for event toid {eventToid} (cursor {cursor})"
      | some record =>
          if record.pagingToken ≠ key then
            .error s!"resolveTxHash: Horizon transaction paging_token {record.pagingToken} does not match the expected tx-level toid {key} for event toid {eventToid} — resolution assumption may be wrong, see spp-archive.ts's module doc"
          else .ok (record.hash, Function.update cache key (some record.hash))

/-! ## The script -/

/-- The rows of one contract's records, appended to those before. -/
def mapRecords (horizon : Horizon) :
    List ArchiveEventRecord → List RawEvent × TxHashCache →
      Except String (List RawEvent × TxHashCache)
  | [], acc => .ok acc
  | record :: records, (rows, cache) => do
      let toid ← toidFromArchiveId record.id
      let (txHash, cache) ← resolveTxHash horizon toid cache
      let row ← mapArchiveRecordToRawEvent record txHash
      mapRecords horizon records (rows ++ [row], cache)

/-- The order of two rows: by TOID, event index, contract. -/
def compareArchiveOrder (a b : RawEvent) : Ordering :=
  let toidA := (a.ledger <<< 32) ||| (a.txIndex <<< 12) ||| a.opIndex
  let toidB := (b.ledger <<< 32) ||| (b.txIndex <<< 12) ||| b.opIndex
  (compare toidA toidB).then
    ((compare a.eventIndex b.eventIndex).then (compare a.contractId b.contractId))

/-- `limit = 200` -/
def defaultPageLimit : Nat := 200

/-- The loop over the contracts. -/
def fetchContracts (archive : Archive) (horizon : Horizon) :
    List (String × List Nat) → List RawEvent × TxHashCache →
      Option (List RawEvent × TxHashCache)
  | [], acc => some acc
  | (contractId, times) :: schedule, acc => do
      let records ← fetchAllArchiveEvents archive contractId defaultPageLimit none times
      let acc ← (mapRecords horizon records acc).toOption
      fetchContracts archive horizon schedule acc

/-- `main` of `backfill-spp`: the fixture's events. `none` if the run does
not come to its end at the times of the schedule. -/
def backfillSpp (archive : Archive) (horizon : Horizon) (schedule : List (String × List Nat)) :
    Option (List RawEvent) := do
  let (allRows, _) ← fetchContracts archive horizon schedule ([], fun _ => none)
  pure (allRows.insertionSort fun a b => (compareArchiveOrder a b).isLE = true)

/-! ## What the archive and Horizon show -/

/-- The events of the chain, in order. A transaction that calls a contract
has one operation, and a hash of its own. -/
structure SppChain (chain : List ChainEvent) : Prop where
  archiveIds : (chain.map fun e => e.archived.id).Nodup
  liveIds : (chain.map fun e => (e.row 0).id).Nodup
  single : ∀ e ∈ chain, e.op = 0

/-- What the archive shows of a contract at a time. -/
def shownOf (chain : List ChainEvent) (shown : Nat → Nat) (contractId : String) (time : Nat) :
    List ChainEvent :=
  (chain.take (shown time)).filter fun e => decide (e.contractId = contractId)

/-- The archive pages through what it shows, from the start or after the
record that the cursor names. -/
structure ArchiveAnswers (chain : List ChainEvent) (shown : Nat → Nat) (archive : Archive) :
    Prop where
  first : ∀ time contractId limit, archive time contractId none limit
    = ((shownOf chain shown contractId time).map ChainEvent.archived).take limit
  after : ∀ time contractId id limit, archive time contractId (some id) limit
    = (((shownOf chain shown contractId time).map ChainEvent.archived).dropWhile
        fun r => decide (r.id ≠ id)).tail.take limit

/-- Horizon resolves every transaction with events on the chain. -/
def HorizonAnswers (chain : List ChainEvent) (horizon : Horizon) : Prop :=
  ∀ e ∈ chain, horizon (toString ((toidOf e.ledger e.tx 0 : Nat) - 1 : Int))
    = some ⟨e.txHash, (toidOf e.ledger e.tx 0).repr⟩

section Pages

variable {chain : List ChainEvent} {shown : Nat → Nat} {archive : Archive}

/-- What is shown of a contract is a first piece of all its events. -/
theorem shownOf_eq_take (contractId : String) (time : Nat) :
    shownOf chain shown contractId time
      = (chain.filter fun e => decide (e.contractId = contractId)).take
          (shownOf chain shown contractId time).length := by
  have hpre : shownOf chain shown contractId time
      <+: chain.filter fun e => decide (e.contractId = contractId) :=
    (List.take_prefix _ _).filter _
  exact List.prefix_iff_eq_take.mp hpre

theorem shownOf_length_mono (hshown : Monotone shown) (contractId : String) {s t : Nat}
    (hst : s ≤ t) :
    (shownOf chain shown contractId s).length ≤ (shownOf chain shown contractId t).length := by
  have hpre : chain.take (shown s) <+: chain.take (shown t) :=
    List.take_prefix_take_left (hshown hst)
  exact (hpre.filter _).length_le

/-- The page at a time, when `k` records were fetched before. -/
theorem page_records (harchive : ArchiveAnswers chain shown archive)
    {contractId : String} {records : List ArchiveEventRecord}
    (hrecords : records = (chain.filter fun e =>
      decide (e.contractId = contractId)).map ChainEvent.archived)
    (hids : (records.map (·.id)).Nodup) {time k limit : Nat} {cursor : Option String}
    (hcursor : cursor = (records.take k).getLast?.map (·.id))
    (hk : k ≤ (shownOf chain shown contractId time).length) :
    archive time contractId cursor limit
      = ((records.take (shownOf chain shown contractId time).length).drop k).take limit := by
  have hshown : (shownOf chain shown contractId time).map ChainEvent.archived
      = records.take (shownOf chain shown contractId time).length := by
    conv_lhs => rw [shownOf_eq_take]
    rw [hrecords, List.map_take]
  have hlen : (shownOf chain shown contractId time).length ≤ records.length := by
    have h := congrArg List.length hshown
    rw [List.length_map, List.length_take] at h
    omega
  cases k with
  | zero =>
      rw [hcursor, List.take_zero, List.getLast?_nil, Option.map_none, harchive.first, hshown,
        List.drop_zero]
  | succ k =>
      have hlt : k < records.length := by omega
      have hlast : (records.take (k + 1)).getLast? = some records[k] := by
        rw [List.getLast?_take, if_neg (Nat.succ_ne_zero k), Nat.add_sub_cancel,
          List.getElem?_eq_getElem hlt]
        rfl
      have hget : (records.take (shownOf chain shown contractId time).length)[k]?
          = some records[k] := by
        rw [List.getElem?_take_of_lt (by omega), List.getElem?_eq_getElem hlt]
      have hnodup : ((records.take (shownOf chain shown contractId time).length).map
          (·.id)).Nodup := hids.sublist ((List.take_sublist _ _).map _)
      rw [hcursor, hlast, Option.map_some, harchive.after, hshown,
        Table.tail_dropWhile_key hnodup hget]

/-- All pages of one contract: from the `k`-th record on, what was shown at the
last request. By induction on the requests: a full page leads to the next one,
behind its last record, and a short one is the end, as nothing more was shown
by then. -/
theorem fetchAll_eq (harchive : ArchiveAnswers chain shown archive) (hshown : Monotone shown)
    {contractId : String} {records : List ArchiveEventRecord}
    (hrecords : records = (chain.filter fun e =>
      decide (e.contractId = contractId)).map ChainEvent.archived)
    (hids : (records.map (·.id)).Nodup) {limit : Nat} (hlimit : 0 < limit) :
    ∀ {times : List Nat} {k : Nat} {cursor : Option String} {fetched : List ArchiveEventRecord},
      times.Pairwise (· ≤ ·) →
      (∀ t ∈ times, k ≤ (shownOf chain shown contractId t).length) →
      cursor = (records.take k).getLast?.map (·.id) →
      fetchAllArchiveEvents archive contractId limit cursor times = some fetched →
      ∃ last, times.getLast? = some last ∧
        fetched = (records.take (shownOf chain shown contractId last).length).drop k
  | [], _, _, _, _, _, _, h => by cases h
  | time :: times, k, cursor, fetched, htimes, hk, hcursor, h => by
      have hkt := hk time List.mem_cons_self
      have hpage := @page_records _ _ _ harchive _ _ hrecords hids _ _ limit _ hcursor hkt
      have hlen : (shownOf chain shown contractId time).length ≤ records.length := by
        rw [hrecords, List.length_map]
        exact ((List.take_sublist _ _).filter _).length_le
      generalize hn : (shownOf chain shown contractId time).length = n at hkt hpage hlen
      unfold fetchAllArchiveEvents fetchArchiveEventsPage at h
      rw [hpage] at h
      dsimp only at h
      by_cases hfull : (((records.take n).drop k).take limit).length = limit
      · rw [List.length_take, List.length_drop, List.length_take] at hfull
        have hpiece : ((records.take n).drop k).take limit = (records.take (k + limit)).drop k := by
          rw [List.take_drop, List.take_take, show min (k + limit) n = k + limit by omega]
        have hnext : ((records.take (k + limit)).drop k).getLast?.map (·.id)
            = (records.take (k + limit)).getLast?.map (·.id) := by
          rw [List.getLast?_drop, List.length_take, if_neg (by omega)]
        obtain ⟨id, hid⟩ : ∃ id, (records.take (k + limit)).getLast?.map (·.id) = some id := by
          rw [List.getLast?_take, if_neg (by omega), List.getElem?_eq_getElem (by omega)]
          exact ⟨_, rfl⟩
        rw [hpiece, if_pos (by rw [List.length_drop, List.length_take]; omega), hnext, hid] at h
        dsimp only at h
        cases hrest : fetchAllArchiveEvents archive contractId limit (some id) times with
        | none =>
            rw [hrest] at h
            cases h
        | some rest =>
            rw [hrest, Option.map_some, Option.some.injEq] at h
            have hmono : ∀ t ∈ times, k + limit ≤ (shownOf chain shown contractId t).length := by
              intro t ht
              have := @shownOf_length_mono chain _ hshown contractId _ _
                ((List.pairwise_cons.mp htimes).1 t ht)
              omega
            obtain ⟨last, hlast, hrest'⟩ := fetchAll_eq harchive hshown hrecords hids hlimit
              (List.pairwise_cons.mp htimes).2 hmono hid.symm hrest
            have hne : times ≠ [] := by
              rintro rfl
              cases hlast
            refine ⟨last, ?_, ?_⟩
            · rw [List.getLast?_cons, hlast]
              rfl
            · rw [← h, hrest']
              exact Table.pieces_append records (Nat.le_add_right k limit)
                (hmono last (List.mem_of_getLast? hlast))
      · rw [if_neg hfull] at h
        cases times with
        | cons t times => cases h
        | nil =>
            cases h
            refine ⟨time, rfl, ?_⟩
            rw [hn]
            refine List.take_of_length_le ?_
            rw [List.length_take] at hfull
            omega

end Pages

/-! ## What a run collects -/

/-- The backfilled row of an event. -/
def ChainEvent.backfilled (e : ChainEvent) : RawEvent := e.row (e.op + 1)

/-- The archive's events of the schedule's contracts, each as shown at the
last request for it. -/
def collected (chain : List ChainEvent) (shown : Nat → Nat)
    (schedule : List (String × List Nat)) : List ChainEvent :=
  schedule.flatMap fun s => shownOf chain shown s.1 (s.2.getLast?.getD 0)

/-- The cache holds no wrong hash. -/
def CacheOk (chain : List ChainEvent) (cache : TxHashCache) : Prop :=
  ∀ e ∈ chain, ∀ hash, cache (toidOf e.ledger e.tx 0).repr = some hash → hash = e.txHash

section Collect

variable {chain : List ChainEvent} {shown : Nat → Nat} {archive : Archive} {horizon : Horizon}

theorem txToidForEvent_toidOf {ledger tx op : Nat} (hop : op < 2 ^ 12) :
    txToidForEvent (toidOf ledger tx op) = toidOf ledger tx 0 := by
  rw [txToidForEvent, toidOf, toidOf, opOrderBits, Nat.shiftRight_eq_div_pow,
    Nat.shiftLeft_eq]
  omega

theorem resolveTxHash_eq (hhorizon : HorizonAnswers chain horizon) {cache : TxHashCache}
    (hcache : CacheOk chain cache) {e : ChainEvent} (he : e ∈ chain) :
    ∃ cache', resolveTxHash horizon (toidOf e.ledger e.tx (e.op + 1)) cache
        = .ok (e.txHash, cache') ∧ CacheOk chain cache' := by
  unfold resolveTxHash
  rw [txToidForEvent_toidOf e.op_lt]
  dsimp only
  cases hc : cache (toidOf e.ledger e.tx 0).repr with
  | some hash =>
      rw [hcache e he hash hc]
      exact ⟨cache, rfl, hcache⟩
  | none =>
      dsimp only
      rw [hhorizon e he]
      dsimp only
      rw [if_neg (not_not.mpr rfl)]
      refine ⟨_, rfl, ?_⟩
      intro e' he' hash hhash
      by_cases hkey : (toidOf e'.ledger e'.tx 0).repr = (toidOf e.ledger e.tx 0).repr
      · -- the same transaction: Horizon knows one hash for it
        rw [hkey, Function.update_self] at hhash
        cases hhash
        have he₁ := hhorizon e he
        have he₂ := hhorizon e' he'
        rw [repr_injective hkey, he₁, Option.some.injEq] at he₂
        exact congrArg HorizonTransactionRecord.hash he₂
      · rw [Function.update_of_ne hkey] at hhash
        exact hcache e' he' hash hhash

theorem mapRecords_eq (hhorizon : HorizonAnswers chain horizon) :
    ∀ {es : List ChainEvent}, (∀ e ∈ es, e ∈ chain) →
      ∀ {rows : List RawEvent} {cache : TxHashCache}, CacheOk chain cache →
        ∃ cache', mapRecords horizon (es.map ChainEvent.archived) (rows, cache)
            = .ok (rows ++ es.map ChainEvent.backfilled, cache') ∧ CacheOk chain cache'
  | [], _, rows, cache, hcache => ⟨cache, by simp [mapRecords], hcache⟩
  | e :: es, hes, rows, cache, hcache => by
      obtain ⟨cache₁, hresolve, hcache₁⟩ :=
        resolveTxHash_eq hhorizon hcache (hes e List.mem_cons_self)
      obtain ⟨cache₂, hrest, hcache₂⟩ := @mapRecords_eq hhorizon _
        (fun e' he' => hes e' (List.mem_cons_of_mem _ he')) (rows ++ [e.backfilled]) _ hcache₁
      refine ⟨cache₂, ?_, hcache₂⟩
      have htoid : toidFromArchiveId e.archived.id = .ok (toidOf e.ledger e.tx (e.op + 1)) := by
        unfold ChainEvent.archived
        exact toidFromArchiveId_eq _ _ _
      have hrow : mapArchiveRecordToRawEvent e.archived e.txHash = .ok e.backfilled :=
        mapArchiveRecordToRawEvent_archived e
      have hstep : mapRecords horizon (e.archived :: es.map ChainEvent.archived) (rows, cache)
          = mapRecords horizon (es.map ChainEvent.archived) (rows ++ [e.backfilled], cache₁) := by
        rw [mapRecords, htoid, Checks.ok_bind, hresolve, Checks.ok_bind]
        dsimp only
        rw [hrow, Checks.ok_bind]
      rw [List.map_cons, hstep, hrest, List.append_assoc, List.singleton_append, List.map_cons]

theorem mem_chain_of_shownOf {contractId : String} {time : Nat} {e : ChainEvent}
    (he : e ∈ shownOf chain shown contractId time) : e ∈ chain :=
  List.mem_of_mem_take (List.mem_of_mem_filter he)

/-- The loop over the contracts appends each contract's rows. -/
theorem fetchContracts_eq (hchain : SppChain chain) (hshown : Monotone shown)
    (harchive : ArchiveAnswers chain shown archive) (hhorizon : HorizonAnswers chain horizon) :
    ∀ {schedule : List (String × List Nat)} {rows rows' : List RawEvent}
      {cache cache' : TxHashCache}, (∀ s ∈ schedule, s.2.Pairwise (· ≤ ·)) →
      CacheOk chain cache →
      fetchContracts archive horizon schedule (rows, cache) = some (rows', cache') →
      rows' = rows ++ (collected chain shown schedule).map ChainEvent.backfilled
  | [], rows, rows', cache, cache', _, _, h => by
      cases h
      simp [collected]
  | (contractId, times) :: schedule, rows, rows', cache, cache', htimes, hcache, h => by
      unfold fetchContracts at h
      have hids : (((chain.filter fun e => decide (e.contractId = contractId)).map
          ChainEvent.archived).map (·.id)).Nodup := by
        rw [List.map_map]
        exact hchain.archiveIds.sublist (List.filter_sublist.map _)
      cases hfetch : fetchAllArchiveEvents archive contractId defaultPageLimit none times with
      | none =>
          rw [hfetch] at h
          cases h
      | some records =>
          obtain ⟨last, hlast, hrecords⟩ := fetchAll_eq harchive hshown rfl hids
            (by decide) (htimes _ List.mem_cons_self) (fun t _ => Nat.zero_le _) rfl hfetch
          have hshownLast : records
              = (shownOf chain shown contractId last).map ChainEvent.archived := by
            rw [hrecords, List.drop_zero, ← List.map_take, ← shownOf_eq_take]
          obtain ⟨cache₁, hmap, hcache₁⟩ := @mapRecords_eq _ _ hhorizon
            (shownOf chain shown contractId last) (fun e he => mem_chain_of_shownOf he)
            rows _ hcache
          rw [hfetch] at h
          change (do
            let acc ← (mapRecords horizon records (rows, cache)).toOption
            fetchContracts archive horizon schedule acc) = _ at h
          rw [hshownLast, hmap] at h
          have hrest := fetchContracts_eq hchain hshown harchive hhorizon
            (fun s hs => htimes s (List.mem_cons_of_mem _ hs)) hcache₁ h
          have hcons : collected chain shown ((contractId, times) :: schedule)
              = shownOf chain shown contractId last ++ collected chain shown schedule := by
            unfold collected
            rw [List.flatMap_cons, hlast]
            rfl
          rw [hrest, hcons, List.map_append, ← List.append_assoc]

/-- The fixture holds what the archive showed of each contract at the last
request for it. -/
theorem backfillSpp_perm (hchain : SppChain chain) (hshown : Monotone shown)
    (harchive : ArchiveAnswers chain shown archive) (hhorizon : HorizonAnswers chain horizon)
    {schedule : List (String × List Nat)} (htimes : (schedule.flatMap (·.2)).Pairwise (· ≤ ·))
    {rows : List RawEvent} (h : backfillSpp archive horizon schedule = some rows) :
    rows.Perm ((collected chain shown schedule).map ChainEvent.backfilled) := by
  unfold backfillSpp at h
  cases hfetch : fetchContracts archive horizon schedule ([], fun _ => none) with
  | none =>
      rw [hfetch] at h
      cases h
  | some result =>
      rw [hfetch] at h
      cases h
      have heach : ∀ s ∈ schedule, s.2.Pairwise (· ≤ ·) := by
        intro s hs
        obtain ⟨l, r, rfl⟩ := List.append_of_mem hs
        rw [List.flatMap_append, List.flatMap_cons] at htimes
        exact (List.pairwise_append.mp (List.pairwise_append.mp htimes).2.1).1
      have hrows := @fetchContracts_eq _ _ _ _ hchain hshown harchive hhorizon
        schedule [] _ _ _ heach (fun e _ hash hhash => by cases hhash) hfetch
      rw [List.nil_append] at hrows
      rw [← hrows]
      exact List.perm_insertionSort _ _

end Collect

end Backfill

end PrivacyWallet
