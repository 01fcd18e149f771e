import PrivacyWallet.Api.Routes

/-!
# Confidential events

The events of the confidential token as the client knows them, and the one
mapping from names, topics and data to them that both decoders use. A row of
the API and an event of the RPC carry the same XDR; a decoder throws on a
malformed event and skips one whose name is unknown.
-/

namespace PrivacyWallet

namespace Wallet

open Indexer

/-! ## Events -/

inductive ComplianceEventType where
  | frozen
  | unfrozen
  | userAllowed
  | userDisallowed
  | userBlocked
  | userUnblocked
deriving DecidableEq

/-- What an event says, by its type. `Point` is the curve's. -/
inductive EventBody (Point : Type) where
  | register (account : String) (auditorId : Nat)
  | deposit (src dst : String) (amount : Int)
  | merge (account : String)
  | withdraw (src dst : String) (amount : Int) (rE : Point) (sigma bTilde bAudS : Nat)
  | transfer (src dst : String) (rE : Point)
      (vTilde sigma bTilde vAudR rAudR vAudS bAudS : Nat)
  | compliance (type : ComplianceEventType) (account : String)
deriving DecidableEq

/-- `cursor` is the natural id of the event, from whatever source. -/
structure ConfidentialEvent (Point : Type) where
  ledger : Nat
  txHash : String
  cursor : String
  body : EventBody Point
deriving DecidableEq

def known : List String :=
  ["register", "deposit", "merge", "withdraw", "transfer", "frozen", "unfrozen", "user_allowed",
    "user_disallowed", "user_blocked", "user_unblocked"]

/-! ## The mapping -/

/-- The SDK's values, with what the client decodes them to. -/
structure EventSdk (V Point : Type) extends StellarSdk V where
  /-- `scValToNative(v) as bigint` -/
  i128 : V → Except String Int
  /-- `v.u32()` -/
  u32 : V → Except String Nat
  /-- `pointFromBytes(bytes)` -/
  pointFromBytes : List UInt8 → Except String Point

variable {V Point : Type} (sdk : EventSdk V Point)

/-- Decode a big-endian byte slice. -/
def fromBytesBE (bytes : List UInt8) : Nat := bytes.foldl (fun v byte => v * 256 + byte.toNat) 0

/-- The accessor over an event's data: each throws if the field is missing. -/
structure EventDataAccessor (Point : Type) where
  field : String → Except String Nat
  point : String → Except String Point
  i128 : String → Except String Int
  u32 : String → Except String Nat

def getField (data : DataMap V) (name : String) : Except String V :=
  match data name with
  | some v => .ok v
  | none => .error s!"event data missing field \"{name}\""

def accessor (data : DataMap V) : EventDataAccessor Point where
  field name := do
    let v ← getField data name
    let bytes ← sdk.bytes v
    pure (fromBytesBE bytes)
  point name := do
    let v ← getField data name
    let bytes ← sdk.bytes v
    sdk.pointFromBytes bytes
  i128 name := do
    let v ← getField data name
    sdk.i128 v
  u32 name := do
    let v ← getField data name
    sdk.u32 v

def buildBody (addr : Nat → Except String String) (data : EventDataAccessor Point) :
    String → Except String (Option (EventBody Point))
  | "register" => do
      let account ← addr 1
      let auditorId ← data.u32 "auditor_id"
      pure (some (.register account auditorId))
  | "deposit" => do
      let src ← addr 1
      let dst ← addr 2
      let amount ← data.i128 "amount"
      pure (some (.deposit src dst amount))
  | "merge" => do
      let account ← addr 1
      pure (some (.merge account))
  | "withdraw" => do
      let src ← addr 1
      let dst ← addr 2
      let amount ← data.i128 "amount"
      let rE ← data.point "r_e"
      let sigma ← data.field "sigma"
      let bTilde ← data.field "b_tilde"
      let bAudS ← data.field "b_aud_s"
      pure (some (.withdraw src dst amount rE sigma bTilde bAudS))
  | "transfer" => do
      let src ← addr 1
      let dst ← addr 2
      let rE ← data.point "r_e"
      let vTilde ← data.field "v_tilde"
      let sigma ← data.field "sigma"
      let bTilde ← data.field "b_tilde"
      let vAudR ← data.field "v_aud_r"
      let rAudR ← data.field "r_aud_r"
      let vAudS ← data.field "v_aud_s"
      let bAudS ← data.field "b_aud_s"
      pure (some (.transfer src dst rE vTilde sigma bTilde vAudR rAudR vAudS bAudS))
  | "frozen" => compliance .frozen
  | "unfrozen" => compliance .unfrozen
  | "user_allowed" => compliance .userAllowed
  | "user_disallowed" => compliance .userDisallowed
  | "user_blocked" => compliance .userBlocked
  | "user_unblocked" => compliance .userUnblocked
  | _ => pure none
where
  /-- These share one shape: an account and no data. -/
  compliance (type : ComplianceEventType) : Except String (Option (EventBody Point)) := do
    let account ← addr 1
    pure (some (.compliance type account))

/-- `buildConfidentialEvent`, over decoded topics and value. -/
def buildConfidentialEvent (name : String) (ledger : Nat) (txHash cursor : String)
    (topics : List V) (data : DataMap V) : Except String (Option (ConfidentialEvent Point)) := do
  let body ← buildBody (fun i => sdk.address topics[i]?) (accessor sdk data) name
  pure (body.map fun body => ⟨ledger, txHash, cursor, body⟩)

/-! ## The decoders -/

/-- A row of the API. Its id is the natural id already. -/
def parseApiEvent (row : Api.EventItem) : Except String (Option (ConfidentialEvent Point)) :=
  if row.topic.length = 0 then pure none
  else do
    let topics ← row.topic.mapM sdk.fromXDR
    match topics with
    | [] => pure none
    | nameVal :: _ =>
        if sdk.switchName nameVal ≠ "scvSymbol" then pure none
        else do
          let name ← sdk.sym nameVal
          if name ∉ known then pure none
          else do
            let value ← sdk.fromXDR row.value
            let data ← dataMapOf sdk.toStellarSdk value
            buildConfidentialEvent sdk name row.ledger row.txHash row.id topics data

/-- The rows of a page, in order. The first one that throws fails the page. -/
def parsePage (rows : List Api.EventItem) : Except String (List (ConfidentialEvent Point)) := do
  let parsed ← rows.mapM (parseApiEvent sdk)
  pure (parsed.filterMap id)

/-! ## Decoding a list -/

/-- Decode records one by one, and keep what is an event. -/
def collect {α β : Type} (decode : α → Except String (Option β)) (l : List α) :
    Except String (List β) := do
  let parsed ← l.mapM decode
  pure (parsed.filterMap id)

section Collect

variable {α β : Type} {decode decode' : α → Except String (Option β)}

theorem collect_cons (a : α) (l : List α) :
    collect decode (a :: l)
      = (decode a >>= fun found => collect decode l >>= fun rest =>
          pure (found.toList ++ rest)) := by
  unfold collect
  rw [List.mapM_cons]
  cases decode a with
  | error message => rfl
  | ok found =>
      cases l.mapM decode with
      | error message => rfl
      | ok parsed =>
          cases found with
          | none => rfl
          | some b => rfl

theorem collect_congr {l : List α} (h : ∀ a ∈ l, decode a = decode' a) :
    collect decode l = collect decode' l := by
  induction l with
  | nil => rfl
  | cons a l ih =>
      rw [collect_cons, collect_cons, h a List.mem_cons_self,
        ih fun a' ha' => h a' (List.mem_cons_of_mem _ ha')]

theorem mem_collect {l : List α} {found : List β} (h : collect decode l = .ok found) (b : β) :
    b ∈ found ↔ ∃ a ∈ l, decode a = .ok (some b) := by
  induction l generalizing found with
  | nil =>
      cases h
      simp
  | cons a l ih =>
      rw [collect_cons] at h
      obtain ⟨first, hfirst, h⟩ := Checks.bind_ok.mp h
      obtain ⟨rest, hrest, h⟩ := Checks.bind_ok.mp h
      cases h
      simp only [List.mem_append, ih hrest, Option.mem_toList, List.mem_cons,
        exists_eq_or_imp, hfirst, Except.ok.injEq]

theorem collect_throws {l : List α} {a : α} {message : String} (ha : a ∈ l)
    (h : decode a = .error message) : ∃ message', collect decode l = .error message' := by
  induction l with
  | nil => cases ha
  | cons a' l ih =>
      rw [collect_cons]
      cases ha' : decode a' with
      | error message' => exact ⟨message', rfl⟩
      | ok found =>
          rcases List.mem_cons.mp ha with rfl | ha
          · rw [h] at ha'
            cases ha'
          · obtain ⟨message', hrest⟩ := ih ha
            rw [hrest]
            exact ⟨message', rfl⟩

theorem collect_error {l : List α} {message : String} (h : collect decode l = .error message) :
    ∃ a ∈ l, decode a = .error message := by
  induction l with
  | nil => cases h
  | cons a l ih =>
      rw [collect_cons] at h
      cases ha : decode a with
      | error message' =>
          rw [ha] at h
          cases h
          exact ⟨a, List.mem_cons_self, ha⟩
      | ok found =>
          rw [ha] at h
          cases hrest : collect decode l with
          | error message' =>
              rw [hrest] at h
              cases h
              obtain ⟨a', ha', herror⟩ := ih hrest
              exact ⟨a', List.mem_cons_of_mem _ ha', herror⟩
          | ok rest =>
              rw [hrest] at h
              cases h

end Collect

/-! ## What a page decodes to -/

/-- The event that a row decodes to, if it does. -/
def eventOf (row : Api.EventItem) : Option (ConfidentialEvent Point) :=
  match parseApiEvent sdk row with
  | .ok event => event
  | .error _ => none

variable {sdk}

theorem parsePage_eq_collect (rows : List Api.EventItem) :
    parsePage sdk rows = collect (parseApiEvent sdk) rows := rfl

theorem parsePage_eq {rows : List Api.EventItem} {events : List (ConfidentialEvent Point)}
    (h : parsePage sdk rows = .ok events) : events = rows.filterMap (eventOf sdk) := by
  rw [parsePage_eq_collect] at h
  induction rows generalizing events with
  | nil =>
      cases h
      rfl
  | cons row rows ih =>
      rw [collect_cons] at h
      obtain ⟨event, hevent, h⟩ := Checks.bind_ok.mp h
      obtain ⟨rest, hrest, h⟩ := Checks.bind_ok.mp h
      cases h
      have hrow : eventOf sdk row = event := by rw [eventOf, hevent]
      rw [ih hrest]
      cases event with
      | none => exact (List.filterMap_cons_none hrow).symm
      | some event => exact (List.filterMap_cons_some hrow).symm

/-- A decoded event carries its row's ledger and id. -/
theorem eventOf_eq {row : Api.EventItem} {event : ConfidentialEvent Point}
    (h : eventOf sdk row = some event) : event.ledger = row.ledger ∧ event.cursor = row.id := by
  unfold eventOf at h
  cases hparse : parseApiEvent sdk row with
  | error e =>
      rw [hparse] at h
      cases h
  | ok parsed =>
      rw [hparse] at h
      subst h
      unfold parseApiEvent at hparse
      split at hparse
      · cases hparse
      · obtain ⟨topics, -, hparse⟩ := Checks.bind_ok.mp hparse
        cases topics with
        | nil => cases hparse
        | cons nameVal topics =>
            dsimp only at hparse
            split at hparse
            · cases hparse
            · obtain ⟨name, -, hparse⟩ := Checks.bind_ok.mp hparse
              split at hparse
              · cases hparse
              · obtain ⟨value, -, hparse⟩ := Checks.bind_ok.mp hparse
                obtain ⟨data, -, hparse⟩ := Checks.bind_ok.mp hparse
                obtain ⟨body, -, hparse⟩ := Checks.bind_ok.mp hparse
                cases body with
                | none => cases hparse
                | some body =>
                    cases hparse
                    exact ⟨rfl, rfl⟩

theorem cursor_of_parsed {row : Api.EventItem} {event : ConfidentialEvent Point}
    (h : parseApiEvent sdk row = .ok (some event)) : event.cursor = row.id := by
  have hevent : eventOf sdk row = some event := by rw [eventOf, h]
  exact (eventOf_eq hevent).2

end Wallet

end PrivacyWallet
