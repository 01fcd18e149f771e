import PrivacyWallet.Indexer.Database
import PrivacyWallet.Lib.Checks

/-!
# From contract events to account activity

`normalizeCtEvent` turns an event of the confidential token into the rows
of its activity feed. It throws on a malformed event. What it uses of the
Stellar SDK is collected in `StellarSdk`; a thrown value is its message.
-/

namespace PrivacyWallet

namespace Indexer

/-- An event as a source delivers it. -/
structure RawEvent where
  id : String
  contractId : String
  ledger : Nat
  ledgerClosedAt : Int
  txHash : String
  txIndex : Nat
  opIndex : Nat
  eventIndex : Nat
  /-- Each topic's XDR, base64-encoded -/
  topic : List String
  valueXdr : String
  inSuccessfulCall : Bool
deriving DecidableEq

/-- The SDK's XDR values and what it does with them. An accessor throws on
a value of another arm. -/
structure StellarSdk (ScVal : Type) where
  /-- `xdr.ScVal.fromXDR(text, "base64")` -/
  fromXDR : String → Except String ScVal
  /-- `v.switch().name` -/
  switchName : ScVal → String
  /-- `v.sym().toString()` -/
  sym : ScVal → Except String String
  /-- `v.bytes()` -/
  bytes : ScVal → Except String (List UInt8)
  /-- `v.map()`, which may be null -/
  map : ScVal → Except String (Option (List (ScVal × ScVal)))
  /-- `Address.fromScVal(v).toString()`, where `v` may be undefined -/
  address : Option ScVal → Except String String
  /-- `String(scValToNative(v) as bigint)` -/
  bigintText : ScVal → Except String String

variable {V : Type} (sdk : StellarSdk V)

/-- `MAPPED_TOPICS` -/
def mappedTopics : List String := ["register", "deposit", "merge", "withdraw", "transfer"]

def hexByte (b : UInt8) : String :=
  String.ofList [Nat.digitChar (b.toNat / 16), Nat.digitChar (b.toNat % 16)]

def hexBytes (val : V) : Except String String := do
  let bytes ← sdk.bytes val
  pure ("0x" ++ String.join (bytes.map hexByte))

/-- The event's data by field name; the last of two equal names counts. -/
abbrev DataMap (V : Type) : Type := String → Option V

def dataMapOf (value : V) : Except String (DataMap V) := do
  let entries ← sdk.map value
  (entries.getD []).foldlM (fun data entry => do
    let key ← sdk.sym entry.1
    pure (Function.update data key (some entry.2))) fun _ => none

def requireField (data : DataMap V) (name : String) : Except String V :=
  match data name with
  | some v => .ok v
  | none => .error s!"normalizeCtEvent: event data missing field \"{name}\""

structure RowSeed where
  account : String
  type : String
  counterparty : String
  amount : Option String := none
  ciphertexts : Option (List (String × String)) := none

def toRow (raw : RawEvent) (seed : RowSeed) : NewCtActivityRow where
  account := seed.account
  type := seed.type
  counterparty := seed.counterparty
  amount := seed.amount
  ledger := raw.ledger
  txHash := raw.txHash
  eventId := raw.id
  ciphertexts := seed.ciphertexts.getD []

/-- A field of the data, hex-encoded under the name the row gives it. -/
def cipherField (data : DataMap V) (field : String × String) :
    Except String (String × String) := do
  let v ← requireField data field.2
  let hex ← hexBytes sdk v
  pure (field.1, hex)

def withdrawFields : List (String × String) :=
  [("rE", "r_e"), ("sigma", "sigma"), ("bTilde", "b_tilde"), ("bAudS", "b_aud_s")]

def transferFields : List (String × String) :=
  [("rE", "r_e"), ("vTilde", "v_tilde"), ("sigma", "sigma"), ("bTilde", "b_tilde"),
    ("vAudR", "v_aud_r"), ("rAudR", "r_aud_r"), ("vAudS", "v_aud_s"), ("bAudS", "b_aud_s")]

/-- `amount`, as decimal text -/
def amountOf (data : DataMap V) : Except String String := do
  let v ← requireField data "amount"
  sdk.bigintText v

/-- The two sides' rows; one row if both sides are the same account. -/
def bothSides (raw : RawEvent) (type : String) (src dst : String)
    (amount : Option String) (ciphertexts : Option (List (String × String))) :
    List NewCtActivityRow :=
  toRow raw ⟨src, type, dst, amount, ciphertexts⟩ ::
    if dst ≠ src then [toRow raw ⟨dst, type, src, amount, ciphertexts⟩] else []

/-- The `switch` over the event's name. -/
def rowsOf (raw : RawEvent) (topics : List V) (data : DataMap V) :
    String → Except String (Option (List NewCtActivityRow))
  | "register" => do
      let account ← sdk.address topics[1]?
      pure (some [toRow raw { account, type := "register", counterparty := account }])
  | "merge" => do
      let account ← sdk.address topics[1]?
      pure (some [toRow raw { account, type := "merge", counterparty := account }])
  | "deposit" => do
      let src ← sdk.address topics[1]?
      let dst ← sdk.address topics[2]?
      let amount ← amountOf sdk data
      pure (some (bothSides raw "deposit" src dst (some amount) none))
  | "withdraw" => do
      let src ← sdk.address topics[1]?
      let dst ← sdk.address topics[2]?
      let amount ← amountOf sdk data
      let ciphertexts ← withdrawFields.mapM (cipherField sdk data)
      pure (some [toRow raw ⟨src, "withdraw", dst, some amount, some ciphertexts⟩])
  | "transfer" => do
      let src ← sdk.address topics[1]?
      let dst ← sdk.address topics[2]?
      let ciphertexts ← transferFields.mapM (cipherField sdk data)
      pure (some (bothSides raw "transfer" src dst none (some ciphertexts)))
  | _ => pure none

def normalizeCtEvent (raw : RawEvent) (tokenId : String) :
    Except String (Option (List NewCtActivityRow)) :=
  if raw.contractId ≠ tokenId then pure none
  else if raw.topic.length = 0 then pure none
  else do
    let topics ← raw.topic.mapM sdk.fromXDR
    match topics with
    | [] => pure none
    | nameScVal :: _ =>
        if sdk.switchName nameScVal ≠ "scvSymbol" then pure none
        else do
          let name ← sdk.sym nameScVal
          if name ∉ mappedTopics then pure none
          else do
            let value ← sdk.fromXDR raw.valueXdr
            let data ← dataMapOf sdk value
            rowsOf sdk raw topics data name

/-! ## Every row names its event -/

variable {sdk}

theorem bothSides_eventId {raw : RawEvent} {type src dst : String}
    {amount : Option String} {ciphertexts : Option (List (String × String))} :
    ∀ r ∈ bothSides raw type src dst amount ciphertexts, r.eventId = raw.id := by
  intro r hr
  rw [bothSides, List.mem_cons] at hr
  rcases hr with rfl | hr
  · rfl
  · split at hr
    · rw [List.mem_singleton] at hr
      subst hr
      rfl
    · cases hr

theorem rowsOf_eventId {raw : RawEvent} {topics : List V} {data : DataMap V}
    {name : String} {rows : List NewCtActivityRow}
    (h : rowsOf sdk raw topics data name = .ok (some rows)) :
    ∀ r ∈ rows, r.eventId = raw.id := by
  have hsingle : ∀ {seed : RowSeed}, ∀ r ∈ [toRow raw seed], r.eventId = raw.id := by
    intro seed r hr
    rw [List.mem_singleton] at hr
    subst hr
    rfl
  unfold rowsOf at h
  split at h
  · obtain ⟨account, -, h⟩ := Checks.bind_ok.mp h
    cases h
    exact hsingle
  · obtain ⟨account, -, h⟩ := Checks.bind_ok.mp h
    cases h
    exact hsingle
  · obtain ⟨src, -, h⟩ := Checks.bind_ok.mp h
    obtain ⟨dst, -, h⟩ := Checks.bind_ok.mp h
    obtain ⟨amount, -, h⟩ := Checks.bind_ok.mp h
    cases h
    exact bothSides_eventId
  · obtain ⟨src, -, h⟩ := Checks.bind_ok.mp h
    obtain ⟨dst, -, h⟩ := Checks.bind_ok.mp h
    obtain ⟨amount, -, h⟩ := Checks.bind_ok.mp h
    obtain ⟨ciphertexts, -, h⟩ := Checks.bind_ok.mp h
    cases h
    exact hsingle
  · obtain ⟨src, -, h⟩ := Checks.bind_ok.mp h
    obtain ⟨dst, -, h⟩ := Checks.bind_ok.mp h
    obtain ⟨ciphertexts, -, h⟩ := Checks.bind_ok.mp h
    cases h
    exact bothSides_eventId
  · cases h

theorem normalizeCtEvent_eventId {raw : RawEvent} {tokenId : String}
    {rows : List NewCtActivityRow}
    (h : normalizeCtEvent sdk raw tokenId = .ok (some rows)) :
    ∀ r ∈ rows, r.eventId = raw.id := by
  unfold normalizeCtEvent at h
  split at h
  · cases h
  split at h
  · cases h
  obtain ⟨topics, -, h⟩ := Checks.bind_ok.mp h
  split at h
  · cases h
  split at h
  · cases h
  obtain ⟨name, -, h⟩ := Checks.bind_ok.mp h
  split at h
  · cases h
  obtain ⟨value, -, h⟩ := Checks.bind_ok.mp h
  obtain ⟨data, -, h⟩ := Checks.bind_ok.mp h
  exact rowsOf_eventId h

/-! ## One `merge` event -/

/-- The XDR values of a `merge` event. -/
inductive MergeVal where
  | name
  | account
  | data

/-- The SDK on the XDR of one `merge` event. -/
def mergeSdk : StellarSdk MergeVal where
  fromXDR text :=
    if text = "AAAADwAAAAVtZXJnZQAAAA==" then .ok .name
    else if text = "AAAAEgAAAAFXpY8SJzWUqk+Rp2uKPB2JP4CkaB40CwTEYB7y1m8lJQ==" then
      .ok .account
    else if text = "AAAAEQAAAAEAAAAA" then .ok .data
    else .error "XDR Read Error"
  switchName
    | .name => "scvSymbol"
    | .account => "scvAddress"
    | .data => "scvMap"
  sym
    | .name => .ok "merge"
    | _ => .error "sym not set"
  bytes _ := .error "bytes not set"
  map
    | .data => .ok (some [])
    | _ => .error "map not set"
  address
    | some .account => .ok "CBL2LDYSE42ZJKSPSGTWXCR4DWET7AFENAPDICYEYRQB54WWN4SSK7II"
    | _ => .error "Unsupported address type"
  bigintText _ := .error "not a bigint"

def mergeToken : String := "CBTEJFLW25UXIDAIWJ3KUJGI5CE2YLHM5GQM2VFU7JQZS53HE3HKGCLH"

def mergeEvent : RawEvent where
  id := "3900644-d96246f5f752c23c32241049d3a7c27fc39dcb74e7df0840fce28ae42a0ff2a1-0-0"
  contractId := mergeToken
  ledger := 3900644
  ledgerClosedAt := 1785522610000
  txHash := "d96246f5f752c23c32241049d3a7c27fc39dcb74e7df0840fce28ae42a0ff2a1"
  txIndex := 18
  opIndex := 0
  eventIndex := 0
  topic := ["AAAADwAAAAVtZXJnZQAAAA==",
    "AAAAEgAAAAFXpY8SJzWUqk+Rp2uKPB2JP4CkaB40CwTEYB7y1m8lJQ=="]
  valueXdr := "AAAAEQAAAAEAAAAA"
  inSuccessfulCall := true

example : normalizeCtEvent mergeSdk mergeEvent mergeToken = .ok (some [{
    account := "CBL2LDYSE42ZJKSPSGTWXCR4DWET7AFENAPDICYEYRQB54WWN4SSK7II"
    type := "merge"
    counterparty := "CBL2LDYSE42ZJKSPSGTWXCR4DWET7AFENAPDICYEYRQB54WWN4SSK7II"
    amount := none
    ledger := 3900644
    txHash := "d96246f5f752c23c32241049d3a7c27fc39dcb74e7df0840fce28ae42a0ff2a1"
    eventId := "3900644-d96246f5f752c23c32241049d3a7c27fc39dcb74e7df0840fce28ae42a0ff2a1-0-0"
    ciphertexts := [] }]) := by
  rfl

end Indexer

end PrivacyWallet
