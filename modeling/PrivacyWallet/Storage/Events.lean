import PrivacyWallet.Circuits.Templates

/-!
# Events of the local state

`parse_event` of the state crate: the name is the first topic, a symbol, and
the other values come from the next topic or from the fields of the data. The
XDR decoder is not part of the repository; `ScValSdk` has what is used of it.
-/

namespace PrivacyWallet

namespace Storage

open Circuits

/-- `ContractEvent` -/
structure ContractEvent where
  id : String
  ledger : Nat
  contractId : String
  topics : List String
  value : String
deriving DecidableEq

structure NewNullifierEvent where
  id : String
  nullifier : Fr
deriving DecidableEq

structure NewCommitmentEvent where
  id : String
  commitment : Fr
  index : Nat
  encryptedOutput : List UInt8
deriving DecidableEq

/-- Both keys are 32 bytes. -/
structure PublicKeyEvent where
  id : String
  owner : String
  encryptionKey : List UInt8
  noteKey : List UInt8
deriving DecidableEq

structure LeafAddedEvent where
  id : String
  leaf : Fr
  index : Nat
  root : Fr
deriving DecidableEq

/-- `other` are the events of the blocklist, which no table holds. -/
inductive ProcessedEvent where
  | nullifier (ev : NewNullifierEvent)
  | commitment (ev : NewCommitmentEvent)
  | publicKey (ev : PublicKeyEvent)
  | leafAdded (ev : LeafAddedEvent)
  | other (id : String)
deriving DecidableEq

def ProcessedEvent.id : ProcessedEvent → String
  | .nullifier ev => ev.id
  | .commitment ev => ev.id
  | .publicKey ev => ev.id
  | .leafAdded ev => ev.id
  | .other id => id

/-! ## Values -/

/-- What is used of the decoder. -/
structure ScValSdk (V : Type) where
  fromXdrBase64 : String → Option V
  /-- the text of a symbol -/
  symbol : V → Option String
  /-- the entries of a map -/
  map : V → Option (List (V × V))
  isVoid : V → Bool
  toU256 : V → Option U256
  toU32 : V → Option UInt32
  toU64 : V → Option UInt64
  toBytes : V → Option (List UInt8)
  toAddressString : V → Option String

variable {V : Type} (sdk : ScValSdk V)

structure ParsedContractEvent (V : Type) where
  id : String
  name : String
  topics : List V
  values : List (String × V)

/-- The field names of a map are symbols. -/
def fieldNames (entries : List (V × V)) : Option (List (String × V)) :=
  entries.mapM fun entry => (sdk.symbol entry.1).map (·, entry.2)

/-- The data is a map, or nothing. -/
def fieldsOf (data : V) : Option (List (String × V)) :=
  match sdk.map data with
  | some entries => fieldNames sdk entries
  | none => if sdk.isVoid data then some [] else none

/-- `parse_event_metadata` -/
def parseEventMetadata (event : ContractEvent) : Option (ParsedContractEvent V) :=
  match event.topics with
  | [] => none
  | first :: rest => do
      let topics ← rest.mapM sdk.fromXdrBase64
      let name ← sdk.symbol (← sdk.fromXdrBase64 first)
      let values ← fieldsOf sdk (← sdk.fromXdrBase64 event.value)
      some { id := event.id, name, topics, values }

namespace ParsedContractEvent

variable (parsed : ParsedContractEvent V)

/-- `values.get(name)`; of two fields of one name the later one is kept. -/
def get (name : String) : Option V := parsed.values.reverse.lookup name

/-- `Field::try_from_u256` -/
def fieldOf (value : V) : Option Fr := do
  let v ← sdk.toU256 value
  if h : v.val < bn256Modulus.val then some ⟨v.val, h⟩ else none

def getField (name : String) : Option Fr := do fieldOf sdk (← parsed.get name)

/-- The bytes of a key. -/
def getKey (name : String) : Option (List UInt8) := do
  let bytes ← sdk.toBytes (← parsed.get name)
  if bytes.length = 32 then some bytes else none

end ParsedContractEvent

/-! ## `parse_event` -/

variable (parsed : ParsedContractEvent V)

def parseNewNullifierEvent : Option NewNullifierEvent := do
  let nullifier ← ParsedContractEvent.fieldOf sdk (← parsed.topics.head?)
  some { id := parsed.id, nullifier }

def parseNewCommitmentEvent : Option NewCommitmentEvent := do
  let commitment ← ParsedContractEvent.fieldOf sdk (← parsed.topics.head?)
  let index ← sdk.toU32 (← parsed.get "index")
  let encryptedOutput ← sdk.toBytes (← parsed.get "encrypted_output")
  some { id := parsed.id, commitment, index := index.toNat, encryptedOutput }

def parsePublicKeyEvent : Option PublicKeyEvent := do
  let owner ← sdk.toAddressString (← parsed.topics.head?)
  let encryptionKey ← parsed.getKey sdk "encryption_key"
  let noteKey ← parsed.getKey sdk "note_key"
  some { id := parsed.id, owner, encryptionKey, noteKey }

def parseLeafAdded : Option LeafAddedEvent := do
  let leaf ← parsed.getField sdk "leaf"
  let index ← sdk.toU64 (← parsed.get "index")
  let root ← parsed.getField sdk "root"
  if index.toNat < 2 ^ 32 then some { id := parsed.id, leaf, index := index.toNat, root } else none

/-- `parse_leaf_inserted`, `parse_leaf_updated` and `parse_leaf_deleted` -/
def parseFields (names : List String) : Option String := do
  let _ ← names.mapM (parsed.getField sdk)
  some parsed.id

def parseEvent (event : ContractEvent) : Option ProcessedEvent := do
  let parsed ← parseEventMetadata sdk event
  match parsed.name with
  | "new_nullifier_event" | "NewNullifierEvent" =>
      (parseNewNullifierEvent sdk parsed).map .nullifier
  | "new_commitment_event" | "NewCommitmentEvent" =>
      (parseNewCommitmentEvent sdk parsed).map .commitment
  | "public_key_event" | "PublicKeyEvent" => (parsePublicKeyEvent sdk parsed).map .publicKey
  | "leaf_added" | "LeafAdded" => (parseLeafAdded sdk parsed).map .leafAdded
  | "leaf_inserted" | "LeafInserted" => (parseFields sdk parsed ["key", "value", "root"]).map .other
  | "leaf_updated" | "LeafUpdated" =>
      (parseFields sdk parsed ["key", "old_value", "new_value", "root"]).map .other
  | "leaf_deleted" | "LeafDeleted" => (parseFields sdk parsed ["key", "root"]).map .other
  | _ => none

section Ids

variable {sdk} {parsed : ParsedContractEvent V}

theorem parseEventMetadata_id {event : ContractEvent}
    (h : parseEventMetadata sdk event = some parsed) : parsed.id = event.id := by
  unfold parseEventMetadata at h
  split at h
  · cases h
  · simp only [Option.bind_eq_bind, Option.bind_eq_some_iff] at h
    obtain ⟨_, -, _, -, _, -, _, -, _, -, h⟩ := h
    cases h
    rfl

theorem parseNewNullifierEvent_id {ev : NewNullifierEvent}
    (h : parseNewNullifierEvent sdk parsed = some ev) : ev.id = parsed.id := by
  simp only [parseNewNullifierEvent, Option.bind_eq_bind, Option.bind_eq_some_iff] at h
  obtain ⟨_, -, _, -, h⟩ := h
  cases h
  rfl

theorem parseNewCommitmentEvent_id {ev : NewCommitmentEvent}
    (h : parseNewCommitmentEvent sdk parsed = some ev) : ev.id = parsed.id := by
  simp only [parseNewCommitmentEvent, Option.bind_eq_bind, Option.bind_eq_some_iff] at h
  obtain ⟨_, -, _, -, _, -, _, -, _, -, _, -, h⟩ := h
  cases h
  rfl

theorem parsePublicKeyEvent_id {ev : PublicKeyEvent}
    (h : parsePublicKeyEvent sdk parsed = some ev) : ev.id = parsed.id := by
  simp only [parsePublicKeyEvent, Option.bind_eq_bind, Option.bind_eq_some_iff] at h
  obtain ⟨_, -, _, -, _, -, _, -, h⟩ := h
  cases h
  rfl

theorem parseLeafAdded_id {ev : LeafAddedEvent} (h : parseLeafAdded sdk parsed = some ev) :
    ev.id = parsed.id := by
  simp only [parseLeafAdded, Option.bind_eq_bind, Option.bind_eq_some_iff] at h
  obtain ⟨_, -, _, -, _, -, _, -, h⟩ := h
  split at h
  · cases h
    rfl
  · cases h

theorem parseFields_id {names : List String} {id : String}
    (h : parseFields sdk parsed names = some id) : id = parsed.id := by
  obtain ⟨_, -, h⟩ := Option.bind_eq_some_iff.mp h
  exact (Option.some.inj h).symm

/-- A parsed event keeps its id. -/
theorem parseEvent_id {event : ContractEvent} {ev : ProcessedEvent}
    (h : parseEvent sdk event = some ev) : ev.id = event.id := by
  obtain ⟨parsed, hparsed, h⟩ := Option.bind_eq_some_iff.mp h
  rw [← parseEventMetadata_id hparsed]
  split at h <;> first | cases h | skip
  all_goals
    obtain ⟨_, hev, rfl⟩ := Option.map_eq_some_iff.mp h
    first
      | exact parseNewNullifierEvent_id hev
      | exact parseNewCommitmentEvent_id hev
      | exact parsePublicKeyEvent_id hev
      | exact parseLeafAdded_id hev
      | exact parseFields_id hev

end Ids

end Storage

end PrivacyWallet
