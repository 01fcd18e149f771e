import Mathlib.Logic.Function.Basic
import PrivacyWallet.Lib.Async
import PrivacyWallet.Lib.CappedLog

/-!
# The log of boundary events

`recordSppBoundaryEvent` reads the whole log of an address, and after another
await writes it back with one more entry. Calls from any number of actions and
tabs run between the two. The log keeps every entry exactly if no call writes
between the read and the write of another one (`boundary_log_keeps_all`).

What a call has in flight is either nothing or a log that was stored before
(`InFlight`). Each write puts that log back with an entry in front, capped at
200. The library's `CappedLog` says what such a history of writes leaves: all
entries, up to the cap, if and only if each of the last 199 writes was made
over the log that stood there. Here the history is the list of puts under the
address, to which steps only add (`suffix_write`); writes under another
address, failures and calls that are cut off leave it (`resume_others`,
`Idb.Kept.error`). `run_kept` is the induction over a run.
-/

namespace PrivacyWallet

namespace Wallet

/-! ## `spp-boundary-log.ts` -/

inductive SppBoundaryEventType where
  | shield
  | unshield
  deriving DecidableEq

/-- What a caller gives: no id and no time. -/
structure NewBoundaryEvent where
  type : SppBoundaryEventType
  amount : String
  hashes : List String
  deriving DecidableEq

structure SppBoundaryEvent extends NewBoundaryEvent where
  id : String
  createdAt : String
  deriving DecidableEq

def maxEntries : Nat := 200

def storageKey (address : String) : String := "privacy-wallet:spp-boundary:" ++ address

/-- The key-value store of the origin, which all tabs share, with the puts of
each key so far, the newest first. -/
structure Idb where
  store : String → Option (List SppBoundaryEvent)
  puts : String → List (Put SppBoundaryEvent)

def Idb.empty : Idb := ⟨fun _ => none, fun _ => []⟩

abbrev IdbOp := ExceptT String (Async Idb)

/-- What a call finds outside the log: whether its two accesses fail, and what
the clock and `Math.random` give. -/
structure RecordOutside where
  getFails : Option String
  setFails : Option String
  nowBase36 : String
  nowIso : String
  random : String

def refusal : Option String → IdbOp Unit
  | none => pure ()
  | some message => throw message

def idbGet (fails : Option String) (key : String) : IdbOp (Option (List SppBoundaryEvent)) := do
  let s ← ExceptT.lift Async.read
  refusal fails
  pure (s.store key)

def Idb.put (s : Idb) (key : String) (value : List SppBoundaryEvent) (entry : SppBoundaryEvent)
    (existing : List SppBoundaryEvent) : Idb where
  store := Function.update s.store key (some value)
  puts := Function.update s.puts key (⟨entry, existing, (s.store key).getD []⟩ :: s.puts key)

/-- A set that fails leaves the store as it was. -/
def idbSet (fails : Option String) (key : String) (value : List SppBoundaryEvent)
    (entry : SppBoundaryEvent) (existing : List SppBoundaryEvent) : IdbOp Unit := do
  refusal fails
  ExceptT.lift (Async.update (·.put key value entry existing))

def newEntry (o : RecordOutside) (event : NewBoundaryEvent) : SppBoundaryEvent :=
  { event with id := s!"{o.nowBase36}-{o.random}", createdAt := o.nowIso }

def recordSppBoundaryEvent (o : RecordOutside) (address : String) (event : NewBoundaryEvent) :
    IdbOp Unit := do
  let key := storageKey address
  let existing := (← idbGet o.getFails key).getD []
  let entry := newEntry o event
  idbSet o.setFails key ((entry :: existing).take maxEntries) entry existing

def listSppBoundaryEvents (fails : Option String) (address : String) :
    IdbOp (List SppBoundaryEvent) := do
  pure ((← idbGet fails (storageKey address)).getD [])

/-! ## Calls among each other -/

/-- What `listSppBoundaryEvents` shows. -/
def Idb.log (s : Idb) (address : String) : List SppBoundaryEvent :=
  (s.store (storageKey address)).getD []

theorem listSppBoundaryEvents_run (s : Idb) (address : String) :
    Async.run (listSppBoundaryEvents none address).run s = (s, .ok (s.log address)) :=
  rfl

structure RecordCall where
  outside : RecordOutside
  address : String
  event : NewBoundaryEvent

def RecordCall.entry (call : RecordCall) : SppBoundaryEvent := newEntry call.outside call.event

/-- The call, which reports whose entry it recorded. -/
def RecordCall.program (call : RecordCall) : Async Idb (Except String RecordCall) := do
  match ← (recordSppBoundaryEvent call.outside call.address call.event).run with
  | .ok () => pure (.ok call)
  | .error message => pure (.error message)

/-- The entries that were recorded for the address, oldest first. -/
def recorded (address : String) (results : List (Except String RecordCall)) :
    List SppBoundaryEvent :=
  results.filterMap fun
    | .ok call => if call.address = address then some call.entry else none
    | .error _ => none

/-- Calls start, make their next access, or are cut off with their tab. -/
def Records {ι : Type} : Act Idb ι (Except String RecordCall) → Prop
  | .start _ p => ∃ call : RecordCall, p = call.program
  | .resume _ => True
  | .abort _ => True
  | .env _ => False

/-! ## One call -/

theorem storageKey_injective : Function.Injective storageKey := by
  intro a b h
  have hlist := congrArg String.toList h
  unfold storageKey at hlist
  rw [String.toList_append, String.toList_append] at hlist
  exact String.toList_injective (List.append_cancel_left hlist)

/-- The write of a call that had read `existing`. -/
def RecordCall.write (call : RecordCall) (existing : List SppBoundaryEvent) (s : Idb) : Idb :=
  s.put (storageKey call.address) ((call.entry :: existing).take maxEntries) call.entry existing

/-- A call after its read. -/
def RecordCall.writing (call : RecordCall) (existing : List SppBoundaryEvent) :
    Async Idb (Except String RecordCall) :=
  .await (fun s => call.write existing s) fun _ => .done (.ok call)

theorem program_cases (call : RecordCall) :
    ∃ rest, call.program = .await id rest ∧ ∀ s,
      rest s = call.writing (s.log call.address) ∨ ∃ message, rest s = .done (.error message) := by
  simp only [RecordCall.program, RecordCall.writing, RecordCall.write, RecordCall.entry,
    recordSppBoundaryEvent, Idb.log]
  -- the texts of the key and of the entry play no part
  generalize newEntry call.outside call.event = entry
  generalize storageKey call.address = key
  generalize call.outside.getFails = getFails
  generalize call.outside.setFails = setFails
  refine ⟨_, rfl, fun s => ?_⟩
  cases getFails with
  | some message => exact .inr ⟨message, rfl⟩
  | none =>
      cases setFails with
      | some message => exact .inr ⟨message, rfl⟩
      | none => exact .inl rfl

/-! ## All calls -/

/-- The log and the entries recorded under an address. -/
structure Idb.Kept (s : Idb) (results : List (Except String RecordCall)) (address : String) :
    Prop where
  log : s.log address = CappedLog.after maxEntries (s.puts (storageKey address))
  puts : CappedLog.Puts maxEntries (s.puts (storageKey address))
  entries : (s.puts (storageKey address)).map (·.entry) = (recorded address results).reverse

/-- What is in flight: a call that has not read yet, or one that has read a log
of before. -/
def InFlight (s : Idb) (p : Async Idb (Except String RecordCall)) : Prop :=
  (∃ call : RecordCall, p = call.program) ∨
    ∃ (call : RecordCall) (past : List (Put SppBoundaryEvent)),
      past <:+ s.puts (storageKey call.address) ∧
        p = call.writing (CappedLog.after maxEntries past)

theorem recorded_append (address : String) (results more : List (Except String RecordCall)) :
    recorded address (results ++ more) = recorded address results ++ recorded address more :=
  List.filterMap_append

section

variable {s : Idb} {results : List (Except String RecordCall)} {call : RecordCall}
  {past : List (Put SppBoundaryEvent)}

theorem write_puts_self (existing : List SppBoundaryEvent) :
    (call.write existing s).puts (storageKey call.address)
      = ⟨call.entry, existing, s.log call.address⟩ :: s.puts (storageKey call.address) := by
  simp only [RecordCall.write, Idb.put, Function.update_self]
  rfl

theorem write_puts_other (existing : List SppBoundaryEvent) {address : String}
    (h : address ≠ call.address) :
    (call.write existing s).puts (storageKey address) = s.puts (storageKey address) := by
  simp [RecordCall.write, Idb.put, storageKey_injective.ne h]

theorem write_log_self (existing : List SppBoundaryEvent) :
    (call.write existing s).log call.address = (call.entry :: existing).take maxEntries := by
  simp [Idb.log, RecordCall.write, Idb.put]

theorem write_log_other (existing : List SppBoundaryEvent) {address : String}
    (h : address ≠ call.address) : (call.write existing s).log address = s.log address := by
  simp [Idb.log, RecordCall.write, Idb.put, storageKey_injective.ne h]

/-- Puts are only added. -/
theorem suffix_write (existing : List SppBoundaryEvent) (address : String) :
    s.puts (storageKey address) <:+ (call.write existing s).puts (storageKey address) := by
  by_cases h : address = call.address
  · rw [h, write_puts_self]
    exact List.suffix_cons _ _
  · rw [write_puts_other _ h]

theorem Idb.Kept.error {address : String} (h : s.Kept results address) (message : String) :
    s.Kept (results ++ [.error message]) address :=
  ⟨h.log, h.puts, by rw [h.entries, recorded_append]; exact congrArg _ (List.append_nil _).symm⟩

/-- A call that writes what it had read, with its entry in front. -/
theorem Idb.Kept.write {address : String} (h : s.Kept results address)
    (hpast : past <:+ s.puts (storageKey call.address)) :
    (call.write (CappedLog.after maxEntries past) s).Kept (results ++ [.ok call]) address := by
  by_cases haddress : address = call.address
  · subst haddress
    have hrecorded : recorded call.address [.ok call] = [call.entry] := by simp [recorded]
    refine ⟨?_, ?_, ?_⟩
    · rw [write_log_self, write_puts_self, CappedLog.after]
    · rw [write_puts_self]
      exact ⟨h.log, ⟨past, hpast, rfl⟩, h.puts⟩
    · rw [write_puts_self, recorded_append, hrecorded, List.reverse_append, List.map_cons,
        h.entries]
      rfl
  · have hrecorded : recorded address [.ok call] = [] := by
      simp [recorded, Ne.symm haddress]
    refine ⟨?_, ?_, ?_⟩
    · rw [write_log_other _ haddress, write_puts_other _ haddress, h.log]
    · rw [write_puts_other _ haddress]
      exact h.puts
    · rw [write_puts_other _ haddress, recorded_append, hrecorded, List.append_nil, h.entries]

end

/-- The next access of a call. -/
theorem resume_kept {s : Idb} {results : List (Except String RecordCall)}
    {p : Async Idb (Except String RecordCall)} (hp : InFlight s p)
    (hkept : ∀ address, s.Kept results address) :
    Sys.Kept (fun s results => ∀ address, s.Kept results address) (InFlight (p.resume s).1)
      results (p.resume s) := by
  rcases hp with ⟨call, rfl⟩ | ⟨call, past, hpast, rfl⟩
  · obtain ⟨rest, hprogram, hrest⟩ := program_cases call
    rw [hprogram, Async.resume]
    rcases hrest s with hwriting | ⟨message, herror⟩
    · rw [hwriting]
      exact ⟨.inr ⟨call, _, List.suffix_refl _, congrArg call.writing (hkept call.address).log⟩,
        hkept⟩
    · rw [herror]
      exact fun address => (hkept address).error message
  · exact fun address => (hkept address).write hpast

/-- The other calls are left as they were. -/
theorem resume_others {s : Idb} {p q : Async Idb (Except String RecordCall)} (hp : InFlight s p)
    (hq : InFlight s q) : InFlight (p.resume s).1 q := by
  rcases hq with hcall | ⟨other, past, hpast, hq⟩
  · exact .inl hcall
  · refine .inr ⟨other, past, hpast.trans ?_, hq⟩
    rcases hp with ⟨call, rfl⟩ | ⟨call, before, -, rfl⟩
    · obtain ⟨rest, hprogram, -⟩ := program_cases call
      rw [hprogram]
      exact List.suffix_refl _
    · exact suffix_write _ _

theorem run_kept {ι : Type} [DecidableEq ι] {acts : List (Act Idb ι (Except String RecordCall))}
    (hacts : ∀ a ∈ acts, Records a) (address : String) :
    (Run.run Sys.exec ⟨Idb.empty, fun _ => none⟩ acts).state.Kept
      (Run.history Sys.exec Sys.returned ⟨Idb.empty, fun _ => none⟩ acts) address := by
  refine @Sys.invariant_coupled Idb ι _ _ (fun s results => ∀ address, s.Kept results address)
    Records InFlight ?_ ?_ ?_ ?_ _ ?_ acts hacts address
  · intro s results p hp hkept
    exact resume_kept hp hkept
  · intro i j _ s results p q _ hp hq
    exact resume_others hp hq
  · rintro i p s results ⟨call, rfl⟩ _
    exact .inl ⟨call, rfl⟩
  · intro f s results hf _
    exact absurd hf id
  · exact fun address => ⟨rfl, True.intro, rfl⟩

/-- The log of an address shows all that was recorded for it, the newest first
and at most 200, if each of the last 199 calls to write found the log that it
had read; if no entry was recorded twice, then only so.

`run_kept` has the puts under the address as a history of writes from copies,
whose entries are what was recorded; the rest is `CappedLog.newest_of_fresh`
and `CappedLog.newest_iff`. -/
theorem boundary_log_keeps_all {ι : Type} [DecidableEq ι]
    (acts : List (Act Idb ι (Except String RecordCall))) (hacts : ∀ a ∈ acts, Records a)
    (address : String) :
    let y := Run.run Sys.exec ⟨Idb.empty, fun _ => none⟩ acts
    let newest := (recorded address
      (Run.history Sys.exec Sys.returned ⟨Idb.empty, fun _ => none⟩ acts)).reverse
    let undisturbed := ∀ put ∈ (y.state.puts (storageKey address)).take (maxEntries - 1),
      put.read = put.found
    (undisturbed → y.state.log address = newest.take maxEntries) ∧
      (newest.Nodup → (y.state.log address = newest.take maxEntries ↔ undisturbed)) := by
  intro y newest undisturbed
  have hkept := run_kept hacts address
  have hentries : (y.state.puts (storageKey address)).map (·.entry) = newest := hkept.entries
  rw [show y.state.log address = _ from hkept.log, ← hentries]
  refine ⟨fun h => ?_, fun hnodup => CappedLog.newest_iff hkept.puts hnodup⟩
  have hnewest := CappedLog.newest_of_fresh hkept.puts le_rfl h
  rwa [CappedLog.take_after] at hnewest

/-! ## Two actions at once -/

/-- A deposit or a withdrawal with the given amount, recorded by its own tab. -/
def recordCall (type : SppBoundaryEventType) (amount : String) : RecordCall where
  outside := ⟨none, none, "mbrc0000", "2026-01-05T10:00:00.000Z", amount⟩
  address := "CCH2EB4POGCUBF5FJ7HTGKUEJDQ2TWIFEE35JOCAEF6RBEXCBHNXF4HK"
  event := ⟨type, amount, []⟩

/-- Both read before either writes. -/
def overlappingCalls : List (Act Idb (Fin 2) (Except String RecordCall)) :=
  [.start 0 (recordCall .shield "100000000").program,
    .start 1 (recordCall .unshield "40000000").program,
    .resume 0, .resume 1, .resume 0, .resume 1]

/-- Of two calls that were both fulfilled, the log has one. -/
theorem overlapping_calls_lose_an_entry :
    let y := Run.run Sys.exec ⟨Idb.empty, fun _ => none⟩ overlappingCalls
    let shield := recordCall .shield "100000000"
    let unshield := recordCall .unshield "40000000"
    (∀ i, y.thread i = none) ∧
      recorded shield.address
          (Run.history Sys.exec Sys.returned ⟨Idb.empty, fun _ => none⟩ overlappingCalls)
        = [shield.entry, unshield.entry] ∧
      y.state.log shield.address = [unshield.entry] := by
  decide +kernel

def callsInTurn : List (Act Idb (Fin 2) (Except String RecordCall)) :=
  [.start 0 (recordCall .shield "100000000").program, .resume 0, .resume 0,
    .start 1 (recordCall .unshield "40000000").program, .resume 1, .resume 1]

theorem callsInTurn_records : ∀ a ∈ callsInTurn, Records a := by
  simp only [callsInTurn, List.forall_mem_cons]
  exact ⟨⟨_, rfl⟩, True.intro, True.intro, ⟨_, rfl⟩, True.intro, True.intro, by simp⟩

theorem boundary_log_keeps_all_in_turn :
    (Run.run Sys.exec ⟨Idb.empty, fun _ => none⟩ callsInTurn).state.log
        (recordCall .shield "100000000").address
      = [(recordCall .unshield "40000000").entry, (recordCall .shield "100000000").entry] := by
  have hlog := (boundary_log_keeps_all callsInTurn callsInTurn_records
    (recordCall .shield "100000000").address).1 (by decide +kernel)
  exact hlog.trans (by decide +kernel)

end Wallet

end PrivacyWallet
