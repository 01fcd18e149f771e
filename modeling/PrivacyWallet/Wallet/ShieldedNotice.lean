import PrivacyWallet.Lib.Run
import PrivacyWallet.Wallet.BoundaryLog
import PrivacyWallet.Wallet.Format

/-!
# The notice of the shielded page

A run of an action awaits the SDK, then the boundary log, then a refresh, and
writes one notice at its end; refreshes of their own run beside it. The notice
stands for what the SDK said of the run that was started last, unless a step of
the run was one of those that `Clean` excludes (`outcome_stands`).

The last run is followed through its stages: what is known of it at each one
is `HeldAt` - nothing before the answer, then the outcome it will show, and
at its end the notice. `Consistent` says so of a page, whichever other
functions are in flight. A step either moves the last run to its next stage,
or is about another function:

- the answer of the SDK fixes the outcome (`Consistent.sdkSettled`), which
  reports it unless hashes were lost (`reportedBy_ownNotice_iff`);
- the boundary log leaves the outcome alone if it takes its entry
  (`Consistent.logSettled`);
- the refresh at the end writes it (`Consistent.rereadSettled`);
- an older run or a refresh of its own writes the same slot, and does no harm
  before that end (`Consistent.drop`, `Consistent.readingSettled`).

A clean step is one of these, so `Consistent.step` holds of it, and
`outcome_stands` is the induction over the events. `outcome_masked` has runs
with a step that is not clean.
-/

namespace PrivacyWallet

namespace Wallet

open Text

inductive Action where
  | shield
  | send
  | unshield
  | register
  deriving DecidableEq

def actionLabel : Action → String
  | .shield => "Shielding"
  | .send => "Shielded send"
  | .unshield => "Unshielding"
  | .register => "Enabling receiving"

inductive NoticeKind where
  | ok
  | warn
  | error
  deriving DecidableEq

structure Notice where
  kind : NoticeKind
  text : String
  hashes : Option (List String)
  deriving DecidableEq

inductive SppExecuteResult where
  | ok (hashes : List String)
  | failed (hashes : List String) (message : String) (code : Option Int)
  | aspNotReady
  deriving DecidableEq

/-! ## What is said of a result -/

def sppPoolErrors : Nat → Option String
  | 1 => some "Not authorized to perform this shielded operation."
  | 2 => some "The shielded pool's note tree is full — no more shielded transactions can be accepted right now."
  | 3 => some "The shielded pool is already initialized."
  | 4 => some "Invalid pool configuration."
  | 5 => some "Internal pool error (bad note-tree index)."
  | 6 => some "Invalid amount for this pool — a single deposit cannot exceed the pool's maximum (1000 XLM on this deployment)."
  | 7 => some "The zero-knowledge proof for this transaction was rejected."
  | 8 => some "This transaction was built against an outdated pool state — try again after a refresh."
  | 9 => some "This note has already been spent (double-spend rejected)."
  | 10 => some "This transaction's external data does not match what was proven — try again."
  | 11 => some "The shielded pool is not initialized."
  | 12 => some "Arithmetic overflow while processing this transaction."
  | 13 => some "Invalid proof input."
  | 14 => some "Unsupported policy configuration."
  | 15 => some "The pool's invest parameters are invalid — contact the operator."
  | 16 => some "The pool could not free enough liquidity from its yield vault to pay this withdrawal. Nothing was paid out — try again in a moment."
  | _ => none

/-- `Error(Contract,`, white space, `#`, digits and `)`, from here. -/
def contractCodeAt (l : List Char) : Option Nat :=
  if "Error(Contract,".toList.isPrefixOf l then
    match (l.drop "Error(Contract,".length).dropWhile isSpace with
    | '#' :: rest =>
        match rest.takeWhile Char.isDigit, rest.dropWhile Char.isDigit with
        | digit :: digits, ')' :: _ => some (digitsValue (digit :: digits))
        | _, _ => none
    | _ => none
  else none

/-- The number of the first such error in a text. -/
def contractCode : List Char → Option Nat
  | [] => none
  | c :: l => (contractCodeAt (c :: l)).orElse fun _ => contractCode l

/-- `relayer` is `humanizeRelayerError`. -/
def humanizeSppError (relayer : String → Option String) (raw : String) : String :=
  let trimmed := trim isSpace raw
  match (contractCode trimmed.toList).bind sppPoolErrors with
  | some known => known
  | none => (relayer trimmed).getD trimmed

/-- The last hash; an empty text is none. -/
def lastHash (hashes : List String) : Option String := hashes.getLast?.filter (· ≠ "")

def describeResult (relayer : String → Option String) (result : SppExecuteResult)
    (label : String) : Notice :=
  match result with
  | .aspNotReady =>
      { kind := .warn
        text := s!"{label} can't go through yet: this shielded account isn't approved by the pool's association-set provider (ASP). Approval happens off-chain — try again in a few minutes."
        hashes := none }
  | .failed hashes message code =>
      -- the wallet declined to sign
      if code = some (-4) then
        ⟨.warn, s!"{label} was canceled before it could be signed.", none⟩
      else
        let submitted := if hashes.length ≠ 0 then
          s!" — {hashes.length} transaction(s) already submitted:" else ""
        { kind := .error
          text := s!"{label} failed: {humanizeSppError relayer message}{submitted}"
          hashes := some hashes }
  | .ok hashes =>
      let ending := if (lastHash hashes).isSome then " —" else "."
      { kind := .ok
        text := s!"{label} confirmed in {hashes.length} transaction(s){ending}"
        hashes := (lastHash hashes).map fun last => [last] }

def errorNotice (relayer : String → Option String) (raw label : String) : Notice :=
  ⟨.error, s!"{label} failed: {humanizeSppError relayer raw}", none⟩

/-- A text that JavaScript takes for true. -/
def said (text : Option String) : Option String := text.filter (· ≠ "")

def readingFailed (failure : String) : Notice :=
  ⟨.error, s!"Reading shielded state failed: {failure}", none⟩

structure ResolvedNotices where
  notice : Option Notice
  staleWarning : Option String
  deriving DecidableEq

def resolveNotices (outcome : Option Notice) (refreshFailure : Option String) : ResolvedNotices :=
  match outcome with
  | some notice => ⟨some notice, refreshFailure⟩
  | none => ⟨(said refreshFailure).map readingFailed, none⟩

/-! ## The page -/

structure SppView where
  shielded : Int
  portfolioShielded : Int
  unspentNotes : Nat
  registered : Bool

/-- What a run asks of the SDK. -/
inductive SppRequest where
  | shield (stroops : Nat)
  | sendShielded (recipient : String) (stroops : Nat)
  | unshield (stroops : Nat)
  | registerPublicKeys
  deriving DecidableEq

def SppRequest.action : SppRequest → Action
  | .shield _ => .shield
  | .sendShielded _ _ => .send
  | .unshield _ => .unshield
  | .registerPublicKeys => .register

/-- The label of the run's result. -/
def SppRequest.label : SppRequest → String
  | .shield stroops => s!"Shielding {stroopsToXlm stroops} XLM"
  | .sendShielded _ stroops => s!"Shielded send of {stroopsToXlm stroops} XLM"
  | .unshield stroops => s!"Unshielding {stroopsToXlm stroops} XLM"
  | .registerPublicKeys => actionLabel .register

/-- The boundary event of a request; sends have none. -/
def SppRequest.boundaryEvent (request : SppRequest) (hashes : List String) :
    Option NewBoundaryEvent :=
  match request with
  | .shield stroops => some ⟨.shield, stroops.repr, hashes⟩
  | .unshield stroops => some ⟨.unshield, stroops.repr, hashes⟩
  | .sendShielded _ _ => none
  | .registerPublicKeys => none

/-- What the SDK answers: a result, the hash of a registration, or a rejected
promise. -/
inductive SdkAnswer where
  | executed (result : SppExecuteResult)
  | registered (hash : String)
  | rejected (message : String)
  deriving DecidableEq

/-- A registration is answered with a hash, any other request with a result. -/
def SdkAnswer.answers : SdkAnswer → SppRequest → Bool
  | .rejected _, _ => true
  | .registered _, .registerPublicKeys => true
  | .registered _, _ => false
  | .executed _, .registerPublicKeys => false
  | .executed _, _ => true

/-- An async function of the page at one of its awaits: a run at the SDK's call,
at the boundary log, or at its refresh, with the outcome so far; and a refresh
of its own. -/
inductive Stage where
  | calling (request : SppRequest)
  | logging (request : SppRequest) (hashes : List String) (address : String)
      (event : NewBoundaryEvent)
  | rereading (outcome : Option Notice)
  | reading
  deriving DecidableEq

/-- A run before its refresh. -/
def Stage.Working : Stage → Prop
  | .calling _ | .logging _ _ _ _ => True
  | .rereading _ | .reading => False

structure Flight where
  id : Nat
  stage : Stage

/-- The run that was started last, with what the SDK answered. -/
structure LastRun where
  id : Nat
  request : SppRequest
  answer : Option SdkAnswer
  deriving DecidableEq

structure ShieldedPage where
  walletAddress : String
  busy : Option Action
  notice : Option Notice
  staleWarning : Option String
  progress : Option String
  refreshing : Bool
  view : Option SppView
  flights : List Flight
  started : Nat
  lastRun : Option LastRun
  -- whether the notice is about an input that no run was started for
  inputRejected : Bool

/-- The page of a rail for this wallet. -/
def ShieldedPage.mounted (walletAddress : String) : ShieldedPage where
  walletAddress := walletAddress
  busy := none
  notice := none
  staleWarning := none
  progress := none
  refreshing := false
  view := none
  flights := []
  started := 0
  lastRun := none
  inputRejected := false

/-- The user's inputs and clicks, the progress events, and the settling of what
the page awaits. -/
inductive ShieldedEvent where
  | shield (input : String)
  | send (recipient input : String)
  | unshield (input : String)
  | register
  | refreshClicked
  | refreshEffect
  | progress (message : Option String)
  | sdkSettled (id : Nat) (answer : SdkAnswer)
  | logSettled (id : Nat) (answer : Except String Unit)
  | refreshSettled (id : Nat) (answer : Except String SppView)

def maxDepositStroops : Nat := 10000000000

def ceilingNotice : Notice :=
  let cap := stroopsToXlm maxDepositStroops
  { kind := .error
    text := s!"The pool accepts at most {cap} XLM per shield — that ceiling is set in the deployed pool, not by this wallet. Shield {cap} XLM or less; you can repeat it as many times as you like, and your shielded balance adds up across deposits."
    hashes := none }

section

variable (relayer : String → Option String)

/-- The stroops of an input, or the notice for a bad one. -/
def parseAmount (input label : String) : Except Notice Nat :=
  match xlmToStroops input with
  | .error message => .error (errorNotice relayer message label)
  | .ok stroops =>
      if stroops ≤ 0 then .error (errorNotice relayer "Amount must be greater than zero" label)
      else .ok stroops

def parseShieldAmount (input : String) : Except Notice Nat := do
  let stroops ← parseAmount relayer input "Shield"
  if maxDepositStroops < stroops then throw ceilingNotice
  pure stroops

end

namespace ShieldedPage

/-- `run`, up to the await of the SDK's call. -/
def run (s : ShieldedPage) (request : SppRequest) : ShieldedPage :=
  { s with
    busy := some request.action
    notice := none
    staleWarning := none
    flights := s.flights ++ [⟨s.started, .calling request⟩]
    started := s.started + 1
    lastRun := some ⟨s.started, request, none⟩
    inputRejected := false }

/-- A form is submitted, unless an action disables it. -/
def submit (s : ShieldedPage) (request : Except Notice SppRequest) : ShieldedPage :=
  match s.busy with
  | some _ => s
  | none =>
      match request with
      | .ok request => s.run request
      | .error notice => { s with notice := some notice, inputRejected := true }

/-- `refreshAndReport`, up to the await. -/
def refreshAndReport (s : ShieldedPage) : ShieldedPage :=
  { s with
    refreshing := true
    flights := s.flights ++ [⟨s.started, .reading⟩]
    started := s.started + 1 }

def stageOf (s : ShieldedPage) (id : Nat) : Option Stage :=
  (s.flights.find? fun flight => flight.id = id).map (·.stage)

def moveTo (s : ShieldedPage) (id : Nat) (stage : Stage) : ShieldedPage :=
  { s with flights := s.flights.map fun flight => if flight.id = id then ⟨id, stage⟩ else flight }

def drop (s : ShieldedPage) (id : Nat) : ShieldedPage :=
  { s with flights := s.flights.filter fun flight => flight.id ≠ id }

/-- The function of a run is done: it goes on to its refresh. -/
def reread (s : ShieldedPage) (id : Nat) (outcome : Option Notice) : ShieldedPage :=
  { s with busy := none, progress := none, refreshing := true }.moveTo id (.rereading outcome)

/-- What the SDK answered to the run, if it is the last one. -/
def answered (s : ShieldedPage) (id : Nat) (answer : SdkAnswer) : ShieldedPage :=
  { s with lastRun := s.lastRun.map fun last =>
      if last.id = id then { last with answer := some answer } else last }

/-- The rest of a run's function after the SDK's answer. -/
def afterSdk (relayer : String → Option String) (s : ShieldedPage) (id : Nat)
    (request : SppRequest) : SdkAnswer → ShieldedPage
  | .rejected message =>
      s.reread id (some (errorNotice relayer message (actionLabel request.action)))
  | .registered hash => s.reread id (some ⟨.ok, "Receiving enabled —", some [hash]⟩)
  | .executed (.ok hashes) =>
      match request.boundaryEvent hashes with
      | some event => s.moveTo id (.logging request hashes s.walletAddress event)
      | none => s.reread id (some (describeResult relayer (.ok hashes) request.label))
  | .executed result => s.reread id (some (describeResult relayer result request.label))

/-- A refresh is over. -/
def refreshed (s : ShieldedPage) : Except String SppView → ShieldedPage
  | .ok view => { s with view := some view, refreshing := false }
  | .error _ => { s with refreshing := false }

def failureOf : Except String SppView → Option String
  | .ok _ => none
  | .error message => some message

def step (relayer : String → Option String) (s : ShieldedPage) : ShieldedEvent → ShieldedPage
  | .shield input => s.submit ((parseShieldAmount relayer input).map .shield)
  | .send recipient input =>
      s.submit ((parseAmount relayer input "Shielded send").map
        (.sendShielded (trim isSpace recipient)))
  | .unshield input => s.submit ((parseAmount relayer input "Unshield").map .unshield)
  | .register => s.submit (.ok .registerPublicKeys)
  | .refreshClicked => if s.refreshing ∨ s.busy.isSome then s else s.refreshAndReport
  | .refreshEffect => s.refreshAndReport
  | .progress message => { s with progress := message }
  | .sdkSettled id answer =>
      match s.stageOf id with
      | some (.calling request) =>
          if answer.answers request then (s.answered id answer).afterSdk relayer id request answer
          else s
      | _ => s
  | .logSettled id answer =>
      match s.stageOf id with
      | some (.logging request hashes _ _) =>
          match answer with
          | .ok () => s.reread id (some (describeResult relayer (.ok hashes) request.label))
          | .error message =>
              s.reread id (some (errorNotice relayer message (actionLabel request.action)))
      | _ => s
  | .refreshSettled id answer =>
      match s.stageOf id with
      | some (.rereading outcome) =>
          let resolved := resolveNotices outcome (failureOf answer)
          { (s.refreshed answer).drop id with
            notice := resolved.notice
            staleWarning := resolved.staleWarning
            inputRejected := false }
      | some .reading =>
          let s := (s.refreshed answer).drop id
          { s with
            staleWarning := failureOf answer
            notice := ((said (failureOf answer)).map readingFailed).orElse fun _ => s.notice }
      | _ => s

/-! ## What is to stand, and when it does -/

end ShieldedPage

/-- The notice reports the answer: a success with the last hash, or a failure
with the hashes of what was submitted before it. -/
def SdkAnswer.ReportedBy (notice : Notice) : SdkAnswer → Prop
  | .executed (.ok hashes) =>
      notice.kind = .ok ∧ notice.hashes = (lastHash hashes).map fun last => [last]
  | .executed (.failed hashes _ _) =>
      notice.kind ≠ .ok ∧ (hashes ≠ [] → notice.hashes = some hashes)
  | .executed .aspNotReady => notice.kind ≠ .ok
  | .registered hash => notice.kind = .ok ∧ notice.hashes = some [hash]
  | .rejected _ => notice.kind ≠ .ok

/-- The notice that a run makes of its answer. -/
def SdkAnswer.ownNotice (relayer : String → Option String) (request : SppRequest) :
    SdkAnswer → Notice
  | .executed result => describeResult relayer result request.label
  | .registered hash => ⟨.ok, "Receiving enabled —", some [hash]⟩
  | .rejected message => errorNotice relayer message (actionLabel request.action)

/-- A refusal to sign comes with no hashes. -/
def SdkAnswer.Plain : SdkAnswer → Prop
  | .executed (.failed hashes _ code) => code = some (-4) → hashes = []
  | _ => True

/-- The notice is the one of the run's own answer, and reports it. -/
def LastRun.Says (relayer : String → Option String) (last : LastRun) (notice : Option Notice) :
    Prop :=
  ∃ answer, last.answer = some answer ∧ notice = some (answer.ownNotice relayer last.request) ∧
    answer.ReportedBy (answer.ownNotice relayer last.request)

namespace ShieldedPage

/-- The last run is over. -/
def LastEnded (s : ShieldedPage) : Prop :=
  ∃ last, s.lastRun = some last ∧ s.stageOf last.id = none

/-- Once the last run is over its notice stands, unless an input was rejected
since. -/
def Stands (relayer : String → Option String) (s : ShieldedPage) : Prop :=
  ∀ last, s.lastRun = some last → s.stageOf last.id = none → s.inputRejected = false →
    last.Says relayer s.notice

/-- A refusal to sign comes after no transaction, the boundary log takes what
it is given, and once the last run is over no older run ends and no refresh of
its own fails. -/
def Clean (s : ShieldedPage) : ShieldedEvent → Prop
  | .sdkSettled _ answer => answer.Plain
  | .logSettled _ answer => answer = .ok ()
  | .refreshSettled id answer =>
      match s.stageOf id with
      | some (.rereading _) => ¬s.LastEnded
      | some .reading => said (failureOf answer) = none ∨ ¬s.LastEnded
      | _ => True
  | _ => True

end ShieldedPage

theorem reportedBy_ownNotice_iff (relayer : String → Option String) (request : SppRequest)
    (answer : SdkAnswer) : answer.ReportedBy (answer.ownNotice relayer request) ↔ answer.Plain := by
  cases answer with
  | registered hash => simp [SdkAnswer.ReportedBy, SdkAnswer.ownNotice, SdkAnswer.Plain]
  | rejected message =>
      simp [SdkAnswer.ReportedBy, SdkAnswer.ownNotice, SdkAnswer.Plain, errorNotice]
  | executed result =>
      cases result with
      | ok hashes => simp [SdkAnswer.ReportedBy, SdkAnswer.ownNotice, SdkAnswer.Plain, describeResult]
      | aspNotReady =>
          simp [SdkAnswer.ReportedBy, SdkAnswer.ownNotice, SdkAnswer.Plain, describeResult]
      | failed hashes message code =>
          by_cases hcode : code = some (-4) <;>
            simp [SdkAnswer.ReportedBy, SdkAnswer.ownNotice, SdkAnswer.Plain, describeResult, hcode]

namespace ShieldedPage

/-! ## Flights -/

variable {s : ShieldedPage} {relayer : String → Option String}

theorem stageOf_append (flights : List Flight) (flight : Flight) (id : Nat) :
    stageOf { s with flights := flights ++ [flight] } id
      = (stageOf { s with flights := flights } id).or
          (if flight.id = id then some flight.stage else none) := by
  simp only [stageOf, List.find?_append, List.find?_cons, List.find?_nil]
  cases flights.find? fun flight => flight.id = id <;> split <;> simp_all

theorem stageOf_moveTo (id other : Nat) (stage : Stage) :
    (s.moveTo id stage).stageOf other
      = if other = id then (s.stageOf id).map fun _ => stage else s.stageOf other := by
  simp only [stageOf, moveTo]
  induction s.flights with
  | nil => simp
  | cons flight flights ih =>
      rw [List.map_cons, List.find?_cons, List.find?_cons, List.find?_cons]
      by_cases hid : flight.id = id
      · by_cases hother : other = id
        · simp [hid, hother]
        · simpa [hid, hother, Ne.symm hother] using ih
      · by_cases hother : other = id
        · subst hother
          simpa [hid] using ih
        · by_cases hflight : flight.id = other <;> simp_all

theorem stageOf_drop (id other : Nat) :
    (s.drop id).stageOf other = if other = id then none else s.stageOf other := by
  simp only [stageOf, drop]
  induction s.flights with
  | nil => simp
  | cons flight flights ih =>
      rw [List.filter_cons, List.find?_cons]
      by_cases hid : flight.id = id
      · by_cases hother : other = id
        · simp [hid, hother]
        · simpa [hid, hother, Ne.symm hother] using ih
      · by_cases hother : other = id
        · subst hother
          simp [hid]
        · by_cases hflight : flight.id = other <;> simp_all

/-! ## The invariant -/

/-- What is known of the last run at its stage; once it is over, of the notice. -/
def HeldAt (relayer : String → Option String) (s : ShieldedPage) (last : LastRun) :
    Option Stage → Prop
  | some (.calling request) => request = last.request
  | some (.logging request hashes _ _) =>
      request = last.request ∧ last.answer = some (.executed (.ok hashes))
  | some (.rereading outcome) => last.Says relayer outcome
  | some .reading => False
  | none => s.inputRejected = false → last.Says relayer s.notice

structure Consistent (relayer : String → Option String) (s : ShieldedPage) : Prop where
  fresh : ∀ id, s.started ≤ id → s.stageOf id = none
  last_lt : ∀ last, s.lastRun = some last → last.id < s.started
  held : ∀ last, s.lastRun = some last → HeldAt relayer s last (s.stageOf last.id)
  -- only the last run is at work, and it keeps the forms disabled
  working : ∀ id stage, s.stageOf id = some stage → stage.Working →
    s.busy.isSome = true ∧ ∃ last, s.lastRun = some last ∧ last.id = id

theorem Consistent.stands (h : s.Consistent relayer) : s.Stands relayer := by
  intro last hlast hended hinput
  have hheld := h.held last hlast
  rw [hended] at hheld
  exact hheld hinput

theorem consistent_mounted (walletAddress : String) :
    (mounted walletAddress).Consistent relayer where
  fresh _ _ := rfl
  last_lt _ hlast := by cases hlast
  held _ hlast := by cases hlast
  working _ _ hstage _ := by cases hstage

theorem Consistent.run (h : s.Consistent relayer) (hbusy : s.busy = none) (request : SppRequest) :
    (s.run request).Consistent relayer := by
  have hstage : ∀ id, (s.run request).stageOf id
      = (s.stageOf id).or (if s.started = id then some (.calling request) else none) :=
    fun id => stageOf_append ..
  refine ⟨fun id hid => ?_, ?_, ?_, fun id stage hid hworking => ?_⟩
  · have hlt : s.started + 1 ≤ id := hid
    rw [hstage, h.fresh id (by omega), if_neg (by omega)]
    rfl
  · rintro last ⟨⟩
    exact Nat.lt_succ_self _
  · rintro last ⟨⟩
    rw [hstage, h.fresh _ le_rfl, if_pos rfl]
    rfl
  · refine ⟨rfl, ?_⟩
    rw [hstage] at hid
    cases hbefore : s.stageOf id with
    | some before =>
        rw [hbefore] at hid
        cases hid
        have hcontra := (h.working id stage hbefore hworking).1
        simp [hbusy] at hcontra
    | none =>
        rw [hbefore] at hid
        by_cases hid' : s.started = id
        · exact ⟨_, rfl, hid'⟩
        · simp [hid'] at hid

theorem HeldAt.mono {s' : ShieldedPage} {last : LastRun} {stage : Option Stage}
    (h : HeldAt relayer s last stage)
    (hnotice : stage = none → s'.inputRejected = false →
      s.inputRejected = false ∧ s'.notice = s.notice) : HeldAt relayer s' last stage := by
  rcases stage with _ | stage
  · intro hinput
    obtain ⟨hbefore, hsame⟩ := hnotice rfl hinput
    rw [hsame]
    exact h hbefore
  · cases stage <;> exact h

theorem Consistent.submit (h : s.Consistent relayer) (request : Except Notice SppRequest) :
    (s.submit request).Consistent relayer := by
  unfold ShieldedPage.submit
  split
  · exact h
  next hbusy =>
    split
    · exact h.run hbusy _
    · refine ⟨h.fresh, h.last_lt, fun last hlast => ?_, h.working⟩
      exact (h.held last hlast).mono fun _ hinput => by cases hinput

theorem Consistent.refreshAndReport (h : s.Consistent relayer) :
    s.refreshAndReport.Consistent relayer := by
  have hstage : ∀ id, s.refreshAndReport.stageOf id
      = (s.stageOf id).or (if s.started = id then some .reading else none) :=
    fun id => stageOf_append ..
  refine ⟨fun id hid => ?_, fun last hlast => ?_, fun last hlast => ?_,
    fun id stage hid hworking => ?_⟩
  · have hlt : s.started + 1 ≤ id := hid
    rw [hstage, h.fresh id (by omega), if_neg (by omega)]
    rfl
  · exact (h.last_lt last hlast).trans (Nat.lt_succ_self _)
  · have hlt := h.last_lt last hlast
    rw [hstage, if_neg (by omega), Option.or_none]
    exact (h.held last hlast).mono fun _ hinput => ⟨hinput, rfl⟩
  · rw [hstage] at hid
    cases hbefore : s.stageOf id with
    | some before =>
        rw [hbefore] at hid
        cases hid
        exact h.working id stage hbefore hworking
    | none =>
        rw [hbefore] at hid
        by_cases hid' : s.started = id
        · rw [if_pos hid'] at hid
          cases hid
          exact False.elim hworking
        · simp [hid'] at hid

/-- The last run goes on from one stage to the next. -/
theorem Consistent.moveTo (h : s.Consistent relayer) {id : Nat} {before stage : Stage}
    (hbefore : s.stageOf id = some before) (hworking : before.Working)
    (hstays : stage.Working → s.busy.isSome = true)
    (hheld : ∀ last, s.lastRun = some last → last.id = id → HeldAt relayer s last (some stage)) :
    (s.moveTo id stage).Consistent relayer := by
  refine ⟨fun other hother => ?_, h.last_lt, fun last hlast => ?_, fun other after hafter hw => ?_⟩
  · have hnone := h.fresh other hother
    rw [stageOf_moveTo]
    split
    next heq =>
      rw [heq, hbefore] at hnone
      cases hnone
    · exact hnone
  · rw [stageOf_moveTo]
    split
    next heq =>
      rw [hbefore]
      exact (hheld last hlast heq).mono fun hcontra => by cases hcontra
    · exact (h.held last hlast).mono fun _ hinput => ⟨hinput, rfl⟩
  · obtain ⟨hbusy, hlast⟩ := h.working id before hbefore hworking
    rw [stageOf_moveTo] at hafter
    split at hafter
    next heq =>
      rw [hbefore] at hafter
      cases hafter
      exact ⟨hstays hw, heq ▸ hlast⟩
    · exact h.working other after hafter hw

/-- The last run has an outcome and goes on to its refresh. -/
theorem Consistent.reread (h : s.Consistent relayer) {id : Nat} {before : Stage}
    (hbefore : s.stageOf id = some before) (hworking : before.Working) {outcome : Option Notice}
    (hsaid : ∀ last, s.lastRun = some last → last.id = id → last.Says relayer outcome) :
    (s.reread id outcome).Consistent relayer := by
  have hmoved : (s.moveTo id (.rereading outcome)).Consistent relayer :=
    h.moveTo hbefore hworking False.elim hsaid
  -- no other run is at work
  have hidle : ∀ other stage, (s.moveTo id (.rereading outcome)).stageOf other = some stage →
      ¬stage.Working := by
    intro other stage hstage hw
    rw [stageOf_moveTo, hbefore] at hstage
    split at hstage
    · cases hstage
      exact hw
    next hne =>
      obtain ⟨-, last, hlast, hid⟩ := h.working id before hbefore hworking
      obtain ⟨-, last', hlast', hother⟩ := h.working other stage hstage hw
      cases hlast.symm.trans hlast'
      exact hne (hother.symm.trans hid)
  exact ⟨hmoved.fresh, hmoved.last_lt,
    fun last hlast => (hmoved.held last hlast).mono fun _ hinput => ⟨hinput, rfl⟩,
    fun other stage hstage hw => absurd hw (hidle other stage hstage)⟩

theorem Consistent.answered (h : s.Consistent relayer) {id : Nat} {request : SppRequest}
    (hcalling : s.stageOf id = some (.calling request)) (answer : SdkAnswer) :
    (s.answered id answer).Consistent relayer := by
  refine ⟨h.fresh, ?_, ?_, ?_⟩
  · intro last hlast
    obtain ⟨before, hbefore, rfl⟩ := Option.map_eq_some_iff.mp hlast
    split <;> exact h.last_lt before hbefore
  · intro last hlast
    obtain ⟨before, hbefore, rfl⟩ := Option.map_eq_some_iff.mp hlast
    have hheld := h.held before hbefore
    split
    next heq =>
      rw [heq, hcalling] at hheld
      change HeldAt relayer _ _ (s.stageOf before.id)
      rw [heq, hcalling]
      exact hheld
    · exact hheld.mono fun _ hinput => ⟨hinput, rfl⟩
  · intro other stage hstage hw
    obtain ⟨hbusy, last, hlast, hid⟩ := h.working other stage hstage hw
    refine ⟨hbusy, _, Option.map_eq_some_iff.mpr ⟨last, hlast, rfl⟩, ?_⟩
    split <;> exact hid

/-- What the last run is known to have been answered. -/
theorem answered_last (h : s.Consistent relayer) {id : Nat} {request : SppRequest}
    (hcalling : s.stageOf id = some (.calling request)) (answer : SdkAnswer) {last : LastRun}
    (hlast : (s.answered id answer).lastRun = some last) (hid : last.id = id) :
    last.request = request ∧ last.answer = some answer := by
  obtain ⟨before, hbefore, rfl⟩ := Option.map_eq_some_iff.mp hlast
  have hheld := h.held before hbefore
  split at hid
  next heq =>
    rw [heq, hcalling] at hheld
    rw [if_pos heq]
    exact ⟨hheld.symm, rfl⟩
  next hne => exact absurd hid hne

theorem Consistent.sdkSettled (h : s.Consistent relayer) {id : Nat} {request : SppRequest}
    (hcalling : s.stageOf id = some (.calling request)) {answer : SdkAnswer}
    (hplain : answer.Plain) :
    ((s.answered id answer).afterSdk relayer id request answer).Consistent relayer := by
  have hanswered := h.answered hcalling answer
  have hstage : (s.answered id answer).stageOf id = some (.calling request) := hcalling
  have hlast := fun last => @answered_last s relayer h id request hcalling answer last
  -- the outcome is the answer's own notice
  have hreread : ((s.answered id answer).reread id
      (some (answer.ownNotice relayer request))).Consistent relayer := by
    refine hanswered.reread hstage True.intro fun last hsome hid => ?_
    obtain ⟨hrequest, hanswer⟩ := hlast last hsome hid
    refine ⟨answer, hanswer, by rw [hrequest], ?_⟩
    exact (reportedBy_ownNotice_iff relayer last.request answer).mpr hplain
  cases answer with
  | rejected message => exact hreread
  | registered hash => exact hreread
  | executed result =>
      cases result with
      | failed hashes message code => exact hreread
      | aspNotReady => exact hreread
      | ok hashes =>
          rw [afterSdk]
          split
          · refine hanswered.moveTo hstage True.intro (fun _ => ?_) fun last hsome hid => ?_
            · exact (hanswered.working id _ hstage True.intro).1
            · obtain ⟨hrequest, hanswer⟩ := hlast last hsome hid
              exact ⟨hrequest.symm, hanswer⟩
          · exact hreread

theorem Consistent.logSettled (h : s.Consistent relayer) {id : Nat} {request : SppRequest}
    {hashes : List String} {address : String} {event : NewBoundaryEvent}
    (hlogging : s.stageOf id = some (.logging request hashes address event)) :
    (s.reread id (some (describeResult relayer (.ok hashes) request.label))).Consistent
      relayer := by
  refine h.reread hlogging True.intro fun last hlast hid => ?_
  have hheld := h.held last hlast
  rw [hid, hlogging] at hheld
  obtain ⟨hrequest, hanswer⟩ := hheld
  refine ⟨_, hanswer, by rw [hrequest]; rfl, ?_⟩
  exact (reportedBy_ownNotice_iff relayer last.request _).mpr True.intro

/-- A flight ends; if it is the last run, what it leaves is its notice. -/
theorem Consistent.drop (h : s.Consistent relayer) {s' : ShieldedPage} (id : Nat)
    (hflights : s'.flights = (s.drop id).flights) (hstarted : s'.started = s.started)
    (hbusy : s'.busy = s.busy) (hlastRun : s'.lastRun = s.lastRun)
    (hnotice : ∀ last, s.lastRun = some last → last.id = id → last.Says relayer s'.notice)
    (hkept : s.LastEnded → s'.notice = s.notice ∧ s'.inputRejected = s.inputRejected) :
    s'.Consistent relayer := by
  have hstageOf : ∀ other, s'.stageOf other = if other = id then none else s.stageOf other := by
    intro other
    rw [← stageOf_drop, stageOf, stageOf, hflights]
  refine ⟨fun other hother => ?_, ?_, fun last hlast => ?_, fun other after hafter hw => ?_⟩
  · rw [hstageOf, h.fresh other (hstarted ▸ hother), ite_self]
  · rw [hlastRun, hstarted]
    exact h.last_lt
  · rw [hlastRun] at hlast
    rw [hstageOf]
    split
    next heq => exact fun _ => hnotice last hlast heq
    · refine (h.held last hlast).mono fun hnone hinput => ?_
      obtain ⟨hsame, hinputs⟩ := hkept ⟨last, hlast, hnone⟩
      exact ⟨hinputs ▸ hinput, hsame⟩
  · rw [hstageOf] at hafter
    split at hafter
    · cases hafter
    · rw [hbusy, hlastRun]
      exact h.working other after hafter hw

theorem refreshed_eq (s : ShieldedPage) (answer : Except String SppView) :
    ∃ view, s.refreshed answer = { s with view := view, refreshing := false } := by
  cases answer with
  | ok view => exact ⟨some view, rfl⟩
  | error message => exact ⟨s.view, rfl⟩

/-- A run ends with its outcome. -/
theorem Consistent.rereadSettled (h : s.Consistent relayer) {id : Nat} {outcome : Option Notice}
    (hstage : s.stageOf id = some (.rereading outcome)) (hrunning : ¬s.LastEnded)
    (answer : Except String SppView) :
    Consistent relayer { (s.refreshed answer).drop id with
      notice := (resolveNotices outcome (failureOf answer)).notice
      staleWarning := (resolveNotices outcome (failureOf answer)).staleWarning
      inputRejected := false } := by
  obtain ⟨view, heq⟩ := refreshed_eq s answer
  rw [heq]
  refine h.drop id rfl rfl rfl rfl (fun last hlast hid => ?_) fun hended => absurd hended hrunning
  have hsaid := h.held last hlast
  rw [hid, hstage] at hsaid
  obtain ⟨own, hanswer, houtcome, hreports⟩ := hsaid
  exact ⟨own, hanswer, by rw [houtcome]; rfl, hreports⟩

/-- A refresh of its own settles; after the last run it has nothing to say. -/
theorem Consistent.readingSettled (h : s.Consistent relayer) {id : Nat}
    {answer : Except String SppView} (hstage : s.stageOf id = some .reading)
    (hquiet : said (failureOf answer) = none ∨ ¬s.LastEnded) :
    Consistent relayer { (s.refreshed answer).drop id with
      staleWarning := failureOf answer
      notice := ((said (failureOf answer)).map readingFailed).orElse fun _ =>
        ((s.refreshed answer).drop id).notice } := by
  obtain ⟨view, heq⟩ := refreshed_eq s answer
  rw [heq]
  refine h.drop id rfl rfl rfl rfl (fun last hlast hid => ?_) fun hended => ⟨?_, rfl⟩
  · have hcontra := h.held last hlast
    rw [hid, hstage] at hcontra
    exact False.elim hcontra
  · have hsilent : said (failureOf answer) = none := hquiet.resolve_right fun hnot => hnot hended
    dsimp only
    rw [hsilent]
    rfl

/-- A clean step keeps the invariant, each kind by its lemma; a settling that
no function waits for changes nothing. -/
theorem Consistent.step (h : s.Consistent relayer) {e : ShieldedEvent} (hclean : s.Clean e) :
    (s.step relayer e).Consistent relayer := by
  cases e with
  | shield input => exact h.submit ((parseShieldAmount relayer input).map .shield)
  | send recipient input =>
      exact h.submit ((parseAmount relayer input "Shielded send").map
        (.sendShielded (trim isSpace recipient)))
  | unshield input => exact h.submit ((parseAmount relayer input "Unshield").map .unshield)
  | register => exact h.submit (.ok .registerPublicKeys)
  | refreshClicked =>
      rw [ShieldedPage.step]
      split
      · exact h
      · exact h.refreshAndReport
  | refreshEffect => exact h.refreshAndReport
  | progress message =>
      exact ⟨h.fresh, h.last_lt,
        fun last hlast => (h.held last hlast).mono fun _ hinput => ⟨hinput, rfl⟩, h.working⟩
  | sdkSettled id answer =>
      rw [ShieldedPage.step]
      split
      next request hcalling =>
        split
        · exact h.sdkSettled hcalling hclean
        · exact h
      · exact h
  | logSettled id answer =>
      rw [ShieldedPage.step]
      split
      next request hashes address event hlogging =>
        rw [show answer = .ok () from hclean]
        exact h.logSettled hlogging
      · exact h
  | refreshSettled id answer =>
      rw [Clean] at hclean
      rw [ShieldedPage.step]
      split
      next outcome hstage =>
        rw [hstage] at hclean
        exact h.rereadSettled hstage hclean answer
      next hstage =>
        rw [hstage] at hclean
        exact h.readingSettled hstage hclean
      · exact h

/-! ## The whole run -/

/-- In a run of which every step is clean, the notice of the last run stands in
every state once that run is over.

By induction over the events with `Consistent`, which a clean step keeps. -/
theorem outcome_stands (relayer : String → Option String) (walletAddress : String)
    (events : List ShieldedEvent)
    (hclean : ∀ l e, l ++ [e] <+: events →
      Clean (Run.run (step relayer) (mounted walletAddress) l) e) :
    ∀ l, l <+: events → (Run.run (step relayer) (mounted walletAddress) l).Stands relayer := by
  intro l hl
  suffices h : (Run.run (step relayer) (mounted walletAddress) l).Consistent relayer from h.stands
  induction l using List.reverseRecOn with
  | nil => exact consistent_mounted walletAddress
  | append_singleton l e ih =>
      rw [Run.run_snoc]
      exact (ih ((List.prefix_append l [e]).trans hl)).step (hclean l e hl)

/-! ## Runs of the page -/

/-- The page after these events, without a relayer's texts. -/
def pageAfter (events : List ShieldedEvent) : ShieldedPage :=
  Run.run (step fun _ => none)
    (mounted "CCH2EB4POGCUBF5FJ7HTGKUEJDQ2TWIFEE35JOCAEF6RBEXCBHNXF4HK") events

def poolView : SppView := ⟨100000000, 100000000, 1, true⟩

/-- A deposit of two transactions that is logged. The page's first refresh
fails while it runs, and its own refresh fails after it; then the user's goes
through. -/
def loggedDeposit : List ShieldedEvent :=
  [.refreshEffect, .shield "10", .refreshSettled 0 (.error "rpc timeout"),
    .sdkSettled 1 (.executed (.ok ["77aa", "4be1"])), .logSettled 1 (.ok ()),
    .refreshSettled 1 (.error "rpc timeout"), .refreshClicked, .refreshSettled 2 (.ok poolView)]

theorem not_lastEnded {s : ShieldedPage} {last : LastRun} (hlast : s.lastRun = some last)
    (hflies : (s.stageOf last.id).isSome = true) : ¬s.LastEnded := by
  rintro ⟨other, hother, hended⟩
  obtain rfl : last = other := Option.some.inj (hlast.symm.trans hother)
  rw [hended] at hflies
  cases hflies

/-- While the last run is not over a refresh may end in any way. -/
theorem clean_refresh {s : ShieldedPage} (h : ¬s.LastEnded) (id : Nat)
    (answer : Except String SppView) : Clean s (.refreshSettled id answer) := by
  rw [Clean]
  split
  · exact h
  · exact Or.inr h
  · exact True.intro

theorem loggedDeposit_clean :
    ∀ l e, l ++ [e] <+: loggedDeposit → Clean (pageAfter l) e := by
  rw [loggedDeposit]
  iterate 8 rw [Run.forall_steps_cons]
  refine ⟨True.intro, True.intro, ?firstRefresh, True.intro, rfl, ?ownRefresh, True.intro,
    ?userRefresh, Run.forall_steps_nil⟩
  case firstRefresh =>
    have hlast : (pageAfter (loggedDeposit.take 2)).lastRun
        = some ⟨1, .shield 100000000, none⟩ := by decide +kernel
    exact clean_refresh (not_lastEnded hlast (by decide +kernel)) 0 _
  case ownRefresh =>
    have hlast : (pageAfter (loggedDeposit.take 5)).lastRun
        = some ⟨1, .shield 100000000, some (.executed (.ok ["77aa", "4be1"]))⟩ := by decide +kernel
    exact clean_refresh (not_lastEnded hlast (by decide +kernel)) 1 _
  case userRefresh =>
    -- the run is over by then, so the answer has to be one
    have hstage : (pageAfter (loggedDeposit.take 7)).stageOf 2 = some .reading := by
      decide +kernel
    change Clean (pageAfter (loggedDeposit.take 7)) _
    rw [Clean, hstage]
    exact Or.inl rfl

/-- The notice at the end is the deposit's, with the hash of its last
transaction. -/
theorem outcome_stands_deposit :
    ∃ notice, (pageAfter loggedDeposit).notice = some notice ∧ notice.kind = .ok ∧
      notice.hashes = some ["4be1"] := by
  have hlast : (pageAfter loggedDeposit).lastRun
      = some ⟨1, .shield 100000000, some (.executed (.ok ["77aa", "4be1"]))⟩ := by decide +kernel
  have hstands := outcome_stands (fun _ => none) _ loggedDeposit loggedDeposit_clean loggedDeposit
    (List.prefix_refl _)
  obtain ⟨answer, hanswer, hnotice, hreports⟩ := hstands _ hlast (by decide +kernel)
    (by decide +kernel)
  obtain rfl : SdkAnswer.executed (.ok ["77aa", "4be1"]) = answer := Option.some.inj hanswer
  exact ⟨_, hnotice, hreports.1, hreports.2⟩

/-- The boundary log refuses a deposit that was confirmed. -/
def unloggedDeposit : List ShieldedEvent :=
  [.shield "10", .sdkSettled 0 (.executed (.ok ["4be1"])), .logSettled 0 (.error "QuotaExceededError"),
    .refreshSettled 0 (.ok poolView)]

/-- The second transaction of a send is not signed. -/
def halfSignedSend : List ShieldedEvent :=
  [.send "CDLZFC3SYJYDZT7K67VZ75HPJVIEUVNIXF47ZG2FB2RMQQVU2HHGCYSC" "4",
    .sdkSettled 0 (.executed (.failed ["77aa"] "The user rejected this request." (some (-4)))),
    .refreshSettled 0 (.ok poolView)]

/-- The page's first refresh fails after the registration is over. -/
def lateRefresh : List ShieldedEvent :=
  [.refreshEffect, .register, .sdkSettled 1 (.registered "9f2c"), .refreshSettled 1 (.ok poolView),
    .refreshSettled 0 (.error "rpc timeout")]

/-- With nothing left to settle, the notice is the boundary log's failure, has
not the hash of the transaction that was submitted, or is another refresh's
failure. -/
theorem outcome_masked :
    ((pageAfter unloggedDeposit).flights.isEmpty = true ∧
      (pageAfter unloggedDeposit).lastRun
        = some ⟨0, .shield 100000000, some (.executed (.ok ["4be1"]))⟩ ∧
      (pageAfter unloggedDeposit).notice
        = some ⟨.error, "Shielding failed: QuotaExceededError", none⟩ ∧
      ¬(pageAfter unloggedDeposit).Stands fun _ => none) ∧
    ((pageAfter halfSignedSend).flights.isEmpty = true ∧
      (pageAfter halfSignedSend).notice
        = some ⟨.warn, "Shielded send of 4 XLM was canceled before it could be signed.", none⟩) ∧
    (pageAfter lateRefresh).flights.isEmpty = true ∧
      (pageAfter lateRefresh).notice
        = some ⟨.error, "Reading shielded state failed: rpc timeout", none⟩ := by
  have hlast : (pageAfter unloggedDeposit).lastRun
      = some ⟨0, .shield 100000000, some (.executed (.ok ["4be1"]))⟩ := by decide +kernel
  have hnotice : (pageAfter unloggedDeposit).notice
      = some ⟨.error, "Shielding failed: QuotaExceededError", none⟩ := by decide +kernel
  refine ⟨⟨by decide +kernel, hlast, hnotice, fun hstands => ?_⟩, ?_, ?_⟩
  · obtain ⟨answer, hanswer, hown, hreports⟩ :=
      hstands _ hlast (by decide +kernel) (by decide +kernel)
    cases hanswer
    rw [hnotice, Option.some.injEq] at hown
    have hkind := hreports.1
    rw [← hown] at hkind
    cases hkind
  · exact ⟨by decide +kernel, by decide +kernel⟩
  · exact ⟨by decide +kernel, by decide +kernel⟩

end ShieldedPage

end Wallet

end PrivacyWallet
