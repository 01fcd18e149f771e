import Mathlib.Algebra.Group.Nat.Defs
import PrivacyWallet.Indexer.Poller

/-!
# The worker's streams

A tick polls the streams that are due, one after the other, until a shutdown
is requested; each poll ends by itself, well or badly. What the tick then
writes for a stream depends on that stream's poll alone: the state of a stream
after any ticks is its attempts applied to the state it started with
(`workerRun_eq`), whatever the other streams did.

An outcome carries the key of its stream and is written where that key is
found. The keys are never changed and are different for different streams, so
the write reaches its own stream and no other
(`foldl_recordOutcome_getElem?`). That is all there is to the isolation; the
rest is about which attempts there are:

- the due streams are polled in their order, and the poll of a turn is the
  only one of its stream (`filter_pollStreams`);
- a stream is attempted if and only if it is due and the shutdown was not
  requested up to its turn (`tickAttempts_eq`). Whether the polls before it
  succeed does not matter.

`streams_isolated` then compares two runs: where the attempts of a stream
agree, so do its failure counter and the time of its next attempt.
-/

namespace PrivacyWallet

namespace Indexer

variable {N : Type}

/-! ## `pollStreams` -/

structure StreamConfig (N : Type) where
  streamKey : String
  source : StreamSource N
  ctTokenId : Option String

/-- What a poll throws. -/
inductive PollError where
  | fetch (message : String)
  | database (message : String)
deriving DecidableEq

structure StreamPollOutcome where
  streamKey : String
  ok : Bool
  error : Option PollError
deriving DecidableEq

/-- What a tick meets: the time, whether a shutdown has been requested before
each turn, and how the poll of each turn ends. -/
structure TickInput (N : Type) where
  now : Int
  shouldStop : Option (Nat → Bool)
  pollStream : Nat → StreamConfig N → Except PollError Unit

/-- `shouldStop?.()` before a turn -/
def TickInput.stops (input : TickInput N) (turn : Nat) : Bool := input.shouldStop.any (· turn)

/-- The loop over the streams, from a turn on. -/
def pollStreams (input : TickInput N) : Nat → List (StreamConfig N) → List StreamPollOutcome
  | _, [] => []
  | turn, stream :: streams =>
      if input.stops turn then []
      else match input.pollStream turn stream with
        | .ok _ => ⟨stream.streamKey, true, none⟩ :: pollStreams input (turn + 1) streams
        | .error error => ⟨stream.streamKey, false, some error⟩ :: pollStreams input (turn + 1) streams

/-! ## `tick` -/

def backoffBaseMs : Nat := 1000

def backoffMaxMs : Nat := 60000

def backoffDelayMs (consecutiveFailures : Nat) : Nat :=
  if consecutiveFailures = 0 then 0
  else min (backoffBaseMs * 2 ^ (consecutiveFailures - 1)) backoffMaxMs

structure StreamRuntimeState (N : Type) extends StreamConfig N where
  consecutiveFailures : Nat
  nextAttemptAt : Int

def buildInitialStreamState (streamKey : String) (source : StreamSource N)
    (ctTokenId : Option String) : StreamRuntimeState N :=
  { streamKey, source, ctTokenId, consecutiveFailures := 0, nextAttemptAt := 0 }

/-- An attempt at a stream: when, and whether it succeeded. -/
structure Attempt where
  time : Int
  ok : Bool
deriving DecidableEq

/-- What the tick writes for a stream that it attempted. -/
def StreamRuntimeState.after (state : StreamRuntimeState N) (attempt : Attempt) :
    StreamRuntimeState N :=
  if attempt.ok then { state with consecutiveFailures := 0, nextAttemptAt := attempt.time }
  else
    { state with
      consecutiveFailures := state.consecutiveFailures + 1
      nextAttemptAt := attempt.time + backoffDelayMs (state.consecutiveFailures + 1) }

/-- The streams that are due, with their places. -/
def dueStreams (states : List (StreamRuntimeState N)) (now : Int) :
    List (StreamRuntimeState N × Nat) :=
  states.zipIdx.filter fun d => decide (d.1.nextAttemptAt ≤ now)

/-- What becomes of the states for one outcome. -/
def recordOutcome (due : List (StreamRuntimeState N × Nat)) (now : Int)
    (states : List (StreamRuntimeState N)) (outcome : StreamPollOutcome) :
    List (StreamRuntimeState N) :=
  match due.find? fun d => decide (d.1.streamKey = outcome.streamKey) with
  | none => states
  | some d => states.modify d.2 (·.after ⟨now, outcome.ok⟩)

/-- The outcomes of a tick. -/
def tickOutcomes (states : List (StreamRuntimeState N)) (input : TickInput N) :
    List StreamPollOutcome :=
  pollStreams input 0 ((dueStreams states input.now).map (·.1.toStreamConfig))

def tick (states : List (StreamRuntimeState N)) (input : TickInput N) :
    List (StreamRuntimeState N) :=
  let due := dueStreams states input.now
  if due.length = 0 then states
  else (tickOutcomes states input).foldl (recordOutcome due input.now) states

/-- The states after the ticks. -/
def workerRun (states : List (StreamRuntimeState N)) (inputs : List (TickInput N)) :
    List (StreamRuntimeState N) := Run.run tick states inputs

/-- The attempts at a stream in one tick. -/
def tickAttempts (key : String) (states : List (StreamRuntimeState N)) (input : TickInput N) :
    List Attempt :=
  ((tickOutcomes states input).filter fun o => decide (o.streamKey = key)).map fun o =>
    ⟨input.now, o.ok⟩

/-- The attempts at a stream, in order. -/
def attemptsOf (key : String) (states : List (StreamRuntimeState N))
    (inputs : List (TickInput N)) : List Attempt :=
  Run.history tick (tickAttempts key) states inputs

/-! ## Places and keys -/

@[simp] theorem after_streamKey (state : StreamRuntimeState N) (attempt : Attempt) :
    (state.after attempt).streamKey = state.streamKey := by
  unfold StreamRuntimeState.after
  split
  · rfl
  · rfl

theorem after_consecutiveFailures (state : StreamRuntimeState N) (attempt : Attempt) :
    (state.after attempt).consecutiveFailures = 0 ↔ attempt.ok = true := by
  unfold StreamRuntimeState.after
  split
  next h => simp [h]
  next h => simp [h]

variable {states states' : List (StreamRuntimeState N)} {s : StreamRuntimeState N} {i : Nat}
  {input : TickInput N}

theorem mem_dueStreams {d : StreamRuntimeState N × Nat} {now : Int} :
    d ∈ dueStreams states now ↔ states[d.2]? = some d.1 ∧ d.1.nextAttemptAt ≤ now := by
  rw [dueStreams, List.mem_filter, List.mem_zipIdx_iff_getElem?, decide_eq_true_iff]

/-- Streams with keys of their own stand at places of their own. -/
theorem place_unique (hkeys : (states.map (·.streamKey)).Nodup) {j : Nat}
    {t : StreamRuntimeState N} (hs : states[i]? = some s) (ht : states[j]? = some t)
    (h : t.streamKey = s.streamKey) : j = i := by
  have hi := (List.getElem?_eq_some_iff.mp hs).1
  have hj := (List.getElem?_eq_some_iff.mp ht).1
  refine (List.getElem?_inj (by simpa using hj) hkeys).mp ?_
  rw [List.getElem?_map, List.getElem?_map, hs, ht, Option.map_some, Option.map_some, h]

theorem recordOutcome_keys (due : List (StreamRuntimeState N × Nat)) (now : Int)
    (outcome : StreamPollOutcome) :
    (recordOutcome due now states outcome).map (·.streamKey) = states.map (·.streamKey) := by
  unfold recordOutcome
  split
  · rfl
  next d _ =>
    refine List.ext_getElem? fun j => ?_
    rw [List.getElem?_map, List.getElem?_map, List.getElem?_modify]
    cases states[j]? with
    | none => rfl
    | some t =>
        by_cases hj : d.2 = j
        · simp [hj]
        · simp [hj]

theorem foldl_recordOutcome_keys (due : List (StreamRuntimeState N × Nat)) (now : Int)
    (outcomes : List StreamPollOutcome) :
    (outcomes.foldl (recordOutcome due now) states).map (·.streamKey)
      = states.map (·.streamKey) := by
  induction outcomes generalizing states with
  | nil => rfl
  | cons o outcomes ih => rw [List.foldl_cons, ih, recordOutcome_keys]

theorem tick_keys (states : List (StreamRuntimeState N)) (input : TickInput N) :
    (tick states input).map (·.streamKey) = states.map (·.streamKey) := by
  unfold tick
  dsimp only
  split
  · rfl
  · exact foldl_recordOutcome_keys _ _ _

theorem workerRun_keys (states : List (StreamRuntimeState N)) (inputs : List (TickInput N)) :
    (workerRun states inputs).map (·.streamKey) = states.map (·.streamKey) :=
  @Run.invariant _ _ tick (fun st => st.map (·.streamKey) = states.map (·.streamKey)) states inputs
    rfl fun st input h => (tick_keys st input).trans h

/-! ## One tick -/

/-- An outcome is written to its own stream and to no other. The keys tell which: they
are different at different places. -/
theorem recordOutcome_getElem? {now : Int} {s₀ : StreamRuntimeState N}
    (hkeys : (states.map (·.streamKey)).Nodup) (hs₀ : states[i]? = some s₀)
    (hs : states'[i]? = some s) {outcome : StreamPollOutcome}
    (hdue : outcome.streamKey = s₀.streamKey → s₀.nextAttemptAt ≤ now) :
    (recordOutcome (dueStreams states now) now states' outcome)[i]?
      = some (if outcome.streamKey = s₀.streamKey then s.after ⟨now, outcome.ok⟩ else s) := by
  unfold recordOutcome
  cases hfind : (dueStreams states now).find?
      fun d => decide (d.1.streamKey = outcome.streamKey) with
  | none =>
      have hne : ¬outcome.streamKey = s₀.streamKey := by
        intro heq
        have hmem : (s₀, i) ∈ dueStreams states now := mem_dueStreams.mpr ⟨hs₀, hdue heq⟩
        have hnot := List.find?_eq_none.mp hfind _ hmem
        exact hnot (decide_eq_true heq.symm)
      rw [if_neg hne]
      exact hs
  | some d =>
      obtain ⟨hd, -⟩ := mem_dueStreams.mp (List.mem_of_find?_eq_some hfind)
      have hkey : d.1.streamKey = outcome.streamKey := by simpa using List.find?_some hfind
      dsimp only
      rw [List.getElem?_modify, hs]
      by_cases heq : outcome.streamKey = s₀.streamKey
      · have hplace := place_unique hkeys hs₀ hd (hkey.trans heq)
        simp [heq, hplace]
      · have hplace : d.2 ≠ i := by
          intro hplace
          rw [hplace, hs₀, Option.some.injEq] at hd
          exact heq (hkey.symm.trans (by rw [← hd]))
        simp [heq, hplace]

theorem foldl_recordOutcome_getElem? {now : Int} {s₀ : StreamRuntimeState N}
    (hkeys : (states.map (·.streamKey)).Nodup) (hs₀ : states[i]? = some s₀)
    {outcomes : List StreamPollOutcome}
    (hdue : ∀ o ∈ outcomes, o.streamKey = s₀.streamKey → s₀.nextAttemptAt ≤ now)
    (hs : states'[i]? = some s) :
    (outcomes.foldl (recordOutcome (dueStreams states now) now) states')[i]?
      = some (((outcomes.filter fun o => decide (o.streamKey = s₀.streamKey)).map fun o =>
          (⟨now, o.ok⟩ : Attempt)).foldl StreamRuntimeState.after s) := by
  induction outcomes generalizing states' s with
  | nil => exact hs
  | cons o outcomes ih =>
      have hstep := recordOutcome_getElem? hkeys hs₀ hs (hdue o List.mem_cons_self)
      rw [List.foldl_cons, ih (fun o ho => hdue o (List.mem_cons_of_mem _ ho)) hstep]
      by_cases heq : o.streamKey = s₀.streamKey
      · simp [heq]
      · simp [heq]

/-- Every outcome is of a stream that was polled. -/
theorem mem_pollStreams {turn : Nat} {streams : List (StreamConfig N)} {o : StreamPollOutcome}
    (h : o ∈ pollStreams input turn streams) : ∃ c ∈ streams, c.streamKey = o.streamKey := by
  induction streams generalizing turn with
  | nil => cases h
  | cons c streams ih =>
      rw [pollStreams] at h
      split at h
      · cases h
      · split at h
        · rcases List.mem_cons.mp h with rfl | h
          · exact ⟨c, List.mem_cons_self, rfl⟩
          · obtain ⟨c', hc', hkey⟩ := ih h
            exact ⟨c', List.mem_cons_of_mem _ hc', hkey⟩
        · rcases List.mem_cons.mp h with rfl | h
          · exact ⟨c, List.mem_cons_self, rfl⟩
          · obtain ⟨c', hc', hkey⟩ := ih h
            exact ⟨c', List.mem_cons_of_mem _ hc', hkey⟩

theorem due_of_outcome (hkeys : (states.map (·.streamKey)).Nodup) (hs : states[i]? = some s)
    {o : StreamPollOutcome} (ho : o ∈ tickOutcomes states input)
    (hkey : o.streamKey = s.streamKey) : s.nextAttemptAt ≤ input.now := by
  obtain ⟨c, hc, hck⟩ := mem_pollStreams ho
  obtain ⟨d, hd, rfl⟩ := List.mem_map.mp hc
  obtain ⟨hplace, hdue⟩ := mem_dueStreams.mp hd
  have hi := place_unique hkeys hs hplace (hck.trans hkey)
  rw [hi, hs, Option.some.injEq] at hplace
  rw [hplace]
  exact hdue

/-- What a tick makes of a stream. -/
theorem tick_getElem? (hkeys : (states.map (·.streamKey)).Nodup) (hs : states[i]? = some s) :
    (tick states input)[i]?
      = some ((tickAttempts s.streamKey states input).foldl StreamRuntimeState.after s) := by
  unfold tick
  dsimp only
  split
  next hnone =>
    have hempty : tickOutcomes states input = [] := by
      rw [tickOutcomes, List.length_eq_zero_iff.mp hnone]
      rfl
    rw [tickAttempts, hempty]
    exact hs
  next => exact foldl_recordOutcome_getElem? hkeys hs (fun o ho => due_of_outcome hkeys hs ho) hs

/-! ## Turns -/

/-- How many due streams come before a place. -/
def turnOf (states : List (StreamRuntimeState N)) (now : Int) (place : Nat) : Nat :=
  ((states.take place).filter fun t => decide (t.nextAttemptAt ≤ now)).length

/-- The poll of a turn is the only one of its stream. By induction on the
streams before it, none of which has its key; a shutdown at one of their turns
ends the loop. -/
theorem filter_pollStreams {turn : Nat} {before after : List (StreamConfig N)}
    {c : StreamConfig N} (hkeys : ((before ++ c :: after).map (·.streamKey)).Nodup) :
    ((pollStreams input turn (before ++ c :: after)).filter fun o =>
        decide (o.streamKey = c.streamKey)).map (·.ok)
      = if ∀ j ≤ before.length, input.stops (turn + j) = false then
          [(input.pollStream (turn + before.length) c).isOk]
        else [] := by
  induction before generalizing turn with
  | nil =>
      have hrest : (pollStreams input (turn + 1) after).filter
          (fun o => decide (o.streamKey = c.streamKey)) = [] := by
        rw [List.filter_eq_nil_iff]
        intro o ho hkey
        obtain ⟨c', hc', hkey'⟩ := mem_pollStreams ho
        rw [List.nil_append, List.map_cons, List.nodup_cons] at hkeys
        exact hkeys.1 (List.mem_map.mpr ⟨c', hc', hkey'.trans (of_decide_eq_true hkey)⟩)
      rw [List.nil_append, pollStreams]
      cases hstop : input.stops turn with
      | true => simp [hstop]
      | false =>
          cases hpoll : input.pollStream turn c with
          | ok u => simp [hstop, hrest, Except.isOk, Except.toBool]
          | error e => simp [hstop, hrest, Except.isOk, Except.toBool]
  | cons b before ih =>
      rw [List.cons_append, List.map_cons, List.nodup_cons] at hkeys
      have hne : b.streamKey ≠ c.streamKey := fun heq =>
        hkeys.1 (heq ▸ List.mem_map_of_mem (List.mem_append_right _ List.mem_cons_self))
      have hstops : (∀ j ≤ before.length + 1, input.stops (turn + j) = false) ↔
          input.stops turn = false ∧
            ∀ j ≤ before.length, input.stops (turn + 1 + j) = false := by
        constructor
        · exact fun h => ⟨h 0 (Nat.zero_le _), fun j hj => by
            have := h (j + 1) (Nat.succ_le_succ hj)
            rwa [← Nat.add_assoc, Nat.add_right_comm] at this⟩
        · rintro ⟨h0, h⟩ j hj
          cases j with
          | zero => exact h0
          | succ j =>
              rw [← Nat.add_assoc, Nat.add_right_comm]
              exact h j (Nat.le_of_succ_le_succ hj)
      have hrest := @ih (turn + 1) hkeys.2
      rw [List.cons_append, pollStreams, List.length_cons]
      simp only [hstops]
      cases hstop : input.stops turn with
      | true => simp
      | false =>
          have hturn : turn + (before.length + 1) = turn + 1 + before.length := by omega
          rw [hturn]
          cases hpoll : input.pollStream turn b with
          | ok u => simp [hne, hrest]
          | error e => simp [hne, hrest]

/-- A stream is attempted in a tick if and only if it is due and no shutdown
was requested up to its turn. The streams are cut at this one: those before it
that are due are its turn, and `filter_pollStreams` leaves of the outcomes its
own. -/
theorem tickAttempts_eq (hkeys : (states.map (·.streamKey)).Nodup) (hs : states[i]? = some s) :
    tickAttempts s.streamKey states input
      = if s.nextAttemptAt ≤ input.now ∧
            ∀ j ≤ turnOf states input.now i, input.stops j = false then
          [⟨input.now, (input.pollStream (turnOf states input.now i) s.toStreamConfig).isOk⟩]
        else [] := by
  by_cases hdue : s.nextAttemptAt ≤ input.now
  · have hi := (List.getElem?_eq_some_iff.mp hs).1
    have hval := (List.getElem?_eq_some_iff.mp hs).2
    -- the due streams, cut at this one
    have hstates : states = states.take i ++ s :: states.drop (i + 1) := by
      rw [← hval, List.getElem_cons_drop, List.take_append_drop]
    have hdues : (dueStreams states input.now).map (·.1.toStreamConfig)
        = (states.filter fun t => decide (t.nextAttemptAt ≤ input.now)).map
            (·.toStreamConfig) := by
      have hfst : (dueStreams states input.now).map Prod.fst
          = states.filter fun t => decide (t.nextAttemptAt ≤ input.now) := by
        have hcomp : (fun d : StreamRuntimeState N × Nat => decide (d.1.nextAttemptAt ≤ input.now))
            = (fun t => decide (t.nextAttemptAt ≤ input.now)) ∘ Prod.fst := rfl
        rw [dueStreams, hcomp, ← List.filter_map, List.zipIdx_map_fst]
      rw [← hfst, List.map_map]
      rfl
    have hcut : (dueStreams states input.now).map (·.1.toStreamConfig)
        = ((states.take i).filter fun t => decide (t.nextAttemptAt ≤ input.now)).map
              (·.toStreamConfig)
            ++ s.toStreamConfig
              :: ((states.drop (i + 1)).filter fun t => decide (t.nextAttemptAt ≤ input.now)).map
                (·.toStreamConfig) := by
      rw [hdues]
      conv_lhs => rw [hstates]
      rw [List.filter_append, List.filter_cons_of_pos (by simpa using hdue), List.map_append,
        List.map_cons]
    have hnodup : (((dueStreams states input.now).map (·.1.toStreamConfig)).map
        (·.streamKey)).Nodup := by
      rw [hdues, List.map_map]
      exact hkeys.sublist (List.filter_sublist.map _)
    rw [hcut] at hnodup
    have hfilter := @filter_pollStreams _ input 0 _ _ _ hnodup
    rw [← hcut, List.length_map] at hfilter
    simp only [Nat.zero_add] at hfilter
    have hmap : tickAttempts s.streamKey states input
        = (((tickOutcomes states input).filter fun o =>
            decide (o.streamKey = s.streamKey)).map (·.ok)).map fun ok => ⟨input.now, ok⟩ := by
      rw [tickAttempts, List.map_map]
      rfl
    rw [hmap, tickOutcomes, hfilter, turnOf]
    simp only [hdue, true_and]
    split
    · rfl
    · rfl
  · rw [if_neg fun h => hdue h.1]
    unfold tickAttempts
    rw [List.map_eq_nil_iff, List.filter_eq_nil_iff]
    exact fun o ho hkey => hdue (due_of_outcome hkeys hs ho (of_decide_eq_true hkey))

/-! ## Runs -/

/-- The state of a stream after a run is what its attempts make of the state that it
started with. The induction is on the ticks; one tick is `tick_getElem?`. -/
theorem workerRun_eq (hkeys : (states.map (·.streamKey)).Nodup) (inputs : List (TickInput N))
    (hs : states[i]? = some s) :
    (workerRun states inputs)[i]?
      = some ((attemptsOf s.streamKey states inputs).foldl StreamRuntimeState.after s) := by
  refine @Run.prefix_invariant _ _ _ tick (tickAttempts s.streamKey)
    (fun st attempts => st[i]? = some (attempts.foldl StreamRuntimeState.after s))
    states inputs hs ?_
  intro before input _ hst
  have hkeys' : ((Run.run tick states before).map (·.streamKey)).Nodup := by
    have := workerRun_keys states before
    rw [workerRun] at this
    rwa [this]
  have hkey : ∀ attempts : List Attempt,
      (attempts.foldl StreamRuntimeState.after s).streamKey = s.streamKey := by
    intro attempts
    induction attempts using List.reverseRecOn with
    | nil => rfl
    | append_singleton attempts a ih =>
        rw [List.foldl_append, List.foldl_cons, List.foldl_nil, after_streamKey, ih]
  rw [tick_getElem? hkeys' hst, hkey, List.foldl_append]

/-- The counter and the time of a stream's next attempt. -/
def StreamRuntimeState.backoff (state : StreamRuntimeState N) : Nat × Int :=
  (state.consecutiveFailures, state.nextAttemptAt)

theorem after_backoff {t : StreamRuntimeState N} (h : t.backoff = s.backoff) (attempt : Attempt) :
    (t.after attempt).backoff = (s.after attempt).backoff := by
  obtain ⟨hcount, -⟩ := Prod.mk.inj h
  unfold StreamRuntimeState.after
  split
  · rfl
  · simp [StreamRuntimeState.backoff, hcount]

theorem foldl_after_backoff {t : StreamRuntimeState N} (h : t.backoff = s.backoff)
    (attempts : List Attempt) :
    (attempts.foldl StreamRuntimeState.after t).backoff
      = (attempts.foldl StreamRuntimeState.after s).backoff := by
  induction attempts generalizing s t with
  | nil => exact h
  | cons a attempts ih => exact ih (after_backoff h a)

/-- The stream is due, and no shutdown is requested up to its turn. -/
def Attempted (states : List (StreamRuntimeState N)) (input : TickInput N) (place : Nat)
    (state : StreamRuntimeState N) : Prop :=
  state.nextAttemptAt ≤ input.now ∧
    ∀ j ≤ turnOf states input.now place, input.stops j = false

/-- How the poll of a place ends. -/
def attemptAt (states : List (StreamRuntimeState N)) (input : TickInput N) (place : Nat)
    (state : StreamRuntimeState N) : Attempt :=
  ⟨input.now, (input.pollStream (turnOf states input.now place) state.toStreamConfig).isOk⟩

/-- What one tick does to a stream. -/
structure TickEffect (states : List (StreamRuntimeState N)) (input : TickInput N) (place : Nat)
    (state state' : StreamRuntimeState N) : Prop where
  attempted : Attempted states input place state →
    tickAttempts state.streamKey states input = [attemptAt states input place state] ∧
      state' = state.after (attemptAt states input place state) ∧
      (state'.consecutiveFailures = 0 ↔ (attemptAt states input place state).ok = true)
  skipped : ¬Attempted states input place state →
    tickAttempts state.streamKey states input = [] ∧ state' = state

theorem tick_effect (hkeys : (states.map (·.streamKey)).Nodup) (hs : states[i]? = some s) :
    ∃ s', (tick states input)[i]? = some s' ∧ TickEffect states input i s s' := by
  have hattempts := @tickAttempts_eq _ _ _ _ input hkeys hs
  refine ⟨_, tick_getElem? hkeys hs, fun h => ?_, fun h => ?_⟩
  · have hone : tickAttempts s.streamKey states input = [attemptAt states input i s] :=
      hattempts.trans (if_pos h)
    rw [hone]
    exact ⟨rfl, rfl, after_consecutiveFailures _ _⟩
  · have hnone : tickAttempts s.streamKey states input = [] := hattempts.trans (if_neg h)
    rw [hnone]
    exact ⟨rfl, rfl⟩

/-- Streams do not share their failures. A stream's state after a run is a
function of its own attempts, so two runs that agree on them agree on its
counter and on the time of its next attempt, whatever other streams they have.
And in every tick of a run a stream is attempted if it is due and no shutdown
is requested up to its turn, its counter is zero after success alone, and
otherwise it keeps its state.

`workerRun_eq` has each stream's state as a fold of its attempts, of which the
counter and the time of the next attempt are a fold too; two runs with the same
attempts therefore agree on them. The rest is `tick_effect`, for the tick after
any run. -/
theorem streams_isolated (states : List (StreamRuntimeState N))
    (hkeys : (states.map (·.streamKey)).Nodup) (inputs : List (TickInput N)) (i : Nat)
    (s : StreamRuntimeState N) (hs : states[i]? = some s) :
    (workerRun states inputs)[i]?
        = some ((attemptsOf s.streamKey states inputs).foldl StreamRuntimeState.after s) ∧
    (∀ (others : List (StreamRuntimeState N)) (inputs' : List (TickInput N)) (j : Nat)
        (t : StreamRuntimeState N), (others.map (·.streamKey)).Nodup → others[j]? = some t →
      t.streamKey = s.streamKey → t.backoff = s.backoff →
      attemptsOf s.streamKey others inputs' = attemptsOf s.streamKey states inputs →
      (workerRun others inputs')[j]?.map (·.backoff)
        = (workerRun states inputs)[i]?.map (·.backoff)) ∧
    ∀ before input, before ++ [input] <+: inputs →
      ∃ t t', (workerRun states before)[i]? = some t ∧
        (workerRun states (before ++ [input]))[i]? = some t' ∧
        TickEffect (workerRun states before) input i t t' := by
  refine ⟨workerRun_eq hkeys inputs hs, ?_, fun before input _ => ?_⟩
  · intro others inputs' j t hkeys' ht hkey hbackoff hattempts
    rw [workerRun_eq hkeys inputs hs, workerRun_eq hkeys' inputs' ht, hkey, hattempts,
      Option.map_some, Option.map_some, foldl_after_backoff hbackoff]
  · have hkeys' : ((workerRun states before).map (·.streamKey)).Nodup := by
      rwa [workerRun_keys]
    have ht := workerRun_eq hkeys before hs
    obtain ⟨t', ht', heffect⟩ := @tick_effect _ _ _ _ input hkeys' ht
    exact ⟨_, t', ht, by rw [workerRun, Run.run_snoc]; exact ht', heffect⟩

/-- A source with nothing to show. -/
def emptySource : StreamSource Unit := fun _ => pure ⟨[], none⟩

def twoStreams : List (StreamRuntimeState Unit) :=
  [buildInitialStreamState "ct" emptySource (some "CT"),
    buildInitialStreamState "spp" emptySource none]

/-- The first stream's source is down twice; the second one's polls succeed,
and a shutdown is requested before its turn in the last tick. -/
def twoStreamTicks : List (TickInput Unit) :=
  [⟨1000, none, fun turn _ => if turn = 0 then .error (.fetch "timeout") else .ok ()⟩,
    ⟨2000, some fun _ => false, fun turn _ =>
      if turn = 0 then .error (.database "connection lost") else .ok ()⟩,
    ⟨9000, some fun turn => decide (turn = 1), fun _ _ => .ok ()⟩]

theorem streams_isolated_two :
    (workerRun twoStreams twoStreamTicks)[1]?.map (·.backoff) = some (0, 2000) ∧
      (workerRun twoStreams twoStreamTicks)[0]?.map (·.backoff) = some (0, 9000) ∧
      attemptsOf "ct" twoStreams twoStreamTicks = [⟨1000, false⟩, ⟨2000, false⟩, ⟨9000, true⟩] := by
  have hkeys : (twoStreams.map (·.streamKey)).Nodup := by decide
  have hct := (streams_isolated twoStreams hkeys twoStreamTicks 0 _ rfl).1
  have hspp := (streams_isolated twoStreams hkeys twoStreamTicks 1 _ rfl).1
  refine ⟨?_, ?_, by decide +kernel⟩
  · rw [hspp]
    decide +kernel
  · rw [hct]
    decide +kernel

end Indexer

end PrivacyWallet
