import PrivacyWallet.Indexer.Poller

/-!
# What indexing delivers how often

Any number of workers poll one stream. The source may serve any page at any
time: pages that overlap, pages served before, the same page to two workers
that read the same cursor. `committed` are the pages whose transaction went
through, `delivered` their events.

The rows and the cursor of a page are written in one transaction, so between
two accesses of a poll the tables hold whole pages (`Polling.resume`). What
they hold is a function of the committed pages alone (`Indexed`, carried by
`Indexed.commit` over a commit and by `indexed` over a run):

- the table `events` is filled on the events' ids, so it holds a delivered
  event once, however often it was delivered (`Indexed.events_perm`);
- the table `ct_activity` has no such key: it holds the rows of an event as
  often as the event was delivered (`activity_of_event`).

Comparing the second with its exactly-once content leaves one condition:
indexing is exactly-once in a run if and only if no event that has rows was
delivered twice (`exactly_once_iff`). The events that have no rows do not
matter, and what was delivered twice stays so, which makes the condition one
on the whole run.
-/

namespace PrivacyWallet

namespace Indexer

variable {V : Type}

/-- The network of a stream: the page that the source serves next. -/
abbrev Served : Type := StreamFetchResult

/-- A source that serves whatever the network has, for any cursor. -/
def anySource : StreamSource Served := fun _ => do
  let w ← Async.read
  pure w.net

/-- One step of a run: the network changes what it serves, a worker begins
a poll, goes on with it, or gives it up. -/
inductive PollStep where
  | serve (page : StreamFetchResult)
  | start (worker : Nat)
  | resume (worker : Nat)
  | abort (worker : Nat)

section Runs

variable (sdk : StellarSdk V) (streamKey token : String)

def PollStep.act : PollStep → Act (World Served) Nat StreamFetchResult
  | .serve page => .env fun w => { w with net := page }
  | .start worker => .start worker (pollStream sdk anySource streamKey (some token))
  | .resume worker => .resume worker
  | .abort worker => .abort worker

/-- Before the first poll. -/
def World.fresh : World Served where
  db := .empty
  net := ⟨[], none⟩

/-- The database after the steps. -/
def dbAfter (steps : List PollStep) : Db :=
  (Run.run Sys.exec ⟨World.fresh, fun _ => none⟩
    (steps.map (PollStep.act sdk streamKey token))).state.db

/-- The pages that the steps commit, in order. -/
def committed (steps : List PollStep) : List StreamFetchResult :=
  Run.history Sys.exec Sys.returned ⟨World.fresh, fun _ => none⟩
    (steps.map (PollStep.act sdk streamKey token))

/-- The events of the committed pages, in order. -/
def delivered (steps : List PollStep) : List RawEvent :=
  (committed sdk streamKey token steps).flatMap (·.events)

end Runs

/-- Every page served is made of events of the history. -/
def Serves (history : List RawEvent) (steps : List PollStep) : Prop :=
  ∀ page, .serve page ∈ steps → ∀ e ∈ page.events, e ∈ history

/-- Both tables hold what was delivered, once. -/
def ExactlyOnce (sdk : StellarSdk V) (token : String) (events : List RawEvent)
    (db : Db) : Prop :=
  db.events.Perm (events.dedup.map toNewEventRow) ∧
    db.ctActivity.Perm (events.dedup.flatMap (activityRows sdk token))

/-! ## What the tables hold -/

variable {sdk : StellarSdk V} {streamKey token : String} {history : List RawEvent}
  {steps : List PollStep}

/-- The tables after the pages `pages`: the events once each, the activity of every page. -/
structure Indexed (sdk : StellarSdk V) (token : String) (history : List RawEvent)
    (w : World Served) (pages : List StreamFetchResult) : Prop where
  events : w.db.events
    = Table.insertAllNew (·.id) [] ((pages.flatMap (·.events)).map toNewEventRow)
  ctActivity : w.db.ctActivity
    = (pages.flatMap (·.events)).flatMap (activityRows sdk token)
  served : ∀ e ∈ w.net.events, e ∈ history
  delivered : ∀ e ∈ pages.flatMap (·.events), e ∈ history

/-- The places at which a poll can be suspended. -/
inductive Polling (sdk : StellarSdk V) (streamKey token : String)
    (history : List RawEvent) : Async (World Served) StreamFetchResult → Prop where
  | start : Polling sdk streamKey token history
      (pollStream sdk anySource streamKey (some token))
  | fetching (cursor : Option String) : Polling sdk streamKey token history (do
      let page ← anySource cursor
      withTransaction (commitPage sdk streamKey (some token) page)
      pure page)
  | committing (page : StreamFetchResult) (hpage : ∀ e ∈ page.events, e ∈ history) :
      Polling sdk streamKey token history (do
        withTransaction (commitPage sdk streamKey (some token) page)
        pure page)

theorem Indexed.commit {w : World Served} {pages : List StreamFetchResult}
    (hw : Indexed sdk token history w pages) {page : StreamFetchResult}
    (hpage : ∀ e ∈ page.events, e ∈ history) :
    Indexed sdk token history
      { w with db := commitPage sdk streamKey (some token) page w.db }
      (pages ++ [page]) where
  events := by
    rw [commitPage_events, hw.events, List.flatMap_append, List.map_append,
      Table.insertAllNew_append, List.flatMap_singleton]
  ctActivity := by
    rw [commitPage_ctActivity, hw.ctActivity, List.flatMap_append, List.flatMap_append,
      List.flatMap_singleton]
  served := hw.served
  delivered := by
    intro e he
    rw [List.flatMap_append, List.mem_append, List.flatMap_singleton] at he
    rcases he with he | he
    · exact hw.delivered e he
    · exact hpage e he

/-- One access of a poll. It goes on to the next place, fails and changes nothing, or
commits its page. -/
theorem Polling.resume {p : Async (World Served) StreamFetchResult} {w : World Served}
    {pages : List StreamFetchResult} (hp : Polling sdk streamKey token history p)
    (hw : Indexed sdk token history w pages) :
    Sys.Kept (Indexed sdk token history) (Polling sdk streamKey token history) pages
      (p.resume w) := by
  cases hp with
  | start => exact ⟨.fetching (w.db.getCursor streamKey), hw⟩
  | fetching cursor => exact ⟨.committing w.net hw.served, hw⟩
  | committing page hpage => exact hw.commit hpage

theorem indexed (sdk : StellarSdk V) (streamKey token : String)
    (hserves : Serves history steps) :
    ∃ w, w.db = dbAfter sdk streamKey token steps ∧
      Indexed sdk token history w (committed sdk streamKey token steps) := by
  refine ⟨_, rfl, ?_⟩
  have h0 : Indexed sdk token history World.fresh [] :=
    ⟨rfl, rfl, fun e he => (by cases he), fun e he => (by cases he)⟩
  refine Sys.invariant (I := Indexed sdk token history)
    (T := Polling sdk streamKey token history)
    (P := fun a => ∃ s ∈ steps, PollStep.act sdk streamKey token s = a)
    (fun w pages p hp hw => hp.resume hw) ?_ ?_ h0 fun a ha => ?_
  · rintro i p ⟨s, -, hs⟩
    cases s <;> cases hs
    exact .start
  · rintro f w pages ⟨s, hmem, hs⟩ hw
    cases s with
    | serve page =>
        cases hs
        exact ⟨hw.events, hw.ctActivity, hserves page hmem, hw.delivered⟩
    | start worker => cases hs
    | resume worker => cases hs
    | abort worker => cases hs
  · obtain ⟨s, hs, rfl⟩ := List.mem_map.mp ha
    exact ⟨s, hs, rfl⟩

/-! ## Exactly once -/

theorem keyedBy_rows (hids : (history.map (·.id)).Nodup) :
    Table.KeyedBy (fun r : EventRow => r.id) fun r => ∃ e ∈ history, toNewEventRow e = r := by
  rintro _ _ ⟨a, ha, rfl⟩ ⟨b, hb, rfl⟩ hab
  rw [List.inj_on_of_nodup_map hids ha hb hab]

theorem toNewEventRow_injective : Function.Injective toNewEventRow := by
  rintro ⟨⟩ ⟨⟩ h
  simpa [toNewEventRow] using h

/-- The events table is exactly-once whatever is served. -/
theorem Indexed.events_perm {w : World Served} {pages : List StreamFetchResult}
    (hw : Indexed sdk token history w pages) (hids : (history.map (·.id)).Nodup) :
    w.db.events.Perm ((pages.flatMap (·.events)).dedup.map toNewEventRow) := by
  rw [hw.events]
  refine (Table.insertAllNew_perm_dedup (keyedBy_rows hids) fun r hr => ?_).trans ?_
  · obtain ⟨e, he, rfl⟩ := List.mem_map.mp hr
    exact ⟨e, hw.delivered e he, rfl⟩
  · rw [List.dedup_map_of_injective toNewEventRow_injective]

/-- The activity of one event: its rows, once for each delivery. -/
theorem activity_of_event (hids : (history.map (·.id)).Nodup) {events : List RawEvent}
    (hevents : ∀ e ∈ events, e ∈ history) {e : RawEvent} (he : e ∈ history) :
    ((events.flatMap (activityRows sdk token)).filter (·.eventId = e.id)).length
      = events.count e * (activityRows sdk token e).length := by
  induction events with
  | nil => simp
  | cons a events ih =>
      have ih := ih fun x hx => hevents x (List.mem_cons_of_mem _ hx)
      rw [List.flatMap_cons, List.filter_append, List.length_append, ih]
      by_cases hae : a = e
      · subst hae
        have hall : (activityRows sdk token a).filter (·.eventId = a.id)
            = activityRows sdk token a :=
          List.filter_eq_self.mpr fun r hr => by simpa using activityRows_eventId r hr
        rw [hall, List.count_cons_self, Nat.add_mul, Nat.one_mul, Nat.add_comm]
      · have hnone : (activityRows sdk token a).filter (·.eventId = e.id) = [] := by
          refine List.filter_eq_nil_iff.mpr fun r hr => ?_
          rw [activityRows_eventId r hr, decide_eq_true_eq]
          exact fun h => hae (List.inj_on_of_nodup_map hids
            (hevents a List.mem_cons_self) he h)
        rw [hnone, List.count_cons_of_ne hae, List.length_nil, Nat.zero_add]

/-- Events without rows do not matter for the activity. -/
theorem activity_filter (events : List RawEvent) :
    (events.filter fun e => activityRows sdk token e ≠ []).flatMap (activityRows sdk token)
      = events.flatMap (activityRows sdk token) := by
  induction events with
  | nil => rfl
  | cons a events ih =>
      by_cases ha : activityRows sdk token a = []
      · rw [List.filter_cons_of_neg (by simp [ha]), ih, List.flatMap_cons, ha,
          List.nil_append]
      · rw [List.filter_cons_of_pos (by simp [ha]), List.flatMap_cons, ih,
          List.flatMap_cons]

/-- The activity table is exactly-once if and only if no event with rows is offered twice:
rows of different events are different, so the count of an event's rows is the number of its
deliveries. -/
theorem activity_perm_iff (sdk : StellarSdk V) (token : String)
    (hids : (history.map (·.id)).Nodup) {events : List RawEvent}
    (hevents : ∀ e ∈ events, e ∈ history) :
    (events.flatMap (activityRows sdk token)).Perm
        (events.dedup.flatMap (activityRows sdk token)) ↔
      ∀ e ∈ events, activityRows sdk token e ≠ [] → events.count e = 1 := by
  constructor
  · intro hperm e he hrows
    have hlen := (hperm.filter (·.eventId = e.id)).length_eq
    rw [activity_of_event hids hevents (hevents e he),
      activity_of_event hids (fun x hx => hevents x (List.mem_dedup.mp hx)) (hevents e he),
      List.count_eq_one_of_mem events.nodup_dedup (List.mem_dedup.mpr he)] at hlen
    exact Nat.eq_of_mul_eq_mul_right (List.length_pos_iff.mpr hrows) hlen
  · intro hcount
    rw [← activity_filter events, ← activity_filter events.dedup]
    refine List.Perm.flatMap_right _ ?_
    refine (List.perm_ext_iff_of_nodup ?_ (events.nodup_dedup.filter _)).mpr fun x => ?_
    · refine List.nodup_iff_count_eq_one.mpr fun x hx => ?_
      obtain ⟨hx, hrows⟩ := List.mem_filter.mp hx
      rw [List.count_filter (p := fun e => decide (activityRows sdk token e ≠ [])) hrows]
      exact hcount x hx (by simpa using hrows)
    · simp

theorem delivered_mono (sdk : StellarSdk V) (streamKey token : String)
    {pre : List PollStep} (hpre : pre <+: steps) :
    delivered sdk streamKey token pre <+: delivered sdk streamKey token steps := by
  obtain ⟨rest, rfl⟩ := hpre
  rw [delivered, delivered, committed, committed, List.map_append, Run.history_append,
    List.flatMap_append]
  exact List.prefix_append _ _

theorem Serves.of_prefix {pre : List PollStep} (hserves : Serves history steps)
    (hpre : pre <+: steps) : Serves history pre :=
  fun page hpage => hserves page (hpre.subset hpage)

/-- In every run over one stream, both tables are exactly-once after every
step if and only if no event that has activity rows was delivered twice.

After each prefix of the run `ExactlyOnce` is a statement about the deliveries
alone: the events table has them once anyway (`Indexed.events_perm`), the
activity table exactly if no event with rows was delivered twice
(`activity_perm_iff`). Deliveries only grow, so the condition on the whole run
is that of each prefix. -/
theorem exactly_once_iff (sdk : StellarSdk V) (streamKey token : String)
    (history : List RawEvent) (hids : (history.map (·.id)).Nodup)
    (steps : List PollStep) (hserves : Serves history steps) :
    (∀ pre, pre <+: steps → ExactlyOnce sdk token (delivered sdk streamKey token pre)
        (dbAfter sdk streamKey token pre)) ↔
      ∀ e ∈ delivered sdk streamKey token steps, activityRows sdk token e ≠ [] →
        (delivered sdk streamKey token steps).count e = 1 := by
  -- what `ExactlyOnce` says after `pre`, in terms of the deliveries alone
  have hafter : ∀ pre, pre <+: steps →
      (ExactlyOnce sdk token (delivered sdk streamKey token pre)
          (dbAfter sdk streamKey token pre) ↔
        ∀ e ∈ delivered sdk streamKey token pre, activityRows sdk token e ≠ [] →
          (delivered sdk streamKey token pre).count e = 1) := by
    intro pre hpre
    obtain ⟨w, hdb, hw⟩ := indexed sdk streamKey token (hserves.of_prefix hpre)
    have hevents := hw.events_perm hids
    have hactivity := activity_perm_iff sdk token hids hw.delivered
    rw [← hw.ctActivity, hdb] at hactivity
    rw [hdb] at hevents
    exact (and_iff_right hevents).trans hactivity
  constructor
  · intro hall
    exact (hafter steps (List.prefix_refl _)).mp (hall steps (List.prefix_refl _))
  · intro hcount pre hpre
    refine (hafter pre hpre).mpr fun e he hrows => ?_
    have hsub := delivered_mono sdk streamKey token hpre
    have hle := hsub.sublist.count_le e
    have hpos := List.count_pos_iff.mpr he
    have hone := hcount e (hsub.subset he) hrows
    omega

/-! ## A page that is served twice -/

/-- One whole poll of a worker that is served the event. -/
def mergePoll : List PollStep :=
  [.serve ⟨[mergeEvent], some "cursor-1"⟩, .start 0, .resume 0, .resume 0, .resume 0]

theorem exactly_once_iff_merge :
    ExactlyOnce mergeSdk mergeToken (delivered mergeSdk "ct" mergeToken mergePoll)
      (dbAfter mergeSdk "ct" mergeToken mergePoll) := by
  refine (exactly_once_iff mergeSdk "ct" mergeToken [mergeEvent] (by decide) mergePoll
    ?_).mpr ?_ mergePoll (List.prefix_refl _)
  · intro page hpage
    simp only [mergePoll, List.mem_cons] at hpage
    rcases hpage with h | h | h | h | h | h <;> cases h
    exact fun e he => he
  · intro e he _
    have hdelivered : delivered mergeSdk "ct" mergeToken mergePoll = [mergeEvent] := by rfl
    rw [hdelivered] at he ⊢
    rw [List.mem_singleton.mp he, List.count_singleton_self]

/-- The page is served again, as an overlapping page or to a second worker:
the account has the row of the event twice. -/
theorem merge_served_twice :
    Serves [mergeEvent] (mergePoll ++ mergePoll) ∧
      ¬ExactlyOnce mergeSdk mergeToken
        (delivered mergeSdk "ct" mergeToken (mergePoll ++ mergePoll))
        (dbAfter mergeSdk "ct" mergeToken (mergePoll ++ mergePoll)) := by
  constructor
  · intro page hpage
    simp only [mergePoll, List.mem_append, List.mem_cons] at hpage
    rcases hpage with (h | h | h | h | h | h) | h | h | h | h | h | h <;> cases h
    · exact fun e he => he
    · exact fun e he => he
  · intro hexact
    have hdelivered : delivered mergeSdk "ct" mergeToken (mergePoll ++ mergePoll)
        = [mergeEvent, mergeEvent] := by rfl
    have hrows : (dbAfter mergeSdk "ct" mergeToken (mergePoll ++ mergePoll)).ctActivity.length
        = 2 := by rfl
    have hlen := hexact.2.length_eq
    rw [hdelivered, hrows] at hlen
    revert hlen
    decide

end Indexer

end PrivacyWallet
