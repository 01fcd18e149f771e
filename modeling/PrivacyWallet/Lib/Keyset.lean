import PrivacyWallet.Lib.Async
import Mathlib.Data.List.Sort

/-!
# Pages of a growing table

A table is read page by page: each page holds the first rows, in the order
of their positions, that lie past the last row of the page before. The table
grows meanwhile. `Collected` is what the pages so far amount to: all rows up
to the place reached, of those that are `good`, in order. A page goes on from
there (`Collected.page`), new rows do no harm (`Collected.grew`), and a page
that takes all the rest ends it (`Collected.rest`). `follow` is a client that
goes from page to page until no next one is named; over a table that grows it
collects the good rows (`follow_feed`).
-/

namespace PrivacyWallet

namespace Keyset

variable {α P : Type} [LinearOrder P]

/-- The rows in the order of their positions. -/
def ordered (pos : α → P) (rows : List α) : List α :=
  rows.insertionSort fun a b => pos a ≤ pos b

/-- Past the place that was reached; `none` is the start. -/
def past (c : Option P) (p : P) : Bool := c.all fun q => decide (q < p)

/-- The first `n` rows past `c`. -/
def window (pos : α → P) (rows : List α) (c : Option P) (n : Nat) : List α :=
  (ordered pos (rows.filter fun r => past c (pos r))).take n

variable {pos : α → P} {rows rows' received : List α} {c : Option P} {n : Nat}
  {good good' : α → Prop}

/-! ## The order of the rows -/

theorem ordered_perm (rows : List α) : (ordered pos rows).Perm rows := List.perm_insertionSort _ _

theorem mem_ordered {r : α} : r ∈ ordered pos rows ↔ r ∈ rows := (ordered_perm rows).mem_iff

/-- Rows with positions of their own are strictly ordered. -/
theorem ordered_sorted (h : (rows.map pos).Nodup) :
    (ordered pos rows).Pairwise fun a b => pos a < pos b := by
  have : @Std.Total α fun a b => pos a ≤ pos b := ⟨fun a b => le_total _ _⟩
  have : IsTrans α fun a b => pos a ≤ pos b := ⟨fun a b c => le_trans⟩
  have hle : (ordered pos rows).Pairwise fun a b => pos a ≤ pos b :=
    List.pairwise_insertionSort _ rows
  have hne : (ordered pos rows).Pairwise fun a b => pos a ≠ pos b :=
    List.pairwise_map.mp (((ordered_perm rows).map pos).nodup_iff.mpr h)
  exact (hle.and hne).imp fun h => lt_of_le_of_ne h.1 h.2

theorem past_none (p : P) : past none p = true := rfl

theorem past_some {p q : P} : past (some q) p = true ↔ q < p := decide_eq_true_iff

theorem not_past_some {p q : P} : past (some q) p = false ↔ p ≤ q := by
  rw [← Bool.not_eq_true, past_some, not_lt]

/-- Between a row that is not past the place and one that is. -/
theorem lt_of_past {p q : P} (hp : past c p = false) (hq : past c q = true) : p < q := by
  cases c with
  | none => cases hp
  | some place => exact (not_past_some.mp hp).trans_lt (past_some.mp hq)

theorem mem_of_mem_window {r : α} (h : r ∈ window pos rows c n) :
    r ∈ rows ∧ past c (pos r) = true := by
  have hmem := mem_ordered.mp (List.mem_of_mem_take h)
  exact List.mem_filter.mp hmem

theorem past_distinct (h : (rows.map pos).Nodup) (c : Option P) :
    ((rows.filter fun r => past c (pos r)).map pos).Nodup :=
  h.sublist (List.filter_sublist.map pos)

theorem window_sorted (h : (rows.map pos).Nodup) :
    (window pos rows c n).Pairwise fun a b => pos a < pos b :=
  (ordered_sorted (past_distinct h c)).sublist (List.take_sublist _ _)

/-- A row is among the first `n` if fewer than `n` rows come before it. -/
theorem mem_take_iff {l : List α} (hl : l.Pairwise fun a b => pos a < pos b) (n : Nat) (r : α) :
    r ∈ l.take n ↔ r ∈ l ∧ l.countP (fun x => decide (pos x < pos r)) < n := by
  induction l generalizing n with
  | nil => simp
  | cons a l ih =>
      obtain ⟨ha, hl⟩ := List.pairwise_cons.mp hl
      cases n with
      | zero => simp
      | succ n =>
          rw [List.take_succ_cons, List.mem_cons, List.mem_cons, ih hl n, List.countP_cons]
          by_cases hra : r = a
          · subst hra
            -- no row of the list comes before its first one
            have hnone : l.countP (fun x => decide (pos x < pos r)) = 0 := by
              refine List.countP_eq_zero.mpr fun x hx => ?_
              simpa using (ha x hx).le
            simp [hnone]
          · by_cases hr : r ∈ l
            · simp [hra, hr, ha r hr]
            · simp [hra, hr]

theorem mem_window_iff (h : (rows.map pos).Nodup) (r : α) :
    r ∈ window pos rows none n ↔
      r ∈ rows ∧ rows.countP (fun x => decide (pos x < pos r)) < n := by
  have hall : (rows.filter fun r => past (none : Option P) (pos r)) = rows :=
    List.filter_eq_self.mpr fun _ _ => rfl
  rw [window, hall, mem_take_iff (ordered_sorted h), mem_ordered, (ordered_perm rows).countP_eq]

/-- An empty page: no row is left. -/
theorem filter_past_of_window_nil (hn : 0 < n) (h : window pos rows c n = []) :
    (rows.filter fun r => past c (pos r)) = [] := by
  rcases List.take_eq_nil_iff.mp h with h | h
  · omega
  · have hperm : (ordered pos (rows.filter fun r => past c (pos r))).Perm _ := ordered_perm _
    rw [h] at hperm
    exact hperm.symm.eq_nil

/-- No row of a sorted list comes after its last one. -/
theorem le_getLast {l : List α} (h : l.Pairwise fun a b => pos a < pos b) {last r : α}
    (hlast : l.getLast? = some last) (hr : r ∈ l) : pos r ≤ pos last := by
  obtain ⟨l, rfl⟩ := List.getLast?_eq_some_iff.mp hlast
  rcases List.mem_append.mp hr with hr | hr
  · exact ((List.pairwise_append.mp h).2.2 r hr last List.mem_cons_self).le
  · rw [List.mem_singleton.mp hr]

/-- A row that is not on the page, though past the place before it, comes
after the page. -/
theorem lt_of_notMem_window (h : (rows.map pos).Nodup) {last r : α}
    (hlast : last ∈ window pos rows c n) (hr : r ∈ rows) (hpast : past c (pos r) = true)
    (hnot : r ∉ window pos rows c n) : pos last < pos r := by
  have hsorted := ordered_sorted (past_distinct h c)
  have hmem : r ∈ ordered pos (rows.filter fun r => past c (pos r)) :=
    mem_ordered.mpr (List.mem_filter.mpr ⟨hr, hpast⟩)
  rw [← List.take_append_drop n (ordered pos _)] at hsorted hmem
  have hdrop := (List.mem_append.mp hmem).resolve_left hnot
  exact (List.pairwise_append.mp hsorted).2.2 last hlast r hdrop

/-! ## What the pages amount to -/

/-- `received` are rows of the table up to the place `c`, in order, and all
the good ones. -/
structure Collected (pos : α → P) (good : α → Prop) (rows : List α) (c : Option P)
    (received : List α) : Prop where
  sorted : received.Pairwise fun a b => pos a < pos b
  held : ∀ r ∈ received, r ∈ rows
  upTo : ∀ r ∈ received, past c (pos r) = false
  place : ∀ p, c = some p → ∃ r ∈ rows, pos r = p
  all : ∀ r, good r → past c (pos r) = false → r ∈ received

theorem Collected.start (good : α → Prop) (rows : List α) : Collected pos good rows none [] where
  sorted := List.Pairwise.nil
  held r hr := by cases hr
  upTo r hr := by cases hr
  place p hp := by cases hp
  all r _ hr := by cases hr

/-- The table grew, and what became good lies after all rows before. -/
theorem Collected.grew (h : Collected pos good rows c received) (hmono : ∀ r ∈ rows, r ∈ rows')
    (hlate : ∀ r, good' r → good r ∨ ∀ s ∈ rows, pos s < pos r) :
    Collected pos good' rows' c received where
  sorted := h.sorted
  held r hr := hmono r (h.held r hr)
  upTo := h.upTo
  place p hp := by
    obtain ⟨r, hr, hpos⟩ := h.place p hp
    exact ⟨r, hmono r hr, hpos⟩
  all r hr hpast := by
    rcases hlate r hr with hr | hlt
    · exact h.all r hr hpast
    · cases c with
      | none => cases hpast
      | some p =>
          obtain ⟨s, hs, rfl⟩ := h.place p rfl
          exact absurd (hlt s hs) (not_lt.mpr (not_past_some.mp hpast))

theorem Collected.append_sorted (h : Collected pos good rows c received)
    (hrows : (rows.map pos).Nodup) (n : Nat) :
    (received ++ window pos rows c n).Pairwise fun a b => pos a < pos b := by
  refine List.pairwise_append.mpr ⟨h.sorted, window_sorted hrows, ?_⟩
  intro a ha b hb
  exact lt_of_past (h.upTo a ha) (mem_of_mem_window hb).2

theorem Collected.append_held (h : Collected pos good rows c received) (n : Nat) :
    ∀ r ∈ received ++ window pos rows c n, r ∈ rows := by
  intro r hr
  rcases List.mem_append.mp hr with hr | hr
  · exact h.held r hr
  · exact (mem_of_mem_window hr).1

/-- One more page. -/
theorem Collected.page (h : Collected pos good rows c received) (hrows : (rows.map pos).Nodup)
    (hgood : ∀ r, good r → r ∈ rows) {last : α}
    (hlast : (window pos rows c n).getLast? = some last) :
    Collected pos good rows (some (pos last)) (received ++ window pos rows c n) where
  sorted := h.append_sorted hrows n
  held := h.append_held n
  upTo r hr := by
    have hmem := List.mem_of_getLast? hlast
    rw [not_past_some]
    rcases List.mem_append.mp hr with hr | hr
    · exact (lt_of_past (h.upTo r hr) (mem_of_mem_window hmem).2).le
    · exact le_getLast (window_sorted hrows) hlast hr
  place p hp := by
    cases hp
    exact ⟨last, (mem_of_mem_window (List.mem_of_getLast? hlast)).1, rfl⟩
  all r hr hpast := by
    rw [List.mem_append]
    cases hc : past c (pos r) with
    | false => exact Or.inl (h.all r hr hc)
    | true =>
        by_contra hnot
        have hlt := lt_of_notMem_window hrows (List.mem_of_getLast? hlast) (hgood r hr) hc
          fun hmem => hnot (Or.inr hmem)
        exact absurd hlt (not_lt.mpr (not_past_some.mp hpast))

/-- The last page: it takes all rows that are left. -/
theorem Collected.rest (h : Collected pos good rows c received)
    (hgood : ∀ r, good r → r ∈ rows)
    (hn : (rows.filter fun r => past c (pos r)).length ≤ n) :
    ∀ r, good r → r ∈ received ++ window pos rows c n := by
  intro r hr
  rw [List.mem_append]
  cases hc : past c (pos r) with
  | false => exact Or.inl (h.all r hr hc)
  | true =>
      refine Or.inr ?_
      rw [window, List.take_of_length_le (by rwa [(ordered_perm _).length_eq])]
      exact mem_ordered.mpr (List.mem_filter.mpr ⟨hgood r hr, hc⟩)

theorem nodup_of_sorted {l : List α} (hl : l.Pairwise fun a b => pos a < pos b) : l.Nodup := by
  refine hl.imp fun {a b} h heq => ?_
  subst heq
  exact lt_irrefl _ h

/-- Rows of a table, in order, are not more than the table's. -/
theorem length_le_of_sorted {l : List α} (hl : l.Pairwise fun a b => pos a < pos b)
    (hrows : ∀ r ∈ l, r ∈ rows) : l.length ≤ rows.length :=
  (List.subperm_of_subset (nodup_of_sorted hl) hrows).length_le

/-! ## Clients that follow the pages -/

/-- How a client ends that follows the pages it is given. -/
inductive Followed (β : Type) where
  | finished (received : List β)
  | refused (received : List β)
  | unfinished (received : List β)
deriving DecidableEq

variable {σ κ ℓ β : Type}

/-- One request for each limit: it goes on where the page says, until a page
names no next one. A request that is refused ends it. -/
def follow (request : κ → ℓ → Async σ (Option (List β × Option κ))) :
    κ → List β → List ℓ → Async σ (Followed β)
  | _, received, [] => pure (.unfinished received)
  | start, received, limit :: limits => do
      match ← request start limit with
      | none => pure (.refused received)
      | some (page, none) => pure (.finished (received ++ page))
      | some (page, some next) => follow request next (received ++ page) limits

/-- A table along the states `s`: positions stay distinct, rows stay, and a
row that becomes good later lies after all rows before. -/
structure Grows (pos : α → P) (rows : σ → List α) (good : σ → α → Prop) (s : Nat → σ) : Prop where
  distinct : ∀ i, ((rows (s i)).map pos).Nodup
  held : ∀ i r, good (s i) r → r ∈ rows (s i)
  mono : ∀ i j, i ≤ j → ∀ r ∈ rows (s i), r ∈ rows (s j)
  late : ∀ i j, i ≤ j → ∀ r, good (s j) r → good (s i) r ∨ ∀ t ∈ rows (s i), pos t < pos r

/-- Once nothing is inserted any more, the table is at its longest. -/
theorem Grows.length_le {rows : σ → List α} {good : σ → α → Prop} {s : Nat → σ}
    (h : Grows pos rows good s) {k : Nat} (hk : ∀ i, k ≤ i → rows (s i) = rows (s k)) (i : Nat) :
    (rows (s i)).length ≤ (rows (s k)).length := by
  rcases Nat.le_total i k with hik | hik
  · have hnodup : (rows (s i)).Nodup := List.Nodup.of_map pos (h.distinct i)
    exact (List.subperm_of_subset hnodup (h.mono i k hik)).length_le
  · rw [hk i hik]

/-- A request from the place `c` is answered with a page of the rows at one
of its accesses, the one before its last `tail`; a next page is named if and
only if rows are left. `At` says which requests go on from which place. -/
structure Answers (pos : α → P) (rows : σ → List α) (wire : α → β) (At : σ → κ → Option P → Prop)
    (tail : Nat) (s : Nat → σ) (c : Option P) (answered : Nat × Option (List β × Option κ))
    (j n : Nat) (next : Option κ) : Prop where
  accesses : answered.1 = j + 1 + tail
  answer : answered.2 = some ((window pos (rows (s j)) c n).map wire, next)
  positive : 0 < n
  last : next = none → ((rows (s j)).filter fun r => past c (pos r)).length ≤ n
  more : ∀ k, next = some k → n < ((rows (s j)).filter fun r => past c (pos r)).length ∧
    ∀ r, (window pos (rows (s j)) c n).getLast? = some r → ∀ i, j ≤ i → At (s i) k (some (pos r))

section Follow

variable {rows : σ → List α} {good : σ → α → Prop} {wire : α → β} {At : σ → κ → Option P → Prop}
  {tail : Nat} {request : κ → ℓ → Async σ (Option (List β × Option κ))}

theorem length_window (h : n < (rows'.filter fun r => past c (pos r)).length) :
    (window pos rows' c n).length = n := by
  rw [window, List.length_take, (ordered_perm _).length_eq]
  omega

/-- An answer that names the last row of its page if there was one row more. -/
theorem Answers.of_spare {s : Nat → σ} {answered : Nat × Option (List β × Option κ)} {j : Nat}
    (nextOf : α → κ) (haccesses : answered.1 = j + 1 + tail)
    (hanswer : answered.2 = some ((window pos (rows (s j)) c n).map wire,
      if n < ((rows (s j)).filter fun r => past c (pos r)).length
      then (window pos (rows (s j)) c n).getLast?.map nextOf else none))
    (hn : 0 < n) (hat : ∀ r ∈ rows (s j), ∀ i, j ≤ i → At (s i) (nextOf r) (some (pos r))) :
    ∃ next, Answers pos rows wire At tail s c answered j n next := by
  refine ⟨_, haccesses, hanswer, hn, ?_, ?_⟩
  · intro hnone
    by_contra hmore
    rw [if_pos (by omega), Option.map_eq_none_iff, List.getLast?_eq_none_iff] at hnone
    have hlen := @length_window _ _ _ pos (rows (s j)) c n (by omega)
    rw [hnone, List.length_nil] at hlen
    omega
  · intro k hk
    by_cases hmore : n < ((rows (s j)).filter fun r => past c (pos r)).length
    · refine ⟨hmore, fun r hr i hi => ?_⟩
      rw [if_pos hmore, hr, Option.map_some, Option.some.injEq] at hk
      subst hk
      exact hat r (mem_of_mem_window (List.mem_of_getLast? hr)).1 i hi
    · rw [if_neg hmore] at hk
      cases hk

/-- A client that follows the pages collects the good rows as they are when
the last page is read; or its limits are used up, and each of them brought it
a row. `G` is what is known of the states, and stays so as they go on. -/
theorem follow_feed
    {G : (Nat → σ) → Prop} (hshift : ∀ s n, G s → G fun i => s (n + i))
    (hgrows : ∀ s, G s → Grows pos rows good s)
    (hrequest : ∀ s, G s → ∀ k c limit, At (s 0) k c →
      ∃ j n next, Answers pos rows wire At tail s c ((request k limit).feed s) j n next) :
    ∀ (limits : List ℓ) (s : Nat → σ) (k : κ) (c : Option P) (received : List α),
      G s → At (s 0) k c → Collected pos (good (s 0)) (rows (s 0)) c received →
      let out := (follow request k (received.map wire) limits).feed s
      (∃ (j : Nat) (l : List α), out = (j + 1 + tail, .finished (l.map wire)) ∧
        l.Pairwise (fun a b => pos a < pos b) ∧ (∀ r, good (s j) r → r ∈ l) ∧
        ∀ r ∈ l, r ∈ rows (s j)) ∨
      ∃ l i, out.2 = .unfinished l ∧ received.length + limits.length ≤ (rows (s i)).length := by
  intro limits
  induction limits with
  | nil =>
      intro s k c received _ _ hc
      exact Or.inr ⟨_, 0, rfl, length_le_of_sorted hc.sorted hc.held⟩
  | cons limit limits ih =>
      intro s k c received hG hat hc out
      obtain ⟨j, n, next, h⟩ := hrequest s hG k c limit hat
      have hs := hgrows s hG
      have hj : Collected pos (good (s j)) (rows (s j)) c received :=
        hc.grew (hs.mono 0 j (Nat.zero_le j)) (hs.late 0 j (Nat.zero_le j))
      have hout : out = (follow request k (received.map wire) (limit :: limits)).feed s := rfl
      rw [follow, Async.feed_bind, h.answer] at hout
      cases next with
      | none =>
          refine Or.inl ⟨j, received ++ window pos (rows (s j)) c n, ?_,
            hj.append_sorted (hs.distinct j) n, hj.rest (hs.held j) (h.last rfl),
            hj.append_held n⟩
          rw [hout, h.accesses, List.map_append]
          rfl
      | some k' =>
          obtain ⟨hmore, hat'⟩ := h.more k' rfl
          have hlen := length_window hmore
          have hne : window pos (rows (s j)) c n ≠ [] :=
            List.ne_nil_of_length_pos (hlen.symm ▸ h.positive)
          have hlast := List.getLast?_eq_getLast_of_ne_nil hne
          generalize (window pos (rows (s j)) c n).getLast hne = last at hlast
          have hpage := (hj.page (hs.distinct j) (hs.held j) hlast).grew
            (hs.mono j (j + 1 + tail) (by omega)) (hs.late j (j + 1 + tail) (by omega))
          rw [h.accesses] at hout
          dsimp only at hout
          rw [← List.map_append] at hout
          rcases ih (fun i => s (j + 1 + tail + i)) k' _ _ (hshift s _ hG)
            (hat' last hlast _ (by omega)) hpage with ⟨j', l, hrest, h'⟩ | ⟨l, i, hrest, hle⟩
          · refine Or.inl ⟨j + 1 + tail + j', l, ?_, h'⟩
            rw [hout, hrest]
            simp only [Nat.add_assoc]
          · refine Or.inr ⟨l, j + 1 + tail + i, ?_, ?_⟩
            · rw [hout, hrest]
            · rw [List.length_append, hlen] at hle
              have := h.positive
              rw [List.length_cons]
              omega

end Follow

end Keyset

end PrivacyWallet
