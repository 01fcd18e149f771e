import Mathlib.Data.List.Sort
import PrivacyWallet.Lib.Checks
import PrivacyWallet.Lib.Selection
import PrivacyWallet.Planner.Combination

/-!
# The choice of the fewest notes

Each tier of `find_combination` is followed by what its answer means. The
scan for pairs closes a window from both ends; the depth-first search runs
into an answer on its first descent, as the largest notes come first, so its
bounded number of steps never costs a solution of the smallest size. Together:
no choice of fewer notes reaches the goal, up to the preference of a pair over
a single note (`findCombination_answers`).
-/

namespace PrivacyWallet

namespace Planner

open Checks Selection

variable {F : Type} {goal : NoteAmount} {sorted : List Entry}

/-- The amount of an entry. -/
def amount (e : Entry) : Nat := e.2.val

/-- What the entries are worth together. -/
abbrev total (l : List Entry) : Nat := weight amount l

/-! ## Pairs -/

/-- The smallest amount is in front. -/
abbrev Ascending (sorted : List Entry) : Prop :=
  sorted.Pairwise fun a b => amount a ≤ amount b

/-- No pair reaches the goal without exceeding it by `excess` at least. -/
def Least (goal : NoteAmount) (excess : Nat) (x y : Entry) : Prop :=
  amount x + amount y < goal.val ∨ goal.val + excess ≤ amount x + amount y

/-- What the scan for pairs answers. -/
inductive TwoScan.Spec (sorted : List Entry) (goal : NoteAmount) : TwoScan → Prop where
  | exact {x y : Entry} (hsub : [x, y].Sublist sorted)
      (hsum : amount x + amount y = goal.val) : Spec sorted goal (.exact x.1 y.1)
  | overshoot {x y : Entry} {excess : NoteAmount} (hsub : [x, y].Sublist sorted)
      (hsum : amount x + amount y = goal.val + excess.val)
      (hleast : sorted.Pairwise (Least goal excess.val)) :
      Spec sorted goal (.overshoot x.1 y.1 excess)
  | miss (hnone : sorted.Pairwise fun x y => amount x + amount y < goal.val) :
      Spec sorted goal .miss

/-- The best overshoot so far is one of a pair. -/
def TwoScan.Found (sorted : List Entry) (goal : NoteAmount) (b : Nat × Nat × NoteAmount) : Prop :=
  ∃ x y, [x, y].Sublist sorted ∧ amount x + amount y = goal.val + b.2.2.val ∧ b.1 = x.1 ∧
    b.2.1 = y.1

/-- A pair of positions that the scan has dealt with. -/
def TwoScan.Done (sorted : List Entry) (goal : NoteAmount)
    (best : Option (Nat × Nat × NoteAmount)) (i j : Nat) : Prop :=
  ∀ (hi : i < sorted.length) (hj : j < sorted.length),
    amount sorted[i] + amount sorted[j] < goal.val ∨
      ∃ b ∈ best, goal.val + b.2.2.val ≤ amount sorted[i] + amount sorted[j]

theorem pair_sublist {i j : Nat} (hij : i < j) (hj : j < sorted.length) :
    [sorted[i], sorted[j]].Sublist sorted := by
  have hpairs : sorted.Pairwise fun a b => [a, b].Sublist sorted :=
    List.pairwise_iff_forall_sublist.mpr id
  exact List.pairwise_iff_getElem.mp hpairs i j _ hj hij

theorem amount_mono (h : Ascending sorted) {i j : Nat} (hij : i ≤ j) (hj : j < sorted.length) :
    amount sorted[i] ≤ amount sorted[j] := by
  rcases Nat.eq_or_lt_of_le hij with rfl | hlt
  · exact le_refl _
  · exact List.pairwise_iff_getElem.mp h i j _ hj hlt

/-- The end of the loop. -/
theorem TwoScan.spec_of_done {best : Option (Nat × Nat × NoteAmount)}
    (hfound : ∀ b ∈ best, TwoScan.Found sorted goal b)
    (hdone : ∀ i j, i < j → j < sorted.length → TwoScan.Done sorted goal best i j) :
    TwoScan.Spec sorted goal (match best with
      | some (i, j, excess) => .overshoot i j excess
      | none => .miss) := by
  cases best with
  | none =>
      refine .miss (List.pairwise_iff_getElem.mpr fun i j hi hj hij => ?_)
      rcases hdone i j hij hj hi hj with h | ⟨b, hb, -⟩
      · exact h
      · cases hb
  | some b =>
      obtain ⟨a, c, excess⟩ := b
      obtain ⟨x, y, hsub, hsum, rfl, rfl⟩ := hfound _ rfl
      refine .overshoot hsub hsum (List.pairwise_iff_getElem.mpr fun i j hi hj hij => ?_)
      rcases hdone i j hij hj hi hj with h | ⟨b, hb, h⟩
      · exact Or.inl h
      · cases hb
        exact Or.inr h

variable {best : Option (Nat × Nat × NoteAmount)} {b : Nat × Nat × NoteAmount} {i j : Nat}

theorem TwoScan.found_improve (hfound : ∀ b ∈ best, TwoScan.Found sorted goal b)
    (hb : TwoScan.Found sorted goal b) :
    ∀ b' ∈ TwoScan.improve best b, TwoScan.Found sorted goal b' := by
  unfold TwoScan.improve
  intro b' hb'
  split at hb'
  · cases hb'
    exact hb
  · split at hb' <;> cases hb'
    · exact hb
    · exact hfound _ rfl

/-- A pair at least as far above the goal as the one found is done with. -/
theorem TwoScan.done_improve_of_le
    (hle : ∀ (hi : i < sorted.length) (hj : j < sorted.length),
      goal.val + b.2.2.val ≤ amount sorted[i] + amount sorted[j]) :
    TwoScan.Done sorted goal (TwoScan.improve best b) i j := by
  intro hi hj
  have hsum := hle hi hj
  unfold TwoScan.improve
  split
  · exact Or.inr ⟨b, rfl, hsum⟩
  · rename_i old
    split
    · exact Or.inr ⟨b, rfl, hsum⟩
    · exact Or.inr ⟨old, rfl, by omega⟩

theorem TwoScan.Done.improve (h : TwoScan.Done sorted goal best i j) :
    TwoScan.Done sorted goal (TwoScan.improve best b) i j := by
  intro hi hj
  rcases h hi hj with hlow | ⟨old, hold, hle⟩
  · exact Or.inl hlow
  · obtain rfl := Option.mem_def.mp hold
    rw [TwoScan.improve]
    split
    · exact Or.inr ⟨b, rfl, by omega⟩
    · exact Or.inr ⟨old, rfl, hle⟩

/-- Each turn of the loop settles the pairs of one end of the window, as the
amounts between the ends lie between theirs. -/
theorem TwoScan.loop_spec (hasc : Ascending sorted) :
    ∀ {gap left : Nat} {h : left + gap < sorted.length}
      {best : Option (Nat × Nat × NoteAmount)} {r : TwoScan},
      (∀ b ∈ best, TwoScan.Found sorted goal b) →
      Settled (TwoScan.Done sorted goal best) sorted.length left (left + gap) →
      TwoScan.loop (F := F) sorted goal gap left h best = .ok r → TwoScan.Spec sorted goal r
  | 0, left, _, best, r, hfound, hset, hrun => by
      cases hrun
      exact TwoScan.spec_of_done hfound (hset.all (le_refl _))
  | gap + 1, left, h, best, r, hfound, hset, hrun => by
      rw [TwoScan.loop] at hrun
      split at hrun
      · cases hrun
      rename_i sum hadd
      have hsum : sum.val = amount sorted[left] + amount sorted[left + (gap + 1)] :=
        NoteAmount.checkedAdd_eq_some.mp hadd
      split at hrun
      · -- too little even with the largest note left
        rename_i hsub
        have hlow := NoteAmount.checkedSub_eq_none.mp hsub
        have hset' := hset.succ_left fun j _ hj _ _ => Or.inl (by
          have hmono := amount_mono hasc hj h
          omega)
        rw [show left + (gap + 1) = left + 1 + gap by omega] at hset'
        exact TwoScan.loop_spec hasc hfound hset' hrun
      rename_i diff hsub
      have hdiff : sum.val = goal.val + diff.val := NoteAmount.checkedSub_eq_some.mp hsub
      have hpair : [sorted[left], sorted[left + (gap + 1)]].Sublist sorted :=
        pair_sublist (by omega) h
      split at hrun
      · cases hrun
        exact .exact hpair (by omega)
      · -- with a larger note on the left the excess only grows
        have hnew : TwoScan.Found sorted goal
            (sorted[left].1, sorted[left + (gap + 1)].1, diff) :=
          ⟨_, _, hpair, hsum.symm.trans hdiff, rfl, rfl⟩
        have hset' : Settled (TwoScan.Done sorted goal (TwoScan.improve best
            (sorted[left].1, sorted[left + (gap + 1)].1, diff))) sorted.length left
            (left + gap) := by
          refine (hset.imp fun i j _ hd => hd.improve).pred_right fun i hi _ =>
            TwoScan.done_improve_of_le fun hi' _ => ?_
          have hmono := amount_mono hasc hi hi'
          show goal.val + diff.val ≤ amount sorted[i] + amount sorted[left + (gap + 1)]
          omega
        exact TwoScan.loop_spec hasc (TwoScan.found_improve hfound hnew) hset' hrun

theorem TwoScan.scan_spec (hasc : Ascending sorted) {r : TwoScan}
    (hrun : TwoScan.scan (F := F) sorted goal = .ok r) : TwoScan.Spec sorted goal r := by
  unfold TwoScan.scan at hrun
  split at hrun
  · rename_i hshort
    cases hrun
    refine .miss (List.pairwise_iff_getElem.mpr fun i j _ hj hij => ?_)
    omega
  · refine TwoScan.loop_spec hasc (fun b hb => by cases hb) ?_ hrun
    rw [Nat.zero_add]
    exact settled_start _ _

/-! ## Single notes -/

/-- What the scan for single notes answers. -/
inductive OneScan.Spec (sorted : List Entry) (goal : NoteAmount) : OneScan → Prop where
  | exact {x : Entry} (hmem : x ∈ sorted) (hsum : amount x = goal.val) :
      Spec sorted goal (.exact x.1)
  | overshoot {x : Entry} {excess : NoteAmount} (hmem : x ∈ sorted)
      (hsum : amount x = goal.val + excess.val) : Spec sorted goal (.overshoot x.1 excess)
  | miss (hnone : ∀ x ∈ sorted, amount x < goal.val) : Spec sorted goal .miss

theorem OneScan.scan_spec : ∀ sorted : List Entry,
    OneScan.Spec sorted goal (OneScan.scan goal sorted)
  | [] => .miss fun _ h => by cases h
  | (idx, x) :: sorted => by
      rw [OneScan.scan]
      split
      · rename_i hsub
        have hlow := NoteAmount.checkedSub_eq_none.mp hsub
        have hrest : OneScan.Spec sorted goal (OneScan.scan goal sorted) :=
          OneScan.scan_spec sorted
        generalize OneScan.scan goal sorted = r at hrest ⊢
        cases hrest with
        | exact hmem hsum => exact .exact (List.mem_cons_of_mem _ hmem) hsum
        | overshoot hmem hsum => exact .overshoot (List.mem_cons_of_mem _ hmem) hsum
        | miss hnone => exact .miss (List.forall_mem_cons.mpr ⟨hlow, hnone⟩)
      · rename_i diff hsub
        have hdiff := NoteAmount.checkedSub_eq_some.mp hsub
        split
        · exact OneScan.Spec.exact (x := (idx, x)) (List.mem_cons_self ..)
            (by show x.val = _; omega)
        · exact OneScan.Spec.overshoot (x := (idx, x)) (List.mem_cons_self ..) hdiff

/-! ## The depth-first search -/

variable {candidates : List Entry} {k : Nat}

/-- A path of `k` candidates that are worth `excess` more than the goal. -/
def Hits (candidates : List Entry) (goal : NoteAmount) (k : Nat) (path : List Nat)
    (excess : Nat) : Prop :=
  ∃ l : List Entry, l.Sublist candidates ∧ l.length = k ∧ l.map Prod.fst = path ∧
    total l = goal.val + excess

/-- The best overshoot of the search hits. -/
def DfsContext.Sound (candidates : List Entry) (goal : NoteAmount) (k : Nat)
    (ctx : DfsContext) : Prop :=
  ∀ b ∈ ctx.bestOvershoot, Hits candidates goal k b.2 b.1.val

/-- How a part of the search ends: with a path that meets the goal, or with
the path it began with. -/
def KScan.DfsSpec (candidates : List Entry) (goal : NoteAmount) (k : Nat) (ctx : DfsContext) :
    Bool × DfsContext → Prop
  | (true, ctx') => Hits candidates goal k ctx'.path 0
  | (false, ctx') => ctx'.path = ctx.path ∧ ctx'.Sound candidates goal k

theorem DfsContext.reached_spec {ctx : DfsContext} {sum : NoteAmount} {l : List Entry}
    (hs : ctx.Sound candidates goal k) (hl : l.Sublist candidates) (hlen : l.length = k)
    (hpath : ctx.path = l.map Prod.fst) (hsum : sum.val = total l) :
    KScan.DfsSpec candidates goal k ctx (ctx.reached goal sum) := by
  unfold DfsContext.reached
  split
  · exact ⟨rfl, hs⟩
  · rename_i diff hsub
    have hdiff := NoteAmount.checkedSub_eq_some.mp hsub
    have hhit : Hits candidates goal k ctx.path diff.val :=
      ⟨l, hl, hlen, hpath.symm, hsum.symm.trans hdiff⟩
    have hnew : DfsContext.Sound candidates goal k
        { ctx with bestOvershoot := some (diff, ctx.path) } := by
      intro b hb
      cases hb
      exact hhit
    split
    · rename_i hzero
      rwa [hzero] at hhit
    · split
      · exact ⟨rfl, hnew⟩
      · split
        · exact ⟨rfl, hnew⟩
        · exact ⟨rfl, hs⟩

/-- A path that is long enough and reaches the goal is never passed by. -/
theorem DfsContext.reached_isSome {ctx : DfsContext} {sum : NoteAmount}
    (hsum : goal.val ≤ sum.val) :
    (ctx.reached goal sum).1 = true ∨ (ctx.reached goal sum).2.bestOvershoot.isSome = true := by
  unfold DfsContext.reached
  split
  · rename_i hsub
    have hlow := NoteAmount.checkedSub_eq_none.mp hsub
    omega
  · split
    · exact Or.inl rfl
    · split
      · exact Or.inr rfl
      · rename_i best hbest
        split
        · exact Or.inr rfl
        · exact Or.inr (by rw [hbest]; rfl)

/-- What the search does on the candidates `rest`, with `l` picked before. By
recursion, as the source has it: with the next note, then without it. A path
that comes back without an answer is the one that went in, and what was kept of
it is sound. -/
theorem KScan.dfs_spec : ∀ {rest l : List Entry} {sum : NoteAmount} {ctx : DfsContext}
    {r : Bool × DfsContext}, (∀ s : List Entry, s.Sublist rest → (l ++ s).Sublist candidates) →
      ctx.path = l.map Prod.fst → sum.val = total l → ctx.Sound candidates goal k →
      KScan.dfs (F := F) goal k rest sum ctx = .ok r → KScan.DfsSpec candidates goal k ctx r
  | rest, l, sum, ctx, r, hsub, hpath, hsum, hs, hrun => by
      have hl : l.Sublist candidates := by simpa using hsub [] (List.nil_sublist _)
      have hreached (hlen : ctx.path.length = k) :
          KScan.DfsSpec candidates goal k ctx (ctx.reached goal sum) := by
        rw [hpath, List.length_map] at hlen
        exact DfsContext.reached_spec hs hl hlen hpath hsum
      cases rest with
      | nil =>
          rw [KScan.dfs, Except.ok.injEq] at hrun
          subst hrun
          split
          · rename_i hlen
            exact hreached hlen
          · exact ⟨rfl, hs⟩
      | cons e rest =>
          obtain ⟨noteIndex, noteAmount⟩ := e
          rw [KScan.dfs] at hrun
          split_ifs at hrun with hlen hstop
          · cases hrun
            exact hreached hlen
          · cases hrun
            exact ⟨rfl, hs⟩
          split at hrun
          · cases hrun
          rename_i withNote hadd
          obtain ⟨⟨found, ctx₁⟩, htake, hrun⟩ := bind_ok.mp hrun
          -- with the note, then without it
          have htaken : KScan.DfsSpec candidates goal k (ctx.push noteIndex) (found, ctx₁) := by
            refine KScan.dfs_spec (l := l ++ [(noteIndex, noteAmount)]) (fun s hsr => ?_) ?_ ?_
              hs htake
            · rw [List.append_assoc]
              exact hsub _ (hsr.cons_cons _)
            · show ctx.path ++ [noteIndex] = _
              rw [hpath, List.map_append]
              rfl
            · rw [NoteAmount.checkedAdd_eq_some.mp hadd, hsum]
              simp [amount]
          cases found with
          | true =>
              cases hrun
              exact htaken
          | false =>
              obtain ⟨hpath₁, hs₁⟩ := htaken
              have hback : ctx₁.pop.path = ctx.path := by
                show ctx₁.path.dropLast = _
                rw [hpath₁]
                exact List.dropLast_concat
              have hskipped : KScan.DfsSpec candidates goal k ctx₁.pop r :=
                KScan.dfs_spec (fun s hsr => hsub s (hsr.cons _)) (hback.trans hpath) hsum hs₁
                  hrun
              obtain ⟨found, ctx₂⟩ := r
              cases found with
              | true => exact hskipped
              | false =>
                  obtain ⟨hpath₂, hs₂⟩ := hskipped
                  exact ⟨hpath₂.trans hback, hs₂⟩

/-- The search has something to show. -/
def KScan.Shows (r : Bool × DfsContext) : Prop := r.1 = true ∨ r.2.bestOvershoot.isSome = true

theorem DfsContext.reached_shows {ctx : DfsContext} {sum : NoteAmount}
    (h : ctx.bestOvershoot.isSome = true) : KScan.Shows (ctx.reached goal sum) := by
  unfold DfsContext.reached
  split
  · exact Or.inr h
  · split
    · exact Or.inl rfl
    · split
      · exact Or.inr rfl
      · split
        · exact Or.inr rfl
        · exact Or.inr h

/-- No overshoot is lost. -/
theorem KScan.dfs_keeps : ∀ {rest : List Entry} {sum : NoteAmount} {ctx : DfsContext}
    {r : Bool × DfsContext}, ctx.bestOvershoot.isSome = true →
      KScan.dfs (F := F) goal k rest sum ctx = .ok r → KScan.Shows r
  | [], sum, ctx, r, h, hrun => by
      rw [KScan.dfs, Except.ok.injEq] at hrun
      subst hrun
      split
      · exact DfsContext.reached_shows h
      · exact Or.inr h
  | (noteIndex, noteAmount) :: rest, sum, ctx, r, h, hrun => by
      rw [KScan.dfs] at hrun
      split_ifs at hrun with hlen hstop
      · cases hrun
        exact DfsContext.reached_shows h
      · cases hrun
        exact Or.inr h
      split at hrun
      · cases hrun
      obtain ⟨⟨found, ctx₁⟩, htake, hrun⟩ := bind_ok.mp hrun
      cases found with
      | true =>
          cases hrun
          exact Or.inl rfl
      | false =>
          have hshown : KScan.Shows (false, ctx₁) :=
            KScan.dfs_keeps (show (ctx.push noteIndex).bestOvershoot.isSome = true from h) htake
          have hkept : ctx₁.pop.bestOvershoot.isSome = true := hshown.resolve_left nofun
          exact KScan.dfs_keeps hkept hrun

/-- The first descent takes the next `m` notes. If these, and no fewer, reach
the goal, then it ends in an answer: an exact one, or an overshoot that is
kept. It has as many steps as there are notes to take, so the bound on the
steps is not met before. -/
theorem KScan.dfs_first : ∀ {m : Nat} {rest : List Entry} {sum : NoteAmount} {ctx : DfsContext}
    {r : Bool × DfsContext}, ctx.path.length + m = k → m ≤ rest.length →
      m ≤ ctx.iterationLimit → (∀ n < m, sum.val + total (rest.take n) < goal.val) →
      goal.val ≤ sum.val + total (rest.take m) →
      KScan.dfs (F := F) goal k rest sum ctx = .ok r → KScan.Shows r
  | 0, rest, sum, ctx, r, hlen, _, _, _, hgoal, hrun => by
      rw [Nat.add_zero] at hlen
      have hshown : KScan.Shows (ctx.reached goal sum) :=
        DfsContext.reached_isSome (by simpa using hgoal)
      cases rest with
      | nil =>
          rw [KScan.dfs, if_pos hlen] at hrun
          cases hrun
          exact hshown
      | cons e rest =>
          rw [KScan.dfs, if_pos hlen] at hrun
          cases hrun
          exact hshown
  | m + 1, [], _, _, _, _, hm, _, _, _, _ => by
      rw [List.length_nil] at hm
      omega
  | m + 1, (noteIndex, noteAmount) :: rest, sum, ctx, r, hlen, hm, hlimit, hlow, hgoal, hrun => by
      have hsum : sum.val < goal.val := by simpa using hlow 0 (Nat.succ_pos m)
      rw [KScan.dfs, if_neg (by omega), if_neg (by omega)] at hrun
      split at hrun
      · cases hrun
      rename_i withNote hadd
      have hwith := NoteAmount.checkedAdd_eq_some.mp hadd
      have htake (n : Nat) : withNote.val + total (rest.take n)
          = sum.val + total (((noteIndex, noteAmount) :: rest).take (n + 1)) := by
        simp [hwith, amount, Nat.add_assoc]
      obtain ⟨⟨found, ctx₁⟩, hdown, hrun⟩ := bind_ok.mp hrun
      have hshown : KScan.Shows (found, ctx₁) := by
        refine KScan.dfs_first (m := m) ?_ ?_ ?_ (fun n hn => ?_) ?_ hdown
        · rw [DfsContext.push, List.length_append, List.length_singleton]
          omega
        · rw [List.length_cons] at hm
          omega
        · show m ≤ ctx.iterationLimit - 1
          omega
        · rw [htake]
          exact hlow (n + 1) (Nat.succ_lt_succ hn)
        · rw [htake]
          exact hgoal
      cases found with
      | true =>
          cases hrun
          exact Or.inl rfl
      | false =>
          have hkept : ctx₁.pop.bestOvershoot.isSome = true := hshown.resolve_left nofun
          exact KScan.dfs_keeps hkept hrun

/-! ## Three and more notes -/

/-- The `n` largest notes do not suffice. -/
def Short (largest : List Entry) (goal : NoteAmount) (n : Nat) : Prop :=
  total (largest.take n) < goal.val

/-- What the search answers: a choice of so many notes that fewer would not
suffice. -/
inductive KScan.Spec (largest : List Entry) (goal : NoteAmount) : KScan → Prop where
  | exact {k : Nat} {path : List Nat} (h : Hits largest goal k path 0)
      (hfewer : ∀ n < k, Short largest goal n) : Spec largest goal (.exact path)
  | overshoot {k : Nat} {path : List Nat} {excess : NoteAmount}
      (h : Hits largest goal k path excess.val) (hfewer : ∀ n < k, Short largest goal n) :
      Spec largest goal (.overshoot path excess)
  | miss (hnone : total largest < goal.val) : Spec largest goal .miss

/-- At the first size that suffices the search succeeds. By induction on the
sizes: one that was searched without an answer does not suffice, since
otherwise the first descent would have had one (`KScan.dfs_first`). -/
theorem KScan.sizes_spec : ∀ {m a : Nat} {r : Option KScan},
    a + m ≤ candidates.length + 1 → a + m ≤ 5001 → (∀ n < a, Short candidates goal n) →
      KScan.sizes (F := F) candidates goal (List.range' a m) = .ok r →
      ∀ result ∈ r, KScan.Spec candidates goal result
  | 0, _, _, _, _, _, hrun => by
      cases hrun
      exact fun _ h => by cases h
  | m + 1, a, r, hlen, hlimit, hshort, hrun => by
      rw [List.range'_succ, KScan.sizes] at hrun
      obtain ⟨⟨found, ctx⟩, hdfs, hrun⟩ := bind_ok.mp hrun
      have hspec : KScan.DfsSpec candidates goal a ⟨5000, [], none⟩ (found, ctx) :=
        KScan.dfs_spec (l := []) (fun s hs => by simpa using hs) rfl rfl
          (fun b hb => by cases hb) hdfs
      cases found with
      | true =>
          cases hrun
          intro result hresult
          cases hresult
          exact .exact hspec hshort
      | false =>
          obtain ⟨-, hs⟩ := hspec
          dsimp only at hrun
          rw [if_neg Bool.false_ne_true] at hrun
          split at hrun
          · rename_i excess overshootPath hbest
            cases hrun
            intro result hresult
            cases hresult
            exact .overshoot (hs _ hbest) hshort
          · -- no answer, so this size does not suffice either
            rename_i hbest
            refine KScan.sizes_spec (m := m) (by omega) (by omega) (fun n hn => ?_) hrun
            by_cases hna : n < a
            · exact hshort n hna
            obtain rfl : n = a := by omega
            by_contra hreach
            have hshown : KScan.Shows (false, ctx) :=
              KScan.dfs_first (m := n) (by simp) (by omega) (by show n ≤ 5000; omega)
                (fun j hj => by simpa [NoteAmount.zero, Short] using hshort j hj)
                (by simpa [NoteAmount.zero] using not_lt.mp hreach) hdfs
            rcases hshown with h | h
            · cases h
            · rw [hbest] at h
              cases h

/-- The largest notes until they suffice. As the candidates come in descending
order, `k` of them are worth no more than the first `k`. -/
theorem KScan.greedyLoop_spec {largest : List Entry} :
    ∀ {rest taken : List Entry} {sum : NoteAmount} {r : KScan}, taken ++ rest = largest →
      sum.val = total taken → (∀ n ≤ taken.length, Short largest goal n) →
      KScan.greedyLoop (F := F) goal rest sum (taken.map Prod.fst) = .ok r →
      KScan.Spec largest goal r
  | [], taken, sum, r, happ, _, hshort, hrun => by
      cases hrun
      have hall := hshort taken.length (le_refl _)
      rw [List.append_nil] at happ
      rw [Short, ← happ, List.take_length] at hall
      exact .miss (happ ▸ hall)
  | (idx, x) :: rest, taken, sum, r, happ, hsum, hshort, hrun => by
      rw [KScan.greedyLoop] at hrun
      split at hrun
      · cases hrun
      rename_i sum' hadd
      have happ' : (taken ++ [(idx, x)]) ++ rest = largest := by
        rw [← happ, List.append_assoc]
        rfl
      have hsum' : sum'.val = total (taken ++ [(idx, x)]) := by
        rw [NoteAmount.checkedAdd_eq_some.mp hadd, hsum]
        simp [amount]
      have htake : largest.take (taken.length + 1) = taken ++ [(idx, x)] := by
        rw [← happ']
        exact List.take_left' (by simp)
      rw [show taken.map Prod.fst ++ [idx] = (taken ++ [(idx, x)]).map Prod.fst by simp] at hrun
      split at hrun
      · rename_i excess hsub
        cases hrun
        refine .overshoot (k := taken.length + 1) ⟨taken ++ [(idx, x)], ?_, by simp, rfl, ?_⟩
          fun n hn => hshort n (by omega)
        · rw [← htake]
          exact List.take_sublist _ _
        · rw [← hsum']
          exact NoteAmount.checkedSub_eq_some.mp hsub
      · rename_i hsub
        have hlow := NoteAmount.checkedSub_eq_none.mp hsub
        refine KScan.greedyLoop_spec happ' hsum' (fun n hn => ?_) hrun
        rw [List.length_append, List.length_singleton] at hn
        rcases Nat.eq_or_lt_of_le hn with rfl | hlt
        · rw [Short, htake, ← hsum']
          exact hlow
        · exact hshort n (by omega)

theorem short_of_miss (hone : ∀ x ∈ sorted, amount x < goal.val)
    (htwo : sorted.Pairwise fun x y => amount x + amount y < goal.val) (hgoal : 0 < goal.val) :
    ∀ n < 3, Short sorted.reverse goal n := by
  intro n hn
  have hone' : ∀ x ∈ sorted.reverse, amount x < goal.val :=
    fun x hx => hone x (List.mem_reverse.mp hx)
  have htwo' : sorted.reverse.Pairwise fun x y => amount y + amount x < goal.val :=
    List.pairwise_reverse.mpr htwo
  unfold Short
  match n, sorted.reverse, hone', htwo' with
  | 0, _, _, _ => simpa using hgoal
  | _, [], _, _ => simpa using hgoal
  | n + 1, [x], hone', _ => simpa using hone' x (List.mem_singleton_self x)
  | 1, x :: _ :: _, hone', _ => simpa using hone' x (List.mem_cons_self ..)
  | 2, x :: y :: _, _, htwo' =>
      have hxy := List.rel_of_pairwise_cons htwo' (List.mem_cons_self ..)
      simp only [List.take_succ_cons, List.take_zero, weight_cons, weight_nil]
      omega

theorem KScan.scan_spec (hone : ∀ x ∈ sorted, amount x < goal.val)
    (htwo : sorted.Pairwise fun x y => amount x + amount y < goal.val) (hgoal : 0 < goal.val)
    {r : KScan} (hrun : KScan.scan (F := F) sorted goal = .ok r) :
    KScan.Spec sorted.reverse goal r := by
  have hall : (sorted.filter fun e => decide (e.2.val < goal.val)) = sorted :=
    List.filter_eq_self.mpr fun x hx => decide_eq_true (hone x hx)
  have hshort := short_of_miss hone htwo hgoal
  have hgreedy (h : KScan.greedyImpl (F := F) sorted goal = .ok r) :
      KScan.Spec sorted.reverse goal r := by
    refine KScan.greedyLoop_spec (List.nil_append _) rfl (fun n hn => hshort n ?_) h
    exact (Nat.le_zero.mp hn) ▸ Nat.succ_pos 2
  unfold KScan.scan at hrun
  rw [hall] at hrun
  dsimp only at hrun
  split at hrun
  · rename_i hlen
    obtain ⟨found, hsizes, hrun⟩ := bind_ok.mp hrun
    cases found with
    | none => exact hgreedy hrun
    | some result =>
        cases hrun
        refine KScan.sizes_spec ?_ ?_ hshort hsizes _ rfl
        · omega
        · unfold transactionLimit
          omega
  · exact hgreedy hrun

/-! ## All tiers -/

variable {values : List NoteAmount} {sort : UnstableSort}

/-- A choice of notes, each at most once, that reaches the goal with as few
notes as possible, except that a pair may stand where one note would do. No
pair that reaches the goal is worth less than a chosen pair. -/
structure Chosen (values : List NoteAmount) (goal : NoteAmount) (picked : List Entry) :
    Prop where
  nonempty : picked ≠ []
  subperm : picked.Subperm (enumerate values)
  fewest : ∀ other : List Entry, other ≠ [] → other.Subperm (enumerate values) →
    goal.val ≤ total other → picked.length ≤ max 2 other.length
  closest : picked.length = 2 → ∀ other : List Entry, other.length = 2 →
    other.Subperm (enumerate values) → goal.val ≤ total other → total picked ≤ total other
  descending : 3 ≤ picked.length → Descending amount picked

/-- What `find_combination` answers. -/
def Answers (values : List NoteAmount) (goal : NoteAmount) :
    Option (List Nat × Option NoteAmount) → Prop
  | none => total (enumerate values) < goal.val ∨ values = []
  | some (indices, change) => ∃ picked, Chosen values goal picked ∧
      indices = picked.map Prod.fst ∧
      total picked = goal.val + change.elim 0 NoteAmount.val

/-- What holds of all pairs of the sorted notes holds of every choice of two. -/
theorem least_of_subperm {excess : Nat}
    (hleast : (sort.run (enumerate values)).Pairwise (Least goal excess)) {other : List Entry}
    (hlen : other.length = 2) (hother : other.Subperm (enumerate values)) :
    total other < goal.val ∨ goal.val + excess ≤ total other := by
  obtain ⟨s, hperm, hsub⟩ := hother.trans (sort.perm _).symm.subperm
  rw [← hperm.length_eq] at hlen
  obtain ⟨a, b, rfl⟩ := List.length_eq_two.mp hlen
  have htotal : total other = amount a + amount b := by
    rw [total, ← weight_perm amount hperm]
    simp
  rw [htotal]
  exact List.pairwise_iff_forall_sublist.mp hleast hsub

theorem answers_two {x y : Entry} {change : Option NoteAmount}
    (hsub : [x, y].Sublist (sort.run (enumerate values)))
    (hsum : amount x + amount y = goal.val + change.elim 0 NoteAmount.val)
    (hleast : (sort.run (enumerate values)).Pairwise
      (Least goal (change.elim 0 NoteAmount.val))) :
    Answers values goal (some ([x.1, y.1], change)) := by
  have htotal : total [x, y] = goal.val + change.elim 0 NoteAmount.val := by simpa
  refine ⟨[x, y], ⟨by simp, hsub.subperm.trans (sort.perm _).subperm, ?_, ?_, ?_⟩, rfl, htotal⟩
  · exact fun other _ _ _ => le_max_left 2 _
  · intro _ other hlen hother hreach
    rcases least_of_subperm hleast hlen hother with hlow | hle
    · omega
    · omega
  · intro h
    simp at h

theorem answers_one {x : Entry} {change : Option NoteAmount}
    (hmem : x ∈ sort.run (enumerate values))
    (hsum : amount x = goal.val + change.elim 0 NoteAmount.val) :
    Answers values goal (some ([x.1], change)) := by
  refine ⟨[x], ⟨by simp, (List.singleton_sublist.mpr hmem).subperm.trans (sort.perm _).subperm,
    ?_, ?_, ?_⟩, rfl, by simpa⟩
  · exact fun other _ _ _ => (show 1 ≤ 2 by omega).trans (le_max_left 2 _)
  · intro h
    simp at h
  · intro h
    simp at h

theorem answers_k (hthree : ∀ n < 3, Short (sort.run (enumerate values)).reverse goal n)
    {path : List Nat} (change : Option NoteAmount)
    (h : Hits (sort.run (enumerate values)).reverse goal k path (change.elim 0 NoteAmount.val))
    (hfewer : ∀ n < k, Short (sort.run (enumerate values)).reverse goal n) :
    Answers values goal (some (path, change)) := by
  obtain ⟨l, hl, rfl, rfl, hsum⟩ := h
  have hdesc : Descending amount (sort.run (enumerate values)).reverse :=
    List.pairwise_reverse.mpr (sort.sorted _)
  have hperm : (sort.run (enumerate values)).reverse.Perm (enumerate values) :=
    (List.reverse_perm _).trans (sort.perm _)
  -- as many of the largest notes are worth no less
  have hmost (other : List Entry) (hother : other.Subperm (enumerate values)) :
      total other ≤ total ((sort.run (enumerate values)).reverse.take other.length) :=
    weight_le_take_of_subperm hdesc (hother.trans hperm.symm.subperm)
  have hlen : 3 ≤ l.length := by
    refine Nat.le_of_not_lt fun hlt => ?_
    have hle := hmost l (hl.subperm.trans hperm.subperm)
    have hlow := hthree l.length hlt
    unfold Short at hlow
    omega
  refine ⟨l, ⟨?_, hl.subperm.trans hperm.subperm, fun other _ hother hreach => ?_,
    fun htwo => by omega, fun _ => hdesc.sublist hl⟩, rfl, hsum⟩
  · rintro rfl
    rw [List.length_nil] at hlen
    omega
  · refine le_max_of_le_right (Nat.le_of_not_lt fun hlt => ?_)
    have hle := hmost other hother
    have hlow := hfewer other.length hlt
    unfold Short at hlow
    omega

/-- The choice is one of fewest notes. Each tier says by its `Spec` what its
miss means for the next one: where no pair and no single note reach the goal,
three notes are needed, and the search starts there. -/
theorem findCombination_answers {r : CombinationResult}
    (hrun : findCombination (F := F) sort values goal = .ok r) :
    Answers values goal r.selection := by
  unfold findCombination at hrun
  split at hrun
  · rename_i hempty
    cases hrun
    exact Or.inr (List.isEmpty_iff.mp hempty)
  rename_i hne
  obtain ⟨two, htwo, hrun⟩ := bind_ok.mp hrun
  have hspec₂ := TwoScan.scan_spec (sort.sorted _) htwo
  have hspec₁ : OneScan.Spec _ goal _ := OneScan.scan_spec (sort.run (enumerate values))
  generalize OneScan.scan goal (sort.run (enumerate values)) = one at hspec₁ hrun
  cases hspec₂ with
  | exact hsub hsum =>
      cases hrun
      exact answers_two hsub hsum (List.pairwise_of_forall fun x y => Nat.lt_or_ge _ _)
  | overshoot hsub hsum hleast =>
      cases hspec₁ with
      | exact hmem hsum₁ =>
          cases hrun
          exact answers_one hmem hsum₁
      | overshoot _ _ =>
          cases hrun
          exact answers_two hsub hsum hleast
      | miss _ =>
          cases hrun
          exact answers_two hsub hsum hleast
  | miss hpairs =>
      cases hspec₁ with
      | exact hmem hsum₁ =>
          cases hrun
          exact answers_one hmem hsum₁
      | overshoot hmem hsum₁ =>
          cases hrun
          exact answers_one hmem hsum₁
      | miss hnone =>
          have hgoal : 0 < goal.val := by
            obtain ⟨v, values', rfl⟩ := List.exists_cons_of_ne_nil
              (fun h => hne (List.isEmpty_iff.mpr h))
            have hmem : (0, v) ∈ sort.run (enumerate (v :: values')) :=
              (sort.perm _).mem_iff.mpr (by simp [enumerate])
            exact (Nat.zero_le _).trans_lt (hnone _ hmem)
          obtain ⟨found, hscan, hrun⟩ := bind_ok.mp hrun
          have hspec := KScan.scan_spec hnone hpairs hgoal hscan
          have hthree := short_of_miss hnone hpairs hgoal
          cases hspec with
          | exact h hfewer =>
              cases hrun
              exact answers_k hthree none h hfewer
          | overshoot h hfewer =>
              cases hrun
              exact answers_k hthree (some _) h hfewer
          | miss hlow =>
              cases hrun
              refine Or.inl ?_
              have hperm : (sort.run (enumerate values)).reverse.Perm (enumerate values) :=
                (List.reverse_perm _).trans (sort.perm _)
              rwa [total, weight_perm amount hperm] at hlow

/-! ## No error without an overflow -/

theorem total_le_of_sublist {l m : List Entry} (h : l.Sublist m) : total l ≤ total m :=
  weight_le_of_subperm h.subperm

theorem TwoScan.loop_total (hfit : total sorted < 2 ^ 128) :
    ∀ {gap left : Nat} (h : left + gap < sorted.length)
      (best : Option (Nat × Nat × NoteAmount)),
      ∃ r, TwoScan.loop (F := F) sorted goal gap left h best = .ok r
  | 0, _, _, _ => ⟨_, rfl⟩
  | gap + 1, left, h, best => by
      rw [TwoScan.loop]
      have hpair : [sorted[left], sorted[left + (gap + 1)]].Sublist sorted :=
        pair_sublist (by omega) h
      split
      · rename_i hadd
        have hfull := NoteAmount.checkedAdd_eq_none.mp hadd
        have hsum : amount sorted[left] + amount sorted[left + (gap + 1)] ≤ total sorted := by
          simpa using total_le_of_sublist hpair
        have hle : 2 ^ 128 ≤ total sorted := hfull.trans hsum
        omega
      · split
        · exact TwoScan.loop_total hfit _ _
        · split
          · exact ⟨_, rfl⟩
          · exact TwoScan.loop_total hfit _ _

theorem TwoScan.scan_total (hfit : total sorted < 2 ^ 128) :
    ∃ r, TwoScan.scan (F := F) sorted goal = .ok r := by
  unfold TwoScan.scan
  split
  · exact ⟨_, rfl⟩
  · exact TwoScan.loop_total hfit _ _

theorem KScan.dfs_total (hfit : total candidates < 2 ^ 128) :
    ∀ {rest l : List Entry} {sum : NoteAmount} (ctx : DfsContext),
      (∀ s : List Entry, s.Sublist rest → (l ++ s).Sublist candidates) → sum.val = total l →
      ∃ r, KScan.dfs (F := F) goal k rest sum ctx = .ok r
  | [], _, _, _, _, _ => ⟨_, rfl⟩
  | (noteIndex, noteAmount) :: rest, l, sum, ctx, hsub, hsum => by
      have htaken (s : List Entry) (hs : s.Sublist rest) :
          ((l ++ [(noteIndex, noteAmount)]) ++ s).Sublist candidates := by
        rw [List.append_assoc]
        exact hsub _ (hs.cons_cons _)
      have hnext : sum.val + noteAmount.val = total (l ++ [(noteIndex, noteAmount)]) := by
        rw [hsum]
        simp [amount]
      rw [KScan.dfs]
      split_ifs
      · exact ⟨_, rfl⟩
      · exact ⟨_, rfl⟩
      split
      · rename_i hadd
        have hfull := NoteAmount.checkedAdd_eq_none.mp hadd
        have hle := total_le_of_sublist (htaken [] (List.nil_sublist _))
        rw [List.append_nil] at hle
        omega
      · rename_i withNote hadd
        have hwith := (NoteAmount.checkedAdd_eq_some.mp hadd).trans hnext
        obtain ⟨⟨found, ctx₁⟩, hdown⟩ := KScan.dfs_total hfit (ctx.push noteIndex) htaken hwith
        rw [hdown]
        show ∃ r, (if found = true then Except.ok (true, ctx₁) else _) = Except.ok r
        split
        · exact ⟨_, rfl⟩
        · exact KScan.dfs_total hfit ctx₁.pop (fun s hs => hsub s (hs.cons _)) hsum

theorem KScan.sizes_total (hfit : total candidates < 2 ^ 128) :
    ∀ ks : List Nat, ∃ r, KScan.sizes (F := F) candidates goal ks = .ok r
  | [] => ⟨_, rfl⟩
  | k :: ks => by
      have hdfs : ∃ r, KScan.dfs (F := F) goal k candidates .zero ⟨5000, [], none⟩ = .ok r :=
        KScan.dfs_total (l := []) hfit _ (fun s hs => by simpa using hs) rfl
      obtain ⟨⟨found, ctx⟩, hdfs⟩ := hdfs
      rw [KScan.sizes, hdfs]
      show ∃ r, (if found = true then Except.ok (some (KScan.exact ctx.path)) else _)
        = Except.ok r
      split
      · exact ⟨_, rfl⟩
      · split
        · exact ⟨_, rfl⟩
        · exact KScan.sizes_total hfit ks

theorem KScan.greedyLoop_total {largest : List Entry} (hfit : total largest < 2 ^ 128) :
    ∀ {rest taken : List Entry} {sum : NoteAmount} (picks : List Nat), taken ++ rest = largest →
      sum.val = total taken → ∃ r, KScan.greedyLoop (F := F) goal rest sum picks = .ok r
  | [], _, _, _, _, _ => ⟨_, rfl⟩
  | (idx, x) :: rest, taken, sum, picks, happ, hsum => by
      have happ' : (taken ++ [(idx, x)]) ++ rest = largest := by
        rw [← happ, List.append_assoc]
        rfl
      have hnext : sum.val + x.val = total (taken ++ [(idx, x)]) := by
        rw [hsum]
        simp [amount]
      rw [KScan.greedyLoop]
      split
      · rename_i hadd
        have hfull := NoteAmount.checkedAdd_eq_none.mp hadd
        have hle := total_le_of_sublist (List.sublist_append_left (taken ++ [(idx, x)]) rest)
        rw [happ'] at hle
        omega
      · rename_i sum' hadd
        have hsum' := (NoteAmount.checkedAdd_eq_some.mp hadd).trans hnext
        split
        · exact ⟨_, rfl⟩
        · exact KScan.greedyLoop_total hfit _ happ' hsum'

theorem KScan.scan_total (hfit : total sorted < 2 ^ 128) :
    ∃ r, KScan.scan (F := F) sorted goal = .ok r := by
  have hgreedy : ∃ r, KScan.greedyImpl (F := F) sorted goal = .ok r := by
    have hfit' : total sorted.reverse < 2 ^ 128 := by
      rwa [total, weight_perm amount (List.reverse_perm sorted)]
    exact KScan.greedyLoop_total hfit' [] (List.nil_append _) rfl
  unfold KScan.scan
  dsimp only
  split
  · have hcand : total (sorted.filter fun e => decide (e.2.val < goal.val)).reverse
        < 2 ^ 128 := by
      rw [total, weight_perm amount (List.reverse_perm _)]
      exact (total_le_of_sublist List.filter_sublist).trans_lt hfit
    obtain ⟨found, hsizes⟩ := KScan.sizes_total hcand _
    rw [hsizes]
    cases found with
    | none => exact hgreedy
    | some result => exact ⟨result, rfl⟩
  · exact hgreedy

theorem findCombination_total (hfit : total (enumerate values) < 2 ^ 128) :
    ∃ r, findCombination (F := F) sort values goal = .ok r := by
  have hsorted : total (sort.run (enumerate values)) < 2 ^ 128 := by
    rwa [total, weight_perm amount (sort.perm _)]
  unfold findCombination
  split
  · exact ⟨_, rfl⟩
  obtain ⟨two, htwo⟩ : ∃ r, TwoScan.scan (F := F) _ goal = .ok r := TwoScan.scan_total hsorted
  obtain ⟨found, hk⟩ : ∃ r, KScan.scan (F := F) _ goal = .ok r := KScan.scan_total hsorted
  dsimp only
  rw [htwo, hk]
  cases two with
  | exact i j => exact ⟨_, rfl⟩
  | overshoot i j excess =>
      cases OneScan.scan goal (sort.run (enumerate values)) <;> exact ⟨_, rfl⟩
  | miss =>
      cases OneScan.scan goal (sort.run (enumerate values)) with
      | exact i => exact ⟨_, rfl⟩
      | overshoot i excess => exact ⟨_, rfl⟩
      | miss => cases found <;> exact ⟨_, rfl⟩

/-- A sort that keeps equal amounts in order. -/
def insertionSort : UnstableSort where
  run l := l.insertionSort fun a b => a.2.val ≤ b.2.val
  perm l := List.perm_insertionSort _ l
  sorted l := by
    have htotal : Std.Total fun a b : Entry => a.2.val ≤ b.2.val :=
      ⟨fun a b => Nat.le_total a.2.val b.2.val⟩
    have htrans : IsTrans Entry fun a b => a.2.val ≤ b.2.val :=
      ⟨fun _ _ _ => Nat.le_trans⟩
    exact List.pairwise_insertionSort _ l

end Planner

end PrivacyWallet
