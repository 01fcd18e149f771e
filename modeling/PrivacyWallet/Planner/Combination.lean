import Mathlib.Algebra.Order.Group.Nat
import Mathlib.Tactic.Common

/-!
# Choosing notes for an amount

`find_combination` of the planner: a pair that meets the amount, a single
note that does, a pair or a single note that exceeds it, then a bounded search
through three and more notes, and in the end the largest notes until they
suffice. Positions in the wallet stand for the notes.
-/

namespace PrivacyWallet

namespace Planner

/-- `NoteAmount`, a `u128`. -/
structure NoteAmount where
  val : Nat
  lt : val < 2 ^ 128
deriving DecidableEq

namespace NoteAmount

def zero : NoteAmount := ⟨0, by decide⟩

def checkedAdd (a b : NoteAmount) : Option NoteAmount :=
  if h : a.val + b.val < 2 ^ 128 then some ⟨a.val + b.val, h⟩ else none

def checkedSub (a b : NoteAmount) : Option NoteAmount :=
  if b.val ≤ a.val then some ⟨a.val - b.val, (Nat.sub_le _ _).trans_lt a.lt⟩ else none

theorem ext_val {a b : NoteAmount} (h : a.val = b.val) : a = b := by
  cases a
  cases b
  cases h
  rfl

theorem checkedAdd_eq_some {a b c : NoteAmount} :
    a.checkedAdd b = some c ↔ c.val = a.val + b.val := by
  unfold checkedAdd
  split
  · rw [Option.some.injEq]
    exact ⟨fun h => h ▸ rfl, fun h => ext_val h.symm⟩
  · rename_i hfull
    refine ⟨nofun, fun h => absurd c.lt ?_⟩
    rwa [h]

theorem checkedAdd_eq_none {a b : NoteAmount} :
    a.checkedAdd b = none ↔ 2 ^ 128 ≤ a.val + b.val := by
  unfold checkedAdd
  split <;> simp <;> omega

theorem checkedSub_eq_some {a b c : NoteAmount} :
    a.checkedSub b = some c ↔ a.val = b.val + c.val := by
  unfold checkedSub
  split
  · rw [Option.some.injEq]
    refine ⟨fun h => ?_, fun h => ext_val ?_⟩
    · rw [← h]
      show a.val = b.val + (a.val - b.val)
      omega
    · show a.val - b.val = c.val
      omega
  · refine ⟨nofun, fun h => ?_⟩
    omega

theorem checkedSub_eq_none {a b : NoteAmount} : a.checkedSub b = none ↔ a.val < b.val := by
  unfold checkedSub
  split <;> simp <;> omega

end NoteAmount

/-- `PlanError`, without the internal errors that need a position past the
end of a `usize`. -/
inductive PlanError (F : Type) where
  | noSpendableNotes
  | noCombination
  | tooManyNotes (selected maxNotes : Nat)
  | noteIndexOutOfRange (index : Nat)
  | inputAmountOverflow
  | invalidPlan
  | commitmentNotFound (commitment : F)
  | noteAmountMismatch (commitment : F) (actual expected : NoteAmount)
  | noNoteForAmount (amount : NoteAmount)
  | ambiguousNoteForAmount (amount : NoteAmount)
deriving DecidableEq

/-- `TRANSACTION_LIMIT` -/
def transactionLimit : Nat := 10

inductive CombinationResult where
  | twoExact (i j : Nat)
  | oneExact (i : Nat)
  | twoOvershoot (i j : Nat) (excess : NoteAmount)
  | oneOvershoot (i : Nat) (excess : NoteAmount)
  | exactK (indices : List Nat)
  | overshoot (indices : List Nat) (excess : NoteAmount)
  | impossible
deriving DecidableEq

/-- The positions and the change that `plan` reads off. -/
def CombinationResult.selection : CombinationResult → Option (List Nat × Option NoteAmount)
  | .impossible => none
  | .oneExact i => some ([i], none)
  | .twoExact i j => some ([i, j], none)
  | .oneOvershoot i excess => some ([i], some excess)
  | .twoOvershoot i j excess => some ([i, j], some excess)
  | .exactK indices => some (indices, none)
  | .overshoot indices excess => some (indices, some excess)

/-- A position with the amount of the note there. -/
abbrev Entry : Type := Nat × NoteAmount

/-- `values.iter().copied().enumerate()` -/
def enumerate (values : List NoteAmount) : List Entry :=
  values.zipIdx.map Prod.swap

/-- `sort_unstable_by_key(|&(_, x)| x)`, which may leave equal amounts in any
order. -/
structure UnstableSort where
  run : List Entry → List Entry
  perm : ∀ l, (run l).Perm l
  sorted : ∀ l, (run l).Pairwise fun a b => a.2.val ≤ b.2.val

variable {F : Type}

/-! ## Pairs -/

inductive TwoScan where
  | exact (i j : Nat)
  | overshoot (i j : Nat) (excess : NoteAmount)
  | miss
deriving DecidableEq

/-- `best_overshoot` after another overshoot; the first of equally small ones
stays. -/
def TwoScan.improve (bestOvershoot : Option (Nat × Nat × NoteAmount))
    (found : Nat × Nat × NoteAmount) : Option (Nat × Nat × NoteAmount) :=
  match bestOvershoot with
  | none => some found
  | some best => if found.2.2.val < best.2.2.val then some found else some best

/-- The loop of `TwoScan::scan`; `right` is `left + gap`. -/
def TwoScan.loop (sorted : List Entry) (goal : NoteAmount) :
    (gap left : Nat) → left + gap < sorted.length → Option (Nat × Nat × NoteAmount) →
      Except (PlanError F) TwoScan
  | 0, _, _, bestOvershoot =>
      .ok (match bestOvershoot with
        | some (i, j, excess) => .overshoot i j excess
        | none => .miss)
  | gap + 1, left, h, bestOvershoot =>
      match sorted[left].2.checkedAdd sorted[left + (gap + 1)].2 with
      | none => .error .inputAmountOverflow
      | some sum =>
          match sum.checkedSub goal with
          | none => loop sorted goal gap (left + 1) (by omega) bestOvershoot
          | some diff =>
              if diff.val = 0 then .ok (.exact sorted[left].1 sorted[left + (gap + 1)].1)
              else
                loop sorted goal gap left (by omega)
                  (improve bestOvershoot (sorted[left].1, sorted[left + (gap + 1)].1, diff))

/-- `TwoScan::scan` -/
def TwoScan.scan (sorted : List Entry) (goal : NoteAmount) : Except (PlanError F) TwoScan :=
  if h : sorted.length < 2 then .ok .miss
  else TwoScan.loop sorted goal (sorted.length - 1) 0 (by omega) none

/-! ## Single notes -/

inductive OneScan where
  | exact (i : Nat)
  | overshoot (i : Nat) (excess : NoteAmount)
  | miss
deriving DecidableEq

/-- `OneScan::scan` -/
def OneScan.scan (goal : NoteAmount) : List Entry → OneScan
  | [] => .miss
  | (idx, x) :: sorted =>
      match x.checkedSub goal with
      | none => scan goal sorted
      | some diff => if diff.val = 0 then .exact idx else .overshoot idx diff

/-! ## Three and more notes -/

inductive KScan where
  | exact (indices : List Nat)
  | overshoot (indices : List Nat) (excess : NoteAmount)
  | miss
deriving DecidableEq

/-- What `DfsContext` lets the search change. -/
structure DfsContext where
  iterationLimit : Nat
  path : List Nat
  bestOvershoot : Option (NoteAmount × List Nat)
deriving DecidableEq

/-- One step less, and the note on the path. -/
def DfsContext.push (ctx : DfsContext) (noteIndex : Nat) : DfsContext :=
  { ctx with
    iterationLimit := ctx.iterationLimit - 1
    path := ctx.path ++ [noteIndex] }

/-- `ctx.path.pop()` -/
def DfsContext.pop (ctx : DfsContext) : DfsContext := { ctx with path := ctx.path.dropLast }

/-- The start of `KScan::dfs`, when the path is long enough. -/
def DfsContext.reached (ctx : DfsContext) (goal sum : NoteAmount) : Bool × DfsContext :=
  match sum.checkedSub goal with
  | none => (false, ctx)
  | some diff =>
      if diff.val = 0 then (true, ctx)
      else
        match ctx.bestOvershoot with
        | none => (false, { ctx with bestOvershoot := some (diff, ctx.path) })
        | some best =>
            if diff.val < best.1.val then
              (false, { ctx with bestOvershoot := some (diff, ctx.path) })
            else (false, ctx)

/-- `KScan::dfs` on the candidates from `index` on. -/
def KScan.dfs (goal : NoteAmount) (targetK : Nat) :
    List Entry → NoteAmount → DfsContext → Except (PlanError F) (Bool × DfsContext)
  | [], sum, ctx =>
      .ok (if ctx.path.length = targetK then ctx.reached goal sum else (false, ctx))
  | (noteIndex, noteAmount) :: candidates, sum, ctx =>
      if ctx.path.length = targetK then .ok (ctx.reached goal sum)
      else if goal.val ≤ sum.val ∨ ctx.iterationLimit = 0 then .ok (false, ctx)
      else
        match sum.checkedAdd noteAmount with
        | none => .error .inputAmountOverflow
        | some withNote => do
            let (found, ctx) ← dfs goal targetK candidates withNote (ctx.push noteIndex)
            if found then .ok (true, ctx)
            else dfs goal targetK candidates sum ctx.pop

/-- The loop of `KScan::scan` over the sizes `ks`. -/
def KScan.sizes (candidates : List Entry) (goal : NoteAmount) :
    List Nat → Except (PlanError F) (Option KScan)
  | [] => .ok none
  | k :: ks => do
      let (found, ctx) ← KScan.dfs goal k candidates .zero ⟨5000, [], none⟩
      if found then .ok (some (.exact ctx.path))
      else
        match ctx.bestOvershoot with
        | some (excess, overshootPath) => .ok (some (.overshoot overshootPath excess))
        | none => sizes candidates goal ks

/-- The loop of `KScan::greedy_impl`; the largest notes come first. -/
def KScan.greedyLoop (goal : NoteAmount) :
    List Entry → NoteAmount → List Nat → Except (PlanError F) KScan
  | [], _, _ => .ok .miss
  | (idx, x) :: rest, total, picks =>
      match total.checkedAdd x with
      | none => .error .inputAmountOverflow
      | some total =>
          match total.checkedSub goal with
          | some excess => .ok (.overshoot (picks ++ [idx]) excess)
          | none => greedyLoop goal rest total (picks ++ [idx])

/-- `KScan::greedy_impl` -/
def KScan.greedyImpl (sorted : List Entry) (goal : NoteAmount) : Except (PlanError F) KScan :=
  KScan.greedyLoop goal sorted.reverse .zero []

/-- `KScan::scan` -/
def KScan.scan (sorted : List Entry) (goal : NoteAmount) : Except (PlanError F) KScan :=
  let candidatesDesc := (sorted.filter fun e => decide (e.2.val < goal.val)).reverse
  if 3 ≤ candidatesDesc.length then do
    let maxK := min candidatesDesc.length transactionLimit
    match ← KScan.sizes candidatesDesc goal (List.range' 3 (maxK - 2)) with
    | some result => .ok result
    | none => KScan.greedyImpl sorted goal
  else KScan.greedyImpl sorted goal

/-! ## The tiers -/

/-- `find_combination` -/
def findCombination (sort : UnstableSort) (values : List NoteAmount) (goal : NoteAmount) :
    Except (PlanError F) CombinationResult :=
  if values.isEmpty = true then .ok .impossible
  else do
    let sortedVals := sort.run (enumerate values)
    let two ← TwoScan.scan sortedVals goal
    let one := OneScan.scan goal sortedVals
    match two, one with
    | .exact i j, _ => .ok (.twoExact i j)
    | _, .exact i => .ok (.oneExact i)
    | .overshoot i j excess, _ => .ok (.twoOvershoot i j excess)
    | .miss, .overshoot i excess => .ok (.oneOvershoot i excess)
    | .miss, .miss =>
        match ← KScan.scan sortedVals goal with
        | .exact indices => .ok (.exactK indices)
        | .overshoot indices excess => .ok (.overshoot indices excess)
        | .miss => .ok .impossible

end Planner

end PrivacyWallet
